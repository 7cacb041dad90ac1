import ResearchLedger.Toml.Scalar
/-!
Reading TOML in which every line is blank, a section's header or a key with its value, where a value may
go over several lines. The document is read as a JSON object, and each section as an object in it.
-/

namespace ResearchLedger.Toml

/-- What a line holds. -/
inductive Line where
  | blank
  | header (name : String)
  | entry (key : String) (value : Json)

/-- Reads the end of a line, in front of which blanks and a comment may stand, and gives the next lines. -/
def lineEnd? (s : List Char) : Option (List Char) :=
  match s.dropWhile isSpace with
  | [] => some []
  | '\n' :: s => some s
  | '#' :: s =>
    if (s.takeWhile (· != '\n')).any isControl then none else some ((s.dropWhile (· != '\n')).drop 1)
  | _ => none

/-- A character of a key without quotes. -/
def isKeyChar (c : Char) : Bool := c.isAlphanum || c == '_' || c == '-'

/-- Reads a key, and gives what follows it. -/
def key? (s : List Char) : Option (String × List Char) :=
  match Quotes.open? s with
  | some (q, s) => if q.isBlock then none else q.string? s
  | none =>
    let name := s.takeWhile isKeyChar
    if name.isEmpty then none else some (String.ofList name, s.dropWhile isKeyChar)

/-- Reads a header after its opening bracket, and gives the next lines. -/
def header? (s : List Char) : Option (Line × List Char) := do
  let (name, s) ← key? (s.dropWhile isSpace)
  match s.dropWhile isSpace with
  | ']' :: s => (.header name, ·) <$> lineEnd? s
  | _ => none

/-- Reads a key with its value, and gives the next lines. -/
def entry? (s : List Char) : Option (Line × List Char) := do
  let (key, s) ← key? s
  match s.dropWhile isSpace with
  | '=' :: s =>
    let (value, s) ← scalar? (s.dropWhile isSpace)
    (.entry key value, ·) <$> lineEnd? s
  | _ => none

/-- Reads one line, and gives the next lines. -/
def line? (s : List Char) : Option (Line × List Char) :=
  match lineEnd? s with
  | some rest => some (.blank, rest)
  | none =>
    match s.dropWhile isSpace with
    | '[' :: s => header? s
    | s => entry? s

/-- The end of a line takes up its newline, unless the text ends. -/
theorem length_lt_of_lineEnd? {s rest : List Char} (h : lineEnd? s = some rest) :
    rest.length < s.length ∨ rest = [] := by
  have := length_dropWhile_le isSpace s
  unfold lineEnd? at h
  split at h
  · grind
  · grind
  · rename_i s' _
    have := length_dropWhile_le (· != '\n') s'
    grind
  · simp at h

theorem length_le_of_key? {s rest : List Char} {name : String} (h : key? s = some (name, rest)) :
    rest.length ≤ s.length := by
  unfold key? at h
  split at h
  · rename_i q s' ho
    have := Quotes.length_lt_of_open? ho
    split at h
    · simp at h
    · have := Quotes.length_lt_of_string? h
      omega
  · have := length_dropWhile_le isKeyChar s
    grind

theorem length_lt_of_header? {s rest : List Char} {l : Line} (h : header? s = some (l, rest)) :
    rest.length < s.length ∨ rest = [] := by
  unfold header? at h
  have := length_dropWhile_le isSpace s
  cases hk : key? (s.dropWhile isSpace) with
  | none => simp [hk] at h
  | some k =>
    have := length_le_of_key? hk
    have := length_dropWhile_le isSpace k.2
    simp only [hk, Option.bind_eq_bind, Option.bind_some] at h
    split at h
    · obtain ⟨r, hr, he⟩ := Option.map_eq_some_iff.1 h
      have := length_lt_of_lineEnd? hr
      grind
    · simp at h

theorem length_lt_of_entry? {s rest : List Char} {l : Line} (h : entry? s = some (l, rest)) :
    rest.length < s.length ∨ rest = [] := by
  unfold entry? at h
  cases hk : key? s with
  | none => simp [hk] at h
  | some k =>
    have := length_le_of_key? hk
    have := length_dropWhile_le isSpace k.2
    simp only [hk, Option.bind_eq_bind, Option.bind_some] at h
    split at h
    · rename_i s' _
      have := length_dropWhile_le isSpace s'
      cases hv : scalar? (s'.dropWhile isSpace) with
      | none => simp [hv] at h
      | some v =>
        have := length_le_of_scalar? hv
        simp only [hv, Option.bind_some] at h
        obtain ⟨r, hr, he⟩ := Option.map_eq_some_iff.1 h
        have := length_lt_of_lineEnd? hr
        grind
    · simp at h

/-- A line takes up at least one character of a text that is not at its end. -/
theorem length_lt_of_line? {s rest : List Char} {l : Line} (h : line? s = some (l, rest))
    (hs : s ≠ []) : rest.length < s.length := by
  have hlt : rest.length < s.length ∨ rest = [] := by
    have := length_dropWhile_le isSpace s
    unfold line? at h
    split at h
    · rename_i hr
      have := length_lt_of_lineEnd? hr
      grind
    · split at h
      · have := length_lt_of_header? h
        grind
      · have := length_lt_of_entry? h
        grind
  have := List.length_pos_iff.2 hs
  grind

/-- Reads the lines of a text. -/
def lines? (s : List Char) : Option (List Line) :=
  match s with
  | [] => some []
  | c :: s =>
    match h : line? (c :: s) with
    | none => none
    | some (l, rest) =>
      have : rest.length ≤ s.length := Nat.le_of_lt_succ (length_lt_of_line? h (by simp))
      (l :: ·) <$> lines? rest
termination_by s.length

/-- A text in which every line's end is a newline. -/
def unifyLineEnds : List Char → List Char
  | [] => []
  | '\r' :: '\n' :: s => '\n' :: unifyLineEnds s
  | c :: s => c :: unifyLineEnds s

/-- A text without the byte order mark at its front. -/
def dropByteOrderMark : List Char → List Char
  | '\uFEFF' :: s => s
  | s => s

/-- A document as far as it has been read. -/
structure Document where
  /-- The keys before the first header. -/
  top : SortedMap String Json := ∅
  sections : SortedMap String (SortedMap String Json) := ∅
  /-- The section to which the next keys belong. -/
  current : Option String := none

namespace Document

/-- Adds a line. No key may occur twice in its section, and no section twice in the document. -/
def add (d : Document) : Line → Option Document
  | .blank => some d
  | .header name =>
    if d.top.contains name || d.sections.contains name then none
    else some { d with sections := d.sections.insert name ∅, current := some name }
  | .entry key value =>
    match d.current with
    | none => if d.top.contains key then none else some { d with top := d.top.insert key value }
    | some name =>
      let t := d.sections.getD name ∅
      if t.contains key then none
      else some { d with sections := d.sections.insert name (t.insert key value) }

/-- The document as an object. -/
def toJson (d : Document) : Json :=
  .object (d.top.entries ++ d.sections.entries.map (fun e => (e.1, .object e.2.entries)))

end Document

/-- Reads a document. -/
def parse? (text : String) : Option Json := do
  let lines ← lines? (unifyLineEnds (dropByteOrderMark text.toList))
  let d ← lines.foldlM Document.add {}
  return d.toJson

end ResearchLedger.Toml

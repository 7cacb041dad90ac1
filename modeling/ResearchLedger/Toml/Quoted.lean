import ResearchLedger.Toml.Number
/-!
The strings of TOML. Between quotation marks a backslash begins an escape, between apostrophes every
character stands for itself; three of either enclose a text of several lines. Main statement: a string
takes up at least its closing quotes.
-/

namespace ResearchLedger.Toml

/-- A blank within a line. -/
def isSpace (c : Char) : Bool := c == ' ' || c == '\t'

/-- A control character, which may not stand in strings and comments; a tab may. -/
def isControl (c : Char) : Bool := (c.toNat < 0x20 && c != '\t') || c.toNat == 0x7F

/-- The quotes around a string. -/
structure Quotes where
  mark : Char
  /-- Three marks stand at either end. -/
  isBlock : Bool

namespace Quotes

/-- Reads opening quotes. -/
def open? : List Char → Option (Quotes × List Char)
  | '"' :: '"' :: '"' :: s => some (⟨'"', true⟩, s)
  | '"' :: s => some (⟨'"', false⟩, s)
  | '\x27' :: '\x27' :: '\x27' :: s => some (⟨'\x27', true⟩, s)
  | '\x27' :: s => some (⟨'\x27', false⟩, s)
  | _ => none

/-- Whether a backslash begins an escape between these quotes. -/
def hasEscapes (q : Quotes) : Bool := q.mark == '"'

/-- Reads closing quotes, in front of which a block may have up to two marks of its own, and gives those
marks and what follows. -/
def close? (q : Quotes) (s : List Char) : Option (List Char × List Char) :=
  let run := (s.takeWhile (· == q.mark)).length
  let width := if q.isBlock then 3 else 1
  let own := if q.isBlock then min (run - 3) 2 else 0
  if width ≤ run then some (s.take own, s.drop (own + width)) else none

/-- Splits a text at its closing quotes. The character after a backslash that begins an escape closes
nothing. -/
def split? (q : Quotes) : List Char → Option (List Char × List Char)
  | [] => none
  | [c] => q.close? [c]
  | c :: d :: s =>
    match q.close? (c :: d :: s) with
    | some r => some r
    | none =>
      if q.hasEscapes && c == '\\' then (fun r => (c :: d :: r.1, r.2)) <$> q.split? s
      else (fun r => (c :: r.1, r.2)) <$> q.split? (d :: s)

end Quotes

/-- The character with a code, if there is one. -/
def char? (code : Nat) : Option Char := if code.isValidChar then some (Char.ofNat code) else none

/-- The character that hexadecimal digits denote. -/
def escaped? (digits : List Char) : Option Char :=
  if digits.all (isDigitOf 16) then char? (ofDigits 16 digits) else none

/-- The characters that have an escape of one letter. -/
def shortEscapes : List (Char × Char) :=
  [('b', '\x08'), ('t', '\t'), ('n', '\n'), ('f', '\x0c'), ('r', '\r'), ('"', '"'), ('\\', '\\')]

/-- Whether only blanks come before the end of the line. -/
def endsLine (s : List Char) : Bool := (s.dropWhile isSpace).head? == some '\n'

/-- Replaces the escapes of a text. A backslash at the end of a line joins the lines: with it, all blanks
and newlines up to the next character are left out, as they are here while `joining` holds. -/
def unescape? (joining : Bool) : List Char → Option (List Char)
  | [] => some []
  | ['\\'] => none
  | '\\' :: 'u' :: a :: b :: c :: d :: s => do
    let x ← escaped? [a, b, c, d]
    return x :: (← unescape? false s)
  | '\\' :: 'U' :: a :: b :: c :: d :: e :: f :: g :: h :: s => do
    let x ← escaped? [a, b, c, d, e, f, g, h]
    return x :: (← unescape? false s)
  | '\\' :: c :: s =>
    match shortEscapes.lookup c with
    | some x => (x :: ·) <$> unescape? false s
    | none => if endsLine (c :: s) then unescape? true s else none
  | c :: s =>
    if joining && (isSpace c || c == '\n') then unescape? true s
    else (c :: ·) <$> unescape? false s

namespace Quotes

/-- A text without the newline at its front. -/
def dropNewline : List Char → List Char
  | '\n' :: s => s
  | s => s

/-- The string that the text between quotes denotes. -/
def content? (q : Quotes) (text : List Char) : Option String :=
  if text.any (fun c => isControl c && !(q.isBlock && c == '\n')) then none
  else String.ofList <$> (if q.hasEscapes then unescape? false text else some text)

/-- Reads a string after its opening quotes, and gives what follows it. A newline directly after the
opening quotes of a block does not belong to the text. -/
def string? (q : Quotes) (s : List Char) : Option (String × List Char) := do
  let r ← q.split? (if q.isBlock then dropNewline s else s)
  (·, r.2) <$> q.content? r.1

theorem length_lt_of_close? {q : Quotes} {s : List Char} {r : List Char × List Char}
    (h : q.close? s = some r) : r.2.length < s.length := by
  have := (List.takeWhile_prefix (· == q.mark) (l := s)).length_le
  grind [close?]

theorem length_lt_of_split? {q : Quotes} {s : List Char} {r : List Char × List Char}
    (h : q.split? s = some r) : r.2.length < s.length := by
  fun_induction split? q s generalizing r with
  | case1 => simp at h
  | case2 c => exact length_lt_of_close? h
  | case3 c d s r' hr =>
    rw [h] at hr
    exact length_lt_of_close? hr
  | case4 c d s _ _ ih =>
    obtain ⟨r', hr, he⟩ := Option.map_eq_some_iff.1 h
    have := ih hr
    grind
  | case5 c d s _ _ ih =>
    obtain ⟨r', hr, he⟩ := Option.map_eq_some_iff.1 h
    have := ih hr
    grind

theorem length_dropNewline_le (s : List Char) : (dropNewline s).length ≤ s.length := by
  unfold dropNewline
  split <;> simp

/-- What follows a string is shorter than what followed its opening quotes. -/
theorem length_lt_of_string? {q : Quotes} {s rest : List Char} {text : String}
    (h : q.string? s = some (text, rest)) : rest.length < s.length := by
  obtain ⟨r, hr, h⟩ := Option.bind_eq_some_iff.1 h
  obtain ⟨t, -, he⟩ := Option.map_eq_some_iff.1 h
  have := length_lt_of_split? hr
  have := length_dropNewline_le s
  grind

theorem length_lt_of_open? {q : Quotes} {s rest : List Char}
    (h : open? s = some (q, rest)) : rest.length < s.length := by
  unfold open? at h
  split at h <;> grind

end Quotes

end ResearchLedger.Toml

import ResearchLedger.Json.Basic
import ResearchLedger.Text.Decimal
import ResearchLedger.Text.Hex
/-!
The tokens of JSON text.
-/

namespace ResearchLedger.Json

/-- A token of JSON text. -/
inductive Token where
  | openBrace
  | closeBrace
  | openBracket
  | closeBracket
  | colon
  | comma
  /-- A string; `none` if it has half of a surrogate pair. -/
  | text (s : Option String)
  /-- A number or one of the words `null`, `true` and `false`. -/
  | plain (j : Json)

namespace Token

/-- The characters that may stand between tokens. -/
def isSpace (c : Char) : Bool := c == ' ' || c == '\n' || c == '\r' || c == '\t'

/-- The number of four hexadecimal digits. -/
def hex4? (a b c d : Char) : Option Nat := do
  return 4096 * (← Hex.digitValue? a) + 256 * (← Hex.digitValue? b)
    + 16 * (← Hex.digitValue? c) + (← Hex.digitValue? d)

/-- The character of an escape of one letter. -/
def shortEscape? : Char → Option Char
  | '"' => some '"'
  | '\\' => some '\\'
  | '/' => some '/'
  | 'b' => some '\x08'
  | 'f' => some '\x0c'
  | 'n' => some '\n'
  | 'r' => some '\r'
  | 't' => some '\t'
  | _ => none

def isHighSurrogate (n : Nat) : Bool := 0xD800 ≤ n && n ≤ 0xDBFF

def isLowSurrogate (n : Nat) : Bool := 0xDC00 ≤ n && n ≤ 0xDFFF

/-- Puts a code in front of the codes of the rest of a string. -/
def consCode (code : Option Nat) (rest : Option (List Nat × List Char)) :
    Option (List Nat × List Char) := do
  let n ← code
  let (ns, s) ← rest
  return (n :: ns, s)

/-- Reads a string up to its closing quote, as the codes of its characters and of its escapes, and
gives what follows. -/
def scanString : List Char → Option (List Nat × List Char)
  | '"' :: s => some ([], s)
  | '\\' :: 'u' :: a :: b :: c :: d :: s => consCode (hex4? a b c d) (scanString s)
  | '\\' :: e :: s => consCode ((shortEscape? e).map Char.toNat) (scanString s)
  | c :: s =>
    if c.toNat < 0x20 || c == '\\' then none else consCode (some c.toNat) (scanString s)
  | [] => none

/-- The characters of a string of codes: two halves of a surrogate pair make one character, and half
of a pair makes none. -/
def characters? : List Nat → Option (List Char)
  | [] => some []
  | [n] => if isHighSurrogate n || isLowSurrogate n then none else some [Char.ofNat n]
  | n :: n' :: ns =>
    if isHighSurrogate n then
      if isLowSurrogate n' then
        (Char.ofNat (0x10000 + 1024 * (n - 0xD800) + (n' - 0xDC00)) :: ·) <$> characters? ns
      else none
    else if isLowSurrogate n then none
    else (Char.ofNat n :: ·) <$> characters? (n' :: ns)

/-- A run of digits and what follows it. -/
def splitDigits (s : List Char) : List Char × List Char :=
  (s.takeWhile Char.isDigit, s.dropWhile Char.isDigit)

/-- Skips an optional part of a number that starts with a mark and needs a digit. -/
def skipDigits? (s : List Char) : Option (List Char) :=
  match splitDigits s with
  | ([], _) => none
  | (_, rest) => some rest

/-- Skips the fraction of a number, and tells whether there is one. -/
def skipFraction? : List Char → Option (Bool × List Char)
  | '.' :: s => (true, ·) <$> skipDigits? s
  | s => some (false, s)

/-- Skips the sign of an exponent. -/
def skipSign : List Char → List Char
  | '+' :: s => s
  | '-' :: s => s
  | s => s

/-- Skips the exponent of a number, and tells whether there is one. -/
def skipExponent? : List Char → Option (Bool × List Char)
  | 'e' :: s => (true, ·) <$> skipDigits? (skipSign s)
  | 'E' :: s => (true, ·) <$> skipDigits? (skipSign s)
  | s => some (false, s)

/-- The value of an integer numeral, if it fits. Zero has no negative. -/
def integer (negative : Bool) (n : Nat) : Json :=
  if negative then (if n = 0 ∨ Amount.max + 1 < n then .other else .int (-n))
  else if maxWord < n then .other else .int n

/-- Reads a number without its sign, and gives what follows. -/
def scanUnsigned (negative : Bool) (s : List Char) : Option (Json × List Char) := do
  let (digits, rest) := splitDigits s
  if digits.isEmpty || (digits.head? == some '0' && 1 < digits.length) then none
  let (hasFraction, rest) ← skipFraction? rest
  let (hasExponent, rest) ← skipExponent? rest
  if hasFraction || hasExponent then return (.other, rest)
  else return (integer negative (Decimal.value digits), rest)

/-- Reads a number, and gives what follows. -/
def scanNumber : List Char → Option (Json × List Char)
  | '-' :: s => scanUnsigned true s
  | s => scanUnsigned false s

/-- Reads one token, and gives what follows. -/
def scan : List Char → Option (Token × List Char)
  | '{' :: s => some (openBrace, s)
  | '}' :: s => some (closeBrace, s)
  | '[' :: s => some (openBracket, s)
  | ']' :: s => some (closeBracket, s)
  | ':' :: s => some (colon, s)
  | ',' :: s => some (comma, s)
  | '"' :: s => (scanString s).map (fun p => (text ((characters? p.1).map String.ofList), p.2))
  | 'n' :: 'u' :: 'l' :: 'l' :: s => some (plain .null, s)
  | 't' :: 'r' :: 'u' :: 'e' :: s => some (plain (.bool true), s)
  | 'f' :: 'a' :: 'l' :: 's' :: 'e' :: s => some (plain (.bool false), s)
  | s => (scanNumber s).map (fun p => (plain p.1, p.2))

theorem eq_some_of_consCode {code : Option Nat} {r : Option (List Nat × List Char)}
    {ns : List Nat} {s : List Char} (h : consCode code r = some (ns, s)) : ∃ ms, r = some (ms, s) := by
  cases code with
  | none => simp [consCode] at h
  | some n =>
    cases r with
    | none => simp [consCode] at h
    | some p =>
      simp only [consCode, Option.bind_eq_bind, Option.bind_some, Option.pure_def,
        Option.some.injEq, Prod.mk.injEq] at h
      exact ⟨p.1, by rw [← h.2]⟩

theorem length_lt_of_scanString {s rest : List Char} {ns : List Nat}
    (h : scanString s = some (ns, rest)) : rest.length < s.length := by
  fun_induction scanString s generalizing ns with
  | case1 s =>
    simp only [Option.some.injEq, Prod.mk.injEq] at h
    simp [h.2]
  | case2 a b c d s ih =>
    obtain ⟨ms, hm⟩ := eq_some_of_consCode h
    have := ih hm
    simp only [List.length_cons]
    omega
  | case3 e s _ ih =>
    obtain ⟨ms, hm⟩ := eq_some_of_consCode h
    have := ih hm
    simp only [List.length_cons]
    omega
  | case4 => simp at h
  | case5 c s _ _ _ _ ih =>
    obtain ⟨ms, hm⟩ := eq_some_of_consCode h
    have := ih hm
    simp only [List.length_cons]
    omega
  | case6 => simp at h

theorem length_le_of_skipDigits? {s rest : List Char} (h : skipDigits? s = some rest) :
    rest.length ≤ s.length := by
  unfold skipDigits? splitDigits at h
  split at h
  · simp at h
  · rename_i hs
    simp only [Prod.mk.injEq, Option.some.injEq] at hs h
    rw [← h, ← hs.2]
    exact (List.dropWhile_suffix _).length_le

theorem length_le_of_skipFraction? {s rest : List Char} {b : Bool}
    (h : skipFraction? s = some (b, rest)) : rest.length ≤ s.length := by
  unfold skipFraction? at h
  split at h
  · simp only [Option.map_eq_map, Option.map_eq_some_iff, Prod.mk.injEq] at h
    obtain ⟨r, hr, -, rfl⟩ := h
    have := length_le_of_skipDigits? hr
    simp only [List.length_cons]
    omega
  · simp only [Option.some.injEq, Prod.mk.injEq] at h
    simp [h.2]

theorem length_skipSign_le (s : List Char) : (skipSign s).length ≤ s.length := by
  unfold skipSign
  split <;> simp

theorem length_le_of_skipExponent? {s rest : List Char} {b : Bool}
    (h : skipExponent? s = some (b, rest)) : rest.length ≤ s.length := by
  unfold skipExponent? at h
  split at h
  iterate 2
    · simp only [Option.map_eq_map, Option.map_eq_some_iff, Prod.mk.injEq] at h
      obtain ⟨r, hr, -, rfl⟩ := h
      have := length_le_of_skipDigits? hr
      have := length_skipSign_le
      grind
  · simp only [Option.some.injEq, Prod.mk.injEq] at h
    simp [h.2]

theorem length_lt_of_scanUnsigned {s rest : List Char} {negative : Bool} {j : Json}
    (h : scanUnsigned negative s = some (j, rest)) : rest.length < s.length := by
  unfold scanUnsigned splitDigits at h
  have hs := congrArg List.length (List.takeWhile_append_dropWhile (p := Char.isDigit) (l := s))
  rw [List.length_append] at hs
  generalize s.takeWhile Char.isDigit = digits at h hs
  generalize s.dropWhile Char.isDigit = after at h hs
  cases digits with
  | nil => simp at h
  | cons d ds =>
    cases hf : skipFraction? after with
    | none => grind
    | some f =>
      have hf' := length_le_of_skipFraction? hf
      cases he : skipExponent? f.2 with
      | none => grind
      | some e =>
        have he' := length_le_of_skipExponent? he
        grind

theorem length_lt_of_scanNumber {s rest : List Char} {j : Json}
    (h : scanNumber s = some (j, rest)) : rest.length < s.length := by
  unfold scanNumber at h
  split at h
  · exact Nat.lt_succ_of_lt (length_lt_of_scanUnsigned h)
  · exact length_lt_of_scanUnsigned h

/-- A token takes at least one character. -/
theorem length_lt_of_scan {s rest : List Char} {t : Token} (h : scan s = some (t, rest)) :
    rest.length < s.length := by
  unfold scan at h
  split at h
  case h_7 =>
    obtain ⟨p, hp, he⟩ := Option.map_eq_some_iff.1 h
    have := length_lt_of_scanString hp
    grind
  case h_11 =>
    obtain ⟨p, hp, he⟩ := Option.map_eq_some_iff.1 h
    have := length_lt_of_scanNumber hp
    grind
  all_goals grind

/-- The tokens of a text, or nothing if some part of it is no token. -/
def ofText? (s : List Char) : Option (List Token) :=
  match s with
  | [] => some []
  | c :: s =>
    if isSpace c then ofText? s
    else
      match h : scan (c :: s) with
      | none => none
      | some (t, rest) =>
        have : rest.length ≤ s.length := Nat.le_of_lt_succ (length_lt_of_scan h)
        (ofText? rest).map (t :: ·)
termination_by s.length

end Token

end ResearchLedger.Json

import ResearchLedger.SortedMap.Basic
/-!
Account names: three to sixteen characters, the first a lower-case letter, the others lower-case
letters, digits, hyphens or full stops.
-/

namespace ResearchLedger

/-- Whether a character may stand in an account name. -/
def isNameChar (c : Char) : Bool := c.isLower || c.isDigit || c == '-' || c == '.'

/-- Whether a text is an account name. -/
def isAccountName (s : String) : Bool :=
  let cs := s.toList
  3 ≤ cs.length && cs.length ≤ 16 && cs.head?.any Char.isLower && cs.all isNameChar

/-- The name of an account. -/
structure AccountName where
  text : String
  valid : isAccountName text = true
deriving DecidableEq

namespace AccountName

/-- The account name with the given text, if there is one. -/
def ofString? (s : String) : Option AccountName :=
  if h : isAccountName s = true then some ⟨s, h⟩ else none

/-- Names are ordered character by character. -/
instance : KeyOrder AccountName :=
  KeyOrder.comap AccountName.text (fun {a b} h => by cases a; cases b; simp_all)

instance : ToString AccountName := ⟨AccountName.text⟩

/-- The account that may add expertise unless another one is configured. -/
def registrar : AccountName := ⟨"registrar", by decide⟩

instance : Inhabited AccountName := ⟨registrar⟩

end AccountName

end ResearchLedger

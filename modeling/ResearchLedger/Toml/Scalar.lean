import ResearchLedger.Json.Basic
import ResearchLedger.Toml.Quoted
/-!
The values of TOML that are neither lists nor tables: integers, fractional numbers, truth values and
strings. They are read as the JSON values of the same meaning.
-/

namespace ResearchLedger.Toml

/-- Reads a value that is no string. -/
def word? (s : List Char) : Option Json :=
  if s == ['t', 'r', 'u', 'e'] then some (.bool true)
  else if s == ['f', 'a', 'l', 's', 'e'] then some (.bool false)
  else if isNonFinite s then some .other
  else match integer? s with
    | some i => if Amount.Fits i then some (.int i) else none
    | none => (Fractional.ofText? s).bind (fun x => if x.isInRange then some .other else none)

/-- A character that may stand in a value that is no string. -/
def isWordChar (c : Char) : Bool := !isSpace c && c != '#' && c != '\n'

/-- Reads a value, and gives what follows it. -/
def scalar? (s : List Char) : Option (Json × List Char) :=
  match Quotes.open? s with
  | some (q, s) => (fun r => (.string r.1, r.2)) <$> q.string? s
  | none => (·, s.dropWhile isWordChar) <$> word? (s.takeWhile isWordChar)

theorem length_dropWhile_le (p : Char → Bool) (s : List Char) :
    (s.dropWhile p).length ≤ s.length := (List.dropWhile_suffix p).length_le

theorem length_le_of_scalar? {s rest : List Char} {j : Json} (h : scalar? s = some (j, rest)) :
    rest.length ≤ s.length := by
  unfold scalar? at h
  split at h
  · rename_i q s' ho
    obtain ⟨r, hr, he⟩ := Option.map_eq_some_iff.1 h
    have := Quotes.length_lt_of_open? ho
    have := Quotes.length_lt_of_string? hr
    grind
  · obtain ⟨r, -, he⟩ := Option.map_eq_some_iff.1 h
    have := length_dropWhile_le isWordChar s
    grind

end ResearchLedger.Toml

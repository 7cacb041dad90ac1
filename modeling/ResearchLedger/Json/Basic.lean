import ResearchLedger.SortedMap.Basic
import ResearchLedger.Quantity
/-!
JSON values, and how the fields of a record are taken from one.

A record is written as an object; it is also read from an array of its fields in order. Members
that the record does not have are ignored, and a field that occurs twice is refused.
-/

namespace ResearchLedger

/-- A JSON value. Objects keep the order of their members and repeated names. -/
inductive Json where
  | null
  | bool (b : Bool)
  /-- A number written as an integer that fits 64 bits, signed or unsigned. -/
  | int (i : Int)
  | string (s : String)
  | array (items : List Json)
  | object (members : List (String × Json))
  /-- A well-formed value of no other kind: a number that is fractional or out of range, a string
  with half of a surrogate pair, or an object with such a name. -/
  | other

namespace Json

instance : Inhabited Json := ⟨null⟩

/-- A number as JSON. -/
def nat (n : Nat) : Json := int n

/-- A text. -/
def string? : Json → Option String
  | string s => some s
  | _ => none

/-- A truth value. -/
def bool? : Json → Option Bool
  | bool b => some b
  | _ => none

/-- A number between zero and a limit. -/
def nat? (limit : Nat) : Json → Option Nat
  | int i => if 0 ≤ i ∧ i ≤ limit then some i.toNat else none
  | _ => none

/-- A number between two limits. -/
def int? (least greatest : Int) : Json → Option Int
  | int i => if least ≤ i ∧ i ≤ greatest then some i else none
  | _ => none

/-- A 64-bit counter, identifier or time. -/
def word? : Json → Option Nat := nat? maxWord

/-- A 32-bit counter. -/
def word32? : Json → Option Nat := nat? maxWord32

/-- A 16-bit counter. -/
def word16? : Json → Option Nat := nat? maxWord16

/-- A 64-bit amount. -/
def amount? : Json → Option Amount := int? Amount.min Amount.max

/-- An array, each item read alike. -/
def list? {α : Type} (item : Json → Option α) : Json → Option (List α)
  | array items => items.mapM item
  | _ => none

/-- An array of exactly two items. -/
def pair? {α β : Type} (first : Json → Option α) (second : Json → Option β) : Json → Option (α × β)
  | array [a, b] => return (← first a, ← second b)
  | _ => none

/-- A value that may be absent; its absence is written as null. -/
def option? {α : Type} (value : Json → Option α) : Json → Option (Option α)
  | null => some none
  | j => some <$> value j

/-- An object as a map; of members with one key the last counts. -/
def map? {κ α : Type} [KeyOrder κ] (key : String → Option κ) (value : Json → Option α) :
    Json → Option (SortedMap κ α)
  | object members =>
    SortedMap.ofList <$> members.mapM (fun e => return (← key e.1, ← value e.2))
  | _ => none

/-- A map as an object. -/
def ofMap {κ α : Type} [KeyOrder κ] (key : κ → String) (value : α → Json) (m : SortedMap κ α) : Json :=
  object (m.entries.map (fun e => (key e.1, value e.2)))

/-- A list as an array. -/
def ofList {α : Type} (item : α → Json) (l : List α) : Json := array (l.map item)

/-- A value that may be absent as the value or null. -/
def ofOption {α : Type} (value : α → Json) : Option α → Json
  | some a => value a
  | none => null

/-- The members of an object with a given name. -/
def named (members : List (String × Json)) (name : String) : List Json :=
  (members.filter (fun e => e.1 == name)).map (·.2)

/-- The only value of a field, if the field occurs at most once. -/
def single? : List Json → Option (Option Json)
  | [] => some none
  | [j] => some (some j)
  | _ => none

/-- The fields of a record in the order of their names, each present or not. -/
def fields? (names : List String) : Json → Option (List (Option Json))
  | object members => names.mapM (fun name => single? (named members name))
  | array items =>
    if items.length ≤ names.length then
      some (items.map some ++ List.replicate (names.length - items.length) none)
    else none
  | _ => none

/-- A field that has to be present. -/
def required {α : Type} (value : Json → Option α) (field : Option Json) : Option α :=
  field.bind value

/-- A field with a value that stands in for its absence. -/
def withDefault {α : Type} (default : α) (value : Json → Option α) : Option Json → Option α
  | some j => value j
  | none => some default

/-- One of several words, written as a string or as the only name of an object with value null. -/
def word {α : Type} (table : List (String × α)) : Json → Option α
  | string s => table.lookup s
  | object [(s, null)] => table.lookup s
  | _ => none

end Json

end ResearchLedger

import ResearchLedger.LittleEndian
import ResearchLedger.Quantity
import ResearchLedger.SortedMap.Basic
/-!
Values as bytes. Every value begins where the one before it ends: numbers have a fixed width, and
whatever varies in length has its length in front.
-/

namespace ResearchLedger

/-- Reads a value from the front of some bytes and leaves the others. -/
abbrev ByteReader := StateT (List UInt8) Option

/-- How the values of a type are written as bytes and read back. -/
structure Layout (α : Type) where
  write : α → List UInt8
  read : ByteReader α

namespace ByteReader

/-- Takes a number of bytes. -/
def bytes (n : Nat) : ByteReader (List UInt8) := fun s =>
  let taken := s.take n
  if taken.length = n then some (taken, s.drop n) else none

/-- The value of an option, or a failure. -/
def ofOption {α : Type} (a : Option α) : ByteReader α := fun s => a.map (·, s)

/-- Reads as many items as are announced. -/
def items {α : Type} (item : ByteReader α) : Nat → ByteReader (List α)
  | 0 => return []
  | n + 1 => do
    let a ← item
    return a :: (← items item n)

end ByteReader

namespace Layout

variable {α β : Type}

/-- Numbers of a fixed width in bytes, the lowest byte first. -/
def natural (width : Nat) : Layout Nat where
  write n := LittleEndian.encode width n
  read := LittleEndian.decode <$> ByteReader.bytes width

def word : Layout Nat := natural 8
def word32 : Layout Nat := natural 4
def word16 : Layout Nat := natural 2
def byte : Layout Nat := natural 1

/-- Integers of a fixed width; negative ones are written as their sum with the range's size. -/
def integer (width : Nat) : Layout Int where
  write i := LittleEndian.encode width (i % LittleEndian.count width).toNat
  read := do
    let n ← (natural width).read
    return if 2 * n < LittleEndian.count width then (n : Int) else n - LittleEndian.count width

def integer64 : Layout Int := integer 8
def integer16 : Layout Int := integer 2

/-- The values of a type as values of another one, not all of which may stand for one. -/
def refine (base : Layout β) (toBase : α → β) (ofBase? : β → Option α) : Layout α where
  write a := base.write (toBase a)
  read := do ByteReader.ofOption (ofBase? (← base.read))

/-- One of several values, as its place among them, in a number laid out as told. -/
def choice [BEq α] (index : Layout Nat) (values : List α) : Layout α :=
  index.refine values.idxOf (values[·]?)

def bool : Layout Bool := choice byte [false, true]

/-- A value that may be absent: a byte tells whether it follows. -/
def option (value : Layout α) : Layout (Option α) where
  write
    | none => bool.write false
    | some a => bool.write true ++ value.write a
  read := do if ← bool.read then some <$> value.read else return none

/-- A pair, one component after the other. -/
def pair (first : Layout α) (second : Layout β) : Layout (α × β) where
  write a := first.write a.1 ++ second.write a.2
  read := return (← first.read, ← second.read)

/-- A list: its length, then its items. -/
def list (item : Layout α) : Layout (List α) where
  write l := word.write l.length ++ l.flatMap item.write
  read := do item.read.items (← word.read)

/-- Items whose number is known. -/
def vector (item : Layout α) (n : Nat) : Layout (Vector α n) where
  write v := v.toList.flatMap item.write
  read := do
    let l ← item.read.items n
    if h : l.length = n then return ⟨l.toArray, by simpa using h⟩ else failure

/-- A text: the length of its UTF-8 form, then that form. -/
def string : Layout String where
  write s := word.write s.utf8ByteSize ++ s.toUTF8.data.toList
  read := do
    let bytes ← ByteReader.bytes (← word.read)
    ByteReader.ofOption (String.fromUTF8? ⟨bytes.toArray⟩)

/-- A map: the number of its entries, then the entries in key order. -/
def map [KeyOrder α] (key : Layout α) (value : Layout β) : Layout (SortedMap α β) :=
  (list (pair key value)).refine SortedMap.entries (some ∘ SortedMap.ofList)

/-- A set: the number of its members, then the members in order. -/
def set [KeyOrder α] (member : Layout α) : Layout (SortedSet α) :=
  (list member).refine SortedSet.toList (some ∘ SortedSet.ofKeys)

end Layout

end ResearchLedger

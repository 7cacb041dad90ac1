/-!
Asset symbols. A symbol packs its precision and its name into one number: the precision is the
lowest byte, the characters of the name follow from the lowest byte up.
-/

namespace ResearchLedger

/-- The unit of an asset: how many decimals it has and what it is called. -/
structure Symbol where
  code : Nat
deriving DecidableEq

namespace Symbol

/-- The greatest number of characters in a name. -/
def maxNameLength : Nat := 7

/-- The greatest precision a new symbol may have. -/
def maxPrecision : Nat := 14

/-- The number whose bytes, from the lowest up, are those given. -/
def packBytes : List UInt8 → Nat
  | [] => 0
  | b :: bs => b.toNat + 256 * packBytes bs

/-- The symbol of a precision and the first seven bytes of a name. -/
def pack (precision : Nat) (name : List UInt8) : Symbol :=
  ⟨precision + 256 * packBytes (name.take maxNameLength)⟩

/-- The number of decimals. -/
def precision (s : Symbol) : Nat := s.code % 256

/-- The bytes of a number from the lowest up, to the highest that is not zero. -/
def bytesOf (n : Nat) : List Nat :=
  if n = 0 then [] else n % 256 :: bytesOf (n / 256)

/-- The name, each byte as the character with that code. -/
def name (s : Symbol) : String := String.ofList ((bytesOf (s.code / 256)).map Char.ofNat)

/-- How many of the smallest unit make one whole. -/
def scale (s : Symbol) : Nat := Nat.pow 10 s.precision

/-- The unit of balances, fees and common tokens: `SCI` with three decimals. -/
def primary : Symbol := pack 3 [83, 67, 73]

instance : ToString Symbol := ⟨name⟩
instance : Inhabited Symbol := ⟨primary⟩

end Symbol

end ResearchLedger

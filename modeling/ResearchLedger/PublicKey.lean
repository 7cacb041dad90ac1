import ResearchLedger.Error
import ResearchLedger.Text.Hex
/-!
Public keys, as opaque bytes with a hexadecimal written form.
-/

namespace ResearchLedger

/-- A compressed public key of 33 bytes, or the empty key. -/
structure PublicKey where
  bytes : List UInt8
  size_eq : bytes.length = 0 ∨ bytes.length = 33
deriving DecidableEq

namespace PublicKey

/-- The key that is not set. -/
def empty : PublicKey := ⟨[], .inl rfl⟩

instance : Inhabited PublicKey := ⟨empty⟩

/-- Whether the key is not set. -/
def isEmpty (k : PublicKey) : Bool := k.bytes.isEmpty

/-- Keys are ordered byte by byte; the empty key stands first. -/
instance : KeyOrder PublicKey :=
  KeyOrder.comap PublicKey.bytes (fun {a b} h => by cases a; cases b; simp_all)

/-- The written form: lower-case hexadecimal. -/
def toHex (k : PublicKey) : String := String.ofList (Hex.encode k.bytes)

/-- The text after one leading `0x`, if it has one. -/
def dropMark : List Char → List Char
  | '0' :: 'x' :: s => s
  | s => s

/-- Reads a key of 33 bytes, with or without a leading `0x`. -/
def ofHex (text : String) : Except LedgerError PublicKey :=
  let digits := dropMark text.toList
  match Hex.decode? digits with
  | some bytes =>
    if h : bytes.length = 33 then .ok ⟨bytes, .inr h⟩
    else .error (.invalidPublicKey (String.ofList digits))
  | none => .error (.invalidPublicKey (String.ofList digits))

/-- Reads a stored key: the empty text is the empty key. -/
def ofStored (text : String) : Except LedgerError PublicKey :=
  if text.isEmpty then .ok empty else ofHex text

end PublicKey

end ResearchLedger

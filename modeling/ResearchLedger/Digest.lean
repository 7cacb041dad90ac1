import ResearchLedger.Text.Hex
/-!
Digests of 64 bytes, with a hexadecimal written form.
-/

namespace ResearchLedger

/-- A digest of 64 bytes. -/
structure Digest where
  bytes : List UInt8
  size_eq : bytes.length = 64
deriving DecidableEq

namespace Digest

/-- The written form: lower-case hexadecimal. -/
def toHex (d : Digest) : String := String.ofList (Hex.encode d.bytes)

/-- Reads 128 hexadecimal digits. -/
def ofHex? (text : String) : Option Digest := do
  let bytes ← Hex.decode? text.toList
  if h : bytes.length = 64 then some ⟨bytes, h⟩ else none

end Digest

end ResearchLedger

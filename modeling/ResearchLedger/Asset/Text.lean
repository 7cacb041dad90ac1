import ResearchLedger.Asset.Basic
import ResearchLedger.Text.Blank
import ResearchLedger.Text.Decimal
/-!
Symbols and assets as text, such as `1.500 SCI`: the number of decimals is the precision.
-/

namespace ResearchLedger

namespace Symbol

/-- The symbol of a precision and a name of one to seven upper-case letters. -/
def ofName (precision : Nat) (name : String) : Except LedgerError Symbol :=
  let cs := name.toList
  if cs.isEmpty || maxNameLength < cs.length || !cs.all Char.isUpper || maxPrecision < precision then
    .error (.invalidSymbolName name)
  else .ok (pack precision (cs.map (fun c => UInt8.ofNat c.toNat)))

end Symbol

namespace Asset

/-- The number of an asset as text: a sign, the whole part, and as many decimals as the precision. -/
def numeral (a : Asset) : List Char :=
  let sign := if a.amount < 0 then ['-'] else []
  let magnitude := a.amount.natAbs
  let whole := Decimal.ofNat (magnitude / a.symbol.scale)
  if a.symbol.precision = 0 then sign ++ whole
  else sign ++ whole ++ '.' :: Decimal.padded a.symbol.precision (magnitude % a.symbol.scale)

/-- The text of an asset: its number, a blank, and the name of its symbol. -/
def toText (a : Asset) : String := String.ofList (a.numeral ++ ' ' :: a.symbol.name.toList)

instance : ToString Asset := ⟨toText⟩

/-- A minus sign in front, and what follows it. -/
def splitSign : List Char → Bool × List Char
  | '-' :: s => (true, s)
  | s => (false, s)

/-- What stands before and after the first point. -/
def splitPoint (s : List Char) : List Char × List Char :=
  (s.takeWhile (· != '.'), (s.dropWhile (· != '.')).drop 1)

/-- Reads an asset. The precision is the number of decimals written, counted in one byte. -/
def ofText (text : String) : Except LedgerError Asset := do
  let bad := LedgerError.invalidAssetString text
  match Text.words text.toList with
  | [number, name] =>
    let (negative, unsigned) := splitSign number
    let (whole, decimals) := splitPoint unsigned
    if whole.isEmpty || !whole.all Char.isDigit || !decimals.all Char.isDigit then throw bad
    let symbol ← Symbol.ofName (decimals.length % 256) (String.ofList name)
    let units := (Decimal.value whole : Int)
    let rest := (Decimal.value decimals : Int)
    if Amount.max < units ∨ Amount.max < rest then throw bad
    match Amount.checked? (units * symbol.scale + rest) with
    | some amount => return ⟨if negative then -amount else amount, symbol⟩
    | none => throw (.overflow .assetParse)
  | _ => throw bad

end Asset

end ResearchLedger

import ResearchLedger.Json.Basic
import ResearchLedger.Text.Decimal
import ResearchLedger.Text.Hex
/-!
Writing JSON, on one line or with one member a line.
-/

namespace ResearchLedger.Json

/-- A character inside a string: quotes, backslashes and control characters are escaped. -/
def escape (c : Char) : List Char :=
  match c with
  | '"' => ['\\', '"']
  | '\\' => ['\\', '\\']
  | '\x08' => ['\\', 'b']
  | '\x0c' => ['\\', 'f']
  | '\n' => ['\\', 'n']
  | '\r' => ['\\', 'r']
  | '\t' => ['\\', 't']
  | c =>
    if c.toNat < 0x20 then
      ['\\', 'u', '0', '0', Hex.digit (c.toNat / 16), Hex.digit (c.toNat % 16)]
    else [c]

/-- A string between quotes. -/
def quote (s : String) : List Char := '"' :: s.toList.flatMap escape ++ ['"']

mutual

/-- A value on one line, without blanks. -/
def chars : Json → List Char
  | null => ['n', 'u', 'l', 'l']
  | bool true => ['t', 'r', 'u', 'e']
  | bool false => ['f', 'a', 'l', 's', 'e']
  | int i => Decimal.ofInt i
  | string s => quote s
  | array [] => ['[', ']']
  | array (j :: items) => '[' :: chars j ++ itemChars items
  | object [] => ['{', '}']
  | object ((name, j) :: members) => '{' :: quote name ++ ':' :: chars j ++ memberChars members
  | other => ['n', 'u', 'l', 'l']

/-- The items after the first, each behind a comma, and the closing bracket. -/
def itemChars : List Json → List Char
  | [] => [']']
  | j :: items => ',' :: chars j ++ itemChars items

/-- The members after the first, each behind a comma, and the closing brace. -/
def memberChars : List (String × Json) → List Char
  | [] => ['}']
  | (name, j) :: members => ',' :: quote name ++ ':' :: chars j ++ memberChars members

end

/-- A value on one line. -/
def render (j : Json) : String := String.ofList j.chars

/-- The start of a line at the given depth. -/
def newLine (depth : Nat) : List Char := '\n' :: List.replicate (2 * depth) ' '

mutual

/-- A value with each item and each member on a line of its own, two blanks deeper than the value
that holds it. -/
def indented (depth : Nat) : Json → List Char
  | array (j :: items) =>
    '[' :: newLine (depth + 1) ++ indented (depth + 1) j ++ itemLines depth items
  | object ((name, j) :: members) =>
    '{' :: newLine (depth + 1) ++ quote name ++ ':' :: ' ' :: indented (depth + 1) j
      ++ memberLines depth members
  | array [] => ['[', ']']
  | object [] => ['{', '}']
  | j => chars j

/-- The items after the first, and the closing bracket. -/
def itemLines (depth : Nat) : List Json → List Char
  | [] => newLine depth ++ [']']
  | j :: items => ',' :: newLine (depth + 1) ++ indented (depth + 1) j ++ itemLines depth items

/-- The members after the first, and the closing brace. -/
def memberLines (depth : Nat) : List (String × Json) → List Char
  | [] => newLine depth ++ ['}']
  | (name, j) :: members =>
    ',' :: newLine (depth + 1) ++ quote name ++ ':' :: ' ' :: indented (depth + 1) j
      ++ memberLines depth members

end

/-- A value over several lines. -/
def renderIndented (j : Json) : String := String.ofList (indented 0 j)

end ResearchLedger.Json

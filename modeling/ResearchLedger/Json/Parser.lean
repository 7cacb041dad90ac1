import ResearchLedger.Json.Token
/-!
Reading JSON. The reader goes through the tokens once and keeps the open arrays and objects on a
stack.
-/

namespace ResearchLedger.Json

/-- An array or object that is still open. -/
inductive Frame where
  /-- The items so far, the last one first. -/
  | array (items : List Json)
  /-- The members so far, the last one first, unless some name was unreadable, and the name that
  waits for its value. -/
  | object (members : Option (List (String × Json))) (name : Option String)

/-- What may come next. -/
inductive Expectation where
  | value
  /-- An item or the end of an array that has no item yet. -/
  | itemOrClose
  /-- A name or the end of an object that has no member yet. -/
  | nameOrClose
  | name
  | colon
  /-- A comma or the end of the innermost array or object. -/
  | next
  | finished (j : Json)

/-- The state of the reader: the open arrays and objects, innermost first, and what may come next. -/
structure Reader where
  stack : List Frame
  expects : Expectation

namespace Reader

/-- Hands a finished value to the innermost open array or object. -/
def deliver (j : Json) : List Frame → Reader
  | [] => ⟨[], .finished j⟩
  | .array items :: stack => ⟨.array (j :: items) :: stack, .next⟩
  | .object members name :: stack =>
    let members := members.bind (fun ms => name.map (fun n => (n, j) :: ms))
    ⟨.object members none :: stack, .next⟩

/-- Closes the innermost object. -/
def closeObject (members : Option (List (String × Json))) (stack : List Frame) : Reader :=
  match members with
  | some ms => deliver (.object ms.reverse) stack
  | none => deliver .other stack

/-- Takes a token where a value is expected. -/
def value (stack : List Frame) : Token → Option Reader
  | .openBrace => some ⟨.object (some []) none :: stack, .nameOrClose⟩
  | .openBracket => some ⟨.array [] :: stack, .itemOrClose⟩
  | .text (some s) => some (deliver (.string s) stack)
  | .text none => some (deliver .other stack)
  | .plain j => some (deliver j stack)
  | _ => none

/-- Takes a token where a name is expected. -/
def name (stack : List Frame) : Token → Option Reader
  | .text s =>
    match stack with
    | .object members _ :: stack =>
      some ⟨.object (if s.isSome then members else none) s :: stack, .colon⟩
    | _ => none
  | _ => none

/-- Takes one token. -/
def step (r : Reader) (t : Token) : Option Reader :=
  match r.expects, t, r.stack with
  | .value, t, stack => value stack t
  | .itemOrClose, .closeBracket, .array items :: stack => some (deliver (.array items.reverse) stack)
  | .itemOrClose, t, stack => value stack t
  | .nameOrClose, .closeBrace, .object members _ :: stack => some (closeObject members stack)
  | .nameOrClose, t, stack => name stack t
  | .name, t, stack => name stack t
  | .colon, .colon, stack => some ⟨stack, .value⟩
  | .next, .comma, .array items :: stack => some ⟨.array items :: stack, .value⟩
  | .next, .comma, .object members n :: stack => some ⟨.object members n :: stack, .name⟩
  | .next, .closeBracket, .array items :: stack => some (deliver (.array items.reverse) stack)
  | .next, .closeBrace, .object members _ :: stack => some (closeObject members stack)
  | _, _, _ => none

/-- Takes tokens one after the other. -/
def run (r : Reader) : List Token → Option Reader
  | [] => some r
  | t :: ts => (r.step t).bind (run · ts)

end Reader

/-- The value of a list of tokens. -/
def ofTokens? (tokens : List Token) : Option Json :=
  match Reader.run ⟨[], .value⟩ tokens with
  | some ⟨_, .finished j⟩ => some j
  | _ => none

/-- Reads a text that holds one value, with blanks around it at most. -/
def parse? (text : String) : Option Json := (Token.ofText? text.toList).bind ofTokens?

end ResearchLedger.Json

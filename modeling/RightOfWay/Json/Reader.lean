import RightOfWay.Json.Lexer

namespace RightOfWay.Json

/-- Members of an object, last first. A name without a value is kept as `none`. -/
abbrev Members := List (Option String × Json)

/-- An array or object that is still open, with what it holds so far, last first; for an object also the
name whose value is being read. -/
inductive Frame where
  | array (before : List Json)
  | object (before : Members) (name : Option String)

/-- What has to come next. -/
inductive Place where
  | value
  /-- A value, or the end of an array that has just been opened. -/
  | firstElement
  /-- A name, or the end of an object that has just been opened. -/
  | firstName
  | name (before : Members)
  | colon (before : Members) (name : Option String)
  /-- A comma, the end of the innermost open array or object, or the end of the text. -/
  | after (v : Json)

/-- Turns members around, if each of them has a name. -/
def named? : Members → List (String × Json) → Option (List (String × Json))
  | [], ms => some ms
  | (some k, v) :: before, ms => named? before ((k, v) :: ms)
  | (none, _) :: _, _ => none

/-- The object with the given members; a name without a value makes it unusable. -/
def ofMembers (before : Members) : Json :=
  match named? before [] with
  | some ms => .obj ms
  | none => .unusable

/-- The place after a token that starts a value or is one. -/
def startValue (stack : List Frame) : Token → Option (List Frame × Place)
  | .null => some (stack, .after .null)
  | .bool b => some (stack, .after (.bool b))
  | .number (some (.int i)) => some (stack, .after (.int i))
  | .number (some (.float x)) => some (stack, .after (.float x))
  | .str (some s) => some (stack, .after (.str s))
  | .number none | .str none => some (stack, .after .unusable)
  | .openArray => some (stack, .firstElement)
  | .openObject => some (stack, .firstName)
  | .closeArray | .closeObject | .comma | .colon => none

/-- The place after a token behind a value. -/
def closeValue (v : Json) : List Frame → Token → Option (List Frame × Place)
  | .array before :: stack, .comma => some (.array (v :: before) :: stack, .value)
  | .array before :: stack, .closeArray => some (stack, .after (.arr (v :: before).reverse))
  | .object before k :: stack, .comma => some (stack, .name ((k, v) :: before))
  | .object before k :: stack, .closeObject => some (stack, .after (ofMembers ((k, v) :: before)))
  | _, _ => none

/-- One token further; none where the token does not fit. -/
def feed (stack : List Frame) : Place → Token → Option (List Frame × Place)
  | .value, t => startValue stack t
  | .firstElement, .closeArray => some (stack, .after (.arr []))
  | .firstElement, t => startValue (.array [] :: stack) t
  | .firstName, .closeObject => some (stack, .after (.obj []))
  | .firstName, .str k => some (stack, .colon [] k)
  | .name before, .str k => some (stack, .colon before k)
  | .colon before k, .colon => some (.object before k :: stack, .value)
  | .after v, t => closeValue v stack t
  | _, _ => none

/-- Reads tokens to their end; what is left must be one value with nothing open. -/
def readTokens (stack : List Frame) (place : Place) : List Token → Option Json
  | [] =>
    match stack, place with
    | [], .after v => some v
    | _, _ => none
  | t :: ts =>
    match feed stack place t with
    | none => none
    | some (stack, place) => readTokens stack place ts

/-- The value that a text stands for, if it is JSON text. -/
def parse? (s : String) : Option Json := (lex s.toList).bind (readTokens [] .value)

end RightOfWay.Json

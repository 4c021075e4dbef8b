import RightOfWay.Number.Layout
import RightOfWay.Json.Numeral

namespace RightOfWay

/-- A JSON value. Members keep their order, and a name may occur twice. -/
inductive Json where
  | null
  | bool (b : Bool)
  | int (i : Int)
  | float (x : Float)
  | str (s : String)
  | arr (vs : List Json)
  | obj (ms : List (String × Json))
  /-- Well-formed text that stands for no value: a number out of range, or a string with half a surrogate
  pair. It may only occur where it is not looked at. -/
  | unusable
  deriving Inhabited

namespace Json

/-- The lexical elements of JSON text. A string or number without a value is kept as `none`. -/
inductive Token where
  | openArray
  | closeArray
  | openObject
  | closeObject
  | comma
  | colon
  | null
  | bool (b : Bool)
  | number (n : Option Quantity)
  | str (s : Option String)

/-- Values with a fraction are written positionally from `0.00001` up to `1e16`; a number that is not
finite is written as `null`. Of two equally near last digits the even one is taken. -/
def floatLayout : Number.Layout where
  lowest := -5
  highest := 15
  tie := .even
  exponentSign := "+"
  nan := "null"
  infinity := "null"
  negInfinity := "null"

def hexPair (n : Nat) : List Char := [Nat.digitChar (n / 16), Nat.digitChar (n % 16)]

/-- How a character stands inside a string: quotes, backslashes and control characters are escaped. -/
def escapeChar (c : Char) : List Char :=
  match c with
  | '"' => ['\\', '"']
  | '\\' => ['\\', '\\']
  | '\x08' => ['\\', 'b']
  | '\x0c' => ['\\', 'f']
  | '\n' => ['\\', 'n']
  | '\r' => ['\\', 'r']
  | '\t' => ['\\', 't']
  | _ => if c.toNat < 0x20 then ['\\', 'u', '0', '0'] ++ hexPair c.toNat else [c]

def intText (i : Int) : List Char :=
  if i < 0 then '-' :: Nat.toDigits 10 i.natAbs else Nat.toDigits 10 i.natAbs

def stringText (s : String) : List Char := '"' :: (s.toList.flatMap escapeChar ++ ['"'])

/-- The text of a token; a token without a value is written as `null`. -/
def Token.text : Token → List Char
  | .openArray => ['[']
  | .closeArray => [']']
  | .openObject => ['\x7b']
  | .closeObject => ['\x7d']
  | .comma => [',']
  | .colon => [':']
  | .null => "null".toList
  | .bool true => "true".toList
  | .bool false => "false".toList
  | .number (some (.int i)) => intText i
  | .number (some (.float x)) => floatLayout.write x
  | .str (some s) => stringText s
  | .number none | .str none => "null".toList

mutual

/-- The tokens of a value in front of `rest`. -/
def tokens (rest : List Token) : Json → List Token
  | .null => .null :: rest
  | .bool b => .bool b :: rest
  | .int i => .number (some (.int i)) :: rest
  | .float x => .number (some (.float x)) :: rest
  | .str s => .str (some s) :: rest
  | .arr [] => .openArray :: .closeArray :: rest
  | .arr (v :: vs) => .openArray :: tokens (tokensTail rest vs) v
  | .obj [] => .openObject :: .closeObject :: rest
  | .obj ((k, v) :: ms) => .openObject :: .str (some k) :: .colon :: tokens (tokensMembers rest ms) v
  | .unusable => .number none :: rest

/-- Further elements of an array, to its end. -/
def tokensTail (rest : List Token) : List Json → List Token
  | [] => .closeArray :: rest
  | v :: vs => .comma :: tokens (tokensTail rest vs) v

/-- Further members of an object, to its end. -/
def tokensMembers (rest : List Token) : List (String × Json) → List Token
  | [] => .closeObject :: rest
  | (k, v) :: ms => .comma :: .str (some k) :: .colon :: tokens (tokensMembers rest ms) v

end

def compact (v : Json) : String := String.ofList ((tokens [] v).flatMap Token.text)

/-- A new line with two blanks for each level. -/
def newline (level : Nat) : List Char := '\n' :: List.replicate (2 * level) ' '

mutual

/-- The indented text of a value at a level, in front of `rest`: one element or member a line, nothing
inside empty brackets. -/
def indented (level : Nat) (rest : List Char) : Json → List Char
  | .arr [] => '[' :: ']' :: rest
  | .arr (v :: vs) =>
    '[' :: (newline (level + 1) ++ indented (level + 1) (indentedTail level rest vs) v)
  | .obj [] => '\x7b' :: '\x7d' :: rest
  | .obj ((k, v) :: ms) =>
    '\x7b' :: (newline (level + 1) ++ (stringText k ++ (':' :: ' ' ::
      indented (level + 1) (indentedMembers level rest ms) v)))
  | v => (tokens [] v).flatMap Token.text ++ rest

def indentedTail (level : Nat) (rest : List Char) : List Json → List Char
  | [] => newline level ++ ']' :: rest
  | v :: vs => ',' :: (newline (level + 1) ++ indented (level + 1) (indentedTail level rest vs) v)

def indentedMembers (level : Nat) (rest : List Char) : List (String × Json) → List Char
  | [] => newline level ++ '\x7d' :: rest
  | (k, v) :: ms =>
    ',' :: (newline (level + 1) ++ (stringText k ++ (':' :: ' ' ::
      indented (level + 1) (indentedMembers level rest ms) v)))

end

def pretty (v : Json) : String := String.ofList (indented 0 [] v)

mutual

/-- How deep brackets and braces are nested in a value. -/
def depth : Json → Nat
  | .arr vs => depthList vs + 1
  | .obj ms => depthMembers ms + 1
  | _ => 0

def depthList : List Json → Nat
  | [] => 0
  | v :: vs => max (depth v) (depthList vs)

def depthMembers : List (String × Json) → Nat
  | [] => 0
  | (_, v) :: ms => max (depth v) (depthMembers ms)

end

/-- The deepest nesting with which a value is read as a whole. -/
def depthLimit : Nat := 127

mutual

/-- Whether all parts of a value stand for something. -/
def isUsable : Json → Bool
  | .arr vs => areUsable vs
  | .obj ms => areUsableMembers ms
  | .unusable => false
  | _ => true

def areUsable : List Json → Bool
  | [] => true
  | v :: vs => isUsable v && areUsable vs

def areUsableMembers : List (String × Json) → Bool
  | [] => true
  | (_, v) :: ms => isUsable v && areUsableMembers ms

end

end Json

end RightOfWay

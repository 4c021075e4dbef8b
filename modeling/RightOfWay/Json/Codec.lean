import RightOfWay.Json.Reader

namespace RightOfWay.Json

/-- A type with a JSON form. To be read, a form has to have room for the arrays and objects that are opened inside each
other; fields that are passed over take none. -/
class Codec (α : Type) where
  encode : α → Json
  decode (room : Nat) : Json → Option α

export Codec (encode decode)

def read? (α : Type) [Codec α] (text : String) : Option α := (parse? text).bind (decode depthLimit)

/-- A value of any shape is looked at in all its parts. -/
instance : Codec Json where
  encode := id
  decode room v := if v.depth ≤ room && v.isUsable then some v else none

instance : Codec Bool where
  encode := .bool
  decode
    | _, .bool b => some b
    | _, _ => none

instance : Codec String where
  encode := .str
  decode
    | _, .str s => some s
    | _, _ => none

/-- An integer may stand for a float. -/
instance : Codec Float where
  encode := .float
  decode
    | _, .float x => some x
    | _, .int i => some (Float.ofInt i)
    | _, _ => none

/-- Counts are natural numbers of 64 bits. -/
instance : Codec Nat where
  encode n := .int n
  decode
    | _, .int (.ofNat n) => if n < UInt64.size then some n else none
    | _, _ => none

instance : Codec UInt64 where
  encode n := .int n.toNat
  decode
    | _, .int (.ofNat n) => if n < UInt64.size then some n.toUInt64 else none
    | _, _ => none

instance : Codec UInt32 where
  encode n := .int n.toNat
  decode
    | _, .int (.ofNat n) => if n < UInt32.size then some n.toUInt32 else none
    | _, _ => none

instance : Codec UInt8 where
  encode n := .int n.toNat
  decode
    | _, .int (.ofNat n) => if n < UInt8.size then some n.toUInt8 else none
    | _, _ => none

instance : Codec Int32 where
  encode n := .int n.toInt
  decode
    | _, .int i => if Int32.minValue.toInt ≤ i && i ≤ Int32.maxValue.toInt then some i.toInt32 else none
    | _, _ => none

def decodeAll {α : Type} [Codec α] (room : Nat) : List Json → Option (List α)
  | [] => some []
  | v :: vs =>
    match (decode room v : Option α), (decodeAll room vs : Option (List α)) with
    | some a, some as => some (a :: as)
    | _, _ => none

instance {α : Type} [Codec α] : Codec (List α) where
  encode as := .arr (as.map encode)
  decode
    | room + 1, .arr vs => decodeAll room vs
    | _, _ => none

/-- The member of a name: outer `none` if it is given twice, inner `none` if it is absent. -/
def member? (name : String) : List (String × Json) → Option (Option Json)
  | [] => some none
  | (k, v) :: ms =>
    if k = name then if ms.any (·.1 = name) then none else some (some v)
    else member? name ms

def members? (ms : List (String × Json)) : List String → Option (List (Option Json))
  | [] => some []
  | name :: names =>
    match member? name ms, members? ms names with
    | some v, some vs => some (v :: vs)
    | _, _ => none

/-- The elements of a list as fields in order; those past its end are absent. -/
def elements? : List String → List Json → Option (List (Option Json))
  | [], [] => some []
  | [], _ :: _ => none
  | _ :: names, [] => (elements? names []).map (none :: ·)
  | _ :: names, v :: vs => (elements? names vs).map (some v :: ·)

/-- The values of a record's fields. -/
def fields? (names : List String) : Json → Option (List (Option Json))
  | .obj ms => members? ms names
  | .arr vs => elements? names vs
  | _ => none

def required {α : Type} [Codec α] (room : Nat) : Option Json → Option α
  | some v => decode room v
  | none => none

/-- A field with a value for the case that it is absent. -/
def optional {α : Type} [Codec α] (absent : α) (room : Nat) : Option Json → Option α
  | some v => decode room v
  | none => some absent

/-- A member that is left out where `skip` holds. -/
def memberUnless (skip : Bool) (name : String) (v : Json) : List (String × Json) := if skip then [] else [(name, v)]

end RightOfWay.Json

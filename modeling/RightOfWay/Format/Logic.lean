import RightOfWay.Json.Codec
import RightOfWay.Logic.Certificate

namespace RightOfWay.Logic

open Json (Codec encode decode fields? required optional memberUnless)

namespace Formula

mutual

def toJson : Formula → Json
  | .atom name => .obj [("Atomic", .str name)]
  | .truth => .str "True"
  | .neg p => .obj [("Not", toJson p)]
  | .conj ps => .obj [("And", .arr (toJsonList ps))]
  | .disj ps => .obj [("Or", .arr (toJsonList ps))]
  | .always p => .obj [("Always", toJson p)]
  | .eventually p => .obj [("Eventually", toJson p)]
  | .untl p q => .obj [("Until", .arr [toJson p, toJson q])]

def toJsonList : List Formula → List Json
  | [] => []
  | p :: ps => toJson p :: toJsonList ps

end

/-- The formula with the given operator and operands. -/
def ofOperator? (name : String) (operand : Option Formula) (operands : Option (List Formula)) :
    Option Formula :=
  match name with
  | "Not" => operand.map .neg
  | "Always" => operand.map .always
  | "Eventually" => operand.map .eventually
  | "And" => operands.map .conj
  | "Or" => operands.map .disj
  | "Until" =>
    match operands with
    | some [p, q] => some (.untl p q)
    | _ => none
  | _ => none

mutual

/-- Reads a formula; truth may also be written as an object with an empty operand. -/
def ofJson? : Json → Option Formula
  | .str s => if s = "True" then some .truth else none
  | .obj [(name, v)] =>
    match name, v with
    | "Atomic", .str s => some (.atom s)
    | "True", .null => some .truth
    | name, .arr vs => ofOperator? name none (ofJsonList? vs)
    | name, v => ofOperator? name (ofJson? v) none
  | _ => none

def ofJsonList? : List Json → Option (List Formula)
  | [] => some []
  | v :: vs =>
    match ofJson? v, ofJsonList? vs with
    | some p, some ps => some (p :: ps)
    | _, _ => none

end

instance : Codec Formula where
  encode := toJson
  decode room v := if v.depth ≤ room then ofJson? v else none

end Formula

instance : Codec Degree where
  encode
    | .scalar x => encode x
    | .sequence xs => encode xs
  decode room v :=
    match (decode room v : Option Float) with
    | some x => some (.scalar x)
    | none => (decode room v).map .sequence

instance {O : Type} [Codec O] : Codec (Trace O) where
  encode t := encode t.toList
  decode room v := (decode room v).bind Trace.ofList?

instance {A : Type} [Codec A] : Codec (Certificate A) where
  encode c := .obj <|
    [("proof_abides", encode c.robustness), ("action", encode c.action)] ++
      memberUnless c.perTrace.isEmpty "per_trajectory" (encode c.perTrace)
  decode
    | 0, _ => none
    | room + 1, v =>
      match fields? ["proof_abides", "action", "per_trajectory"] v with
      | some [robustness, action, perTrace] => do
        return ⟨← required room robustness, ← required room action, ← optional [] room perTrace⟩
      | _ => none

end RightOfWay.Logic

import RightOfWay.Json.Codec
import RightOfWay.Traffic.Condition
import RightOfWay.Traffic.Crossing

namespace RightOfWay.Traffic

open Json (Codec encode decode fields? required)

/-- Reads one of several names, alone or as the only member of an object. -/
def oneOf? {α : Type} (name : α → String) (all : List α) : Nat → Json → Option α
  | _, .str s => all.find? fun a => name a == s
  | _ + 1, .obj [(k, .null)] => all.find? fun a => name a == k
  | _, _ => none

instance : Codec Condition where
  encode c := .str c.name
  decode := oneOf? Condition.name Condition.all

instance : Codec Approach where
  encode a := .str a.fullName
  decode := oneOf? Approach.fullName Approach.all

instance : Codec Phase where
  encode p := .obj [("green", encode [p.north, p.east, p.south, p.west])]
  decode
    | 0, _ => none
    | room + 1, v =>
      match fields? ["green"] v with
      | some [green] =>
        match (required room green : Option (List Bool)) with
        | some [n, e, s, w] => some ⟨n, e, s, w⟩
        | _ => none
      | _ => none

instance : Codec Position where
  encode p := encode [p.x, p.y]
  decode room v :=
    match (decode room v : Option (List Float)) with
    | some [x, y] => some ⟨x, y⟩
    | _ => none

instance : Codec Sighting where
  encode s := .obj [("id", encode s.id), ("lane", encode s.lane), ("position", encode s.position),
    ("crashed", encode s.crashed)]
  decode
    | 0, _ => none
    | room + 1, v =>
      match fields? ["id", "lane", "position", "crashed"] v with
      | some [id, lane, position, crashed] => do
        return ⟨← required room id, ← required room lane, ← required room position, ← required room crashed⟩
      | _ => none

instance : Codec View where
  encode s := .obj [("phase", encode s.phase), ("positions", encode s.positions),
    ("crashes", encode s.crashes), ("throughput", encode s.throughput)]
  decode
    | 0, _ => none
    | room + 1, v =>
      match fields? ["phase", "positions", "crashes", "throughput"] v with
      | some [phase, positions, crashes, throughput] => do
        return ⟨← required room phase, ← required room positions, ← required room crashes, ← required room throughput⟩
      | _ => none

end RightOfWay.Traffic

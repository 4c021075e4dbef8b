import RightOfWay.Logic.Meaning
import RightOfWay.Number.Extremum
import RightOfWay.Traffic.Approach

namespace RightOfWay.Traffic

open Logic (EvalError)

/-- What an observer of the traffic sees. -/
inductive Condition where
  | flow
  | empty
  | crash
  deriving DecidableEq

/-- The separation below which two vehicles count as collided. -/
def crashSeparation : Float := 1e-5

def Position.distance (p q : Position) : Float :=
  let dx := p.x - q.x
  let dy := p.y - q.y
  (dx * dx + dy * dy).sqrt

/-- The distances of all pairs of points, with nothing on the diagonal that could be close. -/
def separations (ps : List Position) (i j : Fin ps.length) : Float :=
  if i = j then Number.infinity else (ps.get i).distance (ps.get j)

/-- Whether some two of the points are closer than `separation`. -/
def anyCloser (separation : Float) (ps : List Position) : Bool :=
  (List.finRange ps.length).any fun i => (List.finRange ps.length).any fun j => separations ps i j < separation

namespace Condition

def all : List Condition := [.flow, .empty, .crash]

/-- The name of a condition, which is also the proposition that it is observed. -/
def name : Condition → String
  | .flow => "traffic_flow"
  | .empty => "no_traffic"
  | .crash => "crash"

def ofName? (s : String) : Option Condition := all.find? fun c => c.name == s

/-- The condition of traffic at the given positions. -/
def ofPositions (separation : Float) (ps : List Position) : Condition :=
  if ps.isEmpty then .empty else if anyCloser separation ps then .crash else .flow

/-- A proposition holds fully where the condition of its name is observed, and not at all elsewhere. -/
def valuation (name : String) (observed : Condition) : Except EvalError Float :=
  match ofName? name with
  | none => .error (.unknownAtom name)
  | some c => .ok (if c = observed then 1.0 else 0.0)

end Condition

end RightOfWay.Traffic

import RightOfWay.Text.Letter
import RightOfWay.Traffic.Condition
import RightOfWay.Traffic.Phase

namespace RightOfWay.Traffic

open Logic (EvalError Formula)

/-- A rule of the road. -/
inductive Rule where
  | safety
  | shield
  deriving DecidableEq

def safety : Formula := .always (.neg (.atom Condition.crash.name))

/-- The pairs of crossing approaches, each once. -/
def crossingPairs : List (Approach × Approach) :=
  [Approach.north, .south].flatMap fun a => a.crossing.map fun b => (a, b)

/-- Never green for two crossing lanes. -/
def shield : Formula :=
  .always (.neg (.disj (crossingPairs.map fun (a, b) => (Formula.atom a.letter).and (.atom b.letter))))

/-- The proposition of a letter holds fully while the light of that approach is green, and not at all
otherwise. Full names and other spellings are no propositions. -/
def Phase.valuation (name : String) (p : Phase) : Except EvalError Float :=
  match (Approach.ofText? name).filter fun a => a.letter == name with
  | none => .error (.unknownAtom name)
  | some a => .ok (if p.isGreen a then 1.0 else 0.0)

namespace Rule

def all : List Rule := [.safety, .shield]

def name : Rule → String
  | .safety => "safety"
  | .shield => "shield"

/-- The names a rule is known by. -/
def names : Rule → List String
  | .safety => ["safety", "no_crash"]
  | .shield => ["shield", "safety_shield"]

def description : Rule → String
  | .safety => "G !crash over the traffic observer"
  | .shield => "G !(N&E | N&W | S&E | S&W) over the light phase"

def formula : Rule → Formula
  | .safety => Traffic.safety
  | .shield => Traffic.shield

/-- Reads a name of a rule, in any case. -/
def ofText? (s : String) : Option Rule := all.find? fun r => r.names.contains (Text.smallLetters s)

def unknownText (s : String) : String := "Unknown specification: " ++ s

end Rule

end RightOfWay.Traffic

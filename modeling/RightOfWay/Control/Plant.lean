import RightOfWay.Control.Info
import RightOfWay.Traffic.Approach

namespace RightOfWay.Control

open Traffic (Position)

/-- A failure that a plant, its world or a policy reports. -/
inductive Fault where
  | step (reason : String)
  | reset (reason : String)
  | world (reason : String)
  | policy (reason : String)
  deriving DecidableEq

def Fault.message : Fault → String
  | .step reason => "Simulation step failed: " ++ reason
  | .reset reason => "Reset failed: " ++ reason
  | .world reason => "World step failed: " ++ reason
  | .policy reason => "Controller error: " ++ reason

/-- Why a step or a batch of steps gives no outcome: a reported fault, or something that cannot be carried
out at all, because the plant was set up outside its domain or because the outcome has no place in memory. -/
inductive Interruption where
  | fault (f : Fault)
  | aborted

/-- The outcome of a step. -/
structure Transition (T : Type) where
  state : T
  reward : Float
  done : Bool
  info : Info

/-- A steppable system with states `S`, actions `A` and visible states `T`. -/
structure Plant (S A T : Type) where
  step : A → S → S × Except Interruption (Transition T)
  /-- One step of the surrounding world alone; says whether the world's episode is over. -/
  stepWorld : A → S → S × Except Interruption Bool
  positions : S → List Position
  render : S → S

/-- A rule that selects actions, with states `K`. -/
structure Policy (K A : Type) where
  select : K → K × Except Fault A
  /-- An independent policy for the repetition with the given number. -/
  fork : UInt64 → K → K

end RightOfWay.Control

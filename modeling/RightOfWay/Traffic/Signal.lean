import RightOfWay.Chance.Stream
import RightOfWay.Control.Plant
import RightOfWay.Traffic.Phase

namespace RightOfWay.Traffic

open Chance (Stream)
open Control (Transition)

/-- A signal with the state of the stream its initial phases are drawn from. -/
structure Signal where
  phase : Phase
  steps : Nat
  budget : Nat
  stream : Stream

namespace Signal

def start (budget : Nat) (seed : UInt64) : Signal :=
  let (n, stream) := (Stream.ofSeed seed).belowSixteen
  ⟨.ofBits n, 0, budget, stream⟩

def isDone (s : Signal) : Bool := s.budget ≤ s.steps

def switchTo (s : Signal) (p : Phase) : Signal := { s with phase := p, steps := s.steps + 1 }

/-- One step, with its outcome. Signals are not rewarded. -/
def step (p : Phase) (s : Signal) : Signal × Transition Phase :=
  let s := s.switchTo p
  (s, ⟨s.phase, 0.0, s.isDone, .empty⟩)

/-- Starts a new episode with a fresh random phase. -/
def reset (s : Signal) : Signal :=
  let (n, stream) := s.stream.belowSixteen
  { s with phase := .ofBits n, steps := 0, stream := stream }

end Signal

end RightOfWay.Traffic

import RightOfWay.Control.Plant

namespace RightOfWay.Bench

open Control (Fault Info Interruption Plant Policy Transition)
open Traffic (Position)

/-- A countdown. The steps are counted over all rollouts. -/
structure Countdown where
  remaining : Nat
  taken : Nat := 0
  /-- The step that fails, counted from one. -/
  failAt : Option Nat := none
  /-- The action under which the entities collide. -/
  crashOn : Option Int32 := none
  renders : Nat := 0
  /-- Where the second entity is; the first one stays at the origin. -/
  gap : Float := 10.0
  worldSteps : Nat := 0
  worldBudget : Nat := UInt32.size - 1

namespace Countdown

def step (a : Int32) (c : Countdown) : Countdown × Except Interruption (Transition Nat) :=
  let taken := c.taken + 1
  if c.failAt = some taken then
    ({ c with taken := taken }, .error (.fault (.step s!"injected at step {taken}")))
  else
    let remaining := c.remaining - 1
    let gap := if c.crashOn = some a then 0.0 else 10.0
    ({ c with taken := taken, remaining := remaining, gap := gap },
      .ok ⟨taken, Float.ofInt a.toInt, remaining = 0, .empty⟩)

def stepWorld (c : Countdown) : Countdown × Except Interruption Bool :=
  let steps := c.worldSteps + 1
  ({ c with worldSteps := steps }, .ok (c.worldBudget ≤ steps))

def plant : Plant Countdown Int32 Nat where
  step := step
  stepWorld _ c := c.stepWorld
  positions c := [⟨0.0, 0.0⟩, ⟨c.gap, 0.0⟩]
  render c := { c with renders := c.renders + 1 }

end Countdown

/-- A policy that always selects one action, or always fails. -/
structure Steady where
  action : Int32
  fails : Bool := false
  calls : Nat := 0

namespace Steady

def select (s : Steady) : Steady × Except Fault Int32 :=
  ({ s with calls := s.calls + 1 }, if s.fails then .error (.policy "no action available") else .ok s.action)

def policy : Policy Steady Int32 where
  select := select
  fork _ s := { s with calls := 0 }

end Steady

end RightOfWay.Bench

import RightOfWay.Control.Plant

namespace RightOfWay.Bench

open Control (Fault Info Interruption Plant Policy Transition)
open Traffic (Position)

/-- What a scripted plant does in one step. -/
structure Scene where
  reward : Float := 0.0
  done : Bool := false
  /-- Where the entities go; they stay where they are if nothing is said. -/
  positions : Option (List Position) := none
  info : Info := .empty
  fault : Option Fault := none

/-- A plant that goes through its scenes, and a world that goes through its own. The last scene is
repeated. -/
structure Script where
  scenes : List Scene
  world : List Scene
  positions : List Position
  calls : Nat := 0
  worldCalls : Nat := 0
  renders : Nat := 0

namespace Script

/-- The scene of the `k`-th call, counted from zero. -/
def sceneAt (scenes : List Scene) (k : Nat) : Scene := scenes.getD (min k (scenes.length - 1)) {}

/-- The next scene. A failing call counts, and changes nothing else. -/
def step (s : Script) : Script × Except Interruption (Transition Nat) :=
  let scene := sceneAt s.scenes s.calls
  let s := { s with calls := s.calls + 1 }
  match scene.fault with
  | some f => (s, .error (.fault f))
  | none =>
    ({ s with positions := scene.positions.getD s.positions },
      .ok ⟨s.calls, scene.reward, scene.done, scene.info⟩)

def stepWorld (s : Script) : Script × Except Interruption Bool :=
  let scene := sceneAt s.world s.worldCalls
  let s := { s with worldCalls := s.worldCalls + 1 }
  match scene.fault with
  | some f => (s, .error (.fault f))
  | none => (s, .ok scene.done)

def plant : Plant Script Int32 Nat where
  step _ s := s.step
  stepWorld _ s := s.stepWorld
  positions := positions
  render s := { s with renders := s.renders + 1 }

end Script

/-- A policy that goes round a list of actions, and fails at one chosen call. -/
structure Rota (A : Type) where
  actions : List A
  failAt : Option Nat := none
  offset : Nat := 0
  calls : Nat := 0

namespace Rota

variable {A : Type}

def select (r : Rota A) : Rota A × Except Fault A :=
  let r := { r with calls := r.calls + 1 }
  if r.failAt = some r.calls then (r, .error (.policy s!"scripted at call {r.calls}"))
  else
    match r.actions[(r.offset + r.calls - 1) % r.actions.length]? with
    | some a => (r, .ok a)
    | none => (r, .error (.policy "no action available"))

/-- A repetition starts as many places further on as its number says. -/
def fork (stream : UInt64) (r : Rota A) : Rota A :=
  { r with offset := stream.toNat % r.actions.length, calls := 0 }

def policy : Policy (Rota A) A where
  select := select
  fork := fork

end Rota

end RightOfWay.Bench

import RightOfWay.Control.Rollout
import RightOfWay.Control.Settings
import RightOfWay.Logic.Certificate
import RightOfWay.Text.Quoted

namespace RightOfWay.Control

open Logic (Certificate Spec Trace)

/-- The bytes of a job: a copy of all that a run holds, which depends on what it is made of and on the machine. -/
structure JobSize where
  bytes : Nat
  pos : 0 < bytes

instance : Inhabited JobSize := ⟨⟨1, Nat.one_pos⟩⟩

/-- A plant, a policy, an observer and a specification, with the settings of certification. -/
structure Supervisor (S K A T O : Type) where
  plant : Plant S A T
  policy : Policy K A
  observe : S → O
  spec : Spec O
  settings : Settings
  /-- Looked at by fan-outs only. -/
  jobSize : JobSize := default

/-- The states of plant and policy during a run. -/
structure Live (S K : Type) where
  plant : S
  policy : K

/-- A certified and taken action. -/
structure Step (A T O : Type) where
  rollouts : List (Rollout O)
  certificate : Certificate A
  transition : Transition T

/-- What is reported of a step. -/
structure StepReport (T A O : Type) where
  next : T
  reward : Float
  done : Bool
  info : Info
  certificate : Certificate A
  traces : List (Trace O)

/-- A step within a run, and whether the world's episode was over before it. -/
structure Iteration (A T O : Type) where
  step : Step A T O
  worldDone : Bool

/-- What is reported of one or more runs. -/
structure Report (A O : Type) where
  certificates : List (Certificate A)
  traces : List (Trace O)
  accepted : Nat
  totalReward : Float

variable {S K A T O : Type}

def Step.traces (s : Step A T O) : List (Trace O) := s.rollouts.map Rollout.trace

def Step.report (s : Step A T O) : StepReport T A O where
  next := s.transition.state
  reward := s.transition.reward
  done := s.transition.done
  info := s.transition.info
  certificate := s.certificate
  traces := s.traces

namespace Report

def empty : Report A O := ⟨[], [], 0, 0.0⟩

/-- Certificates that were not accepted. -/
def rejected (r : Report A O) : Nat := r.certificates.length - r.accepted

/-- Puts another report behind this one. -/
def merge (r s : Report A O) : Report A O :=
  ⟨r.certificates ++ s.certificates, r.traces ++ s.traces, r.accepted + s.accepted,
    r.totalReward + s.totalReward⟩

def enter (threshold : Float) (r : Report A O) (i : Iteration A T O) : Report A O where
  certificates := r.certificates ++ [i.step.certificate]
  traces := r.traces ++ i.step.traces
  accepted := if i.step.certificate.abides threshold then r.accepted + 1 else r.accepted
  totalReward := r.totalReward + i.step.transition.reward

def ofIterations (threshold : Float) (is : List (Iteration A T O)) : Report A O := is.foldl (enter threshold) empty

end Report

namespace Supervisor

/-- Certifies an action on rollouts and takes it. Nothing is taken if the rollouts have no certificate. -/
def take (v : Supervisor S K A T O) (a : A) (s : S) : S × Except Failure (Step A T O) :=
  match v.plant.rollouts v.observe a v.settings.horizon v.settings.traces s with
  | (s, .error i) => (s, .error i.toFailure)
  | (s, .ok rollouts) =>
    match v.spec.certifyAll (rollouts.map Rollout.trace) a with
    | .error e => (s, .error (.eval e))
    | .ok certificate =>
      match v.plant.step a s with
      | (s, .error i) => (s, .error i.toFailure)
      | (s, .ok transition) => (s, .ok ⟨rollouts, certificate, transition⟩)

/-- One step: the policy selects an action, which is then certified and taken. -/
def step (v : Supervisor S K A T O) (l : Live S K) : Live S K × Except Failure (Step A T O) :=
  match v.policy.select l.policy with
  | (k, .error f) => (⟨l.plant, k⟩, .error (.fault f))
  | (k, .ok a) =>
    match v.take a l.plant with
    | (s, r) => (⟨s, k⟩, r)

/-- Steps the world under an action that the policy selects; says whether its episode is over. -/
def stepWorld (v : Supervisor S K A T O) (l : Live S K) : Live S K × Except Failure Bool :=
  match v.policy.select l.policy with
  | (k, .error f) => (⟨l.plant, k⟩, .error (.fault f))
  | (k, .ok a) =>
    match v.plant.stepWorld a l.plant with
    | (s, .error i) => (⟨s, k⟩, .error i.toFailure)
    | (s, .ok done) => (⟨s, k⟩, .ok done)

/-- One iteration: a step of the world, a step, and a look at the plant. -/
def iterate (v : Supervisor S K A T O) (l : Live S K) : Live S K × Except Failure (Iteration A T O) :=
  match v.stepWorld l with
  | (l, .error e) => (l, .error e)
  | (l, .ok worldDone) =>
    match v.step l with
    | (l, .error e) => (l, .error e)
    | (l, .ok step) => (⟨v.plant.render l.plant, l.policy⟩, .ok ⟨step, worldDone⟩)

/-- Up to `n` iterations; the one in which the world's episode ends is the last. -/
def iterations (v : Supervisor S K A T O) :
    Nat → Live S K → Live S K × Except Failure (List (Iteration A T O))
  | 0, l => (l, .ok [])
  | n + 1, l =>
    match v.iterate l with
    | (l, .error e) => (l, .error e)
    | (l, .ok i) =>
      if i.worldDone then (l, .ok [i])
      else
        match v.iterations n l with
        | (l, .error e) => (l, .error e)
        | (l, .ok is) => (l, .ok (i :: is))

def run (v : Supervisor S K A T O) (n : Nat) (l : Live S K) : Live S K × Except Failure (Report A O) :=
  match v.iterations n l with
  | (l, .error e) => (l, .error e)
  | (l, .ok is) => (l, .ok (.ofIterations v.settings.threshold is))

/-- An independent copy for the repetition with the given number. -/
def fork (v : Supervisor S K A T O) (stream : UInt64) (l : Live S K) : Live S K :=
  ⟨l.plant, v.policy.fork stream l.policy⟩

end Supervisor

end RightOfWay.Control

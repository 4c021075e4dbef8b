import RightOfWay.Control.Fanout
import RightOfWay.Text.Harmless

namespace RightOfWay.Command

open Control (FanoutSettings Iteration Pool Report Rollout Settings Step)
open Logic (Formula)

inductive Level where
  | error
  | warn
  | info
  | debug
  deriving DecidableEq

def Level.name : Level → String
  | .error => "ERROR"
  | .warn => "WARN"
  | .info => "INFO"
  | .debug => "DEBUG"

/-- Levels from the most to the least urgent. -/
def Level.rank : Level → Nat
  | .error => 1
  | .warn => 2
  | .info => 3
  | .debug => 4

/-- The part of the program a line comes from. -/
inductive Source where
  | command
  | supervisor
  | sampler
  | pool

def Source.name : Source → String
  | .command => "gatekeep"
  | .supervisor => "gatekeep_sim::gatekeeper"
  | .sampler => "gatekeep_sim::sampler"
  | .pool => "gatekeep_sim::pool"

structure Event where
  level : Level
  source : Source
  message : String
  fields : List (String × String) := []

/-- The text of a line. A message may hold any text, so it is made harmless; the fields are written as they
are. -/
def Event.text (e : Event) : String :=
  e.level.name ++ " " ++ e.source.name ++ ": " ++ Text.harmless e.message ++
    String.join (e.fields.map fun f => " " ++ f.1 ++ "=" ++ f.2)

/-- Up to which level lines are shown; zero shows none. -/
structure Filter where
  rank : Nat

def Filter.ofName? (s : String) : Option Filter :=
  match Text.smallLetters s with
  | "off" => some ⟨0⟩
  | "error" => some ⟨1⟩
  | "warn" => some ⟨2⟩
  | "info" => some ⟨3⟩
  | "debug" => some ⟨4⟩
  | "trace" => some ⟨5⟩
  | _ => none

def Filter.shows (f : Filter) (e : Event) : Bool := e.level.rank ≤ f.rank

/-- Values in log lines are positional from `0.0001` up to `1e16`. Of two equally near last digits the upper
one is taken. -/
def floatLayout : Number.Layout where
  lowest := -4
  highest := 15
  tie := .up
  exponentSign := ""
  nan := "NaN"
  infinity := "inf"
  negInfinity := "-inf"

def floatText (x : Float) : String := String.ofList (floatLayout.write x)

def boolText : Bool → String
  | true => "true"
  | false => "false"

/-- A supervisor in one line: its formula and settings. -/
def supervisorText (f : Formula) (s : Settings) : String :=
  "Gatekeeper \x7b spec: CompiledSpec \x7b formula: " ++ Text.quoted f.text ++
    ", .. \x7d, config: GatekeeperConfig \x7b num_trajectories: " ++ toString s.traces ++
    ", horizon: " ++ toString s.horizon ++
    ", acceptance_threshold: " ++ floatText s.threshold ++ " \x7d, .. \x7d"

def poolText (p : Pool) : String := "WorkerPool \x7b workers: " ++ toString p.workers ++ " \x7d"

namespace Event

def compiling (f : Formula) : Event :=
  ⟨.debug, .supervisor, "Compiling specification",
    [("formula", f.text), ("atoms", Text.quotedList f.atoms), ("size", toString f.size)]⟩

def poolStarted (p : Pool) : Event :=
  ⟨.debug, .pool, "Worker pool started", [("workers", toString p.workers)]⟩

def fanningOut (s : FanoutSettings) (p : Pool) : Event :=
  ⟨.info, .supervisor, "Fanning out gatekeeper loops",
    [("repetitions", toString s.repetitions), ("iterations", toString s.iterations),
      ("workers", toString p.workers)]⟩

variable {A T O : Type}

def sampled (n : Nat) (r : Rollout O) : Event :=
  ⟨.debug, .sampler, "Sampled rollout",
    [("rollout", toString n), ("steps", toString r.trace.steps), ("done", boolText r.done)]⟩

/-- The lines of a step: one for each rollout, and one for the certificate. -/
def ofStep (s : Step A T O) : List Event :=
  (s.rollouts.mapIdx sampled) ++
    [⟨.debug, .supervisor, "Certified action",
      [("robustness", s.certificate.robustness.text), ("rollouts", toString s.rollouts.length)]⟩]

/-- The lines of an iteration: those of its step, then what is to be said about the outcome. -/
def ofIteration (threshold : Float) (n : Nat) (i : Iteration A T O) : List Event :=
  let c := i.step.certificate
  ofStep i.step ++
    (if c.abides threshold then []
      else [⟨.warn, .supervisor, "Action below acceptance threshold",
        [("iteration", toString n), ("robustness", c.robustness.text),
          ("threshold", floatText threshold)]⟩]) ++
    if i.worldDone then [⟨.debug, .supervisor, "World done", [("iteration", toString n)]⟩] else []

def counts (message : String) (r : Report A O) : Event :=
  ⟨.info, .supervisor, message,
    [("certificates", toString r.certificates.length), ("accepted", toString r.accepted)]⟩

def ofRun (threshold : Float) (is : List (Iteration A T O)) : List Event :=
  (is.mapIdx (ofIteration threshold)).flatten ++
    [counts "Loop finished" (Report.ofIterations threshold is)]

end Event

end RightOfWay.Command

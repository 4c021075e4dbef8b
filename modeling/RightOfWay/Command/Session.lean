import RightOfWay.Command.Log
import RightOfWay.Command.Options
import RightOfWay.Format.Control
import RightOfWay.Traffic.RandomPhases
import RightOfWay.Traffic.Rule

namespace RightOfWay.Command

open Control (Dossier Failure FanoutSettings JobSize Live Pool Report Settings Supervisor)
open Traffic (Condition Crossing Phase RandomPhases Rule Setup View)

/-- What is left when the program has ended. -/
structure Outcome where
  exitCode : UInt8
  output : String := ""
  notice : String := ""
  events : List Event := []
  failure : Option Failure := none

/-- A session that has ended, or one that goes on when a text has been stored. The events are those before
the text; the outcome has those after it. -/
inductive Session where
  | ended (o : Outcome)
  | storing (events : List Event) (path text : String) (resume : Except String Unit → Outcome)

def version : String := "0.1.0"

def separator : String := String.ofList (List.replicate 53 '━')

def note (message : String) : Event := ⟨.info, .command, message, []⟩

def supervisor {O : Type} (o : Options) (observe : Crossing → O) (spec : Logic.Spec O) (jobSize : JobSize) :
    Supervisor Crossing RandomPhases Phase View O where
  plant := Crossing.plant
  policy := RandomPhases.policy
  observe := observe
  spec := spec
  settings := ⟨o.traces, o.horizon, o.threshold⟩
  jobSize := jobSize

def startLive (seed : UInt64) : Live Crossing RandomPhases :=
  ⟨.start { seed := seed }, .ofSeed (seed * Traffic.goldenRatio)⟩

/-- Runs one loop, or repetitions of it side by side. Gives the lines written so far and the report. -/
def supervised {O : Type} (o : Options) (seed : UInt64) (v : Supervisor Crossing RandomPhases Phase View O) :
    List Event × Except Failure (Report Phase O) :=
  let threshold := v.settings.threshold
  match v.settings.check with
  | .error m => ([], .error (.misfit m))
  | .ok () =>
    let opening := [.compiling v.spec.formula,
      ⟨.debug, .command, supervisorText v.spec.formula v.settings, []⟩]
    if o.parallel then
      match Pool.ofWorkers o.workers with
      | .error e => (opening, .error e)
      | .ok pool =>
        let fanout : FanoutSettings := ⟨o.iterations, o.repetitions, o.workers⟩
        let opening := opening ++ [.poolStarted pool, .fanningOut fanout pool]
        match v.repetitions fanout List.range (startLive seed) with
        | .error e => (opening, .error e)
        | .ok runs =>
          let report := (runs.map (Report.ofIterations threshold)).foldl Report.merge Report.empty
          (opening ++ runs.flatMap (Event.ofRun threshold) ++
            [.counts "Parallel loops finished" report], .ok report)
    else
      match (v.iterations o.iterations (startLive seed)).2 with
      | .error e => (opening, .error e)
      | .ok is => (opening ++ Event.ofRun threshold is, .ok (.ofIterations threshold is))

/-- Runs the supervisor of a rule. Gives the lines written so far and the dossier. -/
def dossierOf (o : Options) (rule : Rule) (seed : UInt64) (jobSize : JobSize) :
    List Event × Except Failure Dossier :=
  let blank := Dossier.start rule.name rule.formula.text seed o.threshold
  match rule with
  | .safety =>
    let observe (c : Crossing) : Condition := .ofPositions Traffic.crashSeparation c.view.positions
    let (events, report) := supervised o seed (supervisor o observe ⟨rule.formula, Condition.valuation⟩ jobSize)
    (events, report.map (blank.add Phase.text Condition.name))
  | .shield =>
    let observe (c : Crossing) : Phase := c.signal.phase
    let (events, report) := supervised o seed (supervisor o observe ⟨rule.formula, Phase.valuation⟩ jobSize)
    (events, report.map (blank.add Phase.text Phase.text))

/-- The summary of a dossier, its members in alphabetical order. -/
def summary (d : Dossier) : Json :=
  .obj [("accepted", .int d.accepted), ("certificates", .int d.entries.length), ("formula", .str d.formula),
    ("rejected", .int d.rejected), ("seed", .int d.seed.toNat), ("spec", .str d.rule),
    ("trajectories", .int d.traces.length)]

def finish (o : Options) (events : List Event) (d : Dossier) : Outcome :=
  if o.json then { exitCode := 0, output := (summary d).pretty ++ "\n", events := events }
  else
    let closing := s!"✓ {d.entries.length} certificates issued: {d.accepted} accepted, " ++
      s!"{d.rejected} rejected ({d.traces.length} rollouts)"
    { exitCode := 0, events := events ++ [note separator, note closing] }

/-- The outcome of a session that failed. One that could not be carried out at all ends without a word. -/
def fail (rule : Rule) (seed : UInt64) (events : List Event) (e : Failure) : Outcome :=
  match e with
  | .aborted => { exitCode := 101, events := events, failure := some e }
  | e =>
    { exitCode := 1
      events := events ++
        [⟨.error, .command, s!"✗ {rule.name} (seed={seed}) FAILED: " ++ e.message, []⟩]
      failure := some e }

def Session.ofRule (o : Options) (rule : Rule) (seed : UInt64) (jobSize : JobSize) : Session :=
  let opening := if o.json then []
    else [note ("Gatekeep v" ++ version), note separator,
      note (s!"{rule.name} (seed={seed}): " ++ rule.description)]
  let (events, result) := dossierOf o rule seed jobSize
  let events := opening ++ events
  match result with
  | .error e => .ended (fail rule seed events e)
  | .ok d =>
    match o.dossier with
    | none => .ended (finish o events d)
    | some path => .storing events path (Json.encode d).pretty fun
      | .error reason => fail rule seed [] (.storage reason)
      | .ok () => finish o [note (s!"Exported {d.entries.length} certificates to " ++ path)] d

/-- A session for the given options. A seed of zero stands for one taken from the clock; how large jobs are is up to the
machine. -/
def Session.ofOptions (o : Options) (clock : UInt64) (jobSize : Rule → JobSize) : Session :=
  match Rule.ofText? o.rule with
  | none => .ended
    { exitCode := 1
      notice := "Error: " ++ Rule.unknownText o.rule ++ "\nAvailable specifications: " ++
        ", ".intercalate (Rule.all.map Rule.name) ++ "\n" }
  | some rule => .ofRule o rule (if o.seed = 0 then clock else o.seed) (jobSize rule)

/-- A session for a command line; one that is not acceptable ends at once. -/
def Session.ofArguments (args : List String) (clock : UInt64) (jobSize : Rule → JobSize) : Session :=
  match Options.ofArguments? args with
  | none => .ended { exitCode := 2, notice := "error: invalid arguments\n" }
  | some o => .ofOptions o clock jobSize

/-- Up to which level the lines of a session are shown, unless something else overrides it. -/
def Filter.ofArguments (args : List String) : Filter :=
  match Options.ofArguments? args with
  | some o => if o.verbose then ⟨4⟩ else ⟨3⟩
  | none => ⟨3⟩

end RightOfWay.Command

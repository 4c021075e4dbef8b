import RightOfWay.Number.Literal

namespace RightOfWay.Command

structure Options where
  seed : UInt64 := 42
  rule : String := "safety"
  traces : Nat := 10
  horizon : Nat := 10
  iterations : Nat := 10
  repetitions : Nat := 10
  workers : Nat := 5
  parallel : Bool := false
  threshold : Float := 1.0 - 1e-6
  verbose : Bool := false
  json : Bool := false
  dossier : Option String := none

inductive Switch where
  | seed
  | rule
  | traces
  | horizon
  | iterations
  | repetitions
  | workers
  | parallel
  | threshold
  | verbose
  | json
  | dossier
  deriving DecidableEq

namespace Switch

def all : List Switch :=
  [.seed, .rule, .traces, .horizon, .iterations, .repetitions, .workers, .parallel, .threshold, .verbose,
    .json, .dossier]

def long : Switch → String
  | .seed => "seed"
  | .rule => "spec"
  | .traces => "trajectories"
  | .horizon => "horizon"
  | .iterations => "iterations"
  | .repetitions => "repetitions"
  | .workers => "workers"
  | .parallel => "parallel"
  | .threshold => "threshold"
  | .verbose => "verbose"
  | .json => "json"
  | .dossier => "export"

def short? : Switch → Option Char
  | .seed => some 's'
  | .rule => some 'S'
  | .traces => some 'n'
  | .iterations => some 'i'
  | .repetitions => some 'r'
  | .workers => some 'w'
  | .verbose => some 'v'
  | .horizon | .parallel | .threshold | .json | .dossier => none

def takesValue : Switch → Bool
  | .parallel | .verbose | .json => false
  | _ => true

def ofLong? (name : List Char) : Option Switch := all.find? fun s => s.long.toList == name

def ofShort? (c : Char) : Option Switch := all.find? fun s => s.short? == some c

end Switch

/-- Counts and seeds have 64 bits. -/
def count? (s : String) : Option Nat := Number.natBelow? UInt64.size s

/-- Sets the option of a switch from the text of its value; none if the text is no value for it. -/
def Options.set (o : Options) (switch : Switch) (value : String) : Option Options :=
  match switch with
  | .seed => (count? value).map fun n => { o with seed := n.toUInt64 }
  | .rule => some { o with rule := value }
  | .traces => (count? value).map fun n => { o with traces := n }
  | .horizon => (count? value).map fun n => { o with horizon := n }
  | .iterations => (count? value).map fun n => { o with iterations := n }
  | .repetitions => (count? value).map fun n => { o with repetitions := n }
  | .workers => (count? value).map fun n => { o with workers := n }
  | .threshold => (Number.float? value).map fun x => { o with threshold := x }
  | .dossier => some { o with dossier := some value }
  | .parallel => some { o with parallel := true }
  | .verbose => some { o with verbose := true }
  | .json => some { o with json := true }

/-- The options so far, and the switches that were given. -/
structure Parsed where
  options : Options := {}
  given : List Switch := []

/-- Takes a switch with its value into account; none if it was given before. -/
def Parsed.add (p : Parsed) (switch : Switch) (value : String) : Option Parsed :=
  if p.given.contains switch then none
  else (p.options.set switch value).map fun o => ⟨o, switch :: p.given⟩

/-- What an argument leads to: it is complete, or a switch still waits for its value. -/
inductive Argument where
  | complete (p : Parsed)
  | waiting (p : Parsed) (switch : Switch)

def Parsed.longOption (p : Parsed) (cs : List Char) : Option Argument :=
  let name := cs.takeWhile (· != '=')
  match Switch.ofLong? name, cs.dropWhile (· != '=') with
  | none, _ => none
  | some switch, [] =>
    if switch.takesValue then some (.waiting p switch) else (p.add switch "").map .complete
  | some switch, _ :: value =>
    if switch.takesValue then (p.add switch (String.ofList value)).map .complete else none

/-- A group of short options, without its dash. The first one with a value takes the rest of the group. -/
def Parsed.shortOptions (p : Parsed) : List Char → Option Argument
  | [] => some (.complete p)
  | c :: cs =>
    match Switch.ofShort? c with
    | none => none
    | some switch =>
      if switch.takesValue then
        match cs with
        | [] => some (.waiting p switch)
        | '=' :: value => (p.add switch (String.ofList value)).map .complete
        | value => (p.add switch (String.ofList value)).map .complete
      else
        match p.add switch "" with
        | none => none
        | some p => p.shortOptions cs

/-- One argument. An argument that does not start with a dash, or is only a dash, belongs to no switch. -/
def Parsed.argument (p : Parsed) (s : String) : Option Argument :=
  match s.toList with
  | '-' :: '-' :: cs => p.longOption cs
  | '-' :: c :: cs => p.shortOptions (c :: cs)
  | _ => none

def looksLikeOption (s : String) : Bool :=
  match s.toList with
  | '-' :: _ :: _ => true
  | _ => false

/-- All arguments in order. Two dashes end the options, and nothing may follow them. -/
def Parsed.arguments (p : Parsed) : List String → Option Parsed
  | [] => some p
  | ["--"] => some p
  | s :: rest =>
    match p.argument s, rest with
    | none, _ => none
    | some (.complete p), rest => p.arguments rest
    | some (.waiting _ _), [] => none
    | some (.waiting p switch), value :: rest =>
      if looksLikeOption value then none
      else
        match p.add switch value with
        | none => none
        | some p => p.arguments rest

/-- Reads a command line; none if it is not acceptable. -/
def Options.ofArguments? (args : List String) : Option Options :=
  (Parsed.arguments {} args).map (·.options)

end RightOfWay.Command

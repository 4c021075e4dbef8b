import RightOfWay.Control.Plant
import RightOfWay.Traffic.Signal

namespace RightOfWay.Traffic

open Control (Info Interruption Plant Transition)
open Chance (Stream)

/-- How a crossing is set up. -/
structure Setup where
  /-- Seed of the arrivals and of the signal. -/
  seed : UInt64 := 42
  /-- Steps of the signal in an episode. -/
  maxSteps : Nat := 10
  /-- Probability that a vehicle arrives in a tick. -/
  spawnRate : Float := 0.175
  maxVehicles : Nat := 10
  /-- Ticks of the vehicles for each step of the signal. -/
  ticksPerStep : Nat := 4
  /-- Cells from the centre to the end of the road. -/
  halfLength : Int := 6

/-- A vehicle on the lattice. -/
structure Vehicle where
  id : Nat
  lane : Approach
  cell : Cell
  crashed : Bool
  deriving DecidableEq

/-- A vehicle as it is shown to the outside. -/
structure Sighting where
  id : Nat
  lane : Approach
  position : Position
  crashed : Bool

/-- What is visible of a crossing. -/
structure View where
  phase : Phase
  positions : List Position
  crashes : Nat
  throughput : Nat

/-- A crossing at a moment. -/
structure Crossing where
  setup : Setup
  signal : Signal
  vehicles : List Vehicle
  /-- The stream that arrivals are drawn from. -/
  stream : Stream
  nextId : Nat
  ticks : Nat
  crashes : Nat
  throughput : Nat

/-- A vehicle that has not moved is at the point where its lane enters. -/
def Vehicle.position (halfLength : Int) (v : Vehicle) : Position :=
  if v.cell = v.lane.entry halfLength then v.lane.entryPosition halfLength else v.cell.toPosition

def Vehicle.sighting (halfLength : Int) (v : Vehicle) : Sighting :=
  ⟨v.id, v.lane, v.position halfLength, v.crashed⟩

def Vehicle.wreck (v : Vehicle) : Vehicle := { v with crashed := true }

/-- A vehicle advances one cell on green, unless it is a wreck. -/
def Vehicle.advance (p : Phase) (v : Vehicle) : Vehicle :=
  if !v.crashed && p.isGreen v.lane then { v with cell := v.cell.add v.lane.heading } else v

def Vehicle.onRoad (halfLength : Int) (v : Vehicle) : Bool :=
  (v.cell.x.natAbs : Int) ≤ halfLength && (v.cell.y.natAbs : Int) ≤ halfLength

/-- A vehicle meets those ahead of it in the list, one after the other. Two on one cell become wrecks, which
is a crash unless both were wrecks before. Gives the vehicles ahead, the vehicle, and the crashes. -/
def Vehicle.meet (v : Vehicle) : List Vehicle → List Vehicle × Vehicle × Nat
  | [] => ([], v, 0)
  | w :: ws =>
    if w.cell = v.cell && !(w.crashed && v.crashed) then
      let (ws, v, n) := v.wreck.meet ws
      (w.wreck :: ws, v, n + 1)
    else
      let (ws, v, n) := v.meet ws
      (w :: ws, v, n)

/-- Lets each vehicle in turn meet those `ahead` of it. -/
def collide (ahead : List Vehicle) : List Vehicle → List Vehicle × Nat
  | [] => (ahead, 0)
  | v :: vs =>
    let (ahead, v, n) := v.meet ahead
    let (all, m) := collide (ahead ++ [v]) vs
    (all, n + m)

/-- Reward of a vehicle that leaves the road, and of a crash. -/
def clearReward : Float := 1.0

def crashReward : Float := -1e3

/-- The odd constant that sets the seeds of the signal and of the controllers apart. -/
def goldenRatio : UInt64 := 0x9e3779b97f4a7c15

/-- The lane in which a vehicle arrives in a tick, if one does, and the rest of the stream; none if the rate is no
probability. A lane is drawn from at most 1024 double words, of which the last is not rejected. -/
def drawLane (rate : Float) (s : Stream) : Option (Option Approach × Stream) :=
  match s.event rate with
  | none => none
  | some (false, rest) => some (none, rest)
  | some (true, rest) =>
    let (lane, rest) := rest.belowFour
    some (some (.ofIndex lane), rest)

namespace Crossing

/-- An empty crossing. Arrivals and the signal draw from different seeds, so the length of an episode
does not change the traffic. -/
def start (s : Setup) : Crossing where
  setup := s
  signal := .start s.maxSteps (s.seed * goldenRatio)
  vehicles := []
  stream := .ofSeed s.seed
  nextId := 0
  ticks := 0
  crashes := 0
  throughput := 0

/-- Puts a vehicle on the entry of a lane, if the road has room for it and the cell is free. -/
def enter (c : Crossing) (lane : Approach) : Option Nat × Crossing :=
  let entry := lane.entry c.setup.halfLength
  if c.setup.maxVehicles ≤ c.vehicles.length || c.vehicles.any (fun v => v.cell = entry) then (none, c)
  else
    (some c.nextId,
      { c with nextId := c.nextId + 1, vehicles := c.vehicles ++ [⟨c.nextId, lane, entry, false⟩] })

/-- Lets a vehicle enter in the lane, if there is one. -/
def letIn (c : Crossing) : Option Approach → Crossing
  | none => c
  | some lane => (c.enter lane).2

/-- The random arrivals of a tick; none if the spawn rate is no probability. -/
def arrivals (c : Crossing) : Option Crossing :=
  match drawLane c.setup.spawnRate c.stream with
  | none => none
  | some (lane, stream) => some ({ c with stream := stream }.letIn lane)

def drive (c : Crossing) : Crossing :=
  { c with vehicles := c.vehicles.map (Vehicle.advance c.signal.phase) }

def kept (c : Crossing) : List Vehicle := c.vehicles.filter (Vehicle.onRoad c.setup.halfLength)

/-- How many vehicles have left the road. -/
def cleared (c : Crossing) : Nat := c.vehicles.length - c.kept.length

/-- Removes the vehicles that left the road, and counts them. -/
def clear (c : Crossing) : Crossing := { c with vehicles := c.kept, throughput := c.throughput + c.cleared }

/-- How many crashes there are when the vehicles meet. -/
def hits (c : Crossing) : Nat := (collide [] c.vehicles).2

/-- Turns vehicles on one cell into wrecks, and counts the crashes. -/
def settle (c : Crossing) : Crossing :=
  { c with vehicles := (collide [] c.vehicles).1, crashes := c.crashes + c.hits }

/-- What vehicles that have moved are worth: a reward for those that are cleared, to which each crash adds its own. -/
def reward (c : Crossing) : Float :=
  c.clear.hits.repeat (· + crashReward) (0.0 + Float.ofNat c.cleared * clearReward)

/-- One tick of the vehicles. Gives the reward, or nothing if the tick had to be abandoned after it was
counted. -/
def tick (c : Crossing) : Crossing × Option Float :=
  let c := { c with ticks := c.ticks + 1 }
  match c.arrivals with
  | none => (c, none)
  | some c => (c.drive.clear.settle, some c.drive.reward)

/-- Several ticks, whose rewards are added one after the other to that of the ticks before them. -/
def tickedFrom (c : Crossing) (before : Float) : Nat → Crossing × Option Float
  | 0 => (c, some before)
  | n + 1 =>
    match c.tick with
    | (c, none) => (c, none)
    | (c, some r) => c.tickedFrom (before + r) n

def ticked (c : Crossing) (n : Nat) : Crossing × Option Float := c.tickedFrom 0.0 n

def view (c : Crossing) : View where
  phase := c.signal.phase
  positions := c.vehicles.map (Vehicle.position c.setup.halfLength)
  crashes := c.crashes
  throughput := c.throughput

def sightings (c : Crossing) : List Sighting := c.vehicles.map (Vehicle.sighting c.setup.halfLength)

/-- The counters as diagnostics. -/
def info (c : Crossing) : Info :=
  Info.empty.insert "crashes" (Float.ofNat c.crashes) |>.insert "throughput" (Float.ofNat c.throughput)

def tow (c : Crossing) : Crossing := { c with vehicles := c.vehicles.filter fun v => !v.crashed }

/-- Shows a phase for one step of the signal alone. -/
def switchTo (c : Crossing) (p : Phase) : Crossing := { c with signal := c.signal.switchTo p }

/-- One step: the wrecks are towed, the signal shows the phase, and the vehicles take their ticks. -/
def step (p : Phase) (c : Crossing) : Crossing × Except Interruption (Transition View) :=
  match (c.tow.switchTo p).ticked c.setup.ticksPerStep with
  | (c, none) => (c, .error .aborted)
  | (c, some reward) => (c, .ok ⟨c.view, reward, c.signal.isDone, c.info⟩)

/-- Starts a new episode on an empty road. Identifiers and the stream of arrivals go on. -/
def reset (c : Crossing) : Crossing :=
  { c with signal := c.signal.reset, vehicles := [], ticks := 0, crashes := 0, throughput := 0 }

/-- The crossing as a plant; its world is the signal. -/
def plant : Plant Crossing Phase View where
  step := step
  stepWorld p c := ({ c with signal := (c.signal.step p).1 }, .ok (c.signal.step p).2.done)
  positions c := c.view.positions
  render c := c

end Crossing

end RightOfWay.Traffic

import RightOfWay.Control.Settings
import RightOfWay.Proofs.Separation
import RightOfWay.Proofs.Wrecks
import Mathlib.Data.List.Nodup

namespace RightOfWay.Traffic

/-- A setup that passes its check; half-lengths are 32-bit integers. -/
structure Setup.Valid (s : Setup) : Prop where
  checked : s.check = .ok ()
  word : s.halfLength < 2 ^ 31

theorem Setup.Valid.one_le {s : Setup} (h : s.Valid) : 1 ≤ s.halfLength := by
  have hc := h.checked
  rw [Setup.check] at hc
  split at hc
  · cases hc
  · split at hc
    · cases hc
    · omega

namespace Vehicle

@[simp] theorem advance_id (p : Phase) (v : Vehicle) : (v.advance p).id = v.id := by
  rw [advance]
  split <;> rfl

@[simp] theorem advance_crashed (p : Phase) (v : Vehicle) : (v.advance p).crashed = v.crashed := by
  rw [advance]
  split <;> rfl

theorem advance_wreck (p : Phase) (v : Vehicle) (h : v.crashed = true) : v.advance p = v := by
  rw [advance, if_neg (by simp [h])]

theorem onRoad_congr (halfLength : Int) (v w : Vehicle) (h : v.cell = w.cell) :
    v.onRoad halfLength = w.onRoad halfLength := by
  rw [onRoad, onRoad, h]

theorem onRoad_iff (halfLength : Int) (v : Vehicle) : v.onRoad halfLength = true ↔
    (v.cell.x.natAbs : Int) ≤ halfLength ∧ (v.cell.y.natAbs : Int) ≤ halfLength := by
  rw [onRoad, Bool.and_eq_true, decide_eq_true_eq, decide_eq_true_eq]

theorem entry_onRoad (halfLength : Int) (h : 1 ≤ halfLength) (i : Nat) (lane : Approach) :
    (⟨i, lane, lane.entry halfLength, false⟩ : Vehicle).onRoad halfLength = true := by
  rw [onRoad_iff]
  cases lane <;> dsimp only [Approach.entry] <;> omega

end Vehicle

namespace Crossing

/-- A crossing of a valid setup that has room for its vehicles, whose identifiers rise and have been given. -/
structure Orderly (c : Crossing) (s : Setup) : Prop where
  valid : s.Valid
  setup : c.setup = s
  capacity : c.vehicles.length ≤ c.setup.maxVehicles
  ordered : (c.vehicles.map Vehicle.id).Pairwise (· < ·)
  fresh : ∀ v ∈ c.vehicles, v.id < c.nextId

/-- In addition, the wrecks are the vehicles that share a cell, and all vehicles are on the road. -/
structure Sound (c : Crossing) (s : Setup) : Prop extends c.Orderly s where
  wrecked : ∀ v ∈ c.vehicles, v.crashed = true ↔ v.meetsIn c.vehicles = true
  onRoad : ∀ v ∈ c.vehicles, v.onRoad c.setup.halfLength = true

/-- The wrecks have company and are on the road: what is left of soundness while the vehicles move. -/
structure Moving (c : Crossing) (s : Setup) : Prop extends c.Orderly s where
  company : ∀ v ∈ c.vehicles, v.crashed = true → v.meetsIn c.vehicles = true
  towable : ∀ v ∈ c.vehicles, v.crashed = true → v.onRoad c.setup.halfLength = true

variable {c c' : Crossing} {s : Setup}

theorem Orderly.of_sublist (h : c.Orderly s)
    (hv : (c'.vehicles.map Vehicle.id).Sublist (c.vehicles.map Vehicle.id)) (hs : c'.setup = c.setup)
    (hn : c'.nextId = c.nextId) : c'.Orderly s where
  valid := h.valid
  setup := hs.trans h.setup
  capacity := by
    have hlen := hv.length_le
    have hcap := h.capacity
    rw [List.length_map, List.length_map] at hlen
    rw [hs]
    omega
  ordered := h.ordered.sublist hv
  fresh := by
    intro v hmem
    obtain ⟨w, hw, hid⟩ := List.mem_map.mp (hv.subset (List.mem_map_of_mem hmem))
    rw [hn, ← hid]
    exact h.fresh w hw

theorem Orderly.of_map {f : Vehicle → Vehicle} (h : c.Orderly s) (hf : ∀ v, (f v).id = v.id)
    (hv : c'.vehicles = c.vehicles.map f) (hs : c'.setup = c.setup) (hn : c'.nextId = c.nextId) :
    c'.Orderly s := by
  have hids : c'.vehicles.map Vehicle.id = c.vehicles.map Vehicle.id := by
    rw [hv, List.map_map]
    exact List.map_congr_left fun v _ => hf v
  refine h.of_sublist ?_ hs hn
  rw [hids]

theorem Orderly.ids_nodup (h : c.Orderly s) : (c.vehicles.map Vehicle.id).Nodup :=
  h.ordered.imp Nat.ne_of_lt

/-- Only the vehicles, the setup and the next identifier matter. -/
theorem Sound.congr (h : c.Sound s) (hv : c'.vehicles = c.vehicles) (hs : c'.setup = c.setup)
    (hn : c'.nextId = c.nextId) : c'.Sound s where
  toOrderly := h.toOrderly.of_sublist (by rw [hv]) hs hn
  wrecked := by
    rw [hv]
    exact h.wrecked
  onRoad := by
    rw [hv, hs]
    exact h.onRoad

theorem Sound.of_empty (hs : s.Valid) (hc : c.setup = s) (h : c.vehicles = []) : c.Sound s where
  valid := hs
  setup := hc
  capacity := by simp [h]
  ordered := by simp [h]
  fresh := by simp [h]
  wrecked := by simp [h]
  onRoad := by simp [h]

/-- Entering either changes nothing, or puts a vehicle with the next identifier on a free cell. -/
theorem enter_cases (c : Crossing) (lane : Approach) :
    c.enter lane = (none, c) ∨
    (c.vehicles.length < c.setup.maxVehicles ∧
      (∀ v ∈ c.vehicles, v.cell ≠ lane.entry c.setup.halfLength) ∧
      c.enter lane = (some c.nextId, { c with
        nextId := c.nextId + 1
        vehicles := c.vehicles ++ [⟨c.nextId, lane, lane.entry c.setup.halfLength, false⟩] })) := by
  rw [enter]
  by_cases hfull : (c.setup.maxVehicles ≤ c.vehicles.length ||
      c.vehicles.any (fun v => v.cell = lane.entry c.setup.halfLength)) = true
  · exact .inl (if_pos hfull)
  · refine .inr ⟨?_, ?_, if_neg hfull⟩
    · simp only [Bool.or_eq_true, decide_eq_true_eq, not_or, Nat.not_le] at hfull
      exact hfull.1
    · intro v hv hcell
      apply hfull
      simp only [Bool.or_eq_true, List.any_eq_true, decide_eq_true_eq]
      exact .inr ⟨v, hv, hcell⟩

theorem Sound.enter (h : c.Sound s) (lane : Approach) : (c.enter lane).2.Sound s := by
  rcases c.enter_cases lane with heq | ⟨hroom, hfree, heq⟩
  · rw [heq]
    exact h
  · rw [heq]
    refine ⟨⟨h.valid, h.setup, ?_, ?_, ?_⟩, ?_, ?_⟩
    · simpa [Nat.succ_le_iff] using hroom
    · simp only [List.map_append, List.map_singleton, List.pairwise_append]
      refine ⟨h.ordered, by simp, ?_⟩
      intro i hi j hj
      obtain ⟨v, hv, rfl⟩ := List.mem_map.mp hi
      obtain rfl := List.mem_singleton.mp hj
      exact h.fresh v hv
    · intro v hv
      rcases List.mem_append.mp hv with hv | hv
      · exact Nat.lt_succ_of_lt (h.fresh v hv)
      · obtain rfl := List.mem_singleton.mp hv
        exact Nat.lt_succ_self _
    · intro v hv
      rw [Vehicle.meetsIn, List.any_append]
      rcases List.mem_append.mp hv with hv | hv
      · have hcell : ¬ lane.entry c.setup.halfLength = v.cell := fun heq => hfree v hv heq.symm
        rw [h.wrecked v hv]
        simp [Vehicle.meetsIn, hcell]
      · obtain rfl := List.mem_singleton.mp hv
        simpa using fun w hw _ => hfree w hw
    · intro v hv
      rcases List.mem_append.mp hv with hv | hv
      · exact h.onRoad v hv
      · obtain rfl := List.mem_singleton.mp hv
        rw [h.setup]
        exact Vehicle.entry_onRoad _ h.valid.one_le _ _

theorem Sound.drive (h : c.Sound s) : c.drive.Moving s where
  toOrderly := h.toOrderly.of_map (Vehicle.advance_id c.signal.phase) rfl rfl rfl
  company := by
    intro v hv hcrashed
    obtain ⟨x, hx, rfl⟩ := List.mem_map.mp hv
    rw [Vehicle.advance_crashed] at hcrashed
    obtain ⟨w, hw, hne, hcell⟩ := (Vehicle.meetsIn_iff _ _).mp ((h.wrecked x hx).mp hcrashed)
    -- the partner of a wreck is a wreck, so neither of them moves
    have hwreck : w.crashed = true :=
      (h.wrecked w hw).mpr ((Vehicle.meetsIn_iff _ _).mpr ⟨x, hx, hne.symm, hcell.symm⟩)
    rw [Vehicle.advance_wreck _ x hcrashed, Vehicle.meetsIn_iff]
    exact ⟨w, List.mem_map.mpr ⟨w, hw, Vehicle.advance_wreck _ w hwreck⟩, hne, hcell⟩
  towable := by
    intro v hv hcrashed
    obtain ⟨x, hx, rfl⟩ := List.mem_map.mp hv
    rw [Vehicle.advance_crashed] at hcrashed
    rw [Vehicle.advance_wreck _ x hcrashed]
    exact h.onRoad x hx

theorem Moving.clear (h : c.Moving s) : c.clear.Moving s where
  toOrderly := h.toOrderly.of_sublist ((List.filter_sublist).map _) rfl rfl
  company := by
    intro v hv hcrashed
    obtain ⟨hmem, hroad⟩ := List.mem_filter.mp hv
    -- the two are on one cell, so both are still on the road
    obtain ⟨w, hw, hne, hcell⟩ := (Vehicle.meetsIn_iff _ _).mp (h.company v hmem hcrashed)
    rw [Vehicle.meetsIn_iff]
    exact ⟨w, List.mem_filter.mpr ⟨hw, (Vehicle.onRoad_congr _ w v hcell).trans hroad⟩, hne, hcell⟩
  towable := by
    intro v hv hcrashed
    exact h.towable v (List.mem_filter.mp hv).1 hcrashed

theorem Moving.settled (h : c.Moving s) : Settled [] c.vehicles :=
  ⟨h.ids_nodup, by simp⟩

theorem Moving.settle_vehicles (h : c.Moving s) :
    c.settle.vehicles = c.vehicles.map (Vehicle.struck c.vehicles) :=
  collide_eq [] c.vehicles h.settled

theorem Moving.settle (h : c.Moving s)
    (hroad : ∀ v ∈ c.vehicles, v.onRoad c.setup.halfLength = true) : c.settle.Sound s where
  toOrderly := h.toOrderly.of_map (Vehicle.struck_id c.vehicles) h.settle_vehicles rfl rfl
  wrecked := by
    -- collisions move nobody, so who meets whom can be read off before them
    have hshape : c.settle.vehicles.map (fun w => (w.id, w.cell)) = c.vehicles.map fun w => (w.id, w.cell) := by
      rw [h.settle_vehicles, List.map_map]
      apply List.map_congr_left
      intro v _
      rw [Function.comp_apply, Vehicle.struck_id, Vehicle.struck_cell]
    intro v hv
    rw [Vehicle.meetsIn_congr _ _ v hshape]
    rw [h.settle_vehicles] at hv
    obtain ⟨x, hx, rfl⟩ := List.mem_map.mp hv
    have hmeets : (x.struck c.vehicles).meetsIn c.vehicles = x.meetsIn c.vehicles := by
      rw [Vehicle.meetsIn, Vehicle.struck_id, Vehicle.struck_cell]
      rfl
    rw [hmeets, Vehicle.struck_crashed]
    exact ⟨fun hor => hor.elim (h.company x hx) (fun hm => hm), .inr⟩
  onRoad := by
    rw [h.settle_vehicles]
    intro v hv
    obtain ⟨x, hx, rfl⟩ := List.mem_map.mp hv
    rw [Vehicle.onRoad_congr _ _ x (Vehicle.struck_cell _ x)]
    exact hroad x hx

theorem Sound.proceed (h : c.Sound s) : c.drive.clear.settle.Sound s := by
  refine h.drive.clear.settle ?_
  intro v hv
  exact (List.mem_filter.mp hv).2

/-- A tick is abandoned where there are no arrivals, and goes through all its stages otherwise. -/
theorem tick_cases (c : Crossing) :
    ({ c with ticks := c.ticks + 1 }.arrivals = none ∧ c.tick = ({ c with ticks := c.ticks + 1 }, none)) ∨
    ∃ c₁, { c with ticks := c.ticks + 1 }.arrivals = some c₁ ∧
      c.tick = (c₁.drive.clear.settle, some c₁.drive.reward) := by
  rw [tick]
  cases harr : { c with ticks := c.ticks + 1 }.arrivals with
  | none => exact .inl ⟨rfl, rfl⟩
  | some c₁ => exact .inr ⟨c₁, rfl, rfl⟩

/-- The lane in which the tick that begins now lets a vehicle enter, if it does. -/
def attempt (c : Crossing) : Option Approach := (drawLane c.setup.spawnRate c.stream).bind Prod.fst

/-- The identifier that the arrivals of a tick give, if a vehicle arrives and can enter. -/
def arrivalId (c : Crossing) : Option Nat := c.attempt.bind fun lane => (c.enter lane).1

/-- Arrivals draw from the stream, and let a vehicle enter if the draw says so. -/
theorem arrivals_cases (c c₁ : Crossing) (h : c.arrivals = some c₁) :
    (∃ stream, drawLane c.setup.spawnRate c.stream = some (none, stream) ∧ c.attempt = none ∧
      c₁ = { c with stream := stream }) ∨
    (∃ lane stream, drawLane c.setup.spawnRate c.stream = some (some lane, stream) ∧ c.attempt = some lane ∧
      c₁ = ({ c with stream := stream }.enter lane).2) := by
  rw [attempt]
  rw [arrivals] at h
  cases hdraw : drawLane c.setup.spawnRate c.stream with
  | none =>
    rw [hdraw] at h
    cases h
  | some drawn =>
    obtain ⟨_ | lane, stream⟩ := drawn
    · rw [hdraw] at h
      exact .inl ⟨stream, rfl, rfl, (Option.some.inj h).symm⟩
    · rw [hdraw] at h
      exact .inr ⟨lane, stream, rfl, rfl, (Option.some.inj h).symm⟩

theorem attempt_of_arrivals (h : c.arrivals = none) : c.attempt = none := by
  rw [arrivals] at h
  rw [attempt]
  cases hdraw : drawLane c.setup.spawnRate c.stream with
  | none => rfl
  | some drawn =>
    rw [hdraw] at h
    cases h

theorem arrivals_vehicles (harr : c.arrivals = some c') :
    (c'.vehicles = c.vehicles ∧ c'.nextId = c.nextId) ∨
    ∃ lane : Approach, c'.nextId = c.nextId + 1 ∧
      c'.vehicles = c.vehicles ++ [⟨c.nextId, lane, lane.entry c.setup.halfLength, false⟩] := by
  rcases c.arrivals_cases c' harr with ⟨stream, -, -, rfl⟩ | ⟨lane, stream, -, -, rfl⟩
  · exact .inl ⟨rfl, rfl⟩
  · rcases enter_cases { c with stream := stream } lane with heq | ⟨-, -, heq⟩
    · rw [heq]
      exact .inl ⟨rfl, rfl⟩
    · rw [heq]
      exact .inr ⟨lane, rfl, rfl⟩

theorem arrivals_signal (harr : c.arrivals = some c') : c'.signal = c.signal := by
  rcases c.arrivals_cases c' harr with ⟨stream, -, -, rfl⟩ | ⟨lane, stream, -, -, rfl⟩
  · rfl
  · rcases enter_cases { c with stream := stream } lane with heq | ⟨-, -, heq⟩
    · rw [heq]
    · rw [heq]

theorem Sound.arrivals (h : c.Sound s) (harr : c.arrivals = some c') : c'.Sound s := by
  rcases c.arrivals_cases c' harr with ⟨stream, -, -, rfl⟩ | ⟨lane, stream, -, -, rfl⟩
  · exact h.congr rfl rfl rfl
  · have hdrawn : { c with stream := stream }.Sound s := h.congr rfl rfl rfl
    exact hdrawn.enter _

theorem Sound.tick (h : c.Sound s) : c.tick.1.Sound s := by
  have hcounted : { c with ticks := c.ticks + 1 }.Sound s := h.congr rfl rfl rfl
  rcases c.tick_cases with ⟨-, heq⟩ | ⟨c₁, harr, heq⟩
  · rw [heq]
    exact hcounted
  · rw [heq]
    exact (hcounted.arrivals harr).proceed

/-- The rewards that are added up do not matter to the crossing. -/
theorem tickedFrom_fst (n : Nat) (c : Crossing) (before before' : Float) :
    (c.tickedFrom before n).1 = (c.tickedFrom before' n).1 := by
  induction n generalizing c before before' with
  | zero => rfl
  | succ n ih =>
    rw [tickedFrom, tickedFrom]
    rcases c.tick with ⟨c₁, _ | r⟩
    · rfl
    · exact ih c₁ _ _

theorem ticked_succ (n : Nat) (c : Crossing) :
    (c.ticked (n + 1)).1 =
      match c.tick with
      | (c', none) => c'
      | (c', some _) => (c'.ticked n).1 := by
  rw [ticked, tickedFrom]
  rcases c.tick with ⟨c₁, _ | r⟩
  · rfl
  · exact tickedFrom_fst n c₁ _ _

theorem ticked_induct {P : Crossing → Prop} (htick : ∀ c, P c → P c.tick.1) (n : Nat) (c : Crossing)
    (h : P c) : P (c.ticked n).1 := by
  induction n generalizing c with
  | zero => exact h
  | succ n ih =>
    have hfirst := htick c h
    rw [ticked_succ]
    rcases hc : c.tick with ⟨c₁, _ | r⟩
    · rw [hc] at hfirst
      exact hfirst
    · rw [hc] at hfirst
      exact ih c₁ hfirst

theorem Sound.tow (h : c.Sound s) : c.tow.Sound s where
  toOrderly := h.toOrderly.of_sublist ((List.filter_sublist).map _) rfl rfl
  wrecked := by
    intro v hv
    obtain ⟨hmem, hwhole⟩ := List.mem_filter.mp hv
    refine iff_of_false (by simpa using hwhole) ?_
    intro hmeets
    obtain ⟨w, hw, hne, hcell⟩ := (Vehicle.meetsIn_iff _ _).mp hmeets
    have hcrashed := (h.wrecked v hmem).mpr
      ((Vehicle.meetsIn_iff _ _).mpr ⟨w, (List.mem_filter.mp hw).1, hne, hcell⟩)
    simp [hcrashed] at hwhole
  onRoad := by
    intro v hv
    exact h.onRoad v (List.mem_filter.mp hv).1

theorem Sound.switchTo (h : c.Sound s) (p : Phase) : (c.switchTo p).Sound s := h.congr rfl rfl rfl

theorem step_state (p : Phase) (c : Crossing) :
    (step p c).1 = ((c.tow.switchTo p).ticked c.setup.ticksPerStep).1 := by
  rw [step]
  rcases (c.tow.switchTo p).ticked c.setup.ticksPerStep with ⟨c₁, _ | r⟩
  · rfl
  · rfl

theorem tick_signal (c : Crossing) : c.tick.1.signal = c.signal := by
  rcases c.tick_cases with ⟨-, heq⟩ | ⟨c₁, harr, heq⟩
  · rw [heq]
  · have harrived := arrivals_signal harr
    rw [heq]
    exact harrived

/-- A step shows its phase for one step of the signal, also when it is abandoned. -/
theorem step_signal (p : Phase) (c : Crossing) : (step p c).1.signal = c.signal.switchTo p := by
  rw [step_state]
  refine ticked_induct (P := fun d => d.signal = c.signal.switchTo p) ?_ _ _ rfl
  intro d hd
  rw [tick_signal, hd]

theorem Sound.step (h : c.Sound s) (p : Phase) : (step p c).1.Sound s := by
  rw [step_state]
  exact ticked_induct (P := fun c => c.Sound s) (fun _ => Sound.tick) _ _ (h.tow.switchTo p)

theorem Sound.reset (h : c.Sound s) : c.reset.Sound s := Sound.of_empty h.valid h.setup rfl

/-- What can be done to a crossing from outside. -/
inductive Move where
  | enter (lane : Approach)
  | step (p : Phase)
  | switch (p : Phase)
  | reset

/-- The crossing after a move, whether or not the move succeeds. -/
def move (c : Crossing) : Move → Crossing
  | .enter lane => (c.enter lane).2
  | .step p => (Crossing.step p c).1
  | .switch p => c.switchTo p
  | .reset => c.reset

def run (c : Crossing) (ms : List Move) : Crossing := ms.foldl move c

theorem Sound.move (h : c.Sound s) (m : Move) : (c.move m).Sound s := by
  cases m with
  | enter lane => exact h.enter lane
  | step p => exact h.step p
  | switch p => exact h.switchTo p
  | reset => exact h.reset

theorem Sound.run (h : c.Sound s) (ms : List Move) : (c.run ms).Sound s := by
  induction ms generalizing c with
  | nil => exact h
  | cons m ms ih => exact ih (h.move m)

theorem sound_start (hs : s.Valid) : (start s).Sound s := Sound.of_empty hs rfl rfl

/-- The identifiers `is` are those from `m` up to below `n`. -/
def Issues (m : Nat) (is : List Nat) (n : Nat) : Prop := List.range m ++ is = List.range n

theorem Issues.none (m : Nat) : Issues m [] m := List.append_nil _

theorem Issues.append {l m n : Nat} {is js : List Nat} (h : Issues l is m) (h' : Issues m js n) :
    Issues l (is ++ js) n := by
  rw [Issues, ← List.append_assoc, h]
  exact h'

/-- The identifiers that are given in several ticks. -/
def tickedIds (c : Crossing) : Nat → List Nat
  | 0 => []
  | n + 1 =>
    { c with ticks := c.ticks + 1 }.arrivalId.toList ++
      match c.tick with
      | (_, none) => []
      | (c', some _) => c'.tickedIds n

/-- The identifiers that a move gives to vehicles. -/
def moveIds (c : Crossing) : Move → List Nat
  | .enter lane => (c.enter lane).1.toList
  | .step p => (c.tow.switchTo p).tickedIds c.setup.ticksPerStep
  | .switch _ => []
  | .reset => []

/-- The identifiers that several moves give to vehicles, in the order in which they are given. -/
def issued (c : Crossing) : List Move → List Nat
  | [] => []
  | m :: ms => c.moveIds m ++ (c.move m).issued ms

theorem enter_issues (c : Crossing) (lane : Approach) :
    Issues c.nextId (c.enter lane).1.toList (c.enter lane).2.nextId := by
  rcases c.enter_cases lane with heq | ⟨-, -, heq⟩
  · rw [heq]
    exact Issues.none _
  · rw [heq]
    exact List.range_succ.symm

theorem enter_fst_stream (c : Crossing) (stream : Chance.Stream) (lane : Approach) :
    ({ c with stream := stream }.enter lane).1 = (c.enter lane).1 := by
  rw [enter, enter]
  dsimp only
  split <;> rfl

theorem arrivalId_cases (harr : c.arrivals = some c') :
    (∃ stream, c.arrivalId = none ∧ c' = { c with stream := stream }) ∨
    ∃ lane stream, c.arrivalId = ({ c with stream := stream }.enter lane).1 ∧
      c' = ({ c with stream := stream }.enter lane).2 := by
  rw [arrivalId]
  rcases c.arrivals_cases c' harr with ⟨stream, -, hattempt, rfl⟩ | ⟨lane, stream, -, hattempt, rfl⟩
  · rw [hattempt]
    exact .inl ⟨stream, rfl, rfl⟩
  · rw [hattempt, Option.bind_some, ← enter_fst_stream c stream]
    exact .inr ⟨lane, stream, rfl, rfl⟩

theorem arrivals_issues (harr : c.arrivals = some c') : Issues c.nextId c.arrivalId.toList c'.nextId := by
  rcases arrivalId_cases harr with ⟨stream, hid, rfl⟩ | ⟨lane, stream, hid, rfl⟩
  · rw [hid]
    exact Issues.none _
  · rw [hid]
    exact enter_issues { c with stream := stream } lane

theorem tick_issues (c : Crossing) :
    Issues c.nextId { c with ticks := c.ticks + 1 }.arrivalId.toList c.tick.1.nextId := by
  rcases c.tick_cases with ⟨harr, heq⟩ | ⟨c₁, harr, heq⟩
  · rw [heq, arrivalId, attempt_of_arrivals harr]
    exact Issues.none _
  · rw [heq]
    exact arrivals_issues harr

theorem ticked_issues (n : Nat) (c : Crossing) : Issues c.nextId (c.tickedIds n) (c.ticked n).1.nextId := by
  induction n generalizing c with
  | zero => exact Issues.none _
  | succ n ih =>
    rw [tickedIds, ticked_succ]
    refine c.tick_issues.append ?_
    rcases c.tick with ⟨c₁, _ | r⟩
    · exact Issues.none _
    · exact ih c₁

theorem move_issues (c : Crossing) (m : Move) : Issues c.nextId (c.moveIds m) (c.move m).nextId := by
  cases m with
  | enter lane => exact c.enter_issues lane
  | step p =>
    rw [move, step_state]
    exact ticked_issues _ (c.tow.switchTo p)
  | switch p => exact Issues.none _
  | reset => exact Issues.none _

theorem run_issues (c : Crossing) (ms : List Move) : Issues c.nextId (c.issued ms) (c.run ms).nextId := by
  induction ms generalizing c with
  | nil => exact Issues.none _
  | cons m ms ih => exact (c.move_issues m).append (ih (c.move m))

/-- Cells are occupied once iff no vehicle meets another. -/
theorem Orderly.cells_nodup_iff (h : c.Orderly s) :
    (c.vehicles.map Vehicle.cell).Nodup ↔ ∀ v ∈ c.vehicles, ¬ v.meetsIn c.vehicles = true := by
  have hnodup : c.vehicles.Nodup := h.ids_nodup.of_map
  have hid := (List.nodup_map_iff_inj_on hnodup).mp h.ids_nodup
  rw [List.nodup_map_iff_inj_on hnodup]
  constructor
  · intro hinj v hv hmeets
    obtain ⟨w, hw, hne, hcell⟩ := (Vehicle.meetsIn_iff _ _).mp hmeets
    exact hne (congrArg Vehicle.id (hinj w hw v hv hcell))
  · intro hapart v hv w hw hcell
    by_contra hne
    apply hapart w hw
    rw [Vehicle.meetsIn_iff]
    exact ⟨v, hv, fun heq => hne (hid v hv w hw heq), hcell⟩

/-- What an observer sees who counts vehicles closer than `separation` as collided. -/
def condition (separation : Float) (c : Crossing) : Condition := .ofPositions separation c.view.positions

theorem Sound.anyCloser_iff (h : c.Sound s) (separation : Float) (hpos : 0.0 < separation)
    (hone : separation ≤ 1.0) :
    anyCloser separation c.view.positions = true ↔ ∃ v ∈ c.vehicles, v.crashed = true := by
  have hword : c.setup.halfLength < 2 ^ 31 := h.setup ▸ h.valid.word
  have hlen : 1 ≤ c.setup.halfLength := h.setup ▸ h.valid.one_le
  have hcloser := Traffic.anyCloser_iff separation hpos hone (Vehicle.position c.setup.halfLength)
    Vehicle.cell c.vehicles (fun v hv => v.position_isOn _ hlen hword (h.onRoad v hv))
    (fun v hv => v.near_of_onRoad _ hword (h.onRoad v hv))
  rw [view, hcloser, h.cells_nodup_iff]
  push Not
  exact exists_congr fun v => and_congr_right fun hv => (h.wrecked v hv).symm

/-- An observer sees no traffic on an empty road, a crash where there is a wreck, and flow elsewhere. -/
theorem Sound.condition_eq (h : c.Sound s) (separation : Float) (hpos : 0.0 < separation)
    (hone : separation ≤ 1.0) :
    c.condition separation =
      if c.vehicles = [] then .empty else if ∃ v ∈ c.vehicles, v.crashed = true then .crash else .flow := by
  have hempty : c.view.positions.isEmpty = true ↔ c.vehicles = [] := by simp [view]
  rw [condition, Condition.ofPositions]
  simp only [h.anyCloser_iff separation hpos hone, hempty]

theorem Sound.condition_iff (h : c.Sound s) (separation : Float) (hpos : 0.0 < separation)
    (hone : separation ≤ 1.0) :
    (c.condition separation = .empty ↔ c.vehicles = []) ∧
    (c.condition separation = .crash ↔ ∃ v ∈ c.vehicles, v.crashed = true) ∧
    (c.condition separation = .flow ↔ c.vehicles ≠ [] ∧ ∀ v ∈ c.vehicles, v.crashed = false) := by
  rw [h.condition_eq separation hpos hone]
  by_cases hempty : c.vehicles = []
  · simp [hempty]
  · by_cases hwreck : ∃ v ∈ c.vehicles, v.crashed = true
    · simp [hempty, hwreck]
    · have hwhole : ∀ v ∈ c.vehicles, v.crashed = false := by simpa using hwreck
      simpa [hempty, hwreck] using hwhole

/-- After any moves the identifiers rise and are never given again, a vehicle is a wreck iff it shares its cell, and an
observer sees a crash iff there is a wreck. -/
theorem run_start_in_order (s : Setup) (hs : s.Valid) (ms : List Move) (c : Crossing)
    (hc : c = (start s).run ms) :
    c.vehicles.length ≤ s.maxVehicles ∧
    (c.vehicles.map Vehicle.id).Pairwise (· < ·) ∧
    (∀ v ∈ c.vehicles, v.id < c.nextId) ∧
    ((start s).issued ms).Nodup ∧ (start s).issued ms = List.range c.nextId ∧
    (∀ v ∈ c.vehicles, v.crashed = true ↔ ∃ w ∈ c.vehicles, w.id ≠ v.id ∧ w.cell = v.cell) ∧
    (∀ v ∈ c.vehicles, v.cell.Near ∧ (v.position s.halfLength).IsOn v.cell) ∧
    (∀ separation : Float, 0.0 < separation → separation ≤ 1.0 →
      (c.condition separation = .empty ↔ c.vehicles = []) ∧
      (c.condition separation = .crash ↔ ∃ v ∈ c.vehicles, v.crashed = true) ∧
      (c.condition separation = .flow ↔ c.vehicles ≠ [] ∧ ∀ v ∈ c.vehicles, v.crashed = false)) := by
  have h : c.Sound s := hc ▸ (sound_start hs).run ms
  have hids : (start s).issued ms = List.range c.nextId := hc ▸ (start s).run_issues ms
  have hsetup := h.setup
  subst hsetup
  refine ⟨h.capacity, h.ordered, h.fresh, ?_, hids, ?_, ?_, ?_⟩
  · rw [hids]
    exact List.nodup_range
  · intro v hv
    rw [h.wrecked v hv, Vehicle.meetsIn_iff]
  · intro v hv
    exact ⟨v.near_of_onRoad _ hs.word (h.onRoad v hv),
      v.position_isOn _ hs.one_le hs.word (h.onRoad v hv)⟩
  · exact h.condition_iff

def shortRoad : Setup := { spawnRate := 0.0, ticksPerStep := 1, halfLength := 2 }

theorem shortRoad_valid : shortRoad.Valid := ⟨rfl, by decide⟩

/-- A vehicle from the east is let through until one from the north hits it. -/
def pileUp : List Move :=
  [.enter .north, .enter .east, .step (.green [.east]), .step (.green [.east]), .step (.green [.north, .east])]

theorem run_start_in_order_pileUp :
    shortRoad.Valid ∧
    ((start shortRoad).run pileUp).vehicles =
      [⟨0, .north, ⟨-1, 1⟩, true⟩, ⟨1, .east, ⟨-1, 1⟩, true⟩] ∧
    (start shortRoad).issued pileUp = [0, 1] ∧
    ((start shortRoad).run pileUp).condition crashSeparation = .crash := by
  have hrun : ((start shortRoad).run pileUp).vehicles =
      [⟨0, .north, ⟨-1, 1⟩, true⟩, ⟨1, .east, ⟨-1, 1⟩, true⟩] := by decide +kernel
  have hnext : ((start shortRoad).run pileUp).nextId = 2 := by decide +kernel
  obtain ⟨-, -, -, -, hids, -, -, hseen⟩ := run_start_in_order shortRoad shortRoad_valid pileUp _ rfl
  refine ⟨shortRoad_valid, hrun, ?_, ?_⟩
  · rw [hids, hnext]
    rfl
  · rw [(hseen crashSeparation (by decide +kernel) (by decide +kernel)).2.1, hrun]
    exact ⟨_, List.mem_cons_self, rfl⟩

end Crossing

end RightOfWay.Traffic

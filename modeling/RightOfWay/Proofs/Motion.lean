import RightOfWay.Proofs.PileUps

namespace RightOfWay.Traffic

/-- What happens at a crossing, as far as the vehicles are concerned. -/
inductive Happening where
  | entered (id : Nat) (lane : Approach)
  | ticked (p : Phase)
  deriving DecidableEq

namespace Happening

def entrant? : Happening → Option Nat
  | .entered id _ => some id
  | .ticked _ => none

/-- Whether a lane may advance. -/
def isGreen (lane : Approach) : Happening → Bool
  | .entered _ _ => false
  | .ticked p => p.isGreen lane

/-- The ticks with green for a lane, since the vehicle with the given identifier entered. -/
def greenSince (id : Nat) (lane : Approach) : List Happening → Nat
  | [] => 0
  | .entered i _ :: log => if i = id then log.countP (isGreen lane) else greenSince id lane log
  | .ticked _ :: log => greenSince id lane log

theorem greenSince_entered (id i : Nat) (lane lane' : Approach) (log : List Happening) :
    greenSince id lane (log ++ [.entered i lane']) = greenSince id lane log := by
  induction log with
  | nil => simp [greenSince]
  | cons x log ih =>
    cases x with
    | entered j _ => simp [greenSince, ih, isGreen]
    | ticked p => simp [greenSince, ih]

/-- A tick counts for whoever has entered. -/
theorem greenSince_ticked {id : Nat} {lane : Approach} {log : List Happening} (h : .entered id lane ∈ log) (p : Phase) :
    greenSince id lane (log ++ [.ticked p]) = greenSince id lane log + if p.isGreen lane then 1 else 0 := by
  induction log with
  | nil => simp at h
  | cons x log ih =>
    cases x with
    | entered i lane' =>
      by_cases hi : i = id
      · rw [List.cons_append, greenSince, greenSince, if_pos hi, if_pos hi, List.countP_append, List.countP_singleton]
        rfl
      · have hrest : .entered id lane ∈ log := by
          simpa [Ne.symm hi] using h
        simp [greenSince, hi, ih hrest]
    | ticked q =>
      have hrest : .entered id lane ∈ log := by simpa using h
      simp [greenSince, ih hrest]

theorem greenSince_fresh {id : Nat} (lane : Approach) {log : List Happening} (h : id ∉ log.filterMap entrant?) :
    greenSince id lane log = 0 := by
  induction log with
  | nil => rfl
  | cons x log ih =>
    cases x with
    | entered i lane' =>
      have hne : i ≠ id ∧ id ∉ log.filterMap entrant? := by
        simpa [entrant?, eq_comm] using h
      simp [greenSince, hne.1, ih hne.2]
    | ticked p => simpa [greenSince] using ih (by simpa [entrant?] using h)

end Happening

namespace Crossing

open Happening (entrant? greenSince)

/-- The vehicles that have been put behind those of before. -/
def newcomers (before after : Crossing) : List Happening :=
  (after.vehicles.drop before.vehicles.length).map fun v => .entered v.id v.lane

/-- What happens in a tick: vehicles enter before all of them drive. -/
def tickHistory (c : Crossing) : List Happening :=
  match { c with ticks := c.ticks + 1 }.arrivals with
  | none => []
  | some c₁ => c.newcomers c₁ ++ [.ticked c.signal.phase]

def tickedHistory (c : Crossing) : Nat → List Happening
  | 0 => []
  | n + 1 => c.tickHistory ++ c.tick.1.tickedHistory n

def moveHistory (c : Crossing) : Move → List Happening
  | .enter lane => c.newcomers (c.enter lane).2
  | .step p => (c.tow.switchTo p).tickedHistory c.setup.ticksPerStep
  | .switch _ => []
  | .reset => []

def history (c : Crossing) : List Move → List Happening
  | [] => []
  | m :: ms => c.moveHistory m ++ (c.move m).history ms

/-- A crossing of a setup at some moment, also within a step, with its history. -/
inductive Moment (s : Setup) : Crossing → List Happening → Prop where
  | between (ms : List Move) : Moment s ((start s).run ms) ((start s).history ms)
  | within (ms : List Move) (p : Phase) (k : Nat) : k ≤ s.ticksPerStep →
      Moment s ((((start s).run ms).tow.switchTo p).ticked k).1
        ((start s).history ms ++ (((start s).run ms).tow.switchTo p).tickedHistory k)

/-- Everybody who was given an identifier has entered once, and whole vehicles have advanced with green. -/
structure Logged (c : Crossing) (log : List Happening) : Prop where
  entrants : log.filterMap entrant? = List.range c.nextId
  entered : ∀ v ∈ c.vehicles, .entered v.id v.lane ∈ log
  advanced : ∀ v ∈ c.vehicles, v.crashed = false → v.progress c.setup.halfLength = greenSince v.id v.lane log

variable {c c' : Crossing} {s : Setup} {log : List Happening}

/-- Vehicles may go, and become wrecks where they are. -/
theorem Logged.of_mem (h : c.Logged log) (hs : c'.setup = c.setup) (hn : c'.nextId = c.nextId)
    (hv : ∀ v ∈ c'.vehicles, ∃ x ∈ c.vehicles, v.id = x.id ∧ v.lane = x.lane ∧ v.cell = x.cell ∧
      (v.crashed = false → x.crashed = false)) : c'.Logged log where
  entrants := by
    rw [hn]
    exact h.entrants
  entered := by
    intro v hmem
    obtain ⟨x, hx, hid, hlane, -⟩ := hv v hmem
    rw [hid, hlane]
    exact h.entered x hx
  advanced := by
    intro v hmem hwhole
    obtain ⟨x, hx, hid, hlane, hcell, hwas⟩ := hv v hmem
    rw [Vehicle.progress, hid, hlane, hcell, hs]
    exact h.advanced x hx (hwas hwhole)

theorem Logged.congr (h : c.Logged log) (hv : c'.vehicles = c.vehicles) (hs : c'.setup = c.setup)
    (hn : c'.nextId = c.nextId) : c'.Logged log := by
  apply h.of_mem hs hn
  rw [hv]
  intro v hmem
  exact ⟨v, hmem, rfl, rfl, rfl, id⟩

/-- A vehicle that enters has not advanced yet. -/
theorem Logged.append (h : c.Logged log) {lane : Approach} (hs : c'.setup = c.setup) (hn : c'.nextId = c.nextId + 1)
    (hv : c'.vehicles = c.vehicles ++ [⟨c.nextId, lane, lane.entry c.setup.halfLength, false⟩]) :
    c'.Logged (log ++ [.entered c.nextId lane]) where
  entrants := by
    rw [List.filterMap_append, h.entrants, hn, List.range_succ]
    rfl
  entered := by
    intro v hmem
    rw [hv] at hmem
    rcases List.mem_append.mp hmem with hmem | hmem
    · exact List.mem_append_left _ (h.entered v hmem)
    · obtain rfl := List.mem_singleton.mp hmem
      simp
  advanced := by
    intro v hmem hwhole
    rw [hv] at hmem
    rw [hs, Happening.greenSince_entered]
    rcases List.mem_append.mp hmem with hmem | hmem
    · exact h.advanced v hmem hwhole
    · obtain rfl := List.mem_singleton.mp hmem
      have hfresh : c.nextId ∉ log.filterMap entrant? := by
        rw [h.entrants]
        simp
      rw [Happening.greenSince_fresh lane hfresh]
      exact lane.progress_entry c.setup.halfLength

theorem newcomers_of_eq (h : c'.vehicles = c.vehicles) : c.newcomers c' = [] := by
  rw [newcomers, h, List.drop_length]
  rfl

theorem newcomers_of_append {v : Vehicle} (h : c'.vehicles = c.vehicles ++ [v]) :
    c.newcomers c' = [.entered v.id v.lane] := by
  rw [newcomers, h, List.drop_left]
  rfl

theorem Logged.enter (h : c.Logged log) (lane : Approach) :
    (c.enter lane).2.Logged (log ++ c.newcomers (c.enter lane).2) := by
  rcases c.enter_cases lane with heq | ⟨-, -, heq⟩
  · rw [heq, newcomers_of_eq rfl, List.append_nil]
    exact h
  · rw [heq, newcomers_of_append rfl]
    exact h.append rfl rfl rfl

theorem Logged.arrivals (h : c.Logged log) (hs : c'.setup = c.setup) (harr : c.arrivals = some c') :
    c'.Logged (log ++ c.newcomers c') := by
  rcases arrivals_vehicles harr with ⟨hv, hn⟩ | ⟨lane, hn, hv⟩
  · rw [newcomers_of_eq hv, List.append_nil]
    exact h.congr hv hs hn
  · rw [newcomers_of_append hv]
    exact h.append hs hn hv

/-- The vehicles drive on green, and the tick is counted for their lane. -/
theorem Logged.proceed (h : c.Logged log) (hsound : c.Sound s) :
    c.drive.clear.settle.Logged (log ++ [.ticked c.signal.phase]) where
  entrants := by
    rw [List.filterMap_append, h.entrants]
    exact List.append_nil _
  entered := by
    intro v hv
    obtain ⟨x, hx, hid, hlane, -⟩ := hsound.mem_proceed hv
    rw [hid, hlane]
    exact List.mem_append_left _ (h.entered x hx)
  advanced := by
    intro v hv hwhole
    obtain ⟨x, hx, hid, hlane, hcell, hwas⟩ := hsound.mem_proceed hv
    have hdriven := x.progress_advance c.setup.halfLength c.signal.phase
    rw [Vehicle.progress, Vehicle.advance_lane, hwas hwhole, h.advanced x hx (hwas hwhole)] at hdriven
    rw [Vehicle.progress, hid, hlane, hcell, Happening.greenSince_ticked (h.entered x hx)]
    refine hdriven.trans ?_
    cases c.signal.phase.isGreen x.lane <;> rfl

theorem Logged.tick (h : c.Logged log) (hsound : c.Sound s) : c.tick.1.Logged (log ++ c.tickHistory) := by
  have hcounted : { c with ticks := c.ticks + 1 }.Logged log := h.congr rfl rfl rfl
  have hsound' : { c with ticks := c.ticks + 1 }.Sound s := hsound.congr rfl rfl rfl
  obtain ⟨c₁, harr, heq⟩ := hsound.tick_eq
  have hsound₁ := hsound'.arrivals harr
  have harrived := hcounted.arrivals (hsound₁.setup.trans hsound'.setup.symm) harr
  have hhistory : c.tickHistory = c.newcomers c₁ ++ [.ticked c₁.signal.phase] := by
    rw [tickHistory, harr, arrivals_signal harr]
  rw [heq, hhistory, ← List.append_assoc]
  exact harrived.proceed hsound₁

theorem Logged.ticked (h : c.Logged log) (hsound : c.Sound s) (n : Nat) :
    (c.ticked n).1.Logged (log ++ c.tickedHistory n) := by
  induction n generalizing c log with
  | zero =>
    rw [tickedHistory, List.append_nil]
    exact h
  | succ n ih =>
    rw [hsound.ticked_succ_fst, tickedHistory, ← List.append_assoc]
    exact ih (h.tick hsound) hsound.tick

theorem Logged.tow (h : c.Logged log) : c.tow.Logged log := by
  have hkept (v : Vehicle) (hv : v ∈ c.tow.vehicles) : v ∈ c.vehicles := (List.mem_filter.mp hv).1
  exact h.of_mem rfl rfl fun v hv => ⟨v, hkept v hv, rfl, rfl, rfl, id⟩

theorem Logged.switchTo (h : c.Logged log) (p : Phase) : (c.switchTo p).Logged log := h.congr rfl rfl rfl

theorem Logged.move (h : c.Logged log) (hsound : c.Sound s) (m : Move) : (c.move m).Logged (log ++ c.moveHistory m) := by
  cases m with
  | enter lane => exact h.enter lane
  | step p =>
    rw [Crossing.move, step_state]
    exact (h.tow.switchTo p).ticked (hsound.tow.switchTo p) _
  | switch p =>
    rw [moveHistory, List.append_nil]
    exact h.switchTo p
  | reset =>
    have hcleared : c.reset.Logged log := h.of_mem rfl rfl (by simp [Crossing.reset])
    rw [moveHistory, List.append_nil]
    exact hcleared

theorem Logged.run (h : c.Logged log) (hsound : c.Sound s) (ms : List Move) :
    (c.run ms).Logged (log ++ c.history ms) := by
  induction ms generalizing c log with
  | nil =>
    rw [history, List.append_nil]
    exact h
  | cons m ms ih =>
    rw [history, ← List.append_assoc]
    exact ih (h.move hsound m) (hsound.move m)

theorem logged_start (s : Setup) : (start s).Logged [] where
  entrants := rfl
  entered := by simp [start]
  advanced := by simp [start]

theorem Moment.filed (hs : s.Valid) (hm : Moment s c log) : c.Filed s := by
  cases hm with
  | between ms => exact (filed_start hs).run ms
  | within ms p k _ => exact ((((filed_start hs).run ms).tow).switchTo p).ticked k

theorem Moment.logged (hs : s.Valid) (hm : Moment s c log) : c.Logged log := by
  have hrun (ms : List Move) : ((start s).run ms).Logged ((start s).history ms) :=
    (logged_start s).run (sound_start hs) ms
  cases hm with
  | between ms => exact hrun ms
  | within ms p k _ =>
    exact ((hrun ms).tow.switchTo p).ticked ((((sound_start hs).run ms).tow).switchTo p) k

/-- Whoever is off the road when it has driven is gone after the tick, and nobody else is. -/
theorem Sound.gone_iff (h : c.Sound s) {v : Vehicle} (hv : v ∈ c.vehicles) :
    v.id ∉ c.drive.clear.settle.vehicles.map Vehicle.id ↔
      (v.advance c.signal.phase).onRoad c.setup.halfLength = false := by
  have hids : c.drive.clear.settle.vehicles.map Vehicle.id =
      (c.drive.vehicles.filter (Vehicle.onRoad c.setup.halfLength)).map Vehicle.id := by
    rw [h.drive.clear.settle_vehicles, List.map_map]
    exact List.map_congr_left fun x _ => Vehicle.struck_id _ x
  rw [hids, ← Bool.not_eq_true, not_iff_not, List.mem_map]
  constructor
  · rintro ⟨y, hy, hid⟩
    obtain ⟨hdriven, hroad⟩ := List.mem_filter.mp hy
    obtain ⟨x, hx, rfl⟩ := List.mem_map.mp hdriven
    rw [Vehicle.advance_id] at hid
    obtain rfl : x = v := List.inj_on_of_nodup_map h.ids_nodup hx hv hid
    exact hroad
  · intro hroad
    exact ⟨_, List.mem_filter.mpr ⟨List.mem_map_of_mem hv, hroad⟩, Vehicle.advance_id _ v⟩

theorem Filed.progress_bounds (h : c.Filed s) {v : Vehicle} (hv : v ∈ c.vehicles) :
    0 ≤ v.progress s.halfLength ∧ v.progress s.halfLength ≤ 2 * s.halfLength := by
  have hroad := h.onRoad v hv
  rw [h.setup] at hroad
  exact ((h.inFile.inLane v hv).onRoad_iff h.valid.one_le).mp hroad

/-- A vehicle leaves the road with the tick in which it would have advanced once more than the road is long. -/
theorem Filed.leaves_iff (h : c.Filed s) (hlog : c.Logged log) {v : Vehicle} (hv : v ∈ c.vehicles) :
    v.id ∉ c.drive.clear.settle.vehicles.map Vehicle.id ↔ v.crashed = false ∧
      (greenSince v.id v.lane (log ++ [.ticked c.signal.phase]) : Int) = 2 * s.halfLength + 1 := by
  obtain ⟨hlow, hhigh⟩ := h.progress_bounds hv
  have hlane := (h.inFile.inLane v hv).advance c.signal.phase
  have hdriven := v.progress_advance s.halfLength c.signal.phase
  have hroad := hlane.onRoad_iff h.valid.one_le
  rw [h.gone_iff hv, ← Bool.not_eq_true, h.setup, hroad, hdriven, Happening.greenSince_ticked (hlog.entered v hv)]
  cases hcrashed : v.crashed with
  | true => simp [hlow, hhigh]
  | false =>
    have hsince := hlog.advanced v hv hcrashed
    rw [h.setup] at hsince
    push_cast
    rw [← hsince]
    cases c.signal.phase.isGreen v.lane <;> simp <;> omega

/-- When a vehicle leaves the road, no vehicle of its lane that entered earlier is left there. -/
theorem Filed.leader_of_leaves (h : c.Filed s) (hlog : c.Logged log) {v w : Vehicle} (hv : v ∈ c.vehicles)
    (hw : w ∈ c.vehicles) (hlane : w.lane = v.lane)
    (hgone : v.id ∉ c.drive.clear.settle.vehicles.map Vehicle.id) : v.id ≤ w.id := by
  by_contra hnot
  obtain ⟨hwhole, hsince⟩ := (h.leaves_iff hlog hv).mp hgone
  have hadvanced := hlog.advanced v hv hwhole
  have hbounds := h.progress_bounds hw
  have hahead := h.inFile.ahead_of_id_lt h.ordered hw hv (Nat.lt_of_not_le hnot) hlane
  rw [hwhole, h.setup] at hahead
  rw [h.setup] at hadvanced
  rw [Happening.greenSince_ticked (hlog.entered v hv)] at hsince
  push_cast at hsince
  rw [← hadvanced] at hsince
  -- it has come to the end of the road, so whoever is ahead of it would be beyond
  have hend : 2 * s.halfLength ≤ v.progress s.halfLength := by
    split at hsince <;> omega
  rcases hahead with hbehind | ⟨-, -, hwreck⟩
  · omega
  · cases hwreck

/-- A whole vehicle is as far on its lane as there were ticks with green since it entered, behind the earlier ones of its
lane, and leaves the road with the first such tick beyond the end. -/
theorem vehicles_advance_with_green (s : Setup) (hs : s.Valid) (c : Crossing) (log : List Happening)
    (hm : Moment s c log) (L : Int) (hL : L = s.halfLength) :
    (∀ v ∈ c.vehicles,
      0 ≤ v.progress L ∧ v.progress L ≤ 2 * L ∧
      v.cell = ⟨(v.lane.entry L).x + v.progress L * v.lane.heading.x,
        (v.lane.entry L).y + v.progress L * v.lane.heading.y⟩ ∧
      (v.position L).IsOn v.cell ∧
      .entered v.id v.lane ∈ log ∧ (v.crashed = false → v.progress L = greenSince v.id v.lane log)) ∧
    (log.filterMap entrant?).Nodup ∧
    c.vehicles.Pairwise (fun v w => v.lane = w.lane → w.progress L < v.progress L ∨
      (w.progress L = v.progress L ∧ v.crashed = true ∧ w.crashed = true)) ∧
    ∃ c₁, { c with ticks := c.ticks + 1 }.arrivals = some c₁ ∧ ∀ v ∈ c₁.vehicles,
      (v.id ∉ c.tick.1.vehicles.map Vehicle.id ↔
        v.crashed = false ∧ (greenSince v.id v.lane (log ++ c.tickHistory) : Int) = 2 * L + 1) ∧
      (v.id ∉ c.tick.1.vehicles.map Vehicle.id → ∀ w ∈ c₁.vehicles, w.lane = v.lane → v.id ≤ w.id) := by
  have h : c.Filed s := hm.filed hs
  have hlog : c.Logged log := hm.logged hs
  subst hL
  refine ⟨?_, ?_, ?_, ?_⟩
  · intro v hv
    have hroad := h.onRoad v hv
    have hbounds := h.progress_bounds hv
    rw [h.setup] at hroad
    refine ⟨hbounds.1, hbounds.2, ?_, v.position_isOn _ hs.one_le hs.word hroad, hlog.entered v hv, ?_⟩
    · exact Approach.cell_of_progress s.halfLength (h.inFile.inLane v hv)
    · intro hwhole
      rw [← h.setup]
      exact hlog.advanced v hv hwhole
  · rw [hlog.entrants]
    exact List.nodup_range
  · rw [← h.setup]
    exact h.inFile.file
  · have hfiled : { c with ticks := c.ticks + 1 }.Filed s := h.congr rfl rfl rfl
    have hlogged : { c with ticks := c.ticks + 1 }.Logged log := hlog.congr rfl rfl rfl
    obtain ⟨c₁, harr, heq⟩ := h.tick_eq
    have h₁ := hfiled.arrivals harr
    have hlog₁ := hlogged.arrivals (h₁.setup.trans hfiled.setup.symm) harr
    have hhistory : log ++ c.tickHistory = log ++ c.newcomers c₁ ++ [.ticked c₁.signal.phase] := by
      rw [tickHistory, harr, arrivals_signal harr, List.append_assoc]
    refine ⟨c₁, harr, ?_⟩
    intro v hv
    rw [heq, hhistory]
    exact ⟨h₁.leaves_iff hlog₁ hv, fun hgone w hw hlane => h₁.leader_of_leaves hlog₁ hv hw hlane hgone⟩

theorem mem_of_mem_before_tick {v : Vehicle} (harr : { c with ticks := c.ticks + 1 }.arrivals = some c')
    (hv : v ∈ c.vehicles) : v ∈ c'.vehicles := by
  rcases arrivals_vehicles harr with ⟨heq, -⟩ | ⟨lane, -, heq⟩
  · rw [heq]
    exact hv
  · rw [heq]
    exact List.mem_append_left _ hv

/-- A vehicle from the north has come to the end of its lane, and may go on. -/
def lastCell : Crossing := ((start rushHour).run [.step (.green [.north, .south])]).tow.switchTo (.green [.north])

theorem vehicles_advance_with_green_lastCell :
    Moment rushHour lastCell ((start rushHour).history [.step (.green [.north, .south])]) ∧
    (⟨1, .north, ⟨-1, -2⟩, false⟩ : Vehicle) ∈ lastCell.vehicles ∧
    greenSince 1 .north ((start rushHour).history [.step (.green [.north, .south])]) = 4 ∧
    1 ∉ lastCell.tick.1.vehicles.map Vehicle.id := by
  have hmoment := Moment.within (s := rushHour) [.step (.green [.north, .south])] (.green [.north]) 0 (by decide)
  rw [tickedHistory, List.append_nil] at hmoment
  have hmem : (⟨1, .north, ⟨-1, -2⟩, false⟩ : Vehicle) ∈ lastCell.vehicles := by decide +kernel
  have hsince : greenSince 1 .north ((start rushHour).history [.step (.green [.north, .south])] ++
      lastCell.tickHistory) = 5 := by decide +kernel
  obtain ⟨hstate, -, -, c₁, harr, htick⟩ := vehicles_advance_with_green rushHour rushHour_valid lastCell _ hmoment 2 rfl
  obtain ⟨-, -, -, -, -, hadvanced⟩ := hstate _ hmem
  have hmem₁ := mem_of_mem_before_tick harr hmem
  refine ⟨hmoment, hmem, ?_, ?_⟩
  · have hfour : (⟨1, .north, ⟨-1, -2⟩, false⟩ : Vehicle).progress 2 = 4 := rfl
    have hgreen := hadvanced rfl
    rw [hfour] at hgreen
    exact_mod_cast hgreen.symm
  · rw [(htick _ hmem₁).1, hsince]
    exact ⟨rfl, rfl⟩

end Crossing

end RightOfWay.Traffic

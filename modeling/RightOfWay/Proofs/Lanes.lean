import RightOfWay.Proofs.Completion

namespace RightOfWay.Traffic

/-- Whether a lane runs through a cell; the lane of an approach is a line along its heading. -/
def Approach.RunsThrough : Approach → Cell → Prop
  | .north, x => x.x = -1
  | .east, x => x.y = 1
  | .south, x => x.x = 1
  | .west, x => x.y = -1

/-- How many cells a cell is behind the entry of a lane. -/
def Approach.progress (halfLength : Int) : Approach → Cell → Int
  | .north, x => halfLength - x.y
  | .east, x => halfLength - x.x
  | .south, x => halfLength + x.y
  | .west, x => halfLength + x.x

namespace Approach

variable {a b : Approach} {x y : Cell}

theorem entry_runsThrough (a : Approach) (halfLength : Int) : a.RunsThrough (a.entry halfLength) := by
  cases a <;> rfl

theorem runsThrough_add_heading (h : a.RunsThrough x) : a.RunsThrough (x.add a.heading) := by
  cases a <;> dsimp only [RunsThrough, Cell.add, heading] at h ⊢ <;> omega

theorem progress_entry (a : Approach) (halfLength : Int) : a.progress halfLength (a.entry halfLength) = 0 := by
  cases a <;> dsimp only [progress, entry] <;> omega

theorem progress_add_heading (a : Approach) (halfLength : Int) (x : Cell) :
    a.progress halfLength (x.add a.heading) = a.progress halfLength x + 1 := by
  cases a <;> dsimp only [progress, Cell.add, heading] <;> omega

/-- The cells of a lane, counted from its entry. -/
theorem cell_of_progress (halfLength : Int) (hx : a.RunsThrough x) :
    x = ⟨(a.entry halfLength).x + a.progress halfLength x * a.heading.x,
      (a.entry halfLength).y + a.progress halfLength x * a.heading.y⟩ := by
  obtain ⟨x₁, x₂⟩ := x
  rw [Cell.mk.injEq]
  cases a <;> dsimp only [RunsThrough, entry, progress, heading] at hx ⊢ <;> omega

theorem eq_of_progress_eq (halfLength : Int) (hx : a.RunsThrough x) (hy : a.RunsThrough y)
    (h : a.progress halfLength x = a.progress halfLength y) : x = y := by
  obtain ⟨x₁, x₂⟩ := x
  obtain ⟨y₁, y₂⟩ := y
  rw [Cell.mk.injEq]
  cases a <;> dsimp only [RunsThrough, progress] at hx hy h <;> omega

/-- Lanes that have a cell in common are the same or cross each other. -/
theorem eq_or_mem_crossing (ha : a.RunsThrough x) (hb : b.RunsThrough x) : b = a ∨ b ∈ a.crossing := by
  cases a <;> cases b <;> simp_all [RunsThrough, crossing]

theorem not_mem_crossing (a : Approach) : a ∉ a.crossing := by
  cases a <;> decide

/-- Where two lanes cross there is one of the four inner cells, and no other lane runs through it. -/
theorem crossing_cell (hab : b ∈ a.crossing) (ha : a.RunsThrough x) (hb : b.RunsThrough x) :
    (x.x = 1 ∨ x.x = -1) ∧ (x.y = 1 ∨ x.y = -1) ∧ ∀ lane : Approach, lane.RunsThrough x ↔ lane = a ∨ lane = b := by
  cases a <;> cases b <;> simp_all [RunsThrough, crossing] <;> intro lane <;> cases lane <;> simp_all

end Approach

namespace Vehicle

def progress (halfLength : Int) (v : Vehicle) : Int := v.lane.progress halfLength v.cell

def InLane (v : Vehicle) : Prop := v.lane.RunsThrough v.cell

@[simp] theorem advance_lane (p : Phase) (v : Vehicle) : (v.advance p).lane = v.lane := by
  rw [advance]
  split <;> rfl

@[simp] theorem struck_lane (vs : List Vehicle) (v : Vehicle) : (v.struck vs).lane = v.lane := by
  rw [struck]
  split <;> rfl

theorem InLane.advance {v : Vehicle} (h : v.InLane) (p : Phase) : (v.advance p).InLane := by
  rw [Vehicle.advance]
  split
  · exact Approach.runsThrough_add_heading h
  · exact h

theorem InLane.struck {v : Vehicle} (h : v.InLane) (vs : List Vehicle) : (v.struck vs).InLane := by
  rw [InLane, struck_lane, struck_cell]
  exact h

theorem progress_struck (halfLength : Int) (vs : List Vehicle) (v : Vehicle) :
    (v.struck vs).progress halfLength = v.progress halfLength := by
  rw [progress, struck_lane, struck_cell, progress]

theorem progress_advance (halfLength : Int) (p : Phase) (v : Vehicle) :
    (v.advance p).progress halfLength =
      v.progress halfLength + if !v.crashed && p.isGreen v.lane then 1 else 0 := by
  rw [advance]
  split
  · exact Approach.progress_add_heading v.lane halfLength v.cell
  · exact (Int.add_zero _).symm

theorem progress_nonneg {halfLength : Int} {v : Vehicle} (h : v.onRoad halfLength = true) :
    0 ≤ v.progress halfLength := by
  rw [onRoad_iff] at h
  rw [progress]
  cases v.lane <;> dsimp only [Approach.progress] <;> omega

theorem InLane.onRoad_iff {v : Vehicle} (h : v.InLane) {halfLength : Int} (hone : 1 ≤ halfLength) :
    v.onRoad halfLength = true ↔ 0 ≤ v.progress halfLength ∧ v.progress halfLength ≤ 2 * halfLength := by
  rw [Vehicle.onRoad_iff, progress]
  rw [InLane] at h
  cases hlane : v.lane <;> rw [hlane] at h <;> dsimp only [Approach.RunsThrough, Approach.progress] at h ⊢ <;> omega

theorem cell_eq_iff_progress_eq (halfLength : Int) {v w : Vehicle} (hv : v.InLane) (hw : w.InLane)
    (hlane : v.lane = w.lane) : w.cell = v.cell ↔ w.progress halfLength = v.progress halfLength := by
  rw [progress, progress, hlane]
  constructor
  · intro h
    rw [h]
  · exact Approach.eq_of_progress_eq halfLength hw (hlane ▸ hv)

/-- Of two vehicles, the later one in the list is behind the earlier one if both are of one lane, or both are wrecks. -/
def Ahead (halfLength : Int) (v w : Vehicle) : Prop :=
  v.lane = w.lane → w.progress halfLength < v.progress halfLength ∨
    (w.progress halfLength = v.progress halfLength ∧ v.crashed = true ∧ w.crashed = true)

/-- While vehicles move, the later one may also have come up to a wreck. -/
def AheadMoving (halfLength : Int) (v w : Vehicle) : Prop :=
  v.lane = w.lane → w.progress halfLength < v.progress halfLength ∨
    (w.progress halfLength = v.progress halfLength ∧ v.crashed = true)

theorem Ahead.advance {halfLength : Int} {v w : Vehicle} (h : v.Ahead halfLength w) (p : Phase) :
    (v.advance p).AheadMoving halfLength (w.advance p) := by
  intro hlane
  rw [advance_lane, advance_lane] at hlane
  have horder := h hlane
  rw [progress_advance, progress_advance, advance_crashed, hlane]
  cases hv : v.crashed <;> cases hw : w.crashed <;> cases p.isGreen w.lane <;> simp [hv, hw] at horder ⊢ <;> omega

end Vehicle

/-- Vehicles in file: each on its lane, those of one lane one behind the other, and every wreck with a wreck of a
crossing lane on its cell. -/
structure InFile (ahead : Vehicle → Vehicle → Prop) (vs : List Vehicle) : Prop where
  inLane : ∀ v ∈ vs, v.InLane
  file : vs.Pairwise ahead
  mixed : ∀ v ∈ vs, v.crashed = true → ∃ w ∈ vs, w.lane ∈ v.lane.crossing ∧ w.cell = v.cell ∧ w.crashed = true

namespace InFile

variable {vs : List Vehicle} {halfLength : Int}

theorem advance (h : InFile (Vehicle.Ahead halfLength) vs) (p : Phase) :
    InFile (Vehicle.AheadMoving halfLength) (vs.map (Vehicle.advance p)) where
  inLane := by
    intro v hv
    obtain ⟨x, hx, rfl⟩ := List.mem_map.mp hv
    exact (h.inLane x hx).advance p
  file := by
    rw [List.pairwise_map]
    exact h.file.imp fun hahead => hahead.advance p
  mixed := by
    intro v hv hcrashed
    obtain ⟨x, hx, rfl⟩ := List.mem_map.mp hv
    rw [Vehicle.advance_crashed] at hcrashed
    obtain ⟨w, hw, hlane, hcell, hwreck⟩ := h.mixed x hx hcrashed
    rw [Vehicle.advance_wreck p x hcrashed]
    exact ⟨w, List.mem_map.mpr ⟨w, hw, Vehicle.advance_wreck p w hwreck⟩, hlane, hcell, hwreck⟩

/-- Vehicles may leave, as long as a cell is left by all of its vehicles. -/
theorem filter {ahead : Vehicle → Vehicle → Prop} (h : InFile ahead vs) (stays : Vehicle → Bool)
    (hstays : ∀ v w : Vehicle, w.cell = v.cell → stays w = stays v) : InFile ahead (vs.filter stays) where
  inLane := fun v hv => h.inLane v (List.mem_filter.mp hv).1
  file := h.file.sublist List.filter_sublist
  mixed := by
    intro v hv hcrashed
    obtain ⟨hmem, hstay⟩ := List.mem_filter.mp hv
    obtain ⟨w, hw, hlane, hcell, hwreck⟩ := h.mixed v hmem hcrashed
    exact ⟨w, List.mem_filter.mpr ⟨hw, (hstays v w hcell).trans hstay⟩, hlane, hcell, hwreck⟩

theorem tow {ahead : Vehicle → Vehicle → Prop} (h : InFile ahead vs) :
    InFile ahead (vs.filter fun v => !v.crashed) where
  inLane := fun v hv => h.inLane v (List.mem_filter.mp hv).1
  file := h.file.sublist List.filter_sublist
  mixed := by
    intro v hv hcrashed
    have hwhole := (List.mem_filter.mp hv).2
    simp [hcrashed] at hwhole

/-- A vehicle that enters on a free cell is behind all others of its lane. -/
theorem enter (h : InFile (Vehicle.Ahead halfLength) vs) (i : Nat) (lane : Approach)
    (hroad : ∀ v ∈ vs, v.onRoad halfLength = true) (hfree : ∀ v ∈ vs, v.cell ≠ lane.entry halfLength) :
    InFile (Vehicle.Ahead halfLength) (vs ++ [⟨i, lane, lane.entry halfLength, false⟩]) where
  inLane := by
    intro v hv
    rcases List.mem_append.mp hv with hv | hv
    · exact h.inLane v hv
    · obtain rfl := List.mem_singleton.mp hv
      exact lane.entry_runsThrough halfLength
  file := by
    rw [List.pairwise_append]
    refine ⟨h.file, List.pairwise_singleton _ _, ?_⟩
    intro v hv w hw hlane
    obtain rfl := List.mem_singleton.mp hw
    -- the others are on the road and not on the entry, so they have advanced
    have hentry : (⟨i, lane, lane.entry halfLength, false⟩ : Vehicle).InLane := lane.entry_runsThrough halfLength
    have hapart := mt (Vehicle.cell_eq_iff_progress_eq halfLength (h.inLane v hv) hentry hlane).mpr (hfree v hv).symm
    have hzero : (⟨i, lane, lane.entry halfLength, false⟩ : Vehicle).progress halfLength = 0 :=
      lane.progress_entry halfLength
    have hnonneg := Vehicle.progress_nonneg (hroad v hv)
    rw [hzero] at hapart ⊢
    omega
  mixed := by
    intro v hv hcrashed
    rcases List.mem_append.mp hv with hv | hv
    · obtain ⟨w, hw, hpartner⟩ := h.mixed v hv hcrashed
      exact ⟨w, List.mem_append_left _ hw, hpartner⟩
    · obtain rfl := List.mem_singleton.mp hv
      cases hcrashed

theorem lanes_of_cell {ahead : Vehicle → Vehicle → Prop} (h : InFile ahead vs) {v w : Vehicle} (hv : v ∈ vs)
    (hw : w ∈ vs) (hcell : w.cell = v.cell) : w.lane = v.lane ∨ w.lane ∈ v.lane.crossing := by
  have hlane : w.lane.RunsThrough w.cell := h.inLane w hw
  rw [hcell] at hlane
  exact Approach.eq_or_mem_crossing (h.inLane v hv) hlane

/-- Vehicles stand in the list in the order of their identifiers. -/
theorem ahead_of_id_lt {ahead : Vehicle → Vehicle → Prop} (h : InFile ahead vs)
    (hids : (vs.map Vehicle.id).Pairwise (· < ·)) {v w : Vehicle} (hv : v ∈ vs) (hw : w ∈ vs) (hlt : v.id < w.id) :
    ahead v w := by
  rw [List.pairwise_map] at hids
  have hsymm : Std.Symm fun v w : Vehicle => (v.id < w.id → ahead v w) ∧ (w.id < v.id → ahead w v) :=
    ⟨fun v w hvw => hvw.symm⟩
  have hfile : vs.Pairwise fun v w => (v.id < w.id → ahead v w) ∧ (w.id < v.id → ahead w v) := by
    refine (h.file.and hids).imp ?_
    rintro v w ⟨hahead, hle⟩
    exact ⟨fun _ => hahead, fun hgt => by omega⟩
  have hne : v ≠ w := by
    rintro rfl
    omega
  exact (hfile.forall hv hw hne).1 hlt

/-- Of two vehicles of one lane on one cell, the one that entered first is a wreck already. -/
theorem leader_crashed (h : InFile (Vehicle.AheadMoving halfLength) vs) (hids : (vs.map Vehicle.id).Pairwise (· < ·))
    {v w : Vehicle} (hv : v ∈ vs) (hw : w ∈ vs) (hlt : v.id < w.id) (hlane : w.lane = v.lane) (hcell : w.cell = v.cell) :
    v.crashed = true := by
  have hlevel := (Vehicle.cell_eq_iff_progress_eq halfLength (h.inLane v hv) (h.inLane w hw) hlane.symm).mp hcell
  rcases h.ahead_of_id_lt hids hv hw hlt hlane.symm with hbehind | ⟨-, hwreck⟩
  · omega
  · exact hwreck

theorem exists_wreck (h : InFile (Vehicle.AheadMoving halfLength) vs) (hids : (vs.map Vehicle.id).Pairwise (· < ·))
    {v w : Vehicle} (hv : v ∈ vs) (hw : w ∈ vs) (hne : w.id ≠ v.id) (hlane : w.lane = v.lane)
    (hcell : w.cell = v.cell) : ∃ u ∈ vs, u.crashed = true ∧ u.lane = v.lane ∧ u.cell = v.cell := by
  rcases Nat.lt_or_gt_of_ne hne with hlt | hlt
  · exact ⟨w, hw, h.leader_crashed hids hw hv hlt hlane.symm hcell.symm, hlane, hcell⟩
  · exact ⟨v, hv, h.leader_crashed hids hv hw hlt hlane hcell, rfl, rfl⟩

/-- After the collisions, vehicles on one cell are wrecks, and the file is closed again. -/
theorem struck (h : InFile (Vehicle.AheadMoving halfLength) vs) (hids : (vs.map Vehicle.id).Pairwise (· < ·)) :
    InFile (Vehicle.Ahead halfLength) (vs.map (Vehicle.struck vs)) where
  inLane := by
    intro v hv
    obtain ⟨x, hx, rfl⟩ := List.mem_map.mp hv
    exact (h.inLane x hx).struck vs
  file := by
    rw [List.pairwise_map]
    rw [List.pairwise_map] at hids
    refine (h.file.and hids).imp_of_mem ?_
    rintro v w hv hw ⟨hahead, hlt⟩ hlane
    rw [Vehicle.struck_lane, Vehicle.struck_lane] at hlane
    rw [Vehicle.progress_struck, Vehicle.progress_struck, Vehicle.struck_crashed, Vehicle.struck_crashed,
      Vehicle.meetsIn_iff, Vehicle.meetsIn_iff]
    rcases hahead hlane with hbehind | ⟨heq, -⟩
    · exact .inl hbehind
    · have hcell := (Vehicle.cell_eq_iff_progress_eq halfLength (h.inLane v hv) (h.inLane w hw) hlane).mpr heq
      exact .inr ⟨heq, .inr ⟨w, hw, Nat.ne_of_gt hlt, hcell⟩, .inr ⟨v, hv, Nat.ne_of_lt hlt, hcell.symm⟩⟩
  mixed := by
    intro v hv hcrashed
    obtain ⟨x, hx, rfl⟩ := List.mem_map.mp hv
    rw [Vehicle.struck_lane, Vehicle.struck_cell]
    -- a wreck of before keeps its partner; a new one met another vehicle
    suffices hpartner : ∃ w ∈ vs, w.lane ∈ x.lane.crossing ∧ w.cell = x.cell ∧
        (w.crashed = true ∨ w.meetsIn vs = true) by
      obtain ⟨w, hw, hlane, hcell, hwreck⟩ := hpartner
      refine ⟨w.struck vs, List.mem_map_of_mem hw, ?_, ?_, ?_⟩
      · rw [Vehicle.struck_lane]
        exact hlane
      · rw [Vehicle.struck_cell]
        exact hcell
      · rw [Vehicle.struck_crashed]
        exact hwreck
    rw [Vehicle.struck_crashed] at hcrashed
    rcases hcrashed with hwreck | hmeets
    · obtain ⟨w, hw, hlane, hcell, hw'⟩ := h.mixed x hx hwreck
      exact ⟨w, hw, hlane, hcell, .inl hw'⟩
    · obtain ⟨w, hw, hne, hcell⟩ := (Vehicle.meetsIn_iff _ _).mp hmeets
      rcases h.lanes_of_cell hx hw hcell with hlane | hlane
      · obtain ⟨u, hu, hwreck, hulane, hucell⟩ := h.exists_wreck hids hx hw hne hlane hcell
        obtain ⟨y, hy, hylane, hycell, hy'⟩ := h.mixed u hu hwreck
        exact ⟨y, hy, hulane ▸ hylane, hycell.trans hucell, .inl hy'⟩
      · exact ⟨w, hw, hlane, hcell, .inr ((Vehicle.meetsIn_iff _ _).mpr ⟨x, hx, hne.symm, hcell.symm⟩)⟩

end InFile

namespace Crossing

/-- A sound crossing whose vehicles are in file. -/
structure Filed (c : Crossing) (s : Setup) : Prop extends c.Sound s where
  inFile : InFile (Vehicle.Ahead c.setup.halfLength) c.vehicles

variable {c c' : Crossing} {s : Setup}

theorem Filed.congr (h : c.Filed s) (hv : c'.vehicles = c.vehicles) (hs : c'.setup = c.setup)
    (hn : c'.nextId = c.nextId) : c'.Filed s where
  toSound := h.toSound.congr hv hs hn
  inFile := by
    rw [hv, hs]
    exact h.inFile

theorem Filed.of_empty (hs : s.Valid) (hc : c.setup = s) (h : c.vehicles = []) : c.Filed s where
  toSound := Sound.of_empty hs hc h
  inFile := by
    rw [h]
    exact ⟨by simp, .nil, by simp⟩

theorem Filed.enter (h : c.Filed s) (lane : Approach) : (c.enter lane).2.Filed s where
  toSound := h.toSound.enter lane
  inFile := by
    rcases c.enter_cases lane with heq | ⟨-, hfree, heq⟩
    · rw [heq]
      exact h.inFile
    · rw [heq]
      exact h.inFile.enter c.nextId lane h.onRoad hfree

theorem Filed.arrivals (h : c.Filed s) (harr : c.arrivals = some c') : c'.Filed s := by
  rcases c.arrivals_cases c' harr with ⟨stream, -, -, rfl⟩ | ⟨lane, stream, -, -, rfl⟩
  · exact h.congr rfl rfl rfl
  · have hdrawn : { c with stream := stream }.Filed s := h.congr rfl rfl rfl
    exact hdrawn.enter _

/-- Between driving and the collisions, vehicles may have come up to wrecks. -/
theorem Filed.moving (h : c.Filed s) :
    InFile (Vehicle.AheadMoving c.setup.halfLength) c.drive.clear.vehicles :=
  (h.inFile.advance c.signal.phase).filter _ fun v w hcell => Vehicle.onRoad_congr _ w v hcell

theorem Filed.proceed (h : c.Filed s) : c.drive.clear.settle.Filed s where
  toSound := h.toSound.proceed
  inFile := by
    rw [h.drive.clear.settle_vehicles]
    exact h.moving.struck h.drive.clear.ordered

theorem Filed.tick (h : c.Filed s) : c.tick.1.Filed s := by
  have hcounted : { c with ticks := c.ticks + 1 }.Filed s := h.congr rfl rfl rfl
  obtain ⟨c₁, harr, heq⟩ := h.tick_eq
  rw [heq]
  exact (hcounted.arrivals harr).proceed

theorem Filed.ticked (h : c.Filed s) (n : Nat) : (c.ticked n).1.Filed s :=
  ticked_induct (P := fun d => d.Filed s) (fun _ => Filed.tick) n c h

theorem Filed.tow (h : c.Filed s) : c.tow.Filed s where
  toSound := h.toSound.tow
  inFile := h.inFile.tow

theorem Filed.switchTo (h : c.Filed s) (p : Phase) : (c.switchTo p).Filed s := h.congr rfl rfl rfl

theorem Filed.move (h : c.Filed s) (m : Move) : (c.move m).Filed s := by
  cases m with
  | enter lane => exact h.enter lane
  | step p =>
    rw [Crossing.move, step_state]
    exact (h.tow.switchTo p).ticked _
  | switch p => exact h.switchTo p
  | reset => exact Filed.of_empty h.valid h.setup rfl

theorem Filed.run (h : c.Filed s) (ms : List Move) : (c.run ms).Filed s := by
  induction ms generalizing c with
  | nil => exact h
  | cons m ms ih => exact ih (h.move m)

theorem filed_start (hs : s.Valid) : (start s).Filed s := Filed.of_empty hs rfl rfl

theorem Sound.mem_proceed (h : c.Sound s) {v : Vehicle} (hv : v ∈ c.drive.clear.settle.vehicles) :
    ∃ x ∈ c.vehicles, v.id = x.id ∧ v.lane = x.lane ∧ v.cell = (x.advance c.signal.phase).cell ∧
      (v.crashed = false → x.crashed = false) := by
  rw [h.drive.clear.settle_vehicles] at hv
  obtain ⟨y, hy, rfl⟩ := List.mem_map.mp hv
  obtain ⟨x, hx, rfl⟩ := List.mem_map.mp (List.mem_filter.mp hy).1
  refine ⟨x, hx, ?_, ?_, Vehicle.struck_cell _ _, ?_⟩
  · rw [Vehicle.struck_id, Vehicle.advance_id]
  · rw [Vehicle.struck_lane, Vehicle.advance_lane]
  · intro hwhole
    by_contra hwreck
    rw [Bool.not_eq_false] at hwreck
    have hstruck := (Vehicle.struck_crashed c.drive.clear.vehicles (x.advance c.signal.phase)).mpr (.inl (by simpa))
    rw [hwhole] at hstruck
    cases hstruck

/-- A wreck that is there after the arrivals was there before them. -/
theorem mem_of_arrivals (harr : c.arrivals = some c') {v : Vehicle} (hv : v ∈ c'.vehicles) (hwreck : v.crashed = true) :
    v ∈ c.vehicles := by
  rcases arrivals_vehicles harr with ⟨heq, -⟩ | ⟨lane, -, heq⟩
  · rw [heq] at hv
    exact hv
  · rw [heq] at hv
    rcases List.mem_append.mp hv with hv | hv
    · exact hv
    · obtain rfl := List.mem_singleton.mp hv
      cases hwreck

/-- Two vehicles of one lane come together in a tick only on a cell that held wrecks of that lane and of one that
crosses it before the tick. -/
theorem Filed.wrecks_before_tick (h : c.Filed s) {v w : Vehicle} (hv : v ∈ c.tick.1.vehicles) (hw : w ∈ c.tick.1.vehicles)
    (hne : w.id ≠ v.id) (hlane : w.lane = v.lane) (hcell : w.cell = v.cell) :
    ∃ x ∈ c.vehicles, ∃ y ∈ c.vehicles, (x.crashed = true ∧ x.lane = v.lane ∧ x.cell = v.cell) ∧
      (y.crashed = true ∧ y.lane ∈ v.lane.crossing ∧ y.cell = v.cell) := by
  have hcounted : { c with ticks := c.ticks + 1 }.Filed s := h.congr rfl rfl rfl
  obtain ⟨c₁, harr, heq⟩ := h.tick_eq
  have h₁ := hcounted.arrivals harr
  rw [heq, h₁.drive.clear.settle_vehicles] at hv hw
  obtain ⟨v', hv', rfl⟩ := List.mem_map.mp hv
  obtain ⟨w', hw', rfl⟩ := List.mem_map.mp hw
  rw [Vehicle.struck_id, Vehicle.struck_id] at hne
  rw [Vehicle.struck_lane, Vehicle.struck_lane] at hlane
  rw [Vehicle.struck_cell, Vehicle.struck_cell] at hcell
  rw [Vehicle.struck_lane, Vehicle.struck_cell]
  -- one of the two was a wreck while the vehicles moved, so it did not move and was there before
  obtain ⟨u, hu, hwreck, hulane, hucell⟩ := h₁.moving.exists_wreck h₁.drive.clear.ordered hv' hw' hne hlane hcell
  obtain ⟨x, hx, rfl⟩ := List.mem_map.mp (List.mem_filter.mp hu).1
  rw [Vehicle.advance_crashed] at hwreck
  rw [Vehicle.advance_wreck _ x hwreck] at hulane hucell
  have hxc : x ∈ c.vehicles := mem_of_arrivals harr hx hwreck
  obtain ⟨y, hy, hylane, hycell, hywreck⟩ := h.inFile.mixed x hxc hwreck
  exact ⟨x, hxc, y, hy, ⟨hwreck, hulane, hucell⟩, hywreck, hulane ▸ hylane, hycell.trans hucell⟩

end Crossing

end RightOfWay.Traffic

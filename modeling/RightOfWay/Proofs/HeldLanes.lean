import RightOfWay.Proofs.Lanes
import RightOfWay.Proofs.Tally

namespace RightOfWay.Traffic

/-- Whether a cell of a lane is one where other lanes cross it. -/
def Approach.CrossedAt : Approach → Cell → Prop
  | .north, x => x.y = 1 ∨ x.y = -1
  | .east, x => x.x = 1 ∨ x.x = -1
  | .south, x => x.y = 1 ∨ x.y = -1
  | .west, x => x.x = 1 ∨ x.x = -1

namespace Approach

instance (a : Approach) (x : Cell) : Decidable (a.CrossedAt x) :=
  match a with
  | .north => inferInstanceAs (Decidable (x.y = 1 ∨ x.y = -1))
  | .east => inferInstanceAs (Decidable (x.x = 1 ∨ x.x = -1))
  | .south => inferInstanceAs (Decidable (x.y = 1 ∨ x.y = -1))
  | .west => inferInstanceAs (Decidable (x.x = 1 ∨ x.x = -1))

/-- On a road of at least two cells to either side nobody enters on a crossing. -/
theorem not_crossedAt_entry (a : Approach) {halfLength : Int} (h : 2 ≤ halfLength) :
    ¬ a.CrossedAt (a.entry halfLength) := by
  cases a <;> dsimp only [CrossedAt, entry] <;> omega

theorem crossedAt_of_crossing {a b lane : Approach} {x : Cell} (hab : b ∈ a.crossing) (ha : a.RunsThrough x)
    (hb : b.RunsThrough x) : lane.CrossedAt x := by
  obtain ⟨hx, hy, -⟩ := crossing_cell hab ha hb
  cases lane
  · exact hy
  · exact hx
  · exact hy
  · exact hx

/-- Of two lanes that cross, one is of each axis. -/
theorem mem_crossing_or (a : Approach) {b d : Approach} (hbd : d ∈ b.crossing) : b ∈ a.crossing ∨ d ∈ a.crossing := by
  cases a <;> cases b <;> cases d <;> simp_all [crossing]

end Approach

namespace Crossing

/-- Whether a move keeps the lanes red that cross those of an approach; the signal alone may show anything. -/
def Move.Holds (a : Approach) : Move → Prop
  | .enter _ => True
  | .step p => ∀ b ∈ a.crossing, p.isGreen b = false
  | .switch _ => True
  | .reset => False

instance (a : Approach) (m : Move) : Decidable (m.Holds a) :=
  match m with
  | .enter _ => .isTrue trivial
  | .step p => inferInstanceAs (Decidable (∀ b ∈ a.crossing, p.isGreen b = false))
  | .switch _ => .isTrue trivial
  | .reset => .isFalse id

/-- Vehicles in file, of which those in the lanes across an approach are clear of the crossings, wrecks apart. -/
structure Guarded (c : Crossing) (s : Setup) (a : Approach) : Prop extends c.Filed s where
  clear : ∀ v ∈ c.vehicles, v.crashed = false → v.lane ∈ a.crossing → ¬ v.lane.CrossedAt v.cell

variable {c c' : Crossing} {s : Setup} {a : Approach}

theorem Guarded.congr (h : c.Guarded s a) (hv : c'.vehicles = c.vehicles) (hs : c'.setup = c.setup)
    (hn : c'.nextId = c.nextId) : c'.Guarded s a where
  toFiled := h.toFiled.congr hv hs hn
  clear := by
    rw [hv]
    exact h.clear

theorem Guarded.enter (h : c.Guarded s a) (hlong : 2 ≤ s.halfLength) (lane : Approach) :
    (c.enter lane).2.Guarded s a where
  toFiled := h.toFiled.enter lane
  clear := by
    rcases c.enter_cases lane with heq | ⟨-, -, heq⟩
    · rw [heq]
      exact h.clear
    · rw [heq]
      intro v hv hwhole hheld
      rcases List.mem_append.mp hv with hv | hv
      · exact h.clear v hv hwhole hheld
      · obtain rfl := List.mem_singleton.mp hv
        rw [h.setup]
        exact lane.not_crossedAt_entry hlong

theorem Guarded.arrivals (h : c.Guarded s a) (hlong : 2 ≤ s.halfLength) (harr : c.arrivals = some c') :
    c'.Guarded s a := by
  rcases c.arrivals_cases c' harr with ⟨stream, -, -, rfl⟩ | ⟨lane, stream, -, -, rfl⟩
  · exact h.congr rfl rfl rfl
  · have hdrawn : { c with stream := stream }.Guarded s a := h.congr rfl rfl rfl
    exact hdrawn.enter hlong _

theorem not_hasWreck_of_arrivals (harr : c.arrivals = some c') (hwhole : ¬ c.HasWreck) : ¬ c'.HasWreck := by
  rintro ⟨v, hv, hwreck⟩
  exact hwhole ⟨v, mem_of_arrivals harr hv hwreck, hwreck⟩

theorem Guarded.proceed (h : c.Guarded s a) (hred : ∀ b ∈ a.crossing, c.signal.phase.isGreen b = false)
    (hwhole : ¬ c.HasWreck) : c.drive.clear.settle.Guarded s a ∧ ¬ c.drive.clear.settle.HasWreck := by
  have hfiled := h.toFiled.proceed
  have hclear : ∀ v ∈ c.drive.clear.settle.vehicles, v.lane ∈ a.crossing → ¬ v.lane.CrossedAt v.cell := by
    intro v hv hheld
    obtain ⟨x, hx, -, hlane, hcell, -⟩ := h.mem_proceed hv
    rw [hlane] at hheld ⊢
    have hsound : x.crashed = false := by
      by_contra hwreck
      exact hwhole ⟨x, hx, by simpa using hwreck⟩
    have hstill : x.advance c.signal.phase = x := by
      rw [Vehicle.advance, if_neg (by simp [hred x.lane hheld])]
    rw [hcell, hstill]
    exact h.clear x hx hsound hheld
  refine ⟨⟨hfiled, fun v hv _ => hclear v hv⟩, ?_⟩
  rintro ⟨v, hv, hwreck⟩
  -- a wreck has a partner in a crossing lane, and one of the two is in a held lane
  obtain ⟨w, hw, hlane, hcell, -⟩ := hfiled.inFile.mixed v hv hwreck
  have hv' := hfiled.inFile.inLane v hv
  have hw' : w.lane.RunsThrough v.cell := hcell ▸ hfiled.inFile.inLane w hw
  rcases a.mem_crossing_or hlane with hheld | hheld
  · exact hclear v hv hheld (Approach.crossedAt_of_crossing hlane hv' hw')
  · exact hclear w hw hheld (hcell ▸ Approach.crossedAt_of_crossing hlane hv' hw')

theorem Guarded.tick (h : c.Guarded s a) (hlong : 2 ≤ s.halfLength)
    (hred : ∀ b ∈ a.crossing, c.signal.phase.isGreen b = false) (hwhole : ¬ c.HasWreck) :
    c.tick.1.Guarded s a ∧ ¬ c.tick.1.HasWreck := by
  have hcounted : { c with ticks := c.ticks + 1 }.Guarded s a := h.congr rfl rfl rfl
  obtain ⟨c₁, harr, heq⟩ := h.tick_eq
  have hsignal := arrivals_signal harr
  rw [heq]
  refine (hcounted.arrivals hlong harr).proceed ?_ (not_hasWreck_of_arrivals harr hwhole)
  rw [hsignal]
  exact hred

theorem Guarded.tow (h : c.Guarded s a) : c.tow.Guarded s a ∧ ¬ c.tow.HasWreck := by
  refine ⟨⟨h.toFiled.tow, fun v hv => h.clear v (List.mem_filter.mp hv).1⟩, ?_⟩
  rintro ⟨v, hv, hwreck⟩
  have hwhole := (List.mem_filter.mp hv).2
  simp [hwreck] at hwhole

/-- A step that holds the lanes leaves no wreck behind, so it has counted no crash. -/
theorem Guarded.step (h : c.Guarded s a) (hlong : 2 ≤ s.halfLength) {p : Phase}
    (hred : ∀ b ∈ a.crossing, p.isGreen b = false) :
    (Crossing.step p c).1.Guarded s a ∧ ¬ (Crossing.step p c).1.HasWreck ∧
      (Crossing.step p c).1.crashes = c.crashes := by
  have hticked : (Crossing.step p c).1.Guarded s a ∧ ¬ (Crossing.step p c).1.HasWreck ∧
      (Crossing.step p c).1.signal.phase = p := by
    rw [step_state]
    refine ticked_induct (P := fun d => d.Guarded s a ∧ ¬ d.HasWreck ∧ d.signal.phase = p) ?_ _ _ ?_
    · rintro d ⟨hguarded, hwhole, rfl⟩
      obtain ⟨hnext, hnone⟩ := hguarded.tick hlong hred hwhole
      exact ⟨hnext, hnone, by rw [tick_signal]⟩
    · exact ⟨h.tow.1.congr rfl rfl rfl, h.tow.2, rfl⟩
  obtain ⟨hguarded, hnone, -⟩ := hticked
  have htally := h.step_tallied p
  refine ⟨hguarded, hnone, ?_⟩
  have hle := htally.atLeast
  have hnot := mt htally.counted.mp hnone
  omega

theorem Guarded.move (h : c.Guarded s a) (hlong : 2 ≤ s.halfLength) {m : Move} (hm : m.Holds a) :
    (c.move m).Guarded s a ∧ (c.move m).crashes = c.crashes := by
  cases m with
  | enter lane => exact ⟨h.enter hlong lane, (c.enter_counters lane).2⟩
  | step p =>
    obtain ⟨hguarded, -, hcrashes⟩ := h.step hlong hm
    exact ⟨hguarded, hcrashes⟩
  | switch p => exact ⟨h.congr rfl rfl rfl, rfl⟩
  | reset => exact hm.elim

theorem Guarded.run (h : c.Guarded s a) (hlong : 2 ≤ s.halfLength) (ms : List Move) (hms : ∀ m ∈ ms, m.Holds a) :
    (c.run ms).Guarded s a ∧ (c.run ms).crashes = c.crashes := by
  induction ms generalizing c with
  | nil => exact ⟨h, rfl⟩
  | cons m ms ih =>
    obtain ⟨hguarded, hcrashes⟩ := h.move hlong (hms m (by simp))
    obtain ⟨hrun, hsame⟩ := ih hguarded fun m' hm' => hms m' (by simp [hm'])
    exact ⟨hrun, hsame.trans hcrashes⟩

/-- If the two lanes across an approach have no whole vehicle where others cross, and steps keep them red, then no crash
is counted and none is seen. -/
theorem held_lanes_never_crash (s : Setup) (hs : s.Valid) (hlong : 2 ≤ s.halfLength) (ms : List Move) (c : Crossing)
    (hc : c = (start s).run ms) (a : Approach)
    (hclear : ∀ v ∈ c.vehicles, v.crashed = false → v.lane ∈ a.crossing → ¬ v.lane.CrossedAt v.cell)
    (ns : List Move) (hns : ∀ m ∈ ns, m.Holds a) :
    (∀ k, (c.run (ns.take k)).crashes = c.crashes) ∧
    ∀ separation : Float, 0.0 < separation → separation ≤ 1.0 → ∀ k p, ns[k]? = some (.step p) →
      (c.run (ns.take (k + 1))).condition separation ≠ .crash := by
  have h : c.Guarded s a := ⟨hc ▸ (filed_start hs).run ms, hclear⟩
  have hheld (k : Nat) : (c.run (ns.take k)).Guarded s a ∧ (c.run (ns.take k)).crashes = c.crashes :=
    h.run hlong (ns.take k) fun m hm => hns m (List.mem_of_mem_take hm)
  refine ⟨fun k => (hheld k).2, ?_⟩
  intro separation hpos hone k p hk hcrash
  have hlast : c.run (ns.take (k + 1)) = (step p (c.run (ns.take k))).1 := by
    rw [List.take_add_one, hk, run, List.foldl_append]
    rfl
  obtain ⟨hguarded, hnone, -⟩ := (hheld k).1.step hlong (hns _ (List.mem_of_getElem? hk))
  rw [hlast] at hcrash
  exact hnone (((hguarded.condition_iff separation hpos hone).2.1).mp hcrash)

/-- A vehicle from the east is stopped between the crossings; then vehicles from the north and the west collide. -/
def stopped : List Move :=
  [.enter .east, .step (.green [.east]), .step (.green [.east]), .enter .north, .enter .west, .step (.green [.north]),
    .step (.green [.north]), .step (.green [.north, .west])]

/-- Traffic from north and south passes it on both sides, and others line up behind it. -/
def passage : List Move :=
  [.enter .east, .enter .north, .step (.green [.north, .south]), .enter .south, .enter .west,
    .step (.green [.north, .south]), .switch (.green [.east]), .step (.green [.north, .south])]

theorem held_lanes_never_crash_passage :
    ((start shortRoad).run stopped).vehicles =
      [⟨0, .east, ⟨0, 1⟩, false⟩, ⟨1, .north, ⟨-1, -1⟩, true⟩, ⟨2, .west, ⟨-1, -1⟩, true⟩] ∧
    (((start shortRoad).run stopped).run passage).vehicles =
      [⟨0, .east, ⟨0, 1⟩, false⟩, ⟨3, .east, ⟨2, 1⟩, false⟩, ⟨4, .north, ⟨-1, -1⟩, false⟩, ⟨5, .south, ⟨1, 0⟩, false⟩,
        ⟨6, .west, ⟨-2, -1⟩, false⟩] ∧
    (((start shortRoad).run stopped).run passage).crashes = 1 ∧
    (((start shortRoad).run stopped).run passage).condition crashSeparation ≠ .crash := by
  have hstopped : ((start shortRoad).run stopped).vehicles =
      [⟨0, .east, ⟨0, 1⟩, false⟩, ⟨1, .north, ⟨-1, -1⟩, true⟩, ⟨2, .west, ⟨-1, -1⟩, true⟩] := by decide +kernel
  have hcrashes : ((start shortRoad).run stopped).crashes = 1 := by decide +kernel
  obtain ⟨hsame, hseen⟩ := held_lanes_never_crash shortRoad shortRoad_valid (by decide) stopped _ rfl .north
    (by rw [hstopped]; decide) passage (by decide)
  refine ⟨hstopped, by decide +kernel, ?_, ?_⟩
  · rw [← hcrashes]
    exact hsame 8
  · exact hseen crashSeparation (by decide +kernel) (by decide +kernel) 7 _ rfl

-- on the shortest road vehicles enter on a crossing, and may be hit there
example : ((start { shortRoad with halfLength := 1, ticksPerStep := 2 }).run
    [.enter .east, .enter .south, .step (.green [.south])]).crashes = 1 := by decide +kernel

end Crossing

end RightOfWay.Traffic

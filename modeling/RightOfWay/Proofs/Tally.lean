import RightOfWay.Proofs.Invariant
import RightOfWay.Proofs.Orbit

namespace RightOfWay.Traffic.Crossing

/-- Some vehicle is a wreck. -/
def HasWreck (c : Crossing) : Prop := ∃ v ∈ c.vehicles, v.crashed = true

instance (c : Crossing) : Decidable c.HasWreck :=
  inferInstanceAs (Decidable (∃ v ∈ c.vehicles, v.crashed = true))

/-- The counter is at least `base`, and above it iff there is a wreck. -/
structure Tallied (c : Crossing) (base : Nat) : Prop where
  atLeast : base ≤ c.crashes
  counted : base < c.crashes ↔ c.HasWreck

variable {c c' : Crossing} {s : Setup} {base : Nat}

theorem Tallied.congr (h : c.Tallied base) (hc : c'.crashes = c.crashes) (hw : c'.HasWreck ↔ c.HasWreck) :
    c'.Tallied base := by
  refine ⟨?_, ?_⟩
  · rw [hc]
    exact h.atLeast
  · rw [hc, hw]
    exact h.counted

theorem Tallied.enter (h : c.Tallied base) (lane : Approach) : (c.enter lane).2.Tallied base := by
  rcases c.enter_cases lane with heq | ⟨-, -, heq⟩
  · rw [heq]
    exact h
  · rw [heq]
    refine h.congr rfl ?_
    simp [HasWreck, or_and_right, exists_or]

theorem Tallied.arrivals (h : c.Tallied base) (harr : c.arrivals = some c') : c'.Tallied base := by
  rcases c.arrivals_cases c' harr with ⟨stream, -, -, rfl⟩ | ⟨lane, stream, -, -, rfl⟩
  · exact h.congr rfl Iff.rfl
  · have hdrawn : { c with stream := stream }.Tallied base := h.congr rfl Iff.rfl
    exact hdrawn.enter _

theorem Tallied.drive (h : c.Tallied base) : c.drive.Tallied base := by
  refine h.congr rfl ?_
  simp [HasWreck, Crossing.drive]

theorem Tallied.clear (h : c.Tallied base) (hmoving : c.Moving s) : c.clear.Tallied base := by
  refine h.congr rfl ?_
  constructor
  · rintro ⟨v, hv, hcrashed⟩
    exact ⟨v, (List.mem_filter.mp hv).1, hcrashed⟩
  · rintro ⟨v, hv, hcrashed⟩
    exact ⟨v, List.mem_filter.mpr ⟨hv, hmoving.towable v hv hcrashed⟩, hcrashed⟩

theorem Tallied.settle (h : c.Tallied base) (hmoving : c.Moving s) : c.settle.Tallied base := by
  have hcrashes : c.settle.crashes = c.crashes + (collide [] c.vehicles).2 := rfl
  have hvehicles : c.settle.vehicles = (collide [] c.vehicles).1 := rfl
  have hbase := h.atLeast
  by_cases hcount : (collide [] c.vehicles).2 = 0
  · refine h.congr ?_ ?_
    · rw [hcrashes, hcount, Nat.add_zero]
    · rw [HasWreck, hvehicles, collide_of_count [] c.vehicles hcount, List.nil_append, HasWreck]
  · refine ⟨by omega, iff_of_true (by omega) ?_⟩
    rw [HasWreck, hvehicles]
    exact crashed_of_collide_count [] c.vehicles hmoving.settled hcount

theorem Tallied.tick (h : c.Tallied base) (hsound : c.Sound s) : c.tick.1.Tallied base := by
  have hcounted : { c with ticks := c.ticks + 1 }.Tallied base := h.congr rfl Iff.rfl
  have hsound' : { c with ticks := c.ticks + 1 }.Sound s := hsound.congr rfl rfl rfl
  rcases c.tick_cases with ⟨-, heq⟩ | ⟨c₁, harr, heq⟩
  · rw [heq]
    exact hcounted
  · have hdriven := (hsound'.arrivals harr).drive
    rw [heq]
    exact (((hcounted.arrivals harr).drive).clear hdriven).settle hdriven.clear

/-- A step counts a crash iff it leaves a wreck behind. -/
theorem Sound.step_tallied (h : c.Sound s) (p : Phase) : (Crossing.step p c).1.Tallied c.crashes := by
  have htowed : (c.tow.switchTo p).Tallied c.crashes := by
    refine ⟨Nat.le_refl _, iff_of_false (Nat.lt_irrefl _) ?_⟩
    rintro ⟨v, hv, hcrashed⟩
    have hwhole := (List.mem_filter.mp hv).2
    simp [hcrashed] at hwhole
  rw [step_state]
  -- counting needs the vehicles in order at every tick, so both are carried along
  refine (ticked_induct (P := fun d => d.Sound s ∧ d.Tallied c.crashes) ?_ _ _
    ⟨h.tow.switchTo p, htowed⟩).2
  intro d hd
  exact ⟨hd.1.tick, hd.2.tick hd.1⟩

theorem Sound.orbit (h : c.Sound s) (p : Phase) (k : Nat) : (plant.orbit p c k).Sound s := by
  induction k generalizing c with
  | zero => exact h
  | succ k ih => exact ih (h.step p)

/-- Along an orbit the counter never falls, and rises with the first wreck that is left behind. -/
theorem Sound.orbit_crashes (h : c.Sound s) (p : Phase) (k : Nat) :
    c.crashes ≤ (plant.orbit p c k).crashes ∧
    (c.crashes < (plant.orbit p c k).crashes ↔ ∃ j < k, (plant.orbit p c (j + 1)).HasWreck) := by
  induction k with
  | zero => exact ⟨Nat.le_refl _, iff_of_false (Nat.lt_irrefl _) (by simp)⟩
  | succ k ih =>
    obtain ⟨hle, hrise⟩ := ih
    have hlast : (plant.orbit p c (k + 1)).Tallied (plant.orbit p c k).crashes := by
      rw [Control.Plant.orbit_add]
      exact (h.orbit p k).step_tallied p
    have hstep := hlast.atLeast
    refine ⟨by omega, ?_⟩
    rw [Nat.exists_lt_succ_right, ← hrise, ← hlast.counted]
    omega

/-- Of the first states of an orbit one has a wreck iff there was one to begin with, or the counter rose. -/
theorem Sound.hasWreck_on_orbit (h : c.Sound s) (p : Phase) (k : Nat) :
    (∃ j < 1 + k, (plant.orbit p c j).HasWreck) ↔ c.HasWreck ∨ c.crashes < (plant.orbit p c k).crashes := by
  rw [(h.orbit_crashes p k).2, Nat.add_comm, Nat.exists_lt_succ_left]
  rfl

end RightOfWay.Traffic.Crossing

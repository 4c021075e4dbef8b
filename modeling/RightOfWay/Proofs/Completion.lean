import RightOfWay.Proofs.Comparison
import RightOfWay.Proofs.Invariant

namespace RightOfWay.Chance

open Number.Binary64

theorem Stream.event_isSome (s : Stream) (p : Float) (hzero : 0.0 ≤ p) (hone : p ≤ 1.0) :
    ∃ occurs rest, s.event p = some (occurs, rest) := by
  rw [event]
  by_cases hlt : p < 1.0
  · rw [if_pos (by simp [hzero, hlt])]
    exact ⟨_, _, rfl⟩
  · have hnumber := isNaN_of_le hone
    have hcertain : (p == 1.0) = true := by
      rw [lt_iff_level hnumber.1 hnumber.2] at hlt
      rw [le_iff_level hnumber.1 hnumber.2] at hone
      rw [beq_iff_level hnumber.1 hnumber.2]
      omega
    rw [if_neg (by simp [hlt]), if_pos hcertain]
    exact ⟨_, _, rfl⟩

end RightOfWay.Chance

namespace RightOfWay.Traffic

theorem Setup.Valid.probability {s : Setup} (h : s.Valid) : 0.0 ≤ s.spawnRate ∧ s.spawnRate ≤ 1.0 := by
  have hc := h.checked
  rw [Setup.check] at hc
  split at hc
  · cases hc
  · rename_i hrate
    simpa using hrate

theorem drawLane_isSome (rate : Float) (s : Chance.Stream) (hzero : 0.0 ≤ rate) (hone : rate ≤ 1.0) :
    ∃ lane stream, drawLane rate s = some (lane, stream) := by
  obtain ⟨occurs, drawn, hevent⟩ := s.event_isSome rate hzero hone
  rw [drawLane, hevent]
  cases occurs with
  | false => exact ⟨_, _, rfl⟩
  | true =>
    dsimp only
    cases drawn.belowFour with
    | mk lane stream => exact ⟨_, _, rfl⟩

namespace Crossing

variable {c : Crossing} {s : Setup}

theorem arrivals_of_probability (c : Crossing) (hzero : 0.0 ≤ c.setup.spawnRate) (hone : c.setup.spawnRate ≤ 1.0) :
    ∃ c₁, c.arrivals = some c₁ := by
  obtain ⟨lane, stream, hdraw⟩ := drawLane_isSome c.setup.spawnRate c.stream hzero hone
  rw [arrivals, hdraw]
  exact ⟨_, rfl⟩

theorem Orderly.arrivals_isSome (h : c.Orderly s) : ∃ c₁, c.arrivals = some c₁ := by
  have hrate := h.setup ▸ h.valid.probability
  exact c.arrivals_of_probability hrate.1 hrate.2

/-- A tick goes through all its stages. -/
theorem Sound.tick_eq (h : c.Sound s) : ∃ c₁, { c with ticks := c.ticks + 1 }.arrivals = some c₁ ∧
    c.tick = (c₁.drive.clear.settle, some c₁.drive.reward) := by
  have hcounted : { c with ticks := c.ticks + 1 }.Sound s := h.congr rfl rfl rfl
  rcases c.tick_cases with ⟨hnone, -⟩ | hstages
  · obtain ⟨c₁, hsome⟩ := hcounted.arrivals_isSome
    rw [hnone] at hsome
    cases hsome
  · exact hstages

theorem enter_counters (c : Crossing) (lane : Approach) :
    (c.enter lane).2.throughput = c.throughput ∧ (c.enter lane).2.crashes = c.crashes := by
  rcases c.enter_cases lane with heq | ⟨-, -, heq⟩
  · rw [heq]
    exact ⟨rfl, rfl⟩
  · rw [heq]
    exact ⟨rfl, rfl⟩

theorem arrivals_counters {c₁ : Crossing} (h : c.arrivals = some c₁) :
    c₁.throughput = c.throughput ∧ c₁.crashes = c.crashes := by
  rcases c.arrivals_cases c₁ h with ⟨stream, -, -, rfl⟩ | ⟨lane, stream, -, -, rfl⟩
  · exact ⟨rfl, rfl⟩
  · exact enter_counters { c with stream := stream } _

theorem Sound.ticked_succ_fst (h : c.Sound s) (n : Nat) : (c.ticked (n + 1)).1 = (c.tick.1.ticked n).1 := by
  obtain ⟨c₁, -, heq⟩ := h.tick_eq
  rw [ticked_succ, heq]

theorem Sound.tickedFrom_isSome (h : c.Sound s) (n : Nat) (before : Float) :
    ∃ reward, (c.tickedFrom before n).2 = some reward := by
  induction n generalizing c before with
  | zero => exact ⟨before, rfl⟩
  | succ n ih =>
    obtain ⟨c₁, -, heq⟩ := h.tick_eq
    have hnext := h.tick
    rw [heq] at hnext
    rw [tickedFrom, heq]
    exact ih hnext _

theorem Sound.ticked_succ_last (h : c.Sound s) (n : Nat) : (c.ticked (n + 1)).1 = (c.ticked n).1.tick.1 := by
  induction n generalizing c with
  | zero => rw [h.ticked_succ_fst]; rfl
  | succ n ih => rw [h.ticked_succ_fst, ih h.tick, ← h.ticked_succ_fst]

/-- A step has an outcome, with the reward of its ticks. -/
theorem Sound.step_eq (h : c.Sound s) (p : Phase) : ∃ reward,
    ((c.tow.switchTo p).ticked c.setup.ticksPerStep).2 = some reward ∧
      (Crossing.step p c).2 = .ok ⟨(Crossing.step p c).1.view, reward, (Crossing.step p c).1.signal.isDone,
        (Crossing.step p c).1.info⟩ := by
  obtain ⟨reward, hreward⟩ := (h.tow.switchTo p).tickedFrom_isSome c.setup.ticksPerStep 0.0
  refine ⟨reward, hreward, ?_⟩
  change ((c.tow.switchTo p).ticked c.setup.ticksPerStep).2 = some reward at hreward
  rw [step_state, Crossing.step]
  rcases hticked : (c.tow.switchTo p).ticked c.setup.ticksPerStep with ⟨c', r⟩
  rw [hticked] at hreward
  dsimp only at hreward ⊢
  subst hreward
  rfl

end Crossing

end RightOfWay.Traffic

import RightOfWay.Proofs.StaticErrors

namespace RightOfWay.Traffic

open Logic (Formula Trace ofBool)

theorem evaluate_shield (t : Trace Phase) :
    shield.evaluate Phase.valuation t.toList = .ok (.scalar (ofBool !heldConflict t.toList)) := by
  obtain ⟨d, hd⟩ : ∃ d, shield.evaluate Phase.valuation t.toList = .ok d := Rule.shield.spec_evaluates t
  obtain ⟨b, hb, -, rfl⟩ := Formula.evaluate_isImage Phase.valuation Phase.valuation_binary shield t d hd
  rw [reading_shield] at hb
  cases hb
  exact hd

theorem evaluate_shield_eq_zero_iff (t : Trace Phase) :
    shield.evaluate Phase.valuation t.toList = .ok (.scalar 0.0) ↔ heldConflict t.toList = true := by
  rw [evaluate_shield]
  cases heldConflict t.toList with
  | true => exact iff_of_true rfl rfl
  | false =>
    refine iff_of_false ?_ Bool.false_ne_true
    intro h
    have hone : (1.0 : Float) = 0.0 := Logic.Degree.scalar.inj (Except.ok.inj h)
    exact absurd hone (by decide +kernel)

/-- A conflict is held by one light of the road from north to south and one of the road from east to west. -/
theorem heldConflict_iff_roads (ps : List Phase) :
    heldConflict ps = true ↔ ∃ x ∈ [Approach.north, .south], ∃ y ∈ [Approach.east, .west],
      ∀ p ∈ ps, p.isGreen x = true ∧ p.isGreen y = true := by
  simp [heldConflict, crossingPairs, Approach.crossing, or_assoc]

theorem heldConflict_replicate (p : Phase) (n : Nat) : heldConflict (List.replicate (n + 1) p) = p.hasConflict := by
  rw [← heldConflict_singleton]
  apply heldConflict_congr
  simp

/-- The shield has degree zero over a trace iff some two crossing lights are green together in all observations, and one
otherwise. -/
theorem shield_zero_iff_conflict_held :
    (∀ t : Trace Phase, shield.evaluate Phase.valuation t.toList =
      .ok (.scalar (if ∃ x ∈ [Approach.north, .south], ∃ y ∈ [Approach.east, .west],
        ∀ p ∈ t.toList, p.isGreen x = true ∧ p.isGreen y = true then 0.0 else 1.0))) ∧
    (∀ (p : Phase) (n : Nat),
      shield.evaluate Phase.valuation (List.replicate (n + 1) p) = .ok (.scalar 0.0) ↔ p.hasConflict = true) ∧
    ∀ p : Phase, shield.evaluate Phase.valuation [p] = .ok (.scalar (if p.hasConflict then 0.0 else 1.0)) := by
  refine ⟨?_, ?_, ?_⟩
  · intro t
    rw [evaluate_shield]
    by_cases hheld : heldConflict t.toList = true
    · rw [if_pos ((heldConflict_iff_roads _).mp hheld), hheld]
      rfl
    · have hnone : heldConflict t.toList = false := by simpa using hheld
      rw [if_neg (mt (heldConflict_iff_roads _).mpr hheld), hnone]
      rfl
  · intro p n
    have hiff := evaluate_shield_eq_zero_iff ⟨p, List.replicate n p⟩
    rw [show Trace.toList ⟨p, List.replicate n p⟩ = List.replicate (n + 1) p from rfl, heldConflict_replicate] at hiff
    exact hiff
  · intro p
    have heval := evaluate_shield ⟨p, []⟩
    rw [show Trace.toList ⟨p, []⟩ = [p] from rfl, heldConflict_singleton] at heval
    rw [heval]
    cases p.hasConflict <;> rfl

/-- A conflict that passes from one pair to another is missed. -/
example : heldConflict [.green [.north, .east], .green [.north, .west]] = false := by decide

end RightOfWay.Traffic

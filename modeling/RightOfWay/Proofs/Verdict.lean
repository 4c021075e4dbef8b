import RightOfWay.Proofs.Accounts
import RightOfWay.Proofs.Boolean
import RightOfWay.Proofs.Tally

namespace RightOfWay.Logic

/-- The degree of a rule that is violated or not. -/
def verdict (violated : Bool) : Float := if violated then 0.0 else 1.0

theorem verdict_eq_ofBool (b : Bool) : verdict b = ofBool !b := by
  cases b <;> rfl

/-- A verdict reaches a threshold above zero and up to one iff there is no violation. -/
theorem Certificate.abides_verdict {A : Type} (c : Certificate A) (b : Bool) (threshold : Float)
    (hpos : 0.0 < threshold) (hone : threshold ≤ 1.0) (hc : c.robustness = .scalar (verdict b)) :
    c.abides threshold = !b :=
  c.abides_ofBool (!b) threshold hpos hone (by rw [hc, verdict_eq_ofBool])

end RightOfWay.Logic

namespace RightOfWay.Traffic

open Control (Live Plant Policy Rollout Settings Step Supervisor)
open Logic (Certificate Formula Spec Trace verdict)

/-- Whether a crash is observed in a trace. -/
def crashSeen (t : Trace Condition) : Bool := t.toList.any fun o => o = .crash

/-- Never a crash, over conditions of the traffic. -/
def safetySpec : Spec Condition := ⟨safety, Condition.valuation⟩

theorem holds_crash (o : Condition) :
    Logic.Valuation.holds Condition.valuation Condition.crash.name o = decide (o = .crash) := by
  cases o <;> decide +kernel

/-- The rule of safety is true of the traces without a crash. -/
theorem reading_safety (t : Trace Condition) :
    safety.reading (Logic.Valuation.holds Condition.valuation) t.toList = some (.scalar !crashSeen t) := by
  simp [safety, Formula.reading, Logic.Truth.negate, Logic.Truth.all, Logic.Truth.values, crashSeen, holds_crash,
    Function.comp_def, List.not_any_eq_all_not]

theorem certifyAll_safetySpec {A : Type} (ts : List (Trace Condition)) (a : A) (c : Certificate A)
    (h : safetySpec.certifyAll ts a = .ok c) :
    ts ≠ [] ∧ c.action = a ∧ c.robustness = .scalar (verdict (ts.any crashSeen)) := by
  obtain ⟨hne, haction, hrobust⟩ := safetySpec.certifyAll_of_reading Condition.valuation_binary
    (fun t => !crashSeen t) reading_safety ts a c h
  refine ⟨hne, haction, ?_⟩
  rw [hrobust, Logic.verdict_eq_ofBool, List.not_any_eq_all_not]

/-- The supervisor that holds a policy to the rule of safety at a crossing. -/
def safetySupervisor {K : Type} (policy : Policy K Phase) (separation : Float) (settings : Settings) :
    Supervisor Crossing K Phase View Condition where
  plant := Crossing.plant
  policy := policy
  observe := Crossing.condition separation
  spec := safetySpec
  settings := settings

/-- A crash is observed in a batch iff there was a wreck to begin with, or a crash was counted on the way. -/
theorem Crossing.Sound.crashSeen_iff {c : Crossing} {s : Setup} (h : c.Sound s) (separation : Float)
    (hpos : 0.0 < separation) (hone : separation ≤ 1.0) (p : Phase) (horizon : Nat)
    (rs : List (Rollout Condition)) (hne : rs ≠ [])
    (hchain : Crossing.plant.Chain (Crossing.condition separation) p horizon c rs) :
    (rs.map Rollout.trace).any crashSeen = true ↔
      c.HasWreck ∨ c.crashes < (Crossing.plant.orbit p c (Plant.stepsOf rs)).crashes := by
  have hobserved := hchain.observed_iff hne .crash
  have hseen (r : Rollout Condition) : crashSeen r.trace = true ↔ Condition.crash ∈ r.trace.toList := by
    simp [crashSeen]
  rw [← h.hasWreck_on_orbit p]
  simp only [List.any_map, List.any_eq_true, Function.comp_apply, hseen, hobserved]
  exact exists_congr fun j =>
    and_congr_right fun _ => ((h.orbit p j).condition_iff separation hpos hone).2.1

/-- The certificate of an action is zero iff there is a wreck to begin with or a crash is counted while the action is
sampled, and one otherwise. -/
theorem safety_certificate_iff_no_crash {K : Type} (s : Setup) (hs : s.Valid) (ms : List Crossing.Move)
    (c : Crossing) (hc : c = (Crossing.start s).run ms) (policy : Policy K Phase) (k : K)
    (settings : Settings) (separation : Float) (hpos : 0.0 < separation) (hone : separation ≤ 1.0)
    (l : Live Crossing K) (step : Step Phase View Condition)
    (hstep : (safetySupervisor policy separation settings).step ⟨c, k⟩ = (l, .ok step))
    (sampled : Crossing)
    (hsampled : sampled = (Crossing.plant.rollouts (Crossing.condition separation) step.certificate.action
      settings.horizon settings.traces c).1) :
    policy.select k = (l.policy, .ok step.certificate.action) ∧
    Crossing.plant.step step.certificate.action sampled = (l.plant, .ok step.transition) ∧
    step.certificate.robustness =
      .scalar (if c.HasWreck ∨ c.crashes < sampled.crashes then 0.0 else 1.0) ∧
    (∀ threshold : Float, 0.0 < threshold → threshold ≤ 1.0 →
      (step.certificate.abides threshold = true ↔ ¬ c.HasWreck ∧ sampled.crashes = c.crashes)) := by
  have hsound : c.Sound s := hc ▸ (Crossing.sound_start hs).run ms
  obtain ⟨a, c₁, hselect, hroll, hcert, htaken⟩ := Supervisor.step_ok _ _ _ _ hstep
  obtain ⟨hne, haction, hrobust⟩ := certifyAll_safetySpec _ a _ hcert
  obtain ⟨-, hchain, horbit⟩ := Plant.rollouts_ok _ _ _ _ _ _ _ _ hroll
  dsimp only [safetySupervisor] at hselect hroll htaken horbit
  subst haction
  -- the state that the rollouts leave behind is the one the orbit ends in
  have hend : sampled = c₁ := by rw [hsampled, hroll]
  subst hend
  have hiff : (step.rollouts.map Rollout.trace).any crashSeen = true ↔
      c.HasWreck ∨ c.crashes < sampled.crashes := by
    rw [horbit]
    exact hsound.crashSeen_iff separation hpos hone _ _ _ (by simpa using hne) hchain
  have hmono : c.crashes ≤ sampled.crashes := by
    rw [horbit]
    exact (hsound.orbit_crashes _ _).1
  refine ⟨hselect, htaken, ?_, ?_⟩
  · rw [hrobust, verdict, if_congr hiff rfl rfl]
  · intro threshold hlow hhigh
    rw [Certificate.abides_verdict _ _ threshold hlow hhigh hrobust, Bool.not_eq_true', ← Bool.not_eq_true,
      hiff, not_or]
    exact and_congr_right fun _ => by omega

/-- The moves of the pile-up without the last one, which is left to a policy. -/
def nearMiss : List Crossing.Move :=
  [.enter .north, .enter .east, .step (.green [.east]), .step (.green [.east])]

def holding (p : Phase) : Policy Unit Phase := ⟨fun k => (k, .ok p), fun _ k => k⟩

theorem safety_certificate_iff_no_crash_nearMiss :
    ∃ l step, (safetySupervisor (holding (.green [.north, .east])) crashSeparation ⟨1, 1, 1.0⟩).step
        ⟨(Crossing.start Crossing.shortRoad).run nearMiss, ()⟩ = (l, .ok step) ∧
      step.certificate.robustness = .scalar 0.0 ∧ step.certificate.abides 1.0 = false := by
  rcases hstep : (safetySupervisor (holding (.green [.north, .east])) crashSeparation ⟨1, 1, 1.0⟩).step
      ⟨(Crossing.start Crossing.shortRoad).run nearMiss, ()⟩ with ⟨l, e | step⟩
  · have hok : ((safetySupervisor (holding (.green [.north, .east])) crashSeparation ⟨1, 1, 1.0⟩).step
        ⟨(Crossing.start Crossing.shortRoad).run nearMiss, ()⟩).2.isOk = true := by decide +kernel
    rw [hstep] at hok
    cases hok
  · obtain ⟨hselect, -, hrobust, habides⟩ := safety_certificate_iff_no_crash Crossing.shortRoad
      Crossing.shortRoad_valid nearMiss _ rfl (holding (.green [.north, .east])) () ⟨1, 1, 1.0⟩ crashSeparation
      (by decide +kernel) (by decide +kernel) l step hstep _ rfl
    have haction : step.certificate.action = .green [.north, .east] :=
      (Except.ok.inj (congrArg Prod.snd hselect)).symm
    have hcrash : ((Crossing.start Crossing.shortRoad).run nearMiss).crashes <
        (Crossing.plant.rollouts (Crossing.condition crashSeparation) (.green [.north, .east]) 1 1
          ((Crossing.start Crossing.shortRoad).run nearMiss)).1.crashes := by decide +kernel
    rw [haction] at hrobust habides
    refine ⟨l, step, rfl, ?_, ?_⟩
    · rw [hrobust, if_pos (.inr hcrash)]
    · rw [← Bool.not_eq_true, habides 1.0 (by decide +kernel) (by decide +kernel)]
      rintro ⟨-, hsame⟩
      exact absurd hsame (Nat.ne_of_gt hcrash)

end RightOfWay.Traffic

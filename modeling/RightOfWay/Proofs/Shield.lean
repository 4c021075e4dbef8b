import RightOfWay.Proofs.Verdict

namespace RightOfWay.Logic.Formula

theorem readings_map {O ι : Type} (w : String → O → Bool) (os : List O) (f : ι → Formula) (g : ι → Truth)
    (h : ∀ i, reading w os (f i) = some (g i)) (is : List ι) : readings w os (is.map f) = some (is.map g) := by
  induction is with
  | nil => rfl
  | cons i is ih => simp [readings, h i, ih]

end RightOfWay.Logic.Formula

namespace RightOfWay.Control.Plant

variable {S A T O : Type}

theorem Follows.pos {p : Plant S A T} {observe : S → O} {a : A} {horizon : Nat} {s : S} {os : List O} {done : Bool}
    (h : p.Follows observe a horizon s os done) (hh : 1 ≤ horizon) : 0 < os.length := by
  by_contra hzero
  have hdone := h.early (by omega)
  obtain ⟨-, hpos, -⟩ := h.last hdone
  exact hzero hpos

end RightOfWay.Control.Plant

namespace RightOfWay.Traffic

open Control (Live Plant Policy Rollout Settings Step Supervisor)
open Logic (Certificate Formula Spec Trace Truth Valuation ofBool)

/-- Some two crossing lights are green in all of the phases. -/
def heldConflict (ps : List Phase) : Bool :=
  crossingPairs.any fun pair => ps.all fun p => p.isGreen pair.1 && p.isGreen pair.2

theorem heldConflict_iff (ps : List Phase) :
    heldConflict ps = true ↔ ∃ x, ∃ y ∈ x.crossing, ∀ p ∈ ps, p.isGreen x = true ∧ p.isGreen y = true := by
  have hcross (x y : Approach) (h : (x, y) ∈ crossingPairs) : y ∈ x.crossing := by
    cases x <;> cases y <;> simp_all [crossingPairs, Approach.crossing]
  have hpair (x y : Approach) (h : y ∈ x.crossing) : (x, y) ∈ crossingPairs ∨ (y, x) ∈ crossingPairs := by
    cases x <;> cases y <;> simp_all [crossingPairs, Approach.crossing]
  simp only [heldConflict, List.any_eq_true, List.all_eq_true, Bool.and_eq_true]
  constructor
  · rintro ⟨⟨x, y⟩, hmem, hall⟩
    exact ⟨x, y, hcross x y hmem, hall⟩
  · rintro ⟨x, y, hy, hall⟩
    rcases hpair x y hy with hmem | hmem
    · exact ⟨(x, y), hmem, hall⟩
    · exact ⟨(y, x), hmem, fun p hp => (hall p hp).symm⟩

theorem heldConflict_congr {ps qs : List Phase} (h : ∀ p, p ∈ ps ↔ p ∈ qs) : heldConflict ps = heldConflict qs := by
  rw [Bool.eq_iff_iff, heldConflict_iff, heldConflict_iff]
  simp only [h]

theorem heldConflict_singleton (p : Phase) : heldConflict [p] = p.hasConflict := by
  simp [heldConflict, crossingPairs, Phase.hasConflict, Approach.crossing, Bool.and_or_distrib_left, Bool.or_assoc]

/-- Fewer phases are easier to agree with. -/
theorem heldConflict_mono {ps qs : List Phase} (h : ∀ p ∈ qs, p ∈ ps) (hps : heldConflict ps = true) :
    heldConflict qs = true := by
  rw [heldConflict_iff] at hps ⊢
  obtain ⟨x, y, hy, hall⟩ := hps
  exact ⟨x, y, hy, fun p hp => hall p (h p hp)⟩

theorem holds_letter (a : Approach) (p : Phase) : Valuation.holds Phase.valuation a.letter p = p.isGreen a := by
  have hread : (Approach.ofText? a.letter).filter (fun b => b.letter == a.letter) = some a := by
    cases a <;> decide +kernel
  rw [Valuation.holds, Phase.valuation, hread]
  dsimp only
  generalize p.isGreen a = green
  cases green <;> decide +kernel

/-- The shield is false of a trace iff some conflict is held throughout. -/
theorem reading_shield (ps : List Phase) :
    shield.reading (Valuation.holds Phase.valuation) ps = some (.scalar !heldConflict ps) := by
  have hpair (pair : Approach × Approach) :
      ((Formula.atom pair.1.letter).and (.atom pair.2.letter)).reading (Valuation.holds Phase.valuation) ps =
        some (.scalar (ps.all fun p => p.isGreen pair.1 && p.isGreen pair.2)) := by
    have hletter (a : Approach) : Valuation.holds Phase.valuation a.letter = fun p => p.isGreen a :=
      funext (holds_letter a)
    have hboth : (ps.all (·.isGreen pair.1) && ps.all (·.isGreen pair.2)) =
        ps.all fun p => p.isGreen pair.1 && p.isGreen pair.2 := by
      rw [Bool.eq_iff_iff]
      simp [forall_and]
    simp [Formula.and, Formula.reading, Formula.readings, Truth.all, Truth.values, hletter, ← hboth]
  rw [shield, Formula.reading, Formula.reading, Formula.reading,
    Formula.readings_map _ ps _ _ hpair crossingPairs]
  simp [Truth.negate, Truth.all, Truth.any, Truth.values, heldConflict, Function.comp_def]

/-- Never green for two crossing lanes, over phases of the signal. -/
def shieldSpec : Spec Phase := ⟨shield, Phase.valuation⟩

/-- The supervisor that holds a policy to the shield at a crossing. -/
def shieldSupervisor {K : Type} (policy : Policy K Phase) (settings : Settings) :
    Supervisor Crossing K Phase View Phase where
  plant := Crossing.plant
  policy := policy
  observe c := c.signal.phase
  spec := shieldSpec
  settings := settings

namespace Crossing

theorem phase_next (p : Phase) (c : Crossing) : (plant.next p c).signal.phase = p :=
  congrArg Signal.phase (step_signal p c)

theorem phase_orbit_succ (p : Phase) (c : Crossing) (k : Nat) : (plant.orbit p c (k + 1)).signal.phase = p := by
  rw [Plant.orbit_add]
  exact phase_next p (plant.orbit p c k)

/-- What is seen in a rollout with a horizon: the phase shown before, and the action's. -/
theorem mem_rollout_iff (p : Phase) (c : Crossing) (horizon : Nat) (hh : 1 ≤ horizon) (r : Rollout Phase)
    (hfirst : r.trace.first = c.signal.phase)
    (hfol : plant.Follows (·.signal.phase) p horizon c r.trace.rest r.done) (q : Phase) :
    q ∈ r.trace.toList ↔ q ∈ [c.signal.phase, p] := by
  have hpos := hfol.pos hh
  have hrest : r.trace.rest = List.replicate r.trace.rest.length p := by
    rw [List.eq_replicate_iff]
    refine ⟨rfl, ?_⟩
    intro q' hq'
    rw [hfol.seen] at hq'
    obtain ⟨j, -, rfl⟩ := List.mem_map.mp hq'
    exact phase_orbit_succ p c j
  rw [Trace.toList, hfirst, List.mem_cons, List.mem_cons, List.mem_singleton, hrest, List.mem_replicate]
  have hne : r.trace.rest.length ≠ 0 := by omega
  simp [hne]

theorem phase_after_rollout (p : Phase) (c : Crossing) (horizon : Nat) (hh : 1 ≤ horizon) (r : Rollout Phase)
    (hfol : plant.Follows (·.signal.phase) p horizon c r.trace.rest r.done) :
    (plant.orbit p c r.trace.steps).signal.phase = p := by
  obtain ⟨n, hn⟩ := Nat.exists_eq_succ_of_ne_zero (Nat.ne_of_gt (hfol.pos hh))
  rw [Trace.steps, hn]
  exact phase_orbit_succ p c n

theorem heldConflict_later (p : Phase) (c : Crossing) (hc : c.signal.phase = p) (horizon : Nat) (hh : 1 ≤ horizon)
    (rs : List (Rollout Phase)) (hchain : plant.Chain (·.signal.phase) p horizon c rs) :
    ∀ r ∈ rs, heldConflict r.trace.toList = p.hasConflict := by
  induction hchain with
  | nil c => simp
  | cons c r rs hfirst hfol _ ih =>
    intro r' hr'
    rcases List.mem_cons.mp hr' with rfl | hr'
    · rw [← heldConflict_singleton]
      apply heldConflict_congr
      intro q
      rw [mem_rollout_iff p c horizon hh r' hfirst hfol, hc]
      simp
    · exact ih (phase_after_rollout p c horizon hh r hfol) r' hr'

/-- Whether a conflict is held throughout one of the rollouts. -/
def conflictSeen (rs : List (Rollout Phase)) : Bool := rs.any fun r => heldConflict r.trace.toList

theorem conflictSeen_cons_iff (p : Phase) (c : Crossing) (horizon : Nat) (hh : 1 ≤ horizon) (r : Rollout Phase)
    (rs : List (Rollout Phase)) (hchain : plant.Chain (·.signal.phase) p horizon c (r :: rs)) :
    conflictSeen (r :: rs) = true ↔
      heldConflict [c.signal.phase, p] = true ∨ (rs ≠ [] ∧ p.hasConflict = true) := by
  cases hchain with
  | cons c r rs hfirst hfol hrest =>
    have hlater := heldConflict_later p _ (phase_after_rollout p c horizon hh r hfol) horizon hh rs hrest
    rw [conflictSeen, List.any_cons, Bool.or_eq_true, List.any_eq_true,
      heldConflict_congr (mem_rollout_iff p c horizon hh r hfirst hfol)]
    apply or_congr_right
    constructor
    · rintro ⟨r', hr', hheld⟩
      exact ⟨List.ne_nil_of_mem hr', (hlater r' hr').symm.trans hheld⟩
    · rintro ⟨hne, hp⟩
      obtain ⟨r', hr'⟩ := List.exists_mem_of_ne_nil rs hne
      exact ⟨r', hr', (hlater r' hr').trans hp⟩

/-- Without a horizon, all rollouts see the phase shown before and no more. -/
theorem conflictSeen_of_no_horizon (p : Phase) (c : Crossing) (rs : List (Rollout Phase)) (hne : rs ≠ [])
    (hchain : plant.Chain (·.signal.phase) p 0 c rs) :
    conflictSeen rs = true ↔ c.signal.phase.hasConflict = true := by
  have hsame : ∀ r ∈ rs, r.trace.toList = [c.signal.phase] := by
    clear hne
    induction hchain with
    | nil c => simp
    | cons c r rs hfirst hfol _ ih =>
      have hrest : r.trace.rest = [] := List.eq_nil_of_length_eq_zero (Nat.le_zero.mp hfol.within)
      have hstay : plant.orbit p c r.trace.steps = c := by
        rw [Trace.steps, hrest]
        rfl
      rw [hstay] at ih
      intro r' hr'
      rcases List.mem_cons.mp hr' with rfl | hr'
      · rw [Trace.toList, hfirst, hrest]
      · exact ih r' hr'
  rw [conflictSeen, List.any_eq_true, ← heldConflict_singleton]
  constructor
  · rintro ⟨r, hr, hheld⟩
    exact hsame r hr ▸ hheld
  · intro hp
    obtain ⟨r, hr⟩ := List.exists_mem_of_ne_nil rs hne
    exact ⟨r, hr, (hsame r hr).symm ▸ hp⟩

end Crossing

/-- The certificate of a sampled action is zero iff a conflict is seen in the batch: one of the action itself if there are
two rollouts with a horizon. -/
theorem shield_robustness (settings : Settings) (c c' : Crossing) (a : Phase) (rs : List (Rollout Phase))
    (cert : Certificate Phase)
    (hroll : Crossing.plant.rollouts (·.signal.phase) a settings.horizon settings.traces c = (c', .ok rs))
    (hcert : shieldSpec.certifyAll (rs.map Rollout.trace) a = .ok cert) :
    cert.action = a ∧ ∃ conflict : Bool, cert.robustness = .scalar (ofBool !conflict) ∧
      (1 ≤ settings.horizon → 2 ≤ settings.traces → (conflict = true ↔ a.hasConflict = true)) ∧
      (1 ≤ settings.horizon → settings.traces = 1 →
        (conflict = true ↔ heldConflict [c.signal.phase, a] = true)) ∧
      (settings.horizon = 0 → (conflict = true ↔ c.signal.phase.hasConflict = true)) := by
  obtain ⟨hlen, hchain, -⟩ := Plant.rollouts_ok _ _ _ _ _ _ _ _ hroll
  obtain ⟨hne, haction, hrobust⟩ := shieldSpec.certifyAll_of_reading Phase.valuation_binary
    (fun t => !heldConflict t.toList) (fun t => reading_shield t.toList) _ a cert hcert
  have hseen : ((rs.map Rollout.trace).all fun t => !heldConflict t.toList) = !Crossing.conflictSeen rs := by
    rw [List.all_map, Crossing.conflictSeen, List.not_any_eq_all_not]
    rfl
  rw [hseen] at hrobust
  refine ⟨haction, Crossing.conflictSeen rs, hrobust, ?_, ?_, ?_⟩
  · intro hh htwo
    obtain ⟨r, r', rs, rfl⟩ : ∃ r r' rs', rs = r :: r' :: rs' := by
      match rs, hlen with
      | [], hlen => simp at hlen; omega
      | [r], hlen => simp at hlen; omega
      | r :: r' :: rs', _ => exact ⟨r, r', rs', rfl⟩
    rw [Crossing.conflictSeen_cons_iff a c _ hh r _ hchain]
    constructor
    · rintro (hheld | ⟨-, ha⟩)
      · rw [← heldConflict_singleton]
        exact heldConflict_mono (by simp) hheld
      · exact ha
    · intro ha
      exact .inr ⟨by simp, ha⟩
  · intro hh hone
    obtain ⟨r, rfl⟩ : ∃ r, rs = [r] := List.length_eq_one_iff.mp (hlen.trans hone)
    rw [Crossing.conflictSeen_cons_iff a c _ hh r [] hchain]
    simp
  · intro hzero
    rw [hzero] at hchain
    exact Crossing.conflictSeen_of_no_horizon a c rs (by simpa using hne) hchain

/-- With a horizon, a certificate from two rollouts or more is zero iff the action has a conflict, and one from a single
rollout iff two crossing lights are green both before the action and under it. -/
theorem shield_certificate_decides {K : Type} (policy : Policy K Phase) (settings : Settings) :
    (∀ (c : Crossing) (k : K) (l : Live Crossing K) (step : Step Phase View Phase),
      (shieldSupervisor policy settings).step ⟨c, k⟩ = (l, .ok step) →
      policy.select k = (l.policy, .ok step.certificate.action) ∧
      (step.certificate.robustness = .scalar 0.0 ∨ step.certificate.robustness = .scalar 1.0) ∧
      (1 ≤ settings.horizon → 2 ≤ settings.traces →
        (step.certificate.robustness = .scalar 0.0 ↔ step.certificate.action.hasConflict = true)) ∧
      (1 ≤ settings.horizon → settings.traces = 1 →
        (step.certificate.robustness = .scalar 0.0 ↔
          ∃ x, ∃ y ∈ x.crossing, ∀ p ∈ [c.signal.phase, step.certificate.action],
            p.isGreen x = true ∧ p.isGreen y = true)) ∧
      (settings.horizon = 0 →
        (step.certificate.robustness = .scalar 0.0 ↔ c.signal.phase.hasConflict = true))) ∧
    (∀ (n : Nat) (l l' : Live Crossing K) (r : Control.Report Phase Phase),
      1 ≤ settings.horizon → 2 ≤ settings.traces → 0.0 < settings.threshold → settings.threshold ≤ 1.0 →
      (shieldSupervisor policy settings).run n l = (l', .ok r) →
      r.accepted = r.certificates.countP fun cert => !cert.action.hasConflict) := by
  refine ⟨?_, ?_⟩
  · intro c k l step hstep
    obtain ⟨a, c₁, hselect, hroll, hcert, -⟩ := Supervisor.step_ok _ _ _ _ hstep
    obtain ⟨rfl, conflict, hrobust, hseveral, hsingle, hnone⟩ :=
      shield_robustness settings c c₁ a step.rollouts step.certificate hroll hcert
    have hzero : step.certificate.robustness = .scalar 0.0 ↔ conflict = true := by
      rw [hrobust]
      cases conflict with
      | true => exact iff_of_true rfl rfl
      | false => exact iff_of_false (fun h => absurd (Logic.Degree.scalar.inj h) (by decide +kernel)) (by simp)
    refine ⟨hselect, ?_, ?_, ?_, ?_⟩
    · rw [hrobust]
      exact (Logic.ofBool_eq_zero_or_one !conflict).imp (congrArg _) (congrArg _)
    · intro hh htwo
      rw [hzero, hseveral hh htwo]
    · intro hh hone
      rw [hzero, hsingle hh hone, heldConflict_iff]
    · intro hh
      rw [hzero, hnone hh]
  · intro n l l' r hh htwo hlow hhigh hrun
    obtain ⟨is, his, rfl⟩ := Supervisor.run_ok _ n l l' r hrun
    obtain ⟨hcourse, -⟩ := Supervisor.iterations_ok _ n l l' is his
    have habides : ∀ i ∈ is, i.step.certificate.abides settings.threshold =
        !i.step.certificate.action.hasConflict := by
      intro i hi
      obtain ⟨l₁, l₂, hiter⟩ := hcourse.iterates i hi
      cases hiter with
      | calls s s₁ s₂ s₃ k k₁ k₂ b a i _ _ _ hroll hcert _ =>
        obtain ⟨rfl, conflict, hrobust, hseveral, -, -⟩ :=
          shield_robustness settings s₁ s₂ a i.step.rollouts i.step.certificate hroll hcert
        rw [Certificate.abides_ofBool _ _ _ hlow hhigh hrobust, Bool.eq_iff_iff.mpr (hseveral hh htwo)]
    rw [Control.Report.ofIterations_eq]
    simp only [List.countP_map]
    apply List.countP_congr
    intro i hi
    rw [Function.comp_apply, ← habides i hi]
    rfl

/-- A crossing that shows green to the north only. -/
def northOnly : Crossing := (Crossing.start Crossing.shortRoad).run [.step (.green [.north])]

/-- Showing green to the east as well passes the shield on one rollout, fails it on two, and is never accepted then. -/
theorem shield_certificate_decides_northOnly :
    (∃ l step, (shieldSupervisor (holding (.green [.north, .east])) ⟨1, 1, 1.0⟩).step ⟨northOnly, ()⟩ = (l, .ok step) ∧
      step.certificate.robustness = .scalar 1.0) ∧
    (∃ l step, (shieldSupervisor (holding (.green [.north, .east])) ⟨2, 1, 1.0⟩).step ⟨northOnly, ()⟩ = (l, .ok step) ∧
      step.certificate.robustness = .scalar 0.0) ∧
    ∃ l r, (shieldSupervisor (holding (.green [.north, .east])) ⟨2, 1, 1.0⟩).run 2 ⟨northOnly, ()⟩ = (l, .ok r) ∧
      r.certificates.length = 2 ∧ r.accepted = 0 := by
  refine ⟨?_, ?_, ?_⟩
  · have hok : ((shieldSupervisor (holding (.green [.north, .east])) ⟨1, 1, 1.0⟩).step
        ⟨northOnly, ()⟩).2.isOk = true := by decide +kernel
    obtain ⟨l, step, hstep⟩ := exists_ok_of_isOk hok
    obtain ⟨hselect, hbinary, -, hsingle, -⟩ :=
      (shield_certificate_decides (holding (.green [.north, .east])) ⟨1, 1, 1.0⟩).1 northOnly () l step hstep
    have haction : step.certificate.action = .green [.north, .east] :=
      (Except.ok.inj (congrArg Prod.snd hselect)).symm
    refine ⟨l, step, hstep, hbinary.resolve_left ?_⟩
    rw [hsingle (by decide) rfl, haction, ← heldConflict_iff]
    decide +kernel
  · have hok : ((shieldSupervisor (holding (.green [.north, .east])) ⟨2, 1, 1.0⟩).step
        ⟨northOnly, ()⟩).2.isOk = true := by decide +kernel
    obtain ⟨l, step, hstep⟩ := exists_ok_of_isOk hok
    obtain ⟨hselect, -, hseveral, -, -⟩ :=
      (shield_certificate_decides (holding (.green [.north, .east])) ⟨2, 1, 1.0⟩).1 northOnly () l step hstep
    have haction : step.certificate.action = .green [.north, .east] :=
      (Except.ok.inj (congrArg Prod.snd hselect)).symm
    refine ⟨l, step, hstep, (hseveral (by decide) (by decide)).mpr ?_⟩
    rw [haction]
    decide +kernel
  · have hactions : ((shieldSupervisor (holding (.green [.north, .east])) ⟨2, 1, 1.0⟩).run 2
        ⟨northOnly, ()⟩).2.toOption.map (fun r => r.certificates.map (·.action.hasConflict)) = some [true, true] := by
      decide +kernel
    rcases hrun : (shieldSupervisor (holding (.green [.north, .east])) ⟨2, 1, 1.0⟩).run 2 ⟨northOnly, ()⟩
      with ⟨l, e | r⟩
    · rw [hrun] at hactions
      cases hactions
    · rw [hrun] at hactions
      have hconflicts : r.certificates.map (·.action.hasConflict) = [true, true] := Option.some.inj hactions
      have haccepted :=
        (shield_certificate_decides (holding (.green [.north, .east])) ⟨2, 1, 1.0⟩).2 2 ⟨northOnly, ()⟩ l r
          (by decide) (by decide) (by decide +kernel) (by decide +kernel) hrun
      have hlength := congrArg List.length hconflicts
      have hcount := congrArg (List.countP (!·)) hconflicts
      rw [List.length_map] at hlength
      rw [List.countP_map] at hcount
      exact ⟨l, r, rfl, hlength, haccepted.trans hcount⟩

end RightOfWay.Traffic

import RightOfWay.Proofs.Acceptance
import RightOfWay.Proofs.Repetitions
import RightOfWay.Proofs.Shield

namespace RightOfWay.Logic

variable {O : Type} {v : Valuation O}

/-- It depends on the name alone whether a proposition has a value, and why not. -/
def Valuation.Static (v : Valuation O) : Prop :=
  ∀ name, (∀ o, ∃ x, v name o = .ok x) ∨ ∃ e, ∀ o, v name o = .error e

namespace Valuation.Static

theorem offence?_eq (hv : v.Static) {os os' : List O} (hos : os ≠ []) (hos' : os' ≠ []) (p : Formula) :
    p.offence? v os = p.offence? v os' := by
  cases p with
  | atom name =>
    rcases hv name with hok | ⟨e, he⟩
    · have hnone (os : List O) : (Formula.atom name).offence? v os = none :=
        List.findSome?_eq_none_iff.mpr fun o _ => (Formula.refusal?_eq_none_iff _).mpr (hok o)
      rw [hnone, hnone]
    · -- the first observation is refused already
      obtain ⟨o, os, rfl⟩ := List.exists_cons_of_ne_nil hos
      obtain ⟨o', os', rfl⟩ := List.exists_cons_of_ne_nil hos'
      simp [Formula.offence?, he, Formula.refusal?]
  | conj ps => cases ps <;> rfl
  | disj ps => cases ps <;> rfl
  | truth => rfl
  | neg p => rfl
  | always p => rfl
  | eventually p => rfl
  | untl p q => rfl

theorem firstOffence?_eq (hv : v.Static) (p : Formula) (t t' : Trace O) :
    p.firstOffence? v t.toList = p.firstOffence? v t'.toList := by
  have hnode (q : Formula) : q.offence? v t.toList = q.offence? v t'.toList :=
    hv.offence?_eq (by simp [Trace.toList]) (by simp [Trace.toList]) q
  rw [Formula.firstOffence?, Formula.firstOffence?, funext hnode]

/-- With the propositions, all formulas can be evaluated everywhere or fail everywhere alike. -/
theorem evaluate (hv : v.Static) (p : Formula) :
    (∀ t : Trace O, ∃ d, p.evaluate v t.toList = .ok d) ∨ ∃ e, ∀ t : Trace O, p.evaluate v t.toList = .error e := by
  have hsettles (t : Trace O) := p.degree_settles v t.toList (by simp [Trace.toList])
  by_cases hfail : ∃ (t : Trace O) (e : EvalError), p.evaluate v t.toList = .error e
  · obtain ⟨t, e, he⟩ := hfail
    refine .inr ⟨e, ?_⟩
    intro t'
    have hfirst := ((hsettles t).error_iff e).mp he
    rw [hv.firstOffence?_eq p t t'] at hfirst
    exact ((hsettles t').error_iff e).mpr hfirst
  · refine .inl ?_
    intro t
    cases h : p.evaluate v t.toList with
    | ok d => exact ⟨d, rfl⟩
    | error e => exact absurd ⟨t, e, h⟩ hfail

theorem evaluate_of_ok (hv : v.Static) (p : Formula) (t : Trace O) (ht : (p.evaluate v t.toList).isOk = true)
    (t' : Trace O) : ∃ d, p.evaluate v t'.toList = .ok d := by
  rcases hv.evaluate p with hok | ⟨e, he⟩
  · exact hok t'
  · rw [he t] at ht
    cases ht

end Valuation.Static

end RightOfWay.Logic

namespace RightOfWay.Control

open Logic (EvalError Spec Trace)

variable {S K A T O : Type}

theorem Interruption.toFailure_ne_eval (i : Interruption) (e : EvalError) : i.toFailure ≠ .eval e := by
  cases i <;> exact Failure.noConfusion

theorem Failure.eval_of_inWorker {f : Failure} {e : EvalError} (h : f.inWorker = .eval e) : f = .eval e := by
  rcases f.inWorker_cases with ⟨-, hworker⟩ | ⟨-, hsame⟩
  · rw [hworker] at h
    cases h
  · rw [← hsame, h]

namespace Supervisor

/-- The error of a batch that was sampled but has no certificate. -/
def Uncertified (v : Supervisor S K A T O) (e : EvalError) : Prop :=
  ∃ a s s' rollouts, v.plant.rollouts v.observe a v.settings.horizon v.settings.traces s = (s', .ok rollouts) ∧
    v.spec.certifyAll (rollouts.map Rollout.trace) a = .error e

variable {v : Supervisor S K A T O} {e : EvalError}

-- an error of the semantics comes out of any part of a run only where a batch has no certificate

theorem uncertified_of_take {a : A} {s : S} (h : (v.take a s).2 = .error (.eval e)) : v.Uncertified e := by
  rw [take] at h
  rcases hroll : v.plant.rollouts v.observe a v.settings.horizon v.settings.traces s with ⟨s₁, i | rollouts⟩
  · rw [hroll] at h
    exact absurd (Except.error.inj h) (i.toFailure_ne_eval e)
  · rw [hroll] at h
    dsimp only at h
    cases hcert : v.spec.certifyAll (rollouts.map Rollout.trace) a with
    | error e' =>
      rw [hcert] at h
      cases h
      exact ⟨a, s, s₁, rollouts, hroll, hcert⟩
    | ok c =>
      rw [hcert] at h
      rcases hstep : v.plant.step a s₁ with ⟨s₂, i | t⟩
      · rw [hstep] at h
        exact absurd (Except.error.inj h) (i.toFailure_ne_eval e)
      · rw [hstep] at h
        cases h

theorem uncertified_of_step {l : Live S K} (h : (v.step l).2 = .error (.eval e)) : v.Uncertified e := by
  rw [step] at h
  rcases hselect : v.policy.select l.policy with ⟨k, f | a⟩
  · rw [hselect] at h
    cases h
  · rw [hselect] at h
    exact uncertified_of_take h

theorem stepWorld_ne_eval (v : Supervisor S K A T O) (l : Live S K) (e : EvalError) :
    (v.stepWorld l).2 ≠ .error (.eval e) := by
  intro h
  rw [stepWorld] at h
  rcases hselect : v.policy.select l.policy with ⟨k, f | a⟩
  · rw [hselect] at h
    cases h
  · rw [hselect] at h
    dsimp only at h
    rcases hworld : v.plant.stepWorld a l.plant with ⟨s, i | done⟩
    · rw [hworld] at h
      exact i.toFailure_ne_eval e (Except.error.inj h)
    · rw [hworld] at h
      cases h

theorem uncertified_of_iterate {l : Live S K} (h : (v.iterate l).2 = .error (.eval e)) : v.Uncertified e := by
  rw [iterate] at h
  rcases hworld : v.stepWorld l with ⟨l₁, f | done⟩
  · rw [hworld] at h
    cases h
    exact absurd (congrArg Prod.snd hworld) (v.stepWorld_ne_eval l e)
  · rw [hworld] at h
    dsimp only at h
    rcases hstep : v.step l₁ with ⟨l₂, f | step⟩
    · rw [hstep] at h
      cases h
      exact uncertified_of_step (congrArg Prod.snd hstep)
    · rw [hstep] at h
      cases h

theorem uncertified_of_iterations {n : Nat} {l : Live S K} (h : (v.iterations n l).2 = .error (.eval e)) :
    v.Uncertified e := by
  induction n generalizing l with
  | zero => cases h
  | succ n ih =>
    rw [iterations] at h
    rcases hfirst : v.iterate l with ⟨l₁, f | i⟩
    · rw [hfirst] at h
      cases h
      exact uncertified_of_iterate (congrArg Prod.snd hfirst)
    · rw [hfirst] at h
      dsimp only at h
      split at h
      · cases h
      · rcases hrest : v.iterations n l₁ with ⟨l₂, f | is⟩
        · rw [hrest] at h
          cases h
          exact ih (congrArg Prod.snd hrest)
        · rw [hrest] at h
          cases h

theorem uncertified_of_run {n : Nat} {l : Live S K} (h : (v.run n l).2 = .error (.eval e)) : v.Uncertified e := by
  rw [run] at h
  rcases hrun : v.iterations n l with ⟨l', f | is⟩
  · rw [hrun] at h
    cases h
    exact uncertified_of_iterations (congrArg Prod.snd hrun)
  · rw [hrun] at h
    cases h

theorem uncertified_of_runParallel {s : FanoutSettings} {finished : Nat → List Nat} {l : Live S K}
    (h : v.runParallel s finished l = .error (.eval e)) : v.Uncertified e := by
  rcases v.runParallel_cases s finished l with ⟨m, hmisfit⟩ | habort | heq
  · rw [hmisfit] at h
    cases h
  · rw [habort] at h
    cases h
  · rw [heq] at h
    obtain ⟨f, hf, hworker⟩ := error_of_gather (error_of_map_error h)
    obtain rfl := Failure.eval_of_inWorker hworker.symm
    obtain ⟨rep, -, hrep⟩ := List.mem_map.mp hf
    exact uncertified_of_run hrep

/-- No error of the semantics comes out of a step, a run or a fan-out, wherever they start. -/
def AlwaysEvaluates (v : Supervisor S K A T O) : Prop :=
  ∀ (l : Live S K) (e : EvalError), (v.step l).2 ≠ .error (.eval e) ∧ (∀ n, (v.run n l).2 ≠ .error (.eval e)) ∧
    ∀ s finished, v.runParallel s finished l ≠ .error (.eval e)

/-- A batch of at least one rollout is certified if the specification evaluates. -/
theorem not_uncertified (htraces : v.settings.traces ≠ 0) (heval : ∀ t, ∃ d, v.spec.evaluate t = .ok d)
    (e : EvalError) : ¬ v.Uncertified e := by
  rintro ⟨a, s, s', rs, hroll, hcert⟩
  obtain ⟨hlen, -, -⟩ := v.plant.rollouts_ok _ _ _ _ _ _ _ hroll
  have hne : rs.map Rollout.trace ≠ [] := by
    rw [Ne, List.map_eq_nil_iff, ← List.length_eq_zero_iff, hlen]
    exact htraces
  obtain ⟨c, hc⟩ := (v.spec.exists_certifyAll_iff (rs.map Rollout.trace) a).mpr ⟨hne, fun t _ => heval t⟩
  rw [hcert] at hc
  cases hc

theorem alwaysEvaluates (hcheck : v.settings.check = .ok ()) (heval : ∀ t, ∃ d, v.spec.evaluate t = .ok d) :
    v.AlwaysEvaluates := by
  have htraces : v.settings.traces ≠ 0 := by
    intro hzero
    rw [Settings.check, if_pos hzero] at hcheck
    cases hcheck
  intro l e
  have hcertified := not_uncertified htraces heval e
  refine ⟨?_, ?_, ?_⟩
  · intro hstep
    exact hcertified (uncertified_of_step hstep)
  · intro n hrun
    exact hcertified (uncertified_of_run hrun)
  · intro s finished hrun
    exact hcertified (uncertified_of_runParallel hrun)

end Supervisor

end RightOfWay.Control

namespace RightOfWay.Traffic

open Control (FanoutSettings Live Rollout Supervisor)
open Logic (EvalError Formula Spec Trace Valuation)

theorem Condition.valuation_static : Valuation.Static Condition.valuation := by
  intro name
  cases h : ofName? name with
  | none => exact .inr ⟨.unknownAtom name, fun o => by rw [valuation, h]⟩
  | some c => exact .inl fun o => ⟨if c = o then 1.0 else 0.0, by rw [valuation, h]⟩

theorem Phase.valuation_static : Valuation.Static Phase.valuation := by
  intro name
  cases h : (Approach.ofText? name).filter fun a => a.letter == name with
  | none => exact .inr ⟨.unknownAtom name, fun p => by rw [valuation, h]⟩
  | some a => exact .inl fun p => ⟨if p.isGreen a then 1.0 else 0.0, by rw [valuation, h]⟩

/-- What is observed where a rule is to be kept. -/
def Rule.Sight : Rule → Type
  | .safety => Condition
  | .shield => Phase

/-- A rule with the valuation of what is observed for it. -/
def Rule.spec : (r : Rule) → Spec r.Sight
  | .safety => ⟨Rule.safety.formula, Condition.valuation⟩
  | .shield => ⟨Rule.shield.formula, Phase.valuation⟩

theorem Rule.spec_evaluates (r : Rule) (t : Trace r.Sight) : ∃ d, r.spec.evaluate t = .ok d := by
  cases r with
  | safety => exact Condition.valuation_static.evaluate_of_ok Traffic.safety ⟨.empty, []⟩ (by decide +kernel) t
  | shield => exact Phase.valuation_static.evaluate_of_ok Traffic.shield ⟨.green [], []⟩ (by decide +kernel) t

/-- Over a valuation that refuses propositions for their names only, a formula has a degree over every trace or fails with
one error over every trace, so what has been certified once never fails. -/
theorem evaluation_errors_are_static :
    (Valuation.Static Condition.valuation ∧ Valuation.Static Phase.valuation) ∧
    (∀ {O : Type} (v : Valuation O), v.Static → ∀ p : Formula,
      (∀ t : Trace O, ∃ d, p.evaluate v t.toList = .ok d) ∨ ∃ e, ∀ t : Trace O, p.evaluate v t.toList = .error e) ∧
    (∀ {S K A T O : Type} (v : Supervisor S K A T O), v.spec.valuation.Static → v.settings.check = .ok () →
      ∀ a s s' rollouts, v.plant.rollouts v.observe a v.settings.horizon v.settings.traces s = (s', .ok rollouts) →
      ∀ c, v.spec.certifyAll (rollouts.map Rollout.trace) a = .ok c → v.AlwaysEvaluates) ∧
    (∀ {S K A T : Type} (rule : Rule) (v : Supervisor S K A T rule.Sight), v.spec = rule.spec →
      v.settings.check = .ok () → v.AlwaysEvaluates) := by
  refine ⟨⟨Condition.valuation_static, Phase.valuation_static⟩, fun v hv p => hv.evaluate p, ?_, ?_⟩
  · intro S K A T O v hv hcheck a s s' rs hroll c hcert
    refine Supervisor.alwaysEvaluates hcheck ?_
    rcases hv.evaluate v.spec.formula with hok | ⟨e, he⟩
    · exact hok
    · -- a certified batch has a trace, and that has a degree
      obtain ⟨hne, hall⟩ := (v.spec.exists_certifyAll_iff _ a).mp ⟨c, hcert⟩
      obtain ⟨t, ht⟩ := List.exists_mem_of_ne_nil _ hne
      obtain ⟨d, hd⟩ := hall t ht
      cases (he t).symm.trans hd
  · intro S K A T rule v hspec hcheck
    refine Supervisor.alwaysEvaluates hcheck ?_
    rw [hspec]
    exact rule.spec_evaluates

/-- A proposition of no condition is unknown throughout, a countdown that has certified one step is never stopped by its
specification, and neither is a policy that is held to the shield. -/
theorem evaluation_errors_are_static_countdown :
    (∀ t : Trace Condition, (Formula.atom "smoke").evaluate Condition.valuation t.toList = .error (.unknownAtom "smoke")) ∧
    Supervisor.rehearsal.AlwaysEvaluates ∧
    (shieldSupervisor (holding (.green [.north, .east])) ⟨2, 1, 1.0⟩).AlwaysEvaluates := by
  obtain ⟨⟨hcondition, -⟩, hverdict, hcertified, hrule⟩ := evaluation_errors_are_static
  refine ⟨?_, ?_, hrule .shield _ rfl (by decide +kernel)⟩
  · have hempty : (Formula.atom "smoke").evaluate Condition.valuation (Trace.mk Condition.empty []).toList =
        .error (.unknownAtom "smoke") := rfl
    rcases hverdict _ hcondition (.atom "smoke") with hok | ⟨e, he⟩
    · obtain ⟨d, hd⟩ := hok ⟨.empty, []⟩
      cases hempty.symm.trans hd
    · cases hempty.symm.trans (he ⟨.empty, []⟩)
      exact he
  · have hok : (Supervisor.rehearsal.step Supervisor.rehearsalStart).2.isOk = true := by decide +kernel
    obtain ⟨l, step, hstep⟩ := exists_ok_of_isOk hok
    obtain ⟨a, s, -, hroll, hcert, -⟩ := Supervisor.rehearsal.step_ok _ _ _ hstep
    exact hcertified Supervisor.rehearsal hcondition (by decide +kernel) a _ s _ hroll _ hcert

end RightOfWay.Traffic

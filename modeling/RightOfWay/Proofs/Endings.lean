import RightOfWay.Proofs.Accounts

namespace RightOfWay.Control

open Logic (EvalError Trace)

variable {S K A T O : Type}

namespace Plant

def stepsIn : List (Trace O) → Nat
  | [] => 0
  | t :: ts => t.steps + stepsIn ts

theorem stepsIn_map_trace (rs : List (Rollout O)) : stepsIn (rs.map Rollout.trace) = stepsOf rs := by
  induction rs with
  | nil => rfl
  | cons r rs ih => rw [List.map_cons, stepsIn, stepsOf_cons, ih]

variable {p : Plant S A T} {observe : S → O} {a : A} {horizon : Nat} {s : S}

theorem Follows.length_le {os os' : List O} {done done' : Bool} (h : p.Follows observe a horizon s os done)
    (h' : p.Follows observe a horizon s os' done') : os'.length ≤ os.length := by
  by_contra hlt
  -- the shorter one was cut short by a step that ends the episode, and the longer one has taken that step too
  have hwithin := h'.within
  have hdone := h.early (by omega)
  obtain ⟨t, hpos, ht, htdone⟩ := h.last hdone
  obtain ⟨t', ht', hlast⟩ := h'.taken (os.length - 1) (by omega)
  rw [ht] at ht'
  cases ht'
  have hend := hlast htdone
  omega

theorem Follows.unique {os os' : List O} {done done' : Bool} (h : p.Follows observe a horizon s os done)
    (h' : p.Follows observe a horizon s os' done') : os = os' := by
  have hlength : os.length = os'.length := Nat.le_antisymm (h'.length_le h) (h.length_le h')
  calc
    os = (List.range os.length).map fun j => observe (p.orbit a s (j + 1)) := h.seen
    _ = (List.range os'.length).map fun j => observe (p.orbit a s (j + 1)) := by rw [hlength]
    _ = os' := h'.seen.symm

theorem Chain.traces_take {rs rs' : List (Rollout O)} (h : p.Chain observe a horizon s rs)
    (h' : p.Chain observe a horizon s rs') (hle : rs.length ≤ rs'.length) :
    (rs'.take rs.length).map Rollout.trace = rs.map Rollout.trace := by
  induction h generalizing rs' with
  | nil s => simp
  | cons s r rs hfirst hfol _ ih =>
    cases h' with
    | nil => simp at hle
    | cons _ r' rs' hfirst' hfol' hchain' =>
      have hrest : r'.trace.rest = r.trace.rest := hfol'.unique hfol
      have htrace : r'.trace = r.trace := by
        rcases hr : r.trace with ⟨o, os⟩
        rcases hr' : r'.trace with ⟨o', os'⟩
        simp_all
      rw [Trace.steps, hrest] at hchain'
      rw [List.length_cons, List.take_succ_cons, List.map_cons, List.map_cons, htrace,
        ih hchain' (by simpa using hle)]

end Plant

namespace Supervisor

/-- The traces of a full batch of an action. -/
def Sampled (v : Supervisor S K A T O) (a : A) (s : S) (ts : List (Trace O)) : Prop :=
  ∃ rs, v.plant.Chain v.observe a v.settings.horizon s rs ∧ rs.length = v.settings.traces ∧
    rs.map Rollout.trace = ts

/-- The step number `n` of the orbit is one that the supervisor takes: while it samples, or with a certificate of the
batch at hand. -/
def Takes (v : Supervisor S K A T O) (a : A) (s : S) (n : Nat) : Prop :=
  v.plant.Samples v.observe a v.settings.horizon v.settings.traces s n ∨
    ∃ ts c, v.Sampled a s ts ∧ v.spec.certifyAll ts a = .ok c ∧ n = Plant.stepsIn ts

/-- The ways in which a step ends. -/
inductive Ending (T A O : Type) where
  | refused (f : Fault)
  | broken (a : A) (n : Nat) (i : Interruption)
  | uncertified (a : A) (ts : List (Trace O)) (e : EvalError)
  | reported (a : A) (r : StepReport T A O)

/-- When a step ends in a certain way, and what it then leaves behind. -/
inductive Ends (v : Supervisor S K A T O) (l : Live S K) :
    Ending T A O → Live S K → Except Failure (StepReport T A O) → Prop where
  | refused (k : K) (f : Fault) : v.policy.select l.policy = (k, .error f) →
      Ends v l (.refused f) ⟨l.plant, k⟩ (.error (.fault f))
  | broken (k : K) (a : A) (n : Nat) (i : Interruption) (s : S) : v.policy.select l.policy = (k, .ok a) →
      v.plant.FailsFirst a l.plant n s i → v.Takes a l.plant n →
      Ends v l (.broken a n i) ⟨s, k⟩ (.error i.toFailure)
  | uncertified (k : K) (a : A) (ts : List (Trace O)) (e : EvalError) : v.policy.select l.policy = (k, .ok a) →
      v.Sampled a l.plant ts → v.spec.certifyAll ts a = .error e →
      Ends v l (.uncertified a ts e) ⟨v.plant.orbit a l.plant (Plant.stepsIn ts), k⟩ (.error (.eval e))
  | reported (k : K) (a : A) (r : StepReport T A O) : v.policy.select l.policy = (k, .ok a) →
      v.Sampled a l.plant r.traces → v.spec.certifyAll r.traces a = .ok r.certificate → r.certificate.action = a →
      v.plant.outcome a l.plant (Plant.stepsIn r.traces) = .ok ⟨r.next, r.reward, r.done, r.info⟩ →
      Ends v l (.reported a r) ⟨v.plant.orbit a l.plant (Plant.stepsIn r.traces + 1), k⟩ (.ok r)

variable {v : Supervisor S K A T O} {a : A} {s : S}

theorem Sampled.unique {ts ts' : List (Trace O)} (h : v.Sampled a s ts) (h' : v.Sampled a s ts') : ts = ts' := by
  obtain ⟨rs, hchain, hlen, rfl⟩ := h
  obtain ⟨rs', hchain', hlen', rfl⟩ := h'
  have htake := hchain.traces_take hchain' (by omega)
  rw [List.take_of_length_le (by omega)] at htake
  exact htake.symm

theorem Sampled.taken {ts : List (Trace O)} (h : v.Sampled a s ts) {n : Nat} (hn : n < Plant.stepsIn ts) :
    ∃ t, v.plant.outcome a s n = .ok t := by
  obtain ⟨rs, hchain, -, rfl⟩ := h
  rw [Plant.stepsIn_map_trace] at hn
  exact hchain.taken n hn

/-- Where a batch can be completed, no step of it fails. -/
theorem Sampled.not_samples {ts : List (Trace O)} (h : v.Sampled a s ts) {n : Nat} {i : Interruption}
    (hfail : v.plant.outcome a s n = .error i) :
    ¬ v.plant.Samples v.observe a v.settings.horizon v.settings.traces s n := by
  rintro ⟨rs, m, hpart, hshort, hm, rfl, hgoes⟩
  obtain ⟨rs', hchain, hlen, -⟩ := h
  have htake := hpart.traces_take hchain (by omega)
  have hsteps : Plant.stepsOf (rs'.take rs.length) = Plant.stepsOf rs := by
    rw [← Plant.stepsIn_map_trace, htake, Plant.stepsIn_map_trace]
  -- the rollout that the step belongs to is complete in the batch
  obtain ⟨r, hr⟩ : ∃ r, rs'[rs.length]? = some r := by
    rw [List.getElem?_eq_getElem (by omega)]
    exact ⟨_, rfl⟩
  have hfol := (hchain.get rs.length r hr).2
  rw [hsteps] at hfol
  have hover : r.trace.rest.length ≤ m := by
    by_contra hlt
    obtain ⟨t, ht, -⟩ := hfol.taken m (by omega)
    rw [← Plant.outcome_add, hfail] at ht
    cases ht
  obtain ⟨t, hpos, ht, htdone⟩ := hfol.last (hfol.early (by omega))
  obtain ⟨t', ht', hgoesOn⟩ := hgoes (r.trace.rest.length - 1) (by omega)
  rw [Plant.outcome_add, ht] at ht'
  cases ht'
  rw [htdone] at hgoesOn
  cases hgoesOn

theorem Sampled.stepsIn_of_takes {ts : List (Trace O)} (h : v.Sampled a s ts) {n : Nat} {i : Interruption}
    (hfail : v.plant.outcome a s n = .error i) (htakes : v.Takes a s n) :
    n = Plant.stepsIn ts ∧ ∃ c, v.spec.certifyAll ts a = .ok c := by
  rcases htakes with hsamples | ⟨ts', c, hts', hc, hn⟩
  · exact absurd hsamples (h.not_samples hfail)
  · obtain rfl := h.unique hts'
    exact ⟨hn, c, hc⟩

section

variable {k : K} {l l' l'' : Live S K} {ending ending' : Ending T A O} {result result' : Except Failure (StepReport T A O)}

theorem Ends.eq_uncertified {ts : List (Trace O)} {e : EvalError} (h : v.Ends l ending l' result)
    (hselect : v.policy.select l.policy = (k, .ok a)) (hsampled : v.Sampled a l.plant ts)
    (hcert : v.spec.certifyAll ts a = .error e) : ending = .uncertified a ts e := by
  cases h with
  | refused k' f hselect' => cases hselect.symm.trans hselect'
  | broken k' a' n i s hselect' hfail htakes =>
    cases hselect.symm.trans hselect'
    obtain ⟨-, c, hc⟩ := hsampled.stepsIn_of_takes hfail.2.1 htakes
    cases hc.symm.trans hcert
  | uncertified k' a' ts' e' hselect' hsampled' hcert' =>
    cases hselect.symm.trans hselect'
    obtain rfl := hsampled.unique hsampled'
    cases hcert.symm.trans hcert'
    rfl
  | reported k' a' r hselect' hsampled' hcert' =>
    cases hselect.symm.trans hselect'
    obtain rfl := hsampled.unique hsampled'
    cases hcert.symm.trans hcert'

theorem Ends.eq_reported {r : StepReport T A O} (h : v.Ends l ending l' result)
    (hselect : v.policy.select l.policy = (k, .ok a)) (hsampled : v.Sampled a l.plant r.traces)
    (hcert : v.spec.certifyAll r.traces a = .ok r.certificate)
    (houtcome : v.plant.outcome a l.plant (Plant.stepsIn r.traces) = .ok ⟨r.next, r.reward, r.done, r.info⟩) :
    ending = .reported a r := by
  cases h with
  | refused k' f hselect' => cases hselect.symm.trans hselect'
  | broken k' a' n i s hselect' hfail htakes =>
    cases hselect.symm.trans hselect'
    obtain ⟨rfl, -⟩ := hsampled.stepsIn_of_takes hfail.2.1 htakes
    cases hfail.2.1.symm.trans houtcome
  | uncertified k' a' ts e hselect' hsampled' hcert' =>
    cases hselect.symm.trans hselect'
    obtain rfl := hsampled.unique hsampled'
    cases hcert.symm.trans hcert'
  | reported k' a' r' hselect' hsampled' hcert' _ houtcome' =>
    cases hselect.symm.trans hselect'
    obtain ⟨next, reward, done, info, c, ts⟩ := r
    obtain ⟨next', reward', done', info', c', ts'⟩ := r'
    obtain rfl : ts = ts' := hsampled.unique hsampled'
    cases hcert.symm.trans hcert'
    cases houtcome.symm.trans houtcome'
    rfl

theorem Ends.ne_aborted (h : v.Ends l ending l' result)
    (hplant : ∀ a n, v.plant.outcome a l.plant n ≠ .error .aborted) : result ≠ .error .aborted := by
  intro hresult
  cases h with
  | refused | uncertified | reported => cases hresult
  | broken k a n i s _ hfail =>
    cases i with
    | fault f => cases hresult
    | aborted => exact hplant a n hfail.2.1

theorem Ends.unique (h : v.Ends l ending l' result) (h' : v.Ends l ending' l'' result') : ending = ending' := by
  cases h' with
  | refused k f hselect =>
    cases h with
    | refused k' f' hselect' =>
      cases hselect.symm.trans hselect'
      rfl
    | broken k' a n i s hselect' | uncertified k' a ts e hselect' | reported k' a r hselect' =>
      cases hselect.symm.trans hselect'
  | broken k a n i s hselect hfail htakes =>
    cases h with
    | refused k' f hselect' => cases hselect.symm.trans hselect'
    | broken k' a' n' i' s' hselect' hfail' =>
      cases hselect.symm.trans hselect'
      obtain ⟨rfl, -, rfl⟩ := v.plant.failsFirst_unique a l.plant n n' s s' i i' hfail hfail'
      rfl
    | uncertified k' a' ts e hselect' hsampled hcert =>
      exact (Ends.eq_uncertified (.broken k a n i s hselect hfail htakes) hselect' hsampled hcert).symm
    | reported k' a' r hselect' hsampled hcert _ houtcome =>
      exact (Ends.eq_reported (.broken k a n i s hselect hfail htakes) hselect' hsampled hcert houtcome).symm
  | uncertified k a ts e hselect hsampled hcert => exact h.eq_uncertified hselect hsampled hcert
  | reported k a r hselect hsampled hcert _ houtcome => exact h.eq_reported hselect hsampled hcert houtcome

end

theorem step_of_refusal (v : Supervisor S K A T O) (l : Live S K) {k : K} {f : Fault}
    (h : v.policy.select l.policy = (k, .error f)) : v.step l = (⟨l.plant, k⟩, .error (.fault f)) := by
  rw [step, h]

theorem step_of_selection (v : Supervisor S K A T O) (l : Live S K) {k : K} {a : A}
    (h : v.policy.select l.policy = (k, .ok a)) :
    v.step l = (⟨(v.take a l.plant).1, k⟩, (v.take a l.plant).2) := by
  rw [step, h]

/-- A batch for which there is no room is not begun. -/
theorem take_of_no_room (v : Supervisor S K A T O) (a : A) (s : S) (h : batchLimit < v.settings.traces) :
    v.take a s = (s, .error .aborted) := by
  rw [take, Plant.rollouts, if_pos h]
  rfl

theorem step_ends (v : Supervisor S K A T O) (l : Live S K) (hroom : v.settings.traces ≤ batchLimit) :
    ∃ ending, v.Ends l ending (v.step l).1 ((v.step l).2.map Step.report) := by
  rcases hselect : v.policy.select l.policy with ⟨k, f | a⟩
  · rw [v.step_of_refusal l hselect]
    exact ⟨.refused f, .refused k f hselect⟩
  rw [v.step_of_selection l hselect]
  rcases hroll : v.plant.rollouts v.observe a v.settings.horizon v.settings.traces l.plant with ⟨s, i | rs⟩
  · have htake : v.take a l.plant = (s, .error i.toFailure) := by rw [take, hroll]
    rw [htake]
    rcases v.plant.rollouts_breaks _ _ _ _ _ _ _ hroll with ⟨hbig, -⟩ | ⟨n, hfail, hsamples⟩
    · omega
    · exact ⟨.broken a n i, .broken k a n i s hselect hfail (.inl hsamples)⟩
  obtain ⟨hlen, hchain, hs⟩ := v.plant.rollouts_ok _ _ _ _ _ _ _ hroll
  have hsampled : v.Sampled a l.plant (rs.map Rollout.trace) := ⟨rs, hchain, hlen, rfl⟩
  have hsteps : Plant.stepsIn (rs.map Rollout.trace) = Plant.stepsOf rs := Plant.stepsIn_map_trace rs
  rw [← hsteps] at hs
  rcases hcert : v.spec.certifyAll (rs.map Rollout.trace) a with e | c
  · have htake : v.take a l.plant = (s, .error (.eval e)) := by rw [take, hroll]; simp only [hcert]
    rw [htake, hs]
    exact ⟨.uncertified a _ e, .uncertified k a _ e hselect hsampled hcert⟩
  have hnext : v.plant.orbit a l.plant (Plant.stepsIn (rs.map Rollout.trace) + 1) = (v.plant.step a s).1 := by
    rw [Plant.orbit_add, ← hs]
    rfl
  have houtcome : v.plant.outcome a l.plant (Plant.stepsIn (rs.map Rollout.trace)) = (v.plant.step a s).2 := by
    rw [Plant.outcome, ← hs]
  rcases hstep : v.plant.step a s with ⟨s', i | t⟩
  · have htake : v.take a l.plant = (s', .error i.toFailure) := by rw [take, hroll]; simp only [hcert, hstep]
    rw [hstep] at hnext houtcome
    rw [htake]
    have hfail : v.plant.FailsFirst a l.plant (Plant.stepsIn (rs.map Rollout.trace)) s' i :=
      ⟨fun j hj => hsampled.taken hj, houtcome, hnext.symm⟩
    exact ⟨.broken a _ i, .broken k a _ i s' hselect hfail (.inr ⟨_, c, hsampled, hcert, rfl⟩)⟩
  · have htake : v.take a l.plant = (s', .ok ⟨rs, c, t⟩) := by rw [take, hroll]; simp only [hcert, hstep]
    rw [hstep] at hnext houtcome
    rw [htake, ← show _ = s' from hnext]
    have haction := (v.spec.certifyAll_ok _ a c hcert).2.1
    exact ⟨.reported a _, .reported k a (Step.report ⟨rs, c, t⟩) hselect hsampled hcert haction houtcome⟩

/-- As long as there is room for the batch, a step ends in exactly one of four ways, each with what it leaves behind: the
policy refuses, the plant fails, there is no certificate, or there is a report. -/
theorem step_ends_in_one_way (v : Supervisor S K A T O) (l : Live S K) :
    (v.settings.traces ≤ batchLimit →
      ∃! ending, v.Ends l ending (v.step l).1 ((v.step l).2.map Step.report)) ∧
    (batchLimit < v.settings.traces →
      (∀ k f, v.policy.select l.policy = (k, .error f) → v.step l = (⟨l.plant, k⟩, .error (.fault f))) ∧
      ∀ k a, v.policy.select l.policy = (k, .ok a) → v.step l = (⟨l.plant, k⟩, .error .aborted)) := by
  refine ⟨?_, ?_⟩
  · intro hroom
    obtain ⟨ending, hends⟩ := v.step_ends l hroom
    exact ⟨ending, hends, fun ending' hends' => hends'.unique hends⟩
  · intro hbig
    refine ⟨fun k f hselect => v.step_of_refusal l hselect, ?_⟩
    intro k a hselect
    rw [v.step_of_selection l hselect, v.take_of_no_room a l.plant hbig]

/-- A countdown under the rule of safety, with a batch of a given size. -/
def sortie (traces : Nat) : Supervisor Bench.Countdown Bench.Steady Int32 Nat Traffic.Condition where
  plant := Bench.Countdown.plant
  policy := Bench.Steady.policy
  observe := rehearsal.observe
  spec := rehearsal.spec
  settings := ⟨traces, 1, 1.0⟩

/-- The plant fails in a chosen step. -/
def sortieStart (failAt : Nat) : Live Bench.Countdown Bench.Steady :=
  ⟨{ remaining := 10, failAt := some failAt }, { action := 1 }⟩

/-- Two rollouts of one step each succeed, the step that takes the action fails, and it is the third one that the plant
has taken. -/
theorem step_ends_in_one_way_sortie :
    (∃! ending, (sortie 2).Ends (sortieStart 3) ending ((sortie 2).step (sortieStart 3)).1
      (((sortie 2).step (sortieStart 3)).2.map Step.report)) ∧
    ((sortie 2).step (sortieStart 3)).1.plant.taken = 3 ∧ ((sortie 2).step (sortieStart 3)).1.policy.calls = 1 ∧
    ((sortie 2).step (sortieStart 3)).2.isOk = false ∧
    (sortie (UInt64.size - 1)).step (sortieStart 1) = (⟨(sortieStart 1).plant, ⟨1, false, 1⟩⟩, .error .aborted) :=
  ⟨(step_ends_in_one_way (sortie 2) (sortieStart 3)).1 (by decide), by decide +kernel, by decide +kernel,
    by decide +kernel,
    ((step_ends_in_one_way (sortie (UInt64.size - 1)) (sortieStart 1)).2 (by decide)).2 _ 1 rfl⟩

theorem countdown_outcome_ne_aborted (a : Int32) (c : Bench.Countdown) (n : Nat) :
    Bench.Countdown.plant.outcome a c n ≠ .error .aborted := by
  rw [Plant.outcome]
  change (Bench.Countdown.step a _).2 ≠ _
  unfold Bench.Countdown.step
  dsimp only
  split <;> simp

/-- A batch can be too large for a step to end in one of the four ways: the plant fails in its first step, and the batch
is broken off before that. -/
theorem overfull_sortie_ends_in_no_way :
    (sortie (UInt64.size - 1)).settings.check = .ok () ∧
    (sortie (UInt64.size - 1)).plant.outcome 1 (sortieStart 1).plant 0 = .error (.fault (.step "injected at step 1")) ∧
    ¬ ∃ ending, (sortie (UInt64.size - 1)).Ends (sortieStart 1) ending ((sortie (UInt64.size - 1)).step (sortieStart 1)).1
      (((sortie (UInt64.size - 1)).step (sortieStart 1)).2.map Step.report) := by
  refine ⟨by decide +kernel, rfl, ?_⟩
  rintro ⟨ending, hends⟩
  have hselect : (sortie (UInt64.size - 1)).policy.select (sortieStart 1).policy = (⟨1, false, 1⟩, .ok 1) := rfl
  refine hends.ne_aborted (fun a n => countdown_outcome_ne_aborted a _ n) ?_
  rw [step_of_selection _ _ hselect, take_of_no_room _ _ _ (by decide)]
  rfl

end Supervisor

end RightOfWay.Control

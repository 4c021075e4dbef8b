import RightOfWay.Bench.Countdown
import RightOfWay.Bench.Script
import RightOfWay.Proofs.Orbit
import RightOfWay.Traffic.Rule

namespace RightOfWay.Control

open Logic (Certificate Degree Trace)

variable {S K A T O : Type}

namespace Supervisor

/-- A step that succeeds has selected an action, sampled and certified it, and taken it from where the
rollouts ended. -/
theorem step_ok (v : Supervisor S K A T O) (l l' : Live S K) (step : Step A T O)
    (h : v.step l = (l', .ok step)) :
    ∃ a s,
      v.policy.select l.policy = (l'.policy, .ok a) ∧
      v.plant.rollouts v.observe a v.settings.horizon v.settings.traces l.plant = (s, .ok step.rollouts) ∧
      v.spec.certifyAll (step.rollouts.map Rollout.trace) a = .ok step.certificate ∧
      v.plant.step a s = (l'.plant, .ok step.transition) := by
  rw [Supervisor.step] at h
  rcases hselect : v.policy.select l.policy with ⟨k, f | a⟩
  · rw [hselect] at h
    cases h
  · rw [hselect] at h
    dsimp only [take] at h
    rcases hroll : v.plant.rollouts v.observe a v.settings.horizon v.settings.traces l.plant with ⟨s, i | rs⟩
    · rw [hroll] at h
      cases h
    · rw [hroll] at h
      dsimp only at h
      rcases hcert : v.spec.certifyAll (rs.map Rollout.trace) a with e | c
      · rw [hcert] at h
        cases h
      · rw [hcert] at h
        dsimp only at h
        rcases hstep : v.plant.step a s with ⟨s', i | t⟩
        · rw [hstep] at h
          cases h
        · rw [hstep] at h
          cases h
          exact ⟨a, s, rfl, hroll, hcert, hstep⟩

theorem stepWorld_ok (v : Supervisor S K A T O) (l l' : Live S K) (done : Bool)
    (h : v.stepWorld l = (l', .ok done)) :
    ∃ a, v.policy.select l.policy = (l'.policy, .ok a) ∧ v.plant.stepWorld a l.plant = (l'.plant, .ok done) := by
  rw [Supervisor.stepWorld] at h
  rcases hselect : v.policy.select l.policy with ⟨k, f | a⟩
  · rw [hselect] at h
    cases h
  · rw [hselect] at h
    dsimp only at h
    rcases hworld : v.plant.stepWorld a l.plant with ⟨s, i | d⟩
    · rw [hworld] at h
      cases h
    · rw [hworld] at h
      cases h
      exact ⟨a, rfl, hworld⟩

/-- An iteration that succeeds, call by call. -/
inductive Iterates (v : Supervisor S K A T O) : Live S K → Iteration A T O → Live S K → Prop where
  | calls (s s₁ s₂ s₃ : S) (k k₁ k₂ : K) (b a : A) (i : Iteration A T O) :
      v.policy.select k = (k₁, .ok b) →
      v.plant.stepWorld b s = (s₁, .ok i.worldDone) →
      v.policy.select k₁ = (k₂, .ok a) →
      v.plant.rollouts v.observe a v.settings.horizon v.settings.traces s₁ = (s₂, .ok i.step.rollouts) →
      v.spec.certifyAll i.step.traces a = .ok i.step.certificate →
      v.plant.step a s₂ = (s₃, .ok i.step.transition) →
      Iterates v ⟨s, k⟩ i ⟨v.plant.render s₃, k₂⟩

/-- Iterations that follow each other from one state of a run to another. -/
inductive Course (v : Supervisor S K A T O) : Live S K → List (Iteration A T O) → Live S K → Prop where
  | nil (l : Live S K) : Course v l [] l
  | cons (l l₁ l₂ : Live S K) (i : Iteration A T O) (is : List (Iteration A T O)) :
      v.Iterates l i l₁ → Course v l₁ is l₂ → Course v l (i :: is) l₂

theorem iterate_ok (v : Supervisor S K A T O) (l l' : Live S K) (i : Iteration A T O)
    (h : v.iterate l = (l', .ok i)) : v.Iterates l i l' := by
  rw [iterate] at h
  rcases hworld : v.stepWorld l with ⟨l₁, e | done⟩
  · rw [hworld] at h
    cases h
  · rw [hworld] at h
    dsimp only at h
    rcases hstep : v.step l₁ with ⟨l₂, e | step⟩
    · rw [hstep] at h
      cases h
    · rw [hstep] at h
      cases h
      obtain ⟨b, hfirst, hdone⟩ := v.stepWorld_ok l l₁ done hworld
      obtain ⟨a, s, hsecond, hroll, hcert, htaken⟩ := v.step_ok l₁ l₂ step hstep
      exact .calls l.plant l₁.plant s l₂.plant l.policy l₁.policy l₂.policy b a ⟨step, done⟩ hfirst hdone hsecond
        hroll hcert htaken

/-- Up to `n` iterations, of which only the last may end the world's episode; with fewer than `n` it does. -/
structure Stops (n : Nat) (is : List (Iteration A T O)) : Prop where
  within : is.length ≤ n
  early : is.length < n → ∃ i, is.getLast? = some i ∧ i.worldDone = true
  goesOn : ∀ j i, is[j]? = some i → j + 1 < is.length → i.worldDone = false

theorem Stops.cons {n : Nat} {is : List (Iteration A T O)} (h : Stops n is) (i : Iteration A T O)
    (hi : i.worldDone = false) : Stops (n + 1) (i :: is) := by
  refine ⟨by simpa using h.within, ?_, ?_⟩
  · intro hlt
    obtain ⟨last, hlast, hdone⟩ := h.early (by simpa using hlt)
    refine ⟨last, ?_, hdone⟩
    rw [List.getLast?_cons, hlast]
    rfl
  · intro j i' hj hlt
    cases j with
    | zero =>
      cases hj
      exact hi
    | succ j => exact h.goesOn j i' (by simpa using hj) (by simpa using hlt)

theorem iterations_ok (v : Supervisor S K A T O) (n : Nat) (l l' : Live S K) (is : List (Iteration A T O))
    (h : v.iterations n l = (l', .ok is)) : v.Course l is l' ∧ Stops n is := by
  induction n generalizing l is with
  | zero =>
    cases h
    exact ⟨.nil l', by simp, by simp, by simp⟩
  | succ n ih =>
    rw [iterations] at h
    rcases hfirst : v.iterate l with ⟨l₁, e | i⟩
    · rw [hfirst] at h
      cases h
    · rw [hfirst] at h
      have hi := v.iterate_ok l l₁ i hfirst
      dsimp only at h
      by_cases hdone : i.worldDone = true
      · rw [if_pos hdone] at h
        cases h
        exact ⟨.cons l l' l' i [] hi (.nil l'), by simp, fun _ => ⟨i, rfl, hdone⟩, by simp⟩
      · rw [if_neg hdone] at h
        rcases hrest : v.iterations n l₁ with ⟨l₂, e | rest⟩
        · rw [hrest] at h
          cases h
        · rw [hrest] at h
          cases h
          obtain ⟨hcourse, hstops⟩ := ih l₁ rest hrest
          exact ⟨.cons l l₁ l' i rest hi hcourse, hstops.cons i (by simpa using hdone)⟩

theorem run_ok (v : Supervisor S K A T O) (n : Nat) (l l' : Live S K) (r : Report A O)
    (h : v.run n l = (l', .ok r)) :
    ∃ is, v.iterations n l = (l', .ok is) ∧ r = Report.ofIterations v.settings.threshold is := by
  rw [run] at h
  rcases his : v.iterations n l with ⟨l₁, e | is⟩
  · rw [his] at h
    cases h
  · rw [his] at h
    cases h
    exact ⟨is, rfl, rfl⟩

namespace Course

variable {v : Supervisor S K A T O} {l l' : Live S K} {is : List (Iteration A T O)}

/-- The iteration number `j` starts where those before it end. -/
theorem get (h : v.Course l is l') (j : Nat) (i : Iteration A T O) (hi : is[j]? = some i) :
    ∃ l₁ l₂, v.Course l (is.take j) l₁ ∧ v.Iterates l₁ i l₂ := by
  induction h generalizing j with
  | nil l => simp at hi
  | cons l l₁ l₂ i' is hfirst _ ih =>
    cases j with
    | zero =>
      cases hi
      exact ⟨l, l₁, .nil l, hfirst⟩
    | succ j =>
      obtain ⟨l₃, l₄, hbefore, hiter⟩ := ih j (by simpa using hi)
      exact ⟨l₃, l₄, .cons l l₁ l₃ i' (is.take j) hfirst hbefore, hiter⟩

theorem iterates (h : v.Course l is l') (i : Iteration A T O) (hi : i ∈ is) : ∃ l₁ l₂, v.Iterates l₁ i l₂ := by
  obtain ⟨j, hj⟩ := List.mem_iff_getElem?.mp hi
  obtain ⟨l₁, l₂, -, hiter⟩ := h.get j i hj
  exact ⟨l₁, l₂, hiter⟩

theorem traces_length (h : v.Course l is l') (i : Iteration A T O) (hi : i ∈ is) :
    i.step.traces.length = v.settings.traces := by
  obtain ⟨l₁, l₂, hiter⟩ := h.iterates i hi
  cases hiter with
  | calls s s₁ s₂ s₃ k k₁ k₂ b a i _ _ _ hroll _ _ =>
    have hlen := (Plant.rollouts_ok _ _ _ _ _ _ _ _ hroll).1
    simp [Step.traces, hlen]

/-- A counter that each selection raises by one has been raised twice by each iteration. -/
theorem asked (h : v.Course l is l') (count : K → Nat)
    (hselect : ∀ k, count (v.policy.select k).1 = count k + 1) :
    count l'.policy = count l.policy + 2 * is.length := by
  induction h with
  | nil l => rfl
  | cons l l₁ l₂ i is hfirst _ ih =>
    cases hfirst with
    | calls s s₁ s₂ s₃ k k₁ k₂ b a i hb _ ha _ _ _ =>
      have hone := hselect k
      have htwo := hselect k₁
      rw [hb] at hone
      rw [ha] at htwo
      rw [ih, List.length_cons]
      dsimp only at hone htwo ⊢
      omega

/-- A counter that only `render` raises has been raised once by each iteration. -/
theorem shown (h : v.Course l is l') (count : S → Nat) (hrender : ∀ s, count (v.plant.render s) = count s + 1)
    (hstep : ∀ a s, count (v.plant.step a s).1 = count s)
    (hworld : ∀ a s, count (v.plant.stepWorld a s).1 = count s) :
    count l'.plant = count l.plant + is.length := by
  have horbit (a : A) (s : S) (k : Nat) : count (v.plant.orbit a s k) = count s := by
    induction k generalizing s with
    | zero => rfl
    | succ k ih => rw [Plant.orbit_succ, ih, Plant.next, hstep]
  induction h with
  | nil l => rfl
  | cons l l₁ l₂ i is hfirst _ ih =>
    cases hfirst with
    | calls s s₁ s₂ s₃ k k₁ k₂ b a i _ hdone _ hroll _ htaken =>
      have h₁ := hworld b s
      have h₂ := horbit a s₁ (Plant.stepsOf i.step.rollouts)
      have h₃ := hstep a s₂
      rw [hdone] at h₁
      rw [← (Plant.rollouts_ok _ _ _ _ _ _ _ _ hroll).2.2] at h₂
      rw [htaken] at h₃
      rw [ih, List.length_cons]
      dsimp only at h₁ h₃ ⊢
      rw [hrender]
      omega

end Course

end Supervisor

/-- Pieces of one length, put together, are found again by their place. -/
theorem take_drop_flatMap {α β : Type} (f : α → List β) (n : Nat) (as : List α) (hf : ∀ a ∈ as, (f a).length = n)
    (j : Nat) (a : α) (ha : as[j]? = some a) : ((as.flatMap f).drop (j * n)).take n = f a := by
  induction as generalizing j with
  | nil => simp at ha
  | cons b bs ih =>
    have hb := hf b List.mem_cons_self
    have hbs : ∀ a ∈ bs, (f a).length = n := fun a ha => hf a (List.mem_cons_of_mem b ha)
    rw [List.flatMap_cons]
    cases j with
    | zero =>
      cases ha
      rw [Nat.zero_mul, List.drop_zero, ← hb, List.take_left]
    | succ j =>
      have hskip : (j + 1) * n = (f b).length + j * n := by rw [hb, Nat.succ_mul, Nat.add_comm]
      rw [hskip, List.drop_length_add_append]
      exact ih hbs j (by simpa using ha)

theorem length_flatMap_of_length {α β : Type} (f : α → List β) (n : Nat) (as : List α)
    (hf : ∀ a ∈ as, (f a).length = n) : (as.flatMap f).length = as.length * n := by
  have hlengths : as.map (fun a => (f a).length) = List.replicate as.length n :=
    List.map_eq_replicate_iff.mpr hf
  rw [List.length_flatMap, hlengths, List.sum_replicate_nat]

namespace Report

/-- Iterations that are entered one after the other, all at once. -/
theorem foldl_enter (threshold : Float) (is : List (Iteration A T O)) (r : Report A O) :
    is.foldl (enter threshold) r =
      ⟨r.certificates ++ is.map (·.step.certificate), r.traces ++ is.flatMap (·.step.traces),
        r.accepted + is.countP (·.step.certificate.abides threshold),
        is.foldl (fun sum i => sum + i.step.transition.reward) r.totalReward⟩ := by
  induction is generalizing r with
  | nil => simp
  | cons i is ih =>
    have haccepted : (enter threshold r i).accepted + is.countP (·.step.certificate.abides threshold) =
        r.accepted + (i :: is).countP (·.step.certificate.abides threshold) := by
      rw [enter, List.countP_cons]
      dsimp only
      split <;> omega
    rw [List.foldl_cons, ih, haccepted]
    simp [enter]

theorem ofIterations_eq (threshold : Float) (is : List (Iteration A T O)) : (ofIterations threshold is : Report A O) =
    ⟨is.map (·.step.certificate), is.flatMap (·.step.traces), is.countP (·.step.certificate.abides threshold),
      is.foldl (fun sum i => sum + i.step.transition.reward) 0.0⟩ := by
  rw [ofIterations, foldl_enter]
  simp [empty]

end Report

namespace Supervisor

/-- Behind the report of a run is a course of iterations, one for each certificate, whose batches, rewards and calls are
those that the report counts. -/
theorem run_accounts_for_course (v : Supervisor S K A T O) (n : Nat) (l l' : Live S K) (r : Report A O)
    (h : v.run n l = (l', .ok r)) :
    ∃ is : List (Iteration A T O),
      v.Course l is l' ∧
      r.certificates = is.map (·.step.certificate) ∧
      r.certificates.length ≤ n ∧
      (r.certificates.length < n → ∃ i, is.getLast? = some i ∧ i.worldDone = true) ∧
      (∀ j i, is[j]? = some i → j + 1 < r.certificates.length → i.worldDone = false) ∧
      r.traces.length = r.certificates.length * v.settings.traces ∧
      (∀ j c, r.certificates[j]? = some c →
        ((r.traces.drop (j * v.settings.traces)).take v.settings.traces).map v.spec.evaluate =
          c.perTrace.map .ok ∧
        ∃ x, Degree.conjunction c.perTrace = .ok x ∧ c.robustness = .scalar x) ∧
      r.accepted = r.certificates.countP (·.abides v.settings.threshold) ∧
      r.accepted ≤ r.certificates.length ∧
      r.accepted + r.rejected = r.certificates.length ∧
      r.totalReward = (is.map (·.step.transition.reward)).foldl (· + ·) 0.0 ∧
      (∀ count : K → Nat, (∀ k, count (v.policy.select k).1 = count k + 1) →
        count l'.policy = count l.policy + 2 * r.certificates.length) ∧
      (∀ count : S → Nat, (∀ s, count (v.plant.render s) = count s + 1) →
        (∀ a s, count (v.plant.step a s).1 = count s) → (∀ a s, count (v.plant.stepWorld a s).1 = count s) →
        count l'.plant = count l.plant + r.certificates.length) := by
  obtain ⟨is, his, hr⟩ := v.run_ok n l l' r h
  obtain ⟨hcourse, hstops⟩ := v.iterations_ok n l l' is his
  rw [Report.ofIterations_eq] at hr
  have hcertificates : r.certificates = is.map (·.step.certificate) := congrArg Report.certificates hr
  have hlen : r.certificates.length = is.length := by rw [hcertificates, List.length_map]
  have hcount : r.accepted = r.certificates.countP (·.abides v.settings.threshold) := by
    rw [hcertificates, hr, List.countP_map]
    rfl
  have hle : r.accepted ≤ r.certificates.length := hcount ▸ List.countP_le_length
  refine ⟨is, hcourse, hcertificates, hlen ▸ hstops.within, hlen ▸ hstops.early, hlen ▸ hstops.goesOn, ?_, ?_, hcount, hle,
    Nat.add_sub_cancel' hle, ?_, hlen ▸ hcourse.asked, hlen ▸ hcourse.shown⟩
  · rw [hlen, hr]
    exact length_flatMap_of_length _ _ is hcourse.traces_length
  · intro j c hc
    rw [hcertificates, List.getElem?_map] at hc
    obtain ⟨i, hi, rfl⟩ := Option.map_eq_some_iff.mp hc
    obtain ⟨l₁, l₂, hiter⟩ := hcourse.iterates i (List.mem_of_getElem? hi)
    have hplace : (r.traces.drop (j * v.settings.traces)).take v.settings.traces = i.step.traces := by
      rw [hr]
      exact take_drop_flatMap _ _ is hcourse.traces_length j i hi
    rw [hplace]
    cases hiter with
    | calls s s₁ s₂ s₃ k k₁ k₂ b a i _ _ _ _ hcert _ =>
      obtain ⟨hdegrees, -, hjoin⟩ := v.spec.certifyAll_ok _ a _ hcert
      exact ⟨hdegrees, hjoin⟩
  · rw [hr]
    exact List.foldl_map.symm

/-- A countdown under the rule of safety, with one step in each of two rollouts. -/
def rehearsal : Supervisor Bench.Countdown (Bench.Rota Int32) Int32 Nat Traffic.Condition where
  plant := Bench.Countdown.plant
  policy := Bench.Rota.policy
  observe c := .ofPositions Traffic.crashSeparation (Bench.Countdown.plant.positions c)
  spec := ⟨Traffic.safety, Traffic.Condition.valuation⟩
  settings := ⟨2, 1, 1.0⟩
  jobSize := ⟨256, by decide⟩

/-- The world ends with the second iteration, in which the action brings about a crash. -/
def rehearsalStart : Live Bench.Countdown (Bench.Rota Int32) :=
  ⟨{ remaining := 9, crashOn := some 5, worldBudget := 2 }, { actions := [0, 0, 0, 5] }⟩

theorem run_accounts_for_course_rehearsal :
    ∃ l' r, rehearsal.run 4 rehearsalStart = (l', .ok r) ∧ r.certificates.length = 2 ∧ r.traces.length = 4 ∧
      r.accepted = 1 ∧ r.rejected = 1 ∧ l'.policy.calls = 4 ∧ l'.plant.renders = 2 := by
  have hreport : (rehearsal.run 4 rehearsalStart).2.toOption.map (fun r => (r.certificates.length, r.accepted)) =
      some (2, 1) := by decide +kernel
  rcases hrun : rehearsal.run 4 rehearsalStart with ⟨l', e | r⟩
  · rw [hrun] at hreport
    cases hreport
  · rw [hrun] at hreport
    have hpair : (r.certificates.length, r.accepted) = (2, 1) := Option.some.inj hreport
    obtain ⟨hcerts, haccepted⟩ := Prod.mk.inj hpair
    obtain ⟨is, -, -, -, -, -, htraces, -, -, -, hsum, -, hasked, hshown⟩ :=
      run_accounts_for_course rehearsal 4 rehearsalStart l' r hrun
    have hcalls := hasked Bench.Rota.calls (fun k => by
      change (Bench.Rota.select k).1.calls = _
      unfold Bench.Rota.select
      dsimp only
      split
      · rfl
      · split <;> rfl)
    have hrenders := hshown Bench.Countdown.renders (fun _ => rfl) (fun a s => by
      change (Bench.Countdown.step a s).1.renders = _
      unfold Bench.Countdown.step
      dsimp only
      split <;> rfl) (fun _ _ => rfl)
    rw [hcerts] at htraces hsum hcalls hrenders
    refine ⟨l', r, rfl, hcerts, htraces, haccepted, by omega, hcalls, hrenders⟩

end Supervisor

end RightOfWay.Control

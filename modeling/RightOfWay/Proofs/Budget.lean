import RightOfWay.Proofs.Completion
import RightOfWay.Proofs.StaticErrors
import Mathlib.Algebra.Order.Floor.Div

namespace RightOfWay.Control

open Logic (Trace)

variable {S K A T O : Type}

namespace Plant

theorem length_le_stepsOf (rs : List (Rollout O)) (h : ∀ r ∈ rs, 1 ≤ r.trace.steps) : rs.length ≤ stepsOf rs := by
  induction rs with
  | nil => exact Nat.le_refl _
  | cons r rs ih =>
    have hfirst := h r (by simp)
    have hrest := ih fun r' hr' => h r' (by simp [hr'])
    rw [List.length_cons, stepsOf_cons]
    omega

theorem rollouts_of_steps (p : Plant S A T) (observe : S → O) (a : A) (horizon n : Nat) (s : S) (hn : n ≤ batchLimit)
    (h : ∀ k, ∃ t, p.outcome a s k = .ok t) :
    ∃ rs, p.rollouts observe a horizon n s = (p.orbit a s (stepsOf rs), .ok rs) ∧ rs.length = n := by
  rcases hroll : p.rollouts observe a horizon n s with ⟨s', i | rs⟩
  · rcases p.rollouts_error observe a horizon n s s' i hroll with ⟨hbig, -⟩ | ⟨k, -, -, hfail, -⟩
    · omega
    · obtain ⟨t, ht⟩ := h k
      rw [hfail] at ht
      cases ht
  · obtain ⟨hlen, -, hend⟩ := p.rollouts_ok observe a horizon n s s' rs hroll
    exact ⟨rs, by rw [hend], hlen⟩

end Plant

namespace Supervisor

/-- Nothing goes wrong in states of a kind that steps do not leave, if the policy always selects, the specification
always evaluates, and there is room for the rollouts. -/
structure Reliable (v : Supervisor S K A T O) (kind : S → Prop) : Prop where
  selects : ∀ k, ∃ k' a, v.policy.select k = (k', .ok a)
  steps : ∀ a s, kind s → ∃ s' t, v.plant.step a s = (s', .ok t) ∧ kind s'
  stepsWorld : ∀ a s, kind s → ∃ s' done, v.plant.stepWorld a s = (s', .ok done) ∧ kind s'
  shows : ∀ s, kind s → kind (v.plant.render s)
  evaluates : ∀ t, ∃ d, v.spec.evaluate t = .ok d
  some : 1 ≤ v.settings.traces
  room : v.settings.traces ≤ batchLimit

namespace Reliable

variable {v : Supervisor S K A T O} {kind : S → Prop}

theorem orbit (h : v.Reliable kind) (a : A) {s : S} (hs : kind s) (k : Nat) : kind (v.plant.orbit a s k) := by
  induction k generalizing s with
  | zero => exact hs
  | succ k ih =>
    obtain ⟨s', t, hstep, hs'⟩ := h.steps a s hs
    have hnext : v.plant.next a s = s' := by rw [Plant.next, hstep]
    rw [Plant.orbit_succ, hnext]
    exact ih hs'

theorem take (h : v.Reliable kind) (a : A) {s : S} (hs : kind s) :
    ∃ s' step, v.take a s = (s', .ok step) ∧ kind s' := by
  have houtcome (k : Nat) : ∃ t, v.plant.outcome a s k = .ok t := by
    obtain ⟨s', t, hstep, -⟩ := h.steps a _ (h.orbit a hs k)
    exact ⟨t, by rw [Plant.outcome, hstep]⟩
  obtain ⟨rs, hroll, hlen⟩ :=
    v.plant.rollouts_of_steps v.observe a v.settings.horizon v.settings.traces s h.room houtcome
  have hne : rs.map Rollout.trace ≠ [] := by
    have hsome := h.some
    rw [Ne, List.map_eq_nil_iff, ← List.length_eq_zero_iff]
    omega
  obtain ⟨c, hcert⟩ := (v.spec.exists_certifyAll_iff (rs.map Rollout.trace) a).mpr ⟨hne, fun t _ => h.evaluates t⟩
  obtain ⟨s', t, hstep, hs'⟩ := h.steps a _ (h.orbit a hs (Plant.stepsOf rs))
  refine ⟨s', ⟨rs, c, t⟩, ?_, hs'⟩
  rw [Supervisor.take, hroll]
  dsimp only
  rw [hcert]
  dsimp only
  rw [hstep]

theorem iterate (h : v.Reliable kind) {l : Live S K} (hl : kind l.plant) :
    ∃ l' i, v.iterate l = (l', .ok i) ∧ kind l'.plant := by
  obtain ⟨k₁, b, hfirst⟩ := h.selects l.policy
  obtain ⟨s₁, done, hworld, hs₁⟩ := h.stepsWorld b l.plant hl
  obtain ⟨k₂, a, hsecond⟩ := h.selects k₁
  obtain ⟨s₂, step, htaken, hs₂⟩ := h.take a hs₁
  refine ⟨⟨v.plant.render s₂, k₂⟩, ⟨step, done⟩, ?_, h.shows s₂ hs₂⟩
  have hstepped : v.stepWorld l = (⟨s₁, k₁⟩, .ok done) := by
    rw [stepWorld, hfirst]
    dsimp only
    rw [hworld]
  have hstep : v.step ⟨s₁, k₁⟩ = (⟨s₂, k₂⟩, .ok step) := by
    rw [Supervisor.step, hsecond]
    dsimp only
    rw [htaken]
  rw [Supervisor.iterate, hstepped]
  dsimp only
  rw [hstep]

theorem iterations (h : v.Reliable kind) (n : Nat) {l : Live S K} (hl : kind l.plant) :
    ∃ l' is, v.iterations n l = (l', .ok is) := by
  induction n generalizing l with
  | zero => exact ⟨l, [], rfl⟩
  | succ n ih =>
    obtain ⟨l₁, i, hfirst, hl₁⟩ := h.iterate hl
    obtain ⟨l₂, is, hrest⟩ := ih hl₁
    rw [Supervisor.iterations, hfirst]
    dsimp only
    rw [hrest]
    split
    · exact ⟨l₁, [i], rfl⟩
    · exact ⟨l₂, i :: is, rfl⟩

theorem run (h : v.Reliable kind) (n : Nat) {l : Live S K} (hl : kind l.plant) : ∃ l' r, v.run n l = (l', .ok r) := by
  obtain ⟨l', is, his⟩ := h.iterations n hl
  exact ⟨l', _, by rw [Supervisor.run, his]⟩

end Reliable

theorem Stops.last_of_done {n j : Nat} {is : List (Iteration A T O)} {i : Iteration A T O} (h : Stops n is)
    (hi : is[j]? = some i) (hdone : i.worldDone = true) : j + 1 = is.length := by
  have hj := (List.getElem?_eq_some_iff.mp hi).1
  by_contra hmore
  have hopen := h.goesOn j i hi (by omega)
  rw [hdone] at hopen
  cases hopen

theorem Stops.exists_last {n : Nat} {is : List (Iteration A T O)} (h : Stops n is) (hearly : is.length < n) :
    ∃ j i, j + 1 = is.length ∧ is[j]? = some i ∧ i.worldDone = true := by
  obtain ⟨i, hi, hdone⟩ := h.early hearly
  rw [List.getLast?_eq_getElem?] at hi
  have hlast := (List.getElem?_eq_some_iff.mp hi).1
  exact ⟨is.length - 1, i, by omega, hi, hdone⟩

end Supervisor

end RightOfWay.Control

namespace RightOfWay.Traffic

open Control (Iteration Live Plant Rollout Supervisor batchLimit)

namespace Crossing

variable {O : Type} {observe : Crossing → O} {c : Crossing} {p : Phase}

theorem orbit_signal (p : Phase) (c : Crossing) (k : Nat) :
    (plant.orbit p c k).signal.steps = c.signal.steps + k ∧
      (plant.orbit p c k).signal.budget = c.signal.budget := by
  induction k generalizing c with
  | zero => exact ⟨rfl, rfl⟩
  | succ k ih =>
    have hnext : (plant.next p c).signal = c.signal.switchTo p := step_signal p c
    obtain ⟨hsteps, hbudget⟩ := ih (plant.next p c)
    rw [hnext, Signal.switchTo] at hsteps hbudget
    rw [Plant.orbit_succ, hsteps, hbudget]
    exact ⟨by dsimp only; omega, rfl⟩

/-- A step ends the episode iff the signal has used up its budget by then. -/
theorem done_iff {t : Control.Transition View} (h : (step p c).2 = .ok t) :
    t.done = true ↔ c.signal.budget ≤ c.signal.steps + 1 := by
  have hdone : t.done = (step p c).1.signal.isDone := by
    rw [step] at h ⊢
    rcases hticked : (c.tow.switchTo p).ticked c.setup.ticksPerStep with ⟨c', _ | r⟩
    · rw [hticked] at h
      cases h
    · rw [hticked] at h
      cases h
      rfl
  rw [hdone, step_signal, Signal.isDone, decide_eq_true_eq]
  rfl

theorem outcome_done_iff {j : Nat} {t : Control.Transition View} (h : plant.outcome p c j = .ok t) :
    t.done = true ↔ c.signal.budget ≤ c.signal.steps + j + 1 := by
  obtain ⟨hsteps, hbudget⟩ := orbit_signal p c j
  rw [done_iff h, hsteps, hbudget]

/-- A rollout takes as many steps as are left of the budget and the horizon allows, but at least one. -/
theorem length_of_follows {horizon : Nat} {os : List O} {done : Bool}
    (h : plant.Follows observe p horizon c os done) (hhorizon : 1 ≤ horizon) :
    os.length = min horizon (max 1 (c.signal.budget - c.signal.steps)) := by
  have hpos := h.pos hhorizon
  have hwithin := h.within
  -- the last step but one did not end the episode
  have hgoes : 2 ≤ os.length → c.signal.steps + os.length ≤ c.signal.budget := by
    intro htwo
    obtain ⟨t, ht, hlast⟩ := h.taken (os.length - 2) (by omega)
    have hdone := outcome_done_iff ht
    by_contra hover
    have hend := hlast (hdone.mpr (by omega))
    omega
  have hends : os.length < horizon → c.signal.budget ≤ c.signal.steps + os.length := by
    intro hearly
    obtain ⟨t, -, ht, hdone⟩ := h.last (h.early hearly)
    have hover := (outcome_done_iff ht).mp hdone
    omega
  omega

theorem rollout_signal {horizon : Nat} {r : Rollout O} {c' : Crossing} (hhorizon : 1 ≤ horizon)
    (h : plant.rollout observe p horizon c = (c', .ok r)) :
    c'.signal.steps = c.signal.steps + r.trace.steps ∧
      r.trace.length = 1 + min horizon (max 1 (c.signal.budget - c.signal.steps)) := by
  rw [Plant.rollout_eq] at h
  obtain ⟨hend, hok⟩ := Prod.mk.inj h
  obtain ⟨⟨os, done⟩, hfollow, rfl⟩ := ok_of_map_ok hok
  obtain ⟨hfollows, horbit⟩ := Plant.follow_ok _ _ _ _ _ _ _ hfollow
  refine ⟨?_, ?_⟩
  · rw [← hend, horbit]
    exact (orbit_signal p c os.length).1
  · rw [Logic.Trace.length, Nat.add_comm, length_of_follows hfollows hhorizon]

/-- Steps of a sound crossing do not fail. -/
theorem reliable {K : Type} {v : Supervisor Crossing K Phase View O} (s : Setup) (hplant : v.plant = plant)
    (hselects : ∀ k, ∃ k' a, v.policy.select k = (k', .ok a)) (hevaluates : ∀ t, ∃ d, v.spec.evaluate t = .ok d)
    (hsome : 1 ≤ v.settings.traces) (hroom : v.settings.traces ≤ batchLimit) : v.Reliable fun c => c.Sound s := by
  refine ⟨hselects, ?_, ?_, ?_, hevaluates, hsome, hroom⟩
  · rw [hplant]
    intro a c hc
    obtain ⟨reward, -, hok⟩ := hc.step_eq a
    exact ⟨_, _, Prod.ext rfl hok, hc.step a⟩
  · rw [hplant]
    intro a c hc
    exact ⟨_, _, rfl, hc.switchTo a⟩
  · rw [hplant]
    intro c hc
    exact hc

end Crossing

/-- A supervisor of a crossing whose rollouts take steps. -/
structure Samples {K O : Type} (v : Supervisor Crossing K Phase View O) : Prop where
  plant : v.plant = Crossing.plant
  traces : 1 ≤ v.settings.traces
  horizon : 1 ≤ v.settings.horizon

namespace Samples

variable {K O : Type} {v : Supervisor Crossing K Phase View O} {l l' : Live Crossing K}

/-- An iteration steps the signal once for the world and once for the step taken, and in between for the rollouts, each
of which is as long as the budget then allows. -/
theorem iterates (hv : Samples v) {i : Iteration Phase View O} (h : v.Iterates l i l') :
    l'.plant.signal.budget = l.plant.signal.budget ∧
    l'.plant.signal.steps = l.plant.signal.steps + 2 + Plant.stepsOf i.step.rollouts ∧
    (i.worldDone = true ↔ l.plant.signal.budget ≤ l.plant.signal.steps + 1) ∧
    i.step.rollouts.length = v.settings.traces ∧
    ∀ k r, i.step.rollouts[k]? = some r → r.trace.steps = min v.settings.horizon
      (max 1 (l.plant.signal.budget - (l.plant.signal.steps + 1 + Plant.stepsOf (i.step.rollouts.take k)))) := by
  obtain ⟨plant', policy, observe, spec, settings, jobSize⟩ := v
  obtain rfl : plant' = Crossing.plant := hv.plant
  cases h with
  | calls s s₁ s₂ s₃ k k₁ k₂ b a i _ hworld _ hroll _ htaken =>
    have hs₁ : s.switchTo b = s₁ := congrArg Prod.fst hworld
    have hdone : (s.switchTo b).signal.isDone = i.worldDone := Except.ok.inj (congrArg Prod.snd hworld)
    have hs₃ : (Crossing.step a s₂).1 = s₃ := congrArg Prod.fst htaken
    obtain ⟨hlen, hchain, hs₂⟩ := Plant.rollouts_ok _ _ _ _ _ _ _ _ hroll
    have hswitched : s₁.signal.steps = s.signal.steps + 1 ∧ s₁.signal.budget = s.signal.budget := by
      rw [← hs₁]
      exact ⟨rfl, rfl⟩
    have hsampled := Crossing.orbit_signal a s₁ (Plant.stepsOf i.step.rollouts)
    rw [← hs₂, hswitched.1, hswitched.2] at hsampled
    have hend : s₃.signal.steps = s₂.signal.steps + 1 ∧ s₃.signal.budget = s₂.signal.budget := by
      rw [← hs₃, Crossing.step_signal]
      exact ⟨rfl, rfl⟩
    refine ⟨hend.2.trans hsampled.2, ?_, ?_, hlen, ?_⟩
    · change s₃.signal.steps = s.signal.steps + 2 + Plant.stepsOf i.step.rollouts
      omega
    · rw [← hdone, Signal.isDone, decide_eq_true_eq]
      rfl
    · intro k r hr
      obtain ⟨hsteps, hbudget⟩ := Crossing.orbit_signal a s₁ (Plant.stepsOf (i.step.rollouts.take k))
      have hlength := Crossing.length_of_follows (hchain.get k r hr).2 hv.horizon
      rw [hsteps, hbudget, hswitched.1, hswitched.2] at hlength
      exact hlength

/-- The counter rises with every iteration, by two and at least one for each rollout. -/
theorem course (hv : Samples v) {is : List (Iteration Phase View O)} (h : v.Course l is l') :
    l'.plant.signal.budget = l.plant.signal.budget ∧
    l.plant.signal.steps + is.length * (v.settings.traces + 2) ≤ l'.plant.signal.steps := by
  induction h with
  | nil l => exact ⟨rfl, by simp⟩
  | cons l l₁ l₂ i is hfirst _ ih =>
    obtain ⟨hbudget, hsteps, -, hlen, hlengths⟩ := hv.iterates hfirst
    have hrollouts : i.step.rollouts.length ≤ Plant.stepsOf i.step.rollouts := by
      apply Plant.length_le_stepsOf
      intro r hr
      obtain ⟨k, hk⟩ := List.mem_iff_getElem?.mp hr
      have hhorizon := hv.horizon
      have hlength := hlengths k r hk
      omega
    refine ⟨ih.1.trans hbudget, ?_⟩
    have hrest := ih.2
    rw [List.length_cons, Nat.succ_mul]
    omega

theorem course_done (hv : Samples v) {is : List (Iteration Phase View O)} (h : v.Course l is l')
    (hdone : l.plant.signal.isDone = true) : l'.plant.signal.isDone = true := by
  obtain ⟨hbudget, hsteps⟩ := hv.course h
  rw [Signal.isDone, decide_eq_true_eq] at hdone ⊢
  omega

theorem length_of_done (hv : Samples v) {is : List (Iteration Phase View O)} (h : v.Course l is l')
    (hdone : l.plant.signal.isDone = true) {i : Iteration Phase View O} (hi : i ∈ is) {r : Rollout O}
    (hr : r ∈ i.step.rollouts) : r.trace.length = 2 := by
  obtain ⟨j, hj⟩ := List.mem_iff_getElem?.mp hi
  obtain ⟨k, hk⟩ := List.mem_iff_getElem?.mp hr
  obtain ⟨l₁, l₂, hbefore, hiter⟩ := h.get j i hj
  have hstill := hv.course_done hbefore hdone
  have hsteps := (hv.iterates hiter).2.2.2.2 k r hk
  have hhorizon := hv.horizon
  rw [Signal.isDone, decide_eq_true_eq] at hstill
  rw [Logic.Trace.length_eq_steps_succ]
  omega

/-- A run that is not cut short from outside is over when the counter has reached the budget. -/
theorem length_le (hv : Samples v) {n : Nat} {is : List (Iteration Phase View O)} (h : v.Course l is l')
    (hstops : Supervisor.Stops n is) :
    is.length ≤ min n (1 + (l.plant.signal.budget - 1 - l.plant.signal.steps) ⌈/⌉ (v.settings.traces + 2)) := by
  refine Nat.le_min.mpr ⟨hstops.within, ?_⟩
  by_cases hshort : is.length ≤ 1
  · omega
  · -- the last iteration but one has left the world's episode open
    obtain ⟨j, hj⟩ := Nat.exists_eq_add_of_lt (Nat.lt_of_not_le hshort)
    obtain ⟨i, hi⟩ : ∃ i, is[j]? = some i := ⟨is[j], List.getElem?_eq_getElem (by omega)⟩
    obtain ⟨l₁, l₂, hbefore, hiter⟩ := h.get j i hi
    obtain ⟨hbudget, hsteps⟩ := hv.course hbefore
    have hopen : ¬ l₁.plant.signal.budget ≤ l₁.plant.signal.steps + 1 := by
      rw [← (hv.iterates hiter).2.2.1, hstops.goesOn j i hi (by omega)]
      simp
    rw [List.length_take, Nat.min_eq_left (by omega), Nat.mul_comm] at hsteps
    have hmore : ¬ (l.plant.signal.budget - 1 - l.plant.signal.steps) ⌈/⌉ (v.settings.traces + 2) ≤ j := by
      rw [ceilDiv_le_iff_le_mul (by omega)]
      omega
    omega

end Samples

/-- Rollouts take the steps that are left of the budget, but at least one, and count them, so that a run is over with the
first iteration whose world's step reaches the budget. -/
theorem run_spends_budget {K O : Type} (v : Supervisor Crossing K Phase View O) (hplant : v.plant = Crossing.plant)
    (htraces : 1 ≤ v.settings.traces) (hhorizon : 1 ≤ v.settings.horizon) (n : Nat) (l : Live Crossing K) (s₀ M : Nat)
    (hs₀ : l.plant.signal.steps = s₀) (hM : l.plant.signal.budget = M) :
    (∀ (c c' : Crossing) (a : Phase) (r : Rollout O),
      Crossing.plant.rollout v.observe a v.settings.horizon c = (c', .ok r) →
      c'.signal.steps = c.signal.steps + r.trace.steps ∧
      r.trace.length = 1 + min v.settings.horizon (max 1 (c.signal.budget - c.signal.steps))) ∧
    (∀ (l₁ l₂ : Live Crossing K) (i : Iteration Phase View O), v.Iterates l₁ i l₂ →
      l₂.plant.signal.steps = l₁.plant.signal.steps + 2 + Plant.stepsOf i.step.rollouts ∧
      l₂.plant.signal.budget = l₁.plant.signal.budget ∧
      i.step.rollouts.length = v.settings.traces ∧
      (∀ k r, i.step.rollouts[k]? = some r → ∀ counter,
        counter = l₁.plant.signal.steps + 1 + Plant.stepsOf (i.step.rollouts.take k) →
        r.trace.length = 1 + min v.settings.horizon (max 1 (l₁.plant.signal.budget - counter)) ∧
        (l₁.plant.signal.budget ≤ counter → r.trace.length = 2))) ∧
    (∀ (l₁ l₂ : Live Crossing K) (is : List (Iteration Phase View O)), v.Course l₁ is l₂ →
      l₁.plant.signal.isDone = true →
      l₂.plant.signal.isDone = true ∧ ∀ i ∈ is, ∀ r ∈ i.step.rollouts, r.trace.length = 2) ∧
    (∀ l' r, v.run n l = (l', .ok r) → ∃ is : List (Iteration Phase View O),
      v.Course l is l' ∧ r.certificates = is.map (·.step.certificate) ∧
      (∀ j i, is[j]? = some i → ∃ l₁ l₂, v.Course l (is.take j) l₁ ∧ v.Iterates l₁ i l₂ ∧
        (M ≤ l₁.plant.signal.steps + 1 → j + 1 = is.length)) ∧
      (is.length < n → ∃ j i l₁ l₂, j + 1 = is.length ∧ is[j]? = some i ∧ v.Course l (is.take j) l₁ ∧
        v.Iterates l₁ i l₂ ∧ M ≤ l₁.plant.signal.steps + 1) ∧
      r.certificates.length ≤ min n (1 + (M - 1 - s₀) ⌈/⌉ (v.settings.traces + 2))) ∧
    (∀ s : Setup, s.Valid → ∀ ms, l.plant = (Crossing.start s).run ms →
      (∀ k, ∃ k' a, v.policy.select k = (k', .ok a)) → (∀ t, ∃ d, v.spec.evaluate t = .ok d) →
      v.settings.traces ≤ batchLimit → ∃ l' r, v.run n l = (l', .ok r)) := by
  have hv : Samples v := ⟨hplant, htraces, hhorizon⟩
  refine ⟨?_, ?_, ?_, ?_, ?_⟩
  · intro c c' a r hroll
    exact Crossing.rollout_signal hhorizon hroll
  · intro l₁ l₂ i hiter
    obtain ⟨hbudget, hsteps, -, hlen, hlengths⟩ := hv.iterates hiter
    refine ⟨hsteps, hbudget, hlen, ?_⟩
    intro k r hr counter hcounter
    have hlength := hlengths k r hr
    rw [← hcounter] at hlength
    rw [Logic.Trace.length_eq_steps_succ]
    omega
  · intro l₁ l₂ is hcourse hdone
    exact ⟨hv.course_done hcourse hdone, fun i hi r hr => hv.length_of_done hcourse hdone hi hr⟩
  · intro l' r hrun
    obtain ⟨is, his, rfl⟩ := v.run_ok n l l' r hrun
    obtain ⟨hcourse, hstops⟩ := v.iterations_ok n l l' is his
    have hplace (j : Nat) (i : Iteration Phase View O) (hi : is[j]? = some i) : ∃ l₁ l₂,
        v.Course l (is.take j) l₁ ∧ v.Iterates l₁ i l₂ ∧ (i.worldDone = true ↔ M ≤ l₁.plant.signal.steps + 1) := by
      obtain ⟨l₁, l₂, hbefore, hiter⟩ := hcourse.get j i hi
      have hworld := (hv.iterates hiter).2.2.1
      rw [(hv.course hbefore).1, hM] at hworld
      exact ⟨l₁, l₂, hbefore, hiter, hworld⟩
    rw [Control.Report.ofIterations_eq]
    refine ⟨is, hcourse, rfl, ?_, ?_, ?_⟩
    · intro j i hi
      obtain ⟨l₁, l₂, hbefore, hiter, hworld⟩ := hplace j i hi
      refine ⟨l₁, l₂, hbefore, hiter, ?_⟩
      intro hreached
      exact hstops.last_of_done hi (hworld.mpr hreached)
    · intro hearly
      obtain ⟨j, i, hlast, hi, hdone⟩ := hstops.exists_last hearly
      obtain ⟨l₁, l₂, hbefore, hiter, hworld⟩ := hplace j i hi
      exact ⟨j, i, l₁, l₂, hlast, hi, hbefore, hiter, hworld.mp hdone⟩
    · rw [← hs₀, ← hM, List.length_map]
      exact hv.length_le hcourse hstops
  · intro s hs ms hl hselects hevaluates hroom
    have hreliable := Crossing.reliable s hplant hselects hevaluates htraces hroom
    apply hreliable.run n
    rw [hl]
    exact (Crossing.sound_start hs).run ms

/-- With ten steps and three spent in each iteration, the fourth certificate is the last one. -/
theorem run_spends_budget_shortRoad :
    ∃ l' r, (safetySupervisor (holding (.green [.north])) crashSeparation ⟨1, 1, 1.0⟩).run 5
        ⟨Crossing.start Crossing.shortRoad, ()⟩ = (l', .ok r) ∧ r.certificates.length = 4 ∧
      ∃ (is : List (Iteration Phase View Condition)) (i : Iteration Phase View Condition) (l₁ l₂ : Live Crossing Unit),
        is[3]? = some i ∧
        (safetySupervisor (holding (.green [.north])) crashSeparation ⟨1, 1, 1.0⟩).Course
          ⟨Crossing.start Crossing.shortRoad, ()⟩ (is.take 3) l₁ ∧
        (safetySupervisor (holding (.green [.north])) crashSeparation ⟨1, 1, 1.0⟩).Iterates l₁ i l₂ ∧
        10 ≤ l₁.plant.signal.steps + 1 := by
  obtain ⟨-, -, -, hstops, hruns⟩ := run_spends_budget (safetySupervisor (holding (.green [.north])) crashSeparation
    ⟨1, 1, 1.0⟩) rfl (by decide) (by decide) 5 ⟨Crossing.start Crossing.shortRoad, ()⟩ 0 10 (by decide +kernel)
    (by decide +kernel)
  obtain ⟨l', r, hrun⟩ := hruns Crossing.shortRoad Crossing.shortRoad_valid [] rfl (fun k => ⟨k, _, rfl⟩)
    Rule.safety.spec_evaluates (by decide)
  have hreport : ((safetySupervisor (holding (.green [.north])) crashSeparation ⟨1, 1, 1.0⟩).run 5
      ⟨Crossing.start Crossing.shortRoad, ()⟩).2.toOption.map (·.certificates.length) = some 4 := by decide +kernel
  rw [hrun] at hreport
  have hfour : r.certificates.length = 4 := Option.some.inj hreport
  obtain ⟨is, -, hcertificates, -, hlast, -⟩ := hstops l' r hrun
  have hlength : is.length = 4 := by rw [← hfour, hcertificates, List.length_map]
  obtain ⟨j, i, l₁, l₂, hj, hi, hbefore, hiter, hreached⟩ := hlast (by omega)
  obtain rfl : j = 3 := by omega
  exact ⟨l', r, hrun, hfour, is, i, l₁, l₂, hi, hbefore, hiter, hreached⟩

-- the third certificate comes when the budget is used up, and its rollouts see one step each
example : ((safetySupervisor (holding (.green [.north])) crashSeparation ⟨2, 3, 1.0⟩).run 5
    ⟨Crossing.start Crossing.shortRoad, ()⟩).2.toOption.map (fun r => r.traces.map Logic.Trace.length) =
      some [4, 4, 2, 2, 2, 2] := by decide +kernel

end RightOfWay.Traffic

import RightOfWay.Proofs.Outcome
import Mathlib.Logic.Function.Iterate

namespace RightOfWay.Logic.Trace

/-- The observations of traces that continue each other: only the first keeps its seed. -/
def spliced {O : Type} : List (Trace O) → List O
  | [] => []
  | t :: ts => t.toList ++ ts.flatMap Trace.rest

end RightOfWay.Logic.Trace

namespace RightOfWay.Control

open Logic (Trace)

namespace Plant

variable {S A T O : Type}

/-- The state that a step leaves behind, also when it fails. -/
def next (p : Plant S A T) (a : A) (s : S) : S := (p.step a s).1

/-- The state after `k` steps under an action. -/
def orbit (p : Plant S A T) (a : A) (s : S) (k : Nat) : S := (p.next a)^[k] s

/-- What the step number `k` of the orbit gives, counted from zero. -/
def outcome (p : Plant S A T) (a : A) (s : S) (k : Nat) : Except Interruption (Transition T) :=
  (p.step a (p.orbit a s k)).2

/-- The first failing step of the orbit is number `k`; it gives `i` and leaves `s'` behind. -/
def FailsFirst (p : Plant S A T) (a : A) (s : S) (k : Nat) (s' : S) (i : Interruption) : Prop :=
  (∀ j < k, ∃ t, p.outcome a s j = .ok t) ∧ p.outcome a s k = .error i ∧ s' = p.orbit a s (k + 1)

section Orbit

variable (p : Plant S A T) (a : A) (s : S)

theorem orbit_zero : p.orbit a s 0 = s := rfl

theorem orbit_add (m k : Nat) : p.orbit a s (m + k) = p.orbit a (p.orbit a s m) k := by
  rw [orbit, Nat.add_comm, Function.iterate_add_apply]
  rfl

theorem orbit_succ (k : Nat) : p.orbit a s (k + 1) = p.orbit a (p.next a s) k := rfl

theorem outcome_add (m k : Nat) : p.outcome a s (m + k) = p.outcome a (p.orbit a s m) k := by
  rw [outcome, orbit_add]
  rfl

theorem failsFirst_add (m k : Nat) (s' : S) (i : Interruption)
    (hm : ∀ j < m, ∃ t, p.outcome a s j = .ok t) (hk : p.FailsFirst a (p.orbit a s m) k s' i) :
    p.FailsFirst a s (m + k) s' i := by
  obtain ⟨hbefore, hfail, hstate⟩ := hk
  refine ⟨?_, ?_, ?_⟩
  · intro j hj
    by_cases hlt : j < m
    · exact hm j hlt
    · obtain ⟨d, rfl⟩ := Nat.exists_eq_add_of_le (Nat.le_of_not_lt hlt)
      rw [outcome_add]
      exact hbefore d (by omega)
  · rw [outcome_add]
    exact hfail
  · rw [hstate, ← orbit_add, Nat.add_assoc]

theorem failsFirst_unique (k l : Nat) (s₁ s₂ : S) (i j : Interruption)
    (hk : p.FailsFirst a s k s₁ i) (hl : p.FailsFirst a s l s₂ j) : k = l ∧ s₁ = s₂ ∧ i = j := by
  have notBefore (m n : Nat) (s₁ s₂ : S) (i j : Interruption) (hm : p.FailsFirst a s m s₁ i)
      (hn : p.FailsFirst a s n s₂ j) : ¬ m < n := by
    intro hlt
    obtain ⟨t, ht⟩ := hn.1 m hlt
    rw [hm.2.1] at ht
    cases ht
  have heq : k = l := by
    have h₁ := notBefore k l s₁ s₂ i j hk hl
    have h₂ := notBefore l k s₂ s₁ j i hl hk
    omega
  subst heq
  refine ⟨rfl, hk.2.2.trans hl.2.2.symm, ?_⟩
  have h := hk.2.1.symm.trans hl.2.1
  cases h
  rfl

end Orbit

/-- What `follow` records from a state: the observations behind its steps, none but the last of which ends
the episode, and whether that one does. -/
structure Follows (p : Plant S A T) (observe : S → O) (a : A) (horizon : Nat) (s : S)
    (os : List O) (done : Bool) : Prop where
  within : os.length ≤ horizon
  seen : os = (List.range os.length).map fun j => observe (p.orbit a s (j + 1))
  taken : ∀ j < os.length, ∃ t, p.outcome a s j = .ok t ∧ (t.done = true → j + 1 = os.length)
  early : os.length < horizon → done = true
  last : done = true → ∃ t, 0 < os.length ∧ p.outcome a s (os.length - 1) = .ok t ∧ t.done = true

theorem follow_succ (p : Plant S A T) (observe : S → O) (a : A) (horizon : Nat) (s : S) :
    p.follow observe a (horizon + 1) s =
      match p.outcome a s 0 with
      | .error i => (p.next a s, .error i)
      | .ok t =>
        if t.done then (p.next a s, .ok ([observe (p.next a s)], true))
        else
          ((p.follow observe a horizon (p.next a s)).1,
            (p.follow observe a horizon (p.next a s)).2.map fun x => (observe (p.next a s) :: x.1, x.2)) := by
  rw [follow, outcome, orbit_zero, next]
  rcases p.step a s with ⟨s₁, i | t⟩
  · rfl
  · dsimp only
    rcases p.follow observe a horizon s₁ with ⟨s₂, i | x⟩
    · rfl
    · rfl

theorem follow_ok (p : Plant S A T) (observe : S → O) (a : A) (horizon : Nat) (s : S)
    (os : List O) (done : Bool) (h : (p.follow observe a horizon s).2 = .ok (os, done)) :
    p.Follows observe a horizon s os done ∧ (p.follow observe a horizon s).1 = p.orbit a s os.length := by
  induction horizon generalizing s os with
  | zero =>
    cases h
    exact ⟨⟨by simp, by simp, by simp, by simp, by simp⟩, rfl⟩
  | succ horizon ih =>
    rw [follow_succ] at h ⊢
    cases hr : p.outcome a s 0 with
    | error i =>
      rw [hr] at h
      cases h
    | ok t =>
      rw [hr] at h
      dsimp only at h ⊢
      by_cases hd : t.done = true
      · rw [if_pos hd] at h ⊢
        cases h
        refine ⟨⟨by simp, by simp [orbit_succ, orbit_zero], ?_, by simp, ?_⟩, rfl⟩
        · intro j hj
          have hj0 : j = 0 := by simpa using hj
          subst hj0
          exact ⟨t, hr, fun _ => rfl⟩
        · intro _
          exact ⟨t, by simp, hr, hd⟩
      · -- the remaining steps are on the same orbit, one further on
        rw [if_neg hd] at h ⊢
        obtain ⟨⟨os', done'⟩, hf, heq⟩ := ok_of_map_ok h
        cases heq
        obtain ⟨hfol, hend⟩ := ih (p.next a s) os' hf
        refine ⟨⟨?_, ?_, ?_, ?_, ?_⟩, hend⟩
        · simpa using hfol.within
        · conv_lhs => rw [hfol.seen]
          simp [List.range_succ_eq_map, orbit_succ, orbit_zero]
        · intro j hj
          cases j with
          | zero => exact ⟨t, hr, fun hdone => absurd hdone hd⟩
          | succ j =>
            obtain ⟨u, hu, hlast⟩ := hfol.taken j (by simpa using hj)
            exact ⟨u, hu, fun hdone => by simpa using hlast hdone⟩
        · intro hlt
          exact hfol.early (by simpa using hlt)
        · intro hdone
          obtain ⟨u, hpos, hu, hdu⟩ := hfol.last hdone
          have hidx : (observe (p.next a s) :: os').length - 1 = os'.length - 1 + 1 := by
            simp only [List.length_cons]
            omega
          rw [hidx]
          exact ⟨u, by simp, hu, hdu⟩

/-- A rollout that fails has taken steps that succeed and go on, up to the first failing one. -/
theorem follow_breaks (p : Plant S A T) (observe : S → O) (a : A) (horizon : Nat) (s : S)
    (i : Interruption) (h : (p.follow observe a horizon s).2 = .error i) :
    ∃ m < horizon, p.FailsFirst a s m (p.follow observe a horizon s).1 i ∧
      ∀ j < m, ∃ t, p.outcome a s j = .ok t ∧ t.done = false := by
  induction horizon generalizing s with
  | zero => cases h
  | succ horizon ih =>
    rw [follow_succ] at h ⊢
    cases hr : p.outcome a s 0 with
    | error i' =>
      rw [hr] at h
      cases h
      exact ⟨0, by simp, ⟨by simp, hr, rfl⟩, by simp⟩
    | ok t =>
      rw [hr] at h
      dsimp only at h ⊢
      by_cases hd : t.done = true
      · rw [if_pos hd] at h
        cases h
      · rw [if_neg hd] at h ⊢
        obtain ⟨m, hm, hfail, hgoes⟩ := ih (p.next a s) (error_of_map_error h)
        have hfirst : ∀ j < 1, ∃ t, p.outcome a s j = .ok t := by
          intro j hj
          have hj0 : j = 0 := by omega
          subst hj0
          exact ⟨t, hr⟩
        refine ⟨1 + m, by omega, p.failsFirst_add a s 1 m _ i hfirst hfail, ?_⟩
        intro j hj
        cases j with
        | zero => exact ⟨t, hr, by simpa using hd⟩
        | succ j => exact hgoes j (by omega)

theorem rollout_eq (p : Plant S A T) (observe : S → O) (a : A) (horizon : Nat) (s : S) :
    p.rollout observe a horizon s =
      ((p.follow observe a horizon s).1,
        (p.follow observe a horizon s).2.map fun x => ⟨⟨observe s, x.1⟩, x.2⟩) := by
  rw [rollout]
  rcases p.follow observe a horizon s with ⟨s₁, i | x⟩
  · rfl
  · rfl

theorem successive_succ (p : Plant S A T) (observe : S → O) (a : A) (horizon n : Nat) (s : S) :
    p.successive observe a horizon (n + 1) s =
      match (p.follow observe a horizon s).2 with
      | .error i => ((p.follow observe a horizon s).1, .error i)
      | .ok x =>
        ((p.successive observe a horizon n (p.follow observe a horizon s).1).1,
          (p.successive observe a horizon n (p.follow observe a horizon s).1).2.map
            fun rs => ⟨⟨observe s, x.1⟩, x.2⟩ :: rs) := by
  rw [successive, rollout_eq]
  rcases p.follow observe a horizon s with ⟨s₁, i | x⟩
  · rfl
  · dsimp only [Except.map]
    rcases p.successive observe a horizon n s₁ with ⟨s₂, i | rs⟩
    · rfl
    · rfl

/-- Rollouts that continue each other from a state on. -/
inductive Chain (p : Plant S A T) (observe : S → O) (a : A) (horizon : Nat) :
    S → List (Rollout O) → Prop where
  | nil (s : S) : Chain p observe a horizon s []
  | cons (s : S) (r : Rollout O) (rs : List (Rollout O)) : r.trace.first = observe s →
      p.Follows observe a horizon s r.trace.rest r.done →
      Chain p observe a horizon (p.orbit a s r.trace.steps) rs → Chain p observe a horizon s (r :: rs)

def stepsOf : List (Rollout O) → Nat
  | [] => 0
  | r :: rs => r.trace.steps + stepsOf rs

theorem stepsOf_cons (r : Rollout O) (rs : List (Rollout O)) :
    stepsOf (r :: rs) = r.trace.steps + stepsOf rs := rfl

theorem stepsOf_append (rs rs' : List (Rollout O)) : stepsOf (rs ++ rs') = stepsOf rs + stepsOf rs' := by
  induction rs with
  | nil => exact (Nat.zero_add _).symm
  | cons r rs ih => rw [List.cons_append, stepsOf_cons, stepsOf_cons, ih, Nat.add_assoc]

theorem successive_ok (p : Plant S A T) (observe : S → O) (a : A) (horizon n : Nat) (s : S)
    (rs : List (Rollout O)) (h : (p.successive observe a horizon n s).2 = .ok rs) :
    rs.length = n ∧ p.Chain observe a horizon s rs ∧
      (p.successive observe a horizon n s).1 = p.orbit a s (stepsOf rs) := by
  induction n generalizing s rs with
  | zero =>
    cases h
    exact ⟨rfl, .nil s, rfl⟩
  | succ n ih =>
    rw [successive_succ] at h ⊢
    cases hf : (p.follow observe a horizon s).2 with
    | error i =>
      rw [hf] at h
      cases h
    | ok x =>
      obtain ⟨os, done⟩ := x
      rw [hf] at h
      obtain ⟨hfol, hend⟩ := p.follow_ok observe a horizon s os done hf
      obtain ⟨rest, hrest, heq⟩ := ok_of_map_ok h
      subst heq
      obtain ⟨hlen, hchain, hlast⟩ := ih _ rest hrest
      refine ⟨by simp [hlen], ?_, ?_⟩
      · rw [hend] at hchain
        exact .cons s _ rest rfl hfol hchain
      · dsimp only
        rw [hlast, hend, stepsOf_cons, orbit_add]
        rfl

/-- The step number `k` of the orbit is taken for a batch of `n` rollouts: it belongs to the rollout behind `rs`, which
is still going on and has not reached its horizon. -/
def Samples (p : Plant S A T) (observe : S → O) (a : A) (horizon n : Nat) (s : S) (k : Nat) : Prop :=
  ∃ rs m, p.Chain observe a horizon s rs ∧ rs.length < n ∧ m < horizon ∧ k = stepsOf rs + m ∧
    ∀ j < m, ∃ t, p.outcome a s (stepsOf rs + j) = .ok t ∧ t.done = false

theorem successive_breaks (p : Plant S A T) (observe : S → O) (a : A) (horizon n : Nat) (s : S)
    (i : Interruption) (h : (p.successive observe a horizon n s).2 = .error i) :
    ∃ k, p.FailsFirst a s k (p.successive observe a horizon n s).1 i ∧ p.Samples observe a horizon n s k := by
  induction n generalizing s with
  | zero => cases h
  | succ n ih =>
    rw [successive_succ] at h ⊢
    cases hf : (p.follow observe a horizon s).2 with
    | error i' =>
      rw [hf] at h
      cases h
      obtain ⟨m, hm, hfail, hgoes⟩ := p.follow_breaks observe a horizon s i hf
      refine ⟨m, hfail, [], m, .nil s, by simp, hm, (Nat.zero_add m).symm, ?_⟩
      intro j hj
      rw [show stepsOf ([] : List (Rollout O)) = 0 from rfl, Nat.zero_add]
      exact hgoes j hj
    | ok x =>
      obtain ⟨os, done⟩ := x
      rw [hf] at h
      obtain ⟨hfol, hend⟩ := p.follow_ok observe a horizon s os done hf
      obtain ⟨k, hfail, rs, m, hchain, hlen, hm, hk, hgoes⟩ := ih _ (error_of_map_error h)
      rw [hend] at hfail hchain hgoes ⊢
      have htaken : ∀ j < os.length, ∃ t, p.outcome a s j = .ok t := by
        intro j hj
        obtain ⟨t, ht, -⟩ := hfol.taken j hj
        exact ⟨t, ht⟩
      refine ⟨os.length + k, p.failsFirst_add a s _ k _ i htaken hfail, ⟨⟨observe s, os⟩, done⟩ :: rs, m,
        .cons s _ rs rfl hfol hchain, by simpa using hlen, hm, ?_, ?_⟩
      · rw [hk, stepsOf_cons, Nat.add_assoc]
        rfl
      · intro j hj
        obtain ⟨t, ht⟩ := hgoes j hj
        refine ⟨t, ?_⟩
        rw [stepsOf_cons, Nat.add_assoc, outcome_add]
        exact ht

/-- The last observation of a rollout is that of the state it leaves behind. -/
theorem Follows.last_seen {p : Plant S A T} {observe : S → O} {a : A} {horizon : Nat} {s : S}
    {r : Rollout O} (hfirst : r.trace.first = observe s)
    (h : p.Follows observe a horizon s r.trace.rest r.done) :
    r.trace.last = observe (p.orbit a s r.trace.steps) := by
  have hseen := h.seen
  rw [Trace.last, Trace.steps]
  cases hn : r.trace.rest.length with
  | zero =>
    rw [List.length_eq_zero_iff.mp hn]
    exact hfirst
  | succ n =>
    rw [hn, List.range_succ, List.map_append, List.map_singleton] at hseen
    rw [hseen]
    simp

namespace Chain

variable {p : Plant S A T} {observe : S → O} {a : A} {horizon : Nat} {s : S} {rs : List (Rollout O)}

theorem get (h : p.Chain observe a horizon s rs) (k : Nat) (r : Rollout O) (hr : rs[k]? = some r) :
    r.trace.first = observe (p.orbit a s (stepsOf (rs.take k))) ∧
      p.Follows observe a horizon (p.orbit a s (stepsOf (rs.take k))) r.trace.rest r.done := by
  induction h generalizing k with
  | nil s => simp at hr
  | cons s r' rs hfirst hfol _ ih =>
    cases k with
    | zero =>
      cases hr
      exact ⟨hfirst, hfol⟩
    | succ k =>
      rw [List.take_succ_cons, stepsOf_cons, orbit_add]
      exact ih k (by simpa using hr)

/-- Without their seeds, the rollouts are the observations behind the steps of the orbit. -/
theorem seen (h : p.Chain observe a horizon s rs) :
    rs.flatMap (fun r => r.trace.rest) =
      (List.range (stepsOf rs)).map fun j => observe (p.orbit a s (j + 1)) := by
  induction h with
  | nil s => rfl
  | cons s r rs _ hfol _ ih =>
    have hhead : r.trace.rest = (List.range r.trace.steps).map fun j => observe (p.orbit a s (j + 1)) :=
      hfol.seen
    -- the later rollouts are observed from where this one ends
    rw [List.flatMap_cons, ih, stepsOf_cons, List.range_add, List.map_append, ← hhead, List.map_map]
    congr 1
    apply List.map_congr_left
    intro j _
    rw [Function.comp_apply, ← orbit_add, Nat.add_assoc]

theorem stepsOf_le (h : p.Chain observe a horizon s rs) : stepsOf rs ≤ rs.length * horizon := by
  induction h with
  | nil s => simp [stepsOf]
  | cons s r rs _ hfol _ ih =>
    have hwithin : r.trace.steps ≤ horizon := hfol.within
    rw [stepsOf_cons, List.length_cons, Nat.succ_mul]
    omega

theorem taken (h : p.Chain observe a horizon s rs) (j : Nat) (hj : j < stepsOf rs) :
    ∃ t, p.outcome a s j = .ok t := by
  induction h generalizing j with
  | nil s => simp [stepsOf] at hj
  | cons s r rs _ hfol _ ih =>
    rw [stepsOf_cons] at hj
    by_cases hlt : j < r.trace.steps
    · obtain ⟨t, ht, -⟩ := hfol.taken j hlt
      exact ⟨t, ht⟩
    · obtain ⟨d, rfl⟩ := Nat.exists_eq_add_of_le (Nat.le_of_not_lt hlt)
      rw [outcome_add]
      exact ih d (by omega)

/-- Each rollout is seeded with the last observation of the one before it. -/
theorem seeded (h : p.Chain observe a horizon s rs) (k : Nat) (r r' : Rollout O)
    (hr : rs[k]? = some r) (hr' : rs[k + 1]? = some r') : r'.trace.first = r.trace.last := by
  obtain ⟨hfirst, hfol⟩ := h.get k r hr
  obtain ⟨hfirst', -⟩ := h.get (k + 1) r' hr'
  have hsteps : stepsOf (rs.take (k + 1)) = stepsOf (rs.take k) + r.trace.steps := by
    rw [List.take_add_one, hr, stepsOf_append]
    rfl
  rw [hfirst', hfol.last_seen hfirst, hsteps, orbit_add]

theorem spliced_seen (h : p.Chain observe a horizon s rs) (hne : rs ≠ []) :
    Trace.spliced (rs.map Rollout.trace) =
      (List.range (1 + stepsOf rs)).map fun j => observe (p.orbit a s j) := by
  cases rs with
  | nil => exact absurd rfl hne
  | cons r rs =>
    have hseed := (h.get 0 r rfl).1
    have hseen := h.seen
    rw [List.flatMap_cons] at hseen
    rw [List.map_cons, Trace.spliced, Trace.toList, List.cons_append, List.flatMap_map, hseed,
      Nat.add_comm, List.range_succ_eq_map, List.map_cons, List.map_map]
    exact congrArg _ hseen

/-- What is observed in some rollout is what is observed on the orbit. -/
theorem observed_iff (h : p.Chain observe a horizon s rs) (hne : rs ≠ []) (o : O) :
    (∃ r ∈ rs, o ∈ r.trace.toList) ↔ ∃ j < 1 + stepsOf rs, observe (p.orbit a s j) = o := by
  constructor
  · rintro ⟨r, hr, ho⟩
    obtain ⟨k, hk⟩ := List.mem_iff_getElem?.mp hr
    rw [Trace.toList, List.mem_cons] at ho
    rcases ho with rfl | ho
    · have hsplit := stepsOf_append (rs.take k) (rs.drop k)
      rw [List.take_append_drop] at hsplit
      exact ⟨stepsOf (rs.take k), by omega, (h.get k r hk).1.symm⟩
    · have hrest : o ∈ rs.flatMap (fun r => r.trace.rest) := List.mem_flatMap.mpr ⟨r, hr, ho⟩
      rw [h.seen] at hrest
      obtain ⟨j, hj, hjo⟩ := List.mem_map.mp hrest
      exact ⟨j + 1, by rw [List.mem_range] at hj; omega, hjo⟩
  · rintro ⟨j, hj, rfl⟩
    have hspliced : observe (p.orbit a s j) ∈ Trace.spliced (rs.map Rollout.trace) := by
      rw [h.spliced_seen hne]
      exact List.mem_map_of_mem (List.mem_range.mpr hj)
    cases rs with
    | nil => exact absurd rfl hne
    | cons r rs =>
      rw [List.map_cons, Trace.spliced, List.mem_append] at hspliced
      rcases hspliced with hhead | hrest
      · exact ⟨r, List.mem_cons_self, hhead⟩
      · rw [List.flatMap_map, List.mem_flatMap] at hrest
        obtain ⟨r', hr', ho⟩ := hrest
        exact ⟨r', List.mem_cons_of_mem _ hr', List.mem_cons_of_mem _ ho⟩

end Chain

theorem rollouts_eq (p : Plant S A T) (observe : S → O) (a : A) (horizon n : Nat) (s : S)
    (hn : n ≤ batchLimit) :
    p.rollouts observe a horizon n s = p.successive observe a horizon n s := by
  rw [rollouts, if_neg (Nat.not_lt.mpr hn)]

theorem rollouts_ok (p : Plant S A T) (observe : S → O) (a : A) (horizon n : Nat) (s s' : S)
    (rs : List (Rollout O)) (h : p.rollouts observe a horizon n s = (s', .ok rs)) :
    rs.length = n ∧ p.Chain observe a horizon s rs ∧ s' = p.orbit a s (stepsOf rs) := by
  by_cases hn : n ≤ batchLimit
  · rw [rollouts_eq p observe a horizon n s hn] at h
    have hok := p.successive_ok observe a horizon n s rs (by rw [h])
    rw [h] at hok
    exact hok
  · rw [rollouts, if_pos (Nat.lt_of_not_le hn)] at h
    cases h

theorem rollouts_breaks (p : Plant S A T) (observe : S → O) (a : A) (horizon n : Nat) (s s' : S)
    (i : Interruption) (h : p.rollouts observe a horizon n s = (s', .error i)) :
    (batchLimit < n ∧ s' = s ∧ i = .aborted) ∨
      ∃ k, p.FailsFirst a s k s' i ∧ p.Samples observe a horizon n s k := by
  by_cases hn : n ≤ batchLimit
  · rw [rollouts_eq p observe a horizon n s hn] at h
    have herr := p.successive_breaks observe a horizon n s i (by rw [h])
    rw [h] at herr
    exact .inr herr
  · rw [rollouts, if_pos (Nat.lt_of_not_le hn)] at h
    cases h
    exact .inl ⟨Nat.lt_of_not_le hn, rfl, rfl⟩

theorem rollouts_error (p : Plant S A T) (observe : S → O) (a : A) (horizon n : Nat) (s s' : S)
    (i : Interruption) (h : p.rollouts observe a horizon n s = (s', .error i)) :
    (batchLimit < n ∧ s' = s ∧ i = .aborted) ∨ ∃ k < n * horizon, p.FailsFirst a s k s' i := by
  rcases p.rollouts_breaks observe a horizon n s s' i h with hbig | ⟨k, hfail, rs, m, hchain, hlen, hm, hk, -⟩
  · exact .inl hbig
  · have hsteps := hchain.stepsOf_le
    have hroom : (rs.length + 1) * horizon ≤ n * horizon := Nat.mul_le_mul_right horizon hlen
    rw [Nat.succ_mul] at hroom
    exact .inr ⟨k, by omega, hfail⟩

/-- A batch that succeeds observes the orbit of the action, each rollout seeded with the last observation of the one
before it; a batch that fails stops at the first failing step of the orbit. -/
theorem rollouts_along_orbit (p : Plant S A T) (observe : S → O) (a : A) (horizon n : Nat) (s : S) :
    (∀ s' rs, p.rollouts observe a horizon n s = (s', .ok rs) →
      rs.length = n ∧
      (∀ r ∈ rs, 1 ≤ r.trace.length ∧ r.trace.length ≤ horizon + 1) ∧
      (∀ k r, rs[k]? = some r →
        (∀ j < r.trace.steps, ∃ t, p.outcome a s (stepsOf (rs.take k) + j) = .ok t ∧
          (t.done = true → j + 1 = r.trace.steps)) ∧
        (r.trace.length < horizon + 1 → ∃ t, 0 < r.trace.steps ∧
          p.outcome a s (stepsOf (rs.take k) + (r.trace.steps - 1)) = .ok t ∧ t.done = true)) ∧
      (∀ k r r', rs[k]? = some r → rs[k + 1]? = some r' → r'.trace.first = r.trace.last) ∧
      (0 < n → Trace.spliced (rs.map Rollout.trace) =
        (List.range (1 + stepsOf rs)).map fun j => observe (p.orbit a s j)) ∧
      s' = p.orbit a s (stepsOf rs)) ∧
    (∀ s' i, p.rollouts observe a horizon n s = (s', .error i) →
      (batchLimit < n ∧ s' = s ∧ i = .aborted) ∨ ∃ k < n * horizon, p.FailsFirst a s k s' i) ∧
    (∀ k s' i, n ≤ batchLimit → p.FailsFirst a s k s' i →
      p.rollouts observe a horizon n s = (s', .error i) ∨
      ∃ s'' rs, p.rollouts observe a horizon n s = (s'', .ok rs) ∧ stepsOf rs ≤ k) := by
  refine ⟨?_, p.rollouts_error observe a horizon n s, ?_⟩
  · intro s' rs h
    obtain ⟨hlen, hchain, hend⟩ := p.rollouts_ok observe a horizon n s s' rs h
    refine ⟨hlen, ?_, ?_, ?_, ?_, hend⟩
    · intro r hr
      obtain ⟨k, hk⟩ := List.mem_iff_getElem?.mp hr
      have hwithin := (hchain.get k r hk).2.within
      exact ⟨by simp [Trace.length], by simpa [Trace.length] using hwithin⟩
    · intro k r hk
      have hfol := (hchain.get k r hk).2
      refine ⟨?_, ?_⟩
      · intro j hj
        rw [outcome_add]
        exact hfol.taken j hj
      · intro hshort
        rw [outcome_add]
        exact hfol.last (hfol.early (by simpa [Trace.length] using hshort))
    · exact hchain.seeded
    · intro hpos
      apply hchain.spliced_seen
      rintro rfl
      simp [← hlen] at hpos
  · intro k s' i hn hfail
    rcases hr : p.rollouts observe a horizon n s with ⟨s₁, j | rs⟩
    · left
      rcases p.rollouts_error observe a horizon n s s₁ j hr with ⟨hbig, -⟩ | ⟨l, -, hl⟩
      · omega
      · obtain ⟨-, rfl, rfl⟩ := p.failsFirst_unique a s k l s' s₁ i j hfail hl
        rfl
    · right
      obtain ⟨-, hchain, -⟩ := p.rollouts_ok observe a horizon n s s₁ rs hr
      refine ⟨s₁, rs, rfl, ?_⟩
      by_contra hlt
      obtain ⟨t, ht⟩ := hchain.taken k (by omega)
      rw [hfail.2.1] at ht
      cases ht

end Plant

end RightOfWay.Control

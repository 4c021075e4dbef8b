import RightOfWay.Proofs.Accounts
import RightOfWay.Proofs.ExactSum

namespace RightOfWay.Control

open Number.Binary64 (Unrounded exactSum exactSum_append toExact toExact_add)

variable {S K A T O : Type}

def Iteration.reward (i : Iteration A T O) : Float := i.step.transition.reward

namespace Report

theorem ofIterations_totalReward (threshold : Float) (is : List (Iteration A T O)) :
    (ofIterations threshold is : Report A O).totalReward = (is.map Iteration.reward).foldl (· + ·) 0.0 := by
  rw [ofIterations_eq]
  exact List.foldl_map.symm

/-- The report of iterations in a row is that of the first ones with that of the others behind it, apart from the
order in which the rewards are added up. -/
theorem ofIterations_append (threshold : Float) (is₁ is₂ : List (Iteration A T O)) :
    (ofIterations threshold (is₁ ++ is₂) : Report A O) =
      { (ofIterations threshold is₁ : Report A O).merge (ofIterations threshold is₂) with
        totalReward :=
          (is₂.map Iteration.reward).foldl (· + ·) (ofIterations threshold is₁ : Report A O).totalReward } := by
  rw [ofIterations_eq, ofIterations_eq, ofIterations_eq, Report.mk.injEq]
  refine ⟨List.map_append, List.flatMap_append, List.countP_append, ?_⟩
  rw [List.foldl_append, List.foldl_map]
  rfl

/-- Where nothing is rounded, adding up the rewards in a row and adding up two sums is the same. -/
theorem toExact_foldl_merge (threshold : Float) (is₁ is₂ : List (Iteration A T O))
    (hfit : Unrounded (is₁.map Iteration.reward ++ is₂.map Iteration.reward))
    (hfit₂ : Unrounded (is₂.map Iteration.reward)) :
    let r₁ : Report A O := ofIterations threshold is₁
    let r₂ : Report A O := ofIterations threshold is₂
    let total := (is₂.map Iteration.reward).foldl (· + ·) r₁.totalReward
    toExact total = exactSum (is₁.map Iteration.reward ++ is₂.map Iteration.reward) ∧
      toExact total = toExact (r₁.merge r₂).totalReward := by
  intro r₁ r₂ total
  have hfirst : toExact r₁.totalReward = exactSum (is₁.map Iteration.reward) := by
    rw [ofIterations_totalReward]
    exact hfit.left.toExact_foldl
  have hsecond : toExact r₂.totalReward = exactSum (is₂.map Iteration.reward) := by
    rw [ofIterations_totalReward]
    exact hfit₂.toExact_foldl
  have htotal : toExact total = exactSum (is₁.map Iteration.reward ++ is₂.map Iteration.reward) := by
    rw [← hfit.toExact_foldl, List.foldl_append, ← ofIterations_totalReward threshold is₁]
  have hsum : toExact total = (toExact r₁.totalReward).add (toExact r₂.totalReward) := by
    rw [htotal, exactSum_append, hfirst, hsecond]
  exact ⟨htotal, hsum.trans (toExact_add hsum).symm⟩

end Report

namespace Supervisor

theorem run_eq (v : Supervisor S K A T O) (n : Nat) (l : Live S K) :
    v.run n l = ((v.iterations n l).1, (v.iterations n l).2.map (Report.ofIterations v.settings.threshold)) := by
  rw [run]
  rcases v.iterations n l with ⟨l', e | is⟩ <;> rfl

theorem iterations_succ (v : Supervisor S K A T O) (n : Nat) (l l₁ : Live S K) (i : Iteration A T O)
    (hfirst : v.iterate l = (l₁, .ok i)) (hdone : i.worldDone = false) :
    v.iterations (n + 1) l = ((v.iterations n l₁).1, (v.iterations n l₁).2.map (i :: ·)) := by
  rw [iterations, hfirst]
  dsimp only
  rw [if_neg (ne_true_of_eq_false hdone)]
  rcases v.iterations n l₁ with ⟨l', e | is⟩ <;> rfl

/-- Iterations that do not end the world's episode are followed by what would come from where they lead. -/
theorem iterations_add (v : Supervisor S K A T O) (a b : Nat) (l l₁ : Live S K) (is : List (Iteration A T O))
    (h : v.iterations a l = (l₁, .ok is)) (hworld : ∀ i ∈ is, i.worldDone = false) :
    v.iterations (a + b) l = ((v.iterations b l₁).1, (v.iterations b l₁).2.map (is ++ ·)) := by
  induction a generalizing l is with
  | zero =>
    cases h
    rw [Nat.zero_add]
    rcases v.iterations b l₁ with ⟨l', e | is⟩ <;> rfl
  | succ a ih =>
    rcases hfirst : v.iterate l with ⟨l₂, e | i⟩
    · rw [iterations, hfirst] at h
      cases h
    · by_cases hdone : i.worldDone = true
      · -- Such an iteration would be the last one, and it is among those that do not end the episode.
        rw [iterations, hfirst] at h
        dsimp only at h
        rw [if_pos hdone] at h
        cases h
        have hgoes := hworld i (by simp)
        rw [hdone] at hgoes
        cases hgoes
      · have hgoes : i.worldDone = false := by simpa using hdone
        rw [v.iterations_succ a l l₂ i hfirst hgoes] at h
        obtain ⟨hstate, hmap⟩ := Prod.mk.inj h
        obtain ⟨rest, hrest, rfl⟩ := ok_of_map_ok hmap
        have hothers := ih l₂ rest (Prod.ext hstate hrest) fun i' hi' => hworld i' (by simp [hi'])
        rw [Nat.add_right_comm, v.iterations_succ (a + b) l l₂ i hfirst hgoes, hothers]
        cases (v.iterations b l₁).2 <;> rfl

/-- A run split after `a` iterations, none of which ended the world's episode, ends as the whole run does and reports the
same, up to the rounding of the reward. -/
theorem run_splits_between_iterations (v : Supervisor S K A T O) (a b : Nat) (l l₁ : Live S K) (r₁ : Report A O)
    (hrun : v.run a l = (l₁, .ok r₁))
    (hworld : ∀ is, (v.iterations a l).2 = .ok is → ∀ i ∈ is, i.worldDone = false) :
    (v.run (a + b) l).1 = (v.run b l₁).1 ∧
    ((∃ r, (v.run (a + b) l).2 = .ok r) ↔ ∃ r₂, (v.run b l₁).2 = .ok r₂) ∧
    (∀ e, (v.run (a + b) l).2 = .error e ↔ (v.run b l₁).2 = .error e) ∧
    ∀ r r₂, (v.run (a + b) l).2 = .ok r → (v.run b l₁).2 = .ok r₂ →
      r.certificates = (r₁.merge r₂).certificates ∧
      r.traces = (r₁.merge r₂).traces ∧
      r.accepted = (r₁.merge r₂).accepted ∧
      ∃ is₁ is₂ : List (Iteration A T O),
        (v.iterations a l).2 = .ok is₁ ∧
        (v.iterations b l₁).2 = .ok is₂ ∧
        (v.iterations (a + b) l).2 = .ok (is₁ ++ is₂) ∧
        exactSum ((is₁ ++ is₂).map Iteration.reward) =
          (exactSum (is₁.map Iteration.reward)).add (exactSum (is₂.map Iteration.reward)) ∧
        r.totalReward = (is₂.map Iteration.reward).foldl (· + ·) r₁.totalReward ∧
        (Unrounded ((is₁ ++ is₂).map Iteration.reward) → Unrounded (is₂.map Iteration.reward) →
          toExact r.totalReward = exactSum ((is₁ ++ is₂).map Iteration.reward) ∧
          toExact r.totalReward = toExact (r₁.merge r₂).totalReward) := by
  obtain ⟨is₁, his₁, rfl⟩ := v.run_ok a l l₁ r₁ hrun
  have hwhole := v.iterations_add a b l l₁ is₁ his₁ (hworld is₁ (congrArg Prod.snd his₁))
  rw [v.run_eq (a + b), v.run_eq b, hwhole]
  rcases v.iterations b l₁ with ⟨l', e | is₂⟩
  · refine ⟨rfl, ⟨?_, ?_⟩, fun e => Iff.rfl, ?_⟩
    · rintro ⟨r, hr⟩
      cases hr
    · rintro ⟨r, hr⟩
      cases hr
    · intro r r₂ hr
      cases hr
  · refine ⟨rfl, ⟨fun _ => ⟨_, rfl⟩, fun _ => ⟨_, rfl⟩⟩, fun e => ⟨?_, ?_⟩, ?_⟩
    · intro he
      cases he
    · intro he
      cases he
    · intro r r₂ hr hr₂
      cases hr
      cases hr₂
      rw [Report.ofIterations_append]
      refine ⟨rfl, rfl, rfl, is₁, is₂, congrArg Prod.snd his₁, rfl, rfl, ?_, rfl, ?_⟩
      · rw [List.map_append, exactSum_append]
      · intro hfit hfit₂
        rw [List.map_append] at hfit ⊢
        exact Report.toExact_foldl_merge _ is₁ is₂ hfit hfit₂

/-- Three iterations, with rewards of three, five and three, until the world's episode is over. -/
def relay : Live Bench.Countdown (Bench.Rota Int32) :=
  ⟨{ remaining := 9, crashOn := some 5, worldBudget := 3 }, { actions := [0, 3, 0, 5] }⟩

theorem run_splits_between_iterations_relay :
    ∃ l₁ r₁ r r₂, rehearsal.run 1 relay = (l₁, .ok r₁) ∧
      (rehearsal.run 5 relay).2 = .ok r ∧ (rehearsal.run 4 l₁).2 = .ok r₂ ∧
      (rehearsal.run 5 relay).1 = (rehearsal.run 4 l₁).1 ∧
      r.certificates = r₁.certificates ++ r₂.certificates ∧ r.certificates.length = 3 ∧
      r.accepted = r₁.accepted + r₂.accepted ∧ r.accepted = 1 ∧
      toExact r.totalReward = toExact (r₁.totalReward + r₂.totalReward) ∧ r.totalReward = 11.0 := by
  have hone : (rehearsal.run 1 relay).2.isOk = true := by decide +kernel
  have hall : (rehearsal.run 5 relay).2.toOption.map
      (fun r => (r.certificates.length, r.accepted, r.totalReward)) = some (3, 1, 11.0) := by decide +kernel
  have hgoes : (rehearsal.iterations 1 relay).2.toOption.map
      (fun is => (is.all (!·.worldDone), is.map Iteration.reward)) = some (true, [3.0]) := by decide +kernel
  have hrewards : (rehearsal.iterations 5 relay).2.toOption.map (fun is => is.map Iteration.reward) =
      some [3.0, 5.0, 3.0] := by decide +kernel
  have hworld : ∀ is, (rehearsal.iterations 1 relay).2 = .ok is → ∀ i ∈ is, i.worldDone = false := by
    intro is his
    rw [his] at hgoes
    have hnone := (Prod.mk.inj (Option.some.inj hgoes)).1
    simpa using hnone
  have hsums : Unrounded [3.0, 5.0, 3.0]
    | 0 => ⟨0.0, by decide +kernel⟩
    | 1 => ⟨3.0, by decide +kernel⟩
    | 2 => ⟨8.0, by decide +kernel⟩
    | _ + 3 => ⟨11.0, by rw [List.take_of_length_le (by simp)]; decide +kernel⟩
  have hsums₂ : Unrounded [5.0, 3.0]
    | 0 => ⟨0.0, by decide +kernel⟩
    | 1 => ⟨5.0, by decide +kernel⟩
    | _ + 2 => ⟨8.0, by rw [List.take_of_length_le (by simp)]; decide +kernel⟩
  obtain ⟨l₁, r₁, hrun⟩ := exists_ok_of_isOk hone
  obtain ⟨hstate, hok, -, hreport⟩ := run_splits_between_iterations rehearsal 1 4 relay l₁ r₁ hrun hworld
  rcases hr : (rehearsal.run 5 relay).2 with e | r
  · rw [hr] at hall
    cases hall
  · obtain ⟨r₂, hr₂⟩ := hok.mp ⟨r, hr⟩
    obtain ⟨hcerts, -, haccepted, is₁, is₂, his₁, -, his, -, -, hexact⟩ := hreport r r₂ hr hr₂
    rw [hr] at hall
    rw [his₁] at hgoes
    rw [his] at hrewards
    obtain ⟨hlen, hpair⟩ := Prod.mk.inj (Option.some.inj hall)
    obtain ⟨hcount, htotal⟩ := Prod.mk.inj hpair
    have hfirst : is₁.map Iteration.reward = [3.0] := (Prod.mk.inj (Option.some.inj hgoes)).2
    have hboth : (is₁ ++ is₂).map Iteration.reward = [3.0, 5.0, 3.0] := Option.some.inj hrewards
    have hsecond : is₂.map Iteration.reward = [5.0, 3.0] := by
      rw [List.map_append, hfirst] at hboth
      exact List.append_cancel_left hboth
    rw [hboth, hsecond] at hexact
    exact ⟨l₁, r₁, r, r₂, hrun, rfl, hr₂, hstate, hcerts, hlen, haccepted, hcount, (hexact hsums hsums₂).2, htotal⟩

end Supervisor

end RightOfWay.Control

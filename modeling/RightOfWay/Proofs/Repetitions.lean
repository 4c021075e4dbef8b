import RightOfWay.Proofs.Accounts
import RightOfWay.Proofs.ExactSum

namespace RightOfWay.Control

open Number.Binary64 (quanta quanta_foldl)

variable {S K A T O : Type}

theorem gather_map_ok {R : Type} (rs : List R) : gather (rs.map .ok) = .ok rs := by
  rw [gather_eq_inOrder, List.map_map]
  exact inOrder_map_ok rs

theorem gather_map {R R' : Type} (f : R → R') (outcomes : List (Except Failure R)) :
    gather (outcomes.map (Except.map f)) = (gather outcomes).map (List.map f) := by
  have hswap : (outcomes.map (Except.map f)).map (Except.mapError Failure.inWorker) =
      (outcomes.map (Except.mapError Failure.inWorker)).map (Except.map f) := by
    rw [List.map_map, List.map_map]
    apply List.map_congr_left
    intro r _
    cases r <;> rfl
  rw [gather_eq_inOrder, gather_eq_inOrder, hswap, inOrder_map]

/-- Among outcomes with a failure, one failure is passed on. -/
theorem gather_of_error {R : Type} (outcomes : List (Except Failure R)) (e : Failure) (h : .error e ∈ outcomes) :
    ∃ e', .error e' ∈ outcomes ∧ gather outcomes = .error e'.inWorker := by
  rcases split_at_first_error outcomes with ⟨rs, rfl⟩ | ⟨rs, e', rest, rfl⟩
  · obtain ⟨r, -, hr⟩ := List.mem_map.mp h
    cases hr
  · refine ⟨e', by simp, ?_⟩
    rw [gather_eq_inOrder, List.map_append, List.map_map]
    exact inOrder_append_error rs e'.inWorker _

theorem error_of_gather {R : Type} {outcomes : List (Except Failure R)} {f : Failure} (h : gather outcomes = .error f) :
    ∃ e, .error e ∈ outcomes ∧ f = e.inWorker := by
  rcases split_at_first_error outcomes with ⟨rs, rfl⟩ | ⟨rs, e, rest, rfl⟩
  · rw [gather_map_ok] at h
    cases h
  · obtain ⟨e', he', hgather⟩ := gather_of_error (rs.map .ok ++ .error e :: rest) e (by simp)
    exact ⟨e', he', Except.error.inj (h.symm.trans hgather)⟩

theorem map_ok_of_gather {R : Type} {outcomes : List (Except Failure R)} {rs : List R} (h : gather outcomes = .ok rs) :
    outcomes = rs.map .ok := by
  rcases split_at_first_error outcomes with ⟨xs, rfl⟩ | ⟨xs, e, rest, rfl⟩
  · rw [gather_map_ok] at h
    cases h
    rfl
  · obtain ⟨e', -, hgather⟩ := gather_of_error (xs.map .ok ++ .error e :: rest) e (by simp)
    rw [hgather] at h
    cases h

theorem Failure.inWorker_cases (e : Failure) :
    (e = .aborted ∧ e.inWorker = .worker) ∨ (e ≠ .aborted ∧ e.inWorker = e) := by
  cases e with
  | aborted => exact .inl ⟨rfl, rfl⟩
  | _ => exact .inr ⟨Failure.noConfusion, rfl⟩

theorem Report.foldl_merge (rs : List (Report A O)) (r : Report A O) :
    rs.foldl Report.merge r =
      ⟨r.certificates ++ rs.flatMap Report.certificates, r.traces ++ rs.flatMap Report.traces,
        r.accepted + (rs.map Report.accepted).sum, rs.foldl (fun sum r => sum + r.totalReward) r.totalReward⟩ := by
  induction rs generalizing r with
  | nil => simp
  | cons r' rs ih =>
    rw [List.foldl_cons, ih]
    simp [Report.merge, Nat.add_assoc]

theorem sum_rejected {ι : Type} (report : ι → Report A O) (is : List ι)
    (h : ∀ i ∈ is, (report i).accepted ≤ (report i).certificates.length) :
    (is.flatMap fun i => (report i).certificates).length - (is.map fun i => (report i).accepted).sum =
      (is.map fun i => (report i).rejected).sum := by
  have hsplit : (is.map fun i => (report i).rejected).sum + (is.map fun i => (report i).accepted).sum =
      (is.flatMap fun i => (report i).certificates).length := by
    rw [List.length_flatMap, ← List.sum_map_add]
    congr 1
    apply List.map_congr_left
    intro i hi
    exact Nat.sub_add_cancel (h i hi)
  omega

namespace Supervisor

theorem run_accepted_le (v : Supervisor S K A T O) (n : Nat) (l : Live S K) (r : Report A O)
    (h : (v.run n l).2 = .ok r) : r.accepted ≤ r.certificates.length := by
  obtain ⟨is, -, rfl⟩ := v.run_ok n l (v.run n l).1 r (Prod.ext rfl h)
  rw [Report.ofIterations_eq, List.length_map]
  exact List.countP_le_length

theorem repetition_report (v : Supervisor S K A T O) (n : Nat) (l : Live S K) (rep : Nat) :
    (v.repetition n l rep).map (Report.ofIterations v.settings.threshold) = (v.run n (v.fork rep.toUInt64 l)).2 := by
  rw [repetition, run]
  rcases v.iterations n (v.fork rep.toUInt64 l) with ⟨l', e | is⟩ <;> rfl

theorem runParallel_of_too_many (v : Supervisor S K A T O) (s : FanoutSettings) (finished : Nat → List Nat)
    (l : Live S K) (hcheck : s.check = .ok ()) (hmany : v.repetitionLimit < s.repetitions) :
    v.runParallel s finished l = .error .aborted := by
  rw [runParallel, repetitions, hcheck]
  dsimp only
  rw [if_pos hmany]

/-- Repetitions that fit into memory are gathered as they finish, and their reports merged. -/
theorem runParallel_eq (v : Supervisor S K A T O) (s : FanoutSettings) (finished : Nat → List Nat) (l : Live S K)
    (hcheck : s.check = .ok ()) (hfit : s.repetitions ≤ v.repetitionLimit) :
    v.runParallel s finished l =
      (gather ((finished s.repetitions).map fun rep => (v.run s.iterations (v.fork rep.toUInt64 l)).2)).map
        fun reports => reports.foldl Report.merge Report.empty := by
  have houtcomes : ((finished s.repetitions).map fun rep => (v.run s.iterations (v.fork rep.toUInt64 l)).2) =
      ((finished s.repetitions).map (v.repetition s.iterations l)).map
        (Except.map (Report.ofIterations v.settings.threshold)) := by
    rw [List.map_map]
    exact List.map_congr_left fun rep _ => (v.repetition_report s.iterations l rep).symm
  rw [houtcomes, gather_map, runParallel, repetitions, hcheck]
  dsimp only
  rw [if_neg (Nat.not_lt.mpr hfit)]
  cases gather ((finished s.repetitions).map (v.repetition s.iterations l)) <;> rfl

/-- A fan-out fails before it starts, or gathers its repetitions as they finish. -/
theorem runParallel_cases (v : Supervisor S K A T O) (s : FanoutSettings) (finished : Nat → List Nat) (l : Live S K) :
    (∃ m, v.runParallel s finished l = .error (.misfit m)) ∨
    v.runParallel s finished l = .error .aborted ∨
    v.runParallel s finished l =
      (gather ((finished s.repetitions).map fun rep => (v.run s.iterations (v.fork rep.toUInt64 l)).2)).map
        fun reports => reports.foldl Report.merge Report.empty := by
  cases hcheck : s.check with
  | error m =>
    refine .inl ⟨m, ?_⟩
    rw [runParallel, repetitions, hcheck]
  | ok _ =>
    by_cases hmany : v.repetitionLimit < s.repetitions
    · exact .inr (.inl (v.runParallel_of_too_many s finished l hcheck hmany))
    · exact .inr (.inr (v.runParallel_eq s finished l hcheck (Nat.le_of_not_lt hmany)))

/-- Whatever the order in which repetitions come back, a fan-out merges their reports if all succeed, and fails with the
failure of one of them otherwise. -/
theorem runParallel_merges_repetitions (v : Supervisor S K A T O) (s : FanoutSettings) (finished : Nat → List Nat)
    (l : Live S K) (hcheck : s.check = .ok ())
    (horder : (finished s.repetitions).Perm (List.range s.repetitions)) :
    (v.repetitionLimit < s.repetitions → v.runParallel s finished l = .error .aborted) ∧
    (s.repetitions ≤ v.repetitionLimit → ∀ report : Nat → Report A O,
      (∀ rep < s.repetitions, (v.run s.iterations (v.fork rep.toUInt64 l)).2 = .ok (report rep)) →
      ∃ merged, v.runParallel s finished l = .ok merged ∧
        merged.certificates = (finished s.repetitions).flatMap (fun rep => (report rep).certificates) ∧
        merged.traces = (finished s.repetitions).flatMap (fun rep => (report rep).traces) ∧
        merged.certificates.Perm ((List.range s.repetitions).flatMap fun rep => (report rep).certificates) ∧
        merged.traces.Perm ((List.range s.repetitions).flatMap fun rep => (report rep).traces) ∧
        merged.accepted = ((List.range s.repetitions).map fun rep => (report rep).accepted).sum ∧
        merged.rejected = ((List.range s.repetitions).map fun rep => (report rep).rejected).sum ∧
        merged.totalReward =
          (finished s.repetitions).foldl (fun sum rep => sum + (report rep).totalReward) 0.0 ∧
        ∀ reward : Nat → Int, (∀ rep < s.repetitions, quanta (report rep).totalReward = some (reward rep)) →
          (∀ k, ∃ x, quanta x = some (((finished s.repetitions).take k).map reward).sum) →
          quanta merged.totalReward = some ((List.range s.repetitions).map reward).sum) ∧
    (s.repetitions ≤ v.repetitionLimit → ∀ rep < s.repetitions, ∀ e,
      (v.run s.iterations (v.fork rep.toUInt64 l)).2 = .error e →
      ∃ rep' < s.repetitions, ∃ e', (v.run s.iterations (v.fork rep'.toUInt64 l)).2 = .error e' ∧
        ((e' = .aborted ∧ v.runParallel s finished l = .error .worker) ∨
          (e' ≠ .aborted ∧ v.runParallel s finished l = .error e'))) ∧
    ∀ workers, workers ≠ 0 → v.runParallel { s with workers := workers } finished l = v.runParallel s finished l := by
  have hmem (rep : Nat) : rep ∈ finished s.repetitions ↔ rep < s.repetitions := by
    rw [horder.mem_iff, List.mem_range]
  refine ⟨?_, ?_, ?_, ?_⟩
  · exact v.runParallel_of_too_many s finished l hcheck
  · intro hfit report hruns
    have hok : ((finished s.repetitions).map fun rep => (v.run s.iterations (v.fork rep.toUInt64 l)).2) =
        ((finished s.repetitions).map report).map .ok := by
      rw [List.map_map]
      exact List.map_congr_left fun rep hrep => hruns rep ((hmem rep).mp hrep)
    have haccepted : ∀ rep ∈ finished s.repetitions,
        (report rep).accepted ≤ (report rep).certificates.length := fun rep hrep =>
      v.run_accepted_le s.iterations _ _ (hruns rep ((hmem rep).mp hrep))
    have hmerged := v.runParallel_eq s finished l hcheck hfit
    rw [hok, gather_map_ok, Except.map, Report.foldl_merge] at hmerged
    simp only [Report.empty, List.nil_append, Nat.zero_add, List.flatMap_map, List.map_map, List.foldl_map] at hmerged
    refine ⟨_, hmerged, rfl, rfl, horder.flatMap_right _, horder.flatMap_right _, (horder.map _).sum_eq, ?_, rfl, ?_⟩
    · rw [← (horder.map _).sum_eq, ← sum_rejected report _ haccepted]
      rfl
    · intro reward hreward hpartial
      rw [← (horder.map reward).sum_eq]
      exact quanta_foldl (fun rep => (report rep).totalReward) reward _
        (fun rep hrep => hreward rep ((hmem rep).mp hrep)) hpartial
  · intro hfit rep hrep e hfail
    obtain ⟨e', hmem', hgather⟩ := gather_of_error
      ((finished s.repetitions).map fun rep => (v.run s.iterations (v.fork rep.toUInt64 l)).2) e
      (List.mem_map.mpr ⟨rep, (hmem rep).mpr hrep, hfail⟩)
    obtain ⟨rep', hrep', hfail'⟩ := List.mem_map.mp hmem'
    have hresult : v.runParallel s finished l = .error e'.inWorker := by
      rw [v.runParallel_eq s finished l hcheck hfit, hgather]
      rfl
    refine ⟨rep', (hmem rep').mp hrep', e', hfail', ?_⟩
    rcases e'.inWorker_cases with ⟨habort, hworker⟩ | ⟨hother, hsame⟩
    · exact .inl ⟨habort, by rw [hresult, hworker]⟩
    · exact .inr ⟨hother, by rw [hresult, hsame]⟩
  · intro workers hworkers
    have hcheck' : ({ s with workers := workers } : FanoutSettings).check = .ok () := if_neg hworkers
    rw [runParallel, runParallel, repetitions, repetitions, hcheck, hcheck']

/-- The report of a repetition of the rehearsal. Each begins at another place of the rota. -/
def rehearsalReport (rep : Nat) : Report Int32 Traffic.Condition :=
  (rehearsal.run 4 (rehearsal.fork rep.toUInt64 rehearsalStart)).2.toOption.getD Report.empty

/-- Three repetitions that come back in another order, the reward being five in the first and the last. -/
theorem runParallel_merges_repetitions_rehearsal :
    ∃ merged, rehearsal.runParallel ⟨4, 3, 2⟩ (fun _ => [2, 0, 1]) rehearsalStart = .ok merged ∧
      merged.certificates = [2, 0, 1].flatMap (fun rep => (rehearsalReport rep).certificates) ∧
      merged.accepted = 3 ∧ merged.rejected = 3 ∧ quanta merged.totalReward = quanta 10.0 := by
  have hruns : ∀ rep < 3, (rehearsal.run 4 (rehearsal.fork rep.toUInt64 rehearsalStart)).2 =
      .ok (rehearsalReport rep) := by
    have hok : ∀ rep < 3, (rehearsal.run 4 (rehearsal.fork rep.toUInt64 rehearsalStart)).2.isOk = true := by
      decide +kernel
    exact fun rep hrep => eq_ok_getD _ (hok rep hrep)
  have hreward : ∀ rep < 3, quanta (rehearsalReport rep).totalReward =
      some (if rep = 1 then 0 else 5 * 2 ^ 1074) := by decide +kernel
  have hpartial : ∀ k, ∃ x, quanta x =
      some ((([2, 0, 1] : List Nat).take k).map fun rep => (if rep = 1 then 0 else 5 * 2 ^ 1074 : Int)).sum
    | 0 => ⟨0.0, by decide +kernel⟩
    | 1 => ⟨5.0, by decide +kernel⟩
    | 2 => ⟨10.0, by decide +kernel⟩
    | _ + 3 => ⟨10.0, by rw [List.take_of_length_le (by simp)]; decide +kernel⟩
  obtain ⟨merged, hmerged, hcerts, -, -, -, haccepted, hrejected, -, hexact⟩ :=
    (runParallel_merges_repetitions rehearsal ⟨4, 3, 2⟩ (fun _ => [2, 0, 1]) rehearsalStart rfl (by decide)).2.1
      (by decide) rehearsalReport hruns
  refine ⟨merged, hmerged, hcerts, ?_, ?_, ?_⟩
  · rw [haccepted]
    decide +kernel
  · rw [hrejected]
    decide +kernel
  · rw [hexact _ hreward hpartial]
    decide +kernel

/-- The rehearsal with a policy that always selects the same action, and a single rollout. -/
def drill : Supervisor Bench.Countdown Bench.Steady Int32 Nat Traffic.Condition where
  plant := rehearsal.plant
  policy := Bench.Steady.policy
  observe := rehearsal.observe
  spec := rehearsal.spec
  settings := ⟨1, 1, 1.0 - 1e-6⟩

def drillStart : Live Bench.Countdown Bench.Steady := ⟨{ remaining := 10 }, { action := 1 }⟩

/-- Repetitions that all succeed can be too many to be started: then there is no report. -/
theorem drill_not_started :
    FanoutSettings.check ⟨0, 2 ^ 64 - 1, 1⟩ = .ok () ∧
    (∀ rep < 2 ^ 64 - 1, (drill.run 0 (drill.fork rep.toUInt64 drillStart)).2 = .ok Report.empty) ∧
    ∀ finished, drill.runParallel ⟨0, 2 ^ 64 - 1, 1⟩ finished drillStart = .error .aborted := by
  refine ⟨rfl, fun _ _ => rfl, ?_⟩
  intro finished
  exact drill.runParallel_of_too_many _ finished drillStart rfl (by decide)

end Supervisor

end RightOfWay.Control

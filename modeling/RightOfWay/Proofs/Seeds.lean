import RightOfWay.Command.Session
import RightOfWay.Proofs.Repetitions
import Mathlib.Data.List.Nodup
import Mathlib.Data.Nat.ModEq
import Mathlib.Data.Nat.Prime.Basic

namespace RightOfWay.Traffic

/-- An odd factor can be cancelled modulo the size of a word. -/
theorem eq_of_mul_odd {factor : UInt64} (hodd : factor.toNat % 2 = 1) {i j : UInt64} (h : i * factor = j * factor) :
    i = j := by
  -- the size of a word is a power of two, so an odd factor has no divisor in common with it
  have hcoprime : (UInt64.size).gcd factor.toNat = 1 := by
    have htwo : Nat.Coprime 2 factor.toNat := Nat.coprime_two_left.mpr (Nat.odd_iff.mpr hodd)
    exact htwo.pow_left 64
  have hproducts : i.toNat * factor.toNat ≡ j.toNat * factor.toNat [MOD UInt64.size] := by
    have hnat := congrArg UInt64.toNat h
    rw [UInt64.toNat_mul, UInt64.toNat_mul] at hnat
    exact hnat
  have hnumbers : i.toNat ≡ j.toNat [MOD UInt64.size] := hproducts.cancel_right_of_coprime hcoprime
  exact UInt64.toNat_inj.mp (hnumbers.eq_of_lt_of_lt i.toNat_lt j.toNat_lt)

theorem eq_of_toUInt64_eq {i j : Nat} (hi : i < UInt64.size) (hj : j < UInt64.size) (h : i.toUInt64 = j.toUInt64) :
    i = j := by
  have hnat := congrArg UInt64.toNat h
  rwa [Nat.toUInt64_eq, Nat.toUInt64_eq, UInt64.toNat_ofNat_of_lt' hi, UInt64.toNat_ofNat_of_lt' hj] at hnat

namespace RandomPhases

theorem forkSeed_stream_inj {seed i j : UInt64} (h : forkSeed seed i = forkSeed seed j) : i = j := by
  have hproducts := (UInt64.add_right_inj _).mp h
  exact eq_of_mul_odd (by decide) hproducts

theorem forkSeed_seed_inj {seed seed' i : UInt64} (h : forkSeed seed i = forkSeed seed' i) : seed = seed' := by
  have hproducts := (UInt64.add_left_inj _).mp h
  exact eq_of_mul_odd (by decide) hproducts

end RandomPhases

end RightOfWay.Traffic

namespace RightOfWay.Control.Supervisor

open Traffic (Phase RandomPhases)

variable {S K A T O : Type}

/-- The copies on which the repetitions of a run work. -/
def copies (v : Supervisor S K A T O) (n : Nat) (l : Live S K) : List (Live S K) :=
  (List.range n).map fun rep => v.fork rep.toUInt64 l

/-- What a fan-out gathers are the runs of its copies, in the order in which they finish. -/
theorem runParallel_eq_copies (v : Supervisor S K A T O) (s : FanoutSettings) (finished : Nat → List Nat)
    (l : Live S K) (hcheck : s.check = .ok ()) (hfit : s.repetitions ≤ v.repetitionLimit)
    (horder : (finished s.repetitions).Perm (List.range s.repetitions)) :
    ∃ started : List (Live S K), started.Perm (v.copies s.repetitions l) ∧
      v.runParallel s finished l = (gather (started.map fun copy => (v.run s.iterations copy).2)).map
        fun reports => reports.foldl Report.merge Report.empty := by
  refine ⟨(finished s.repetitions).map fun rep => v.fork rep.toUInt64 l, horder.map _, ?_⟩
  rw [v.runParallel_eq s finished l hcheck hfit, List.map_map]
  rfl

theorem nodup_copies_seeds (v : Supervisor S RandomPhases Phase T O) (hpolicy : v.policy = RandomPhases.policy)
    (l : Live S RandomPhases) {n : Nat} (hn : n ≤ UInt64.size) :
    ((v.copies n l).map fun copy => copy.policy.seed).Nodup := by
  rw [copies, List.map_map]
  apply List.Nodup.map_on
  · intro i hi j hj hseeds
    rw [List.mem_range] at hi hj
    simp only [Function.comp_apply, fork, hpolicy] at hseeds
    exact Traffic.eq_of_toUInt64_eq (by omega) (by omega) (RandomPhases.forkSeed_stream_inj hseeds)
  · exact List.nodup_range

/-- Forks of a random policy for different repetitions have different seeds, and so have the copies that a fan-out runs. -/
theorem forks_never_share_seed :
    (∀ (r : RandomPhases) (i j : UInt64), i ≠ j → (r.fork i).seed ≠ (r.fork j).seed) ∧
    (∀ (r r' : RandomPhases) (i : UInt64), r.seed ≠ r'.seed → (r.fork i).seed ≠ (r'.fork i).seed) ∧
    ∀ {S T O : Type} (v : Supervisor S RandomPhases Phase T O) (l : Live S RandomPhases),
      v.policy = RandomPhases.policy →
      (∀ n ≤ UInt64.size, ((v.copies n l).map fun copy => copy.policy.seed).Nodup) ∧
      ∀ (s : FanoutSettings) (finished : Nat → List Nat), s.check = .ok () → s.repetitions ≤ v.repetitionLimit →
        (finished s.repetitions).Perm (List.range s.repetitions) →
        ∃ started : List (Live S RandomPhases), started.Perm (v.copies s.repetitions l) ∧
          v.runParallel s finished l = (gather (started.map fun copy => (v.run s.iterations copy).2)).map
            fun reports => reports.foldl Report.merge Report.empty := by
  refine ⟨?_, ?_, ?_⟩
  · intro r i j hij hseeds
    exact hij (RandomPhases.forkSeed_stream_inj hseeds)
  · intro r r' i hne hseeds
    exact hne (RandomPhases.forkSeed_seed_inj hseeds)
  · intro S T O v l hpolicy
    refine ⟨fun n hn => v.nodup_copies_seeds hpolicy l hn, ?_⟩
    intro s finished hcheck hfit horder
    exact v.runParallel_eq_copies s finished l hcheck hfit horder

/-- The supervisor of a session that watches the lights. -/
def lightWatch : Supervisor Traffic.Crossing RandomPhases Phase Traffic.View Phase :=
  Command.supervisor {} (fun crossing => crossing.signal.phase) ⟨Traffic.shield, Phase.valuation⟩ ⟨2048, by decide⟩

/-- Three repetitions of such a session that finish in another order; the seeds have come around once by the third. -/
theorem forks_never_share_seed_lightWatch :
    ((lightWatch.copies 3 (Command.startLive 42)).map fun copy => copy.policy.seed) =
      [0xa12f67b5d7deb85a, 0xf2ac296cff00c2ef, 0x4428eb242622cd84] ∧
    ((lightWatch.copies 3 (Command.startLive 42)).map fun copy => copy.policy.seed).Nodup ∧
    ((RandomPhases.ofSeed 42).fork 1).seed ≠ ((RandomPhases.ofSeed 43).fork 1).seed ∧
    ((RandomPhases.ofSeed 42).fork 0).seed ≠ ((RandomPhases.ofSeed 42).fork 1).seed ∧
    ∃ started : List (Live Traffic.Crossing RandomPhases), started.Perm (lightWatch.copies 3 (Command.startLive 42)) ∧
      lightWatch.runParallel ⟨10, 3, 2⟩ (fun _ => [2, 0, 1]) (Command.startLive 42) =
        (gather (started.map fun copy => (lightWatch.run 10 copy).2)).map
          fun reports => reports.foldl Report.merge Report.empty := by
  obtain ⟨hstreams, hseeds, hcopies⟩ := forks_never_share_seed
  obtain ⟨hdistinct, hfanout⟩ := hcopies lightWatch (Command.startLive 42) rfl
  refine ⟨rfl, hdistinct 3 (by decide), hseeds _ _ 1 (by decide), hstreams _ 0 1 (by decide), ?_⟩
  exact hfanout ⟨10, 3, 2⟩ (fun _ => [2, 0, 1]) rfl (by decide) (by decide)

end RightOfWay.Control.Supervisor

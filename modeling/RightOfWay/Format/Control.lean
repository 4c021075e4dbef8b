import RightOfWay.Control.Dossier
import RightOfWay.Format.Logic

namespace RightOfWay.Control

open Json (Codec encode decode fields? required optional memberUnless)
open Logic (Certificate Trace)

instance : Codec Settings where
  encode s := .obj [("num_trajectories", encode s.traces), ("horizon", encode s.horizon),
    ("acceptance_threshold", encode s.threshold)]
  decode
    | 0, _ => none
    | room + 1, v =>
      match fields? ["num_trajectories", "horizon", "acceptance_threshold"] v with
      | some [traces, horizon, threshold] => do
        return ⟨← required room traces, ← required room horizon, ← required room threshold⟩
      | _ => none

instance : Codec FanoutSettings where
  encode s := .obj [("iterations", encode s.iterations), ("repetitions", encode s.repetitions),
    ("workers", encode s.workers)]
  decode
    | 0, _ => none
    | room + 1, v =>
      match fields? ["iterations", "repetitions", "workers"] v with
      | some [iterations, repetitions, workers] => do
        return ⟨← required room iterations, ← required room repetitions, ← required room workers⟩
      | _ => none

def decodeEntries (room : Nat) : List (String × Json) → Option (List (String × Float))
  | [] => some []
  | (k, v) :: ms =>
    match (decode room v : Option Float), decodeEntries room ms with
    | some x, some es => some ((k, x) :: es)
    | _, _ => none

/-- Diagnostics are an object; of a name given twice the last value counts. -/
instance : Codec Info where
  encode i := .obj (i.entries.map fun e => (e.1, encode e.2))
  decode
    | room + 1, .obj ms => (decodeEntries room ms).map Info.ofList
    | _, _ => none

instance {T : Type} [Codec T] : Codec (Transition T) where
  encode t := .obj <|
    [("state", encode t.state), ("reward", encode t.reward), ("done", encode t.done)] ++
      memberUnless t.info.isEmpty "info" (encode t.info)
  decode
    | 0, _ => none
    | room + 1, v =>
      match fields? ["state", "reward", "done", "info"] v with
      | some [state, reward, done, info] => do
        return ⟨← required room state, ← required room reward, ← required room done, ← optional .empty room info⟩
      | _ => none

instance {T A O : Type} [Codec T] [Codec A] [Codec O] : Codec (StepReport T A O) where
  encode r := .obj <|
    [("next_state", encode r.next), ("reward", encode r.reward), ("done", encode r.done)] ++
      memberUnless r.info.isEmpty "info" (encode r.info) ++
      [("certificate", encode r.certificate), ("trajectories", encode r.traces)]
  decode
    | 0, _ => none
    | room + 1, v =>
      match fields? ["next_state", "reward", "done", "info", "certificate", "trajectories"] v with
      | some [next, reward, done, info, certificate, traces] => do
        return ⟨← required room next, ← required room reward, ← required room done, ← optional .empty room info,
          ← required room certificate, ← required room traces⟩
      | _ => none

instance {A O : Type} [Codec A] [Codec O] : Codec (Report A O) where
  encode r := .obj [("certificates", encode r.certificates), ("trajectories", encode r.traces),
    ("accepted", encode r.accepted), ("total_reward", encode r.totalReward)]
  decode
    | 0, _ => none
    | room + 1, v =>
      match fields? ["certificates", "trajectories", "accepted", "total_reward"] v with
      | some [certificates, traces, accepted, totalReward] => do
        return ⟨← required room certificates, ← required room traces, ← required room accepted, ← required room totalReward⟩
      | _ => none

instance : Codec Entry where
  encode e := .obj <|
    [("action", encode e.action), ("robustness", encode e.robustness), ("accepted", encode e.accepted)] ++
      memberUnless e.perTrace.isEmpty "per_trajectory" (encode e.perTrace)
  decode
    | 0, _ => none
    | room + 1, v =>
      match fields? ["action", "robustness", "accepted", "per_trajectory"] v with
      | some [action, robustness, accepted, perTrace] => do
        return ⟨← required room action, ← required room robustness, ← required room accepted, ← required room perTrace⟩
      | _ => none

instance : Codec Dossier where
  encode d := .obj [("spec", encode d.rule), ("formula", encode d.formula), ("seed", encode d.seed),
    ("threshold", encode d.threshold), ("certificates", encode d.entries),
    ("trajectories", encode d.traces), ("accepted", encode d.accepted), ("rejected", encode d.rejected)]
  decode
    | 0, _ => none
    | room + 1, v =>
      match fields? ["spec", "formula", "seed", "threshold", "certificates", "trajectories", "accepted",
          "rejected"] v with
      | some [rule, formula, seed, threshold, entries, traces, accepted, rejected] => do
        return ⟨← required room rule, ← required room formula, ← required room seed, ← required room threshold,
          ← required room entries, ← required room traces, ← required room accepted, ← required room rejected⟩
      | _ => none

end RightOfWay.Control

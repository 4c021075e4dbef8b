import RightOfWay.Control.Supervisor

namespace RightOfWay.Control

structure Pool where
  workers : Nat

/-- The most elements of a list, which has less than `2 ^ 63` bytes. -/
def listLimit (bytes : Nat) : Nat := (UInt64.size / 2 - 1) / bytes

/-- The most workers of a pool: each is listed with 8 bytes. -/
def workerLimit : Nat := listLimit 8

/-- A pool needs a worker, and room for all of them. -/
def Pool.ofWorkers (n : Nat) : Except Failure Pool :=
  if n = 0 then .error (.misfit .emptyPool)
  else if workerLimit < n then .error .aborted
  else .ok ⟨n⟩

/-- A job that is broken off inside a worker is known only as a failed worker. -/
def Failure.inWorker : Failure → Failure
  | .aborted => .worker
  | e => e

/-- Collects the outcomes of jobs in the order in which they finish. -/
def gather {R : Type} : List (Except Failure R) → Except Failure (List R)
  | [] => .ok []
  | .error e :: _ => .error e.inWorker
  | .ok r :: outcomes =>
    match gather outcomes with
    | .error e => .error e
    | .ok rs => .ok (r :: rs)

variable {S K A T O : Type}

namespace Supervisor

/-- The most repetitions of a run: their jobs are listed before the first one starts. -/
def repetitionLimit (v : Supervisor S K A T O) : Nat := listLimit v.jobSize.bytes

def repetition (v : Supervisor S K A T O) (n : Nat) (l : Live S K) (rep : Nat) :
    Except Failure (List (Iteration A T O)) :=
  (v.iterations n (v.fork rep.toUInt64 l)).2

/-- The iterations of all repetitions. For a number of repetitions `finished` gives the order in which they
come back. -/
def repetitions (v : Supervisor S K A T O) (s : FanoutSettings) (finished : Nat → List Nat) (l : Live S K) :
    Except Failure (List (List (Iteration A T O))) :=
  match s.check with
  | .error m => .error (.misfit m)
  | .ok () =>
    if v.repetitionLimit < s.repetitions then .error .aborted
    else gather ((finished s.repetitions).map (v.repetition s.iterations l))

/-- The merged report of all repetitions. The state of the supervised run itself stays as it is. -/
def runParallel (v : Supervisor S K A T O) (s : FanoutSettings) (finished : Nat → List Nat) (l : Live S K) :
    Except Failure (Report A O) :=
  match v.repetitions s finished l with
  | .error e => .error e
  | .ok runs =>
    .ok ((runs.map (Report.ofIterations v.settings.threshold)).foldl Report.merge Report.empty)

end Supervisor

end RightOfWay.Control

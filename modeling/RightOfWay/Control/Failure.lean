import RightOfWay.Control.Plant
import RightOfWay.Logic.Robustness

namespace RightOfWay.Control

open Logic (EvalError)

/-- A setting that a run cannot start with. -/
inductive Misfit where
  | noTraces
  | infiniteThreshold
  | noWorkers
  | emptyPool
  | spawnRate
  | roadLength
  deriving DecidableEq

def Misfit.message : Misfit → String
  | .noTraces => "num_trajectories must be at least 1"
  | .infiniteThreshold => "acceptance_threshold must be finite"
  | .noWorkers => "workers must be at least 1"
  | .emptyPool => "worker pool needs at least one worker"
  | .spawnRate => "spawn_rate must be a probability in [0, 1]"
  | .roadLength => "road_half_length must be at least 1"

/-- Why a run fails. Errors of the semantics and faults are passed on unchanged. -/
inductive Failure where
  | eval (e : EvalError)
  | fault (f : Fault)
  | misfit (m : Misfit)
  /-- A job of a pool came to an abrupt end. -/
  | worker
  | storage (reason : String)
  /-- Something could not be carried out at all. -/
  | aborted

def Failure.message : Failure → String
  | .eval e => e.message
  | .fault f => f.message
  | .misfit m => "Invalid configuration: " ++ m.message
  | .worker => "Worker failed"
  | .storage reason => "Export failed: " ++ reason
  | .aborted => "Step aborted"

def Interruption.toFailure : Interruption → Failure
  | .fault f => .fault f
  | .aborted => .aborted

end RightOfWay.Control

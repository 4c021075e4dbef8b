import RightOfWay.Control.Failure
import RightOfWay.Traffic.Crossing

namespace RightOfWay.Control

/-- How actions are certified. -/
structure Settings where
  traces : Nat := 10
  horizon : Nat := 10
  /-- The robustness from which on an action is accepted. -/
  threshold : Float := 1.0 - 1e-6

/-- A certificate needs a trace, and a threshold that can be reached or missed. -/
def Settings.check (s : Settings) : Except Misfit Unit :=
  if s.traces = 0 then .error .noTraces
  else if !s.threshold.isFinite then .error .infiniteThreshold
  else .ok ()

/-- How repetitions are fanned out. -/
structure FanoutSettings where
  iterations : Nat := 10
  repetitions : Nat := 10
  workers : Nat := 5

def FanoutSettings.check (s : FanoutSettings) : Except Misfit Unit :=
  if s.workers = 0 then .error .noWorkers else .ok ()

end RightOfWay.Control

namespace RightOfWay.Traffic

/-- Arrivals need a probability, and a road at least one cell to either side. -/
def Setup.check (s : Setup) : Except Control.Misfit Unit :=
  if !(0.0 ≤ s.spawnRate && s.spawnRate ≤ 1.0) then .error .spawnRate
  else if s.halfLength < 1 then .error .roadLength
  else .ok ()

end RightOfWay.Traffic

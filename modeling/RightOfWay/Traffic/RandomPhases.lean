import RightOfWay.Traffic.Crossing

namespace RightOfWay.Traffic

open Control (Policy)
open Chance (Stream)

/-- The seed of a random policy and the state of its stream. -/
structure RandomPhases where
  seed : UInt64
  stream : Stream

namespace RandomPhases

def ofSeed (seed : UInt64) : RandomPhases := ⟨seed, .ofSeed seed⟩

def draw (r : RandomPhases) : Phase × RandomPhases :=
  let (n, stream) := r.stream.belowSixteen
  (.ofBits n, { r with stream := stream })

/-- The seed of a repetition: both the seed and the number of the repetition enter with an odd factor, so
different ones never meet. -/
def forkSeed (seed stream : UInt64) : UInt64 := seed * goldenRatio + stream * 0x517cc1b727220a95

def fork (stream : UInt64) (r : RandomPhases) : RandomPhases := .ofSeed (forkSeed r.seed stream)

def policy : Policy RandomPhases Phase where
  select r := (r.draw.2, .ok r.draw.1)
  fork := fork

end RandomPhases

end RightOfWay.Traffic

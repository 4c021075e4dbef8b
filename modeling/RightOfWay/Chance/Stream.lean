import RightOfWay.Chance.Block

namespace RightOfWay.Chance

/-- A position in the words of a key: the blocks from `next` on are still to come, after the words of the
current block that are `ready`. -/
structure Stream where
  key : Key
  next : UInt64
  ready : List UInt32
  deriving DecidableEq

/-- The state of the generator that spreads a seed over the words of a key. -/
def spreadStep (s : UInt64) : UInt64 := s * 6364136223846793005 + 11634580027462260723

/-- The key word of a spreading state: bits from its middle, rotated by its topmost bits. -/
def spreadWord (s : UInt64) : UInt32 :=
  let x := (((s >>> 18) ^^^ s) >>> 27).toUInt32
  let r := (s >>> 59).toUInt32
  x >>> r ||| x <<< ((32 - r) % 32)

/-- The key of a seed: one word for each of eight steps. -/
def keyOfSeed (seed : UInt64) : Key :=
  Vector.ofFn fun i => spreadWord ((List.replicate (i + 1) ()).foldl (fun s _ => spreadStep s) seed)

namespace Stream

def ofSeed (seed : UInt64) : Stream := ⟨keyOfSeed seed, 0, []⟩

def word (s : Stream) : UInt32 × Stream :=
  match s.ready with
  | w :: ws => (w, { s with ready := ws })
  | [] =>
    let b := block s.key s.next
    (b[0], { s with next := s.next + 1, ready := b.toList.tail })

/-- The next two words as one, the low half first. -/
def doubleWord (s : Stream) : UInt64 × Stream :=
  let (low, s) := s.word
  let (high, s) := s.word
  (high.toUInt64 <<< 32 ||| low.toUInt64, s)

/-- A number below sixteen: the top four bits of a word. -/
def belowSixteen (s : Stream) : Nat × Stream :=
  let (w, s) := s.word
  ((w >>> 28).toNat, s)

/-- The top two bits of the first double word whose next bit is clear, of at most `tries + 1` double
words; the last of them is taken as it is. -/
def belowFourWithin (tries : Nat) (s : Stream) : Fin 4 × Stream :=
  let (v, s) := s.doubleWord
  let lane := Fin.ofNat 4 (v >>> 62).toNat
  match tries with
  | 0 => (lane, s)
  | tries + 1 => if v * 4 ≤ 0x7fffffffffffffff then (lane, s) else belowFourWithin tries s

/-- A number below four, by rejection. Half of all double words are taken, so the bound on their number
is out of reach. -/
def belowFour (s : Stream) : Fin 4 × Stream := belowFourWithin 1023 s

/-- Whether an event of probability `p` occurs; none if `p` is no probability. A certain event draws
nothing, any other one compares a double word with `p` in units of `2 ^ -64`. -/
def event (p : Float) (s : Stream) : Option (Bool × Stream) :=
  if 0.0 ≤ p && p < 1.0 then
    let (v, s) := s.doubleWord
    some (v < (p * 18446744073709551616.0).toUInt64, s)
  else if p == 1.0 then some (true, s)
  else none

end Stream

end RightOfWay.Chance

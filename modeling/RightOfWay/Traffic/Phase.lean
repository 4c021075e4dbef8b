import RightOfWay.Traffic.Approach

namespace RightOfWay.Traffic

/-- Which lights are green. -/
structure Phase where
  north : Bool
  east : Bool
  south : Bool
  west : Bool
  deriving DecidableEq, Inhabited

namespace Phase

def allRed : Phase := ⟨false, false, false, false⟩

def isGreen (p : Phase) : Approach → Bool
  | .north => p.north
  | .east => p.east
  | .south => p.south
  | .west => p.west

/-- The phase with one more green light. -/
def withGreen (p : Phase) : Approach → Phase
  | .north => { p with north := true }
  | .east => { p with east := true }
  | .south => { p with south := true }
  | .west => { p with west := true }

/-- The phase in which exactly the given lights are green. -/
def green (as : List Approach) : Phase := as.foldl withGreen allRed

/-- The phase of the low four bits, the north light lowest, then clockwise. -/
def ofBits (n : Nat) : Phase := ⟨n.testBit 0, n.testBit 1, n.testBit 2, n.testBit 3⟩

def bits (p : Phase) : Nat :=
  p.north.toNat + 2 * p.east.toNat + 4 * p.south.toNat + 8 * p.west.toNat

/-- Whether two crossing lanes have green at once. -/
def hasConflict (p : Phase) : Bool :=
  [Approach.north, .south].any fun a => p.isGreen a && a.crossing.any p.isGreen

/-- The letters of the green lights, clockwise, with a dash for each red one. -/
def text (p : Phase) : String :=
  String.join (Approach.all.map fun a => if p.isGreen a then a.letter else "-")

end Phase

end RightOfWay.Traffic

import RightOfWay.Text.Letter

namespace RightOfWay.Traffic

/-- Where the vehicles of a lane come from, clockwise from the north. -/
inductive Approach where
  | north
  | east
  | south
  | west
  deriving DecidableEq, Inhabited

structure Position where
  x : Float
  y : Float

structure Cell where
  x : Int
  y : Int
  deriving DecidableEq

def Cell.toPosition (c : Cell) : Position := ⟨Float.ofInt c.x, Float.ofInt c.y⟩

def Cell.add (a b : Cell) : Cell := ⟨a.x + b.x, a.y + b.y⟩

namespace Approach

def all : List Approach := [.north, .east, .south, .west]

/-- The place of an approach in clockwise order. -/
def index : Approach → Nat
  | .north => 0
  | .east => 1
  | .south => 2
  | .west => 3

def ofIndex : Fin 4 → Approach
  | 0 => .north
  | 1 => .east
  | 2 => .south
  | 3 => .west

/-- The letter of an approach, which is also the proposition that its light is green. -/
def letter : Approach → String
  | .north => "N"
  | .east => "E"
  | .south => "S"
  | .west => "W"

def fullName : Approach → String
  | .north => "North"
  | .east => "East"
  | .south => "South"
  | .west => "West"

/-- Reads a letter or a full name, in any case. -/
def ofText? (s : String) : Option Approach :=
  let word := Text.capitals s
  all.find? fun a => word == a.letter || word == Text.capitals a.fullName

/-- What is said of a text that names no approach. -/
def unknownText (s : String) : String := "Unknown direction: " ++ s

/-- The two approaches whose lanes cross this one's. -/
def crossing : Approach → List Approach
  | .north | .south => [.east, .west]
  | .east | .west => [.north, .south]

/-- The cell where a lane enters a road of the given half-length. -/
def entry (a : Approach) (halfLength : Int) : Cell :=
  match a with
  | .north => ⟨-1, halfLength⟩
  | .east => ⟨halfLength, 1⟩
  | .south => ⟨1, -halfLength⟩
  | .west => ⟨-halfLength, -1⟩

/-- The entry as a point. On a road without length the far ends are at negative zero. -/
def entryPosition (a : Approach) (halfLength : Int) : Position :=
  let l := Float.ofInt halfLength
  match a with
  | .north => ⟨-1.0, l⟩
  | .east => ⟨l, 1.0⟩
  | .south => ⟨1.0, -l⟩
  | .west => ⟨-l, -1.0⟩

/-- How a vehicle of the lane moves in one tick. -/
def heading : Approach → Cell
  | .north => ⟨0, -1⟩
  | .east => ⟨-1, 0⟩
  | .south => ⟨0, 1⟩
  | .west => ⟨1, 0⟩

end Approach

end RightOfWay.Traffic

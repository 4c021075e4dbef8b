namespace RightOfWay.Number

def infinity : Float := Float.ofBits 0x7ff0000000000000

def nan : Float := Float.ofBits 0x7ff8000000000000

/-- The smaller of two values; a NaN gives way to the other one. -/
def least (x y : Float) : Float :=
  if x.isNaN then y else if y < x then y else x

/-- The larger of two values; a NaN gives way to the other one. -/
def greatest (x y : Float) : Float :=
  if x.isNaN then y else if x < y then y else x

/-- The smallest value of a list, if the list has a value at all. -/
def leastOf? : List Float → Option Float
  | [] => none
  | x :: xs => some (xs.foldl least x)

/-- The largest value of a list, if the list has a value at all. -/
def greatestOf? : List Float → Option Float
  | [] => none
  | x :: xs => some (xs.foldl greatest x)

end RightOfWay.Number

import RightOfWay.Number.Shortest

namespace RightOfWay.Number

/-- How a value is laid out once its digits are known. -/
structure Layout where
  /-- Smallest exponent of ten that is still written positionally. -/
  lowest : Int
  /-- Largest exponent of ten that is still written positionally. -/
  highest : Int
  /-- How the last digit is chosen between two equally near ones. -/
  tie : Tie
  /-- What stands before a positive exponent. -/
  exponentSign : String
  nan : String
  infinity : String
  negInfinity : String

/-- The digits of a decimal without trailing zeros, and where the point stands: the value is
`0.d₁d₂… * 10 ^ point`. -/
def Decimal.significand (d : Decimal) : List Char × Int :=
  let text := Nat.toDigits 10 d.digits
  let kept := (text.reverse.dropWhile (· == '0')).reverse
  (kept, text.length + d.exponent)

def zeros (n : Int) : List Char := List.replicate n.toNat '0'

/-- Digits with a point among them, and at least one digit on either side of it. -/
def positional (digits : List Char) (point : Int) : List Char :=
  if point ≤ 0 then '0' :: '.' :: zeros (-point) ++ digits
  else if (digits.length : Int) ≤ point then digits ++ zeros (point - digits.length) ++ ['.', '0']
  else digits.take point.toNat ++ '.' :: digits.drop point.toNat

/-- One digit, the others behind a point, and the exponent. -/
def Layout.scientific (l : Layout) (digits : List Char) (point : Int) : List Char :=
  let exponent := point - 1
  let sign := if exponent < 0 then ['-'] else l.exponentSign.toList
  let fraction := match digits.drop 1 with
    | [] => []
    | more => '.' :: more
  digits.take 1 ++ fraction ++ 'e' :: sign ++ Nat.toDigits 10 exponent.natAbs

def Layout.magnitude (l : Layout) (m : Magnitude) : List Char :=
  let (digits, point) := (m.shortest l.tie).significand
  if l.lowest ≤ point - 1 && point - 1 ≤ l.highest then positional digits point
  else l.scientific digits point

/-- The text of a value under a layout. -/
def Layout.write (l : Layout) (x : Float) : List Char :=
  let sign := if isNegative x then ['-'] else []
  match kind x with
  | .nan => l.nan.toList
  | .infinite => (if isNegative x then l.negInfinity else l.infinity).toList
  | .zero => sign ++ ['0', '.', '0']
  | .finite m => sign ++ l.magnitude m

/-- `num / den` rounded to the nearest integer, a half to the even one. -/
def roundDiv (num den : Nat) : Nat :=
  let floor := num / den
  let twice := 2 * (num % den)
  if twice < den then floor
  else if den < twice then floor + 1
  else floor + floor % 2

/-- A magnitude in units of `10 ^ (-places)`, rounded to the nearest unit. -/
def Magnitude.inUnits (m : Magnitude) (places : Nat) : Nat :=
  roundDiv ((m.mantissa * Nat.pow 10 places) <<< m.exponent.toNat) (1 <<< (-m.exponent).toNat)

/-- `units * 10 ^ (-places)` with all its places. -/
def placed (places units : Nat) : List Char :=
  let fraction := Nat.toDigits 10 (units % Nat.pow 10 places)
  Nat.toDigits 10 (units / Nat.pow 10 places) ++
    '.' :: (List.replicate (places - fraction.length) '0' ++ fraction)

/-- A value with a fixed number of places. The sign stays also where the rounded value is zero. -/
def fixed (places : Nat) (x : Float) : List Char :=
  let sign := if isNegative x then ['-'] else []
  match kind x with
  | .nan => "NaN".toList
  | .infinite => sign ++ "inf".toList
  | .zero => sign ++ placed places 0
  | .finite m => sign ++ placed places (m.inUnits places)

end RightOfWay.Number

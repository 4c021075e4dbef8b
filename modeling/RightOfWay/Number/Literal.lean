import RightOfWay.Number.Extremum

namespace RightOfWay.Number

def digitValue (c : Char) : Nat := c.toNat - '0'.toNat

/-- The number that a row of digits stands for, in base ten. -/
def ofDigits (ds : List Char) : Nat := ds.foldl (fun n c => n * 10 + digitValue c) 0

/-- The longest row of digits in front, and what follows it. -/
def spanDigits (cs : List Char) : List Char × List Char :=
  (cs.takeWhile Char.isDigit, cs.dropWhile Char.isDigit)

/-- `digits * 10 ^ exponent` as the nearest binary64 value. Numbers past either end of the range are
settled before any power of ten is formed. -/
def nearest (digits : Nat) (exponent : Int) : Float :=
  let size := (Nat.toDigits 10 digits).length + exponent
  if digits = 0 then 0.0
  else if 310 < size then infinity
  else if size < -330 then 0.0
  else if exponent < 0 then Float.ofScientific digits true exponent.natAbs
  else Float.ofScientific digits false exponent.natAbs

/-- The exponent part of a decimal: nothing, or a letter `e`, an optional sign and digits to the end. -/
def exponentPart? : List Char → Option Int
  | [] => some 0
  | c :: cs =>
    if c = 'e' || c = 'E' then
      let (negative, cs) := match cs with
        | '-' :: r => (true, r)
        | '+' :: r => (false, r)
        | r => (false, r)
      match spanDigits cs with
      | ([], _) => none
      | (ds, []) => some (if negative then -(ofDigits ds : Int) else ofDigits ds)
      | (_, _ :: _) => none
    else none

/-- An unsigned decimal: digits with at most one point among them, at least one digit, and an exponent. -/
def decimal? (cs : List Char) : Option Float :=
  let (whole, cs) := spanDigits cs
  let (fraction, cs) := match cs with
    | '.' :: r => spanDigits r
    | r => ([], r)
  if whole.isEmpty && fraction.isEmpty then none
  else (exponentPart? cs).map fun e => nearest (ofDigits (whole ++ fraction)) (e - fraction.length)

/-- A value without its sign. The words are read in any case. -/
def unsigned? (cs : List Char) : Option Float :=
  match String.ofList (cs.map Char.toLower) with
  | "inf" | "infinity" => some infinity
  | "nan" => some nan
  | _ => decimal? cs

def float? (s : String) : Option Float :=
  match s.toList with
  | '-' :: cs => (unsigned? cs).map fun x => -x
  | '+' :: cs => unsigned? cs
  | cs => unsigned? cs

/-- Reads a natural number below `bound`, with an optional plus sign. -/
def natBelow? (bound : Nat) (s : String) : Option Nat :=
  let cs := match s.toList with
    | '+' :: r => r
    | r => r
  if cs.isEmpty || !cs.all Char.isDigit then none
  else
    let n := ofDigits cs
    if n < bound then some n else none

end RightOfWay.Number

namespace RightOfWay.Number

/-- The finite non-zero magnitude `mantissa * 2 ^ exponent`. `narrowBelow` holds when the gap to the
next smaller magnitude is half the gap to the next larger one. -/
structure Magnitude where
  mantissa : Nat
  exponent : Int
  narrowBelow : Bool

/-- What the bit pattern of a binary64 value stands for, the sign apart. -/
inductive Kind where
  | nan
  | infinite
  | zero
  | finite (m : Magnitude)

/-- Whether the sign bit is set; a negative zero has it set. -/
def isNegative (x : Float) : Bool := x.toBits >>> 63 == 1

/-- Reads the exponent and fraction fields of a value. -/
def kind (x : Float) : Kind :=
  let bits := x.toBits.toNat
  let fraction := bits % (1 <<< 52)
  let field : Nat := (bits >>> 52) % 2048
  if field = 2047 then
    if fraction = 0 then .infinite else .nan
  else if field = 0 then
    if fraction = 0 then .zero else .finite ⟨fraction, -1074, false⟩
  else .finite ⟨(1 <<< 52) + fraction, (field : Int) - 1075, fraction = 0 && field != 1⟩

/-- The decimal `digits * 10 ^ exponent`. -/
structure Decimal where
  digits : Nat
  exponent : Int

/-- Which of two digits is taken where both are equally near. -/
inductive Tie where
  | even
  | up
  deriving DecidableEq

/-- Whether the lower of two neighbours, whose last digits are those of `below` and `below + 1`, is taken. -/
def Tie.takesBelow (tie : Tie) (below : Nat) : Bool :=
  match tie with
  | .even => below % 2 = 0
  | .up => false

/-- Number of decimal digits of `n`; zero has one. -/
def width (n : Nat) : Nat := (Nat.toDigits 10 n).length

/-- The `k` with `10 ^ (k - 1) ≤ m < 10 ^ k`. -/
def Magnitude.decimalPoint (m : Magnitude) : Int :=
  let num := m.mantissa <<< m.exponent.toNat
  let den := 1 <<< (-m.exponent).toNat
  if den ≤ num then width (num / den)
  else 1 - width ((den + num - 1) / num - 1)

/-- The decimal with unit `10 ^ e` that is nearest to `m`, if it is in the interval of values that round to `m`.
The ends of the interval are in it exactly when the mantissa is even. -/
def Magnitude.onGrid? (m : Magnitude) (tie : Tie) (e : Int) : Option Decimal :=
  let q := m.exponent - 2
  let gridUnit := Nat.pow 10 e.toNat <<< (-q).toNat
  let binaryUnit := Nat.pow 10 (-e).toNat <<< q.toNat
  let value := 4 * m.mantissa * binaryUnit
  let low := (4 * m.mantissa - if m.narrowBelow then 1 else 2) * binaryUnit
  let high := (4 * m.mantissa + 2) * binaryUnit
  let closed := m.mantissa % 2 = 0
  let below := value / gridUnit
  let fits (d : Nat) : Bool :=
    let point := d * gridUnit
    if closed then low ≤ point && point ≤ high else low < point && point < high
  let downGap := value - below * gridUnit
  let upGap := (below + 1) * gridUnit - value
  let downFits := below != 0 && fits below
  let upFits := fits (below + 1)
  if downFits && upFits then
    if downGap < upGap || downGap = upGap && tie.takesBelow below then some ⟨below, e⟩
    else some ⟨below + 1, e⟩
  else if downFits then some ⟨below, e⟩
  else if upFits then some ⟨below + 1, e⟩
  else none

/-- The fewest digits that read back as `m`; seventeen always suffice. -/
def Magnitude.shortest (m : Magnitude) (tie : Tie) : Decimal :=
  let point := m.decimalPoint
  ((List.range 17).findSome? fun n => m.onGrid? tie (point - (n + 1 : Nat))).getD ⟨0, 0⟩

end RightOfWay.Number

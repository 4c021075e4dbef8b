import RightOfWay.Number.Literal

namespace RightOfWay.Json

open Number (digitValue ofDigits spanDigits)

/-- A numeral as written. -/
structure Numeral where
  negative : Bool
  whole : List Char
  /-- The digits behind the point; none if there is no point. -/
  fraction : Option (List Char)
  /-- Whether the exponent is negative, and its digits. -/
  exponent : Option (Bool × List Char)

/-- The value of a number in JSON text. -/
inductive Quantity where
  | int (i : Int)
  | float (x : Float)

def scanMinus : List Char → Bool × List Char
  | '-' :: cs => (true, cs)
  | cs => (false, cs)

/-- As `scanMinus`, but a plus sign may stand in front as well. -/
def scanSign : List Char → Bool × List Char
  | '+' :: cs => (false, cs)
  | cs => scanMinus cs

/-- The part behind the point, if there is a point: at least one digit. -/
def scanFraction : List Char → Option (Option (List Char) × List Char)
  | '.' :: cs =>
    if (spanDigits cs).1.isEmpty then none else some (some (spanDigits cs).1, (spanDigits cs).2)
  | cs => some (none, cs)

/-- The exponent, if there is one: a letter `e`, an optional sign and at least one digit. -/
def scanExponent : List Char → Option (Option (Bool × List Char) × List Char)
  | [] => some (none, [])
  | c :: cs =>
    if c = 'e' || c = 'E' then
      let s := scanSign cs
      if (spanDigits s.2).1.isEmpty then none
      else some (some (s.1, (spanDigits s.2).1), (spanDigits s.2).2)
    else some (none, c :: cs)

/-- Whether digits can be the whole part: at least one, and no zero in front of another digit. -/
def isWhole : List Char → Bool
  | [] => false
  | '0' :: _ :: _ => false
  | _ => true

/-- The numeral at the front of a text and what follows it. -/
def Numeral.scan (cs : List Char) : Option (Numeral × List Char) :=
  let s := scanMinus cs
  let whole := (spanDigits s.2).1
  if isWhole whole then
    match scanFraction (spanDigits s.2).2 with
    | none => none
    | some (fraction, cs) =>
      match scanExponent cs with
      | none => none
      | some (exponent, cs) => some (⟨s.1, whole, fraction, exponent⟩, cs)
  else none

/-- Appends digits to `n` while the result fits in 64 bits; gives the digits that are left as well. -/
def absorb (n : Nat) : List Char → Nat × List Char
  | [] => (n, [])
  | c :: cs =>
    let more := n * 10 + digitValue c
    if more < UInt64.size then absorb more cs else (n, c :: cs)

def powerOfTen (n : Nat) : Float := Float.ofScientific 1 false n

/-- `significand * 10 ^ exponent` by one product or quotient with a power of ten, or two quotients where a
single power of ten is out of range. A product past the range has no value. -/
def scaled? (significand : Nat) (exponent : Int) : Option Float :=
  let f := Float.ofNat significand
  if 0 ≤ exponent then
    if exponent ≤ 308 then
      let x := f * powerOfTen exponent.toNat
      if x.isInf then none else some x
    else if significand = 0 then some 0.0 else none
  else if -308 ≤ exponent then some (f / powerOfTen exponent.natAbs)
  else if -616 ≤ exponent then some (f / powerOfTen 308 / powerOfTen (exponent + 308).natAbs)
  else some 0.0

/-- The value of a numeral; none where it is out of range. -/
def Numeral.value (n : Numeral) : Option Quantity :=
  let signed (x : Float) : Quantity := .float (if n.negative then -x else x)
  let (significand, left) := absorb 0 n.whole
  match n.fraction, n.exponent with
  | none, none =>
    if left.isEmpty then
      if !n.negative then some (.int significand)
      else if significand = 0 || UInt64.size < 2 * significand then some (signed (Float.ofNat significand))
      else some (.int (-significand))
    else (scaled? significand left.length).map signed
  | fraction, exponent =>
    let digits := fraction.getD []
    let (significand, ignored) := absorb significand digits
    let places : Int := left.length - (digits.length - ignored.length : Nat)
    match exponent with
    | none => (scaled? significand places).map signed
    | some (negative, ds) =>
      let e := ofDigits ds
      if 2 * e < UInt32.size then
        (scaled? significand (if negative then places - e else places + e)).map signed
      else if significand != 0 && !negative then none
      else some (signed 0.0)

/-- The number at the front of a text, with its value if it has one, and what follows it. -/
def scanNumber (cs : List Char) : Option (Option Quantity × List Char) :=
  match Numeral.scan cs with
  | none => none
  | some (n, rest) => some (n.value, rest)

theorem spanDigits_length (cs : List Char) :
    (spanDigits cs).1.length + (spanDigits cs).2.length = cs.length := by
  rw [← List.length_append]
  exact congrArg List.length List.takeWhile_append_dropWhile

theorem scanMinus_length (cs : List Char) : (scanMinus cs).2.length ≤ cs.length := by
  unfold scanMinus
  split <;> simp

theorem scanSign_length (cs : List Char) : (scanSign cs).2.length ≤ cs.length := by
  unfold scanSign
  split
  · simp
  · exact scanMinus_length _

theorem scanFraction_length {cs rest : List Char} {f : Option (List Char)}
    (h : scanFraction cs = some (f, rest)) : rest.length ≤ cs.length := by
  unfold scanFraction at h
  split at h
  · rename_i cs
    split at h
    · cases h
    · cases h
      have hs := spanDigits_length cs
      simp only [List.length_cons]
      omega
  · cases h
    exact Nat.le_refl _

theorem scanExponent_length {cs rest : List Char} {e : Option (Bool × List Char)}
    (h : scanExponent cs = some (e, rest)) : rest.length ≤ cs.length := by
  unfold scanExponent at h
  split at h
  · cases h
    exact Nat.le_refl _
  · rename_i c cs
    simp only at h
    split at h
    · split at h
      · cases h
      · cases h
        have hs := spanDigits_length (scanSign cs).2
        have hc := scanSign_length cs
        simp only [List.length_cons]
        omega
    · cases h
      exact Nat.le_refl _

/-- A number takes at least one character. -/
theorem scanNumber_length {cs rest : List Char} {q : Option Quantity}
    (h : scanNumber cs = some (q, rest)) : rest.length < cs.length := by
  unfold scanNumber at h
  split at h
  · cases h
  · rename_i n rest' hn
    cases h
    unfold Numeral.scan at hn
    simp only at hn
    split at hn
    · rename_i hw
      split at hn
      · cases hn
      · rename_i hf
        split at hn
        · cases hn
        · rename_i he
          cases hn
          have h1 := scanMinus_length cs
          have h2 := spanDigits_length (scanMinus cs).2
          have h3 := scanFraction_length hf
          have h4 := scanExponent_length he
          have h5 : 0 < (spanDigits (scanMinus cs).2).1.length := by
            cases hs : (spanDigits (scanMinus cs).2).1 with
            | nil => simp [hs, isWhole] at hw
            | cons => simp
          omega
    · cases hn

end RightOfWay.Json

import RightOfWay.Proofs.ExactSum

namespace RightOfWay.Number.Binary64

open Float.Model Float.Model.UnpackedFloat

/-- The level of the positive infinity: mantissas have 53 bits, and the largest exponent is 2045 above the least. -/
def topLevel : Nat := 2 ^ 53 * 2 ^ 2045

/-- The level of a number; that of a NaN has no meaning. -/
def levelOf : UnpackedFloat → Int
  | .infinity s => s.apply topLevel
  | .notANumber => 0
  | .zero _ => 0
  | .finite s m e _ => s.apply (m * 2 ^ (e + 1074).toNat : Nat)

theorem levelOf_infinity (s : Sign) : levelOf (.infinity s) = s.apply topLevel := rfl

theorem levelOf_zero (s : Sign) : levelOf (.zero s) = 0 := rfl

theorem levelOf_finite (s : Sign) (m j : Nat) (hpos : 0 < m) :
    levelOf (.finite s m (-1074 + j) hpos) = s.apply (m * 2 ^ j : Nat) := by
  have hj : (-1074 + (j : Int) + 1074).toNat = j := by omega
  change s.apply (m * 2 ^ (-1074 + (j : Int) + 1074).toNat : Nat) = _
  rw [hj]

theorem topLevel_pos : 0 < topLevel := by
  rw [topLevel]
  positivity

theorem IsCanonical.lt_topLevel {m j : Nat} (h : IsCanonical m (-1074 + j)) (hj : j ≤ 2045) :
    m * 2 ^ j < topLevel := by
  have hpow : 2 ^ j ≤ 2 ^ 2045 := by
    gcongr
    decide
  calc
    m * 2 ^ j < 2 ^ 53 * 2 ^ j := Nat.mul_lt_mul_of_pos_right h.lt (Nat.two_pow_pos j)
    _ ≤ 2 ^ 53 * 2 ^ 2045 := Nat.mul_le_mul_left _ hpow
    _ = topLevel := rfl

/-- A larger exponent outweighs every mantissa. -/
theorem IsCanonical.magnitude_lt {m m' j j' : Nat} (h : IsCanonical m (-1074 + j))
    (h' : IsCanonical m' (-1074 + j')) (hlt : j < j') : m * 2 ^ j < m' * 2 ^ j' := by
  have hfull : 2 ^ 52 ≤ m' := h'.full.resolve_right (by omega)
  have hpow : 2 ^ (j + 1) ≤ 2 ^ j' := Nat.pow_le_pow_right (by decide) hlt
  calc
    m * 2 ^ j < 2 ^ 53 * 2 ^ j := Nat.mul_lt_mul_of_pos_right h.lt (Nat.two_pow_pos j)
    _ = 2 ^ 52 * 2 ^ (j + 1) := by rw [← Nat.pow_add, ← Nat.pow_add]; congr 1; omega
    _ ≤ m' * 2 ^ j' := Nat.mul_le_mul hfull hpow

/-- Exponents first, then mantissas: that is how the magnitudes compare. -/
theorem IsCanonical.compares {m m' j j' : Nat} (h : IsCanonical m (-1074 + j)) (h' : IsCanonical m' (-1074 + j')) :
    ((compare (-1074 + (j : Int)) (-1074 + j')).then (compare m m')).Compares (m * 2 ^ j) (m' * 2 ^ j') := by
  rcases Nat.lt_trichotomy j j' with hlt | rfl | hgt
  · rw [compare_lt_iff_lt.mpr (by omega : -1074 + (j : Int) < -1074 + j')]
    exact h.magnitude_lt h' hlt
  · rw [compare_eq_iff_eq.mpr rfl, Ordering.eq_then]
    have hpow := Nat.two_pow_pos j
    rcases Nat.lt_trichotomy m m' with hlt | rfl | hgt
    · rw [compare_lt_iff_lt.mpr hlt]
      exact Nat.mul_lt_mul_of_pos_right hlt hpow
    · rw [compare_eq_iff_eq.mpr rfl]
      rfl
    · rw [compare_gt_iff_gt.mpr hgt]
      exact Nat.mul_lt_mul_of_pos_right hgt hpow
  · rw [compare_gt_iff_gt.mpr (by omega : -1074 + (j' : Int) < -1074 + j)]
    exact h'.magnitude_lt h hgt

theorem compares_natCast {o : Ordering} {a b : Nat} (h : o.Compares a b) : o.Compares (a : Int) b := by
  cases o with
  | lt => exact Int.ofNat_lt.mpr h
  | eq => exact congrArg _ h
  | gt => exact Int.ofNat_lt.mpr h

theorem compares_swap_neg {o : Ordering} {a b : Int} (h : o.Compares a b) : o.swap.Compares (-a) (-b) := by
  cases o with
  | lt => exact Int.neg_lt_neg h
  | eq => exact congrArg _ h
  | gt => exact Int.neg_lt_neg h

theorem IsValue.levelOf_lt {u : UnpackedFloat} (h : IsValue u) (hfin : u.isFinite = true) :
    -(topLevel : Int) < levelOf u ∧ levelOf u < topLevel := by
  have htop := topLevel_pos
  cases h with
  | infinity s => cases hfin
  | notANumber => cases hfin
  | zero s =>
    rw [levelOf_zero]
    omega
  | finite s m j hpos hc hj =>
    have hlt := hc.lt_topLevel hj
    rw [levelOf_finite]
    cases s <;> dsimp only [Sign.apply] <;> omega

theorem IsValue.levelOf_le {u : UnpackedFloat} (h : IsValue u) : levelOf u ≤ topLevel := by
  cases h with
  | infinity s => cases s <;> dsimp only [levelOf_infinity, Sign.apply] <;> omega
  | notANumber => exact Int.natCast_nonneg _
  | zero s => exact Int.natCast_nonneg _
  | finite s m j hpos hc hj => exact Int.le_of_lt ((IsValue.finite s m j hpos hc hj).levelOf_lt rfl).2

theorem IsValue.le_levelOf {u : UnpackedFloat} (h : IsValue u) : -(topLevel : Int) ≤ levelOf u := by
  cases h with
  | infinity s => cases s <;> dsimp only [levelOf_infinity, Sign.apply] <;> omega
  | notANumber => exact Int.neg_nonpos_of_nonneg (Int.natCast_nonneg _)
  | zero s => exact Int.neg_nonpos_of_nonneg (Int.natCast_nonneg _)
  | finite s m j hpos hc hj => exact Int.le_of_lt ((IsValue.finite s m j hpos hc hj).levelOf_lt rfl).1

/-- Two numbers compare as their levels do. -/
theorem compares_levelOf {u v : UnpackedFloat} (hu : IsValue u) (hv : IsValue v) (hu' : u.isNaN = false)
    (hv' : v.isNaN = false) : ∃ o, u.compare v = some o ∧ o.Compares (levelOf u) (levelOf v) := by
  have htop := topLevel_pos
  cases hu with
  | notANumber => cases hu'
  | infinity s =>
    cases hv with
    | notANumber => cases hv'
    | infinity s' =>
      cases s <;> cases s'
      · exact ⟨.eq, rfl, rfl⟩
      · exact ⟨.lt, rfl, by dsimp only [Ordering.Compares, levelOf_infinity, Sign.apply]; omega⟩
      · exact ⟨.gt, rfl, by dsimp only [Ordering.Compares, levelOf_infinity, Sign.apply]; omega⟩
      · exact ⟨.eq, rfl, rfl⟩
    | zero s' =>
      have hbound := (IsValue.zero s').levelOf_lt rfl
      cases s with
      | negative => exact ⟨.lt, rfl, hbound.1⟩
      | positive => exact ⟨.gt, rfl, hbound.2⟩
    | finite s' m' j' hpos' hc' hj' =>
      have hbound := (IsValue.finite s' m' j' hpos' hc' hj').levelOf_lt rfl
      cases s with
      | negative => exact ⟨.lt, rfl, hbound.1⟩
      | positive => exact ⟨.gt, rfl, hbound.2⟩
  | zero s =>
    cases hv with
    | notANumber => cases hv'
    | infinity s' =>
      have hbound := (IsValue.zero s).levelOf_lt rfl
      cases s' with
      | negative => exact ⟨.gt, rfl, hbound.1⟩
      | positive => exact ⟨.lt, rfl, hbound.2⟩
    | zero s' => exact ⟨.eq, rfl, rfl⟩
    | finite s' m' j' hpos' hc' hj' =>
      have hpos := Nat.mul_pos hpos' (Nat.two_pow_pos j')
      rw [levelOf_finite, levelOf_zero]
      cases s' with
      | negative => exact ⟨.gt, rfl, by dsimp only [Ordering.Compares, Sign.apply]; omega⟩
      | positive => exact ⟨.lt, rfl, by dsimp only [Ordering.Compares, Sign.apply]; omega⟩
  | finite s m j hpos hc hj =>
    have hlevel := Nat.mul_pos hpos (Nat.two_pow_pos j)
    cases hv with
    | notANumber => cases hv'
    | infinity s' =>
      have hbound := (IsValue.finite s m j hpos hc hj).levelOf_lt rfl
      cases s' with
      | negative => exact ⟨.gt, by cases s <;> rfl, hbound.1⟩
      | positive => exact ⟨.lt, by cases s <;> rfl, hbound.2⟩
    | zero s' =>
      rw [levelOf_finite, levelOf_zero]
      cases s with
      | negative => exact ⟨.lt, rfl, by dsimp only [Ordering.Compares, Sign.apply]; omega⟩
      | positive => exact ⟨.gt, rfl, by dsimp only [Ordering.Compares, Sign.apply]; omega⟩
    | finite s' m' j' hpos' hc' hj' =>
      have hlevel' := Nat.mul_pos hpos' (Nat.two_pow_pos j')
      have hmagnitude := compares_natCast (hc.compares hc')
      rw [levelOf_finite, levelOf_finite]
      cases s <;> cases s'
      · exact ⟨_, rfl, compares_swap_neg hmagnitude⟩
      · exact ⟨.lt, rfl, by dsimp only [Ordering.Compares, Sign.apply]; omega⟩
      · exact ⟨.gt, rfl, by dsimp only [Ordering.Compares, Sign.apply]; omega⟩
      · exact ⟨_, rfl, hmagnitude⟩

def level (x : Float) : Int := levelOf (unpacked x)

theorem level_infinity : level infinity = topLevel := rfl

theorem level_neg_infinity : level (-infinity) = -topLevel := rfl

variable {x y z : Float}

theorem compares_level (hx : x.isNaN = false) (hy : y.isNaN = false) :
    ∃ o, (unpacked x).compare (unpacked y) = some o ∧ o.Compares (level x) (level y) :=
  compares_levelOf (isValue_unpacked x) (isValue_unpacked y) hx hy

theorem lt_iff_level (hx : x.isNaN = false) (hy : y.isNaN = false) : x < y ↔ level x < level y := by
  obtain ⟨o, ho, hcompares⟩ := compares_level hx hy
  rw [lt_iff, ho, Option.some.injEq, hcompares.eq_lt]

theorem le_iff_level (hx : x.isNaN = false) (hy : y.isNaN = false) : x ≤ y ↔ level x ≤ level y := by
  obtain ⟨o, ho, hcompares⟩ := compares_level hx hy
  rw [le_iff, ho, ← hcompares.ne_gt]
  cases o <;> decide

theorem beq_iff_level (hx : x.isNaN = false) (hy : y.isNaN = false) : (x == y) = true ↔ level x = level y := by
  obtain ⟨o, ho, hcompares⟩ := compares_level hx hy
  change ((unpacked x).compare (unpacked y) == some .eq) = true ↔ _
  rw [ho, ← hcompares.eq_eq, beq_iff_eq, Option.some.injEq]

theorem unpacked_of_isNaN (hx : x.isNaN = true) : unpacked x = .notANumber := by
  change (unpacked x).isNaN = true at hx
  cases hu : unpacked x with
  | notANumber => rfl
  | infinity s => rw [hu] at hx; cases hx
  | zero s => rw [hu] at hx; cases hx
  | finite s m e hpos => rw [hu] at hx; cases hx

/-- A NaN compares with nothing. -/
theorem compare_of_isNaN (h : x.isNaN = true ∨ y.isNaN = true) : (unpacked x).compare (unpacked y) = none := by
  rcases h with hx | hy
  · rw [unpacked_of_isNaN hx]
    rfl
  · rw [unpacked_of_isNaN hy]
    cases unpacked x <;> rfl

theorem isNaN_of_compare {o : Ordering} (h : (unpacked x).compare (unpacked y) = some o) :
    x.isNaN = false ∧ y.isNaN = false := by
  rw [← Bool.not_eq_true, ← Bool.not_eq_true, ← not_or]
  intro hnan
  rw [compare_of_isNaN hnan] at h
  cases h

theorem isNaN_of_lt (h : x < y) : x.isNaN = false ∧ y.isNaN = false := isNaN_of_compare ((lt_iff x y).mp h)

theorem isNaN_of_le (h : x ≤ y) : x.isNaN = false ∧ y.isNaN = false := by
  rw [le_iff, Option.any_eq_true] at h
  obtain ⟨o, ho, -⟩ := h
  exact isNaN_of_compare ho

theorem le_infinity (hx : x.isNaN = false) : x ≤ infinity := by
  rw [le_iff_level hx rfl, level_infinity]
  exact (isValue_unpacked x).levelOf_le

theorem neg_infinity_le (hx : x.isNaN = false) : -infinity ≤ x := by
  rw [le_iff_level rfl hx, level_neg_infinity]
  exact (isValue_unpacked x).le_levelOf

theorem le_self (hx : x.isNaN = false) : x ≤ x := (le_iff_level hx hx).mpr (Int.le_refl _)

theorem le_of_le_of_le (hxy : x ≤ y) (hyz : y ≤ z) : x ≤ z := by
  obtain ⟨hx, hy⟩ := isNaN_of_le hxy
  obtain ⟨-, hz⟩ := isNaN_of_le hyz
  rw [le_iff_level hx hy] at hxy
  rw [le_iff_level hy hz] at hyz
  rw [le_iff_level hx hz]
  exact Int.le_trans hxy hyz

theorem not_lt_iff_le (hx : x.isNaN = false) (hy : y.isNaN = false) : ¬ y < x ↔ x ≤ y := by
  rw [lt_iff_level hy hx, le_iff_level hx hy, Int.not_lt]

theorem bits_of_unpack_infinity (b : BitVec 64)
    (h : UnpackedFloat.unpack Format.binary64 b = .infinity .positive) : b = 0x7ff0000000000000#64 := by
  have hmantissa : (@unpackMantissa Format.binary64 b).toNat = b.toNat >>> 0 % 2 ^ 52 :=
    BitVec.extractLsb'_toNat 0 52 b
  have hexponent : (@unpackExponent Format.binary64 b).toNat = b.toNat >>> 52 % 2 ^ 11 :=
    BitVec.extractLsb'_toNat 52 11 b
  have hsign : (@unpackSign Format.binary64 b).toNat = b.toNat >>> 63 % 2 ^ 1 := BitVec.extractLsb'_toNat 63 1 b
  delta UnpackedFloat.unpack at h
  dsimp only at h
  by_cases he : @unpackExponent Format.binary64 b = -1#11
  · rw [if_pos he] at h
    by_cases hm : @unpackMantissa Format.binary64 b = 0#52
    · rw [if_pos hm] at h
      have hs : @unpackSign Format.binary64 b = 0#1 := by
        by_contra hs
        have hnegative := UnpackedFloat.infinity.inj h
        rw [Sign.ofBitVec, if_neg hs] at hnegative
        cases hnegative
      rw [he, Nat.shiftRight_eq_div_pow] at hexponent
      rw [hm, Nat.shiftRight_zero] at hmantissa
      rw [hs, Nat.shiftRight_eq_div_pow] at hsign
      apply BitVec.eq_of_toNat_eq
      change 2047 = _ at hexponent
      change 0 = _ at hmantissa
      change 0 = _ at hsign
      change b.toNat = 0x7ff0000000000000
      have hlt := b.isLt
      omega
    · rw [if_neg hm] at h
      cases h
  · rw [if_neg he] at h
    by_cases hfirst : @unpackExponent Format.binary64 b = 0#11
    · rw [if_pos hfirst] at h
      by_cases hm : @unpackMantissa Format.binary64 b = 0#52
      · rw [dif_pos hm] at h
        cases h
      · rw [dif_neg hm] at h
        cases h
    · rw [if_neg hfirst] at h
      cases h

theorem eq_infinity_of_level (hx : x.isNaN = false) (h : level x = topLevel) : x = infinity := by
  have hunpacked : unpacked x = .infinity .positive := by
    have htop := topLevel_pos
    change (unpacked x).isNaN = false at hx
    rw [level] at h
    have hvalue := isValue_unpacked x
    cases hu : unpacked x with
    | notANumber => rw [hu] at hx; cases hx
    | infinity s =>
      rw [hu] at h
      cases s with
      | positive => rfl
      | negative =>
        dsimp only [levelOf_infinity, Sign.apply] at h
        omega
    | zero s =>
      rw [hu, levelOf_zero] at h
      omega
    | finite s m e hpos =>
      rw [hu] at hvalue h
      have hlt := (hvalue.levelOf_lt rfl).2
      omega
  have hbits := bits_of_unpack_infinity x.toModel.toBits.toBitVec hunpacked
  rcases x with ⟨⟨⟨bits⟩, valid⟩⟩
  cases hbits
  rfl

end RightOfWay.Number.Binary64

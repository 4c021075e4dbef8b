import RightOfWay.Number.Extremum
import Mathlib.Order.Compare
import Mathlib.Tactic.Linarith

namespace RightOfWay.Number.Binary64

open Float.Model Float.Model.UnpackedFloat

/-- The mantissas of normal values have 53 bits. -/
def IsNormal (m : Nat) : Prop := 2 ^ 52 ≤ m ∧ m < 2 ^ 53

theorem IsNormal.pos {m : Nat} (h : IsNormal m) : 0 < m := Nat.lt_of_lt_of_le (by decide) h.1

theorem IsNormal.ne_zero {m : Nat} (h : IsNormal m) : m ≠ 0 := Nat.pos_iff_ne_zero.mp h.pos

theorem IsNormal.log2_eq {m : Nat} (h : IsNormal m) : m.log2 = 52 := (Nat.log2_eq_iff h.ne_zero).mpr h

/-- Mantissa and exponent of a finite value: 53 bits, or fewer at the least exponent. -/
structure IsCanonical (m : Nat) (e : Int) : Prop where
  pos : 0 < m
  lt : m < 2 ^ 53
  least : -1074 ≤ e
  full : 2 ^ 52 ≤ m ∨ e = -1074

theorem IsCanonical.ne_zero {m : Nat} {e : Int} (h : IsCanonical m e) : m ≠ 0 := Nat.pos_iff_ne_zero.mp h.pos

theorem IsNormal.isCanonical {m : Nat} {e : Int} (h : IsNormal m) (he : -1074 ≤ e) : IsCanonical m e :=
  ⟨h.pos, h.2, he, .inl h.1⟩

theorem log2_mul_two_pow (n k : Nat) (hn : n ≠ 0) : (n * 2 ^ k).log2 = n.log2 + k := by
  have hpow := Nat.two_pow_pos k
  have hlo := Nat.mul_le_mul_right (2 ^ k) (Nat.log2_self_le hn)
  have hhi := Nat.mul_lt_mul_of_pos_right (Nat.lt_log2_self (n := n)) hpow
  rw [← Nat.pow_add] at hlo hhi
  rw [Nat.log2_eq_iff (Nat.mul_ne_zero hn (Nat.pos_iff_ne_zero.mp hpow)), Nat.add_right_comm]
  exact ⟨hlo, hhi⟩

theorem targetExponent_eq (t : Int) : Format.binary64.targetExponent t = max (t - 53) (-1074) := rfl

theorem IsCanonical.targetExponent {m : Nat} {e : Int} (h : IsCanonical m e) :
    Format.binary64.targetExponent (totalExponent m e) = e := by
  have hleast := h.least
  rw [targetExponent_eq, totalExponent]
  rcases h.full with hm | rfl
  · rw [IsNormal.log2_eq ⟨hm, h.lt⟩]
    omega
  · have hbits : m.log2 < 53 := (Nat.log2_lt h.ne_zero).mpr h.lt
    omega

section Finite

variable (s s' : Sign) (m m' : Nat) (e e' : Int) (hpos : 0 < m) (hpos' : 0 < m')

theorem finite_congr {s s' : Sign} {m m' : Nat} {e e' : Int} {hpos : 0 < m} {hpos' : 0 < m'} (hs : s = s')
    (hm : m = m') (he : e = e') : UnpackedFloat.finite s m e hpos = .finite s' m' e' hpos' := by
  subst hs hm he
  rfl

theorem add_finite : UnpackedFloat.add Format.binary64 (.finite s m e hpos) (.finite s' m' e' hpos') =
    UnpackedFloat.normalize Format.binary64
      (s.apply (decreaseExponent m e (min e e')).1 + s'.apply (decreaseExponent m' e' (min e e')).1)
      (min e e') .positive := rfl

theorem sub_finite : UnpackedFloat.sub Format.binary64 (.finite s m e hpos) (.finite s' m' e' hpos') =
    UnpackedFloat.normalize Format.binary64
      (s.apply (decreaseExponent m e (min e e')).1 - s'.apply (decreaseExponent m' e' (min e e')).1)
      (min e e') .positive := rfl

theorem mul_finite : UnpackedFloat.mul Format.binary64 (.finite s m e hpos) (.finite s' m' e' hpos') =
    roundWithAccuracy Format.binary64 (s * s') (m * m') (e + e') .exact := rfl

theorem sqrt_finite : UnpackedFloat.sqrt Format.binary64 (.finite .positive m e hpos) =
    roundWithAccuracy Format.binary64 .positive (sqrtCore Format.binary64 m e).1
      (sqrtCore Format.binary64 m e).2.1 (sqrtCore Format.binary64 m e).2.2 := rfl

end Finite

theorem shiftRight_succ (em : ExtendedMantissa) (k : Nat) : em >>> (k + 1) = (em >>> k).shiftRightOne := rfl

theorem shiftRight_mantissa (em : ExtendedMantissa) (k : Nat) : (em >>> k).mantissa = em.mantissa / 2 ^ k := by
  induction k with
  | zero => exact (Nat.div_one _).symm
  | succ k ih => rw [shiftRight_succ, ExtendedMantissa.shiftRightOne, ih, Nat.div_div_eq_div_mul, Nat.pow_succ]

theorem shiftRight_exact (m k : Nat) :
    (⟨m * 2 ^ k, false, false⟩ : ExtendedMantissa) >>> k = ⟨m, false, false⟩ := by
  induction k generalizing m with
  | zero => simp [HShiftRight.hShiftRight, Nat.repeat]
  | succ k ih =>
    have hsplit : m * 2 ^ (k + 1) = m * 2 * 2 ^ k := by rw [Nat.pow_succ, Nat.mul_assoc, Nat.mul_comm 2]
    rw [shiftRight_succ, hsplit, ih]
    simp [ExtendedMantissa.shiftRightOne]

theorem ofMantissaAndAccuracy_mantissa (m : Nat) (a : Accuracy) :
    (ExtendedMantissa.ofMantissaAndAccuracy m a).mantissa = m := by
  cases a with
  | exact => rfl
  | inexact o => cases o <;> rfl

/-- Rounding goes down to the mantissa itself or up to the next one. -/
theorem rounded_eq_or_succ (em : ExtendedMantissa) :
    em.roundedMantissa = em.mantissa ∨ em.roundedMantissa = em.mantissa + 1 := by
  obtain ⟨m, r, s⟩ := em
  have hparity : m % 2 = 0 ∨ m % 2 = 1 := Nat.mod_two_eq_zero_or_one m
  cases r <;> cases s
  · exact .inl rfl
  · exact .inl rfl
  · change m + m % 2 = m ∨ m + m % 2 = m + 1
    omega
  · exact .inr rfl

theorem shiftToTargetExponent_exact (m k : Nat) (e : Int) (h : IsCanonical m (e + k)) :
    shiftToTargetExponent Format.binary64 (m * 2 ^ k) e .exact = (⟨m, false, false⟩, e + k) := by
  have htotal : totalExponent (m * 2 ^ k) e = totalExponent m (e + k) := by
    rw [totalExponent, totalExponent, log2_mul_two_pow m k h.ne_zero]
    omega
  have hshift : (e + (k : Int) - e).toNat = k := by omega
  rw [shiftToTargetExponent, htotal, h.targetExponent, shiftToExponent, hshift]
  exact congrArg (·, e + (k : Int)) (shiftRight_exact m k)

theorem shiftToTargetExponent_canonical (m : Nat) (e : Int) (h : IsCanonical m e) :
    shiftToTargetExponent Format.binary64 m e .exact = (⟨m, false, false⟩, e) := by
  have hshift := shiftToTargetExponent_exact m 0 e (by simpa using h)
  simpa using hshift

theorem shiftToTargetExponent_carry (e : Int) (he : -1074 ≤ e) :
    shiftToTargetExponent Format.binary64 (2 ^ 53) e .exact = (⟨2 ^ 52, false, false⟩, e + 1) := by
  have hshift : (max ((53 : Nat) + 1 + e - 53) (-1074) - e).toNat = 1 := by omega
  rw [shiftToTargetExponent, shiftToExponent, targetExponent_eq, totalExponent, Nat.log2_two_pow, hshift]
  rfl

/-- The value after the first shift decides: a carry out of 53 bits moves to the next exponent. -/
theorem roundWithAccuracy_of_shift (s : Sign) (m : Nat) (e : Int) (a : Accuracy) (em : ExtendedMantissa)
    (e₁ : Int) (hs : shiftToTargetExponent Format.binary64 m e a = (em, e₁)) (hm : IsNormal em.mantissa)
    (he : -1074 ≤ e₁) :
    ∃ m' e' hpos, roundWithAccuracy Format.binary64 s m e a = .finite s m' e' hpos ∧ IsNormal m' ∧ e₁ ≤ e' := by
  have hr := rounded_eq_or_succ em
  obtain ⟨hlo, hhi⟩ := hm
  by_cases hfit : em.roundedMantissa < 2 ^ 53
  · have hn : IsNormal em.roundedMantissa := ⟨by omega, hfit⟩
    refine ⟨em.roundedMantissa, e₁, hn.pos, ?_, hn, Int.le_refl _⟩
    rw [roundWithAccuracy, hs]
    dsimp only
    rw [shiftToTargetExponent_canonical _ _ (hn.isCanonical he)]
    exact dif_neg hn.ne_zero
  · have hcarry : em.roundedMantissa = 2 ^ 53 := by omega
    refine ⟨2 ^ 52, e₁ + 1, by decide, ?_, ⟨by decide, by decide⟩, by omega⟩
    rw [roundWithAccuracy, hs]
    dsimp only
    rw [hcarry, shiftToTargetExponent_carry _ he]
    rfl

/-- Rounding a mantissa of 53 bits or more gives a normal value, not below the power of two it starts from. -/
theorem roundWithAccuracy_normal (s : Sign) (m : Nat) (e : Int) (a : Accuracy) (hm : 52 ≤ m.log2)
    (he : -1022 ≤ m.log2 + e) :
    ∃ m' e' hpos, roundWithAccuracy Format.binary64 s m e a = .finite s m' e' hpos ∧ IsNormal m' ∧
      m.log2 + e - 52 ≤ e' := by
  have hne : m ≠ 0 := by
    rintro rfl
    simp at hm
  obtain ⟨k, hk⟩ := Nat.exists_eq_add_of_le hm
  have hshift : (max ((m.log2 : Int) + 1 + e - 53) (-1074) - e).toNat = k := by omega
  have hs : shiftToTargetExponent Format.binary64 m e a =
      (ExtendedMantissa.ofMantissaAndAccuracy m a >>> k, e + k) := by
    rw [shiftToTargetExponent, shiftToExponent, targetExponent_eq, totalExponent, hshift]
  have hn : IsNormal (ExtendedMantissa.ofMantissaAndAccuracy m a >>> k).mantissa := by
    have hlow := Nat.log2_self_le hne
    have hhigh := Nat.lt_log2_self (n := m)
    rw [hk, Nat.pow_add] at hlow
    rw [hk, show 52 + k + 1 = 53 + k by omega, Nat.pow_add] at hhigh
    rw [shiftRight_mantissa, ofMantissaAndAccuracy_mantissa]
    exact ⟨(Nat.le_div_iff_mul_le (Nat.two_pow_pos k)).mpr hlow,
      (Nat.div_lt_iff_lt_mul (Nat.two_pow_pos k)).mpr hhigh⟩
  obtain ⟨m', e', hpos, hr, hm', hle⟩ := roundWithAccuracy_of_shift s m e a _ _ hs hn (by omega)
  exact ⟨m', e', hpos, hr, hm', by omega⟩

/-- A canonical mantissa that was shifted left is rounded to itself. -/
theorem roundWithAccuracy_exact (s : Sign) (m k : Nat) (e : Int) (h : IsCanonical m (e + k)) :
    roundWithAccuracy Format.binary64 s (m * 2 ^ k) e .exact = .finite s m (e + k) h.pos := by
  rw [roundWithAccuracy, shiftToTargetExponent_exact m k e h]
  change (let x := shiftToTargetExponent Format.binary64 m (e + k) .exact
    if h : x.1.mantissa = 0 then UnpackedFloat.zero s
    else .finite s x.1.mantissa x.2 (Nat.pos_of_ne_zero h)) = _
  rw [shiftToTargetExponent_canonical m _ h]
  exact dif_neg h.ne_zero

theorem round_exact (s : Sign) (n m i j : Nat) (t : Int) (hc : IsCanonical m (t + j))
    (h : n * 2 ^ i = m * 2 ^ j) :
    UnpackedFloat.round Format.binary64 s n (t + i) = .finite s m (t + j) hc.pos := by
  have hn : n ≠ 0 := by
    rintro rfl
    have hpos := Nat.mul_pos hc.pos (Nat.two_pow_pos j)
    omega
  have hlog : n.log2 + i = m.log2 + j := by
    rw [← log2_mul_two_pow n i hn, h, log2_mul_two_pow m j hc.ne_zero]
  have htotal : totalExponent n (t + i) = totalExponent m (t + j) := by
    rw [totalExponent, totalExponent]
    omega
  rw [UnpackedFloat.round, htotal, hc.targetExponent, decreaseExponent]
  dsimp only
  rw [Nat.shiftLeft_eq]
  -- an exponent that is too large is decreased first, one that is too small is increased by the rounding
  rcases Nat.le_total j i with hji | hij
  · obtain ⟨k, rfl⟩ := Nat.exists_eq_add_of_le hji
    have hm : n * 2 ^ k = m := by
      rw [Nat.add_comm, Nat.pow_add, ← Nat.mul_assoc] at h
      exact Nat.eq_of_mul_eq_mul_right (Nat.two_pow_pos j) h
    have hd : (t + ((j + k : Nat) : Int) - (t + j)).toNat = k := by omega
    have he : t + ((j + k : Nat) : Int) - (k : Int) = t + j := by omega
    have hzero : t + (j : Int) + (0 : Nat) = t + j := by omega
    have hround := roundWithAccuracy_exact s m 0 (t + j) (hzero.symm ▸ hc)
    rw [Nat.pow_zero, Nat.mul_one] at hround
    rw [hd, hm, he, hround]
    exact finite_congr rfl rfl hzero
  · obtain ⟨k, rfl⟩ := Nat.exists_eq_add_of_le hij
    have hm : n = m * 2 ^ k := by
      rw [Nat.add_comm, Nat.pow_add, ← Nat.mul_assoc] at h
      exact Nat.eq_of_mul_eq_mul_right (Nat.two_pow_pos i) h
    have hd : (t + (i : Int) - (t + ((i + k : Nat) : Int))).toNat = 0 := by omega
    have he : t + (i : Int) + k = t + ((i + k : Nat) : Int) := by omega
    rw [hd, hm, Nat.pow_zero, Nat.mul_one, Int.natCast_zero, Int.sub_zero,
      roundWithAccuracy_exact s m k (t + i) (he ▸ hc)]
    exact finite_congr rfl rfl he

theorem natAbs_apply (s : Sign) (m : Nat) : (s.apply m).natAbs = m := by
  cases s with
  | negative => exact Int.natAbs_neg m
  | positive => rfl

theorem normalize_exact (s : Sign) (n : Int) (m i j : Nat) (t : Int) (hc : IsCanonical m (t + j))
    (h : n * 2 ^ i = s.apply m * 2 ^ j) :
    UnpackedFloat.normalize Format.binary64 n (t + i) .positive = .finite s m (t + j) hc.pos := by
  have hpow (k : Nat) : (0 : Int) < 2 ^ k := by exact_mod_cast Nat.two_pow_pos k
  have hm : (0 : Int) < m := by exact_mod_cast hc.pos
  have habs : n.natAbs * 2 ^ i = m * 2 ^ j := by
    have hnat := congrArg Int.natAbs h
    rw [Int.natAbs_mul, Int.natAbs_mul, natAbs_apply, Int.natAbs_pow, Int.natAbs_pow] at hnat
    exact hnat
  have hround := round_exact s n.natAbs m i j t hc habs
  rw [UnpackedFloat.normalize]
  cases s with
  | negative =>
    have hneg : n < 0 := by
      have hprod : n * 2 ^ i < 0 := h ▸ Int.mul_neg_of_neg_of_pos (Int.neg_neg_of_pos hm) (hpow j)
      exact neg_of_mul_neg_left hprod (Int.le_of_lt (hpow i))
    rw [compare_lt_iff_lt.mpr hneg, ← hround]
    dsimp only
    rw [show (-n).toNat = n.natAbs by omega]
  | positive =>
    have hpos : 0 < n := by
      have hprod : 0 < n * 2 ^ i := h ▸ Int.mul_pos hm (hpow j)
      exact (mul_pos_iff_of_pos_right (hpow i)).mp hprod
    rw [compare_gt_iff_gt.mpr hpos, ← hround]
    dsimp only
    rw [show n.toNat = n.natAbs by omega]

theorem unpack_pack (u : UnpackedFloat) : (Float.Model.pack u).unpack =
    UnpackedFloat.unpack Format.binary64 (UnpackedFloat.pack Format.binary64 u) := rfl

theorem unpackSign_packComponents (spec : Format) (s : Sign) (e : BitVec spec.exponentBits)
    (m : BitVec spec.mantissaBitsWithoutImplicit) :
    Sign.ofBitVec (unpackSign (packComponents spec s e m)) = s := by
  have hbit : unpackSign (packComponents spec s e m) = s.toBitVec := by
    ext i hi
    obtain rfl : i = 0 := by omega
    delta unpackSign packComponents
    simp [BitVec.getLsbD_append, BitVec.getElem_append]
  rw [hbit]
  cases s <;> rfl

theorem unpack_pack_zero (s : Sign) : (Float.Model.pack (.zero s)).unpack = .zero s := by
  cases s <;> rfl

theorem unpack_pack_infinity (s : Sign) : (Float.Model.pack (.infinity s)).unpack = .infinity s := by
  cases s <;> rfl

theorem unpack_pack_overflow (s : Sign) (m : Nat) (e : Int) (hpos : 0 < m) (he : 971 < e) :
    (Float.Model.pack (.finite s m e hpos)).unpack = .infinity s := by
  have hbig : 2 ^ 11 ≤ (e + (1023 : Nat) + (52 : Nat)).toNat + 1 := by omega
  have hp : UnpackedFloat.pack Format.binary64 (.finite s m e hpos) = packedInfinity Format.binary64 s :=
    if_pos hbig
  rw [unpack_pack, hp]
  exact unpack_pack_infinity s

/-- The mantissa of a normal value has a leading bit that is not stored. -/
theorem toNat_one_append (m : BitVec 52) : (1#1 ++ m).toNat = 2 ^ 52 + m.toNat := by
  rw [BitVec.toNat_append, ← Nat.shiftLeft_add_eq_or_of_lt m.isLt]
  rfl

theorem unpack_pack_normal (s : Sign) (m : Nat) (e : Int) (hpos : 0 < m) (hm : IsNormal m) (hlo : -1074 ≤ e)
    (hhi : e ≤ 971) : (Float.Model.pack (.finite s m e hpos)).unpack = .finite s m e hpos := by
  obtain ⟨b, hb⟩ : ∃ b : Nat, e + (1023 : Nat) + (52 : Nat) = b := ⟨_, (Int.toNat_of_nonneg (by omega)).symm⟩
  have hp : UnpackedFloat.pack Format.binary64 (.finite s m e hpos) =
      packComponents Format.binary64 s (BitVec.ofNat 11 b) (BitVec.ofNat 52 m) := by
    have hfit : ¬ 2 ^ 11 ≤ (e + (1023 : Nat) + (52 : Nat)).toNat + 1 := by omega
    have hlog : m.log2 + 1 = Format.binary64.mantissaBits := by rw [hm.log2_eq]; rfl
    have hnat : (e + (1023 : Nat) + (52 : Nat)).toNat = b := by omega
    rw [← hnat]
    exact (if_neg hfit).trans (if_pos hlog)
  have hexp : (BitVec.ofNat 11 b).toNat = b := by
    rw [BitVec.toNat_ofNat]
    omega
  have hmant : (1#1 ++ BitVec.ofNat 52 m).toNat = m := by
    obtain ⟨h₁, h₂⟩ := hm
    rw [toNat_one_append, BitVec.toNat_ofNat]
    omega
  have hnan : BitVec.ofNat 11 b ≠ -1#11 := by
    intro h
    have h' := congrArg BitVec.toNat h
    rw [hexp] at h'
    change b = 2047 at h'
    omega
  have hsub : BitVec.ofNat 11 b ≠ 0#11 := by
    intro h
    have h' := congrArg BitVec.toNat h
    rw [hexp] at h'
    change b = 0 at h'
    omega
  rw [unpack_pack, hp]
  delta UnpackedFloat.unpack
  dsimp only
  rw [unpackExponent_packComponents, if_neg hnan, if_neg hsub]
  apply finite_congr
  · exact unpackSign_packComponents _ _ _ _
  · rw [unpackMantissa_packComponents]
    exact hmant
  · rw [hexp]
    change (b : Int) - ((1023 : Nat) + (52 : Nat)) = e
    omega

/-- The unpacked form of an integer. -/
inductive IsInteger : UnpackedFloat → Int → Prop where
  | zero : IsInteger (.zero .positive) 0
  | finite (s : Sign) (m k : Nat) (hpos : 0 < m) (n : Int) : IsNormal m → n ≠ 0 →
      s.apply m = n * 2 ^ k → IsInteger (.finite s m (-k) hpos) n

/-- The mantissa of an integer is the integer, shifted. -/
theorem mantissa_eq (s : Sign) (m k : Nat) (n : Int) (h : s.apply m = n * 2 ^ k) : m = n.natAbs * 2 ^ k := by
  rw [← natAbs_apply s m, h, Int.natAbs_mul, Int.natAbs_pow]
  rfl

theorem two_pow_le_mantissa (s : Sign) (m k : Nat) (n : Int) (hn : n ≠ 0) (h : s.apply m = n * 2 ^ k) :
    2 ^ k ≤ m := by
  rw [mantissa_eq s m k n h]
  exact Nat.le_mul_of_pos_left _ (Int.natAbs_pos.mpr hn)

theorem exponent_le (s : Sign) (m k : Nat) (n : Int) (hm : IsNormal m) (hn : n ≠ 0)
    (h : s.apply m = n * 2 ^ k) : k ≤ 52 := by
  have hle := two_pow_le_mantissa s m k n hn h
  have hlt : 2 ^ k < 2 ^ 53 := Nat.lt_of_le_of_lt hle hm.2
  have := (Nat.pow_lt_pow_iff_right (by decide : 1 < 2)).mp hlt
  omega

theorem IsInteger.unpack_pack {u : UnpackedFloat} {n : Int} (h : IsInteger u n) :
    (Float.Model.pack u).unpack = u := by
  cases h with
  | zero => exact unpack_pack_zero .positive
  | finite s m k hpos n hm hn hs =>
    have hk := exponent_le s m k n hm hn hs
    exact unpack_pack_normal s m (-k) hpos hm (by omega) (by omega)

theorem normalize_integer (n : Int) (j : Nat) (hn : n.natAbs < 2 ^ 53) :
    IsInteger (UnpackedFloat.normalize Format.binary64 (n * 2 ^ j) (-j) .positive) n := by
  by_cases hzero : n = 0
  · subst hzero
    rw [Int.zero_mul]
    exact .zero
  have habs : n.natAbs ≠ 0 := Int.natAbs_ne_zero.mpr hzero
  obtain ⟨k, hk⟩ := Nat.exists_eq_add_of_le (Nat.le_of_lt_succ ((Nat.log2_lt habs).mpr hn))
  have hnormal : IsNormal (n.natAbs * 2 ^ k) := by
    have hlog := log2_mul_two_pow n.natAbs k habs
    rw [← hk] at hlog
    exact (Nat.log2_eq_iff (Nat.mul_ne_zero habs (Nat.pos_iff_ne_zero.mp (Nat.two_pow_pos k)))).mp hlog
  obtain ⟨s, hs⟩ : ∃ s : Sign, s.apply (n.natAbs * 2 ^ k : Nat) = n * 2 ^ k := by
    rcases Int.natAbs_eq n with hpos | hneg
    · refine ⟨.positive, ?_⟩
      change ((n.natAbs * 2 ^ k : Nat) : Int) = _
      rw [Int.natCast_mul, ← hpos, Int.natCast_pow]
      rfl
    · refine ⟨.negative, ?_⟩
      change -((n.natAbs * 2 ^ k : Nat) : Int) = _
      rw [Int.natCast_mul, ← Int.neg_mul, ← hneg, Int.natCast_pow]
      rfl
  have hexp : -(k : Int) = -(j + k : Nat) + j := by omega
  have hround := normalize_exact s (n * 2 ^ j) (n.natAbs * 2 ^ k) k j (-(j + k : Nat))
    (hexp ▸ hnormal.isCanonical (by omega)) (by rw [hs, Int.mul_right_comm])
  rw [show (-(j : Int)) = -((j + k : Nat) : Int) + k by omega, hround, finite_congr rfl rfl hexp.symm]
  exact .finite s _ k hnormal.pos n hnormal hzero hs

theorem apply_neg (s : Sign) (n : Int) : (-s).apply n = -s.apply n := by
  cases s with
  | negative => exact (Int.neg_neg n).symm
  | positive => rfl

theorem IsInteger.neg {u : UnpackedFloat} {n : Int} (h : IsInteger u n) (hn : n ≠ 0) :
    IsInteger u.neg (-n) := by
  cases h with
  | zero => exact absurd rfl hn
  | finite s m k hpos n hm hn' hs =>
    refine .finite (-s) m k hpos (-n) hm (by omega) ?_
    rw [apply_neg, hs, Int.neg_mul]

theorem apply_mul_two_pow (s : Sign) (m k : Nat) : s.apply ((m * 2 ^ k : Nat) : Int) = s.apply m * 2 ^ k := by
  cases s with
  | negative => simp [Sign.apply]
  | positive => simp [Sign.apply]

/-- A mantissa written with a smaller exponent. -/
theorem decreaseExponent_apply (s : Sign) (m k j : Nat) (n : Int) (hkj : k ≤ j) (h : s.apply m = n * 2 ^ k) :
    s.apply (decreaseExponent m (-k) (-j)).1 = n * 2 ^ j := by
  have hd : (-(k : Int) - -(j : Int)).toNat = j - k := by omega
  have hj : n * 2 ^ j = n * 2 ^ k * 2 ^ (j - k) := by
    rw [Int.mul_assoc, ← Int.pow_add, Nat.add_sub_cancel' hkj]
  rw [decreaseExponent, hd, Nat.shiftLeft_eq, apply_mul_two_pow, h, hj]

/-- Differences of integers are exact. -/
theorem IsInteger.sub {u v : UnpackedFloat} {x y : Int} (hu : IsInteger u x) (hv : IsInteger v y)
    (hlt : (x - y).natAbs < 2 ^ 53) : IsInteger (UnpackedFloat.sub Format.binary64 u v) (x - y) := by
  cases hu with
  | zero =>
    cases hv with
    | zero => exact .zero
    | finite s m k hpos y hm hy hs =>
      rw [Int.zero_sub]
      exact IsInteger.neg (.finite s m k hpos y hm hy hs) hy
  | finite s m k hpos x hm hx hs =>
    cases hv with
    | zero =>
      rw [Int.sub_zero]
      exact .finite s m k hpos x hm hx hs
    | finite s' m' k' hpos' y hm' hy hs' =>
      have hmin : min (-(k : Int)) (-(k' : Int)) = -((max k k' : Nat) : Int) := by omega
      have hleft := decreaseExponent_apply s m k (max k k') x (Nat.le_max_left _ _) hs
      have hright := decreaseExponent_apply s' m' k' (max k k') y (Nat.le_max_right _ _) hs'
      rw [sub_finite, hmin, hleft, hright, ← Int.sub_mul]
      exact normalize_integer (x - y) (max k k') hlt

def one : UnpackedFloat := .finite .positive (2 ^ 52) (-52) (by decide)

/-- The unpacked forms of values that are not below one. -/
inductive AtLeastOne : UnpackedFloat → Prop where
  | infinity : AtLeastOne (.infinity .positive)
  | finite (m : Nat) (e : Int) (hpos : 0 < m) : IsNormal m → -52 ≤ e → AtLeastOne (.finite .positive m e hpos)

theorem AtLeastOne.unpack_pack {u : UnpackedFloat} (h : AtLeastOne u) :
    AtLeastOne (Float.Model.pack u).unpack := by
  cases h with
  | infinity => exact .infinity
  | finite m e hpos hm he =>
    by_cases hbig : 971 < e
    · rw [unpack_pack_overflow .positive m e hpos hbig]
      exact .infinity
    · rw [unpack_pack_normal .positive m e hpos hm (by omega) (by omega)]
      exact .finite m e hpos hm he

theorem roundWithAccuracy_atLeastOne (m : Nat) (e : Int) (a : Accuracy) (hm : 52 ≤ m.log2)
    (he : 0 ≤ m.log2 + e) : AtLeastOne (roundWithAccuracy Format.binary64 .positive m e a) := by
  obtain ⟨m', e', hpos, hr, hm', hle⟩ := roundWithAccuracy_normal .positive m e a hm (by omega)
  rw [hr]
  exact .finite m' e' hpos hm' (by omega)

theorem IsInteger.mul_self_zero {u : UnpackedFloat} (h : IsInteger u 0) :
    UnpackedFloat.mul Format.binary64 u u = .zero .positive := by
  cases h with
  | zero => rfl
  | finite s m k hpos n hm hn hs => exact absurd rfl hn

theorem IsInteger.mul_self {u : UnpackedFloat} {n : Int} (h : IsInteger u n) (hn : n ≠ 0) :
    AtLeastOne (UnpackedFloat.mul Format.binary64 u u) := by
  cases h with
  | zero => exact absurd rfl hn
  | finite s m k hpos n hm hn' hs =>
    have hsign : s * s = .positive := by cases s <;> rfl
    have hle := two_pow_le_mantissa s m k n hn hs
    have hsq : m * m ≠ 0 := Nat.mul_ne_zero hm.ne_zero hm.ne_zero
    have hbits : 52 ≤ (m * m).log2 := by
      rw [Nat.le_log2 hsq]
      exact Nat.le_trans hm.1 (Nat.le_mul_of_pos_left m hpos)
    have hone : 2 * k ≤ (m * m).log2 := by
      rw [Nat.le_log2 hsq, Nat.two_mul, Nat.pow_add]
      exact Nat.mul_le_mul hle hle
    rw [mul_finite, hsign]
    exact roundWithAccuracy_atLeastOne (m * m) (-k + -k) .exact hbits (by omega)

theorem AtLeastOne.add_zero {u : UnpackedFloat} (h : AtLeastOne u) :
    UnpackedFloat.add Format.binary64 u (.zero .positive) = u := by
  cases h with
  | infinity => rfl
  | finite m e hpos hm he => rfl

theorem AtLeastOne.zero_add {u : UnpackedFloat} (h : AtLeastOne u) :
    UnpackedFloat.add Format.binary64 (.zero .positive) u = u := by
  cases h with
  | infinity => rfl
  | finite m e hpos hm he => rfl

theorem AtLeastOne.add {u v : UnpackedFloat} (hu : AtLeastOne u) (hv : AtLeastOne v) :
    AtLeastOne (UnpackedFloat.add Format.binary64 u v) := by
  cases hu with
  | infinity =>
    cases hv with
    | infinity => exact .infinity
    | finite m e hpos hm he => exact .infinity
  | finite m e hpos hm he =>
    cases hv with
    | infinity => exact .infinity
    | finite m' e' hpos' hm' he' =>
      have hge : 2 ^ 52 ≤ (decreaseExponent m e (min e e')).1 := by
        rw [decreaseExponent, Nat.shiftLeft_eq]
        exact Nat.le_trans hm.1 (Nat.le_mul_of_pos_right m (Nat.two_pow_pos _))
      obtain ⟨x, hx⟩ : ∃ x, (decreaseExponent m e (min e e')).1 = x := ⟨_, rfl⟩
      obtain ⟨y, hy⟩ : ∃ y, (decreaseExponent m' e' (min e e')).1 = y := ⟨_, rfl⟩
      have hbits : 52 ≤ (x + y).log2 := by
        rw [Nat.le_log2 (by omega)]
        omega
      have hcmp : compare ((x : Int) + y) 0 = .gt := by
        rw [compare_gt_iff_gt]
        omega
      have hshift : (min e e' - max (((x + y).log2 : Int) + 1 + min e e' - 53) (-1074)).toNat = 0 := by omega
      rw [add_finite, hx, hy]
      dsimp only [Sign.apply]
      rw [UnpackedFloat.normalize, hcmp]
      dsimp only
      rw [show ((x : Int) + y).toNat = x + y by omega, UnpackedFloat.round, targetExponent_eq, totalExponent,
        decreaseExponent, hshift]
      exact roundWithAccuracy_atLeastOne (x + y) _ .exact hbits (by omega)

/-- The root of a normal mantissa, brought to an even exponent, has 53 bits again. -/
theorem sqrt_bits (m k : Nat) (hm : IsNormal m) (hk : k = 52 ∨ k = 53) : (m <<< k).sqrt.log2 = 52 := by
  obtain ⟨hlo, hhi⟩ := hm
  have hge : 2 ^ 52 ≤ (m <<< k).sqrt := by
    rw [Nat.le_sqrt, Nat.shiftLeft_eq]
    rcases hk with rfl | rfl <;> omega
  have hlt : (m <<< k).sqrt < 2 ^ 53 := by
    rw [Nat.sqrt_lt, Nat.shiftLeft_eq]
    rcases hk with rfl | rfl <;> omega
  exact IsNormal.log2_eq ⟨hge, hlt⟩

theorem AtLeastOne.sqrt {u : UnpackedFloat} (h : AtLeastOne u) :
    AtLeastOne (UnpackedFloat.sqrt Format.binary64 u) := by
  cases h with
  | infinity => exact .infinity
  | finite m e hpos hm he =>
    have htarget : min (e.ediv 2) (Format.binary64.targetExponent ((totalExponent m e + 1).ediv 2)) =
        e / 2 - 26 := by
      rw [targetExponent_eq, totalExponent, hm.log2_eq]
      change min (e / 2) (max ((((52 : Nat) : Int) + 1 + e + 1) / 2 - 53) (-1074)) = _
      omega
    have hshift : (e - 2 * (e / 2 - 26)).toNat = 52 ∨ (e - 2 * (e / 2 - 26)).toNat = 53 := by omega
    have hroot := sqrt_bits m _ hm hshift
    rw [sqrt_finite, sqrtCore, htarget]
    dsimp only
    apply roundWithAccuracy_atLeastOne
    · rw [hroot]
    · rw [hroot]
      omega

theorem compare_then_gt {e e' : Int} (h : e' < e) (o : Ordering) : (compare e e').then o = .gt := by
  rw [compare_gt_iff_gt.mpr h]
  rfl

theorem AtLeastOne.compare_ne_lt {u v : UnpackedFloat} (hu : AtLeastOne u)
    (hv : (v.compare one).any Ordering.isLE = true) : u.compare v ≠ some .lt := by
  have hnone : (none : Option Ordering) ≠ some .lt := by decide
  have hgt : some Ordering.gt ≠ some .lt := by decide
  cases hu with
  | infinity =>
    cases v with
    | infinity s => cases s <;> decide
    | notANumber => exact hnone
    | zero s => exact hgt
    | finite s m e hpos => exact hgt
  | finite m e hpos hm he =>
    cases v with
    | infinity s =>
      cases s with
      | negative => exact hgt
      | positive => exact absurd hv (by decide)
    | notANumber => exact hnone
    | zero s => exact hgt
    | finite s m' e' hpos' =>
      cases s with
      | negative => exact hgt
      | positive =>
        change ((compare e' (-52)).then (compare m' (2 ^ 52))).isLE = true at hv
        change some ((compare e e').then (compare m m')) ≠ some .lt
        obtain ⟨hlo, -⟩ := hm
        rcases Int.lt_trichotomy e' (-52) with hlt | rfl | hgt
        · rw [compare_then_gt (by omega)]
          decide
        · rw [compare_eq_iff_eq.mpr rfl, Ordering.eq_then, Nat.isLE_compare] at hv
          rcases Int.lt_or_eq_of_le he with hlt | rfl
          · rw [compare_then_gt hlt]
            decide
          · rw [compare_eq_iff_eq.mpr rfl, Ordering.eq_then, Ne, Option.some.injEq, compare_lt_iff_lt]
            omega
        · rw [compare_then_gt hgt] at hv
          cases hv

def unpacked (x : Float) : UnpackedFloat := x.toModel.unpack

theorem unpacked_add (x y : Float) : unpacked (x + y) =
    (Float.Model.pack (UnpackedFloat.add Format.binary64 (unpacked x) (unpacked y))).unpack := rfl

theorem unpacked_sub (x y : Float) : unpacked (x - y) =
    (Float.Model.pack (UnpackedFloat.sub Format.binary64 (unpacked x) (unpacked y))).unpack := rfl

theorem unpacked_mul (x y : Float) : unpacked (x * y) =
    (Float.Model.pack (UnpackedFloat.mul Format.binary64 (unpacked x) (unpacked y))).unpack := rfl

theorem unpacked_neg (x : Float) : unpacked (-x) = (Float.Model.pack (unpacked x).neg).unpack := rfl

theorem unpacked_sqrt (x : Float) : unpacked x.sqrt =
    (Float.Model.pack (UnpackedFloat.sqrt Format.binary64 (unpacked x))).unpack := rfl

theorem unpacked_one : unpacked 1.0 = one := rfl

theorem unpacked_zero : unpacked 0.0 = .zero .positive := rfl

theorem IsInteger.mul_one {u : UnpackedFloat} {n : Int} (h : IsInteger u n) :
    UnpackedFloat.mul Format.binary64 u one = u := by
  cases h with
  | zero => rfl
  | finite s m k hpos n hm hn hs =>
    have hk := exponent_le s m k n hm hn hs
    have hsign : s * .positive = s := by cases s <;> rfl
    rw [one, mul_finite, hsign, roundWithAccuracy_exact s m 52 _ (hm.isCanonical (by omega))]
    exact finite_congr rfl rfl (by omega)

theorem isInteger_ofNat (n : Nat) (hn : n < 2 ^ 53) : IsInteger (unpacked (Float.ofNat n)) n := by
  have hfloat : IsInteger (unpacked n.toUInt64.toFloat) n := by
    have h := normalize_integer n 0 (by simpa using hn)
    have hu : unpacked n.toUInt64.toFloat =
        (Float.Model.pack
          (UnpackedFloat.normalize Format.binary64 (n.toUInt64.toNat : Int) 0 .positive)).unpack := rfl
    have hnat : n.toUInt64.toNat = n := Nat.mod_eq_of_lt (Nat.lt_trans hn (by decide))
    rw [hu, hnat]
    rw [Int.pow_zero, Int.mul_one] at h
    exact h.unpack_pack.symm ▸ h
  have hscale : unpacked (Float.ofNat n) = unpacked (n.toUInt64.toFloat * Float.ofBits 0x3FF0000000000000) := by
    rw [show Float.ofNat n = Float.ofScientific n false 0 from rfl, Float.ofScientific, dif_pos ⟨hn, by decide⟩]
    rfl
  rw [hscale, unpacked_mul, show unpacked (Float.ofBits 0x3FF0000000000000) = one from rfl, hfloat.mul_one,
    hfloat.unpack_pack]
  exact hfloat

theorem isInteger_neg (x : Float) (n : Int) (h : IsInteger (unpacked x) n) (hn : n ≠ 0) :
    IsInteger (unpacked (-x)) (-n) := by
  rw [unpacked_neg, (h.neg hn).unpack_pack]
  exact h.neg hn

/-- Integers below `2 ^ 53` are values. -/
theorem isInteger_ofInt (n : Int) (hn : n.natAbs < 2 ^ 53) : IsInteger (unpacked (Float.ofInt n)) n := by
  cases n with
  | ofNat n => exact isInteger_ofNat n hn
  | negSucc n => exact isInteger_neg _ _ (isInteger_ofNat (n + 1) hn) (by omega)

theorem isInteger_sub (x y : Float) (m n : Int) (hx : IsInteger (unpacked x) m) (hy : IsInteger (unpacked y) n)
    (hlt : (m - n).natAbs < 2 ^ 53) : IsInteger (unpacked (x - y)) (m - n) := by
  have h := hx.sub hy hlt
  rw [unpacked_sub, h.unpack_pack]
  exact h

/-- A square is zero for zero, and at least one for every other integer. -/
theorem square_cases (x : Float) (n : Int) (h : IsInteger (unpacked x) n) :
    (n = 0 ∧ unpacked (x * x) = .zero .positive) ∨ (n ≠ 0 ∧ AtLeastOne (unpacked (x * x))) := by
  by_cases hn : n = 0
  · subst hn
    refine .inl ⟨rfl, ?_⟩
    rw [unpacked_mul, h.mul_self_zero, unpack_pack_zero]
  · refine .inr ⟨hn, ?_⟩
    rw [unpacked_mul]
    exact (h.mul_self hn).unpack_pack

theorem sqrt_zero (x : Float) (h : unpacked x = .zero .positive) : unpacked x.sqrt = .zero .positive := by
  rw [unpacked_sqrt, h]
  exact unpack_pack_zero .positive

theorem sqrt_atLeastOne (x : Float) (h : AtLeastOne (unpacked x)) : AtLeastOne (unpacked x.sqrt) := by
  rw [unpacked_sqrt]
  exact h.sqrt.unpack_pack

/-- The root of a sum of two squares is zero if both integers are, and at least one otherwise. -/
theorem hypotenuse_cases (x y : Float) (m n : Int) (hx : IsInteger (unpacked x) m)
    (hy : IsInteger (unpacked y) n) :
    (m = 0 ∧ n = 0 ∧ unpacked (x * x + y * y).sqrt = .zero .positive) ∨
      (¬ (m = 0 ∧ n = 0) ∧ AtLeastOne (unpacked (x * x + y * y).sqrt)) := by
  rcases square_cases x m hx with ⟨hm, hxx⟩ | ⟨hm, hxx⟩ <;>
    rcases square_cases y n hy with ⟨hn, hyy⟩ | ⟨hn, hyy⟩
  · refine .inl ⟨hm, hn, sqrt_zero _ ?_⟩
    rw [unpacked_add, hxx, hyy]
    exact unpack_pack_zero .positive
  · refine .inr ⟨fun h => hn h.2, sqrt_atLeastOne _ ?_⟩
    rw [unpacked_add, hxx, hyy.zero_add]
    exact hyy.unpack_pack
  · refine .inr ⟨fun h => hm h.1, sqrt_atLeastOne _ ?_⟩
    rw [unpacked_add, hyy, hxx.add_zero]
    exact hxx.unpack_pack
  · refine .inr ⟨fun h => hm h.1, sqrt_atLeastOne _ ?_⟩
    rw [unpacked_add]
    exact (hxx.add hyy).unpack_pack

theorem lt_iff (x y : Float) : x < y ↔ (unpacked x).compare (unpacked y) = some .lt := by
  change decide (x.toModel < y.toModel) = true ↔ _
  simp [LT.lt, Float.Model.lt, UnpackedFloat.lt, unpacked]

theorem le_iff (x y : Float) : x ≤ y ↔ ((unpacked x).compare (unpacked y)).any Ordering.isLE = true := by
  change decide (x.toModel ≤ y.toModel) = true ↔ _
  rw [decide_eq_true_iff]
  rfl

theorem lt_of_zero (x y : Float) (s : Sign) (hx : unpacked x = .zero s) (hy : 0.0 < y) : x < y := by
  rw [lt_iff, unpacked_zero] at hy
  rw [lt_iff, hx]
  cases s with
  | positive => exact hy
  | negative =>
    cases hu : unpacked y with
    | infinity s => rw [hu] at hy; cases s <;> exact hy
    | notANumber => rw [hu] at hy; exact hy
    | zero s => rw [hu] at hy; exact hy
    | finite s m e hpos => rw [hu] at hy; cases s <;> exact hy

/-- What is at least one is not below what is at most one. -/
theorem not_lt_of_atLeastOne (x y : Float) (hx : AtLeastOne (unpacked x)) (hy : y ≤ 1.0) : ¬ x < y := by
  rw [le_iff, unpacked_one] at hy
  rw [lt_iff]
  exact hx.compare_ne_lt hy

theorem not_le_zero_of_pos (x : Float) (h : 0.0 < x) : ¬ x ≤ 0.0 := by
  rw [lt_iff, unpacked_zero] at h
  rw [le_iff, unpacked_zero]
  cases hu : unpacked x with
  | infinity s =>
    rw [hu] at h
    cases s with
    | positive => exact Bool.false_ne_true
    | negative => exact absurd h (by decide)
  | notANumber => exact Bool.false_ne_true
  | zero s =>
    rw [hu] at h
    cases s <;> exact absurd h (by decide)
  | finite s m e hpos =>
    rw [hu] at h
    cases s with
    | positive => exact Bool.false_ne_true
    | negative =>
      change some Ordering.gt = some .lt at h
      cases h

end RightOfWay.Number.Binary64

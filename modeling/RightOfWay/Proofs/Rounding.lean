import RightOfWay.Proofs.Comparison
import Mathlib.Data.Nat.Log

namespace RightOfWay.Number.Binary64

open Float.Model Float.Model.UnpackedFloat

/-- A mantissa together with its round bit and its sticky bit, as one number. -/
def weight (em : ExtendedMantissa) : Nat := 4 * em.mantissa + 2 * em.roundBit.toNat + em.stickyBit.toNat

variable {em em' : ExtendedMantissa}

theorem weight_shiftRightOne (em : ExtendedMantissa) :
    weight em.shiftRightOne = 2 * em.mantissa + (em.roundBit || em.stickyBit).toNat := by
  obtain ⟨m, r, s⟩ := em
  have hparity : 4 * (m / 2) + 2 * (m % 2 != 0).toNat = 2 * m := by
    rcases Nat.mod_two_eq_zero_or_one m with h | h
    · rw [h, show ((0 : Nat) != 0).toNat = 0 from rfl]
      omega
    · rw [h, show ((1 : Nat) != 0).toNat = 1 from rfl]
      omega
  change 4 * (m / 2) + 2 * (m % 2 != 0).toNat + (r || s).toNat = 2 * m + (r || s).toNat
  rw [hparity]

theorem or_toNat_mono : ∀ r s r' s' : Bool, 2 * r.toNat + s.toNat ≤ 2 * r'.toNat + s'.toNat →
    (r || s).toNat ≤ (r' || s').toNat := by decide

theorem weight_shiftRightOne_mono (h : weight em ≤ weight em') :
    weight em.shiftRightOne ≤ weight em'.shiftRightOne := by
  have hbits := or_toNat_mono em.roundBit em.stickyBit em'.roundBit em'.stickyBit
  have hor := Bool.toNat_le (em.roundBit || em.stickyBit)
  have hround := Bool.toNat_le em'.roundBit
  have hsticky := Bool.toNat_le em'.stickyBit
  rw [weight_shiftRightOne, weight_shiftRightOne]
  rw [weight, weight] at h
  rcases Nat.lt_trichotomy em.mantissa em'.mantissa with hlt | heq | hgt <;> omega

theorem weight_shiftRight_mono (h : weight em ≤ weight em') (k : Nat) : weight (em >>> k) ≤ weight (em' >>> k) := by
  induction k with
  | zero => exact h
  | succ k ih =>
    rw [shiftRight_succ, shiftRight_succ]
    exact weight_shiftRightOne_mono ih

theorem roundedMantissa_mono (h : weight em ≤ weight em') : em.roundedMantissa ≤ em'.roundedMantissa := by
  obtain ⟨m, r, s⟩ := em
  obtain ⟨m', r', s'⟩ := em'
  have hround (n : Nat) : (⟨n, true, false⟩ : ExtendedMantissa).roundedMantissa = n + n % 2 := rfl
  have hup (n : Nat) : (⟨n, true, true⟩ : ExtendedMantissa).roundedMantissa = n + 1 := rfl
  have hdown (n : Nat) (b : Bool) : (⟨n, false, b⟩ : ExtendedMantissa).roundedMantissa = n := by cases b <;> rfl
  dsimp only [weight] at h
  cases r <;> cases s <;> cases r' <;> cases s' <;> simp only [hround, hup, hdown] <;>
    dsimp only [Bool.toNat_false, Bool.toNat_true] at h <;> omega

theorem shiftRight_add (em : ExtendedMantissa) (i k : Nat) : em >>> (i + k) = (em >>> i) >>> k := by
  induction k with
  | zero => rfl
  | succ k ih => rw [← Nat.add_assoc, shiftRight_succ, shiftRight_succ, ih]

theorem two_pow_mul_congr {a b c d : Nat} (h : a + b = c + d) : 2 ^ a * 2 ^ b = 2 ^ c * 2 ^ d := by
  rw [← Nat.pow_add, ← Nat.pow_add, h]

theorem topLevel_eq {a b : Nat} (h : a + b = 2098) : topLevel = 2 ^ a * 2 ^ b := two_pow_mul_congr h.symm

/-- By how many bits a number of quanta is too long for a mantissa. -/
def excess (n : Nat) : Nat := n.log2 - 52

/-- The mantissa to which a number of quanta is rounded. -/
def roundedTo (n : Nat) : Nat := ((⟨n, false, false⟩ : ExtendedMantissa) >>> excess n).roundedMantissa

/-- A number of quanta, rounded. -/
def magnitude (n : Nat) : Nat := roundedTo n * 2 ^ excess n

theorem roundedTo_eq_or_succ (n : Nat) : roundedTo n = n / 2 ^ excess n ∨ roundedTo n = n / 2 ^ excess n + 1 := by
  have h := rounded_eq_or_succ ((⟨n, false, false⟩ : ExtendedMantissa) >>> excess n)
  rwa [shiftRight_mantissa] at h

theorem div_excess_lt (n : Nat) : n / 2 ^ excess n < 2 ^ 53 := by
  rw [Nat.div_lt_iff_lt_mul (Nat.two_pow_pos _), ← Nat.pow_add]
  exact Nat.lt_of_lt_of_le Nat.lt_log2_self (Nat.pow_le_pow_right (by decide) (by rw [excess]; omega))

theorem le_div_excess {n : Nat} (h : excess n ≠ 0) : 2 ^ 52 ≤ n / 2 ^ excess n := by
  have hbits : 52 + excess n = n.log2 := by rw [excess] at h ⊢; omega
  have hn : n ≠ 0 := by
    rintro rfl
    exact h rfl
  rw [Nat.le_div_iff_mul_le (Nat.two_pow_pos _), ← Nat.pow_add, hbits]
  exact Nat.log2_self_le hn

theorem roundedTo_le (n : Nat) : roundedTo n ≤ 2 ^ 53 := by
  have hlt := div_excess_lt n
  rcases roundedTo_eq_or_succ n with h | h <;> omega

theorem le_roundedTo {n : Nat} (h : excess n ≠ 0) : 2 ^ 52 ≤ roundedTo n := by
  have hle := le_div_excess h
  rcases roundedTo_eq_or_succ n with h | h <;> omega

theorem roundedTo_pos {n : Nat} (hn : 0 < n) : 0 < roundedTo n := by
  by_cases h : excess n = 0
  · have heq : n / 2 ^ excess n = n := by rw [h, Nat.pow_zero, Nat.div_one]
    rcases roundedTo_eq_or_succ n with h | h <;> omega
  · exact Nat.lt_of_lt_of_le (by decide) (le_roundedTo h)

theorem excess_mono {n n' : Nat} (h : n ≤ n') : excess n ≤ excess n' := by
  rw [excess, excess, Nat.log2_eq_log_two, Nat.log2_eq_log_two]
  exact Nat.sub_le_sub_right (Nat.log_mono_right h) 52

/-- A smaller magnitude is not rounded above a larger one. -/
theorem magnitude_mono {n n' : Nat} (h : n ≤ n') : magnitude n ≤ magnitude n' := by
  rcases Nat.eq_or_lt_of_le (excess_mono h) with heq | hlt
  · -- the same bits are cut off
    have hweight : weight ⟨n, false, false⟩ ≤ weight ⟨n', false, false⟩ := by
      dsimp only [weight]
      omega
    have hround : roundedTo n ≤ roundedTo n' := by
      rw [roundedTo, roundedTo, heq]
      exact roundedMantissa_mono (weight_shiftRight_mono hweight _)
    rw [magnitude, magnitude, heq]
    exact Nat.mul_le_mul_right _ hround
  · -- a power of two lies between them
    calc
      magnitude n ≤ 2 ^ 53 * 2 ^ excess n := Nat.mul_le_mul_right _ (roundedTo_le n)
      _ = 2 ^ 52 * 2 ^ (excess n + 1) := two_pow_mul_congr (by omega)
      _ ≤ roundedTo n' * 2 ^ excess n' :=
        Nat.mul_le_mul (le_roundedTo (by omega)) (Nat.pow_le_pow_right (by decide) hlt)

/-- Before it is rounded, a number loses the bits that it has in excess, whatever its exponent was. -/
theorem round_eq (s : Sign) (n i : Nat) (hn : n ≠ 0) : ∃ m e,
    UnpackedFloat.round Format.binary64 s n (-1074 + i) = roundWithAccuracy Format.binary64 s m e .exact ∧
    shiftToTargetExponent Format.binary64 m e .exact =
      ((⟨n * 2 ^ i, false, false⟩ : ExtendedMantissa) >>> excess (n * 2 ^ i), -1074 + (excess (n * 2 ^ i) : Int)) := by
  obtain ⟨k, hk⟩ : ∃ k, excess (n * 2 ^ i) = k := ⟨_, rfl⟩
  have hlog := log2_mul_two_pow n i hn
  have htarget : Format.binary64.targetExponent (totalExponent n (-1074 + i)) = -1074 + k := by
    rw [targetExponent_eq, totalExponent, ← hk, excess, hlog]
    omega
  have hd : (-1074 + (i : Int) - (-1074 + k)).toNat = i - k := by omega
  refine ⟨n * 2 ^ (i - k), -1074 + (i : Int) - ((i - k : Nat) : Int), ?_, ?_⟩
  · rw [UnpackedFloat.round, htarget, decreaseExponent, hd, Nat.shiftLeft_eq]
  · have htotal : totalExponent (n * 2 ^ (i - k)) (-1074 + (i : Int) - ((i - k : Nat) : Int)) =
        totalExponent n (-1074 + i) := by
      rw [totalExponent, totalExponent, log2_mul_two_pow n _ hn]
      omega
    have hshift : (-1074 + (k : Int) - (-1074 + (i : Int) - ((i - k : Nat) : Int))).toNat = k - i := by omega
    have hexp : -1074 + (i : Int) - ((i - k : Nat) : Int) + ((k - i : Nat) : Int) = -1074 + k := by omega
    rw [shiftToTargetExponent, htotal, htarget, shiftToExponent, hshift, hexp, hk]
    apply congrArg (·, -1074 + (k : Int))
    change (⟨n * 2 ^ (i - k), false, false⟩ : ExtendedMantissa) >>> (k - i) = _
    rcases Nat.le_total k i with hki | hik
    · obtain ⟨d, rfl⟩ := Nat.exists_eq_add_of_le hki
      rw [Nat.add_sub_cancel_left, Nat.sub_eq_zero_of_le hki, Nat.add_comm k, Nat.pow_add, ← Nat.mul_assoc,
        shiftRight_exact]
      rfl
    · obtain ⟨d, rfl⟩ := Nat.exists_eq_add_of_le hik
      rw [Nat.add_sub_cancel_left, Nat.sub_eq_zero_of_le hik, shiftRight_add, shiftRight_exact, Nat.pow_zero,
        Nat.mul_one]

/-- A mantissa that is rounded up to 54 bits goes to the next exponent and keeps its quanta. -/
theorem roundWithAccuracy_quanta (s : Sign) (m : Nat) (e : Int) (a : Accuracy) (em : ExtendedMantissa) (k : Nat)
    (hs : shiftToTargetExponent Format.binary64 m e a = (em, -1074 + (k : Int))) (hpos : 0 < em.roundedMantissa)
    (hle : em.roundedMantissa ≤ 2 ^ 53) (hfull : 2 ^ 52 ≤ em.roundedMantissa ∨ k = 0) : ∃ m' j hpos',
      roundWithAccuracy Format.binary64 s m e a = .finite s m' (-1074 + (j : Nat)) hpos' ∧
      IsCanonical m' (-1074 + j) ∧ m' * 2 ^ j = em.roundedMantissa * 2 ^ k := by
  by_cases hfit : em.roundedMantissa < 2 ^ 53
  · have hc : IsCanonical em.roundedMantissa (-1074 + (k : Int)) := ⟨hpos, hfit, by omega, hfull.imp_right (by omega)⟩
    refine ⟨_, k, hpos, ?_, hc, rfl⟩
    rw [roundWithAccuracy, hs]
    dsimp only
    rw [shiftToTargetExponent_canonical _ _ hc]
    exact dif_neg hc.ne_zero
  · have hcarry : em.roundedMantissa = 2 ^ 53 := by omega
    have hexp : -1074 + (k : Int) + 1 = -1074 + ((k + 1 : Nat) : Int) := by omega
    refine ⟨2 ^ 52, k + 1, by decide, ?_, ⟨by decide, by decide, by omega, .inl (Nat.le_refl _)⟩, ?_⟩
    · rw [roundWithAccuracy, hs]
      dsimp only
      rw [hcarry, shiftToTargetExponent_carry _ (by omega)]
      exact finite_congr rfl rfl hexp
    · rw [hcarry]
      exact two_pow_mul_congr (by omega)

/-- Rounding gives the canonical form of the rounded magnitude. -/
theorem round_magnitude (s : Sign) (n i : Nat) (hn : 0 < n) : ∃ m j hpos,
    UnpackedFloat.round Format.binary64 s n (-1074 + i) = .finite s m (-1074 + (j : Nat)) hpos ∧
    IsCanonical m (-1074 + j) ∧ m * 2 ^ j = magnitude (n * 2 ^ i) := by
  obtain ⟨m, e, hround, hshift⟩ := round_eq s n i (by omega)
  have hpos := roundedTo_pos (Nat.mul_pos hn (Nat.two_pow_pos i))
  have hfull : 2 ^ 52 ≤ roundedTo (n * 2 ^ i) ∨ excess (n * 2 ^ i) = 0 := by
    by_cases h : excess (n * 2 ^ i) = 0
    · exact .inr h
    · exact .inl (le_roundedTo h)
  rw [hround]
  exact roundWithAccuracy_quanta s m e .exact _ _ hshift hpos (roundedTo_le _) hfull

/-- The quanta of a value are not rounded. -/
theorem IsCanonical.magnitude_eq {m j : Nat} (h : IsCanonical m (-1074 + j)) : magnitude (m * 2 ^ j) = m * 2 ^ j := by
  have hexcess : excess (m * 2 ^ j) = j := by
    have hbits : m.log2 < 53 := (Nat.log2_lt h.ne_zero).mpr h.lt
    rw [excess, log2_mul_two_pow m j h.ne_zero]
    rcases h.full with hm | hj
    · rw [IsNormal.log2_eq ⟨hm, h.lt⟩]
      omega
    · omega
  have hround : roundedTo (m * 2 ^ j) = m := by
    rw [roundedTo, hexcess, shiftRight_exact]
    rfl
  rw [magnitude, hround, hexcess]

/-- The level to which a number of quanta is rounded: with its sign, and not beyond the infinities. -/
def roundedLevel (n : Int) : Int := n.sign * (min (magnitude n.natAbs) topLevel : Nat)

theorem roundedLevel_of_neg {n : Int} (h : n < 0) : roundedLevel n = -(min (magnitude n.natAbs) topLevel : Nat) := by
  rw [roundedLevel, Int.sign_eq_neg_one_of_neg h, Int.neg_one_mul]

theorem roundedLevel_of_pos {n : Int} (h : 0 < n) : roundedLevel n = (min (magnitude n.natAbs) topLevel : Nat) := by
  rw [roundedLevel, Int.sign_eq_one_of_pos h, Int.one_mul]

theorem roundedLevel_zero : roundedLevel 0 = 0 := Int.zero_mul _

theorem roundedLevel_mono {n n' : Int} (h : n ≤ n') : roundedLevel n ≤ roundedLevel n' := by
  rcases Int.lt_trichotomy n 0 with hn | rfl | hn
  · rw [roundedLevel_of_neg hn]
    rcases Int.lt_trichotomy n' 0 with hn' | rfl | hn'
    · have hmono := magnitude_mono (show n'.natAbs ≤ n.natAbs by omega)
      rw [roundedLevel_of_neg hn']
      omega
    · rw [roundedLevel_zero]
      omega
    · rw [roundedLevel_of_pos hn']
      omega
  · rcases Int.lt_or_eq_of_le h with hn' | rfl
    · rw [roundedLevel_zero, roundedLevel_of_pos hn']
      omega
    · exact Int.le_refl _
  · have hmono := magnitude_mono (show n.natAbs ≤ n'.natAbs by omega)
    rw [roundedLevel_of_pos hn, roundedLevel_of_pos (by omega)]
    omega

/-- What results of rounding are: numbers, and zero only with the positive sign. -/
structure IsPlain (u : UnpackedFloat) : Prop where
  value : IsValue u
  number : u.isNaN = false
  unsigned : u ≠ .zero .negative

theorem IsPlain.eq_of_levelOf {u v : UnpackedFloat} (hu : IsPlain u) (hv : IsPlain v) (h : levelOf u = levelOf v) :
    u = v := by
  obtain ⟨hu, hu', hu''⟩ := hu
  obtain ⟨hv, hv', hv''⟩ := hv
  obtain ⟨o, ho, hcompares⟩ := compares_levelOf hu hv hu' hv'
  obtain rfl : o = .eq := hcompares.eq_eq.mpr h
  cases hu with
  | notANumber => cases hu'
  | infinity s =>
    cases hv with
    | notANumber => cases hv'
    | infinity s' => cases s <;> cases s' <;> first | rfl | cases ho
    | zero s' => cases s <;> cases ho
    | finite s' m' j' hpos' hc' hj' => cases s <;> cases ho
  | zero s =>
    cases hv with
    | notANumber => cases hv'
    | infinity s' => cases s' <;> cases ho
    | zero s' => cases s <;> cases s' <;> first | rfl | exact absurd rfl hu'' | exact absurd rfl hv''
    | finite s' m' j' hpos' hc' hj' => cases s' <;> cases ho
  | finite s m j hpos hc hj =>
    cases hv with
    | notANumber => cases hv'
    | infinity s' => cases s' <;> cases s <;> cases ho
    | zero s' => cases s <;> cases ho
    | finite s' m' j' hpos' hc' hj' =>
      have hsame : s = s' ∧ (compare (-1074 + (j : Int)) (-1074 + j')).then (compare m m') = .eq := by
        cases s <;> cases s'
        · exact ⟨rfl, Ordering.swap_inj.mp (Option.some.inj ho)⟩
        · cases ho
        · cases ho
        · exact ⟨rfl, Option.some.inj ho⟩
      obtain ⟨hs, hmagnitude⟩ := hsame
      rw [Ordering.then_eq_eq, compare_eq_iff_eq, compare_eq_iff_eq] at hmagnitude
      exact finite_congr hs hmagnitude.2 hmagnitude.1

theorem IsCanonical.pack_plain {m j : Nat} (hc : IsCanonical m (-1074 + j)) (s : Sign) (hpos : 0 < m) : ∃ w,
    IsPlain w ∧ Float.Model.pack (.finite s m (-1074 + j) hpos) = Float.Model.pack w ∧
    levelOf w = s.apply (min (m * 2 ^ j) topLevel : Nat) := by
  by_cases hj : j ≤ 2045
  · have hlt := hc.lt_topLevel hj
    refine ⟨_, ⟨.finite s m j hpos hc hj, rfl, by rintro ⟨⟩⟩, rfl, ?_⟩
    rw [levelOf_finite, Nat.min_eq_left (Nat.le_of_lt hlt)]
  · have hlarge : 2046 ≤ j := by omega
    have hfull : 2 ^ 52 ≤ m := hc.full.resolve_right (by omega)
    have hle : topLevel ≤ m * 2 ^ j := by
      calc
        topLevel = 2 ^ 52 * 2 ^ 2046 := topLevel_eq (a := 52) (b := 2046) rfl
        _ ≤ m * 2 ^ j := by
          gcongr
          decide
    have hbig : 2 ^ 11 ≤ (-1074 + (j : Int) + (1023 : Nat) + (52 : Nat)).toNat + 1 := by omega
    have hp : UnpackedFloat.pack Format.binary64 (.finite s m (-1074 + j) hpos) =
        UnpackedFloat.pack Format.binary64 (.infinity s) := if_pos hbig
    refine ⟨.infinity s, ⟨.infinity s, rfl, by rintro ⟨⟩⟩, ?_, ?_⟩
    · rw [Float.Model.pack, Float.Model.pack, Float.Model.mk.injEq, hp]
    · rw [levelOf_infinity, Nat.min_eq_right hle]

theorem round_plain (s : Sign) (n i : Nat) (hn : 0 < n) : ∃ w, IsPlain w ∧
    Float.Model.pack (UnpackedFloat.round Format.binary64 s n (-1074 + i)) = Float.Model.pack w ∧
    levelOf w = s.apply (min (magnitude (n * 2 ^ i)) topLevel : Nat) := by
  obtain ⟨m, j, hpos, hround, hc, hmagnitude⟩ := round_magnitude s n i hn
  rw [hround, ← hmagnitude]
  exact hc.pack_plain s hpos

/-- Whatever number is rounded, the result is plain, and its level depends on the number of quanta alone. -/
theorem normalize_plain (n : Int) (i : Nat) : ∃ w, IsPlain w ∧
    Float.Model.pack (UnpackedFloat.normalize Format.binary64 n (-1074 + i) .positive) = Float.Model.pack w ∧
    levelOf w = roundedLevel (n * 2 ^ i) := by
  have hpow : (0 : Int) < 2 ^ i := by positivity
  have habs : (n * 2 ^ i).natAbs = n.natAbs * 2 ^ i := by
    rw [Int.natAbs_mul, Int.natAbs_pow]
    rfl
  rw [UnpackedFloat.normalize]
  rcases Int.lt_trichotomy n 0 with hn | rfl | hn
  · rw [compare_lt_iff_lt.mpr hn, roundedLevel_of_neg (Int.mul_neg_of_neg_of_pos hn hpow), habs,
      show n.natAbs = (-n).toNat by omega]
    exact round_plain .negative (-n).toNat i (by omega)
  · refine ⟨.zero .positive, ⟨.zero _, rfl, by rintro ⟨⟩⟩, rfl, ?_⟩
    rw [Int.zero_mul]
    exact roundedLevel_zero.symm
  · rw [compare_gt_iff_gt.mpr hn, roundedLevel_of_pos (Int.mul_pos hn hpow), habs, show n.natAbs = n.toNat by omega]
    exact round_plain .positive n.toNat i (by omega)

def unitLevel : Nat := 2 ^ 52 * 2 ^ 1022

theorem levelOf_one : levelOf one = unitLevel := levelOf_finite .positive (2 ^ 52) 1022 (by decide)

theorem isCanonical_one : IsCanonical (2 ^ 52) (-1074 + (1022 : Nat)) :=
  ⟨by decide, by decide, by decide, .inl (Nat.le_refl _)⟩

theorem isPlain_one : IsPlain one := ⟨isValue_unpacked 1.0, rfl, by rintro ⟨⟩⟩

theorem roundedLevel_one : roundedLevel unitLevel = unitLevel := by
  have hpos : 0 < unitLevel := by
    rw [unitLevel]
    positivity
  rw [roundedLevel_of_pos (by omega), Int.natAbs_natCast, unitLevel, isCanonical_one.magnitude_eq,
    Nat.min_eq_left (Nat.le_of_lt (isCanonical_one.lt_topLevel (by decide)))]

theorem unitLevel_le : unitLevel ≤ 2 ^ 52 * 2 ^ 1992 := by
  rw [unitLevel]
  gcongr <;> decide

/-- Half a step below the infinities it is too late. -/
theorem magnitude_half_below_top : magnitude ((2 ^ 54 - 1) * 2 ^ 2044) = topLevel := by
  have hexcess : excess ((2 ^ 54 - 1) * 2 ^ 2044) = 2044 + 1 := by
    have hlog : (2 ^ 54 - 1).log2 = 53 := (Nat.log2_eq_iff (by decide)).mpr ⟨by decide, by decide⟩
    rw [excess, log2_mul_two_pow _ _ (by decide), hlog]
  have hround : roundedTo ((2 ^ 54 - 1) * 2 ^ 2044) = 2 ^ 53 := by
    rw [roundedTo, hexcess, shiftRight_succ, shiftRight_exact]
    rfl
  rw [magnitude, hround, hexcess, topLevel]

/-- One is too little to bring an infinity back. -/
theorem topLevel_le_magnitude {n : Nat} (h : topLevel ≤ n + unitLevel) : topLevel ≤ magnitude n := by
  have hle : (2 ^ 54 - 1) * 2 ^ 2044 ≤ n := by
    have hunit := unitLevel_le
    have htop := topLevel_eq (a := 54) (b := 2044) rfl
    have hhalf : 2 ^ 52 * 2 ^ 1992 = 2 ^ 0 * 2 ^ 2044 := two_pow_mul_congr rfl
    omega
  rw [← magnitude_half_below_top]
  exact magnitude_mono hle

/-- Differences of finite numbers are the rounded differences of their levels. -/
theorem sub_finite_plain (s s' : Sign) (m m' j j' : Nat) (hpos : 0 < m) (hpos' : 0 < m') : ∃ w, IsPlain w ∧
    Float.Model.pack (UnpackedFloat.sub Format.binary64 (.finite s m (-1074 + j) hpos)
      (.finite s' m' (-1074 + j') hpos')) = Float.Model.pack w ∧
    levelOf w = roundedLevel (s.apply (m * 2 ^ j : Nat) - s'.apply (m' * 2 ^ j' : Nat)) := by
  obtain ⟨k, hk⟩ := Nat.exists_eq_add_of_le (Nat.min_le_left j j')
  obtain ⟨k', hk'⟩ := Nat.exists_eq_add_of_le (Nat.min_le_right j j')
  have hmin : min (-1074 + (j : Int)) (-1074 + j') = -1074 + (min j j' : Nat) := by omega
  have hleft := decreaseExponent_quanta s m (min j j') k
  have hright := decreaseExponent_quanta s' m' (min j j') k'
  rw [← hk] at hleft
  rw [← hk'] at hright
  rw [sub_finite, hmin, apply_mul_two_pow, apply_mul_two_pow, ← hleft, ← hright, ← Int.sub_mul]
  exact normalize_plain _ (min j j')

/-- The complement of a number to one is plain, and its level is the rounded difference of levels. That is so for the
infinities as well. -/
theorem one_sub_plain {u : UnpackedFloat} (hu : IsValue u) (hu' : u.isNaN = false) : ∃ w, IsPlain w ∧
    Float.Model.pack (UnpackedFloat.sub Format.binary64 one u) = Float.Model.pack w ∧
    levelOf w = roundedLevel (unitLevel - levelOf u) := by
  cases hu with
  | notANumber => cases hu'
  | infinity s =>
    have hlt : unitLevel < topLevel := isCanonical_one.lt_topLevel (by decide)
    refine ⟨.infinity (-s), ⟨.infinity _, rfl, by rintro ⟨⟩⟩, rfl, ?_⟩
    cases s with
    | negative =>
      have hle := topLevel_le_magnitude (n := unitLevel + topLevel) (by omega)
      change (topLevel : Int) = roundedLevel (unitLevel - -topLevel)
      rw [roundedLevel_of_pos (by omega), show ((unitLevel : Int) - -topLevel).natAbs = unitLevel + topLevel by omega,
        Nat.min_eq_right hle]
    | positive =>
      have hle := topLevel_le_magnitude (n := topLevel - unitLevel) (by omega)
      change -(topLevel : Int) = roundedLevel (unitLevel - topLevel)
      rw [roundedLevel_of_neg (by omega), show ((unitLevel : Int) - topLevel).natAbs = topLevel - unitLevel by omega,
        Nat.min_eq_right hle]
  | zero s =>
    refine ⟨one, isPlain_one, rfl, ?_⟩
    rw [levelOf_one, levelOf_zero, Int.sub_zero, roundedLevel_one]
  | finite s m j hpos hc hj =>
    rw [levelOf_finite]
    exact sub_finite_plain .positive s (2 ^ 52) m 1022 j (by decide) hpos

variable {x y : Float}

theorem isPlain_one_sub (hx : x.isNaN = false) : IsPlain (unpacked (1.0 - x)) ∧
    1.0 - x = .ofModel (Float.Model.pack (unpacked (1.0 - x))) ∧
    level (1.0 - x) = roundedLevel (unitLevel - level x) := by
  obtain ⟨w, hw, hpack, hlevel⟩ := one_sub_plain (isValue_unpacked x) hx
  have hunpacked : unpacked (1.0 - x) = w := by
    rw [unpacked_sub, unpacked_one, hpack, hw.value.unpack_pack]
  rw [level, hunpacked]
  exact ⟨hw, congrArg Float.ofModel hpack, hlevel⟩

theorem isNaN_one_sub (x : Float) : (1.0 - x).isNaN = x.isNaN := by
  cases hx : x.isNaN with
  | true =>
    change (unpacked (1.0 - x)).isNaN = true
    rw [unpacked_sub, unpacked_one, unpacked_of_isNaN hx]
    rfl
  | false => exact (isPlain_one_sub hx).1.number

theorem one_sub_le_one_sub (h : x ≤ y) : 1.0 - y ≤ 1.0 - x := by
  obtain ⟨hx, hy⟩ := isNaN_of_le h
  rw [le_iff_level hx hy] at h
  rw [le_iff_level (isNaN_one_sub y ▸ hy) (isNaN_one_sub x ▸ hx), (isPlain_one_sub hx).2.2, (isPlain_one_sub hy).2.2]
  exact roundedLevel_mono (by omega)

/-- Complements that are at the same level are the same. -/
theorem one_sub_congr (hx : x.isNaN = false) (hy : y.isNaN = false) (h : level (1.0 - x) = level (1.0 - y)) :
    1.0 - x = 1.0 - y := by
  obtain ⟨hplain, hpack, -⟩ := isPlain_one_sub hx
  obtain ⟨hplain', hpack', -⟩ := isPlain_one_sub hy
  rw [hpack, hpack', hplain.eq_of_levelOf hplain' h]

end RightOfWay.Number.Binary64

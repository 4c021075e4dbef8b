import RightOfWay.Proofs.Binary64
import Mathlib.Algebra.BigOperators.Ring.List

namespace RightOfWay.Number.Binary64

open Float.Model Float.Model.UnpackedFloat

/-- What values are unpacked to. -/
inductive IsValue : UnpackedFloat → Prop where
  | infinity (s : Sign) : IsValue (.infinity s)
  | notANumber : IsValue .notANumber
  | zero (s : Sign) : IsValue (.zero s)
  | finite (s : Sign) (m j : Nat) (hpos : 0 < m) : IsCanonical m (-1074 + j) → j ≤ 2045 →
      IsValue (.finite s m (-1074 + j) hpos)

theorem unpack_pack_subnormal (s : Sign) (m : Nat) (hpos : 0 < m) (hm : m < 2 ^ 52) :
    (Float.Model.pack (.finite s m (-1074) hpos)).unpack = .finite s m (-1074) hpos := by
  have hbits : m.log2 < 52 := (Nat.log2_lt (Nat.pos_iff_ne_zero.mp hpos)).mpr hm
  have hp : UnpackedFloat.pack Format.binary64 (.finite s m (-1074) hpos) =
      packComponents Format.binary64 s 0#11 (BitVec.ofNat 52 m) := by
    have hlog : ¬ m.log2 + 1 = Format.binary64.mantissaBits := by
      change ¬ m.log2 + 1 = 53
      omega
    exact if_neg hlog
  have hmant : (BitVec.ofNat 52 m).toNat = m := by
    rw [BitVec.toNat_ofNat]
    exact Nat.mod_eq_of_lt hm
  have hne : BitVec.ofNat 52 m ≠ 0#52 := by
    intro h
    have hzero := congrArg BitVec.toNat h
    rw [hmant] at hzero
    exact absurd hzero (Nat.pos_iff_ne_zero.mp hpos)
  rw [unpack_pack, hp]
  delta UnpackedFloat.unpack
  dsimp only
  rw [unpackExponent_packComponents, if_neg (by decide), if_pos rfl,
    dif_neg (by rw [unpackMantissa_packComponents]; exact hne)]
  apply finite_congr
  · exact unpackSign_packComponents _ _ _ _
  · rw [unpackMantissa_packComponents]
    exact hmant
  · rfl

theorem IsValue.unpack_pack {u : UnpackedFloat} (h : IsValue u) : (Float.Model.pack u).unpack = u := by
  cases h with
  | infinity s => exact unpack_pack_infinity s
  | notANumber => rfl
  | zero s => exact unpack_pack_zero s
  | finite s m j hpos hc hj =>
    by_cases hm : 2 ^ 52 ≤ m
    · exact unpack_pack_normal s m _ hpos ⟨hm, hc.lt⟩ hc.least (by omega)
    · have he : (-1074 + (j : Int)) = -1074 := hc.full.resolve_left hm
      rw [finite_congr rfl rfl he]
      exact unpack_pack_subnormal s m hpos (by omega)

theorem isValue_unpack (b : BitVec 64) : IsValue (UnpackedFloat.unpack Format.binary64 b) := by
  obtain ⟨m, hm⟩ : ∃ m : BitVec 52, @unpackMantissa Format.binary64 b = m := ⟨_, rfl⟩
  have hbound : m.toNat < 2 ^ 52 := m.isLt
  delta UnpackedFloat.unpack
  dsimp only
  generalize @unpackExponent Format.binary64 b = e
  have he : e.toNat < 2 ^ 11 := e.isLt
  by_cases hlast : e = -1#11
  · rw [if_pos hlast]
    split
    · exact .infinity _
    · exact .notANumber
  rw [if_neg hlast]
  by_cases hfirst : e = 0#11
  · rw [if_pos hfirst]
    by_cases hnone : @unpackMantissa Format.binary64 b = 0#52
    · rw [dif_pos hnone]
      exact .zero _
    · rw [dif_neg hnone]
      have hpos : 0 < m.toNat := by
        rw [hm] at hnone
        simpa [BitVec.toNat_pos, BitVec.pos_iff_ne_zero] using hnone
      have hform := IsValue.finite (Sign.ofBitVec (@unpackSign Format.binary64 b)) m.toNat 0 hpos
        ⟨hpos, by omega, by decide, .inr rfl⟩ (by decide)
      rw [finite_congr rfl (congrArg BitVec.toNat hm) (by rw [hfirst])]
      exact hform
  · rw [if_neg hfirst]
    have hmant : (1#1 ++ @unpackMantissa Format.binary64 b).toNat = 2 ^ 52 + m.toNat := by
      rw [hm]
      exact toNat_one_append m
    have hlow : 1 ≤ e.toNat := Nat.pos_iff_ne_zero.mpr fun h => hfirst (BitVec.eq_of_toNat_eq h)
    have hhigh : e.toNat ≠ 2047 := fun h => hlast (BitVec.eq_of_toNat_eq h)
    obtain ⟨j, hj⟩ := Nat.exists_eq_add_of_le hlow
    have hexp : (e.toNat : Int) - (Format.binary64.exponentBias + (52 : Nat)) = -1074 + j := by
      change (e.toNat : Int) - ((1023 : Nat) + (52 : Nat)) = -1074 + j
      omega
    have hpos : 0 < 2 ^ 52 + m.toNat := by omega
    have hform := IsValue.finite (Sign.ofBitVec (@unpackSign Format.binary64 b)) (2 ^ 52 + m.toNat) j hpos
      ⟨hpos, by omega, by omega, .inl (by omega)⟩ (by omega)
    rw [finite_congr rfl hmant hexp]
    exact hform

theorem isValue_unpacked (x : Float) : IsValue (unpacked x) := isValue_unpack _

/-- A number that is never rounded, in quanta of `2 ^ -1074`, or what stands for the lack of one. -/
inductive Exact where
  | finite (quanta : Int)
  | infinity
  | negInfinity
  | undefined
  deriving DecidableEq

namespace Exact

def add : Exact → Exact → Exact
  | .finite a, .finite b => .finite (a + b)
  | .undefined, _ => .undefined
  | _, .undefined => .undefined
  | .infinity, .negInfinity => .undefined
  | .negInfinity, .infinity => .undefined
  | .finite _, y => y
  | x, _ => x

def quanta? : Exact → Option Int
  | .finite a => some a
  | _ => none

theorem zero_add (x : Exact) : (finite 0).add x = x := by
  cases x with
  | finite a => exact congrArg finite (Int.zero_add a)
  | _ => rfl

theorem add_zero (x : Exact) : x.add (finite 0) = x := by
  cases x with
  | finite a => exact congrArg finite (Int.add_zero a)
  | _ => rfl

theorem add_assoc (x y z : Exact) : (x.add y).add z = x.add (y.add z) := by
  cases x <;> cases y <;> cases z <;>
    first
    | rfl
    | exact congrArg finite (Int.add_assoc _ _ _)

theorem quanta?_eq_some_iff (x : Exact) (a : Int) : x.quanta? = some a ↔ x = .finite a := by
  cases x <;> simp [quanta?]

end Exact

def exactOf : UnpackedFloat → Exact
  | .infinity .positive => .infinity
  | .infinity .negative => .negInfinity
  | .notANumber => .undefined
  | .zero _ => .finite 0
  | .finite s m e _ => .finite (s.apply m * 2 ^ (e + 1074).toNat)

/-- The number that a value is. -/
def toExact (x : Float) : Exact := exactOf (unpacked x)

/-- How many quanta a value has, if it is finite. -/
def quanta (x : Float) : Option Int := (toExact x).quanta?

theorem quanta_eq_some_iff (x : Float) (a : Int) : quanta x = some a ↔ toExact x = .finite a :=
  (toExact x).quanta?_eq_some_iff a

theorem exactOf_finite (s : Sign) (m j : Nat) (hpos : 0 < m) :
    exactOf (.finite s m (-1074 + j) hpos) = .finite (s.apply m * 2 ^ j) := by
  have hj : (-1074 + (j : Int) + 1074).toNat = j := by omega
  change Exact.finite (s.apply m * 2 ^ (-1074 + (j : Int) + 1074).toNat) = _
  rw [hj]

/-- Writing a mantissa with a smaller exponent keeps its quanta. -/
theorem decreaseExponent_quanta (s : Sign) (m i k : Nat) :
    s.apply (decreaseExponent m (-1074 + (i + k : Nat)) (-1074 + i)).1 * 2 ^ i = s.apply m * 2 ^ (i + k) := by
  have hd : (-1074 + ((i + k : Nat) : Int) - (-1074 + i)).toNat = k := by omega
  rw [decreaseExponent, hd, Nat.shiftLeft_eq, apply_mul_two_pow, Int.mul_assoc, ← Int.pow_add, Nat.add_comm k]

/-- A number is not rounded if some value has as many quanta. -/
theorem exactOf_normalize (n : Int) (i : Nat) (w : UnpackedFloat) (hw : IsValue w)
    (h : exactOf w = .finite (n * 2 ^ i)) :
    IsValue (UnpackedFloat.normalize Format.binary64 n (-1074 + i) .positive) ∧
      exactOf (UnpackedFloat.normalize Format.binary64 n (-1074 + i) .positive) = .finite (n * 2 ^ i) := by
  cases hw with
  | infinity s => cases s <;> cases h
  | notANumber => cases h
  | zero s =>
    have hprod : n * 2 ^ i = 0 := (Exact.finite.inj h).symm
    have hn : n = 0 := by simpa using hprod
    subst hn
    rw [Int.zero_mul]
    exact ⟨.zero .positive, rfl⟩
  | finite s m j hpos hc hj =>
    rw [exactOf_finite, Exact.finite.injEq] at h
    rw [normalize_exact s n m i j (-1074) hc h.symm, exactOf_finite, h]
    exact ⟨.finite s m j hpos hc hj, rfl⟩

/-- A sum is not rounded if some value is that sum; infinities and what is no number never are. -/
theorem exactOf_add {u v w : UnpackedFloat} (hu : IsValue u) (hv : IsValue v) (hw : IsValue w)
    (h : exactOf w = (exactOf u).add (exactOf v)) :
    IsValue (UnpackedFloat.add Format.binary64 u v) ∧
      exactOf (UnpackedFloat.add Format.binary64 u v) = (exactOf u).add (exactOf v) := by
  cases hu with
  | notANumber => exact ⟨.notANumber, rfl⟩
  | infinity s =>
    cases hv with
    | notANumber => cases s <;> exact ⟨.notANumber, rfl⟩
    | infinity s' => cases s <;> cases s' <;> first | exact ⟨.infinity _, rfl⟩ | exact ⟨.notANumber, rfl⟩
    | zero s' => cases s <;> exact ⟨.infinity _, rfl⟩
    | finite s' m' j' hpos' hc' hj' => cases s <;> exact ⟨.infinity _, rfl⟩
  | zero s =>
    have hzero : exactOf (.zero s) = .finite 0 := rfl
    rw [hzero, Exact.zero_add]
    cases hv with
    | notANumber => exact ⟨.notANumber, rfl⟩
    | infinity s' => exact ⟨.infinity _, rfl⟩
    | zero s' => cases s <;> cases s' <;> exact ⟨.zero _, rfl⟩
    | finite s' m' j' hpos' hc' hj' => exact ⟨.finite s' m' j' hpos' hc' hj', rfl⟩
  | finite s m j hpos hc hj =>
    cases hv with
    | notANumber => exact ⟨.notANumber, rfl⟩
    | infinity s' => cases s' <;> exact ⟨.infinity _, rfl⟩
    | zero s' =>
      have hzero : exactOf (.zero s') = .finite 0 := rfl
      rw [hzero, Exact.add_zero]
      exact ⟨.finite s m j hpos hc hj, rfl⟩
    | finite s' m' j' hpos' hc' hj' =>
      obtain ⟨k, hk⟩ := Nat.exists_eq_add_of_le (Nat.min_le_left j j')
      obtain ⟨k', hk'⟩ := Nat.exists_eq_add_of_le (Nat.min_le_right j j')
      have hmin : min (-1074 + (j : Int)) (-1074 + j') = -1074 + (min j j' : Nat) := by omega
      have hleft := decreaseExponent_quanta s m (min j j') k
      have hright := decreaseExponent_quanta s' m' (min j j') k'
      rw [← hk] at hleft
      rw [← hk'] at hright
      rw [exactOf_finite, exactOf_finite, Exact.add, ← hleft, ← hright, ← Int.add_mul] at h ⊢
      rw [add_finite, hmin]
      exact exactOf_normalize _ (min j j') w hw h

theorem toExact_add {x y z : Float} (hz : toExact z = (toExact x).add (toExact y)) :
    toExact (x + y) = (toExact x).add (toExact y) := by
  obtain ⟨hvalue, hsum⟩ := exactOf_add (isValue_unpacked x) (isValue_unpacked y) (isValue_unpacked z) hz
  rw [toExact, unpacked_add, hvalue.unpack_pack]
  exact hsum

/-- The sum of some values, which is not rounded. -/
def exactSum : List Float → Exact
  | [] => .finite 0
  | x :: xs => (toExact x).add (exactSum xs)

theorem exactSum_append (xs ys : List Float) : exactSum (xs ++ ys) = (exactSum xs).add (exactSum ys) := by
  induction xs with
  | nil => exact (Exact.zero_add _).symm
  | cons x xs ih => rw [List.cons_append, exactSum, exactSum, ih, Exact.add_assoc]

/-- Every partial sum of the values, from the left, is a value itself. -/
def Unrounded (xs : List Float) : Prop := ∀ k, ∃ z, toExact z = exactSum (xs.take k)

theorem toExact_foldl_from (xs : List Float) (x : Float)
    (hfit : ∀ k, ∃ z, toExact z = (toExact x).add (exactSum (xs.take k))) :
    toExact (xs.foldl (· + ·) x) = (toExact x).add (exactSum xs) := by
  induction xs generalizing x with
  | nil => exact (Exact.add_zero _).symm
  | cons y ys ih =>
    have hstep : toExact (x + y) = (toExact x).add (toExact y) := by
      obtain ⟨z, hz⟩ := hfit 1
      rw [List.take_succ_cons, List.take_zero, exactSum, exactSum, Exact.add_zero] at hz
      exact toExact_add hz
    have hrest : ∀ k, ∃ z, toExact z = (toExact (x + y)).add (exactSum (ys.take k)) := by
      intro k
      obtain ⟨z, hz⟩ := hfit (k + 1)
      rw [List.take_succ_cons, exactSum, ← Exact.add_assoc, ← hstep] at hz
      exact ⟨z, hz⟩
    rw [List.foldl_cons, ih (x + y) hrest, hstep, exactSum, Exact.add_assoc]

theorem Unrounded.toExact_foldl {xs : List Float} (h : Unrounded xs) :
    toExact (xs.foldl (· + ·) 0.0) = exactSum xs := by
  have hzero : toExact 0.0 = .finite 0 := rfl
  have hfit : ∀ k, ∃ z, toExact z = (toExact 0.0).add (exactSum (xs.take k)) := by
    intro k
    rw [hzero, Exact.zero_add]
    exact h k
  rw [toExact_foldl_from xs 0.0 hfit, hzero, Exact.zero_add]

theorem Unrounded.left {xs ys : List Float} (h : Unrounded (xs ++ ys)) : Unrounded xs := by
  intro k
  obtain ⟨z, hz⟩ := h (min k xs.length)
  rw [List.take_append_of_le_length (Nat.min_le_right _ _), ← List.take_eq_take_min] at hz
  exact ⟨z, hz⟩

theorem exactSum_map {ι : Type} (f : ι → Float) (g : ι → Int) (is : List ι) (h : ∀ i ∈ is, quanta (f i) = some (g i)) :
    exactSum (is.map f) = .finite (is.map g).sum := by
  induction is with
  | nil => rfl
  | cons i is ih =>
    have hi := (quanta_eq_some_iff _ _).mp (h i (by simp))
    rw [List.map_cons, List.map_cons, List.sum_cons, exactSum, hi, ih fun i' hi' => h i' (by simp [hi'])]
    rfl

/-- Adding up from the left is exact if every partial sum is a value. -/
theorem quanta_foldl {ι : Type} (f : ι → Float) (g : ι → Int) (is : List ι)
    (hf : ∀ i ∈ is, quanta (f i) = some (g i)) (hfit : ∀ k, ∃ z, quanta z = some ((is.take k).map g).sum) :
    quanta (is.foldl (fun sum i => sum + f i) 0.0) = some (is.map g).sum := by
  have hunrounded : Unrounded (is.map f) := by
    intro k
    obtain ⟨z, hz⟩ := hfit k
    refine ⟨z, ?_⟩
    rw [← List.map_take, exactSum_map f g (is.take k) fun i hi => hf i (List.mem_of_mem_take hi)]
    exact (quanta_eq_some_iff z _).mp hz
  rw [quanta_eq_some_iff, ← List.foldl_map, hunrounded.toExact_foldl, exactSum_map f g is hf]

/-- The value is exactly this integer. -/
def IsExactly (x : Float) (n : Int) : Prop := quanta x = some (n * 2 ^ 1074)

theorem IsInteger.exactOf_eq {u : UnpackedFloat} {n : Int} (h : IsInteger u n) : exactOf u = .finite (n * 2 ^ 1074) := by
  cases h with
  | zero => rw [Int.zero_mul]; rfl
  | finite s m k hpos n hm hn hs =>
    have hk := exponent_le s m k n hm hn hs
    obtain ⟨j, hj⟩ := Nat.exists_eq_add_of_le (Nat.le_trans hk (by decide : 52 ≤ 1074))
    have hexp : (-(k : Int) + 1074).toNat = j := by omega
    change Exact.finite (s.apply m * 2 ^ (-(k : Int) + 1074).toNat) = _
    rw [hexp, hs, Int.mul_assoc, ← Int.pow_add, ← hj]

theorem IsInteger.isExactly {x : Float} {n : Int} (h : IsInteger (unpacked x) n) : IsExactly x n :=
  (quanta_eq_some_iff x _).mpr h.exactOf_eq

theorem IsExactly.unique {x : Float} {m n : Int} (hm : IsExactly x m) (hn : IsExactly x n) : m = n :=
  Int.eq_of_mul_eq_mul_right (Int.pow_ne_zero (by decide)) (Option.some.inj (hm.symm.trans hn))

theorem isExactly_zero : IsExactly 0.0 0 := by
  rw [IsExactly, Int.zero_mul]
  rfl

/-- Times one, a count is what it was. -/
theorem isExactly_ofNat_mul_one (n : Nat) (hn : n < 2 ^ 53) : IsExactly (Float.ofNat n * 1.0) n := by
  have hn := isInteger_ofNat n hn
  apply IsInteger.isExactly
  rw [unpacked_mul, unpacked_one, hn.mul_one, hn.unpack_pack]
  exact hn

theorem IsExactly.add {x y : Float} {m n : Int} (hx : IsExactly x m) (hy : IsExactly y n) (hsum : (m + n).natAbs < 2 ^ 53) :
    IsExactly (x + y) (m + n) := by
  have hz := (isInteger_ofInt (m + n) hsum).exactOf_eq
  rw [IsExactly, quanta_eq_some_iff] at hx hy ⊢
  have hadd : (toExact x).add (toExact y) = .finite ((m + n) * 2 ^ 1074) := by rw [hx, hy, Exact.add, Int.add_mul]
  rw [toExact_add (z := Float.ofInt (m + n)) (hz.trans hadd.symm), hadd]

end RightOfWay.Number.Binary64

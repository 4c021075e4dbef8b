import RightOfWay.Proofs.Rounding
import RightOfWay.Traffic.Condition
import Mathlib.Data.List.Pairwise
import Mathlib.Order.Fin.Basic

namespace RightOfWay.Number.Binary64

open Float.Model Float.Model.UnpackedFloat

theorem levelOf_neg (u : UnpackedFloat) : levelOf u.neg = -levelOf u := by
  cases u with
  | infinity s => exact apply_neg s topLevel
  | notANumber => rfl
  | zero s => rfl
  | finite s m e hpos => exact apply_neg s _

theorem IsValue.neg {u : UnpackedFloat} (h : IsValue u) : IsValue u.neg := by
  cases h with
  | infinity s => exact .infinity (-s)
  | notANumber => exact .notANumber
  | zero s => exact .zero (-s)
  | finite s m j hpos hc hj => exact .finite (-s) m j hpos hc hj

theorem IsPlain.neg {u : UnpackedFloat} (h : IsPlain u) (hzero : u ≠ .zero .positive) : IsPlain u.neg := by
  obtain ⟨hvalue, hnumber, hunsigned⟩ := h
  cases hvalue with
  | infinity s => exact ⟨.infinity (-s), rfl, by rintro ⟨⟩⟩
  | notANumber => cases hnumber
  | zero s =>
    cases s with
    | negative => exact absurd rfl hunsigned
    | positive => exact absurd rfl hzero
  | finite s m j hpos hc hj => exact ⟨.finite (-s) m j hpos hc hj, rfl, by rintro ⟨⟩⟩

theorem IsPlain.opposite {u w : UnpackedFloat} (hu : IsPlain u) (hw : IsPlain w) (h : levelOf w = -levelOf u) :
    w = u ∨ w = u.neg := by
  by_cases hzero : u = .zero .positive
  · subst hzero
    exact .inl (hw.eq_of_levelOf hu h)
  · exact .inr (hw.eq_of_levelOf (hu.neg hzero) (h.trans (levelOf_neg u).symm))

theorem roundedLevel_neg (n : Int) : roundedLevel (-n) = -roundedLevel n := by
  rw [roundedLevel, roundedLevel, Int.sign_neg, Int.natAbs_neg, Int.neg_mul]

/-- What is left of a result when it is stored. -/
def stored (u : UnpackedFloat) : UnpackedFloat := (Float.Model.pack u).unpack

theorem IsValue.stored_neg {u : UnpackedFloat} (h : IsValue u) : stored u.neg = (stored u).neg := by
  rw [stored, stored, h.neg.unpack_pack, h.unpack_pack]

/-- A difference changes its sign with its direction, unless it is zero or undefined. -/
theorem stored_sub_swap {u v : UnpackedFloat} (hu : IsValue u) (hv : IsValue v) :
    stored (UnpackedFloat.sub Format.binary64 v u) = stored (UnpackedFloat.sub Format.binary64 u v) ∨
    stored (UnpackedFloat.sub Format.binary64 v u) = (stored (UnpackedFloat.sub Format.binary64 u v)).neg := by
  cases hu with
  | notANumber => cases hv <;> exact .inl rfl
  | infinity s =>
    have hopposite := (IsValue.infinity s).stored_neg
    cases hv with
    | notANumber => exact .inl rfl
    | infinity s' =>
      cases s <;> cases s'
      · exact .inl rfl
      · exact .inr rfl
      · exact .inr rfl
      · exact .inl rfl
    | zero s' => exact .inr hopposite
    | finite s' m' j' hpos' hc' hj' => exact .inr hopposite
  | zero s =>
    cases hv with
    | notANumber => exact .inl rfl
    | infinity s' =>
      have hopposite := (IsValue.infinity (-s')).stored_neg
      cases s' <;> exact .inr hopposite
    | zero s' =>
      cases s <;> cases s'
      · exact .inl rfl
      · exact .inr rfl
      · exact .inr rfl
      · exact .inl rfl
    | finite s' m' j' hpos' hc' hj' =>
      have hopposite := (IsValue.finite (-s') m' j' hpos' hc' hj').stored_neg
      cases s' <;> exact .inr hopposite
  | finite s m j hpos hc hj =>
    cases hv with
    | notANumber => exact .inl rfl
    | infinity s' =>
      have hopposite := (IsValue.infinity (-s')).stored_neg
      cases s' <;> exact .inr hopposite
    | zero s' =>
      have hopposite := (IsValue.finite s m j hpos hc hj).stored_neg
      exact .inr hopposite
    | finite s' m' j' hpos' hc' hj' =>
      obtain ⟨w, hw, hpack, hlevel⟩ := sub_finite_plain s s' m m' j j' hpos hpos'
      obtain ⟨w', hw', hpack', hlevel'⟩ := sub_finite_plain s' s m' m j' j hpos' hpos
      have hopposite : levelOf w' = -levelOf w := by
        rw [hlevel, hlevel', ← roundedLevel_neg, Int.neg_sub]
      rw [stored, stored, hpack, hpack', hw.value.unpack_pack, hw'.value.unpack_pack]
      exact hw.opposite hw' hopposite

theorem mul_neg_neg (u : UnpackedFloat) :
    UnpackedFloat.mul Format.binary64 u.neg u.neg = UnpackedFloat.mul Format.binary64 u u := by
  cases u with
  | infinity s => cases s <;> rfl
  | notANumber => rfl
  | zero s => cases s <;> rfl
  | finite s m e hpos => cases s <;> rfl

/-- The square of a difference does not depend on its direction. -/
theorem square_sub_comm (x y : Float) : (x - y) * (x - y) = (y - x) * (y - x) := by
  have hsquare (z : Float) : z * z =
      .ofModel (Float.Model.pack (UnpackedFloat.mul Format.binary64 (unpacked z) (unpacked z))) := rfl
  have hswap : unpacked (y - x) = unpacked (x - y) ∨ unpacked (y - x) = (unpacked (x - y)).neg :=
    stored_sub_swap (isValue_unpacked x) (isValue_unpacked y)
  rw [hsquare (x - y), hsquare (y - x)]
  obtain hsame | hopposite := hswap
  · rw [hsame]
  · rw [hopposite, mul_neg_neg]

theorem not_infinity_lt (x : Float) : ¬ infinity < x := by
  intro h
  obtain ⟨-, hx⟩ := isNaN_of_lt h
  exact (not_lt_iff_le hx rfl).mpr (le_infinity hx) h

theorem lt_of_lt_of_le {x y z : Float} (hxy : x < y) (hyz : y ≤ z) : x < z := by
  obtain ⟨hx, hy⟩ := isNaN_of_lt hxy
  obtain ⟨-, hz⟩ := isNaN_of_le hyz
  rw [lt_iff_level hx hy] at hxy
  rw [le_iff_level hy hz] at hyz
  rw [lt_iff_level hx hz]
  exact Int.lt_of_lt_of_le hxy hyz

end RightOfWay.Number.Binary64

namespace RightOfWay.Traffic

open Number.Binary64

theorem Position.distance_comm (p q : Position) : p.distance q = q.distance p := by
  rw [distance, distance]
  rw [square_sub_comm p.x q.x, square_sub_comm p.y q.y]

/-- Two points are not closer than a separation. -/
def Position.Apart (separation : Float) (p q : Position) : Prop := ¬ p.distance q < separation

theorem Position.Apart.symm {separation : Float} {p q : Position} (h : p.Apart separation q) : q.Apart separation p := by
  rw [Apart, distance_comm]
  exact h

variable {separation : Float} {ps qs : List Position}

theorem anyCloser_iff_separations :
    anyCloser separation ps = true ↔ ∃ i j : Fin ps.length, separations ps i j < separation := by
  simp [anyCloser]

/-- The half of the table above the diagonal says all that the whole table says. -/
theorem anyCloser_iff_pair : anyCloser separation ps = true ↔
    ∃ i j : Fin ps.length, i < j ∧ (ps.get i).distance (ps.get j) < separation := by
  rw [anyCloser_iff_separations]
  constructor
  · intro ⟨i, j, hclose⟩
    rw [separations] at hclose
    rcases lt_trichotomy i j with hlt | heq | hgt
    · rw [if_neg (Fin.ne_of_lt hlt)] at hclose
      exact ⟨i, j, hlt, hclose⟩
    · rw [if_pos heq] at hclose
      exact absurd hclose (not_infinity_lt separation)
    · rw [if_neg (Fin.ne_of_gt hgt), Position.distance_comm] at hclose
      exact ⟨j, i, hgt, hclose⟩
  · intro ⟨i, j, hlt, hclose⟩
    exact ⟨i, j, by rwa [separations, if_neg (Fin.ne_of_lt hlt)]⟩

theorem anyCloser_eq_false_iff : anyCloser separation ps = false ↔ ps.Pairwise (Position.Apart separation) := by
  rw [← Bool.not_eq_true, anyCloser_iff_pair, List.pairwise_iff_get]
  push Not
  rfl

theorem anyCloser_perm (h : ps.Perm qs) : anyCloser separation qs = anyCloser separation ps := by
  rw [Bool.eq_iff_iff, ← Bool.not_eq_false, ← Bool.not_eq_false, anyCloser_eq_false_iff, anyCloser_eq_false_iff,
    h.pairwise_iff Position.Apart.symm]

theorem anyCloser_sublist (h : ps.Sublist qs) (hclose : anyCloser separation ps = true) :
    anyCloser separation qs = true := by
  rw [← Bool.not_eq_false, anyCloser_eq_false_iff] at hclose ⊢
  exact fun hall => hclose (hall.sublist h)

theorem anyCloser_mono {separation' : Float} (h : separation ≤ separation') (hclose : anyCloser separation ps = true) :
    anyCloser separation' ps = true := by
  rw [anyCloser_iff_pair] at hclose ⊢
  obtain ⟨i, j, hlt, hclose⟩ := hclose
  exact ⟨i, j, hlt, lt_of_lt_of_le hclose h⟩

namespace Condition

theorem ofPositions_eq_empty_iff : ofPositions separation ps = .empty ↔ ps = [] := by
  rw [ofPositions]
  cases ps with
  | nil => simp
  | cons p ps => cases anyCloser separation (p :: ps) <;> simp

theorem ofPositions_eq_crash_iff : ofPositions separation ps = .crash ↔ anyCloser separation ps = true := by
  rw [ofPositions]
  cases ps with
  | nil => simp [anyCloser]
  | cons p ps => cases anyCloser separation (p :: ps) <;> simp

theorem ofPositions_eq_flow_iff : ofPositions separation ps = .flow ↔ ps ≠ [] ∧ anyCloser separation ps = false := by
  rw [ofPositions]
  cases ps with
  | nil => simp
  | cons p ps => cases anyCloser separation (p :: ps) <;> simp

/-- There is a crash iff two positions at different places of the list are closer than the separation, so the order of
the list does not matter, and further positions or a larger separation never undo a crash. -/
theorem ofPositions_exact_and_order_free (separation : Float) (ps : List Position) :
    (∀ p q : Position, p.distance q = q.distance p) ∧
    (ofPositions separation ps = .empty ↔ ps = []) ∧
    (ofPositions separation ps = .crash ↔
      ∃ i j : Fin ps.length, i < j ∧ (ps.get i).distance (ps.get j) < separation) ∧
    (ofPositions separation ps = .crash ↔ ∃ i j : Fin ps.length, separations ps i j < separation) ∧
    (ofPositions separation ps = .flow ↔
      ps ≠ [] ∧ ¬ ∃ i j : Fin ps.length, i < j ∧ (ps.get i).distance (ps.get j) < separation) ∧
    (∀ qs, ps.Perm qs → ofPositions separation qs = ofPositions separation ps) ∧
    (∀ qs, ps.Sublist qs → ofPositions separation ps = .crash → ofPositions separation qs = .crash) ∧
    (∀ separation', separation ≤ separation' → ofPositions separation ps = .crash →
      ofPositions separation' ps = .crash) ∧
    (∀ p, ofPositions separation [p] = .flow) := by
  simp only [ofPositions_eq_crash_iff, ofPositions_eq_flow_iff]
  refine ⟨Position.distance_comm, ofPositions_eq_empty_iff, anyCloser_iff_pair, anyCloser_iff_separations, ?_, ?_, ?_, ?_,
    ?_⟩
  · rw [← anyCloser_iff_pair, Bool.not_eq_true]
  · intro qs hperm
    rw [ofPositions, ofPositions, anyCloser_perm hperm, hperm.isEmpty_eq]
  · intro qs hsub hclose
    exact anyCloser_sublist hsub hclose
  · intro separation' hle hclose
    exact anyCloser_mono hle hclose
  · intro p
    rw [anyCloser_eq_false_iff]
    exact ⟨by simp, List.pairwise_singleton _ _⟩

/-- Two vehicles at one point, with a third one listed between them. -/
def coincident : List Position := [⟨1.0, 2.0⟩, ⟨5.0, 5.0⟩, ⟨1.0, 2.0⟩]

/-- The crash is still seen if the list is turned around its first two members, if a point that is none is put in front,
and if nothing but an infinite distance counts as separate. -/
theorem ofPositions_exact_and_order_free_coincident :
    ofPositions crashSeparation coincident = .crash ∧
    ofPositions crashSeparation [⟨5.0, 5.0⟩, ⟨1.0, 2.0⟩, ⟨1.0, 2.0⟩] = .crash ∧
    ofPositions crashSeparation (⟨Number.nan, -Number.infinity⟩ :: coincident) = .crash ∧
    ofPositions Number.infinity coincident = .crash := by
  have hcrash : ofPositions crashSeparation coincident = .crash := by decide +kernel
  obtain ⟨-, -, -, -, -, hperm, hsublist, hmono, -⟩ := ofPositions_exact_and_order_free crashSeparation coincident
  refine ⟨hcrash, ?_, hsublist _ (List.sublist_cons_self _ _) hcrash, hmono _ (by decide +kernel) hcrash⟩
  rw [hperm _ (.swap _ _ _), hcrash]

end Condition

end RightOfWay.Traffic

import RightOfWay.Proofs.Extremes
import Mathlib.Data.List.Forall2

namespace RightOfWay.Logic

open Number.Binary64

/-- Two degrees of one shape, with the second nowhere below the first. In particular neither has a NaN. -/
inductive Degree.Below : Degree → Degree → Prop where
  | scalar {x y : Float} (h : x ≤ y) : Below (.scalar x) (.scalar y)
  | sequence {xs ys : List Float} (h : List.Forall₂ (· ≤ ·) xs ys) : Below (.sequence xs) (.sequence ys)

theorem exists_mem_of_forall₂ {α β : Type} {r : α → β → Prop} {as : List α} {bs : List β} (h : List.Forall₂ r as bs)
    {a : α} (ha : a ∈ as) : ∃ b ∈ bs, r a b := by
  induction h with
  | nil => cases ha
  | cons hab _ ih =>
    obtain rfl | ha := List.mem_cons.mp ha
    · exact ⟨_, by simp, hab⟩
    · obtain ⟨b, hb, hab⟩ := ih ha
      exact ⟨b, by simp [hb], hab⟩

/-- Values that went up: each of the first is below one of the second, and each of the second above one of the first. -/
structure Rises (s t : Set Float) : Prop where
  below : Extremum.max.Covers t s
  above : Extremum.min.Covers s t

namespace Rises

variable {s t : Set Float} {x y : Float} {e : Extremum}

theorem numbers_left (h : Rises s t) : ∀ y ∈ s, y.isNaN = false := by
  intro y hy
  obtain ⟨z, -, hz⟩ := h.below y hy
  exact hz.number.2

theorem numbers_right (h : Rises s t) : ∀ y ∈ t, y.isNaN = false := by
  intro y hy
  obtain ⟨z, -, hz⟩ := h.above y hy
  exact hz.number.2

theorem le_of_isEnd (h : Rises s t) (hx : e.IsEnd s x) (hy : e.IsEnd t y) : x ≤ y := by
  cases e with
  | min => exact hx.leads_of_covers hy h.above
  | max => exact hy.leads_of_covers hx h.below

end Rises

namespace Degree.Below

variable {d d' : Degree}

theorem values (h : d.Below d') : List.Forall₂ (· ≤ ·) d.values d'.values := by
  cases h with
  | scalar h => exact .cons h .nil
  | sequence h => exact h

theorem complement (h : d.Below d') : d'.complement.Below d.complement := by
  cases h with
  | scalar h => exact .scalar (one_sub_le_one_sub h)
  | sequence h =>
    refine .sequence ?_
    rw [List.forall₂_map_left_iff, List.forall₂_map_right_iff]
    exact (h.imp fun _ _ hle => one_sub_le_one_sub hle).flip

theorem rises (h : d.Below d') : Rises {y | y ∈ d.values} {y | y ∈ d'.values} where
  below _ hx := exists_mem_of_forall₂ h.values hx
  above _ hy := exists_mem_of_forall₂ h.values.flip hy

theorem rises_of_forall₂ {ds ds' : List Degree} (h : List.Forall₂ Below ds ds') :
    Rises {y | ∃ d ∈ ds, y ∈ d.values} {y | ∃ d ∈ ds', y ∈ d.values} := by
  constructor
  · intro x ⟨d, hd, hx⟩
    obtain ⟨d', hd', hbelow⟩ := exists_mem_of_forall₂ h hd
    obtain ⟨y, hy, hle⟩ := hbelow.rises.below x hx
    exact ⟨y, ⟨d', hd', hy⟩, hle⟩
  · intro y ⟨d', hd', hy⟩
    obtain ⟨d, hd, hbelow⟩ := exists_mem_of_forall₂ h.flip hd'
    obtain ⟨x, hx, hle⟩ := hbelow.rises.above y hy
    exact ⟨x, ⟨d, hd, hx⟩, hle⟩

/-- A certificate over the higher degree is accepted where one over the lower degree is. -/
theorem abides {A : Type} {c c' : Certificate A} (h : c.robustness.Below c'.robustness)
    (hne : c.robustness.values ≠ []) (hne' : c'.robustness.values ≠ []) {threshold : Float}
    (habides : c.abides threshold = true) : c'.abides threshold = true := by
  obtain ⟨x, hx⟩ := c.robustness.worst_ok hne
  obtain ⟨y, hy⟩ := c'.robustness.worst_ok hne'
  have hend := Extremum.reduce_isEnd (e := .min) h.rises.numbers_left hx
  have hend' := Extremum.reduce_isEnd (e := .min) h.rises.numbers_right hy
  exact Certificate.abides_of_worst_le hx hy (h.rises.le_of_isEnd hend hend') habides

end Degree.Below

namespace Formula

mutual

/-- The names that stand under an even number of negations, or else those that stand under an odd number. -/
def leavesUnder (even : Bool) : Formula → List String
  | .atom name => if even then [name] else []
  | .truth => []
  | .neg p => leavesUnder (!even) p
  | .always p | .eventually p => leavesUnder even p
  | .conj ps | .disj ps => leavesUnderList even ps
  | .untl p q => leavesUnder even p ++ leavesUnder even q

def leavesUnderList (even : Bool) : List Formula → List String
  | [] => []
  | p :: ps => leavesUnder even p ++ leavesUnderList even ps

end

theorem leavesUnder_along (even : Bool) (e : Extremum) (p : Formula) :
    (e.along p).leavesUnder even = p.leavesUnder even := by
  cases e <;> rfl

theorem leavesUnder_join (even : Bool) (e : Extremum) (ps : List Formula) :
    (e.join ps).leavesUnder even = ps.flatMap (leavesUnder even) := by
  have hlist : leavesUnderList even ps = ps.flatMap (leavesUnder even) := by
    induction ps with
    | nil => rfl
    | cons p ps ih => rw [leavesUnderList, ih, List.flatMap_cons]
  cases e with
  | min => exact hlist
  | max => exact hlist

variable {O : Type} {v w : Valuation O} {os : List O} {p : Formula}

/-- The second valuation is nowhere below the first on the names under an even number of negations, and nowhere above it
on those under an odd number. A name that occurs in both ways keeps its degrees. -/
structure Raises (v w : Valuation O) (os : List O) (p : Formula) : Prop where
  even : ∀ name ∈ p.leavesUnder true, ∀ o ∈ os, ∀ x y, v name o = .ok x → w name o = .ok y → x ≤ y
  odd : ∀ name ∈ p.leavesUnder false, ∀ o ∈ os, ∀ x y, w name o = .ok x → v name o = .ok y → x ≤ y

namespace Raises

/-- Under a negation the two valuations change places. -/
theorem of_neg (h : Raises v w os (.neg p)) : Raises w v os p := ⟨h.odd, h.even⟩

theorem of_subset {q : Formula} (h : Raises v w os q) (hsub : ∀ even, p.leavesUnder even ⊆ q.leavesUnder even) :
    Raises v w os p :=
  ⟨fun name hname => h.even name (hsub true hname), fun name hname => h.odd name (hsub false hname)⟩

theorem of_along {e : Extremum} (h : Raises v w os (e.along p)) : Raises v w os p := by
  apply h.of_subset
  intro even
  rw [leavesUnder_along]
  exact List.Subset.refl _

theorem of_join {e : Extremum} {ps : List Formula} (h : Raises v w os (e.join ps)) (hp : p ∈ ps) : Raises v w os p := by
  apply h.of_subset
  intro even name hname
  rw [leavesUnder_join, List.mem_flatMap]
  exact ⟨p, hp, hname⟩

end Raises

theorem degree_below {d d' : Degree} (h : Raises v w os p) (hd : degree v os p = .ok d)
    (hd' : degree w os p = .ok d') : d.Below d' := by
  induction p using inductionOn generalizing v w d d' with
  | atom name =>
    obtain ⟨xs, hxs, rfl⟩ := ok_of_map_ok hd
    obtain ⟨ys, hys, rfl⟩ := ok_of_map_ok hd'
    rw [values_eq_inOrder, inOrder_eq_ok_iff] at hxs hys
    exact .sequence (forall₂_of_map_eq_map_ok hxs hys (h.even name (by simp [leavesUnder])))
  | truth =>
    cases hd
    cases hd'
    exact .scalar (le_self rfl)
  | neg p ih =>
    obtain ⟨b, hb, rfl⟩ := ok_of_map_ok hd
    obtain ⟨b', hb', rfl⟩ := ok_of_map_ok hd'
    exact (ih h.of_neg hb' hb).complement
  | along e p ih =>
    obtain ⟨b, x, hb, hx, rfl⟩ := along_ok hd
    obtain ⟨b', y, hb', hy, rfl⟩ := along_ok hd'
    have hrises := (ih h.of_along hb hb').rises
    have hend := Extremum.reduce_isEnd hrises.numbers_left hx
    have hend' := Extremum.reduce_isEnd hrises.numbers_right hy
    exact .scalar (hrises.le_of_isEnd hend hend')
  | join e ps ih =>
    obtain ⟨ds, x, hds, hx, rfl⟩ := join_ok hd
    obtain ⟨ds', y, hds', hy, rfl⟩ := join_ok hd'
    have hbelow : List.Forall₂ Degree.Below ds ds' := by
      apply forall₂_of_map_eq_map_ok hds hds'
      intro p hp b b' hb hb'
      exact ih p hp (h.of_join hp) hb hb'
    have hrises := Degree.Below.rises_of_forall₂ hbelow
    have hend := Extremum.combine_isEnd (fun b hb z hz => hrises.numbers_left z ⟨b, hb, hz⟩) hx
    have hend' := Extremum.combine_isEnd (fun b hb z hz => hrises.numbers_right z ⟨b, hb, hz⟩) hy
    exact .scalar (hrises.le_of_isEnd hend hend')
  | untl p q _ _ => cases hd

/-- A degree does not fall if the valuation rises on names under an even number of negations and falls on those under an
odd number. -/
theorem degree_rises_with_polarity (t : Trace O) {d d' : Degree} (h : Raises v w t.toList p)
    (hd : p.evaluate v t.toList = .ok d) (hd' : p.evaluate w t.toList = .ok d') :
    d.Below d' ∧ ∀ (A : Type) (a : A) (threshold : Float), ∃ c c' : Certificate A,
      Spec.certify ⟨p, v⟩ t a = .ok c ∧ Spec.certify ⟨p, w⟩ t a = .ok c' ∧
      (c.abides threshold = true → c'.abides threshold = true) := by
  have hbelow : d.Below d' := degree_below h hd hd'
  refine ⟨hbelow, ?_⟩
  intro A a threshold
  refine ⟨⟨d, a, []⟩, ⟨d', a, []⟩, ?_, ?_, ?_⟩
  · simp [Spec.certify, Spec.evaluate, hd, Except.map]
  · simp [Spec.certify, Spec.evaluate, hd', Except.map]
  · apply Degree.Below.abides hbelow
    · exact Spec.values_ne_nil_of_evaluate ⟨p, v⟩ hd
    · exact Spec.values_ne_nil_of_evaluate ⟨p, w⟩ hd'

/-- Every request is granted. -/
def granted : Formula := .always (.implies (.atom "request") (.atom "grant"))

/-- A request and a grant that hold to the same degrees all the time. -/
def constant (request grant : Float) : Valuation Unit := fun name _ => .ok (if name = "request" then request else grant)

/-- The request stands under one negation, so the degree goes up as the request goes down. -/
theorem degree_rises_with_polarity_granted :
    granted.leavesUnder true = ["grant"] ∧ granted.leavesUnder false = ["request"] ∧
    (Degree.scalar 0.25).Below (.scalar 0.5) ∧ ∃ c c' : Certificate Unit,
      Spec.certify ⟨granted, constant 0.875 0.25⟩ ⟨(), [()]⟩ () = .ok c ∧
      Spec.certify ⟨granted, constant 0.5 0.375⟩ ⟨(), [()]⟩ () = .ok c' ∧
      (c.abides 0.25 = true → c'.abides 0.25 = true) := by
  have heven : granted.leavesUnder true = ["grant"] := rfl
  have hodd : granted.leavesUnder false = ["request"] := rfl
  have hraises : Raises (constant 0.875 0.25) (constant 0.5 0.375) [(), ()] granted := by
    constructor
    · simp only [heven, List.mem_singleton, forall_eq]
      intro o _ x y hx hy
      cases hx
      cases hy
      decide
    · simp only [hodd, List.mem_singleton, forall_eq]
      intro o _ x y hx hy
      cases hx
      cases hy
      decide
  obtain ⟨hbelow, habides⟩ := degree_rises_with_polarity ⟨(), [()]⟩ hraises rfl rfl
  exact ⟨heven, hodd, hbelow, habides Unit () 0.25⟩

end Formula

end RightOfWay.Logic

import RightOfWay.Proofs.Comparison
import RightOfWay.Proofs.Offences
import RightOfWay.Proofs.Outcome

namespace RightOfWay.Number

open Binary64

/-- A value reaches the threshold, unless it is no number. -/
def Reaches (threshold x : Float) : Prop := x.isNaN = false → threshold ≤ x

variable {threshold : Float}

theorem reaches_iff {x : Float} (hx : x.isNaN = false) : Reaches threshold x ↔ threshold ≤ x :=
  ⟨fun h => h hx, fun h _ => h⟩

theorem reaches_of_isNaN {x : Float} (hx : x.isNaN = true) : Reaches threshold x := by
  intro h
  rw [hx] at h
  cases h

theorem least_of_isNaN_left {x : Float} (y : Float) (hx : x.isNaN = true) : least x y = y := by
  rw [least, if_pos hx]

theorem least_of_number {x : Float} (y : Float) (hx : x.isNaN = false) :
    least x y = if y < x then y else x := by
  rw [least, if_neg (ne_true_of_eq_false hx)]

theorem least_of_isNaN_right {x y : Float} (hx : x.isNaN = false) (hy : y.isNaN = true) : least x y = x := by
  rw [least_of_number y hx, if_neg fun hlt => ne_true_of_eq_false (isNaN_of_lt hlt).1 hy]

theorem isNaN_least (x y : Float) : (least x y).isNaN = (x.isNaN && y.isNaN) := by
  cases hx : x.isNaN with
  | true => rw [least_of_isNaN_left y hx, Bool.true_and]
  | false =>
    cases hy : y.isNaN with
    | true => rw [least_of_isNaN_right hx hy, hx, Bool.false_and]
    | false =>
      rw [least_of_number y hx, Bool.false_and]
      split
      · exact hy
      · exact hx

theorem reaches_least (hthreshold : threshold.isNaN = false) (x y : Float) :
    Reaches threshold (least x y) ↔ Reaches threshold x ∧ Reaches threshold y := by
  cases hx : x.isNaN with
  | true =>
    rw [least_of_isNaN_left y hx]
    exact ⟨fun h => ⟨reaches_of_isNaN hx, h⟩, And.right⟩
  | false =>
    cases hy : y.isNaN with
    | true =>
      rw [least_of_isNaN_right hx hy]
      exact ⟨fun h => ⟨h, reaches_of_isNaN hy⟩, And.left⟩
    | false =>
      have hleast : (least x y).isNaN = false := by rw [isNaN_least, hx, Bool.false_and]
      rw [reaches_iff hleast, reaches_iff hx, reaches_iff hy, le_iff_level hthreshold hleast,
        le_iff_level hthreshold hx, le_iff_level hthreshold hy, least_of_number y hx]
      by_cases hlt : y < x
      · rw [if_pos hlt]
        rw [lt_iff_level hy hx] at hlt
        omega
      · rw [if_neg hlt]
        rw [lt_iff_level hy hx] at hlt
        omega

theorem isNaN_foldl_least (x : Float) (xs : List Float) :
    (xs.foldl least x).isNaN = (x.isNaN && xs.all Float.isNaN) := by
  induction xs generalizing x with
  | nil => simp
  | cons y ys ih => rw [List.foldl_cons, ih, isNaN_least, List.all_cons, Bool.and_assoc]

theorem reaches_foldl_least (hthreshold : threshold.isNaN = false) (x : Float) (xs : List Float) :
    Reaches threshold (xs.foldl least x) ↔ Reaches threshold x ∧ ∀ y ∈ xs, Reaches threshold y := by
  induction xs generalizing x with
  | nil => simp
  | cons y ys ih => rw [List.foldl_cons, ih, reaches_least hthreshold, List.forall_mem_cons, and_assoc]

end RightOfWay.Number

namespace RightOfWay.Logic

open Number (Reaches)

variable {threshold : Float}

namespace Degree

theorem isNaN_worst {d : Degree} {x : Float} (h : d.worst = .ok x) :
    x.isNaN = true ↔ ∀ y ∈ d.values, y.isNaN = true := by
  rw [worst] at h
  cases hv : d.values with
  | nil =>
    rw [hv] at h
    cases h
  | cons y ys =>
    rw [hv] at h
    cases h
    rw [Number.isNaN_foldl_least, Bool.and_eq_true, List.all_eq_true, List.forall_mem_cons]

theorem reaches_worst (hthreshold : threshold.isNaN = false) {d : Degree} {x : Float} (h : d.worst = .ok x) :
    Reaches threshold x ↔ ∀ y ∈ d.values, Reaches threshold y := by
  rw [worst] at h
  cases hv : d.values with
  | nil =>
    rw [hv] at h
    cases h
  | cons y ys =>
    rw [hv] at h
    cases h
    rw [Number.reaches_foldl_least hthreshold, List.forall_mem_cons]

/-- A conjunction reaches a threshold iff all numbers in its operands do; it is a number itself. -/
theorem le_conjunction_iff (hthreshold : threshold.isNaN = false) {ds : List Degree} {x : Float}
    (h : conjunction ds = .ok x) : threshold ≤ x ↔ ∀ d ∈ ds, ∀ y ∈ d.values, Reaches threshold y := by
  rw [conjunction] at h
  split at h
  · cases h
  · obtain ⟨ws, hws, rfl⟩ := ok_of_map_ok h
    rw [reduceAll_eq_inOrder, inOrder_eq_ok_iff] at hws
    have hnumber : (ws.foldl Number.least Number.infinity).isNaN = false := by
      rw [Number.isNaN_foldl_least]
      rfl
    have hinfinity : Reaches threshold Number.infinity := fun _ => Number.Binary64.le_infinity hthreshold
    rw [← Number.reaches_iff hnumber, Number.reaches_foldl_least hthreshold, and_iff_right hinfinity,
      forall_mem_iff_of_map_eq_map_ok hws]
    apply forall₂_congr
    intro d hd
    obtain ⟨w, hw⟩ := exists_ok_of_map_eq_map_ok hws d hd
    rw [← reaches_worst hthreshold hw, hw]
    simp

end Degree

theorem Certificate.abides_scalar {A : Type} {c : Certificate A} {x : Float} (h : c.robustness = .scalar x)
    (threshold : Float) : c.abides threshold = true ↔ threshold ≤ x := by
  rw [abides, h]
  exact decide_eq_true_iff

theorem Certificate.abides_of_worst_le {A : Type} {c c' : Certificate A} {x y threshold : Float}
    (hx : c.robustness.worst = .ok x) (hy : c'.robustness.worst = .ok y) (hle : x ≤ y)
    (h : c.abides threshold = true) : c'.abides threshold = true := by
  simp only [abides, hx, hy, decide_eq_true_eq] at h ⊢
  exact Number.Binary64.le_of_le_of_le h hle

namespace Spec

variable {O A : Type} (s : Spec O)

theorem values_ne_nil_of_evaluate {t : Trace O} {d : Degree} (h : s.evaluate t = .ok d) : d.values ≠ [] :=
  (Formula.degree_settles s.valuation t.toList (by simp [Trace.toList]) s.formula).good_of_ok h

/-- All numbers in the degree of a trace reach the threshold. -/
def Passes (threshold : Float) (t : Trace O) : Prop :=
  ∀ d, s.evaluate t = .ok d → ∀ x ∈ d.values, Reaches threshold x

/-- A batch has a certificate iff there are traces and all of them have a degree. -/
theorem exists_certifyAll_iff (ts : List (Trace O)) (a : A) :
    (∃ c, s.certifyAll ts a = .ok c) ↔ ts ≠ [] ∧ ∀ t ∈ ts, ∃ d, s.evaluate t = .ok d := by
  constructor
  · rintro ⟨c, hc⟩
    obtain ⟨hdegrees, -, x, hx, -⟩ := s.certifyAll_ok ts a c hc
    refine ⟨?_, exists_ok_of_map_eq_map_ok hdegrees⟩
    rintro rfl
    cases hc
  · rintro ⟨hne, hall⟩
    obtain ⟨ds, hds⟩ := exists_map_eq_map_ok hall
    have hlen : ds ≠ [] := by
      rintro rfl
      exact hne (by simpa using hds)
    have hvalues : ∀ d ∈ ds, d.values ≠ [] :=
      (forall_mem_iff_of_map_eq_map_ok hds _).mpr fun t _ d => s.values_ne_nil_of_evaluate
    obtain ⟨x, hx⟩ := Degree.conjunction_ok ds hlen hvalues
    refine ⟨⟨.scalar x, a, ds⟩, ?_⟩
    rw [certifyAll, evaluateAll_eq_inOrder, (inOrder_eq_ok_iff _ ds).mpr hds, Except.bind, hx]
    rfl

/-- The first trace without a degree decides with which error a batch fails. -/
theorem certifyAll_error (before after : List (Trace O)) (t : Trace O) (e : EvalError) (a : A)
    (hbefore : ∀ u ∈ before, ∃ d, s.evaluate u = .ok d) (ht : s.evaluate t = .error e) :
    s.certifyAll (before ++ t :: after) a = .error e := by
  obtain ⟨ds, hds⟩ := exists_map_eq_map_ok hbefore
  rw [certifyAll, evaluateAll_eq_inOrder, List.map_append, List.map_cons, hds, ht, inOrder_append_error]
  rfl

theorem abides_certifyAll (hthreshold : threshold.isNaN = false) {ts : List (Trace O)} {a : A} {c : Certificate A}
    (h : s.certifyAll ts a = .ok c) : c.abides threshold = true ↔ ∀ t ∈ ts, s.Passes threshold t := by
  obtain ⟨hdegrees, -, x, hx, hrobust⟩ := s.certifyAll_ok ts a c h
  rw [Certificate.abides_scalar hrobust, Degree.le_conjunction_iff hthreshold hx,
    forall_mem_iff_of_map_eq_map_ok hdegrees]
  rfl

theorem abides_of_subset (hthreshold : threshold.isNaN = false) {ts ts' : List (Trace O)} {a : A}
    {c c' : Certificate A} (hsub : ts ⊆ ts') (hc : s.certifyAll ts a = .ok c) (hc' : s.certifyAll ts' a = .ok c')
    (h : c'.abides threshold = true) : c.abides threshold = true := by
  rw [s.abides_certifyAll hthreshold hc'] at h
  rw [s.abides_certifyAll hthreshold hc]
  exact fun t ht => h t (hsub ht)

/-- On its own, a trace whose degree has a number is accepted iff it passes. -/
theorem abides_certify (hthreshold : threshold.isNaN = false) {t : Trace O} {d : Degree} (a : A)
    (ht : s.evaluate t = .ok d) (hd : ∃ x ∈ d.values, x.isNaN = false) :
    (∃ c, s.certify t a = .ok c ∧ c.abides threshold = true) ↔ s.Passes threshold t := by
  have hcertify : s.certify t a = .ok ⟨d, a, []⟩ := by
    rw [certify, ht]
    rfl
  obtain ⟨x, hx⟩ := d.worst_ok (s.values_ne_nil_of_evaluate ht)
  have hnumber : x.isNaN = false := by
    obtain ⟨y, hy, hynumber⟩ := hd
    rw [← Bool.not_eq_true, Degree.isNaN_worst hx]
    exact fun hall => ne_true_of_eq_false hynumber (hall y hy)
  have habides : (⟨d, a, []⟩ : Certificate A).abides threshold = true ↔ Reaches threshold x := by
    rw [Certificate.abides, hx, Number.reaches_iff hnumber]
    exact decide_eq_true_iff
  simp only [hcertify, Except.ok.injEq, exists_eq_left', habides, Degree.reaches_worst hthreshold hx, Passes, ht,
    forall_eq']

/-- A batch of traces that have a degree abides by a threshold iff all numbers in these degrees reach it, so the order
of the traces does not matter and a further trace mends nothing. -/
theorem batch_abides_iff_numbers_reach (a : A) (threshold : Float) (hthreshold : threshold.isNaN = false) :
    (∀ ts, (∃ c, s.certifyAll ts a = .ok c) ↔ ts ≠ [] ∧ ∀ t ∈ ts, ∃ d, s.evaluate t = .ok d) ∧
    s.certifyAll [] a = .error (.emptyOperands .and) ∧
    (∀ before t after e, (∀ u ∈ before, ∃ d, s.evaluate u = .ok d) → s.evaluate t = .error e →
      s.certifyAll (before ++ t :: after) a = .error e) ∧
    (∀ ts c, s.certifyAll ts a = .ok c →
      ts.map s.evaluate = c.perTrace.map .ok ∧
      (c.abides threshold = true ↔ ∀ d ∈ c.perTrace, ∀ x ∈ d.values, x.isNaN = false → threshold ≤ x) ∧
      ((∀ d ∈ c.perTrace, ∃ x ∈ d.values, x.isNaN = false) →
        (c.abides threshold = true ↔ ∀ t ∈ ts, ∃ c', s.certify t a = .ok c' ∧ c'.abides threshold = true)) ∧
      (∀ ts', ts.Perm ts' → ∃ c', s.certifyAll ts' a = .ok c' ∧ c'.abides threshold = c.abides threshold)) ∧
    (∀ before t after c, s.certifyAll (before ++ after) a = .ok c → (∃ d, s.evaluate t = .ok d) →
      c.abides threshold = false →
      ∃ c', s.certifyAll (before ++ t :: after) a = .ok c' ∧ c'.abides threshold = false) := by
  refine ⟨fun ts => s.exists_certifyAll_iff ts a, rfl,
    fun before t after e => s.certifyAll_error before after t e a, ?_, ?_⟩
  · intro ts c hc
    obtain ⟨hdegrees, -⟩ := s.certifyAll_ok ts a c hc
    have habides := s.abides_certifyAll hthreshold hc
    refine ⟨hdegrees, ?_, ?_, ?_⟩
    · rw [habides]
      exact (forall_mem_iff_of_map_eq_map_ok hdegrees _).symm
    · intro hnumbers
      rw [forall_mem_iff_of_map_eq_map_ok hdegrees] at hnumbers
      rw [habides]
      apply forall₂_congr
      intro t ht
      obtain ⟨d, hd⟩ := exists_ok_of_map_eq_map_ok hdegrees t ht
      exact (s.abides_certify hthreshold a hd (hnumbers t ht d hd)).symm
    · intro ts' hperm
      obtain ⟨hne, hall⟩ := (s.exists_certifyAll_iff ts a).mp ⟨c, hc⟩
      have hne' : ts' ≠ [] := fun h => hne (List.perm_nil.mp (h ▸ hperm))
      obtain ⟨c', hc'⟩ := (s.exists_certifyAll_iff ts' a).mpr ⟨hne', fun t ht => hall t (hperm.mem_iff.mpr ht)⟩
      refine ⟨c', hc', ?_⟩
      rw [Bool.eq_iff_iff]
      exact ⟨s.abides_of_subset hthreshold hperm.subset hc hc',
        s.abides_of_subset hthreshold hperm.symm.subset hc' hc⟩
  · intro before t after c hc ht hrejected
    obtain ⟨-, hall⟩ := (s.exists_certifyAll_iff _ a).mp ⟨c, hc⟩
    have hperm : (before ++ t :: after).Perm (t :: (before ++ after)) := List.perm_middle
    have hall' : ∀ u ∈ before ++ t :: after, ∃ d, s.evaluate u = .ok d := by
      intro u hu
      rcases List.mem_cons.mp (hperm.mem_iff.mp hu) with rfl | hu
      · exact ht
      · exact hall u hu
    obtain ⟨c', hc'⟩ := (s.exists_certifyAll_iff _ a).mpr ⟨by simp, hall'⟩
    refine ⟨c', hc', ?_⟩
    rw [← Bool.not_eq_true] at hrejected ⊢
    intro h
    refine hrejected (s.abides_of_subset hthreshold ?_ hc hc' h)
    intro u hu
    exact hperm.mem_iff.mpr (List.mem_cons_of_mem t hu)

/-- Values that are observed as they are. -/
def observed : Spec Float := ⟨.atom "value", fun _ o => .ok o⟩

/-- A trace without a number is passed over in a batch, and the number next to it decides. -/
theorem batch_abides_iff_numbers_reach_observed :
    ∃ c, observed.certifyAll [⟨Number.nan, []⟩, ⟨Number.nan, [0.75]⟩] () = .ok c ∧
      c.abides 0.5 = true ∧ c.abides 1.0 = false := by
  have hc : observed.certifyAll [⟨Number.nan, []⟩, ⟨Number.nan, [0.75]⟩] () =
      .ok ⟨.scalar 0.75, (), [.sequence [Number.nan], .sequence [Number.nan, 0.75]]⟩ := rfl
  have hlow := observed.batch_abides_iff_numbers_reach () 0.5 (by decide +kernel)
  have hhigh := observed.batch_abides_iff_numbers_reach () 1.0 (by decide +kernel)
  refine ⟨_, hc, ?_, ?_⟩
  · rw [(hlow.2.2.2.1 _ _ hc).2.1]
    decide +kernel
  · rw [← Bool.not_eq_true, (hhigh.2.2.2.1 _ _ hc).2.1]
    decide +kernel

end Spec

end RightOfWay.Logic

import RightOfWay.Proofs.Extremes

namespace RightOfWay.Logic

open Number.Binary64

namespace Extremum

theorem one_sub_seed (e : Extremum) : 1.0 - e.seed = e.dual.seed := by
  cases e <;> decide +kernel

/-- The complement of the further value is the further of the complements at the other end, also if one of them is a
NaN. -/
theorem one_sub_pick (e : Extremum) (x y : Float) : 1.0 - e.pick x y = e.dual.pick (1.0 - x) (1.0 - y) := by
  have hnan := isNaN_one_sub
  cases hx : x.isNaN with
  | true => rw [e.pick_of_isNaN_left y hx, e.dual.pick_of_isNaN_left _ (by rw [hnan, hx])]
  | false =>
    cases hy : y.isNaN with
    | true => rw [e.pick_of_isNaN_right hx hy, e.dual.pick_of_isNaN_right (by rw [hnan, hx]) (by rw [hnan, hy])]
    | false =>
      have hcases := e.dual.pick_cases (x := 1.0 - x) (y := 1.0 - y) (by rw [hnan, hx]) (by rw [hnan, hy])
      obtain ⟨hpick, hleads⟩ | ⟨hpick, hleads, -⟩ := e.pick_cases hx hy
      · obtain ⟨hdual, -⟩ | ⟨-, -, hnot⟩ := hcases
        · rw [hpick, hdual]
        · exact absurd hleads.one_sub hnot
      · obtain ⟨hdual, hback⟩ | ⟨hdual, -, -⟩ := hcases
        · -- rounding has made the complements equal, so that the other one is kept
          rw [hpick, hdual]
          exact one_sub_congr hy hx (level_eq_of_leads hleads.one_sub hback)
        · rw [hpick, hdual]

theorem one_sub_foldl_pick (e : Extremum) (x : Float) (xs : List Float) :
    1.0 - xs.foldl e.pick x = (xs.map fun y => 1.0 - y).foldl e.dual.pick (1.0 - x) := by
  induction xs generalizing x with
  | nil => rfl
  | cons y ys ih => simp [ih, one_sub_pick]

theorem reduce_complement {e : Extremum} {d : Degree} {x : Float} (h : e.reduce d = .ok x) :
    e.dual.reduce d.complement = .ok (1.0 - x) := by
  obtain ⟨y, ys, hys⟩ := List.exists_cons_of_ne_nil (values_ne_nil_of_reduce h)
  have hcomplement : d.complement.values = (1.0 - y) :: ys.map fun z => 1.0 - z := by
    rw [Degree.values_complement, hys, List.map_cons]
  rw [e.reduce_eq d hys] at h
  cases h
  rw [e.dual.reduce_eq _ hcomplement, one_sub_foldl_pick]

theorem combine_complement {e : Extremum} {ds : List Degree} {x : Float} (h : e.combine ds = .ok x) :
    e.dual.combine (ds.map Degree.complement) = .ok (1.0 - x) := by
  have hne := ne_nil_of_combine h
  rw [e.combine_eq hne] at h
  obtain ⟨ws, hws, rfl⟩ := ok_of_map_ok h
  rw [inOrder_eq_ok_iff] at hws
  have hws' : (ds.map Degree.complement).map e.dual.reduce = (ws.map fun w => 1.0 - w).map .ok := by
    have hpoint : ∀ d ∈ ds, e.dual.reduce d.complement = (e.reduce d).map fun w => 1.0 - w := by
      intro d hd
      obtain ⟨w, hw⟩ := exists_ok_of_map_eq_map_ok hws d hd
      rw [reduce_complement hw, hw]
      rfl
    calc
      (ds.map Degree.complement).map e.dual.reduce = ds.map fun d => (e.reduce d).map fun w => 1.0 - w := by
        simpa using hpoint
      _ = (ds.map e.reduce).map (Except.map fun w => 1.0 - w) := by simp
      _ = (ws.map fun w => 1.0 - w).map .ok := by simp [hws, Function.comp_def, Except.map]
  rw [e.dual.combine_eq (by simpa using hne), hws', inOrder_map_ok, one_sub_foldl_pick, one_sub_seed]
  rfl

end Extremum

namespace Formula

variable {O : Type} (v : Valuation O) {os : List O} (hos : os ≠ [])

include hos

theorem degree_neg_along (e : Extremum) (p : Formula) :
    degree v os (.neg (e.along p)) = degree v os (e.dual.along (.neg p)) := by
  rw [degree, degree_along, degree_along, degree]
  cases hd : degree v os p with
  | error err => rfl
  | ok d =>
    obtain ⟨x, xs, hxs⟩ := List.exists_cons_of_ne_nil (values_ne_nil_of_degree hos hd)
    have hreduce := e.reduce_eq d hxs
    simp only [Except.bind, Except.map, hreduce, Extremum.reduce_complement hreduce]
    rfl

theorem degree_neg_join (e : Extremum) (ps : List Formula) (hps : ps ≠ []) :
    degree v os (.neg (e.join ps)) = degree v os (e.dual.join (ps.map .neg)) := by
  have hneg : (ps.map Formula.neg).map (degree v os) = (ps.map (degree v os)).map (Except.map Degree.complement) := by
    simp [degree]
  rw [degree, degree_join, degree_join, hneg, inOrder_map]
  cases hds : inOrder (ps.map (degree v os)) with
  | error err => rfl
  | ok ds =>
    obtain ⟨d, hd⟩ := (exists_degree_join hos e).mpr
      ⟨hps, exists_ok_of_map_eq_map_ok ((inOrder_eq_ok_iff _ _).mp hds)⟩
    rw [degree_join, hds] at hd
    obtain ⟨x, hx, -⟩ := ok_of_map_ok hd
    simp only [Except.bind, Except.map, hx, Extremum.combine_complement hx]
    rfl

omit hos in
/-- Negation exchanges always with eventually and conjunction with disjunction, over every trace and under every
valuation, errors and NaN included. -/
theorem negation_exchanges_ends (t : Trace O) (p : Formula) (ps : List Formula) (hps : ps ≠ []) :
    (Formula.neg (.always p)).evaluate v t.toList = (Formula.eventually (.neg p)).evaluate v t.toList ∧
    (Formula.neg (.eventually p)).evaluate v t.toList = (Formula.always (.neg p)).evaluate v t.toList ∧
    (Formula.neg (.conj ps)).evaluate v t.toList = (Formula.disj (ps.map .neg)).evaluate v t.toList ∧
    (Formula.neg (.disj ps)).evaluate v t.toList = (Formula.conj (ps.map .neg)).evaluate v t.toList := by
  have hos : t.toList ≠ [] := by simp [Trace.toList]
  simp only [evaluate_toList]
  exact ⟨degree_neg_along v hos .min p, degree_neg_along v hos .max p, degree_neg_join v hos .min ps hps,
    degree_neg_join v hos .max ps hps⟩

end Formula

/-- Over a single NaN a conjunction stays at its seed, and the disjunction of the negations at the other seed. -/
theorem negation_exchanges_ends_onlyNaN :
    (Formula.neg (.conj [.atom "value"])).evaluate Spec.observed.valuation [Number.nan] =
      .ok (.scalar (-Number.infinity)) ∧
    (Formula.disj [.neg (.atom "value")]).evaluate Spec.observed.valuation [Number.nan] =
      .ok (.scalar (-Number.infinity)) := by
  have hdual := Formula.negation_exchanges_ends Spec.observed.valuation ⟨Number.nan, []⟩ .truth [.atom "value"]
    (by simp)
  have hleft : (Formula.neg (.conj [.atom "value"])).evaluate Spec.observed.valuation [Number.nan] =
      .ok (.scalar (-Number.infinity)) := rfl
  exact ⟨hleft, hdual.2.2.1.symm.trans hleft⟩

end RightOfWay.Logic

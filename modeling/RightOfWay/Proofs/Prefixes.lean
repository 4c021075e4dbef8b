import RightOfWay.Proofs.Extremes

namespace RightOfWay.Logic

open Extremum

theorem Extremum.dual_dual (e : Extremum) : e.dual.dual = e := by
  cases e <;> rfl

section Observations

variable {O : Type} {v : Valuation O} {os : List O}

theorem Valuation.Binary.numeric (hv : v.Binary) (os : List O) : v.Numeric os := by
  intro name o _ x hx
  obtain rfl | rfl := hv name o x hx
  · rfl
  · rfl

theorem Valuation.Numeric.of_append {later : List O} (hv : v.Numeric (os ++ later)) : v.Numeric os := by
  intro name o ho
  exact hv name o (by simp [ho])

theorem Offends.append {n : Formula} {err : EvalError} (h : Offends v os n err) (later : List O) :
    Offends v (os ++ later) n err := by
  cases h with
  | untl p q => exact .untl p q
  | conj => exact .conj
  | disj => exact .disj
  | atom name before after o err hos hbefore ho =>
    exact .atom name before (after ++ later) o err (by simp [hos]) hbefore ho

end Observations

namespace Formula

/-- Formulas that look for one end only. Propositions and truth look for neither, and negation exchanges the ends. -/
inductive OneSided : Extremum → Formula → Prop where
  | atom (e : Extremum) (name : String) : OneSided e (.atom name)
  | truth (e : Extremum) : OneSided e .truth
  | neg {e : Extremum} {p : Formula} : OneSided e.dual p → OneSided e (.neg p)
  | along {e : Extremum} {p : Formula} : OneSided e p → OneSided e (e.along p)
  | join {e : Extremum} {ps : List Formula} : ps ≠ [] → (∀ p ∈ ps, OneSided e p) → OneSided e (e.join ps)

/-- Literals, truth, conjunctions and always of universal formulas, negations of existential ones. -/
def IsUniversal (p : Formula) : Prop := OneSided .min p

/-- Literals, truth, disjunctions and eventually of existential formulas, negations of universal ones. -/
def IsExistential (p : Formula) : Prop := OneSided .max p

theorem isUniversal_safety : Traffic.safety.IsUniversal := .along (.neg (.atom _ _))

variable {O : Type} {v : Valuation O} {os later : List O} {e : Extremum} {p : Formula} (hos : os ≠ [])

include hos

theorem exists_degree_of_append (h : ∃ d, degree v (os ++ later) p = .ok d) : ∃ d, degree v os p = .ok d := by
  rw [degree_ok_iff v _ (by simp [hos])] at h
  rw [degree_ok_iff v os hos]
  intro n hn err hoffends
  exact h n hn err (hoffends.append later)

variable (hv : v.Numeric (os ++ later))

include hv

/-- Over a longer trace, the values of a formula that looks for one end go at least as far out to that end. -/
theorem OneSided.covers (hp : OneSided e p) (h : ∃ d, degree v (os ++ later) p = .ok d) :
    e.Covers (reached v (os ++ later) p) (reached v os p) := by
  have hos' : os ++ later ≠ [] := by simp [hos]
  have hv' : v.Numeric os := hv.of_append
  induction hp with
  | atom e name =>
    obtain ⟨d, hd⟩ := exists_degree_of_append hos h
    obtain ⟨d', hd'⟩ := h
    obtain ⟨xs, hxs, -⟩ := ok_of_map_ok hd
    obtain ⟨ys, hys, -⟩ := ok_of_map_ok hd'
    refine covers_of_subset ?_ (isNaN_of_reached hv' _)
    intro y hy
    obtain ⟨o, ho, hoy⟩ := (mem_reached_atom hxs y).mp hy
    exact (mem_reached_atom hys y).mpr ⟨o, by simp [ho], hoy⟩
  | truth e => exact covers_of_subset subset_rfl (isNaN_of_reached hv' .truth)
  | neg _ ih =>
    obtain ⟨d, hd⟩ := h
    obtain ⟨b, hb, -⟩ := ok_of_map_ok hd
    intro y hy
    obtain ⟨x, hx, rfl⟩ := (mem_reached_neg y).mp hy
    obtain ⟨z, hz, hlead⟩ := ih ⟨b, hb⟩ x hx
    refine ⟨1.0 - z, (mem_reached_neg _).mpr ⟨z, hz, rfl⟩, ?_⟩
    simpa only [dual_dual] using hlead.one_sub
  | @along e p _ ih =>
    have hlater := (exists_degree_along hos' e).mp h
    obtain ⟨x, hx, hend⟩ := exists_value_along hv' hos e (exists_degree_of_append hos hlater)
    obtain ⟨y, hy, hend'⟩ := exists_value_along hv hos' e hlater
    rw [reached_scalar hx, reached_scalar hy]
    simpa [Covers] using hend'.leads_of_covers hend (ih hlater)
  | @join e ps hne _ ih =>
    have hlater := ((exists_degree_join hos' e).mp h).2
    obtain ⟨x, hx, hend⟩ := exists_value_join hv' hos e ps hne fun p hp => exists_degree_of_append hos (hlater p hp)
    obtain ⟨y, hy, hend'⟩ := exists_value_join hv hos' e ps hne hlater
    have hcovers : e.Covers {y | ∃ p ∈ ps, y ∈ reached v (os ++ later) p} {y | ∃ p ∈ ps, y ∈ reached v os p} := by
      intro a ⟨p, hp, ha⟩
      obtain ⟨b, hb, hlead⟩ := ih p hp (hlater p hp) a ha
      exact ⟨b, ⟨p, hp, hb⟩, hlead⟩
    rw [reached_scalar hx, reached_scalar hy]
    simpa [Covers] using hend'.leads_of_covers hend hcovers

theorem OneSided.leads {d' : Degree} (hp : OneSided e p) (hd' : degree v (os ++ later) p = .ok d') :
    ∃ d x x', degree v os p = .ok d ∧ e.reduce d = .ok x ∧ e.reduce d' = .ok x' ∧ e.Leads x' x := by
  obtain ⟨d, hd⟩ := exists_degree_of_append hos ⟨d', hd'⟩
  obtain ⟨x, hx⟩ := exists_reduce e (values_ne_nil_of_degree hos hd)
  obtain ⟨x', hx'⟩ := exists_reduce e (values_ne_nil_of_degree (by simp [hos]) hd')
  have hcovers := hp.covers hos hv ⟨d', hd'⟩
  have hnumbers := isNaN_of_reached hv.of_append p
  have hnumbers' := isNaN_of_reached hv p
  rw [reached_of_ok hd] at hcovers hnumbers
  rw [reached_of_ok hd'] at hcovers hnumbers'
  exact ⟨d, x, x', hd, hx, hx', (reduce_isEnd hnumbers' hx').leads_of_covers (reduce_isEnd hnumbers hx) hcovers⟩

omit hos hv

/-- On a longer trace the least value of a universal formula does not rise and the greatest of an existential one does not
fall, so what abides over a trace abides over its prefixes. -/
theorem longer_traces_are_never_more_lenient (v : Valuation O) (t u : Trace O) (hlonger : t.toList <+: u.toList)
    (hv : v.Numeric u.toList) (p : Formula) :
    (p.IsUniversal → ∀ d', p.evaluate v u.toList = .ok d' → ∃ d x x', p.evaluate v t.toList = .ok d ∧
      d.worst = .ok x ∧ d'.worst = .ok x' ∧ x' ≤ x) ∧
    (p.IsExistential → ∀ d', p.evaluate v u.toList = .ok d' → ∃ d x x', p.evaluate v t.toList = .ok d ∧
      d.best = .ok x ∧ d'.best = .ok x' ∧ x ≤ x') ∧
    (p.IsUniversal → ∀ (A : Type) (a : A) (threshold : Float) (c' : Certificate A),
      Spec.certify ⟨p, v⟩ u a = .ok c' → c'.abides threshold = true →
      ∃ c, Spec.certify ⟨p, v⟩ t a = .ok c ∧ c.abides threshold = true) ∧
    Traffic.safety.IsUniversal := by
  have hos : t.toList ≠ [] := by simp [Trace.toList]
  obtain ⟨later, hlater⟩ := hlonger
  simp only [evaluate_toList, ← hlater] at hv ⊢
  refine ⟨fun hp d' => OneSided.leads hos hv hp, fun hp d' => OneSided.leads hos hv hp, ?_, isUniversal_safety⟩
  intro hp A a threshold c' hc' habides
  obtain ⟨d', hd', rfl⟩ := ok_of_map_ok hc'
  rw [Spec.evaluate, evaluate_toList, ← hlater] at hd'
  obtain ⟨d, x, x', hd, hx, hx', hle⟩ := OneSided.leads hos hv hp hd'
  refine ⟨⟨d, a, []⟩, ?_, ?_⟩
  · simp [Spec.certify, Spec.evaluate, evaluate_toList, hd, Except.map]
  · refine Certificate.abides_of_worst_le ?_ ?_ hle habides
    · exact hx'
    · exact hx

end Formula

end RightOfWay.Logic

namespace RightOfWay.Traffic

open Logic (Certificate Formula Spec)

/-- A crash in the second observation makes safety worse; what is accepted in spite of it is accepted without it. -/
theorem longer_traces_are_never_more_lenient_safety :
    safety.evaluate Condition.valuation [.flow, .crash] = .ok (.scalar 0.0) ∧
    (∃ d x x', safety.evaluate Condition.valuation [.flow] = .ok d ∧ d.worst = .ok x ∧
      (Logic.Degree.scalar 0.0).worst = .ok x' ∧ x' ≤ x) ∧
    ∃ c : Certificate Unit, Spec.certify ⟨safety, Condition.valuation⟩ ⟨.flow, []⟩ () = .ok c ∧
      c.abides 0.0 = true := by
  have hlaws := Formula.longer_traces_are_never_more_lenient Condition.valuation ⟨.flow, []⟩ ⟨.flow, [.crash]⟩
    (by simp [Logic.Trace.toList]) (Condition.valuation_binary.numeric _) safety
  exact ⟨rfl, hlaws.1 Formula.isUniversal_safety _ rfl,
    hlaws.2.2.1 Formula.isUniversal_safety Unit () 0.0 _ rfl (by decide)⟩

-- The shield negates a disjunction of conjunctions, which look for both ends, and a longer trace can mend it.
example :
    shield.evaluate Phase.valuation [.green [.north, .east]] = .ok (.scalar 0.0) ∧
    shield.evaluate Phase.valuation [.green [.north, .east], .allRed] = .ok (.scalar 1.0) := ⟨rfl, rfl⟩

end RightOfWay.Traffic

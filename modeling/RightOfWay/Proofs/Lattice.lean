import RightOfWay.Proofs.Extremes

namespace RightOfWay.Logic.Formula

open Number.Binary64 Extremum

variable {O : Type}

/-- Both formulas have a single value over the observations, and the values are equal. -/
def Agree (v : Valuation O) (os : List O) (p q : Formula) : Prop :=
  ∃ x y, p.evaluate v os = .ok (.scalar x) ∧ q.evaluate v os = .ok (.scalar y) ∧ (x == y) = true

def HasDegree (v : Valuation O) (os : List O) (p : Formula) : Prop := ∃ d, p.evaluate v os = .ok d

/-- The laws of a connective, of the temporal operator that goes with it and of the other temporal operator. -/
structure Collapses (v : Valuation O) (os : List O) (join : List Formula → Formula) (along across : Formula → Formula) :
    Prop where
  /-- Only which operands there are counts, not their order and not how often they stand there. -/
  members : ∀ ps qs, ps ⊆ qs → qs ⊆ ps → HasDegree v os (join ps) → Agree v os (join ps) (join qs)
  /-- The operands of an operand may take its place. -/
  nested : ∀ before ps after, HasDegree v os (join (before ++ join ps :: after)) →
    Agree v os (join (before ++ join ps :: after)) (join (before ++ ps ++ after))
  wrapped : ∀ before p after, HasDegree v os (join (before ++ p :: after)) →
    Agree v os (join (before ++ along p :: after)) (join (before ++ p :: after))
  single : ∀ p, HasDegree v os p → Agree v os (along p) (join [p])
  along_join : ∀ ps, HasDegree v os (join ps) → Agree v os (along (join ps)) (join ps)
  along_along : ∀ p, HasDegree v os p → Agree v os (along (along p)) (along p)
  across_along : ∀ p, HasDegree v os p → Agree v os (across (along p)) (along p)

variable {v : Valuation O} {os : List O} {p q : Formula} {x y : Float}

/-- A temporal operator keeps a single value. -/
theorem degree_along_scalar (e : Extremum) (h : degree v os p = .ok (.scalar x)) :
    degree v os (e.along p) = .ok (.scalar x) := by
  rw [degree_along, h]
  cases e <;> rfl

variable (hv : v.Numeric os) (hos : os ≠ [])

include hos

theorem evaluate_eq_degree (p : Formula) : p.evaluate v os = degree v os p := by
  simp [evaluate, hos]

theorem hasDegree_iff (p : Formula) : HasDegree v os p ↔ ∃ d, degree v os p = .ok d := by
  simp only [HasDegree, evaluate_eq_degree hos]

theorem agree_of_isEnd {e : Extremum} {s : Set Float} (hp : degree v os p = .ok (.scalar x))
    (hq : degree v os q = .ok (.scalar y)) (hx : e.IsEnd s x) (hy : e.IsEnd s y) : Agree v os p q := by
  refine ⟨x, y, ?_, ?_, hx.beq hy⟩
  · rw [evaluate_eq_degree hos, hp]
  · rw [evaluate_eq_degree hos, hq]

include hv

/-- An operand with a single value may be replaced by formulas of whose values it is the end. -/
theorem agree_of_replaced (e : Extremum) (before qs after : List Formula) (hne : qs ≠ [])
    (hok : ∀ p ∈ before ++ qs ++ after, ∃ d, degree v os p = .ok d) (hq : degree v os q = .ok (.scalar x))
    (hx : e.IsEnd {y | ∃ p ∈ qs, y ∈ reached v os p} x) :
    Agree v os (e.join (before ++ q :: after)) (e.join (before ++ qs ++ after)) := by
  obtain ⟨a, ha, hend⟩ := exists_value_join hv hos e (before ++ q :: after) (by simp) (by
    intro p hp
    simp only [List.mem_append, List.mem_cons] at hp
    obtain hp | rfl | hp := hp
    · exact hok p (by simp [hp])
    · exact ⟨_, hq⟩
    · exact hok p (by simp [hp]))
  obtain ⟨b, hb, hend'⟩ := exists_value_join hv hos e (before ++ qs ++ after) (by simp [hne]) hok
  have hself {rs : List Formula} {p : Formula} {y : Float} (hp : p ∈ rs) (hy : y ∈ reached v os p) :
      ∃ b ∈ {z | ∃ p ∈ rs, z ∈ reached v os p}, e.Leads b y :=
    ⟨y, ⟨p, hp, hy⟩, leads_self (isNaN_of_reached hv p y hy)⟩
  refine agree_of_isEnd hos ha hb (hend.of_covers ?_ ?_) hend'
  · intro y ⟨p, hp, hy⟩
    simp only [List.mem_append] at hp
    obtain (hp | hp) | hp := hp
    · exact hself (by simp [hp]) hy
    · exact ⟨x, ⟨q, by simp, by simp [reached_scalar hq]⟩, hx.leads y ⟨p, hp, hy⟩⟩
    · exact hself (by simp [hp]) hy
  · intro y ⟨p, hp, hy⟩
    simp only [List.mem_append, List.mem_cons] at hp
    obtain hp | rfl | hp := hp
    · exact hself (by simp [hp]) hy
    · obtain ⟨z, ⟨r, hr, hz⟩, hlead⟩ := hx.attained
      obtain rfl : y = x := by simpa [reached_scalar hq] using hy
      exact ⟨z, ⟨r, by simp [hr], hz⟩, hlead⟩
    · exact hself (by simp [hp]) hy

theorem agree_along_scalar (e : Extremum) (h : degree v os p = .ok (.scalar x)) : Agree v os (e.along p) p := by
  have hx : x.isNaN = false := isNaN_of_reached hv p x (by simp [reached_scalar h])
  refine ⟨x, x, ?_, ?_, (beq_iff_level hx hx).mpr rfl⟩
  · rw [evaluate_eq_degree hos, degree_along_scalar e h]
  · rw [evaluate_eq_degree hos, h]

theorem agree_of_members (e : Extremum) {ps qs : List Formula} (hps : ps ⊆ qs) (hqs : qs ⊆ ps)
    (h : HasDegree v os (e.join ps)) : Agree v os (e.join ps) (e.join qs) := by
  rw [hasDegree_iff hos, exists_degree_join hos] at h
  obtain ⟨hne, hall⟩ := h
  have hne' : qs ≠ [] := by
    intro hnil
    subst hnil
    exact hne (List.subset_nil.mp hps)
  have hsame : {y | ∃ p ∈ ps, y ∈ reached v os p} = {y | ∃ p ∈ qs, y ∈ reached v os p} := by
    ext y
    exact ⟨fun ⟨p, hp, hy⟩ => ⟨p, hps hp, hy⟩, fun ⟨p, hp, hy⟩ => ⟨p, hqs hp, hy⟩⟩
  obtain ⟨x, hx, hend⟩ := exists_value_join hv hos e ps hne hall
  obtain ⟨y, hy, hend'⟩ := exists_value_join hv hos e qs hne' fun p hp => hall p (hqs hp)
  exact agree_of_isEnd hos hx hy (hsame ▸ hend) hend'

theorem agree_of_nested (e : Extremum) {before ps after : List Formula}
    (h : HasDegree v os (e.join (before ++ e.join ps :: after))) :
    Agree v os (e.join (before ++ e.join ps :: after)) (e.join (before ++ ps ++ after)) := by
  rw [hasDegree_iff hos, exists_degree_join hos] at h
  obtain ⟨hne, hall⟩ := (exists_degree_join hos e).mp (h.2 (e.join ps) (by simp))
  obtain ⟨x, hx, hend⟩ := exists_value_join hv hos e ps hne hall
  refine agree_of_replaced hv hos e before ps after hne ?_ hx hend
  intro p hp
  simp only [List.mem_append] at hp
  obtain (hp | hp) | hp := hp
  · exact h.2 p (by simp [hp])
  · exact hall p hp
  · exact h.2 p (by simp [hp])

theorem agree_of_wrapped (e : Extremum) {before after : List Formula}
    (h : HasDegree v os (e.join (before ++ p :: after))) :
    Agree v os (e.join (before ++ e.along p :: after)) (e.join (before ++ p :: after)) := by
  rw [hasDegree_iff hos, exists_degree_join hos] at h
  obtain ⟨x, hx, hend⟩ := exists_value_along hv hos e (h.2 p (by simp))
  have hreplaced := agree_of_replaced hv hos e before [p] after (by simp) (by simpa using h.2) hx (by simpa using hend)
  simpa using hreplaced

theorem agree_of_single (e : Extremum) (h : HasDegree v os p) : Agree v os (e.along p) (e.join [p]) := by
  rw [hasDegree_iff hos] at h
  obtain ⟨x, hx, hend⟩ := exists_value_along hv hos e h
  obtain ⟨y, hy, hend'⟩ := exists_value_join hv hos e [p] (by simp) (by simpa using h)
  exact agree_of_isEnd hos hx hy hend (by simpa using hend')

theorem agree_along_join (e : Extremum) {ps : List Formula} (h : HasDegree v os (e.join ps)) :
    Agree v os (e.along (e.join ps)) (e.join ps) := by
  rw [hasDegree_iff hos, exists_degree_join hos] at h
  obtain ⟨x, hx, -⟩ := exists_value_join hv hos e ps h.1 h.2
  exact agree_along_scalar hv hos e hx

theorem agree_along_along (e e' : Extremum) (h : HasDegree v os p) : Agree v os (e'.along (e.along p)) (e.along p) := by
  rw [hasDegree_iff hos] at h
  obtain ⟨x, hx, -⟩ := exists_value_along hv hos e h
  exact agree_along_scalar hv hos e' hx

theorem collapses (e : Extremum) : Collapses v os e.join e.along e.dual.along where
  members _ _ := agree_of_members hv hos e
  nested _ _ _ := agree_of_nested hv hos e
  wrapped _ _ _ := agree_of_wrapped hv hos e
  single _ := agree_of_single hv hos e
  along_join _ := agree_along_join hv hos e
  along_along _ := agree_along_along hv hos e e
  across_along _ := agree_along_along hv hos e e.dual

omit hv hos

/-- Without NaN, what has a degree keeps its value, up to the sign of zero, if operands are exchanged, repeated or
unnested, or put under a temporal operator of the same end. -/
theorem nested_operators_collapse (v : Valuation O) (t : Trace O) (hv : v.Numeric t.toList) :
    Collapses v t.toList .conj .always .eventually ∧ Collapses v t.toList .disj .eventually .always := by
  have hos : t.toList ≠ [] := by simp [Trace.toList]
  exact ⟨collapses hv hos .min, collapses hv hos .max⟩

/-- Zero under two names, with either sign. -/
def signedZero : Valuation Unit := fun name _ => .ok (if name = "below" then -0.0 else 0.0)

/-- Exchanged operands change the sign of zero, and nothing else. -/
theorem nested_operators_collapse_signedZero :
    (conj [.atom "above", .atom "below"]).evaluate signedZero [()] = .ok (.scalar 0.0) ∧
    (conj [.atom "below", .atom "above"]).evaluate signedZero [()] = .ok (.scalar (-0.0)) ∧
    Agree signedZero [()] (.conj [.atom "above", .atom "below"]) (.conj [.atom "below", .atom "above"]) := by
  have hnumeric : signedZero.Numeric [()] := by
    intro name o _ x hx
    cases hx
    split <;> rfl
  have hlaws := (nested_operators_collapse signedZero ⟨(), []⟩ hnumeric).1
  refine ⟨?_, ?_, hlaws.members _ _ (by simp) (by simp) ⟨_, rfl⟩⟩
  · rfl
  · rfl

end RightOfWay.Logic.Formula

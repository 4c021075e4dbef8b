import RightOfWay.Proofs.Coincidence

namespace RightOfWay.Logic

open Number.Binary64

/-- A value between zero and one, so in particular no NaN. -/
def InUnit (x : Float) : Prop := 0.0 ≤ x ∧ x ≤ 1.0

theorem InUnit.number {x : Float} (h : InUnit x) : x.isNaN = false := (isNaN_of_le h.1).2

theorem inUnit_one : InUnit 1.0 := ⟨by decide +kernel, by decide +kernel⟩

theorem InUnit.one_sub {x : Float} (h : InUnit x) : InUnit (1.0 - x) := by
  have hlow : (1.0 : Float) - 1.0 ≤ 1.0 - x := one_sub_le_one_sub h.2
  have hhigh : 1.0 - x ≤ (1.0 : Float) - 0.0 := one_sub_le_one_sub h.1
  exact ⟨hlow, hhigh⟩

namespace Extremum

variable {e : Extremum} {s : Set Float} {x : Float}

/-- The end of some values is as large as one of them. -/
theorem IsEnd.equals (h : e.IsEnd s x) : ∃ y ∈ s, y ≤ x ∧ x ≤ y := by
  obtain ⟨y, hy, hyx⟩ := h.attained
  have hxy := h.leads y hy
  cases e with
  | min => exact ⟨y, hy, hyx, hxy⟩
  | max => exact ⟨y, hy, hxy, hyx⟩

theorem IsEnd.inUnit (h : e.IsEnd s x) (hs : ∀ y ∈ s, InUnit y) : InUnit x := by
  obtain ⟨y, hy, hyx, hxy⟩ := h.equals
  exact ⟨le_of_le_of_le (hs y hy).1 hyx, le_of_le_of_le hxy (hs y hy).2⟩

end Extremum

namespace Formula

variable {O : Type} {v : Valuation O} {os : List O} {e : Extremum} {p : Formula} {ps : List Formula} {d : Degree}

theorem not_isLiteral_along (e : Extremum) (p : Formula) : ¬ (e.along p).IsLiteral := by
  intro h
  cases e <;> cases h

theorem not_isLiteral_join (e : Extremum) (ps : List Formula) : ¬ (e.join ps).IsLiteral := by
  intro h
  cases e <;> cases h

theorem isLiteral_neg_iff : (Formula.neg p).IsLiteral ↔ p.IsLiteral := by
  constructor
  · intro h
    cases h with
    | neg _ hp => exact hp
  · exact IsLiteral.neg p

/-- The shape that the operators of a formula give to its degree. -/
inductive Shaped (n : Nat) : Formula → Degree → Prop where
  | sequence {p : Formula} {xs : List Float} (hp : p.IsLiteral) (hxs : xs.length = n) : Shaped n p (.sequence xs)
  | scalar {p : Formula} {x : Float} (hp : ¬ p.IsLiteral) : Shaped n p (.scalar x)

theorem Shaped.neg {n : Nat} (h : Shaped n p d) : Shaped n (.neg p) d.complement := by
  cases h with
  | sequence hp hxs => exact .sequence (isLiteral_neg_iff.mpr hp) (by simpa using hxs)
  | scalar hp => exact .scalar (isLiteral_neg_iff.not.mpr hp)

theorem degree_shaped (h : degree v os p = .ok d) : Shaped os.length p d := by
  induction p using inductionOn generalizing d with
  | atom name =>
    obtain ⟨xs, hxs, rfl⟩ := ok_of_map_ok h
    exact .sequence (.atom name) ((values_settles v name os).good_of_ok hxs)
  | truth =>
    cases h
    exact .scalar (fun hliteral => by cases hliteral)
  | neg p ih =>
    obtain ⟨b, hb, rfl⟩ := ok_of_map_ok h
    exact (ih hb).neg
  | along e p _ =>
    obtain ⟨b, x, -, -, rfl⟩ := along_ok h
    exact .scalar (not_isLiteral_along e p)
  | join e ps _ =>
    obtain ⟨ds, x, -, -, rfl⟩ := join_ok h
    exact .scalar (not_isLiteral_join e ps)
  | untl p q _ _ => cases h

/-- If the propositions of a formula have degrees between zero and one, so has the formula. -/
theorem inUnit_of_reached (hv : ∀ name ∈ p.leaves, ∀ o ∈ os, ∀ x, v name o = .ok x → InUnit x) :
    ∀ y ∈ reached v os p, InUnit y := by
  induction p using inductionOn with
  | atom name =>
    intro y ⟨d, hd, hy⟩
    obtain ⟨xs, hxs, rfl⟩ := ok_of_map_ok hd
    obtain ⟨o, ho, hoy⟩ := (mem_reached_atom hxs y).mp ⟨_, hd, hy⟩
    exact hv name (by simp [leaves]) o ho y hoy
  | truth =>
    intro y ⟨d, hd, hy⟩
    cases hd
    obtain rfl := List.mem_singleton.mp hy
    exact inUnit_one
  | neg p ih =>
    intro y hy
    obtain ⟨x, hx, rfl⟩ := (mem_reached_neg y).mp hy
    exact (ih hv x hx).one_sub
  | along e p ih =>
    intro y ⟨d, hd, hy⟩
    rw [leaves_along] at hv
    obtain ⟨x, rfl, hx⟩ := along_isEnd (fun z hz => (ih hv z hz).number) hd
    obtain rfl := List.mem_singleton.mp hy
    exact hx.inUnit (ih hv)
  | join e ps ih =>
    intro y ⟨d, hd, hy⟩
    have hps : ∀ p ∈ ps, ∀ z ∈ reached v os p, InUnit z := by
      intro p hp
      exact ih p hp fun name hname => hv name (leaves_subset_join e hp hname)
    obtain ⟨x, rfl, hx⟩ := join_isEnd (fun p hp z hz => (hps p hp z hz).number) hd
    obtain rfl := List.mem_singleton.mp hy
    exact hx.inUnit fun z ⟨p, hp, hz⟩ => hps p hp z hz
  | untl p q _ _ =>
    intro y ⟨d, hd, hy⟩
    cases hd

/-- A degree is a sequence iff the formula is a proposition under negations only, and it stays between zero and one if the
degrees of its propositions do. -/
theorem evaluate_shape_and_range (p : Formula) (v : Valuation O) (t : Trace O) (d : Degree)
    (h : p.evaluate v t.toList = .ok d) :
    ((∃ xs, d = .sequence xs) ↔ p.IsLiteral) ∧
    (∀ xs, d = .sequence xs → xs.length = t.length) ∧
    (¬ p.IsLiteral → ∃ x, d = .scalar x) ∧
    ((∀ name ∈ p.atoms, ∀ o ∈ t.toList, ∀ x, v name o = .ok x → 0.0 ≤ x ∧ x ≤ 1.0) →
      ∀ y ∈ d.values, 0.0 ≤ y ∧ y ≤ 1.0) := by
  have hrange : (∀ name ∈ p.atoms, ∀ o ∈ t.toList, ∀ x, v name o = .ok x → InUnit x) →
      ∀ y ∈ d.values, InUnit y := by
    simp only [mem_atoms]
    intro hv y hy
    exact inUnit_of_reached hv y ⟨d, h, hy⟩
  cases degree_shaped h with
  | sequence hp hxs =>
    refine ⟨iff_of_true ⟨_, rfl⟩ hp, ?_, fun hnot => absurd hp hnot, hrange⟩
    intro xs heq
    cases heq
    exact hxs
  | scalar hp =>
    refine ⟨iff_of_false ?_ hp, ?_, fun _ => ⟨_, rfl⟩, hrange⟩
    · intro ⟨xs, heq⟩
      cases heq
    · intro xs heq
      cases heq

/-- Every proposition holds to the degree that is observed. -/
def observedDegree : Valuation Float := fun _ x => .ok x

/-- Two negations keep both values of a proposition, one below a conjunction leaves a single one. -/
theorem evaluate_shape_and_range_doubled :
    (Formula.neg (.neg (.atom "grip"))).evaluate observedDegree [0.25, 1.0] = .ok (.sequence [0.25, 1.0]) ∧
    (Formula.neg (.neg (.atom "grip"))).IsLiteral ∧
    (Formula.neg (.conj [.atom "grip", .truth])).evaluate observedDegree [0.25, 1.0] = .ok (.scalar 0.75) ∧
    ∀ y ∈ (Degree.scalar 0.75).values, 0.0 ≤ y ∧ y ≤ 1.0 := by
  have hsequence : (Formula.neg (.neg (.atom "grip"))).evaluate observedDegree [0.25, 1.0] =
      .ok (.sequence [0.25, 1.0]) := rfl
  have hscalar : (Formula.neg (.conj [.atom "grip", .truth])).evaluate observedDegree [0.25, 1.0] =
      .ok (.scalar 0.75) := rfl
  obtain ⟨hshape, -, -, -⟩ := evaluate_shape_and_range _ observedDegree ⟨0.25, [1.0]⟩ _ hsequence
  obtain ⟨-, -, -, hrange⟩ := evaluate_shape_and_range _ observedDegree ⟨0.25, [1.0]⟩ _ hscalar
  refine ⟨hsequence, hshape.mp ⟨_, rfl⟩, hscalar, hrange ?_⟩
  intro name _ o ho x hx
  cases hx
  obtain rfl | rfl : o = 0.25 ∨ o = 1.0 := by simpa [Trace.toList] using ho
  · decide
  · decide

end Formula

end RightOfWay.Logic

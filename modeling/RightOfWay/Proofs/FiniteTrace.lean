import RightOfWay.Proofs.Boolean
import RightOfWay.Proofs.Support

namespace RightOfWay.Logic.Formula

variable {O : Type}

mutual

/-- Whether a formula holds at a position of a finite trace, given where its propositions hold. -/
def Satisfies (w : String → O → Prop) (os : List O) : Formula → Nat → Prop
  | .atom name, i => ∃ o, os[i]? = some o ∧ w name o
  | .truth, _ => True
  | .neg p, i => ¬ Satisfies w os p i
  | .conj ps, i => SatisfiesAll w os ps i
  | .disj ps, i => SatisfiesAny w os ps i
  | .always p, i => ∀ j, i ≤ j → j < os.length → Satisfies w os p j
  | .eventually p, i => ∃ j, i ≤ j ∧ j < os.length ∧ Satisfies w os p j
  | .untl p q, i =>
    ∃ j, i ≤ j ∧ j < os.length ∧ Satisfies w os q j ∧ ∀ k, i ≤ k → k < j → Satisfies w os p k

def SatisfiesAll (w : String → O → Prop) (os : List O) : List Formula → Nat → Prop
  | [], _ => True
  | p :: ps, i => Satisfies w os p i ∧ SatisfiesAll w os ps i

def SatisfiesAny (w : String → O → Prop) (os : List O) : List Formula → Nat → Prop
  | [], _ => False
  | p :: ps, i => Satisfies w os p i ∨ SatisfiesAny w os ps i

end

theorem satisfiesAll_iff (w : String → O → Prop) (os : List O) (ps : List Formula) (i : Nat) :
    SatisfiesAll w os ps i ↔ ∀ p ∈ ps, Satisfies w os p i := by
  induction ps with
  | nil => simp [SatisfiesAll]
  | cons p ps ih => rw [SatisfiesAll, ih, List.forall_mem_cons]

theorem satisfiesAny_iff (w : String → O → Prop) (os : List O) (ps : List Formula) (i : Nat) :
    SatisfiesAny w os ps i ↔ ∃ p ∈ ps, Satisfies w os p i := by
  induction ps with
  | nil => simp [SatisfiesAny]
  | cons p ps ih => simp [SatisfiesAny, ih]

/-- A proposition under any number of negations. -/
inductive IsLiteral : Formula → Prop where
  | atom (name : String) : IsLiteral (.atom name)
  | neg (p : Formula) : IsLiteral p → IsLiteral (.neg p)

/-- A formula about a trace as a whole: literals stand only directly under a temporal operator. -/
inductive IsGlobal : Formula → Prop where
  | truth : IsGlobal .truth
  | always (p : Formula) : IsLiteral p → IsGlobal (.always p)
  | eventually (p : Formula) : IsLiteral p → IsGlobal (.eventually p)
  | neg (p : Formula) : IsGlobal p → IsGlobal (.neg p)
  | conj (ps : List Formula) : ps ≠ [] → (∀ p ∈ ps, IsGlobal p) → IsGlobal (.conj ps)
  | disj (ps : List Formula) : ps ≠ [] → (∀ p ∈ ps, IsGlobal p) → IsGlobal (.disj ps)

theorem IsGlobal.and {p q : Formula} (hp : p.IsGlobal) (hq : q.IsGlobal) : (p.and q).IsGlobal :=
  .conj [p, q] (by simp) (by simp [hp, hq])

theorem IsGlobal.or {p q : Formula} (hp : p.IsGlobal) (hq : q.IsGlobal) : (p.or q).IsGlobal :=
  .disj [p, q] (by simp) (by simp [hp, hq])

theorem IsGlobal.implies {p q : Formula} (hp : p.IsGlobal) (hq : q.IsGlobal) : (p.implies q).IsGlobal :=
  IsGlobal.or (.neg p hp) hq

theorem IsGlobal.iff {p q : Formula} (hp : p.IsGlobal) (hq : q.IsGlobal) : (p.iff q).IsGlobal :=
  (hp.implies hq).and (hq.implies hp)

theorem isGlobal_safety : Traffic.safety.IsGlobal := .always _ (.neg _ (.atom _))

theorem holds_iff (v : Valuation O) (hv : v.Binary) (name : String) (o : O) :
    v.holds name o = true ↔ v name o = .ok 1.0 := by
  rw [Valuation.holds]
  cases hx : v name o with
  | error e => simp
  | ok x =>
    rcases hv name o x hx with rfl | rfl
    · refine iff_of_false (by decide +kernel) ?_
      intro h
      exact absurd (Except.ok.inj h) (by decide +kernel)
    · exact iff_of_true (by decide +kernel) rfl

theorem degrees_eq_inOrder (v : Valuation O) (os : List O) (ps : List Formula) :
    degrees v os ps = inOrder (ps.map (degree v os)) := by
  induction ps with
  | nil => rfl
  | cons p ps ih =>
    rw [degrees, ih, List.map_cons]
    cases degree v os p with
    | error e => rfl
    | ok d => rfl

theorem degrees_of_truths (v : Valuation O) (os : List O) (ps : List Formula) (b : Formula → Bool)
    (h : ∀ p ∈ ps, degree v os p = .ok (.scalar (ofBool (b p)))) :
    degrees v os ps = .ok ((ps.map fun p => Truth.scalar (b p)).map Truth.degree) := by
  rw [degrees_eq_inOrder, inOrder_eq_ok_iff, List.map_map, List.map_map]
  exact List.map_congr_left h

/-- The valuation gives the named propositions a value at all of the observations. -/
def Knows (v : Valuation O) (os : List O) (names : List String) : Prop :=
  ∀ name ∈ names, ∀ o ∈ os, ∃ x, v name o = .ok x

section Agreement

variable (v : Valuation O) (hv : v.Binary) (os : List O)

include hv

theorem values_of_knows (name : String) (h : Knows v os [name]) :
    values v name os = .ok ((os.map (v.holds name)).map ofBool) := by
  rw [values_eq_inOrder, inOrder_eq_ok_iff, List.map_map, List.map_map]
  apply List.map_congr_left
  intro o ho
  obtain ⟨x, hx⟩ := h name (by simp) o ho
  rw [hx, hv.eq_ofBool hx]
  rfl

/-- A literal has one or zero at each position, as it holds there or not. -/
theorem IsLiteral.degree_eq {p : Formula} (hp : p.IsLiteral) (hknown : Knows v os p.leaves) :
    ∃ bs : List Bool, degree v os p = .ok (Truth.sequence bs).degree ∧ bs.length = os.length ∧
      ∀ i (hi : i < bs.length), bs[i] = true ↔ Satisfies (fun name o => v name o = .ok 1.0) os p i := by
  induction hp with
  | atom name =>
    refine ⟨os.map (v.holds name), ?_, by simp, ?_⟩
    · rw [degree, values_of_knows v hv os name hknown]
      rfl
    · intro i hi
      have hlt : i < os.length := by simpa using hi
      rw [List.getElem_map, holds_iff v hv, Satisfies, List.getElem?_eq_getElem hlt]
      simp
  | neg p hp ih =>
    obtain ⟨bs, hdeg, hlen, hbs⟩ := ih hknown
    refine ⟨bs.map not, ?_, by simpa using hlen, ?_⟩
    · rw [degree, hdeg]
      exact congrArg Except.ok (Truth.complement_degree (.sequence bs))
    · intro i hi
      have hlt : i < bs.length := by simpa using hi
      rw [List.getElem_map, Satisfies, ← hbs i hlt]
      simp

variable (hos : os ≠ [])

include hos

/-- Always and eventually over a literal are all and any of its positions. -/
theorem IsLiteral.degree_temporal {p : Formula} (hp : p.IsLiteral) (hknown : Knows v os p.leaves) :
    ∃ all any : Bool,
      degree v os (.always p) = .ok (.scalar (ofBool all)) ∧
      (all = true ↔ Satisfies (fun name o => v name o = .ok 1.0) os (.always p) 0) ∧
      degree v os (.eventually p) = .ok (.scalar (ofBool any)) ∧
      (any = true ↔ Satisfies (fun name o => v name o = .ok 1.0) os (.eventually p) 0) := by
  obtain ⟨bs, hdeg, hlen, hbs⟩ := hp.degree_eq v hv os hknown
  have hne : (Truth.sequence bs).values ≠ [] := by
    rw [Truth.values, ← List.length_pos_iff, hlen]
    exact List.length_pos_iff.mpr hos
  refine ⟨bs.all id, bs.any id, ?_, ?_, ?_, ?_⟩
  · rw [degree, hdeg, Except.bind, Truth.worst_degree _ hne]
    rfl
  · rw [Satisfies, List.all_eq_true, List.forall_mem_iff_getElem]
    constructor
    · intro h j _ hj
      exact (hbs j (by omega)).mp (h j (by omega))
    · intro h j hj
      exact (hbs j hj).mpr (h j (Nat.zero_le j) (by omega))
  · rw [degree, hdeg, Except.bind, Truth.best_degree _ hne]
    rfl
  · rw [Satisfies, List.any_eq_true, List.exists_mem_iff_getElem]
    constructor
    · rintro ⟨j, hj, h⟩
      exact ⟨j, Nat.zero_le j, by omega, (hbs j hj).mp h⟩
    · rintro ⟨j, -, hj, h⟩
      exact ⟨j, by omega, (hbs j (by omega)).mpr h⟩

/-- A formula about the trace as a whole has degree one or zero, as the trace satisfies it or not. -/
theorem IsGlobal.degree_eq {p : Formula} (hp : p.IsGlobal) (hknown : Knows v os p.leaves) :
    ∃ b : Bool, degree v os p = .ok (.scalar (ofBool b)) ∧
      (b = true ↔ Satisfies (fun name o => v name o = .ok 1.0) os p 0) := by
  induction hp with
  | truth => exact ⟨true, rfl, by simp [Satisfies]⟩
  | always p hp =>
    obtain ⟨all, -, hall, hsat, -, -⟩ := hp.degree_temporal v hv os hos hknown
    exact ⟨all, hall, hsat⟩
  | eventually p hp =>
    obtain ⟨-, any, -, -, hany, hsat⟩ := hp.degree_temporal v hv os hos hknown
    exact ⟨any, hany, hsat⟩
  | neg p _ ih =>
    obtain ⟨b, hb, hsat⟩ := ih hknown
    refine ⟨!b, ?_, ?_⟩
    · rw [degree, hb]
      exact congrArg Except.ok (Truth.complement_degree (.scalar b))
    · rw [Satisfies, ← hsat]
      simp
  | conj ps hne _ ih =>
    -- each operand's truth value is chosen once, so that the reduction runs over a mapped list
    choose! b hb using fun p hp => ih p hp fun name hname => hknown name (leaves_subset_of_mem hp hname)
    refine ⟨ps.all b, ?_, ?_⟩
    · rw [degree, degrees_of_truths v os ps b fun p hp => (hb p hp).1, Except.bind,
        Truth.conjunction_degree _ (by simpa using hne) (by simp [Truth.values])]
      simp [Truth.all, Truth.values, Function.comp_def, Except.map]
    · rw [Satisfies, satisfiesAll_iff, List.all_eq_true]
      exact forall₂_congr fun p hp => (hb p hp).2
  | disj ps hne _ ih =>
    choose! b hb using fun p hp => ih p hp fun name hname => hknown name (leaves_subset_of_mem hp hname)
    refine ⟨ps.any b, ?_, ?_⟩
    · rw [degree, degrees_of_truths v os ps b fun p hp => (hb p hp).1, Except.bind,
        Truth.disjunction_degree _ (by simpa using hne) (by simp [Truth.values])]
      simp [Truth.any, Truth.values, Function.comp_def, Except.map]
    · rw [Satisfies, satisfiesAny_iff, List.any_eq_true]
      exact exists_congr fun p => and_congr_right fun hp => (hb p hp).2

end Agreement

/-- Under a valuation that gives only zero and one, a formula about the trace as a whole evaluates to one if the trace
satisfies it from its start, and to zero otherwise. -/
theorem evaluate_agrees_with_satisfaction :
    (∀ (v : Valuation O) (p : Formula) (t : Trace O), p.IsGlobal →
      (∀ name o x, v name o = .ok x → x = 0.0 ∨ x = 1.0) →
      (∀ name ∈ p.atoms, ∀ o ∈ t.toList, ∃ x, v name o = .ok x) →
      (Satisfies (fun name o => v name o = .ok 1.0) t.toList p 0 → p.evaluate v t.toList = .ok (.scalar 1.0)) ∧
      (¬ Satisfies (fun name o => v name o = .ok 1.0) t.toList p 0 →
        p.evaluate v t.toList = .ok (.scalar 0.0))) ∧
    (∀ p q : Formula, p.IsGlobal → q.IsGlobal → (p.implies q).IsGlobal ∧ (p.iff q).IsGlobal) ∧
    Traffic.safety.IsGlobal := by
  refine ⟨?_, fun p q hp hq => ⟨hp.implies hq, hp.iff hq⟩, isGlobal_safety⟩
  intro v p t hp hv hknown
  have hne : t.toList ≠ [] := by simp [Trace.toList]
  obtain ⟨b, hb, hsat⟩ := hp.degree_eq v hv t.toList hne fun name hname => hknown name ((mem_atoms _ _).mpr hname)
  rw [evaluate, if_neg (by simpa using hne), hb]
  constructor
  · intro h
    rw [hsat.mpr h]
    rfl
  · intro h
    rw [← hsat, Bool.not_eq_true] at h
    rw [h]
    rfl

end RightOfWay.Logic.Formula

namespace RightOfWay.Traffic

open Logic (Formula)

theorem evaluate_agrees_with_satisfaction_crashPasses :
    crashPasses.IsGlobal ∧
    Formula.Satisfies (fun name o => Condition.valuation name o = .ok 1.0) [.flow, .crash, .empty] crashPasses 0 ∧
    crashPasses.evaluate Condition.valuation [.flow, .crash, .empty] = .ok (.scalar 1.0) := by
  have hglobal : crashPasses.IsGlobal :=
    .and (.eventually _ (.atom _)) (.or Formula.isGlobal_safety (.neg _ (.always _ (.atom _))))
  have hsat : Formula.Satisfies (fun name o => Condition.valuation name o = .ok 1.0) [.flow, .crash, .empty]
      crashPasses 0 := by
    refine ⟨⟨1, by decide, by decide, .crash, rfl, rfl⟩, .inr (.inl ?_), trivial⟩
    intro hall
    obtain ⟨o, ho, hone⟩ := hall 0 (by decide) (by decide)
    cases ho
    exact absurd (Except.ok.inj hone) (by decide +kernel)
  have hagree := Formula.evaluate_agrees_with_satisfaction.1 Condition.valuation crashPasses
    ⟨.flow, [.crash, .empty]⟩ hglobal Condition.valuation_binary ?_
  · exact ⟨hglobal, hsat, hagree.1 hsat⟩
  · intro name hname o _
    have hatoms : crashPasses.atoms = ["crash"] := by decide +kernel
    obtain rfl : name = "crash" := by simpa [hatoms] using hname
    exact ⟨_, rfl⟩

end RightOfWay.Traffic

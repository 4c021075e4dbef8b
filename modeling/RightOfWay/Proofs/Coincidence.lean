import RightOfWay.Proofs.Extremes
import RightOfWay.Proofs.Support

namespace RightOfWay.Logic.Formula

variable {O : Type} {v w : Valuation O} {os : List O} {e : Extremum} {p : Formula} {ps : List Formula}

theorem leaves_along (e : Extremum) (p : Formula) : (e.along p).leaves = p.leaves := by
  cases e <;> rfl

theorem leaves_subset_join (e : Extremum) (hp : p ∈ ps) : p.leaves ⊆ (e.join ps).leaves := by
  have hsub := leaves_subset_of_mem hp
  cases e with
  | min => exact hsub
  | max => exact hsub

theorem exposed_along (e : Extremum) (p : Formula) : (e.along p).exposed = e.along p :: p.exposed := by
  cases e <;> rfl

theorem exposed_join (e : Extremum) (ps : List Formula) : (e.join ps).exposed = e.join ps :: ps.flatMap exposed := by
  rw [← exposedList_eq_flatMap]
  cases e <;> rfl

theorem leaves_subset_of_exposed {q : Formula} (hq : q ∈ p.exposed) : q.leaves ⊆ p.leaves := by
  induction p using inductionOn with
  | atom name =>
    obtain rfl := List.mem_singleton.mp hq
    exact List.Subset.refl _
  | truth =>
    obtain rfl := List.mem_singleton.mp hq
    exact List.Subset.refl _
  | neg p ih =>
    obtain rfl | hq := List.mem_cons.mp hq
    · exact List.Subset.refl _
    · exact ih hq
  | along e p ih =>
    rw [exposed_along] at hq
    obtain rfl | hq := List.mem_cons.mp hq
    · exact List.Subset.refl _
    · rw [leaves_along]
      exact ih hq
  | join e ps ih =>
    rw [exposed_join] at hq
    obtain rfl | hq := List.mem_cons.mp hq
    · exact List.Subset.refl _
    · obtain ⟨p, hp, hqp⟩ := List.mem_flatMap.mp hq
      exact List.Subset.trans (ih p hp hqp) (leaves_subset_join e hp)
  | untl p q _ _ =>
    obtain rfl := List.mem_singleton.mp hq
    exact List.Subset.refl _

/-- Two valuations say the same of the names of a formula at each of the observations. -/
def Coincide (v w : Valuation O) (os : List O) (p : Formula) : Prop :=
  ∀ name ∈ p.leaves, ∀ o ∈ os, v name o = w name o

theorem Coincide.of_subset {q : Formula} (h : Coincide v w os q) (hsub : p.leaves ⊆ q.leaves) : Coincide v w os p :=
  fun name hname => h name (hsub hname)

/-- The degree, or the error, is a function of what the valuation says of the names of the formula. -/
theorem degree_of_coincide (h : Coincide v w os p) : degree v os p = degree w os p := by
  induction p using inductionOn with
  | atom name =>
    have hvalues : os.map (v name) = os.map (w name) :=
      List.map_congr_left fun o ho => h name (by simp [leaves]) o ho
    rw [degree, degree, values_eq_inOrder, values_eq_inOrder, hvalues]
  | truth => rfl
  | neg p ih => rw [degree, degree, ih h]
  | along e p ih =>
    rw [degree_along, degree_along, ih (h.of_subset (by rw [leaves_along]; exact List.Subset.refl _))]
  | join e ps ih =>
    have hdegrees : ps.map (degree v os) = ps.map (degree w os) :=
      List.map_congr_left fun p hp => ih p hp (h.of_subset (leaves_subset_join e hp))
    rw [degree_join, degree_join, hdegrees]
  | untl p q _ _ => rfl

/-- An unknown name is reported because the valuation reports it for a name of the formula. -/
theorem unknown_of_degree (hos : os ≠ []) {x : String} (h : degree v os p = .error (.unknownAtom x)) :
    ∃ name ∈ p.leaves, ∃ o ∈ os, v name o = .error (.unknownAtom x) := by
  obtain ⟨before, n, after, hp, -, hn⟩ := (degree_error_iff v os hos p _).mp h
  cases hn with
  | atom name earlier later o e hos _ ho =>
    refine ⟨name, leaves_subset_of_exposed (q := .atom name) ?_ ?_, o, ?_, ho⟩
    · simp [hp]
    · simp [leaves]
    · simp [hos]

/-- Evaluation depends only on what the valuation says of the propositions of the formula, and only these can be reported
as unknown. -/
theorem evaluate_depends_on_atoms_alone (p : Formula) (t : Trace O) (v : Valuation O) :
    (∀ w : Valuation O, (∀ name ∈ p.atoms, ∀ o ∈ t.toList, v name o = w name o) →
      p.evaluate v t.toList = p.evaluate w t.toList) ∧
    ((∀ name ∈ p.atoms, ∀ o ∈ t.toList, ∀ x, v name o = .error (.unknownAtom x) → x = name) →
      ∀ x, x ∉ p.atoms → p.evaluate v t.toList ≠ .error (.unknownAtom x)) := by
  simp only [mem_atoms, evaluate_toList]
  refine ⟨fun w hw => degree_of_coincide hw, ?_⟩
  intro hnames x hx herror
  obtain ⟨name, hname, o, ho, hunknown⟩ := unknown_of_degree (by simp [Trace.toList]) herror
  obtain rfl := hnames name hname o ho x hunknown
  exact hx hname

end RightOfWay.Logic.Formula

namespace RightOfWay.Traffic

open Logic (Formula Valuation)

/-- What an observer knows who sees nothing but crashes. -/
def crashesOnly : Valuation Condition := fun name observed =>
  if name = Condition.crash.name then Condition.valuation name observed else .error (.unknownAtom name)

def crashInSmoke : Formula := .and (.atom "crash") (.atom "smoke")

/-- The observers differ in what they know of flowing traffic, of which the formula does not speak. -/
theorem evaluate_depends_on_atoms_alone_smoke :
    crashInSmoke.atoms = ["crash", "smoke"] ∧
    crashInSmoke.evaluate Condition.valuation [.flow, .crash] = .error (.unknownAtom "smoke") ∧
    crashInSmoke.evaluate Condition.valuation [.flow, .crash] = crashInSmoke.evaluate crashesOnly [.flow, .crash] ∧
    crashInSmoke.evaluate crashesOnly [.flow, .crash] ≠ .error (.unknownAtom "traffic_flow") := by
  have hatoms : crashInSmoke.atoms = ["crash", "smoke"] := rfl
  have hsmoke (o : Condition) : crashesOnly "smoke" o = .error (.unknownAtom "smoke") := rfl
  obtain ⟨hsame, -⟩ := Formula.evaluate_depends_on_atoms_alone crashInSmoke ⟨.flow, [.crash]⟩ Condition.valuation
  obtain ⟨-, hunknown⟩ := Formula.evaluate_depends_on_atoms_alone crashInSmoke ⟨.flow, [.crash]⟩ crashesOnly
  rw [hatoms] at hsame hunknown
  refine ⟨hatoms, rfl, hsame crashesOnly ?_, hunknown ?_ "traffic_flow" (by simp)⟩
  · intro name hname o _
    obtain rfl | rfl : name = "crash" ∨ name = "smoke" := by simpa using hname
    · rfl
    · rfl
  · intro name hname o _ x hx
    obtain rfl | rfl : name = "crash" ∨ name = "smoke" := by simpa using hname
    · cases o <;> cases hx
    · rw [hsmoke] at hx
      cases hx
      rfl

end RightOfWay.Traffic

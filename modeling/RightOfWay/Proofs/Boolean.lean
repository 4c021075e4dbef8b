import RightOfWay.Proofs.Binary64
import RightOfWay.Proofs.Outcome
import RightOfWay.Traffic.Rule

namespace RightOfWay.Logic

/-- One truth value, or one for each observation of a trace. -/
inductive Truth where
  | scalar (b : Bool)
  | sequence (bs : List Bool)
  deriving DecidableEq

def ofBool (b : Bool) : Float := if b then 1.0 else 0.0

/-- A valuation that gives no other degrees than zero and one. -/
def Valuation.Binary {O : Type} (v : Valuation O) : Prop :=
  ∀ name o x, v name o = .ok x → x = 0.0 ∨ x = 1.0

/-- Whether a proposition holds fully at an observation. -/
def Valuation.holds {O : Type} (v : Valuation O) (name : String) (o : O) : Bool :=
  match v name o with
  | .ok x => x == 1.0
  | .error _ => false

namespace Truth

def values : Truth → List Bool
  | .scalar b => [b]
  | .sequence bs => bs

def negate : Truth → Truth
  | .scalar b => .scalar !b
  | .sequence bs => .sequence (bs.map not)

def all (t : Truth) : Bool := t.values.all id

def any (t : Truth) : Bool := t.values.any id

def degree : Truth → Degree
  | .scalar b => .scalar (ofBool b)
  | .sequence bs => .sequence (bs.map ofBool)

end Truth

namespace Formula

variable {O : Type}

mutual

/-- The truth of a formula over observations, given the truth of its propositions. An until has none. -/
def reading (w : String → O → Bool) (os : List O) : Formula → Option Truth
  | .atom name => some (.sequence (os.map (w name)))
  | .truth => some (.scalar true)
  | .neg p => (reading w os p).map Truth.negate
  | .always p => (reading w os p).map fun t => .scalar t.all
  | .eventually p => (reading w os p).map fun t => .scalar t.any
  | .conj ps => (readings w os ps).map fun ts => .scalar (ts.all Truth.all)
  | .disj ps => (readings w os ps).map fun ts => .scalar (ts.any Truth.any)
  | .untl _ _ => none

def readings (w : String → O → Bool) (os : List O) : List Formula → Option (List Truth)
  | [] => some []
  | p :: ps => (reading w os p).bind fun t => (readings w os ps).map (t :: ·)

end

end Formula

theorem ofBool_eq_zero_or_one (b : Bool) : ofBool b = 0.0 ∨ ofBool b = 1.0 := by
  cases b with
  | false => exact .inl rfl
  | true => exact .inr rfl

theorem one_sub_ofBool (b : Bool) : 1.0 - ofBool b = ofBool !b := by
  cases b <;> decide +kernel

theorem least_ofBool (a b : Bool) : Number.least (ofBool a) (ofBool b) = ofBool (a && b) := by
  cases a <;> cases b <;> decide +kernel

theorem greatest_ofBool (a b : Bool) : Number.greatest (ofBool a) (ofBool b) = ofBool (a || b) := by
  cases a <;> cases b <;> decide +kernel

theorem least_infinity_ofBool (b : Bool) : Number.least Number.infinity (ofBool b) = ofBool b := by
  cases b <;> decide +kernel

theorem greatest_neg_infinity_ofBool (b : Bool) :
    Number.greatest (-Number.infinity) (ofBool b) = ofBool b := by
  cases b <;> decide +kernel

theorem foldl_least_ofBool (b : Bool) (bs : List Bool) :
    (bs.map ofBool).foldl Number.least (ofBool b) = ofBool (b && bs.all id) := by
  induction bs generalizing b with
  | nil => simp
  | cons c cs ih => simp [least_ofBool, ih, Bool.and_assoc]

theorem foldl_greatest_ofBool (b : Bool) (bs : List Bool) :
    (bs.map ofBool).foldl Number.greatest (ofBool b) = ofBool (b || bs.any id) := by
  induction bs generalizing b with
  | nil => simp
  | cons c cs ih => simp [greatest_ofBool, ih, Bool.or_assoc]

namespace Truth

theorem values_degree (t : Truth) : t.degree.values = t.values.map ofBool := by
  cases t with
  | scalar b => rfl
  | sequence bs => rfl

theorem values_negate (t : Truth) : t.negate.values = t.values.map not := by
  cases t with
  | scalar b => rfl
  | sequence bs => rfl

theorem complement_degree (t : Truth) : t.degree.complement = t.negate.degree := by
  cases t with
  | scalar b => exact congrArg Degree.scalar (one_sub_ofBool b)
  | sequence bs =>
    have hpoint : (fun b => 1.0 - ofBool b) = fun b => ofBool !b := funext one_sub_ofBool
    simp only [degree, negate, Degree.complement, Degree.map, List.map_map, Function.comp_def, hpoint]

theorem worst_degree (t : Truth) (ht : t.values ≠ []) : t.degree.worst = .ok (ofBool t.all) := by
  rw [Degree.worst, values_degree, all]
  cases hv : t.values with
  | nil => exact absurd hv ht
  | cons b bs => simp [Number.leastOf?, foldl_least_ofBool]

theorem best_degree (t : Truth) (ht : t.values ≠ []) : t.degree.best = .ok (ofBool t.any) := by
  rw [Degree.best, values_degree, any]
  cases hv : t.values with
  | nil => exact absurd hv ht
  | cons b bs => simp [Number.greatestOf?, foldl_greatest_ofBool]

theorem reduceAll_degree (f : Degree → Except EvalError Float) (g : Truth → Bool) (ts : List Truth)
    (hf : ∀ t ∈ ts, f t.degree = .ok (ofBool (g t))) :
    Degree.reduceAll f (ts.map degree) = .ok ((ts.map g).map ofBool) := by
  rw [Degree.reduceAll_eq_inOrder, inOrder_eq_ok_iff, List.map_map, List.map_map, List.map_map]
  exact List.map_congr_left hf

theorem conjunction_degree (ts : List Truth) (hne : ts ≠ []) (hts : ∀ t ∈ ts, t.values ≠ []) :
    Degree.conjunction (ts.map degree) = .ok (ofBool (ts.all all)) := by
  have hreduce := reduceAll_degree Degree.worst all ts fun t ht => t.worst_degree (hts t ht)
  cases ts with
  | nil => exact absurd rfl hne
  | cons t ts =>
    rw [Degree.conjunction, if_neg (by simp), hreduce]
    simp [Except.map, least_infinity_ofBool, -List.map_map, foldl_least_ofBool]

theorem disjunction_degree (ts : List Truth) (hne : ts ≠ []) (hts : ∀ t ∈ ts, t.values ≠ []) :
    Degree.disjunction (ts.map degree) = .ok (ofBool (ts.any any)) := by
  have hreduce := reduceAll_degree Degree.best any ts fun t ht => t.best_degree (hts t ht)
  cases ts with
  | nil => exact absurd rfl hne
  | cons t ts =>
    rw [Degree.disjunction, if_neg (by simp), hreduce]
    simp [Except.map, greatest_neg_infinity_ofBool, -List.map_map, foldl_greatest_ofBool]

end Truth

theorem Valuation.Binary.eq_ofBool {O : Type} {v : Valuation O} (hv : v.Binary) {name : String} {o : O}
    {x : Float} (h : v name o = .ok x) : x = ofBool (v.holds name o) := by
  rw [Valuation.holds, h]
  rcases hv name o x h with rfl | rfl
  · decide +kernel
  · decide +kernel

namespace Formula

variable {O : Type}

theorem values_eq_ofBool (v : Valuation O) (hv : v.Binary) (name : String) (os : List O) (xs : List Float)
    (h : values v name os = .ok xs) : xs = (os.map (v.holds name)).map ofBool := by
  rw [values_eq_inOrder, inOrder_eq_ok_iff] at h
  rw [List.map_map]
  exact eq_map_of_map_eq_map_ok h fun o x hx => hv.eq_ofBool hx

/-- A degree that is the image of a reading, and has a value. -/
def IsImage (d : Degree) (t : Option Truth) : Prop := ∃ b, t = some b ∧ b.values ≠ [] ∧ d = b.degree

mutual

/-- What has a degree has a reading, and the degree is its image. -/
theorem degree_isImage (v : Valuation O) (hv : v.Binary) (os : List O) (hos : os ≠ []) :
    ∀ (p : Formula) (d : Degree), degree v os p = .ok d → IsImage d (reading v.holds os p)
  | .atom name, d, h => by
    obtain ⟨xs, hxs, rfl⟩ := ok_of_map_ok h
    have himage := values_eq_ofBool v hv name os xs hxs
    exact ⟨.sequence (os.map (v.holds name)), rfl, by simpa [Truth.values] using hos, by rw [himage]; rfl⟩
  | .truth, d, h => by
    cases h
    exact ⟨.scalar true, rfl, by simp [Truth.values], rfl⟩
  | .neg p, d, h => by
    obtain ⟨d', hd', rfl⟩ := ok_of_map_ok h
    obtain ⟨b, hb, hne, rfl⟩ := degree_isImage v hv os hos p d' hd'
    exact ⟨b.negate, by rw [reading, hb]; rfl, by simpa [Truth.values_negate] using hne, b.complement_degree⟩
  | .always p, d, h => by
    obtain ⟨d', hd', hworst⟩ := ok_of_bind_ok h
    obtain ⟨b, hb, hne, rfl⟩ := degree_isImage v hv os hos p d' hd'
    rw [b.worst_degree hne] at hworst
    cases hworst
    exact ⟨.scalar b.all, by rw [reading, hb]; rfl, by simp [Truth.values], rfl⟩
  | .eventually p, d, h => by
    obtain ⟨d', hd', hbest⟩ := ok_of_bind_ok h
    obtain ⟨b, hb, hne, rfl⟩ := degree_isImage v hv os hos p d' hd'
    rw [b.best_degree hne] at hbest
    cases hbest
    exact ⟨.scalar b.any, by rw [reading, hb]; rfl, by simp [Truth.values], rfl⟩
  | .conj ps, d, h => by
    obtain ⟨ds, hds, hconj⟩ := ok_of_bind_ok h
    obtain ⟨bs, hbs, hvals, rfl⟩ := degrees_isImage v hv os hos ps ds hds
    by_cases hne : bs = []
    · subst hne
      cases hconj
    · rw [Truth.conjunction_degree bs hne hvals] at hconj
      cases hconj
      exact ⟨.scalar (bs.all Truth.all), by rw [reading, hbs]; rfl, by simp [Truth.values], rfl⟩
  | .disj ps, d, h => by
    obtain ⟨ds, hds, hdisj⟩ := ok_of_bind_ok h
    obtain ⟨bs, hbs, hvals, rfl⟩ := degrees_isImage v hv os hos ps ds hds
    by_cases hne : bs = []
    · subst hne
      cases hdisj
    · rw [Truth.disjunction_degree bs hne hvals] at hdisj
      cases hdisj
      exact ⟨.scalar (bs.any Truth.any), by rw [reading, hbs]; rfl, by simp [Truth.values], rfl⟩
  | .untl p q, d, h => by cases h

theorem degrees_isImage (v : Valuation O) (hv : v.Binary) (os : List O) (hos : os ≠ []) :
    ∀ (ps : List Formula) (ds : List Degree), degrees v os ps = .ok ds →
      ∃ bs, readings v.holds os ps = some bs ∧ (∀ b ∈ bs, b.values ≠ []) ∧ ds = bs.map Truth.degree
  | [], ds, h => by
    cases h
    exact ⟨[], rfl, by simp, rfl⟩
  | p :: ps, ds, h => by
    obtain ⟨d, hd, hrest⟩ := ok_of_bind_ok h
    obtain ⟨ds', hds', rfl⟩ := ok_of_map_ok hrest
    obtain ⟨b, hb, hne, rfl⟩ := degree_isImage v hv os hos p d hd
    obtain ⟨bs, hbs, hvals, rfl⟩ := degrees_isImage v hv os hos ps ds' hds'
    exact ⟨b :: bs, by rw [readings, hb, hbs]; rfl, by simpa using ⟨hne, hvals⟩, rfl⟩

end

theorem evaluate_isImage (v : Valuation O) (hv : v.Binary) (p : Formula) (t : Trace O) (d : Degree)
    (h : p.evaluate v t.toList = .ok d) : IsImage d (p.reading v.holds t.toList) := by
  have hne : t.toList ≠ [] := by simp [Trace.toList]
  rw [evaluate, if_neg (by simpa using hne)] at h
  exact degree_isImage v hv t.toList hne p d h

/-- Under a valuation that gives only zero and one, the degree of a formula is the image of its reading. -/
theorem evaluate_refines_reading (v : Valuation O) (hv : ∀ name o x, v name o = .ok x → x = 0.0 ∨ x = 1.0)
    (p : Formula) (t : Trace O) (d : Degree) (h : p.evaluate v t.toList = .ok d) :
    (∀ x ∈ d.values, x = 0.0 ∨ x = 1.0) ∧ ∃ b, p.reading v.holds t.toList = some b ∧ d = b.degree := by
  obtain ⟨b, hb, -, rfl⟩ := evaluate_isImage v hv p t d h
  refine ⟨?_, b, hb, rfl⟩
  intro x hx
  rw [b.values_degree] at hx
  obtain ⟨c, -, rfl⟩ := List.mem_map.mp hx
  exact ofBool_eq_zero_or_one c

end Formula

/-- Where a formula is true or false of each trace, the certificate of a batch says whether it is true of all. -/
theorem Spec.certifyAll_of_reading {O A : Type} (s : Spec O) (hv : s.valuation.Binary) (good : Trace O → Bool)
    (hread : ∀ t, s.formula.reading s.valuation.holds t.toList = some (.scalar (good t))) (ts : List (Trace O))
    (a : A) (c : Certificate A) (h : s.certifyAll ts a = .ok c) :
    ts ≠ [] ∧ c.action = a ∧ c.robustness = .scalar (ofBool (ts.all good)) := by
  obtain ⟨hdegrees, haction, x, hx, hrobust⟩ := s.certifyAll_ok ts a c h
  have hpoint (t : Trace O) (d : Degree) (hd : s.evaluate t = .ok d) : d = (Truth.scalar (good t)).degree := by
    obtain ⟨b, hb, -, rfl⟩ := Formula.evaluate_isImage s.valuation hv s.formula t d hd
    rw [hread t] at hb
    cases hb
    rfl
  have hperTrace : c.perTrace = (ts.map fun t => Truth.scalar (good t)).map Truth.degree := by
    rw [List.map_map]
    exact eq_map_of_map_eq_map_ok hdegrees hpoint
  by_cases hne : ts = []
  · subst hne
    rw [hperTrace] at hx
    cases hx
  · have hconj := Truth.conjunction_degree (ts.map fun t => .scalar (good t)) (by simpa using hne)
      (by simp [Truth.values])
    rw [hperTrace, hconj] at hx
    cases hx
    refine ⟨hne, haction, ?_⟩
    rw [hrobust]
    simp [Truth.all, Truth.values, Function.comp_def]

theorem Certificate.abides_ofBool {A : Type} (c : Certificate A) (b : Bool) (threshold : Float)
    (hpos : 0.0 < threshold) (hone : threshold ≤ 1.0) (hc : c.robustness = .scalar (ofBool b)) :
    c.abides threshold = b := by
  have habides : c.abides threshold = decide (threshold ≤ ofBool b) := by
    rw [abides, hc]
    rfl
  rw [habides]
  cases b with
  | true => exact decide_eq_true hone
  | false => exact decide_eq_false (Number.Binary64.not_le_zero_of_pos threshold hpos)

end RightOfWay.Logic

namespace RightOfWay.Traffic

open Logic (Formula Truth Valuation)

theorem Condition.valuation_binary : Valuation.Binary Condition.valuation := by
  intro name o x h
  unfold Condition.valuation at h
  split at h
  · cases h
  · cases h
    split
    · exact .inr rfl
    · exact .inl rfl

theorem Phase.valuation_binary : Valuation.Binary Phase.valuation := by
  intro name p x h
  unfold Phase.valuation at h
  split at h
  · cases h
  · cases h
    split
    · exact .inr rfl
    · exact .inl rfl

/-- There is a crash at some time, and not at all times. -/
def crashPasses : Formula := (Formula.atom "crash").eventually.and (.or safety (.neg (.always (.atom "crash"))))

theorem evaluate_refines_reading_crashPasses :
    crashPasses.evaluate Condition.valuation [.flow, .crash, .empty] = .ok (.scalar 1.0) ∧
      crashPasses.reading (Valuation.holds Condition.valuation) [.flow, .crash, .empty] =
        some (.scalar true) := by
  have h : crashPasses.evaluate Condition.valuation [.flow, .crash, .empty] = .ok (.scalar 1.0) := rfl
  obtain ⟨-, b, hb, hd⟩ := Formula.evaluate_refines_reading Condition.valuation Condition.valuation_binary
    crashPasses ⟨.flow, [.crash, .empty]⟩ (.scalar 1.0) h
  refine ⟨h, ?_⟩
  cases b with
  | sequence bs => cases hd
  | scalar c =>
    cases c with
    | true => exact hb
    | false => exact absurd (Logic.Degree.scalar.inj hd) (by decide +kernel)

end RightOfWay.Traffic

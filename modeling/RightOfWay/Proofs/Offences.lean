import RightOfWay.Logic.Meaning
import Mathlib.Tactic.Common

namespace RightOfWay.Logic

/-- The offence of a node by itself. A proposition offends with its earliest refusal. -/
inductive Offends {O : Type} (v : Valuation O) (os : List O) : Formula → EvalError → Prop where
  | untl (p q : Formula) : Offends v os (.untl p q) (.unsupported (.untl p q))
  | conj : Offends v os (.conj []) (.emptyOperands .and)
  | disj : Offends v os (.disj []) (.emptyOperands .or)
  | atom (name : String) (before after : List O) (o : O) (e : EvalError) :
      os = before ++ o :: after → (∀ x ∈ before, ∃ d, v name x = .ok d) → v name o = .error e →
      Offends v os (.atom name) e

/-- A result agrees with an offence: it is that error, or without an offence a good value. -/
inductive Settles {α : Type} (good : α → Prop) : Except EvalError α → Option EvalError → Prop where
  | ok (x : α) : good x → Settles good (.ok x) none
  | error (e : EvalError) : Settles good (.error e) (some e)

namespace Settles

variable {α β : Type} {good : α → Prop} {r : Except EvalError α} {f : Option EvalError}

/-- Continuing with something that cannot fail changes no offence. -/
theorem bind {fine : β → Prop} {k : α → Except EvalError β} (h : Settles good r f)
    (hk : ∀ x, good x → ∃ y, k x = .ok y ∧ fine y) : Settles fine (r.bind k) f := by
  cases h with
  | ok x hx =>
    obtain ⟨y, hy, hf⟩ := hk x hx
    rw [Except.bind, hy]
    exact .ok y hf
  | error e => exact .error e

theorem map {fine : β → Prop} {k : α → β} (h : Settles good r f) (hk : ∀ x, good x → fine (k x)) :
    Settles fine (r.map k) f := by
  cases h with
  | ok x hx => exact .ok (k x) (hk x hx)
  | error e => exact .error e

/-- Of two results in a row, the first offence counts. -/
theorem seq {fine : β → Prop} {γ : Type} {both : γ → Prop} {r' : Except EvalError β}
    {f' : Option EvalError} {k : α → β → γ} (h : Settles good r f) (h' : Settles fine r' f')
    (hk : ∀ x y, good x → fine y → both (k x y)) :
    Settles both (r.bind fun x => r'.map (k x)) (f.or f') := by
  cases h with
  | ok x hx => exact h'.map (fun y hy => hk x y hx hy)
  | error e => exact .error e

theorem ok_iff (h : Settles good r f) : (∃ x, r = .ok x) ↔ f = none := by
  cases h with
  | ok x _ => simp
  | error e => simp

theorem error_iff (h : Settles good r f) (e : EvalError) : r = .error e ↔ f = some e := by
  cases h with
  | ok x _ => simp
  | error e' => simp

theorem good_of_ok {x : α} (h : Settles good r f) (hr : r = .ok x) : good x := by
  cases h with
  | ok y hy => exact Except.ok.inj hr ▸ hy
  | error e => cases hr

end Settles

namespace Formula

mutual

/-- The nodes that are not strictly below an until, depth first and left to right. -/
def exposed : Formula → List Formula
  | .atom name => [.atom name]
  | .truth => [.truth]
  | .neg p => .neg p :: exposed p
  | .always p => .always p :: exposed p
  | .eventually p => .eventually p :: exposed p
  | .conj ps => .conj ps :: exposedList ps
  | .disj ps => .disj ps :: exposedList ps
  | .untl p q => [.untl p q]

def exposedList : List Formula → List Formula
  | [] => []
  | p :: ps => exposed p ++ exposedList ps

end

theorem exposedList_eq_flatMap (ps : List Formula) : exposedList ps = ps.flatMap exposed := by
  induction ps with
  | nil => rfl
  | cons p ps ih => rw [exposedList, ih, List.flatMap_cons]

variable {O : Type}

def refusal? : Except EvalError Float → Option EvalError
  | .error e => some e
  | .ok _ => none

/-- The offence of a node by itself, computed. -/
def offence? (v : Valuation O) (os : List O) : Formula → Option EvalError
  | .atom name => os.findSome? fun o => refusal? (v name o)
  | .untl p q => some (.unsupported (.untl p q))
  | .conj [] => some (.emptyOperands .and)
  | .disj [] => some (.emptyOperands .or)
  | _ => none

theorem refusal?_eq_none_iff (r : Except EvalError Float) : refusal? r = none ↔ ∃ d, r = .ok d := by
  cases r with
  | error e => simp [refusal?]
  | ok d => simp [refusal?]

theorem refusal?_eq_some_iff (r : Except EvalError Float) (e : EvalError) :
    refusal? r = some e ↔ r = .error e := by
  cases r with
  | error e' => simp [refusal?]
  | ok d => simp [refusal?]

theorem offence?_eq_some_iff (v : Valuation O) (os : List O) (p : Formula) (e : EvalError) :
    offence? v os p = some e ↔ Offends v os p e := by
  constructor
  · intro h
    cases p with
    | atom name =>
      obtain ⟨before, o, after, hos, ho, hb⟩ := List.findSome?_eq_some_iff.mp h
      exact .atom name before after o e hos (fun x hx => (refusal?_eq_none_iff _).mp (hb x hx))
        ((refusal?_eq_some_iff _ _).mp ho)
    | untl p q =>
      cases h
      exact .untl p q
    | conj ps =>
      cases ps with
      | nil => cases h; exact .conj
      | cons p ps => cases h
    | disj ps =>
      cases ps with
      | nil => cases h; exact .disj
      | cons p ps => cases h
    | truth => cases h
    | neg p => cases h
    | always p => cases h
    | eventually p => cases h
  · intro h
    cases h with
    | untl p q => rfl
    | conj => rfl
    | disj => rfl
    | atom name before after o e hos hb ho =>
      exact List.findSome?_eq_some_iff.mpr ⟨before, o, after, hos, (refusal?_eq_some_iff _ _).mpr ho,
        fun x hx => (refusal?_eq_none_iff _).mpr (hb x hx)⟩

theorem offence?_eq_none_iff (v : Valuation O) (os : List O) (p : Formula) :
    offence? v os p = none ↔ ∀ e, ¬ Offends v os p e := by
  simp only [Option.eq_none_iff_forall_ne_some, Ne, offence?_eq_some_iff]

/-- The values of a proposition fail with its offence, and are as many as the observations otherwise. -/
theorem values_settles (v : Valuation O) (name : String) (os : List O) :
    Settles (fun xs => xs.length = os.length) (values v name os) (offence? v os (.atom name)) := by
  induction os with
  | nil => exact .ok [] rfl
  | cons o os ih =>
    cases ho : v name o with
    | error e =>
      have hs : offence? v (o :: os) (.atom name) = some e := by simp [offence?, ho, refusal?]
      rw [hs, values, ho]
      exact .error e
    | ok x =>
      have hrest : offence? v (o :: os) (.atom name) = offence? v os (.atom name) := by
        simp [offence?, ho, refusal?]
      rw [hrest, values, ho]
      generalize values v name os = r, offence? v os (.atom name) = f at ih
      cases ih with
      | ok xs hl => exact .ok (x :: xs) (by simp [hl])
      | error e => exact .error e

end Formula

namespace Degree

theorem worst_ok (d : Degree) (hd : d.values ≠ []) : ∃ x, d.worst = .ok x := by
  cases hv : d.values with
  | nil => exact absurd hv hd
  | cons x xs => exact ⟨xs.foldl Number.least x, by simp [worst, hv, Number.leastOf?]⟩

theorem best_ok (d : Degree) (hd : d.values ≠ []) : ∃ x, d.best = .ok x := by
  cases hv : d.values with
  | nil => exact absurd hv hd
  | cons x xs => exact ⟨xs.foldl Number.greatest x, by simp [best, hv, Number.greatestOf?]⟩

theorem complement_values_ne_nil (d : Degree) (hd : d.values ≠ []) : d.complement.values ≠ [] := by
  cases d with
  | scalar x => simp [complement, map, values]
  | sequence xs => simpa [complement, map, values] using hd

theorem reduceAll_ok (f : Degree → Except EvalError Float) (ds : List Degree)
    (hf : ∀ d ∈ ds, ∃ x, f d = .ok x) : ∃ xs, reduceAll f ds = .ok xs := by
  induction ds with
  | nil => exact ⟨[], rfl⟩
  | cons d ds ih =>
    obtain ⟨x, hx⟩ := hf d (by simp)
    obtain ⟨xs, hxs⟩ := ih (fun d hd => hf d (by simp [hd]))
    exact ⟨x :: xs, by simp [reduceAll, hx, hxs]⟩

/-- A conjunction of degrees fails only where there are no operands. -/
theorem conjunction_ok (ds : List Degree) (hne : ds ≠ []) (hv : ∀ d ∈ ds, d.values ≠ []) :
    ∃ x, conjunction ds = .ok x := by
  obtain ⟨xs, hxs⟩ := reduceAll_ok worst ds (fun d hd => worst_ok d (hv d hd))
  exact ⟨xs.foldl Number.least Number.infinity, by simp [conjunction, hne, hxs, Except.map]⟩

theorem disjunction_ok (ds : List Degree) (hne : ds ≠ []) (hv : ∀ d ∈ ds, d.values ≠ []) :
    ∃ x, disjunction ds = .ok x := by
  obtain ⟨xs, hxs⟩ := reduceAll_ok best ds (fun d hd => best_ok d (hv d hd))
  exact ⟨xs.foldl Number.greatest (-Number.infinity), by simp [disjunction, hne, hxs, Except.map]⟩

end Degree

namespace Formula

variable {O : Type}

def firstOffence? (v : Valuation O) (os : List O) (p : Formula) : Option EvalError :=
  p.exposed.findSome? (offence? v os)

/-- A reduction that succeeds gives a degree with a value. -/
theorem scalar_of_ok {r : Except EvalError Float} (h : ∃ x, r = .ok x) :
    ∃ d, r.map Degree.scalar = .ok d ∧ d.values ≠ [] := by
  obtain ⟨x, rfl⟩ := h
  exact ⟨.scalar x, rfl, by simp [Degree.values]⟩

mutual

/-- The degree of a formula is a degree with values, or fails with the first offence. -/
theorem degree_settles (v : Valuation O) (os : List O) (hos : os ≠ []) : ∀ p : Formula,
    Settles (fun d => d.values ≠ []) (degree v os p) (firstOffence? v os p)
  | .atom name => by
    have h := values_settles v name os
    simp only [degree, firstOffence?, exposed, List.findSome?_singleton]
    refine h.map ?_
    intro xs hl
    simpa [Degree.values, ← List.length_eq_zero_iff, hl] using hos
  | .truth => .ok _ (by simp [Degree.values])
  | .neg p => by
    have h := degree_settles v os hos p
    exact h.map (fun d hd => d.complement_values_ne_nil hd)
  | .always p => by
    have h := degree_settles v os hos p
    refine h.bind ?_
    intro d hd
    exact scalar_of_ok (d.worst_ok hd)
  | .eventually p => by
    have h := degree_settles v os hos p
    refine h.bind ?_
    intro d hd
    exact scalar_of_ok (d.best_ok hd)
  -- without operands the node itself offends, before anything below it could
  | .conj [] => .error _
  | .conj (p :: ps) => by
    have h := degrees_settles v os hos (p :: ps)
    refine h.bind ?_
    intro ds hd
    exact scalar_of_ok (Degree.conjunction_ok ds (by simp [← List.length_eq_zero_iff, hd.1]) hd.2)
  | .disj [] => .error _
  | .disj (p :: ps) => by
    have h := degrees_settles v os hos (p :: ps)
    refine h.bind ?_
    intro ds hd
    exact scalar_of_ok (Degree.disjunction_ok ds (by simp [← List.length_eq_zero_iff, hd.1]) hd.2)
  | .untl p q => .error _

theorem degrees_settles (v : Valuation O) (os : List O) (hos : os ≠ []) : ∀ ps : List Formula,
    Settles (fun ds => ds.length = ps.length ∧ ∀ d ∈ ds, d.values ≠ []) (degrees v os ps)
      ((exposedList ps).findSome? (offence? v os))
  | [] => .ok [] (by simp)
  | p :: ps => by
    have hp := degree_settles v os hos p
    have hps := degrees_settles v os hos ps
    rw [exposedList, List.findSome?_append, degrees]
    refine hp.seq hps ?_
    intro d ds hd h
    exact ⟨by simp [h.1], by simpa using ⟨hd, h.2⟩⟩

end

mutual

theorem chars_append (rest : List Char) : ∀ p : Formula, chars rest p = chars [] p ++ rest
  | .atom name => by simp [chars]
  | .truth => by simp [chars]
  | .neg p => by simp [chars, chars_append (')' :: rest) p, chars_append [')'] p]
  | .always p => by simp [chars, chars_append (')' :: rest) p, chars_append [')'] p]
  | .eventually p => by simp [chars, chars_append (')' :: rest) p, chars_append [')'] p]
  | .conj ps => by simp [chars, charsList_append _ (')' :: rest) ps, charsList_append _ [')'] ps]
  | .disj ps => by simp [chars, charsList_append _ (')' :: rest) ps, charsList_append _ [')'] ps]
  | .untl p q => by
    simp only [chars]
    rw [chars_append _ p, chars_append (')' :: rest) q, chars_append (' ' :: _) p, chars_append [')'] q]
    simp

theorem charsList_append (sep rest : List Char) : ∀ ps : List Formula,
    charsList sep rest ps = charsList sep [] ps ++ rest
  | [] => by simp [charsList]
  | p :: ps => by
    simp only [charsList]
    rw [chars_append _ p, charsTail_append sep rest ps, chars_append (charsTail sep [] ps) p]
    simp

theorem charsTail_append (sep rest : List Char) : ∀ ps : List Formula,
    charsTail sep rest ps = charsTail sep [] ps ++ rest
  | [] => by simp [charsTail]
  | p :: ps => by
    simp only [charsTail]
    rw [chars_append _ p, charsTail_append sep rest ps, chars_append (charsTail sep [] ps) p]
    simp

end

theorem text_untl (p q : Formula) : (Formula.untl p q).text = "(" ++ p.text ++ " U " ++ q.text ++ ")" := by
  apply String.toList_inj.mp
  simp only [text, chars, String.toList_append, String.toList_ofList]
  rw [chars_append _ p, chars_append [')'] q]
  simp

theorem degree_ok_iff (v : Valuation O) (os : List O) (hos : os ≠ []) (p : Formula) :
    (∃ d, degree v os p = .ok d) ↔ ∀ n ∈ p.exposed, ∀ e, ¬ Offends v os n e := by
  rw [(degree_settles v os hos p).ok_iff, firstOffence?, List.findSome?_eq_none_iff]
  simp only [offence?_eq_none_iff]

theorem degree_error_iff (v : Valuation O) (os : List O) (hos : os ≠ []) (p : Formula) (e : EvalError) :
    degree v os p = .error e ↔
      ∃ before n after, p.exposed = before ++ n :: after ∧
        (∀ m ∈ before, ∀ e', ¬ Offends v os m e') ∧ Offends v os n e := by
  rw [(degree_settles v os hos p).error_iff e, firstOffence?, List.findSome?_eq_some_iff]
  simp only [offence?_eq_some_iff, offence?_eq_none_iff]
  constructor
  · rintro ⟨before, n, after, hp, hn, hb⟩
    exact ⟨before, n, after, hp, hb, hn⟩
  · rintro ⟨before, n, after, hp, hb, hn⟩
    exact ⟨before, n, after, hp, hn, hb⟩

theorem evaluate_toList (p : Formula) (v : Valuation O) (t : Trace O) :
    p.evaluate v t.toList = degree v t.toList p := rfl

/-- Over a trace, a formula fails iff an exposed node offends, and then with the first offence. -/
theorem evaluate_fails_with_first_offence (p : Formula) (v : Valuation O) :
    (∀ t : Trace O,
      ((∃ d, p.evaluate v t.toList = .ok d) ↔ ∀ n ∈ p.exposed, ∀ e, ¬ Offends v t.toList n e) ∧
      (∀ e, p.evaluate v t.toList = .error e ↔
        ∃ before n after, p.exposed = before ++ n :: after ∧
          (∀ m ∈ before, ∀ e', ¬ Offends v t.toList m e') ∧ Offends v t.toList n e) ∧
      (∀ x, p.evaluate v t.toList = .error (.emptySequence x) →
        ∃ name, .atom name ∈ p.exposed ∧ ∃ o ∈ t.toList, v name o = .error (.emptySequence x))) ∧
    p.evaluate v [] = .error .emptyTrace ∧
    (∀ q r, (EvalError.unsupported (.untl q r)).message =
      "Unsupported specification: " ++ ("(" ++ q.text ++ " U " ++ r.text ++ ")")) := by
  have empty : p.evaluate v [] = .error .emptyTrace := by simp [evaluate]
  refine ⟨?_, empty, ?_⟩
  · intro t
    have hne : t.toList ≠ [] := by simp [Trace.toList]
    rw [evaluate_toList]
    refine ⟨degree_ok_iff v _ hne p, degree_error_iff v _ hne p, ?_⟩
    intro x hx
    obtain ⟨before, n, after, hp, -, hn⟩ := (degree_error_iff v _ hne p _).mp hx
    -- of all offences only that of a proposition can be an error of its choice
    cases hn with
    | atom name earlier later o e hos _ ho => exact ⟨name, by simp [hp], o, by simp [hos], ho⟩
  · intro q r
    exact congrArg ("Unsupported specification: " ++ ·) (text_untl q r)

end Formula

end RightOfWay.Logic

import RightOfWay.Control.Fanout
import RightOfWay.Logic.Certificate
import Mathlib.Tactic.Common

namespace RightOfWay

variable {ε α β γ : Type}

theorem ok_of_map_ok {f : α → β} {r : Except ε α} {y : β} (h : r.map f = .ok y) :
    ∃ x, r = .ok x ∧ f x = y := by
  cases r with
  | error e => cases h
  | ok x => exact ⟨x, rfl, Except.ok.inj h⟩

theorem error_of_map_error {f : α → β} {r : Except ε α} {e : ε} (h : r.map f = .error e) :
    r = .error e := by
  cases r with
  | error e' => exact congrArg _ (Except.error.inj h)
  | ok x => cases h

theorem ok_of_bind_ok {f : α → Except ε β} {r : Except ε α} {y : β} (h : r.bind f = .ok y) :
    ∃ x, r = .ok x ∧ f x = .ok y := by
  cases r with
  | error e => cases h
  | ok x => exact ⟨x, rfl, h⟩

theorem exists_ok_of_isOk {σ : Type} {r : σ × Except ε α} (h : r.2.isOk = true) : ∃ s x, r = (s, .ok x) := by
  rcases r with ⟨s, e | x⟩
  · cases h
  · exact ⟨s, x, rfl⟩

theorem eq_ok_getD {r : Except ε α} (d : α) (h : r.isOk = true) : r = .ok (r.toOption.getD d) := by
  cases r with
  | error e => cases h
  | ok x => rfl

/-- The values of results in order, or the first error. -/
def inOrder : List (Except ε α) → Except ε (List α)
  | [] => .ok []
  | .error e :: _ => .error e
  | .ok x :: rs => (inOrder rs).map (x :: ·)

theorem inOrder_map_ok (xs : List α) : inOrder (xs.map .ok : List (Except ε α)) = .ok xs := by
  induction xs with
  | nil => rfl
  | cons x xs ih => rw [List.map_cons, inOrder, ih]; rfl

theorem inOrder_append_error (xs : List α) (e : ε) (rs : List (Except ε α)) :
    inOrder (xs.map .ok ++ .error e :: rs) = .error e := by
  induction xs with
  | nil => rfl
  | cons x xs ih => rw [List.map_cons, List.cons_append, inOrder, ih]; rfl

theorem inOrder_map (f : α → β) (rs : List (Except ε α)) :
    inOrder (rs.map (Except.map f)) = (inOrder rs).map (List.map f) := by
  induction rs with
  | nil => rfl
  | cons r rs ih =>
    cases r with
    | error e => rfl
    | ok x =>
      rw [List.map_cons, inOrder, Except.map, inOrder, ih]
      cases inOrder rs <;> rfl

/-- Either all results are values, or there is a first error. -/
theorem split_at_first_error (rs : List (Except ε α)) :
    (∃ xs : List α, rs = xs.map .ok) ∨ ∃ (xs : List α) (e : ε) (rest : List (Except ε α)),
      rs = xs.map .ok ++ .error e :: rest := by
  induction rs with
  | nil => exact .inl ⟨[], rfl⟩
  | cons r rs ih =>
    cases r with
    | error e => exact .inr ⟨[], e, rs, rfl⟩
    | ok x =>
      rcases ih with ⟨xs, rfl⟩ | ⟨xs, e, rest, rfl⟩
      · exact .inl ⟨x :: xs, rfl⟩
      · exact .inr ⟨x :: xs, e, rest, rfl⟩

theorem inOrder_eq_ok_iff (rs : List (Except ε α)) (xs : List α) : inOrder rs = .ok xs ↔ rs = xs.map .ok := by
  constructor
  · intro h
    rcases split_at_first_error rs with ⟨ys, rfl⟩ | ⟨ys, e, rest, rfl⟩
    · rw [inOrder_map_ok] at h
      cases h
      rfl
    · rw [inOrder_append_error] at h
      cases h
  · rintro rfl
    exact inOrder_map_ok xs

/-- Results that are values are known once each value is. -/
theorem eq_map_of_map_eq_map_ok {f : α → Except ε β} {g : α → β} {as : List α} {bs : List β}
    (h : as.map f = bs.map .ok) (hg : ∀ a b, f a = .ok b → b = g a) : bs = as.map g := by
  induction as generalizing bs with
  | nil => simpa using h
  | cons a as ih =>
    cases bs with
    | nil => cases h
    | cons b bs =>
      obtain ⟨hb, hbs⟩ := List.cons.inj h
      rw [List.map_cons, ← ih hbs, ← hg a b hb]

theorem exists_ok_of_map_eq_map_ok {f : α → Except ε β} {as : List α} {bs : List β}
    (h : as.map f = bs.map .ok) : ∀ a ∈ as, ∃ b, f a = .ok b := by
  intro a ha
  have hmem : f a ∈ bs.map Except.ok := h ▸ List.mem_map_of_mem ha
  obtain ⟨b, -, hb⟩ := List.mem_map.mp hmem
  exact ⟨b, hb.symm⟩

theorem mem_iff_of_map_eq_map_ok {f : α → Except ε β} {as : List α} {bs : List β} (h : as.map f = bs.map .ok)
    (b : β) : b ∈ bs ↔ ∃ a ∈ as, f a = .ok b := by
  rw [← List.mem_map, h]
  simp

theorem forall_mem_iff_of_map_eq_map_ok {f : α → Except ε β} {as : List α} {bs : List β}
    (h : as.map f = bs.map .ok) (P : β → Prop) : (∀ b ∈ bs, P b) ↔ ∀ a ∈ as, ∀ b, f a = .ok b → P b := by
  simp only [mem_iff_of_map_eq_map_ok h]
  exact ⟨fun hall a ha b hb => hall b ⟨a, ha, hb⟩, fun hall b ⟨a, ha, hb⟩ => hall a ha b hb⟩

theorem forall₂_of_map_eq_map_ok {f : α → Except ε β} {g : α → Except ε γ} {as : List α} {bs : List β} {cs : List γ}
    (hf : as.map f = bs.map .ok) (hg : as.map g = cs.map .ok) {r : β → γ → Prop}
    (h : ∀ a ∈ as, ∀ b c, f a = .ok b → g a = .ok c → r b c) : List.Forall₂ r bs cs := by
  induction as generalizing bs cs with
  | nil =>
    simp only [List.map_nil, List.nil_eq, List.map_eq_nil_iff] at hf hg
    rw [hf, hg]
    exact .nil
  | cons a as ih =>
    obtain ⟨b, bs, rfl, hb, hbs⟩ := List.map_eq_cons_iff.mp hf.symm
    obtain ⟨c, cs, rfl, hc, hcs⟩ := List.map_eq_cons_iff.mp hg.symm
    exact .cons (h a (by simp) b c hb.symm hc.symm) (ih hbs.symm hcs.symm fun a' ha' => h a' (by simp [ha']))

/-- Where every argument has a value, the values can be listed. -/
theorem exists_map_eq_map_ok {f : α → Except ε β} {as : List α} (h : ∀ a ∈ as, ∃ b, f a = .ok b) :
    ∃ bs : List β, as.map f = bs.map .ok := by
  induction as with
  | nil => exact ⟨[], rfl⟩
  | cons a as ih =>
    obtain ⟨b, hb⟩ := h a (by simp)
    obtain ⟨bs, hbs⟩ := ih fun a' ha' => h a' (by simp [ha'])
    exact ⟨b :: bs, by rw [List.map_cons, hb, hbs, List.map_cons]⟩

namespace Logic

variable {O : Type}

theorem Formula.values_eq_inOrder (v : Valuation O) (name : String) (os : List O) :
    Formula.values v name os = inOrder (os.map (v name)) := by
  induction os with
  | nil => rfl
  | cons o os ih =>
    rw [Formula.values, List.map_cons, ih]
    cases v name o with
    | error e => rfl
    | ok x => cases hrest : inOrder (os.map (v name)) <;> simp [inOrder, hrest, Except.map]

theorem Degree.reduceAll_eq_inOrder (f : Degree → Except EvalError Float) (ds : List Degree) :
    Degree.reduceAll f ds = inOrder (ds.map f) := by
  induction ds with
  | nil => rfl
  | cons d ds ih =>
    rw [Degree.reduceAll, List.map_cons, ih]
    cases f d with
    | error e => rfl
    | ok x => cases hrest : inOrder (ds.map f) <;> simp [inOrder, hrest, Except.map]

theorem Spec.evaluateAll_eq_inOrder (s : Spec O) (ts : List (Trace O)) :
    s.evaluateAll ts = inOrder (ts.map s.evaluate) := by
  induction ts with
  | nil => rfl
  | cons t ts ih =>
    rw [Spec.evaluateAll, List.map_cons, ih]
    cases s.evaluate t with
    | error e => rfl
    | ok d => cases hrest : inOrder (ts.map s.evaluate) <;> simp [inOrder, hrest, Except.map]

/-- The certificate of a batch has the degree of each of its traces, in order, and their conjunction. -/
theorem Spec.certifyAll_ok {A : Type} (s : Spec O) (ts : List (Trace O)) (a : A) (c : Certificate A)
    (h : s.certifyAll ts a = .ok c) :
    ts.map s.evaluate = c.perTrace.map .ok ∧ c.action = a ∧
      ∃ x, Degree.conjunction c.perTrace = .ok x ∧ c.robustness = .scalar x := by
  obtain ⟨ds, hds, hmap⟩ := ok_of_bind_ok h
  obtain ⟨x, hx, rfl⟩ := ok_of_map_ok hmap
  rw [evaluateAll_eq_inOrder, inOrder_eq_ok_iff] at hds
  exact ⟨hds, rfl, x, hx, rfl⟩

end Logic

namespace Control

/-- Outcomes of jobs are collected like all others, each failure as it is seen from outside. -/
theorem gather_eq_inOrder {R : Type} (outcomes : List (Except Failure R)) :
    gather outcomes = inOrder (outcomes.map (Except.mapError Failure.inWorker)) := by
  induction outcomes with
  | nil => rfl
  | cons r outcomes ih =>
    cases r with
    | error e => rfl
    | ok x =>
      rw [gather, ih, List.map_cons]
      cases hrest : inOrder (outcomes.map (Except.mapError Failure.inWorker)) <;>
        simp [inOrder, hrest, Except.map, Except.mapError]

end Control

end RightOfWay

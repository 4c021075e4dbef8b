import RightOfWay.Proofs.Acceptance
import RightOfWay.Proofs.FiniteTrace
import RightOfWay.Proofs.Rounding

namespace RightOfWay.Logic

open Number.Binary64

theorem Degree.values_complement (d : Degree) : d.complement.values = d.values.map fun x => 1.0 - x := by
  cases d <;> simp [complement, map, values]

namespace Extremum

def dual : Extremum → Extremum
  | .min => .max
  | .max => .min

/-- Whichever of two values is further out. -/
def pick : Extremum → Float → Float → Float
  | .min => Number.least
  | .max => Number.greatest

/-- The value that a connective starts from, to which every number is preferred. -/
def seed : Extremum → Float
  | .min => Number.infinity
  | .max => -Number.infinity

/-- One number is at least as far out as another. -/
def Leads : Extremum → Float → Float → Prop
  | .min, x, y => x ≤ y
  | .max, x, y => y ≤ x

def reduce : Extremum → Degree → Except EvalError Float
  | .min => Degree.worst
  | .max => Degree.best

def combine : Extremum → List Degree → Except EvalError Float
  | .min => Degree.conjunction
  | .max => Degree.disjunction

/-- The connective that looks for this end. -/
def join : Extremum → List Formula → Formula
  | .min => .conj
  | .max => .disj

/-- The temporal operator that looks for this end. -/
def along : Extremum → Formula → Formula
  | .min => .always
  | .max => .eventually

variable {e : Extremum} {x y z : Float}

theorem Leads.number (h : e.Leads x y) : x.isNaN = false ∧ y.isNaN = false := by
  cases e with
  | min => exact isNaN_of_le h
  | max => exact (isNaN_of_le h).symm

theorem leads_self (hx : x.isNaN = false) : e.Leads x x := by
  cases e with
  | min => exact le_self hx
  | max => exact le_self hx

theorem Leads.trans (h : e.Leads x y) (h' : e.Leads y z) : e.Leads x z := by
  cases e with
  | min => exact le_of_le_of_le h h'
  | max => exact le_of_le_of_le h' h

theorem leads_seed (hx : x.isNaN = false) : e.Leads x e.seed := by
  cases e with
  | min => exact le_infinity hx
  | max => exact neg_infinity_le hx

theorem isNaN_seed (e : Extremum) : e.seed.isNaN = false := by
  cases e <;> rfl

theorem level_eq_of_leads (h : e.Leads x y) (h' : e.Leads y x) : level x = level y := by
  obtain ⟨hx, hy⟩ := h.number
  cases e with
  | min => exact Int.le_antisymm ((le_iff_level hx hy).mp h) ((le_iff_level hy hx).mp h')
  | max => exact Int.le_antisymm ((le_iff_level hx hy).mp h') ((le_iff_level hy hx).mp h)

theorem Leads.one_sub (h : e.Leads x y) : e.dual.Leads (1.0 - x) (1.0 - y) := by
  cases e with
  | min => exact one_sub_le_one_sub h
  | max => exact one_sub_le_one_sub h

theorem pick_of_isNaN_left (e : Extremum) (y : Float) (hx : x.isNaN = true) : e.pick x y = y := by
  cases e with
  | min => exact if_pos hx
  | max => exact if_pos hx

theorem pick_of_isNaN_right (e : Extremum) (hx : x.isNaN = false) (hy : y.isNaN = true) : e.pick x y = x := by
  have hlt : ¬ y < x := fun h => ne_true_of_eq_false (isNaN_of_lt h).1 hy
  have hgt : ¬ x < y := fun h => ne_true_of_eq_false (isNaN_of_lt h).2 hy
  cases e with
  | min => exact (if_neg (ne_true_of_eq_false hx)).trans (if_neg hlt)
  | max => exact (if_neg (ne_true_of_eq_false hx)).trans (if_neg hgt)

/-- Of two numbers the first is kept unless the second is strictly further out. -/
theorem pick_cases (e : Extremum) (hx : x.isNaN = false) (hy : y.isNaN = false) :
    (e.pick x y = x ∧ e.Leads x y) ∨ (e.pick x y = y ∧ e.Leads y x ∧ ¬ e.Leads x y) := by
  cases e with
  | min =>
    have hpick : pick .min x y = if y < x then y else x := if_neg (ne_true_of_eq_false hx)
    have htotal := not_lt_iff_le hx hy
    have hlt := lt_iff_level hy hx
    have hle := le_iff_level hy hx
    by_cases h : y < x
    · exact .inr ⟨by simp [hpick, h], hle.mpr (Int.le_of_lt (hlt.mp h)), fun hxy => htotal.mpr hxy h⟩
    · exact .inl ⟨by simp [hpick, h], htotal.mp h⟩
  | max =>
    have hpick : pick .max x y = if x < y then y else x := if_neg (ne_true_of_eq_false hx)
    have htotal := not_lt_iff_le hy hx
    have hlt := lt_iff_level hx hy
    have hle := le_iff_level hx hy
    by_cases h : x < y
    · exact .inr ⟨by simp [hpick, h], hle.mpr (Int.le_of_lt (hlt.mp h)), fun hyx => htotal.mpr hyx h⟩
    · exact .inl ⟨by simp [hpick, h], htotal.mp h⟩

/-- Among numbers, the one that remains is one of them and leads all of them. -/
theorem foldl_pick (e : Extremum) (x : Float) (xs : List Float) (hxs : ∀ y ∈ x :: xs, y.isNaN = false) :
    xs.foldl e.pick x ∈ x :: xs ∧ ∀ y ∈ x :: xs, e.Leads (xs.foldl e.pick x) y := by
  induction xs generalizing x with
  | nil =>
    have hx : x.isNaN = false := hxs x (by simp)
    simpa using leads_self hx
  | cons y ys ih =>
    have hx : x.isNaN = false := hxs x (by simp)
    have hy : y.isNaN = false := hxs y (by simp)
    obtain ⟨hpick, hleads⟩ : (e.pick x y = x ∨ e.pick x y = y) ∧ e.Leads (e.pick x y) x ∧ e.Leads (e.pick x y) y := by
      obtain ⟨hpick, hlead⟩ | ⟨hpick, hlead, -⟩ := e.pick_cases hx hy
      · rw [hpick]
        exact ⟨.inl rfl, leads_self hx, hlead⟩
      · rw [hpick]
        exact ⟨.inr rfl, hlead, leads_self hy⟩
    obtain ⟨hmem, hall⟩ := ih (e.pick x y) (by
      intro z hz
      obtain rfl | hz := List.mem_cons.mp hz
      · exact hleads.1.number.1
      · exact hxs z (by simp [hz]))
    have hfirst := hall (e.pick x y) (by simp)
    rw [List.foldl_cons]
    constructor
    · obtain heq | hmem := List.mem_cons.mp hmem
      · rw [heq]
        obtain hpick | hpick := hpick <;> simp [hpick]
      · simp [hmem]
    · intro z hz
      simp only [List.mem_cons] at hz
      obtain rfl | rfl | hz := hz
      · exact hfirst.trans hleads.1
      · exact hfirst.trans hleads.2
      · exact hall z (by simp [hz])

/-- The first values go at least as far out as the second. -/
def Covers (e : Extremum) (s t : Set Float) : Prop := ∀ a ∈ t, ∃ b ∈ s, e.Leads b a

/-- A number is the end of some values if it leads all of them and one of them leads it. Which zero it is remains
open. -/
structure IsEnd (e : Extremum) (s : Set Float) (x : Float) : Prop where
  attained : ∃ y ∈ s, e.Leads y x
  leads : ∀ y ∈ s, e.Leads x y

variable {s t : Set Float}

theorem covers_of_subset (hsub : t ⊆ s) (ht : ∀ y ∈ t, y.isNaN = false) : e.Covers s t := by
  intro y hy
  exact ⟨y, hsub hy, leads_self (ht y hy)⟩

namespace IsEnd

theorem number (h : e.IsEnd s x) : x.isNaN = false := by
  obtain ⟨y, -, hy⟩ := h.attained
  exact hy.number.2

theorem numbers (h : e.IsEnd s x) : ∀ y ∈ s, y.isNaN = false := by
  intro y hy
  exact (h.leads y hy).number.2

theorem leads_of_covers (hx : e.IsEnd s x) (hy : e.IsEnd t y) (h : e.Covers s t) : e.Leads x y := by
  obtain ⟨a, ha, hay⟩ := hy.attained
  obtain ⟨b, hb, hba⟩ := h a ha
  exact ((hx.leads b hb).trans hba).trans hay

/-- Values that go equally far out have the same end. -/
theorem of_covers (h : e.IsEnd s x) (hst : e.Covers s t) (hts : e.Covers t s) : e.IsEnd t x := by
  obtain ⟨a, ha, hax⟩ := h.attained
  obtain ⟨b, hb, hba⟩ := hts a ha
  refine ⟨⟨b, hb, hba.trans hax⟩, ?_⟩
  intro y hy
  obtain ⟨c, hc, hcy⟩ := hst y hy
  exact (h.leads c hc).trans hcy

theorem beq (hx : e.IsEnd s x) (hy : e.IsEnd s y) : (x == y) = true := by
  have hcovers : e.Covers s s := covers_of_subset subset_rfl hx.numbers
  rw [beq_iff_level hx.number hy.number]
  exact level_eq_of_leads (hx.leads_of_covers hy hcovers) (hy.leads_of_covers hx hcovers)

end IsEnd

theorem reduce_eq (e : Extremum) (d : Degree) {x : Float} {xs : List Float} (hd : d.values = x :: xs) :
    e.reduce d = .ok (xs.foldl e.pick x) := by
  cases e with
  | min => simp [reduce, Degree.worst, hd, Number.leastOf?, pick]
  | max => simp [reduce, Degree.best, hd, Number.greatestOf?, pick]

theorem values_ne_nil_of_reduce {d : Degree} (h : e.reduce d = .ok x) : d.values ≠ [] := by
  intro hd
  cases e with
  | min => simp [reduce, Degree.worst, hd, Number.leastOf?] at h
  | max => simp [reduce, Degree.best, hd, Number.greatestOf?] at h

theorem exists_reduce (e : Extremum) {d : Degree} (hd : d.values ≠ []) : ∃ x, e.reduce d = .ok x := by
  cases e with
  | min => exact d.worst_ok hd
  | max => exact d.best_ok hd

theorem reduce_isEnd {d : Degree} (hd : ∀ y ∈ d.values, y.isNaN = false) (h : e.reduce d = .ok x) :
    e.IsEnd {y | y ∈ d.values} x := by
  obtain ⟨y, ys, hys⟩ := List.exists_cons_of_ne_nil (values_ne_nil_of_reduce h)
  rw [hys] at hd
  obtain ⟨hmem, hleads⟩ := e.foldl_pick y ys hd
  rw [e.reduce_eq d hys] at h
  cases h
  simp only [hys]
  exact ⟨⟨_, hmem, leads_self (hd _ hmem)⟩, hleads⟩

theorem combine_eq (e : Extremum) {ds : List Degree} (hne : ds ≠ []) :
    e.combine ds = (inOrder (ds.map e.reduce)).map (·.foldl e.pick e.seed) := by
  rw [← Degree.reduceAll_eq_inOrder]
  cases e with
  | min => exact if_neg (by simpa using hne)
  | max => exact if_neg (by simpa using hne)

theorem ne_nil_of_combine {ds : List Degree} (h : e.combine ds = .ok x) : ds ≠ [] := by
  intro hds
  subst hds
  cases e <;> cases h

theorem foldl_seed_isEnd (e : Extremum) {ws : List Float} (hne : ws ≠ []) (hws : ∀ w ∈ ws, w.isNaN = false) :
    e.IsEnd {w | w ∈ ws} (ws.foldl e.pick e.seed) := by
  obtain ⟨hmem, hleads⟩ := e.foldl_pick e.seed ws (List.forall_mem_cons.mpr ⟨isNaN_seed e, hws⟩)
  constructor
  · obtain heq | hmem := List.mem_cons.mp hmem
    · -- nothing but the seed remains if all operands are as far in as the seed itself
      obtain ⟨w, hw⟩ := List.exists_mem_of_ne_nil ws hne
      rw [heq]
      exact ⟨w, hw, leads_seed (hws w hw)⟩
    · exact ⟨_, hmem, leads_self (hws _ hmem)⟩
  · intro w hw
    exact hleads w (List.mem_cons_of_mem _ hw)

theorem combine_isEnd {ds : List Degree} (hds : ∀ d ∈ ds, ∀ y ∈ d.values, y.isNaN = false)
    (h : e.combine ds = .ok x) : e.IsEnd {y | ∃ d ∈ ds, y ∈ d.values} x := by
  have hne := ne_nil_of_combine h
  rw [e.combine_eq hne] at h
  obtain ⟨ws, hws, rfl⟩ := ok_of_map_ok h
  rw [inOrder_eq_ok_iff] at hws
  have hmem := mem_iff_of_map_eq_map_ok hws
  have hne' : ws ≠ [] := by
    intro hnil
    simp [hnil] at hws
    exact hne hws
  refine (e.foldl_seed_isEnd hne' ?_).of_covers ?_ ?_
  · intro w hw
    obtain ⟨d, hd, hdw⟩ := (hmem w).mp hw
    exact (reduce_isEnd (hds d hd) hdw).number
  · intro y hy
    obtain ⟨d, hd, hyd⟩ := hy
    obtain ⟨w, hdw⟩ := exists_ok_of_map_eq_map_ok hws d hd
    exact ⟨w, (hmem w).mpr ⟨d, hd, hdw⟩, (reduce_isEnd (hds d hd) hdw).leads y hyd⟩
  · intro w hw
    obtain ⟨d, hd, hdw⟩ := (hmem w).mp hw
    obtain ⟨y, hy, hyw⟩ := (reduce_isEnd (hds d hd) hdw).attained
    exact ⟨y, ⟨d, hd, hy⟩, hyw⟩

end Extremum

/-- No degree at the observations is a NaN. -/
def Valuation.Numeric {O : Type} (v : Valuation O) (os : List O) : Prop :=
  ∀ name, ∀ o ∈ os, ∀ x, v name o = .ok x → x.isNaN = false

namespace Formula

open Extremum

/-- Induction over formulas with both ends at once, and all operands of a connective at once. -/
theorem inductionOn {P : Formula → Prop} (atom : ∀ name, P (.atom name)) (truth : P .truth)
    (neg : ∀ p, P p → P (.neg p)) (along : ∀ (e : Extremum) p, P p → P (e.along p))
    (join : ∀ (e : Extremum) ps, (∀ p ∈ ps, P p) → P (e.join ps)) (untl : ∀ p q, P p → P q → P (.untl p q)) :
    ∀ p, P p :=
  @Formula.rec P (fun ps => ∀ p ∈ ps, P p) atom truth neg (join .min) (join .max) (along .min) (along .max) untl
    (by simp) (fun _ _ hp hps => List.forall_mem_cons.mpr ⟨hp, hps⟩)

variable {O : Type} {v : Valuation O} {os : List O} {e : Extremum} {p : Formula} {ps : List Formula}

/-- The values of a formula; it has none where it has no degree. -/
def reached (v : Valuation O) (os : List O) (p : Formula) : Set Float := {y | ∃ d, degree v os p = .ok d ∧ y ∈ d.values}

theorem degree_along (v : Valuation O) (os : List O) (e : Extremum) (p : Formula) :
    degree v os (e.along p) = (degree v os p).bind fun d => (e.reduce d).map .scalar := by
  cases e <;> rfl

theorem degree_join (v : Valuation O) (os : List O) (e : Extremum) (ps : List Formula) :
    degree v os (e.join ps) = (inOrder (ps.map (degree v os))).bind fun ds => (e.combine ds).map .scalar := by
  rw [← degrees_eq_inOrder]
  cases e <;> rfl

theorem along_ok {d : Degree} (h : degree v os (e.along p) = .ok d) :
    ∃ d' x, degree v os p = .ok d' ∧ e.reduce d' = .ok x ∧ d = .scalar x := by
  rw [degree_along] at h
  obtain ⟨d', hd', hreduce⟩ := ok_of_bind_ok h
  obtain ⟨x, hx, rfl⟩ := ok_of_map_ok hreduce
  exact ⟨d', x, hd', hx, rfl⟩

theorem join_ok {d : Degree} (h : degree v os (e.join ps) = .ok d) :
    ∃ ds x, ps.map (degree v os) = ds.map .ok ∧ e.combine ds = .ok x ∧ d = .scalar x := by
  rw [degree_join] at h
  obtain ⟨ds, hds, hcombine⟩ := ok_of_bind_ok h
  obtain ⟨x, hx, rfl⟩ := ok_of_map_ok hcombine
  exact ⟨ds, x, (inOrder_eq_ok_iff _ _).mp hds, hx, rfl⟩

theorem values_ne_nil_of_degree (hos : os ≠ []) {d : Degree} (h : degree v os p = .ok d) : d.values ≠ [] :=
  (degree_settles v os hos p).good_of_ok h

theorem exists_degree_along (hos : os ≠ []) (e : Extremum) :
    (∃ d, degree v os (e.along p) = .ok d) ↔ ∃ d, degree v os p = .ok d := by
  constructor
  · intro ⟨d, hd⟩
    obtain ⟨d', x, hd', -, -⟩ := along_ok hd
    exact ⟨d', hd'⟩
  · intro ⟨d, hd⟩
    obtain ⟨x, xs, hxs⟩ := List.exists_cons_of_ne_nil (values_ne_nil_of_degree hos hd)
    exact ⟨.scalar (xs.foldl e.pick x), by simp [degree_along, hd, Except.bind, e.reduce_eq d hxs, Except.map]⟩

theorem exists_degree_join (hos : os ≠ []) (e : Extremum) :
    (∃ d, degree v os (e.join ps) = .ok d) ↔ ps ≠ [] ∧ ∀ p ∈ ps, ∃ d, degree v os p = .ok d := by
  constructor
  · intro ⟨d, hd⟩
    obtain ⟨ds, x, hds, hx, -⟩ := join_ok hd
    refine ⟨?_, exists_ok_of_map_eq_map_ok hds⟩
    intro hnil
    simp [hnil] at hds
    exact ne_nil_of_combine hx hds
  · intro ⟨hne, hall⟩
    obtain ⟨ds, hds⟩ := exists_map_eq_map_ok hall
    have hne' : ds ≠ [] := by
      intro hnil
      simp [hnil] at hds
      exact hne hds
    have hvalues : ∀ d ∈ ds, d.values ≠ [] := by
      rw [forall_mem_iff_of_map_eq_map_ok hds]
      intro p _ d
      exact values_ne_nil_of_degree hos
    obtain ⟨x, hx⟩ : ∃ x, e.combine ds = .ok x := by
      cases e with
      | min => exact Degree.conjunction_ok ds hne' hvalues
      | max => exact Degree.disjunction_ok ds hne' hvalues
    exact ⟨.scalar x, by simp [degree_join, hds, inOrder_map_ok, Except.bind, hx, Except.map]⟩

theorem reached_of_ok {d : Degree} (h : degree v os p = .ok d) : reached v os p = {y | y ∈ d.values} := by
  ext y
  simp [reached, h]

theorem reached_scalar {x : Float} (h : degree v os p = .ok (.scalar x)) : reached v os p = {x} := by
  ext y
  simp [reached_of_ok h, Degree.values]

theorem mem_reached_atom {name : String} {xs : List Float} (h : values v name os = .ok xs) (y : Float) :
    y ∈ reached v os (.atom name) ↔ ∃ o ∈ os, v name o = .ok y := by
  have hdegree : degree v os (.atom name) = .ok (.sequence xs) := by simp [degree, h, Except.map]
  rw [values_eq_inOrder, inOrder_eq_ok_iff] at h
  simp only [reached_of_ok hdegree, Degree.values, Set.mem_ofPred_eq]
  exact mem_iff_of_map_eq_map_ok h y

theorem mem_reached_neg (y : Float) : y ∈ reached v os (.neg p) ↔ ∃ x ∈ reached v os p, y = 1.0 - x := by
  cases hd : degree v os p with
  | error err => simp [reached, degree, hd, Except.map]
  | ok d => simp [reached, degree, hd, Except.map, Degree.values_complement, eq_comm]

theorem along_isEnd {d : Degree} (hp : ∀ y ∈ reached v os p, y.isNaN = false) (h : degree v os (e.along p) = .ok d) :
    ∃ x, d = .scalar x ∧ e.IsEnd (reached v os p) x := by
  obtain ⟨d', x, hd', hx, rfl⟩ := along_ok h
  rw [reached_of_ok hd'] at hp ⊢
  exact ⟨x, rfl, reduce_isEnd hp hx⟩

theorem join_isEnd {d : Degree} (hps : ∀ p ∈ ps, ∀ y ∈ reached v os p, y.isNaN = false)
    (h : degree v os (e.join ps) = .ok d) :
    ∃ x, d = .scalar x ∧ e.IsEnd {y | ∃ p ∈ ps, y ∈ reached v os p} x := by
  obtain ⟨ds, x, hds, hx, rfl⟩ := join_ok h
  have hmem := mem_iff_of_map_eq_map_ok hds
  have hreached : {y | ∃ p ∈ ps, y ∈ reached v os p} = {y | ∃ d ∈ ds, y ∈ d.values} := by
    ext y
    simp only [reached, Set.mem_ofPred_eq, hmem]
    grind
  refine ⟨x, rfl, hreached ▸ combine_isEnd ?_ hx⟩
  intro d hd y hy
  obtain ⟨p, hp, hpd⟩ := (hmem d).mp hd
  exact hps p hp y ⟨d, hpd, hy⟩

theorem isNaN_of_reached (hv : v.Numeric os) (p : Formula) : ∀ y ∈ reached v os p, y.isNaN = false := by
  induction p using inductionOn with
  | atom name =>
    intro y ⟨d, hd, hy⟩
    obtain ⟨xs, hxs, rfl⟩ := ok_of_map_ok hd
    obtain ⟨o, ho, hoy⟩ := (mem_reached_atom hxs y).mp ⟨_, hd, hy⟩
    exact hv name o ho y hoy
  | truth =>
    intro y ⟨d, hd, hy⟩
    cases hd
    simp only [Degree.values, List.mem_singleton] at hy
    subst hy
    rfl
  | neg p ih =>
    intro y hy
    obtain ⟨x, hx, rfl⟩ := (mem_reached_neg y).mp hy
    rw [isNaN_one_sub]
    exact ih x hx
  | along e p ih =>
    intro y ⟨d, hd, hy⟩
    obtain ⟨x, rfl, hx⟩ := along_isEnd ih hd
    simp only [Degree.values, List.mem_singleton] at hy
    exact hy ▸ hx.number
  | join e ps ih =>
    intro y ⟨d, hd, hy⟩
    obtain ⟨x, rfl, hx⟩ := join_isEnd ih hd
    simp only [Degree.values, List.mem_singleton] at hy
    exact hy ▸ hx.number
  | untl p q _ _ =>
    intro y ⟨d, hd, hy⟩
    cases hd

variable (hv : v.Numeric os) (hos : os ≠ [])

include hv hos

theorem exists_value_along (e : Extremum) (hp : ∃ d, degree v os p = .ok d) :
    ∃ x, degree v os (e.along p) = .ok (.scalar x) ∧ e.IsEnd (reached v os p) x := by
  obtain ⟨d, hd⟩ := (exists_degree_along hos e).mpr hp
  obtain ⟨x, rfl, hx⟩ := along_isEnd (isNaN_of_reached hv p) hd
  exact ⟨x, hd, hx⟩

theorem exists_value_join (e : Extremum) (ps : List Formula) (hne : ps ≠ [])
    (hps : ∀ p ∈ ps, ∃ d, degree v os p = .ok d) :
    ∃ x, degree v os (e.join ps) = .ok (.scalar x) ∧ e.IsEnd {y | ∃ p ∈ ps, y ∈ reached v os p} x := by
  obtain ⟨d, hd⟩ := (exists_degree_join hos e).mpr ⟨hne, hps⟩
  obtain ⟨x, rfl, hx⟩ := join_isEnd (fun p _ => isNaN_of_reached hv p) hd
  exact ⟨x, hd, hx⟩

end Formula

end RightOfWay.Logic

import RightOfWay.Proofs.Dossiers
import RightOfWay.Proofs.Offences

namespace RightOfWay.Logic.Formula

open Control (Dossier Report)

def isNameChar (c : Char) : Bool := c.isAlphanum || c == '_'

/-- An ordinary name has characters, is made of letters, digits and underscores, and does not stand for truth. -/
structure IsName (name : String) : Prop where
  nonempty : name ≠ ""
  spelled : ∀ c ∈ name.toList, isNameChar c = true
  notTruth : name ≠ "T"

/-- A formula with ordinary names in which every conjunction and disjunction has at least two operands. -/
inductive Ordinary : Formula → Prop where
  | atom {name : String} (hname : IsName name) : Ordinary (.atom name)
  | truth : Ordinary .truth
  | neg {p : Formula} (hp : Ordinary p) : Ordinary (.neg p)
  | conj {p q : Formula} {ps : List Formula} (hps : ∀ r ∈ p :: q :: ps, Ordinary r) : Ordinary (.conj (p :: q :: ps))
  | disj {p q : Formula} {ps : List Formula} (hps : ∀ r ∈ p :: q :: ps, Ordinary r) : Ordinary (.disj (p :: q :: ps))
  | always {p : Formula} (hp : Ordinary p) : Ordinary (.always p)
  | eventually {p : Formula} (hp : Ordinary p) : Ordinary (.eventually p)
  | untl {p q : Formula} (hp : Ordinary p) (hq : Ordinary q) : Ordinary (.untl p q)

/-- How a formula is written: as a word, with a mark before its operand, or with marks between its operands. -/
inductive Form where
  | word (cs : List Char)
  | marked (mark : Char) (p : Formula)
  | joined (mark : Char) (ps : List Formula)

def form : Formula → Form
  | .atom name => .word name.toList
  | .truth => .word ['T']
  | .neg p => .marked '!' p
  | .always p => .marked 'G' p
  | .eventually p => .marked 'F' p
  | .conj ps => .joined '&' ps
  | .disj ps => .joined '|' ps
  | .untl p q => .joined 'U' [p, q]

def Form.operands : Form → List Formula
  | .word _ => []
  | .marked _ p => [p]
  | .joined _ ps => ps

def Form.chars (rest : List Char) : Form → List Char
  | .word cs => cs ++ rest
  | .marked mark p => '(' :: mark :: ' ' :: Formula.chars (')' :: rest) p
  | .joined mark ps => '(' :: charsList [' ', mark, ' '] (')' :: rest) ps

variable {p q : Formula} {ps qs : List Formula} {rest rest' cs : List Char} {mark mark' : Char}

theorem chars_eq_form (rest : List Char) (p : Formula) : chars rest p = p.form.chars rest := by
  cases p <;> simp [chars, form, Form.chars, charsList, charsTail]

/-- The form of a formula says which one it is, but for a name that is spelled like truth. -/
theorem eq_of_form_eq (hp : p ≠ .atom "T") (hq : q ≠ .atom "T") (h : p.form = q.form) : p = q := by
  have htruth (name : String) (hname : name.toList = ['T']) : name = "T" := String.toList_inj.mp hname
  cases p <;> cases q <;> simp_all [form, String.toList_inj]

/-- The form of an ordinary formula. No mark is a bracket. -/
inductive Form.Sound : Form → Prop where
  | word {cs : List Char} (hne : cs ≠ []) (hcs : ∀ c ∈ cs, isNameChar c = true) : Sound (.word cs)
  | marked {mark : Char} {p : Formula} (hmark : mark ≠ '(') (hp : p.Ordinary) : Sound (.marked mark p)
  | joined {mark : Char} {p q : Formula} {ps : List Formula} (hmark : mark ≠ '(')
      (hps : ∀ r ∈ p :: q :: ps, r.Ordinary) : Sound (.joined mark (p :: q :: ps))

theorem Ordinary.sound (hp : p.Ordinary) : p.form.Sound := by
  cases hp with
  | atom hname => exact .word (by simpa using hname.nonempty) hname.spelled
  | truth => exact .word (by simp) (by simp [isNameChar])
  | neg hp => exact .marked (by decide) hp
  | conj hps => exact .joined (by decide) hps
  | disj hps => exact .joined (by decide) hps
  | always hp => exact .marked (by decide) hp
  | eventually hp => exact .marked (by decide) hp
  | untl hp hq => exact .joined (by decide) (by simp [hp, hq])

theorem Ordinary.ne_atom_truth (hp : p.Ordinary) : p ≠ .atom "T" := by
  rintro rfl
  cases hp with
  | atom hname => exact hname.notTruth rfl

/-- Induction from the operands to the whole, whatever the form. -/
theorem Ordinary.byOperands {P : Formula → Prop} (hp : p.Ordinary)
    (step : ∀ q : Formula, q.Ordinary → (∀ r ∈ q.form.operands, P r) → P q) : P p := by
  induction hp with
  | atom hname => exact step _ (.atom hname) (by simp [form, Form.operands])
  | truth => exact step _ .truth (by simp [form, Form.operands])
  | neg hp ih => exact step _ (.neg hp) (by simpa [form, Form.operands] using ih)
  | conj hps ih => exact step _ (.conj hps) ih
  | disj hps ih => exact step _ (.disj hps) ih
  | always hp ih => exact step _ (.always hp) (by simpa [form, Form.operands] using ih)
  | eventually hp ih => exact step _ (.eventually hp) (by simpa [form, Form.operands] using ih)
  | untl hp hq ihp ihq => exact step _ (.untl hp hq) (by simp [form, Form.operands, ihp, ihq])

/-- What does not go on with a name. -/
def Apart (rest : List Char) : Prop := ∀ c ∈ rest.head?, isNameChar c = false

theorem apart_cons {c : Char} (hc : isNameChar c = false) (cs : List Char) : Apart (c :: cs) := by
  intro c' hc'
  obtain rfl := Option.some.inj hc'
  exact hc

theorem apart_charsTail (mark : Char) (rest : List Char) (ps : List Formula) :
    Apart (charsTail [' ', mark, ' '] (')' :: rest) ps) := by
  cases ps with
  | nil => exact apart_cons (by decide) _
  | cons p ps => exact apart_cons (by decide) _

theorem takeWhile_word (hcs : ∀ c ∈ cs, isNameChar c = true) (hrest : Apart rest) :
    (cs ++ rest).takeWhile isNameChar = cs := by
  have hstop : rest.takeWhile isNameChar = [] := by
    cases rest with
    | nil => rfl
    | cons c rest => exact List.takeWhile_cons_of_neg (by simp [hrest c rfl])
  rw [List.takeWhile_append_of_pos hcs, hstop, List.append_nil]

/-- A word ends where the name does. -/
theorem word_cancel {cs' : List Char} (hcs : ∀ c ∈ cs, isNameChar c = true) (hcs' : ∀ c ∈ cs', isNameChar c = true)
    (hrest : Apart rest) (hrest' : Apart rest') (h : cs ++ rest = cs' ++ rest') : cs = cs' ∧ rest = rest' := by
  have hwords : cs = cs' := by rw [← takeWhile_word hcs hrest, h, takeWhile_word hcs' hrest']
  subst hwords
  exact ⟨rfl, List.append_cancel_left h⟩

theorem word_ne_bracket (hne : cs ≠ []) (hcs : ∀ c ∈ cs, isNameChar c = true) (more : List Char) :
    cs ++ rest ≠ '(' :: more := by
  intro h
  cases cs with
  | nil => exact hne rfl
  | cons c cs =>
    obtain rfl : c = '(' := (List.cons.inj h).1
    exact absurd (hcs '(' (by simp)) (by decide)

theorem Ordinary.rest_of_single (hp : p.Ordinary) {c : Char} (hc : c ≠ '(') {more : List Char}
    (h : chars rest p = c :: ' ' :: more) : rest = ' ' :: more := by
  rw [chars_eq_form] at h
  have hsound := hp.sound
  generalize p.form = f at h hsound
  cases hsound with
  | @word cs hne hcs =>
    cases cs with
    | nil => exact absurd rfl hne
    | cons c' cs =>
      -- a second character of the word would have to be the blank
      have htail : cs ++ rest = ' ' :: more := (List.cons.inj h).2
      cases cs with
      | nil => exact htail
      | cons blank cs =>
        obtain rfl : blank = ' ' := (List.cons.inj htail).1
        exact absurd (hcs ' ' (by simp)) (by decide)
  | marked _ _ => exact absurd (List.cons.inj h).1.symm hc
  | joined _ _ => exact absurd (List.cons.inj h).1.symm hc

/-- A mark before an operand is never taken for the first of several operands, though it may be spelled like one. -/
theorem marked_ne_joined {first second : Formula} (hp : p.Ordinary) (hfirst : first.Ordinary) (hmark : mark ≠ '(')
    (hmark' : mark' ≠ '(') :
    (Form.marked mark p).chars rest ≠ (Form.joined mark' (first :: second :: ps)).chars rest' := by
  intro h
  -- the mark would be the first operand, and the mark between the operands the operand; but behind that comes a bracket
  have hword := hfirst.rest_of_single hmark (List.cons.inj h).2.symm
  have hclosed := hp.rest_of_single hmark' (List.cons.inj hword).2.symm
  exact absurd (List.cons.inj hclosed).1 (by decide)

/-- No other ordinary formula is written like this one, whatever stands behind them. -/
def Readable (p : Formula) : Prop :=
  ∀ (q : Formula) (rest rest' : List Char), q.Ordinary → Apart rest → Apart rest' →
    chars rest p = chars rest' q → p = q ∧ rest = rest'

theorem marked_cancel (hp : p.Readable) (hq : q.Ordinary)
    (h : (Form.marked mark p).chars rest = (Form.marked mark' q).chars rest') :
    Form.marked mark p = .marked mark' q ∧ rest = rest' := by
  obtain ⟨rfl, hoperands⟩ := List.cons.inj (List.cons.inj h).2
  obtain ⟨rfl, hrests⟩ := hp q _ _ hq (apart_cons (by decide) _) (apart_cons (by decide) _) (List.cons.inj hoperands).2
  exact ⟨rfl, (List.cons.inj hrests).2⟩

/-- Operands behind the first are told apart one by one. -/
theorem charsTail_cancel (hps : ∀ p ∈ ps, p.Readable) (hqs : ∀ q ∈ qs, q.Ordinary)
    (h : charsTail [' ', mark, ' '] (')' :: rest) ps = charsTail [' ', mark', ' '] (')' :: rest') qs) :
    ps = qs ∧ rest = rest' := by
  -- a blank stands before each further operand, and a bracket behind the last
  induction ps generalizing qs with
  | nil =>
    cases qs with
    | nil => exact ⟨rfl, (List.cons.inj h).2⟩
    | cons q qs => exact absurd (List.cons.inj h).1 (by decide)
  | cons p ps ih =>
    cases qs with
    | nil => exact absurd (List.cons.inj h).1 (by decide)
    | cons q qs =>
      have hoperands : chars (charsTail [' ', mark, ' '] (')' :: rest) ps) p =
          chars (charsTail [' ', mark', ' '] (')' :: rest') qs) q :=
        (List.cons.inj (List.cons.inj (List.cons.inj h).2).2).2
      obtain ⟨rfl, htails⟩ := hps p (by simp) q _ _ (hqs q (by simp)) (apart_charsTail _ _ _) (apart_charsTail _ _ _)
        hoperands
      obtain ⟨rfl, hrests⟩ := ih (fun r hr => hps r (by simp [hr])) (fun r hr => hqs r (by simp [hr])) htails
      exact ⟨rfl, hrests⟩

theorem joined_cancel {first second first' second' : Formula} (hps : ∀ r ∈ first :: second :: ps, r.Readable)
    (hqs : ∀ r ∈ first' :: second' :: qs, r.Ordinary)
    (h : (Form.joined mark (first :: second :: ps)).chars rest =
      (Form.joined mark' (first' :: second' :: qs)).chars rest') :
    Form.joined mark (first :: second :: ps) = .joined mark' (first' :: second' :: qs) ∧ rest = rest' := by
  obtain ⟨hfirst, hlater⟩ := List.forall_mem_cons.mp hps
  obtain ⟨hfirst', hlater'⟩ := List.forall_mem_cons.mp hqs
  obtain ⟨rfl, htails⟩ := hfirst first' _ _ hfirst' (apart_charsTail _ _ _) (apart_charsTail _ _ _) (List.cons.inj h).2
  obtain rfl : mark = mark' := (List.cons.inj (List.cons.inj htails).2).1
  obtain ⟨hothers, rfl⟩ := charsTail_cancel hlater hlater' htails
  rw [hothers]
  exact ⟨rfl, rfl⟩

/-- Forms with readable operands are told apart by how they begin. -/
theorem Form.Sound.cancel {f g : Form} (hf : f.Sound) (hg : g.Sound) (hread : ∀ r ∈ f.operands, r.Readable)
    (hrest : Apart rest) (hrest' : Apart rest') (h : f.chars rest = g.chars rest') : f = g ∧ rest = rest' := by
  cases hf with
  | word hne hcs =>
    cases hg with
    | word hne' hcs' =>
      obtain ⟨rfl, rfl⟩ := word_cancel hcs hcs' hrest hrest' h
      exact ⟨rfl, rfl⟩
    | marked _ _ => exact absurd h (word_ne_bracket hne hcs _)
    | joined _ _ => exact absurd h (word_ne_bracket hne hcs _)
  | marked hmark hp =>
    cases hg with
    | word hne' hcs' => exact absurd h.symm (word_ne_bracket hne' hcs' _)
    | marked _ hq => exact marked_cancel (hread _ (List.mem_singleton_self _)) hq h
    | joined hmark' hqs => exact absurd h (marked_ne_joined hp (hqs _ List.mem_cons_self) hmark hmark')
  | joined hmark hps =>
    cases hg with
    | word hne' hcs' => exact absurd h.symm (word_ne_bracket hne' hcs' _)
    | marked hmark' hq => exact absurd h.symm (marked_ne_joined hq (hps _ List.mem_cons_self) hmark' hmark)
    | joined _ hqs => exact joined_cancel hread hqs h

theorem Ordinary.readable_of_operands (hp : p.Ordinary) (hread : ∀ r ∈ p.form.operands, r.Readable) : p.Readable := by
  intro q rest rest' hq hrest hrest' h
  rw [chars_eq_form, chars_eq_form] at h
  obtain ⟨hforms, hrests⟩ := hp.sound.cancel hq.sound hread hrest hrest' h
  exact ⟨eq_of_form_eq hp.ne_atom_truth hq.ne_atom_truth hforms, hrests⟩

theorem Ordinary.readable (hp : p.Ordinary) : p.Readable :=
  hp.byOperands fun _ hp hread => hp.readable_of_operands hread

theorem Ordinary.eq_of_text_eq (hp : p.Ordinary) (hq : q.Ordinary) (h : p.text = q.text) : p = q := by
  have hempty : Apart [] := by simp [Apart]
  exact (hp.readable q [] [] hq hempty hempty (String.ofList_inj.mp h)).1

theorem exposed_cases {n : Formula} (hn : n ∈ p.exposed) : n = p ∨ ∃ r ∈ p.form.operands, n ∈ r.exposed := by
  cases p <;> simp_all [exposed, form, Form.operands, exposedList_eq_flatMap]

theorem Ordinary.of_exposed {n : Formula} (hp : p.Ordinary) : n ∈ p.exposed → n.Ordinary := by
  apply hp.byOperands (P := fun q => n ∈ q.exposed → n.Ordinary)
  intro q hq ih hn
  obtain rfl | ⟨r, hr, hn⟩ := exposed_cases hn
  · exact hq
  · exact ih r hr hn

/-- Ordinary formulas with the same text are the same, so a message or a dossier tells which formula it is about. -/
theorem ordinary_text_identifies_formula (hp : p.Ordinary) (hq : q.Ordinary) :
    (p.text = q.text → p = q) ∧
    (∀ n ∈ p.exposed, (EvalError.unsupported n).message = (EvalError.unsupported q).message → n = q) ∧
    ∀ {A O : Type} (actionText : A → String) (label : O → String) (rule : String) (seed : UInt64) (threshold : Float)
      (reports : List (Report A O)),
      (reports.foldl (fun d r => d.add actionText label r) (Dossier.start rule p.text seed threshold)).formula =
        q.text → p = q := by
  refine ⟨hp.eq_of_text_eq hq, ?_, ?_⟩
  · intro n hn hmessage
    apply (hp.of_exposed hn).eq_of_text_eq hq
    exact (String.append_right_inj _).mp hmessage
  · intro A O actionText label rule seed threshold reports htext
    rw [Dossier.foldl_add, Dossier.add_eq] at htext
    exact hp.eq_of_text_eq hq htext

-- a single operand, the name of truth and a name with brackets are ambiguous
example : (Formula.conj [.atom "x"]).text = (Formula.disj [.atom "x"]).text ∧
    (Formula.atom "T").text = Formula.truth.text ∧
    (Formula.atom "(G x)").text = (Formula.always (.atom "x")).text := ⟨rfl, rfl, rfl⟩

/-- Propositions that are called like operators do no harm. -/
theorem ordinary_text_identifies_formula_letters :
    (Formula.untl (.atom "G") (.atom "U")).text = "(G U U)" ∧
    (Formula.always (.atom "U")).text = "(G U)" ∧
    (Formula.untl (.atom "G") (.atom "U")).text ≠ (Formula.always (.atom "U")).text ∧
    (EvalError.unsupported (.untl (.atom "G") (.atom "U"))).message ≠
      (EvalError.unsupported (.always (.atom "U"))).message ∧
    (Dossier.start "guard" (Formula.untl (.atom "G") (.atom "U")).text 42 1.0).formula ≠
      (Formula.always (.atom "U")).text := by
  have hG : IsName "G" := ⟨by decide, by simp [isNameChar], by decide⟩
  have hU : IsName "U" := ⟨by decide, by simp [isNameChar], by decide⟩
  obtain ⟨htexts, hmessages, hdossiers⟩ := ordinary_text_identifies_formula
    ((Ordinary.atom hG).untl (.atom hU)) (Ordinary.atom hU).always
  refine ⟨rfl, rfl, ?_, ?_, ?_⟩
  · intro h
    cases htexts h
  · intro h
    cases hmessages _ (by simp [exposed]) h
  · intro h
    cases hdossiers (fun _ : Unit => "") (fun _ : Unit => "") "guard" 42 1.0 [] h

end RightOfWay.Logic.Formula

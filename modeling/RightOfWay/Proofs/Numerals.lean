import RightOfWay.Json.Value
import Mathlib.Data.List.DropRight
import Mathlib.Tactic.Common

namespace RightOfWay.Json

open Number (digitValue ofDigits spanDigits Decimal Magnitude Layout zeros positional)

def fractionText : Option (List Char) → List Char
  | none => []
  | some ds => '.' :: ds

def exponentText : Option (Bool × List Char) → List Char
  | none => []
  | some (negative, ds) => 'e' :: (if negative then '-' else '+') :: ds

def Numeral.text (n : Numeral) : List Char :=
  (if n.negative then ['-'] else []) ++ (n.whole ++ (fractionText n.fraction ++ exponentText n.exponent))

/-- A row of digits that is not empty. -/
def IsDigits (ds : List Char) : Prop := ds ≠ [] ∧ ∀ c ∈ ds, c.isDigit = true

structure Numeral.WellFormed (n : Numeral) : Prop where
  isWhole : isWhole n.whole = true
  whole : ∀ c ∈ n.whole, c.isDigit = true
  fraction : ∀ ds, n.fraction = some ds → IsDigits ds
  exponent : ∀ negative ds, n.exponent = some (negative, ds) → IsDigits ds

/-- What comes first cannot go on with a numeral. -/
def Detached (cs : List Char) : Prop := ∀ c ∈ cs.head?, c.isDigit = false ∧ c ≠ '.' ∧ c ≠ 'e' ∧ c ≠ 'E'

theorem detached_nil : Detached [] := by simp [Detached]

theorem spanDigits_append (ds rest : List Char) (hds : ∀ c ∈ ds, c.isDigit = true)
    (hrest : ∀ c ∈ rest.head?, c.isDigit = false) : spanDigits (ds ++ rest) = (ds, rest) := by
  have hstop : rest.takeWhile Char.isDigit = [] ∧ rest.dropWhile Char.isDigit = rest := by
    cases rest with
    | nil => simp
    | cons c cs => simp [hrest c rfl]
  rw [spanDigits, List.takeWhile_append_of_pos hds, List.dropWhile_append_of_pos hds, hstop.1, hstop.2,
    List.append_nil]

theorem scanMinus_digits (ds rest : List Char) (hne : ds ≠ []) (hds : ∀ c ∈ ds, c.isDigit = true) :
    scanMinus (ds ++ rest) = (false, ds ++ rest) := by
  cases ds with
  | nil => exact absurd rfl hne
  | cons c cs =>
    have hc : c ≠ '-' := by
      rintro rfl
      exact absurd (hds '-' (by simp)) (by decide)
    simp [scanMinus, hc]

theorem scanFraction_text (fraction : Option (List Char)) (rest : List Char)
    (hfraction : ∀ ds, fraction = some ds → IsDigits ds)
    (hrest : ∀ c ∈ rest.head?, c.isDigit = false ∧ c ≠ '.') :
    scanFraction (fractionText fraction ++ rest) = some (fraction, rest) := by
  cases fraction with
  | none =>
    cases rest with
    | nil => rfl
    | cons c cs => simp [fractionText, scanFraction, (hrest c rfl).2]
  | some ds =>
    obtain ⟨hne, hds⟩ := hfraction ds rfl
    have hspan := spanDigits_append ds rest hds fun c hc => (hrest c hc).1
    simp [fractionText, scanFraction, hspan, hne]

theorem scanExponent_text (exponent : Option (Bool × List Char)) (rest : List Char)
    (hexponent : ∀ negative ds, exponent = some (negative, ds) → IsDigits ds)
    (hrest : ∀ c ∈ rest.head?, c.isDigit = false ∧ c ≠ 'e' ∧ c ≠ 'E') :
    scanExponent (exponentText exponent ++ rest) = some (exponent, rest) := by
  rcases exponent with _ | ⟨negative, ds⟩
  · cases rest with
    | nil => rfl
    | cons c cs => simp [exponentText, scanExponent, (hrest c rfl).2]
  · obtain ⟨hne, hds⟩ := hexponent negative ds rfl
    have hspan := spanDigits_append ds rest hds fun c hc => (hrest c hc).1
    cases negative <;> simp [exponentText, scanExponent, scanSign, scanMinus, hspan, hne]

theorem Numeral.scan_text (n : Numeral) (h : n.WellFormed) (rest : List Char) (hrest : Detached rest) :
    Numeral.scan (n.text ++ rest) = some (n, rest) := by
  have hne : n.whole ≠ [] := by
    intro hnil
    have hwhole := h.isWhole
    rw [hnil] at hwhole
    cases hwhole
  -- each part ends where the next one begins, with a character that is not its own
  have hexponent := scanExponent_text n.exponent rest h.exponent fun c hc =>
    ⟨(hrest c hc).1, (hrest c hc).2.2⟩
  have hfraction := scanFraction_text n.fraction (exponentText n.exponent ++ rest) h.fraction (by
    rcases n.exponent with _ | ⟨negative, ds⟩
    · exact fun c hc => ⟨(hrest c hc).1, (hrest c hc).2.1⟩
    · simp [exponentText])
  have hspan := spanDigits_append n.whole (fractionText n.fraction ++ (exponentText n.exponent ++ rest)) h.whole (by
    rcases n.fraction with _ | ds
    · rcases n.exponent with _ | ⟨negative, ds⟩
      · exact fun c hc => (hrest c hc).1
      · simp [fractionText, exponentText]
    · simp [fractionText])
  have hminus : scanMinus (n.text ++ rest) =
      (n.negative, n.whole ++ (fractionText n.fraction ++ (exponentText n.exponent ++ rest))) := by
    rw [text]
    cases n.negative with
    | true => simp [scanMinus]
    | false =>
      have hdigits := scanMinus_digits n.whole (fractionText n.fraction ++ (exponentText n.exponent ++ rest)) hne h.whole
      simpa using hdigits
  rw [scan, hminus]
  dsimp only
  rw [hspan, if_pos h.isWhole, hfraction]
  dsimp only
  rw [hexponent]

theorem scanNumber_text (n : Numeral) (h : n.WellFormed) (rest : List Char) (hrest : Detached rest) :
    scanNumber (n.text ++ rest) = some (n.value, rest) := by
  rw [scanNumber, n.scan_text h rest hrest]

theorem isDigits_toDigits (n : Nat) : IsDigits (Nat.toDigits 10 n) :=
  ⟨Nat.toDigits_ne_nil, fun _ hc => Nat.isDigit_of_mem_toDigits (by decide) (by decide) hc⟩

theorem head?_toDigits (n : Nat) (h : 0 < n) : (Nat.toDigits 10 n).head? ≠ some '0' := by
  induction n using Nat.strongRecOn with
  | ind n ih =>
    rw [Nat.toDigits_eq_if (by decide)]
    split
    · have hdigit : Nat.digitChar n ≠ '0' := by simp; omega
      simpa using hdigit
    · have hprefix := ih (n / 10) (by omega) (by omega)
      rwa [List.head?_append_of_ne_nil _ Nat.toDigits_ne_nil]

theorem isWhole_of_head? {ds : List Char} (hne : ds ≠ []) (hhead : ds.head? ≠ some '0') : isWhole ds = true := by
  cases ds with
  | nil => exact absurd rfl hne
  | cons c cs =>
    have hc : c ≠ '0' := by simpa using hhead
    unfold isWhole
    split <;> simp_all

theorem isWhole_singleton (c : Char) : isWhole [c] = true := by
  unfold isWhole
  split <;> simp_all

theorem isWhole_toDigits (n : Nat) : isWhole (Nat.toDigits 10 n) = true := by
  by_cases hn : 0 < n
  · exact isWhole_of_head? Nat.toDigits_ne_nil (head?_toDigits n hn)
  · have hzero : n = 0 := by omega
    subst hzero
    rfl

def intNumeral (i : Int) : Numeral := ⟨i < 0, Nat.toDigits 10 i.natAbs, none, none⟩

theorem intNumeral_wellFormed (i : Int) : (intNumeral i).WellFormed :=
  ⟨isWhole_toDigits _, (isDigits_toDigits _).2, by simp [intNumeral], by simp [intNumeral]⟩

theorem intText_eq (i : Int) : intText i = (intNumeral i).text := by
  by_cases hi : i < 0 <;> simp [intText, Numeral.text, intNumeral, fractionText, exponentText, hi]

theorem le_foldl_digits (ds : List Char) (n : Nat) : n ≤ ds.foldl (fun n c => n * 10 + digitValue c) n := by
  induction ds generalizing n with
  | nil => exact Nat.le_refl n
  | cons c cs ih =>
    have hstep := ih (n * 10 + digitValue c)
    rw [List.foldl_cons]
    omega

/-- Digits whose number fits in 64 bits are absorbed to the last one. -/
theorem absorb_eq (ds : List Char) (n : Nat)
    (h : ds.foldl (fun n c => n * 10 + digitValue c) n < UInt64.size) :
    absorb n ds = (ds.foldl (fun n c => n * 10 + digitValue c) n, []) := by
  induction ds generalizing n with
  | nil => rfl
  | cons c cs ih =>
    rw [List.foldl_cons] at h ⊢
    have hfits : n * 10 + digitValue c < UInt64.size := Nat.lt_of_le_of_lt (le_foldl_digits cs _) h
    rw [absorb, if_pos hfits, ih _ h]

theorem ofDigits_toDigits (n : Nat) : ofDigits (Nat.toDigits 10 n) = n := by
  have hcore : Nat.ofDigitChars 10 (Nat.toDigits 10 n) 0 = n := Nat.ofDigitChars_toDigits (by decide) (by decide)
  rw [Nat.ofDigitChars_eq_foldl] at hcore
  simp only [Nat.mul_comm 10] at hcore
  exact hcore

theorem absorb_toDigits (n : Nat) (h : n < UInt64.size) : absorb 0 (Nat.toDigits 10 n) = (n, []) := by
  have hvalue := ofDigits_toDigits n
  rw [ofDigits] at hvalue
  rw [absorb_eq _ _ (by rwa [hvalue]), hvalue]

theorem value_intNumeral (i : Int) (hlow : -(UInt64.size : Int) ≤ 2 * i) (hhigh : i < UInt64.size) :
    (intNumeral i).value = some (.int i) := by
  have habsorb := absorb_toDigits i.natAbs (by omega)
  by_cases hi : i < 0
  · have hzero : i.natAbs ≠ 0 := by omega
    have hfits : ¬ UInt64.size < 2 * i.natAbs := by omega
    have hneg : -(i.natAbs : Int) = i := by omega
    simp only [intNumeral, Numeral.value, habsorb, hi, hzero, hfits, hneg]
    simp
  · have hpos : (i.natAbs : Int) = i := by omega
    simp [intNumeral, Numeral.value, habsorb, hi, hpos]

/-- Digits as they are laid out: those of a number without the zeros behind it, or none for zero. -/
structure Laid (ds : List Char) (point : Int) : Prop where
  digits : ∀ c ∈ ds, c.isDigit = true
  head : ds.head? ≠ some '0'
  empty : ds = [] → point = 1

theorem isDigit_of_mem_zeros {n : Int} {c : Char} (h : c ∈ zeros n) : c.isDigit = true := by
  rw [List.eq_of_mem_replicate h]
  rfl

/-- The shortest decimal of a magnitude has a digit other than zero, unless none was found. -/
theorem shortest_digits (m : Magnitude) (tie : Number.Tie) :
    m.shortest tie = ⟨0, 0⟩ ∨ 0 < (m.shortest tie).digits := by
  rw [Magnitude.shortest]
  cases hfind : (List.range 17).findSome? fun n => m.onGrid? tie (m.decimalPoint - (n + 1 : Nat)) with
  | none => exact .inl rfl
  | some d =>
    right
    obtain ⟨n, -, hgrid⟩ := List.exists_of_findSome?_eq_some hfind
    rw [Option.getD_some]
    unfold Magnitude.onGrid? at hgrid
    simp only [Bool.and_eq_true, bne_iff_ne] at hgrid
    grind

theorem significand_laid (d : Decimal) (h : d = ⟨0, 0⟩ ∨ 0 < d.digits) :
    Laid d.significand.1 d.significand.2 := by
  rcases h with rfl | hpos
  · have hzero : (⟨0, 0⟩ : Decimal).significand = ([], 1) := rfl
    rw [hzero]
    exact ⟨by simp, by simp, fun _ => rfl⟩
  have hkept : d.significand.1 = (Nat.toDigits 10 d.digits).rdropWhile (· == '0') := rfl
  obtain ⟨dropped, hsplit⟩ := List.rdropWhile_prefix (· == '0') (Nat.toDigits 10 d.digits)
  have hhead := head?_toDigits d.digits hpos
  -- were all digits zeros, the first one would be
  have hne : d.significand.1 ≠ [] := by
    rw [hkept, Ne, List.rdropWhile_eq_nil_iff]
    intro hzeros
    obtain ⟨c, cs, hcons⟩ := List.exists_cons_of_ne_nil (Nat.toDigits_ne_nil (n := d.digits) (b := 10))
    have hc : (c == '0') = true := hzeros c (by simp [hcons])
    simp [hcons] at hhead
    simp_all
  refine ⟨?_, ?_, fun hnil => absurd hnil hne⟩
  · intro c hc
    apply (isDigits_toDigits d.digits).2
    rw [← hsplit, ← hkept]
    exact List.mem_append_left _ hc
  · rwa [← hsplit, ← hkept, List.head?_append_of_ne_nil _ hne] at hhead

/-- The numerals without a sign. -/
def IsUnsigned (cs : List Char) : Prop := ∃ n : Numeral, n.WellFormed ∧ n.negative = false ∧ cs = n.text

theorem positional_isUnsigned {ds : List Char} {point : Int} (h : Laid ds point) : IsUnsigned (positional ds point) := by
  have hzeros (k : Int) : ∀ c ∈ zeros k, c.isDigit = true := fun c hc => isDigit_of_mem_zeros hc
  unfold positional
  split_ifs with hlow hlong
  · have hne : ds ≠ [] := fun hnil => by have := h.empty hnil; omega
    have hfraction : IsDigits (zeros (-point) ++ ds) :=
      ⟨by simp [hne], fun c hc => (List.mem_append.mp hc).elim (hzeros _ c) (h.digits c)⟩
    exact ⟨⟨false, ['0'], some (zeros (-point) ++ ds), none⟩,
      ⟨rfl, by simp, by simpa using hfraction, by simp⟩, rfl,
      by simp [Numeral.text, fractionText, exponentText]⟩
  · have hwhole : isWhole (ds ++ zeros (point - ds.length)) = true := by
      by_cases hnil : ds = []
      · subst hnil
        have hpoint := h.empty rfl
        subst hpoint
        rfl
      · exact isWhole_of_head? (by simp [hnil]) (by rw [List.head?_append_of_ne_nil _ hnil]; exact h.head)
    have hdigits : ∀ c ∈ ds ++ zeros (point - ds.length), c.isDigit = true :=
      fun c hc => (List.mem_append.mp hc).elim (h.digits c) (hzeros _ c)
    exact ⟨⟨false, ds ++ zeros (point - ds.length), some ['0'], none⟩,
      ⟨hwhole, hdigits, by simp [IsDigits], by simp⟩, rfl,
      by simp [Numeral.text, fractionText, exponentText]⟩
  · have hsplit : 0 < point.toNat ∧ point.toNat < ds.length := by omega
    have hwhole : isWhole (ds.take point.toNat) = true := by
      apply isWhole_of_head?
      · simp
        exact ⟨by omega, fun hnil => by simp [hnil] at hsplit⟩
      · rw [List.head?_take, if_neg (by omega)]
        exact h.head
    have hfraction : IsDigits (ds.drop point.toNat) :=
      ⟨by simp; omega, fun c hc => h.digits c (List.mem_of_mem_drop hc)⟩
    exact ⟨⟨false, ds.take point.toNat, some (ds.drop point.toNat), none⟩,
      ⟨hwhole, fun c hc => h.digits c (List.mem_of_mem_take hc), by simpa using hfraction, by simp⟩, rfl,
      by simp [Numeral.text, fractionText, exponentText]⟩

theorem scientific_isUnsigned {ds : List Char} {point : Int} (h : Laid ds point) (hne : ds ≠ []) :
    IsUnsigned (floatLayout.scientific ds point) := by
  obtain ⟨d, more, rfl⟩ := List.exists_cons_of_ne_nil hne
  have hsign : (if point - 1 < 0 then ['-'] else floatLayout.exponentSign.toList) =
      [if point - 1 < 0 then '-' else '+'] := by
    split <;> rfl
  have hd : d.isDigit = true := h.digits d (by simp)
  have hexponent := isDigits_toDigits (point - 1).natAbs
  refine ⟨⟨false, [d], if more = [] then none else some more,
    some (decide (point - 1 < 0), Nat.toDigits 10 (point - 1).natAbs)⟩, ⟨isWhole_singleton d, by simpa using hd, ?_, ?_⟩,
    rfl, ?_⟩
  · intro ds hds
    have hmore : more ≠ [] ∧ more = ds := by simpa using hds
    rw [← hmore.2]
    exact ⟨hmore.1, fun c hc => h.digits c (by simp [hc])⟩
  · intro negative ds hds
    simp only [Option.some.injEq, Prod.mk.injEq] at hds
    rw [← hds.2]
    exact hexponent
  · rw [Layout.scientific, hsign]
    cases more <;> simp [Numeral.text, fractionText, exponentText]

theorem magnitude_isUnsigned (m : Magnitude) : IsUnsigned (floatLayout.magnitude m) := by
  have hlaid := significand_laid _ (shortest_digits m floatLayout.tie)
  unfold Layout.magnitude
  dsimp only
  split_ifs with hrange
  · exact positional_isUnsigned hlaid
  · apply scientific_isUnsigned hlaid
    intro hnil
    have hpoint := hlaid.empty hnil
    rw [hpoint] at hrange
    exact hrange (by decide)

/-- What is written for a binary64 value is a numeral, or nothing but an absent value. -/
theorem floatText_cases (x : Float) :
    floatLayout.write x = "null".toList ∨ ∃ n : Numeral, n.WellFormed ∧ floatLayout.write x = n.text := by
  have hsigned (cs : List Char) (h : IsUnsigned cs) :
      ∃ n : Numeral, n.WellFormed ∧ (if Number.isNegative x then ['-'] else []) ++ cs = n.text := by
    obtain ⟨n, hn, hplus, rfl⟩ := h
    refine ⟨{ n with negative := Number.isNegative x }, ⟨hn.isWhole, hn.whole, hn.fraction, hn.exponent⟩, ?_⟩
    simp [Numeral.text, hplus]
  unfold Layout.write
  dsimp only
  cases Number.kind x with
  | nan => exact .inl rfl
  | infinite =>
    left
    dsimp only
    split <;> rfl
  | zero =>
    have hzero : IsUnsigned ['0', '.', '0'] :=
      ⟨⟨false, ['0'], some ['0'], none⟩, ⟨rfl, by simp, by simp [IsDigits], by simp⟩, rfl, rfl⟩
    exact .inr (hsigned _ hzero)
  | finite m => exact .inr (hsigned _ (magnitude_isUnsigned m))

end RightOfWay.Json

import RightOfWay.Control.Dossier
import RightOfWay.Proofs.Acceptance
import RightOfWay.Proofs.Repetitions

namespace RightOfWay.Number

open Binary64

theorem least_mem (x y : Float) : least x y = x ∨ least x y = y := by
  rw [least]
  split
  · exact .inr rfl
  · split
    · exact .inr rfl
    · exact .inl rfl

theorem foldl_least_mem (x : Float) (xs : List Float) : xs.foldl least x = x ∨ xs.foldl least x ∈ xs := by
  induction xs generalizing x with
  | nil => exact .inl rfl
  | cons y ys ih =>
    rw [List.foldl_cons]
    rcases ih (least x y) with hfirst | hlater
    · rw [hfirst]
      rcases least_mem x y with hx | hy
      · exact .inl hx
      · rw [hy]
        exact .inr List.mem_cons_self
    · exact .inr (List.mem_cons_of_mem y hlater)

variable {xs : List Float}

theorem isNaN_foldl_least_infinity (xs : List Float) : (xs.foldl least infinity).isNaN = false := by
  rw [isNaN_foldl_least]
  rfl

theorem foldl_least_infinity_le (hxs : ∀ x ∈ xs, x.isNaN = false) : ∀ x ∈ xs, xs.foldl least infinity ≤ x := by
  have hnumber := isNaN_foldl_least_infinity xs
  have hself : Reaches (xs.foldl least infinity) (xs.foldl least infinity) := fun _ =>
    (le_iff_level hnumber hnumber).mpr (Int.le_refl _)
  intro x hx
  exact ((reaches_foldl_least hnumber infinity xs).mp hself).2 x hx (hxs x hx)

/-- Among numbers, the least one is found even if the search starts with infinity. -/
theorem foldl_least_infinity_mem (hne : xs ≠ []) (hxs : ∀ x ∈ xs, x.isNaN = false) :
    xs.foldl least infinity ∈ xs := by
  rcases foldl_least_mem infinity xs with hinfinity | hmem
  · -- Nothing is below infinity, so that all values are infinite.
    obtain ⟨x, hx⟩ := List.exists_mem_of_ne_nil xs hne
    have hle := foldl_least_infinity_le hxs x hx
    rw [hinfinity, le_iff_level rfl (hxs x hx), level_infinity] at hle
    have htop : level x = topLevel := Int.le_antisymm (isValue_unpacked x).levelOf_le hle
    rw [hinfinity, ← eq_infinity_of_level (hxs x hx) htop]
    exact hx
  · exact hmem

theorem le_foldl_least_infinity_iff (threshold : Float) (hne : xs ≠ []) (hxs : ∀ x ∈ xs, x.isNaN = false) :
    threshold ≤ xs.foldl least infinity ↔ ∀ x ∈ xs, threshold ≤ x := by
  have hmem := foldl_least_infinity_mem hne hxs
  constructor
  · intro hle x hx
    have hthreshold := (isNaN_of_le hle).1
    have hnumber := isNaN_foldl_least_infinity xs
    have hmin := foldl_least_infinity_le hxs x hx
    rw [le_iff_level hthreshold hnumber] at hle
    rw [le_iff_level hnumber (hxs x hx)] at hmin
    exact (le_iff_level hthreshold (hxs x hx)).mpr (Int.le_trans hle hmin)
  · intro hall
    exact hall _ hmem

end RightOfWay.Number

namespace RightOfWay.Control

open Logic (Certificate Degree Trace)

variable {S K A T O : Type} (actionText : A → String) (label : O → String)

namespace Dossier

/-- Certificates that are entered one after the other, all at once. -/
theorem foldl_enter (d : Dossier) (cs : List (Certificate A)) :
    cs.foldl (enter actionText) d =
      { d with
        entries := d.entries ++ cs.map (Entry.ofCertificate actionText d.threshold)
        accepted := d.accepted + (cs.map (Entry.ofCertificate actionText d.threshold)).countP (·.accepted)
        rejected := d.rejected + (cs.map (Entry.ofCertificate actionText d.threshold)).countP (!·.accepted) } := by
  induction cs generalizing d with
  | nil => simp
  | cons c cs ih =>
    rw [List.foldl_cons, ih]
    cases haccepted : (Entry.ofCertificate actionText d.threshold c).accepted with
    | true => simp [enter, haccepted, Nat.add_assoc, Nat.add_comm 1]
    | false => simp [enter, haccepted, Nat.add_assoc, Nat.add_comm 1]

theorem add_eq (d : Dossier) (r : Report A O) :
    d.add actionText label r =
      { d with
        entries := d.entries ++ r.certificates.map (Entry.ofCertificate actionText d.threshold)
        traces := d.traces ++ r.traces.map fun t => t.toList.map label
        accepted := d.accepted + (r.certificates.map (Entry.ofCertificate actionText d.threshold)).countP (·.accepted)
        rejected := d.rejected +
          (r.certificates.map (Entry.ofCertificate actionText d.threshold)).countP (!·.accepted) } := by
  rw [add, foldl_enter]

theorem start_add (rule formula : String) (seed : UInt64) (threshold : Float) (r : Report A O) :
    ((start rule formula seed threshold).add actionText label r).entries =
      r.certificates.map (Entry.ofCertificate actionText threshold) ∧
    ((start rule formula seed threshold).add actionText label r).traces = r.traces.map fun t => t.toList.map label := by
  rw [add_eq]
  exact ⟨rfl, rfl⟩

theorem add_empty (d : Dossier) : d.add actionText label (Report.empty : Report A O) = d := by
  simp [add, Report.empty]

theorem add_merge (d : Dossier) (r s : Report A O) :
    d.add actionText label (r.merge s) = (d.add actionText label r).add actionText label s := by
  rw [add_eq, add_eq, add_eq]
  simp [Report.merge, Nat.add_assoc]

theorem foldl_add_add (d : Dossier) (r : Report A O) (rs : List (Report A O)) :
    rs.foldl (fun d r => d.add actionText label r) (d.add actionText label r) =
      d.add actionText label (rs.foldl Report.merge r) := by
  induction rs generalizing r with
  | nil => rfl
  | cons s rs ih => rw [List.foldl_cons, List.foldl_cons, ← add_merge, ih]

theorem foldl_add (d : Dossier) (rs : List (Report A O)) :
    rs.foldl (fun d r => d.add actionText label r) d =
      d.add actionText label (rs.foldl Report.merge Report.empty) := by
  rw [← foldl_add_add, add_empty]

/-- The counters of a dossier count its entries. -/
structure Balanced (d : Dossier) : Prop where
  accepted : d.accepted = d.entries.countP (·.accepted)
  rejected : d.rejected = d.entries.countP (!·.accepted)

theorem Balanced.start (rule formula : String) (seed : UInt64) (threshold : Float) :
    (Dossier.start rule formula seed threshold).Balanced := ⟨rfl, rfl⟩

theorem Balanced.add {d : Dossier} (h : d.Balanced) (r : Report A O) : (d.add actionText label r).Balanced := by
  rw [add_eq]
  constructor
  · rw [h.accepted, List.countP_append]
  · rw [h.rejected, List.countP_append]

theorem Balanced.total {d : Dossier} (h : d.Balanced) : d.accepted + d.rejected = d.entries.length := by
  rw [h.accepted, h.rejected]
  simpa using (List.length_eq_countP_add_countP Entry.accepted).symm

end Dossier

/-- The values of the entry's traces are the worst values that the conjunction joins. -/
theorem conjunction_entryValue {ds : List Degree} {x : Float} (h : Degree.conjunction ds = .ok x) :
    ds ≠ [] ∧ (∀ d ∈ ds, d.worst = .ok (entryValue d)) ∧
      x = (ds.map entryValue).foldl Number.least Number.infinity := by
  rw [Degree.conjunction] at h
  split at h
  · cases h
  · rename_i hne
    obtain ⟨ws, hws, rfl⟩ := ok_of_map_ok h
    rw [Degree.reduceAll_eq_inOrder, inOrder_eq_ok_iff] at hws
    have hvalue (d : Degree) (w : Float) (hw : d.worst = .ok w) : w = entryValue d := by rw [entryValue, hw]
    refine ⟨by simpa using hne, ?_, ?_⟩
    · intro d hd
      obtain ⟨w, hw⟩ := exists_ok_of_map_eq_map_ok hws d hd
      rw [← hvalue d w hw, hw]
    · rw [← eq_map_of_map_eq_map_ok hws hvalue]

/-- A certificate of a batch: its robustness is the conjunction of the degrees of the traces. -/
def Joined (c : Certificate A) : Prop :=
  ∃ x, Degree.conjunction c.perTrace = .ok x ∧ c.robustness = .scalar x

namespace Entry

variable {actionText} {c : Certificate A} (threshold : Float)

theorem perTrace_isNaN (h : Joined c) (hc : ∀ d ∈ c.perTrace, ∀ x ∈ d.values, x.isNaN = false) :
    ∀ x ∈ (ofCertificate actionText threshold c).perTrace, x.isNaN = false := by
  obtain ⟨w, hjoin, -⟩ := h
  obtain ⟨-, hworst, -⟩ := conjunction_entryValue hjoin
  intro x hx
  obtain ⟨d, hd, rfl⟩ := List.mem_map.mp hx
  rw [← Bool.not_eq_true, Degree.isNaN_worst (hworst d hd)]
  intro hall
  have hempty : d.values = [] := by
    rw [List.eq_nil_iff_forall_not_mem]
    intro y hy
    exact ne_true_of_eq_false (hc d hd y hy) (hall y hy)
  have hw := hworst d hd
  rw [Degree.worst, hempty] at hw
  cases hw

/-- Where the traces have numbers, the entry's robustness is the least of them and decides about acceptance. -/
theorem robustness_least (h : Joined c)
    (hnumbers : ∀ x ∈ (ofCertificate actionText threshold c).perTrace, x.isNaN = false) :
    let e := ofCertificate actionText threshold c
    e.robustness ∈ e.perTrace ∧ (∀ x ∈ e.perTrace, e.robustness ≤ x) ∧
      (e.accepted = true ↔ ∀ x ∈ e.perTrace, threshold ≤ x) := by
  intro e
  obtain ⟨x, hjoin, hrobust⟩ := h
  obtain ⟨hne, -, hleast⟩ := conjunction_entryValue hjoin
  have hvalue : e.robustness = e.perTrace.foldl Number.least Number.infinity := by
    change entryValue c.robustness = _
    rw [hrobust]
    exact hleast
  have hsome : e.perTrace ≠ [] := by simpa [e, ofCertificate] using hne
  have haccepted : e.accepted = true ↔ threshold ≤ e.robustness := by
    change c.abides threshold = true ↔ _
    rw [Certificate.abides_scalar hrobust, hvalue, hleast]
    rfl
  rw [haccepted, hvalue]
  exact ⟨Number.foldl_least_infinity_mem hsome hnumbers, Number.foldl_least_infinity_le hnumbers,
    Number.le_foldl_least_infinity_iff threshold hsome hnumbers⟩

end Entry

/-- A report of batches: it counts the certificates that abide by the threshold, and each of them is joined. -/
structure Report.Certifies (threshold : Float) (r : Report A O) : Prop where
  counted : r.accepted = r.certificates.countP (·.abides threshold)
  joined : ∀ c ∈ r.certificates, Joined c

namespace Report.Certifies

variable {threshold : Float}

theorem empty : (Report.empty : Report A O).Certifies threshold := ⟨rfl, by simp [Report.empty]⟩

theorem merge {r s : Report A O} (hr : r.Certifies threshold) (hs : s.Certifies threshold) :
    (r.merge s).Certifies threshold := by
  constructor
  · rw [Report.merge, List.countP_append, hr.counted, hs.counted]
  · intro c hc
    rcases List.mem_append.mp hc with hc | hc
    · exact hr.joined c hc
    · exact hs.joined c hc

theorem foldl_merge {rs : List (Report A O)} (hrs : ∀ r ∈ rs, r.Certifies threshold) {r : Report A O}
    (hr : r.Certifies threshold) : (rs.foldl Report.merge r).Certifies threshold := by
  induction rs generalizing r with
  | nil => exact hr
  | cons s rs ih =>
    rw [List.forall_mem_cons] at hrs
    exact ih hrs.2 (hr.merge hrs.1)

end Report.Certifies

namespace Supervisor

theorem run_certifies (v : Supervisor S K A T O) (n : Nat) (l : Live S K) (r : Report A O)
    (h : (v.run n l).2 = .ok r) : r.Certifies v.settings.threshold := by
  obtain ⟨is, his, rfl⟩ := v.run_ok n l (v.run n l).1 r (Prod.ext rfl h)
  obtain ⟨hcourse, -⟩ := v.iterations_ok n l _ is his
  rw [Report.ofIterations_eq]
  constructor
  · rw [List.countP_map]
    rfl
  · intro c hc
    obtain ⟨i, hi, rfl⟩ := List.mem_map.mp hc
    obtain ⟨l₁, l₂, hiter⟩ := hcourse.iterates i hi
    cases hiter with
    | calls s s₁ s₂ s₃ k k₁ k₂ b a i _ _ _ _ hcert _ => exact (v.spec.certifyAll_ok _ a _ hcert).2.2

theorem runParallel_certifies (v : Supervisor S K A T O) (s : FanoutSettings) (finished : Nat → List Nat)
    (l : Live S K) (r : Report A O) (h : v.runParallel s finished l = .ok r) : r.Certifies v.settings.threshold := by
  rcases v.runParallel_cases s finished l with ⟨m, hmisfit⟩ | habort | heq
  · rw [hmisfit] at h
    cases h
  · rw [habort] at h
    cases h
  rw [heq] at h
  obtain ⟨reports, hgather, rfl⟩ := ok_of_map_ok h
  have houtcomes := map_ok_of_gather hgather
  apply Report.Certifies.foldl_merge _ Report.Certifies.empty
  intro r hr
  have hmem : (.ok r : Except Failure (Report A O)) ∈ reports.map .ok := List.mem_map_of_mem hr
  rw [← houtcomes] at hmem
  obtain ⟨rep, -, hrun⟩ := List.mem_map.mp hmem
  exact v.run_certifies s.iterations _ r hrun

/-- A dossier holds the certificates and traces of the reports added to it, and its counters are theirs; the robustness
of an entry without NaN is the least of the values of its traces. -/
theorem dossier_agrees_with_reports (v : Supervisor S K A T O) (rule formula : String) (seed : UInt64) :
    (∀ (d : Dossier) (r : Report A O) (rs : List (Report A O)),
      (r :: rs).foldl (fun d r => d.add actionText label r) d = d.add actionText label (rs.foldl Report.merge r)) ∧
    (∀ (d : Dossier) (rs : List (Report A O)),
      rs.foldl (fun d r => d.add actionText label r) d =
        d.add actionText label (rs.foldl Report.merge Report.empty)) ∧
    (∀ (threshold : Float) (rs : List (Report A O)),
      let d := rs.foldl (fun d r => d.add actionText label r) (Dossier.start rule formula seed threshold)
      d.accepted + d.rejected = d.entries.length ∧
      d.accepted = d.entries.countP (·.accepted) ∧
      d.entries = (rs.flatMap Report.certificates).map (Entry.ofCertificate actionText threshold) ∧
      d.traces = (rs.flatMap Report.traces).map fun t => t.toList.map label) ∧
    ∀ r : Report A O,
      ((∃ n l, (v.run n l).2 = .ok r) ∨ ∃ s finished l, v.runParallel s finished l = .ok r) →
      let d := (Dossier.start rule formula seed v.settings.threshold).add actionText label r
      d.accepted = r.accepted ∧
      d.rejected = r.rejected ∧
      (∀ c ∈ r.certificates, (∀ d ∈ c.perTrace, ∀ x ∈ d.values, x.isNaN = false) →
        ∀ x ∈ (Entry.ofCertificate actionText v.settings.threshold c).perTrace, x.isNaN = false) ∧
      ∀ e ∈ d.entries, (∀ x ∈ e.perTrace, x.isNaN = false) →
        e.robustness ∈ e.perTrace ∧ (∀ x ∈ e.perTrace, e.robustness ≤ x) ∧
        (e.accepted = true ↔ ∀ x ∈ e.perTrace, v.settings.threshold ≤ x) := by
  refine ⟨Dossier.foldl_add_add actionText label, Dossier.foldl_add actionText label, ?_, ?_⟩
  · intro threshold rs d
    have hd : d = (Dossier.start rule formula seed threshold).add actionText label
        (rs.foldl Report.merge Report.empty) := Dossier.foldl_add actionText label _ rs
    have hbalanced : d.Balanced := hd ▸ (Dossier.Balanced.start rule formula seed threshold).add actionText label _
    refine ⟨hbalanced.total, hbalanced.accepted, ?_, ?_⟩
    · rw [hd, (Dossier.start_add ..).1, Report.foldl_merge]
      rfl
    · rw [hd, (Dossier.start_add ..).2, Report.foldl_merge]
      rfl
  · intro r hr d
    have hcertifies : r.Certifies v.settings.threshold := by
      rcases hr with ⟨n, l, hrun⟩ | ⟨s, finished, l, hrun⟩
      · exact v.run_certifies n l r hrun
      · exact v.runParallel_certifies s finished l r hrun
    have hbalanced : d.Balanced :=
      (Dossier.Balanced.start rule formula seed v.settings.threshold).add actionText label r
    have hentries : d.entries = r.certificates.map (Entry.ofCertificate actionText v.settings.threshold) :=
      (Dossier.start_add ..).1
    have haccepted : d.accepted = r.accepted := by
      rw [hbalanced.accepted, hentries, List.countP_map, hcertifies.counted]
      rfl
    refine ⟨haccepted, ?_, ?_, ?_⟩
    · have htotal := hbalanced.total
      rw [hentries, List.length_map] at htotal
      rw [Report.rejected]
      omega
    · intro c hc
      exact Entry.perTrace_isNaN _ (hcertifies.joined c hc)
    · intro e he
      rw [hentries] at he
      obtain ⟨c, hc, rfl⟩ := List.mem_map.mp he
      exact Entry.robustness_least _ (hcertifies.joined c hc)

/-- The rehearsal at its own threshold: one certificate is accepted, the other one has seen the crash. -/
theorem dossier_agrees_with_reports_rehearsal :
    ∃ r, (rehearsal.run 4 rehearsalStart).2 = .ok r ∧
      let d := (Dossier.start "safety" Traffic.safety.text 7 1.0).add toString Traffic.Condition.name r
      d.entries.length = 2 ∧ d.accepted = 1 ∧ d.rejected = 1 ∧ d.traces.length = 4 ∧
      ∀ e ∈ d.entries, e.robustness ∈ e.perTrace ∧ (∀ x ∈ e.perTrace, e.robustness ≤ x) ∧
        (e.accepted = true ↔ ∀ x ∈ e.perTrace, 1.0 ≤ x) := by
  have hreport : (rehearsal.run 4 rehearsalStart).2.toOption.map (fun r =>
      (r.certificates.length, r.traces.length, r.accepted, r.certificates.all fun c => c.perTrace.all fun d =>
        d.values.all fun x => !x.isNaN)) = some (2, 4, 1, true) := by decide +kernel
  rcases hrun : (rehearsal.run 4 rehearsalStart).2 with e | r
  · rw [hrun] at hreport
    cases hreport
  · rw [hrun] at hreport
    obtain ⟨hcerts, hothers⟩ := Prod.mk.inj (Option.some.inj hreport)
    obtain ⟨htraces, hothers⟩ := Prod.mk.inj hothers
    obtain ⟨hcount, hnumbers⟩ := Prod.mk.inj hothers
    obtain ⟨hentries, htraced⟩ :=
      Dossier.start_add toString Traffic.Condition.name "safety" Traffic.safety.text 7 1.0 r
    obtain ⟨haccepted, hrejected, hnumber, hleast⟩ :=
      (dossier_agrees_with_reports toString Traffic.Condition.name rehearsal "safety"
        Traffic.safety.text 7).2.2.2 r (.inl ⟨4, rehearsalStart, hrun⟩)
    refine ⟨r, rfl, ?_, haccepted.trans hcount, ?_, ?_, ?_⟩
    · rw [hentries, List.length_map, hcerts]
    · have hrest : r.rejected = 1 := by rw [Report.rejected, hcerts, hcount]
      exact hrejected.trans hrest
    · rw [htraced, List.length_map, htraces]
    · intro e he
      obtain ⟨c, hc, rfl⟩ := List.mem_map.mp (hentries ▸ he)
      refine hleast _ he (hnumber c hc ?_)
      intro d hd x hx
      simp only [List.all_eq_true] at hnumbers
      simpa using hnumbers c hc d hd x hx

end Supervisor

end RightOfWay.Control

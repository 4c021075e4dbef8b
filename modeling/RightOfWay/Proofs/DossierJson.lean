import RightOfWay.Proofs.Dossiers
import RightOfWay.Proofs.ReportJson
import RightOfWay.Proofs.Verdict

namespace RightOfWay.Json

/-- Neither the compact nor the indented text of the value can be read. -/
def Unreadable {α : Type} [Codec α] (a : α) : Prop :=
  read? α (encode a).compact = none ∧ read? α (encode a).pretty = none

theorem unreadable_iff {α : Type} [Codec α] (a : α) :
    Unreadable a ↔ (decode depthLimit (encode a).reread : Option α) = none := by
  rw [Unreadable, read?, read?, parse?_compact_reread, parse?_pretty_reread]
  simp

theorem decodeAll_eq_none {α : Type} [Codec α] {room : Nat} {vs : List Json} {v : Json} (hv : v ∈ vs)
    (hnone : (decode room v : Option α) = none) : (decodeAll room vs : Option (List α)) = none := by
  cases hall : (decodeAll room vs : Option (List α)) with
  | none => rfl
  | some as =>
    have hmap := (decodeAll_eq_some_iff room vs as).mp hall
    have hmem : (decode room v : Option α) ∈ as.map some := hmap ▸ List.mem_map_of_mem hv
    simp [hnone] at hmem

theorem decode_list_eq_none {α : Type} [Codec α] {room : Nat} {as : List α} {a : α} (ha : a ∈ as)
    (hnone : (decode room (encode a).reread : Option α) = none) :
    (decode (room + 1) (encode as).reread : Option (List α)) = none := by
  have hmem : (encode a).reread ∈ rereadAll (as.map encode) := by
    rw [rereadAll_eq_map, List.map_map]
    exact List.mem_map_of_mem ha
  exact decodeAll_eq_none hmem hnone

theorem readsBackIn_uint64 (room : Nat) (n : UInt64) : ReadsBackIn room n := by
  have hlt : n.toNat < UInt64.size := n.toNat_lt
  have hint : (encode n).reread = .int n.toNat := reread_int n.toNat (by omega) (by omega)
  rw [ReadsBackIn, hint]
  change (if n.toNat < UInt64.size then some n.toNat.toUInt64 else none) = some n
  rw [if_pos hlt]
  simp

theorem readsBackIn_string (room : Nat) (s : String) : ReadsBackIn room s := rfl

theorem readsBackIn_nat (room n : Nat) : ReadsBackIn room n ↔ n < UInt64.size := by
  rw [readsBackIn_iff, legible_nat]
  exact and_iff_right (Nat.zero_le _)

end RightOfWay.Json

namespace RightOfWay.Control

open Json (Codec encode decode read? ReadsBack ReadsBackIn readsBack_iff readsBackIn_list_succ readsBackIn_float
  readsBackIn_nat readsBackIn_string readsBackIn_uint64 Unreadable unreadable_iff decode_list_eq_none)
open Logic (Certificate Degree Trace Spec)

/-- The field that is left out is asked for last, when all the others have been read. -/
theorem decode_entry_eq_none (room : Nat) {e : Entry} (h : e.perTrace = []) :
    (decode room (encode e).reread : Option Entry) = none := by
  obtain ⟨action, robustness, accepted, perTrace⟩ := e
  cases h
  cases room with
  | zero => rfl
  | succ room =>
    change ((decode room (encode robustness).reread : Option Float).bind fun _ => (none : Option Entry)) = none
    simp

theorem readsBackIn_entry (room : Nat) {e : Entry} (h : e.perTrace ≠ []) :
    ReadsBackIn (room + 2) e ↔ ReadsBack e.robustness ∧ ∀ x ∈ e.perTrace, ReadsBack x := by
  obtain ⟨action, robustness, accepted, perTrace⟩ := e
  obtain ⟨x, xs, rfl⟩ := List.exists_cons_of_ne_nil h
  have hparts : ReadsBackIn (room + 2) (⟨action, robustness, accepted, x :: xs⟩ : Entry) ↔
      ReadsBackIn (room + 1) robustness ∧ ReadsBackIn (room + 1) (x :: xs) := by
    change (do return ⟨action, ← decode (room + 1) (encode robustness).reread, accepted,
      ← decode (room + 1) (encode (x :: xs)).reread⟩ : Option Entry) = _ ↔ _
    simp [ReadsBackIn, Option.bind_eq_some_iff]
  rw [hparts, readsBackIn_list_succ]
  simp only [readsBackIn_float]

section

variable {A O : Type} (actionText : A → String) (threshold : Float)

theorem entryValue_mem {d : Degree} {x : Float} (h : d.worst = .ok x) : entryValue d ∈ d.values := by
  rw [entryValue, h]
  rw [Degree.worst] at h
  cases hvalues : d.values with
  | nil =>
    rw [hvalues] at h
    cases h
  | cons y ys =>
    rw [hvalues] at h
    have hleast : ys.foldl Number.least y = x := Except.ok.inj h
    have hmem := Number.foldl_least_mem y ys
    rw [hleast] at hmem
    simpa using hmem

/-- The entry of a batch has the values of its traces, each of them out of the degree that it was taken from. -/
theorem readsBackIn_entry_of_joined (room : Nat) {c : Certificate A} (hjoined : Joined c)
    (hfloats : ∀ x ∈ c.floats, ReadsBack x) : ReadsBackIn (room + 2) (Entry.ofCertificate actionText threshold c) := by
  obtain ⟨w, hjoin, hrobust⟩ := hjoined
  obtain ⟨hne, hworst, -⟩ := conjunction_entryValue hjoin
  have hrobustness : entryValue c.robustness ∈ c.robustness.values := by
    rw [hrobust]
    exact entryValue_mem (x := w) rfl
  have hsome : (Entry.ofCertificate actionText threshold c).perTrace ≠ [] := by simpa [Entry.ofCertificate] using hne
  rw [readsBackIn_entry room hsome]
  constructor
  · apply hfloats
    exact List.mem_append_left _ hrobustness
  · intro x hx
    obtain ⟨d, hd, rfl⟩ := List.mem_map.mp hx
    apply hfloats
    exact List.mem_append_right _ (List.mem_flatMap.mpr ⟨d, hd, entryValue_mem (hworst d hd)⟩)

theorem joined_of_certifyAll {s : Spec O} {ts : List (Trace O)} {a : A} {c : Certificate A}
    (h : s.certifyAll ts a = .ok c) : Joined c :=
  (s.certifyAll_ok ts a c h).2.2

theorem decode_entry_of_certify (room : Nat) {s : Spec O} {t : Trace O} {a : A} {c : Certificate A}
    (h : s.certify t a = .ok c) :
    (decode room (encode (Entry.ofCertificate actionText threshold c)).reread : Option Entry) = none := by
  obtain ⟨d, -, rfl⟩ := ok_of_map_ok h
  exact decode_entry_eq_none room rfl

end

namespace Dossier

theorem decode_dossier (room : Nat) (d : Dossier) : (decode (room + 1) (encode d).reread : Option Dossier) =
    (do return ⟨d.rule, d.formula, ← decode room (encode d.seed).reread, ← decode room (encode d.threshold).reread,
      ← decode room (encode d.entries).reread, ← decode room (encode d.traces).reread,
      ← decode room (encode d.accepted).reread, ← decode room (encode d.rejected).reread⟩) := rfl

theorem readsBackIn_dossier (room : Nat) (d : Dossier) :
    ReadsBackIn (room + 3) d ↔ ReadsBack d.threshold ∧ (∀ e ∈ d.entries, ReadsBackIn (room + 1) e) ∧
      d.accepted < UInt64.size ∧ d.rejected < UInt64.size := by
  have hparts : ReadsBackIn (room + 3) d ↔ ReadsBackIn (room + 2) d.seed ∧ ReadsBackIn (room + 2) d.threshold ∧
      ReadsBackIn (room + 2) d.entries ∧ ReadsBackIn (room + 2) d.traces ∧ ReadsBackIn (room + 2) d.accepted ∧
      ReadsBackIn (room + 2) d.rejected := by
    rw [ReadsBackIn, decode_dossier]
    cases d
    simp [ReadsBackIn, Option.bind_eq_some_iff]
  rw [hparts, readsBackIn_nat, readsBackIn_nat, readsBackIn_float]
  simp [readsBackIn_list_succ, readsBackIn_uint64, readsBackIn_string]

theorem unreadable_dossier {d : Dossier} {e : Entry} (he : e ∈ d.entries)
    (h : ∀ room, (decode room (encode e).reread : Option Entry) = none) : Unreadable d := by
  have hlimit : Json.depthLimit = 125 + 1 + 1 := rfl
  rw [unreadable_iff, hlimit, decode_dossier, decode_list_eq_none he (h 125)]
  simp

variable {A O : Type} (actionText : A → String) (label : O → String)

/-- The dossier of several reports, added one after the other. -/
def ofReports (rule formula : String) (seed : UInt64) (threshold : Float) (rs : List (Report A O)) : Dossier :=
  rs.foldl (fun d r => d.add actionText label r) (Dossier.start rule formula seed threshold)

theorem ofReports_entries (rule formula : String) (seed : UInt64) (threshold : Float) (rs : List (Report A O)) :
    (ofReports actionText label rule formula seed threshold rs).entries =
      (rs.flatMap Report.certificates).map (Entry.ofCertificate actionText threshold) := by
  rw [ofReports, foldl_add, (start_add ..).1, Report.foldl_merge]
  rfl

theorem ofReports_threshold (rule formula : String) (seed : UInt64) (threshold : Float) (rs : List (Report A O)) :
    (ofReports actionText label rule formula seed threshold rs).threshold = threshold := by
  rw [ofReports, foldl_add, add_eq]
  rfl

theorem ofReports_balanced (rule formula : String) (seed : UInt64) (threshold : Float) (rs : List (Report A O)) :
    (ofReports actionText label rule formula seed threshold rs).Balanced := by
  rw [ofReports, foldl_add]
  exact (Balanced.start rule formula seed threshold).add actionText label _

/-- The entry of a batch is read back, and so is a dossier of batches. The entry of a single trace cannot be read, nor
can any dossier that holds one. -/
theorem batches_read_back_and_singles_do_not (threshold : Float) :
    (∀ (s : Spec O) (ts : List (Trace O)) (a : A) (c : Certificate A), s.certifyAll ts a = .ok c →
      (∀ x ∈ c.floats, ReadsBack x) → ReadsBack (Entry.ofCertificate actionText threshold c)) ∧
    (∀ (s : Spec O) (t : Trace O) (a : A) (c : Certificate A), s.certify t a = .ok c →
      Unreadable (Entry.ofCertificate actionText threshold c)) ∧
    (∀ (rule formula : String) (seed : UInt64) (rs : List (Report A O)), ReadsBack threshold →
      (∀ c ∈ rs.flatMap Report.certificates, (∃ (s : Spec O) (ts : List (Trace O)) (a : A), s.certifyAll ts a = .ok c) ∧
        ∀ x ∈ c.floats, ReadsBack x) →
      (rs.flatMap Report.certificates).length < UInt64.size →
      ReadsBack (ofReports actionText label rule formula seed threshold rs)) ∧
    (∀ (rule formula : String) (seed : UInt64) (rs : List (Report A O)),
      (∃ c ∈ rs.flatMap Report.certificates, ∃ (s : Spec O) (t : Trace O) (a : A), s.certify t a = .ok c) →
      Unreadable (ofReports actionText label rule formula seed threshold rs)) := by
  refine ⟨?_, ?_, ?_, ?_⟩
  · intro s ts a c hc hfloats
    rw [readsBack_iff]
    exact readsBackIn_entry_of_joined actionText threshold _ (joined_of_certifyAll hc) hfloats
  · intro s t a c hc
    rw [unreadable_iff]
    exact decode_entry_of_certify actionText threshold _ hc
  · intro rule formula seed rs hthreshold hcertificates hlength
    have hentries := ofReports_entries actionText label rule formula seed threshold rs
    have htotal := (ofReports_balanced actionText label rule formula seed threshold rs).total
    rw [hentries, List.length_map] at htotal
    rw [readsBack_iff]
    apply (readsBackIn_dossier _ _).mpr
    rw [ofReports_threshold, hentries]
    refine ⟨hthreshold, ?_, by omega, by omega⟩
    intro e he
    obtain ⟨c, hc, rfl⟩ := List.mem_map.mp he
    obtain ⟨⟨s, ts, a, hissued⟩, hfloats⟩ := hcertificates c hc
    exact readsBackIn_entry_of_joined actionText threshold _ (joined_of_certifyAll hissued) hfloats
  · rintro rule formula seed rs ⟨c, hc, s, t, a, hissued⟩
    have hmem : Entry.ofCertificate actionText threshold c ∈
        (ofReports actionText label rule formula seed threshold rs).entries := by
      rw [ofReports_entries]
      exact List.mem_map_of_mem hc
    exact unreadable_dossier hmem fun room => decode_entry_of_certify actionText threshold room hissued

/-- Traffic that has passed, the lights left alone. -/
def passage : Trace Traffic.Condition := ⟨.flow, [.empty]⟩

def passageReport (perTrace : List Degree) : Report String Traffic.Condition :=
  ⟨[⟨.scalar 1.0, "wait", perTrace⟩], [passage], 1, 0.5⟩

theorem batches_read_back_and_singles_do_not_passage :
    ReadsBack (ofReports id Traffic.Condition.name "safety" Traffic.safety.text 7 1.0 [passageReport [.scalar 1.0]]) ∧
    Unreadable (ofReports id Traffic.Condition.name "safety" Traffic.safety.text 7 1.0
      [passageReport [.scalar 1.0], passageReport []]) := by
  obtain ⟨-, -, hbatches, hsingle⟩ :=
    batches_read_back_and_singles_do_not (id : String → String) Traffic.Condition.name 1.0
  have hone : ReadsBack (1.0 : Float) := (readsBack_iff _).mpr rfl
  constructor
  · apply hbatches _ _ _ _ hone
    · intro c hc
      rw [List.mem_singleton.mp hc]
      exact ⟨⟨Traffic.safetySpec, [passage], "wait", rfl⟩, by simpa [Certificate.floats, Degree.values] using hone⟩
    · decide
  · apply hsingle
    exact ⟨⟨.scalar 1.0, "wait", []⟩, by simp [passageReport], Traffic.safetySpec, passage, "wait", rfl⟩

/-- The entry of a single trace as it is written, which is not how it is read. -/
theorem single_trace_entry_not_read :
    ∃ c, Traffic.safetySpec.certify passage "go" = .ok c ∧
      (encode (Entry.ofCertificate id 1.0 c)).compact =
        "\x7b\"action\":\"go\",\"robustness\":1.0,\"accepted\":true\x7d" ∧
      read? Entry "\x7b\"action\":\"go\",\"robustness\":1.0,\"accepted\":true\x7d" = none := by
  have hcertify : Traffic.safetySpec.certify passage "go" = .ok ⟨.scalar 1.0, "go", []⟩ := rfl
  have htext : (encode (Entry.ofCertificate id 1.0 (⟨.scalar 1.0, "go", []⟩ : Certificate String))).compact =
      "\x7b\"action\":\"go\",\"robustness\":1.0,\"accepted\":true\x7d" := by
    decide +kernel
  have hunreadable := (unreadable_iff _).mpr (decode_entry_of_certify id 1.0 Json.depthLimit hcertify)
  refine ⟨_, hcertify, htext, ?_⟩
  rw [← htext]
  exact hunreadable.1

end Dossier

end RightOfWay.Control

import Mathlib.Order.Lattice
import RightOfWay.Format.Control
import RightOfWay.Format.Traffic
import RightOfWay.Proofs.FormulaJson
import RightOfWay.Proofs.Rereading

namespace RightOfWay.Json

/-- The value is read back from its compact and from its indented text. -/
def ReadsBack {α : Type} [Codec α] (a : α) : Prop :=
  read? α (encode a).compact = some a ∧ read? α (encode a).pretty = some a

/-- The value is read back where there is room for that many brackets inside each other. -/
def ReadsBackIn {α : Type} [Codec α] (room : Nat) (a : α) : Prop := decode room (encode a).reread = some a

/-- The value is read back where there is room enough. -/
def Legible {α : Type} [Codec α] (a : α) : Prop := ∃ room, ReadsBackIn room a

/-- Room is enough for a value of the type exactly when all brackets of its form fit in. -/
class LawfulCodec (α : Type) [Codec α] : Prop where
  readsBackIn_iff (room : Nat) (a : α) : ReadsBackIn room a ↔ (encode a).depth ≤ room ∧ Legible a

export LawfulCodec (readsBackIn_iff)

section

variable {α : Type} [Codec α]

/-- Both texts are read as the same value, so either of them decides. -/
theorem readsBack_iff (a : α) : ReadsBack a ↔ ReadsBackIn depthLimit a := by
  rw [ReadsBack, ReadsBackIn, read?, read?, parse?_compact_reread, parse?_pretty_reread]
  simp

theorem legible_iff {P : Prop} {a : α} (h : ∀ room, ReadsBackIn room a ↔ (encode a).depth ≤ room ∧ P) :
    Legible a ↔ P := by
  constructor
  · rintro ⟨room, hroom⟩
    exact ((h room).mp hroom).2
  · intro hp
    exact ⟨(encode a).depth, (h _).mpr ⟨Nat.le_refl _, hp⟩⟩

theorem lawful_of_iff {P : α → Prop} (h : ∀ room a, ReadsBackIn room a ↔ (encode a).depth ≤ room ∧ P a) :
    LawfulCodec α where
  readsBackIn_iff room a := by rw [legible_iff fun room => h room a, h]

/-- A form without brackets is read in any room. -/
theorem lawful_of_scalar (hdepth : ∀ a : α, (encode a).depth = 0)
    (hroom : ∀ room v, (decode room v : Option α) = decode 0 v) : LawfulCodec α := by
  apply lawful_of_iff (P := ReadsBackIn 0)
  intro room a
  rw [ReadsBackIn, ReadsBackIn, hroom, hdepth]
  simp

/-- What has brackets takes the outermost of them off the room. -/
theorem readsBackIn_of_succ {P : Prop} {a : α} (hzero : ¬ ReadsBackIn 0 a) (hdepth : 0 < (encode a).depth)
    (hsucc : ∀ room, ReadsBackIn (room + 1) a ↔ (encode a).depth ≤ room + 1 ∧ P) (room : Nat) :
    ReadsBackIn room a ↔ (encode a).depth ≤ room ∧ P := by
  cases room with
  | zero => exact ⟨fun h => absurd h hzero, fun h => absurd h.1 (by omega)⟩
  | succ room => exact hsucc room

theorem decodeAll_eq_some_iff (room : Nat) (vs : List Json) (as : List α) :
    decodeAll room vs = some as ↔ vs.map (decode room) = as.map some := by
  induction vs generalizing as with
  | nil => cases as <;> simp [decodeAll]
  | cons v vs ih =>
    cases as with
    | nil =>
      rw [decodeAll]
      split <;> simp
    | cons a as =>
      have hrest := ih as
      rw [decodeAll, List.map_cons, List.map_cons, List.cons_eq_cons, ← hrest]
      split <;> simp_all

theorem depthList_le_iff (room : Nat) (vs : List Json) : depthList vs ≤ room ↔ ∀ v ∈ vs, v.depth ≤ room := by
  induction vs with
  | nil => simp [depthList]
  | cons v vs ih => simp [depthList, ih]

theorem readsBackIn_list_succ (room : Nat) (as : List α) : ReadsBackIn (room + 1) as ↔ ∀ a ∈ as, ReadsBackIn room a := by
  have hdecode : (decode (room + 1) (encode as).reread : Option (List α)) =
      decodeAll room (rereadAll (as.map encode)) := rfl
  rw [ReadsBackIn, hdecode, decodeAll_eq_some_iff, rereadAll_eq_map]
  simp [ReadsBackIn]

theorem readsBackIn_list [LawfulCodec α] (room : Nat) (as : List α) :
    ReadsBackIn room as ↔ (encode as).depth ≤ room ∧ ∀ a ∈ as, Legible a := by
  have hdepth : (encode as).depth = depthList (as.map encode) + 1 := rfl
  apply readsBackIn_of_succ
  · intro hnone
    cases hnone
  · omega
  · intro room
    rw [readsBackIn_list_succ, hdepth, Nat.add_le_add_iff_right, depthList_le_iff, List.forall_mem_map]
    simp only [readsBackIn_iff, forall_and]

instance [LawfulCodec α] : LawfulCodec (List α) := lawful_of_iff readsBackIn_list

theorem legible_list [LawfulCodec α] (as : List α) : Legible as ↔ ∀ a ∈ as, Legible a :=
  legible_iff fun room => readsBackIn_list room as

end

instance : LawfulCodec Float := lawful_of_scalar (fun _ => rfl) fun _ v => by cases v <;> rfl

instance : LawfulCodec Nat :=
  lawful_of_scalar (fun _ => rfl) fun _ v => by rcases v with _ | _ | ⟨_ | _⟩ <;> rfl

theorem legible_float (x : Float) : Legible x ↔ ReadsBack x := by
  rw [readsBack_iff, readsBackIn_iff]
  exact (and_iff_right (Nat.zero_le _)).symm

theorem readsBackIn_float (room : Nat) (x : Float) : ReadsBackIn room x ↔ ReadsBack x := by
  rw [readsBackIn_iff, legible_float]
  exact and_iff_right (Nat.zero_le _)

theorem lt_size_of_decode {room : Nat} {v : Json} {n : Nat} (h : decode room v = some n) : n < UInt64.size := by
  cases v with
  | int i =>
    cases i with
    | ofNat m =>
      have hread : (if m < UInt64.size then some m else none) = some n := h
      obtain ⟨hm, heq⟩ := (Option.ite_none_right_eq_some).mp hread
      rwa [← Option.some.inj heq]
    | negSucc m => cases h
  | _ => cases h

/-- Counts come back as long as they fit in 64 bits. -/
theorem legible_nat (n : Nat) : Legible n ↔ n < UInt64.size := by
  constructor
  · rintro ⟨room, hroom⟩
    exact lt_size_of_decode hroom
  · intro hn
    have hint : (encode n).reread = .int n := reread_int n (by omega) (by omega)
    refine ⟨0, ?_⟩
    rw [ReadsBackIn, hint]
    exact if_pos hn

/-- A number that is not finite is written as no value, and does not come back. -/
theorem not_readsBack_of_kind {x : Float} (h : Number.kind x = .nan ∨ Number.kind x = .infinite) : ¬ ReadsBack x := by
  have hnull : (Token.number (some (.float x))).text = "null".toList := by
    rcases h with h | h <;> simp [Token.text, Number.Layout.write, h, floatLayout]
  have hreread : (encode x).reread = .null := by
    change ofScalar (Token.number (some (.float x))).reread = .null
    rw [reread_number_of_null hnull]
    rfl
  rw [readsBack_iff, ReadsBackIn, hreread]
  intro hnone
  cases hnone

end RightOfWay.Json

namespace RightOfWay.Logic

open Json (Codec LawfulCodec encode decode ReadsBack ReadsBackIn Legible readsBackIn_iff readsBackIn_list legible_iff
  legible_list legible_float lawful_of_iff readsBackIn_of_succ)

theorem Formula.reread_toJson (p : Formula) : (toJson p).reread = toJson p := by
  have hparse := parse?_compact_toJson p
  rw [Json.parse?_compact_reread] at hparse
  exact Option.some.inj hparse

theorem Formula.decode_reread (room : Nat) (p : Formula) :
    decode room (encode p).reread = if (encode p).depth ≤ room then some p else none := by
  change (decode room (toJson p).reread : Option Formula) = _
  rw [reread_toJson, ← ofJson?_toJson p]
  rfl

theorem Formula.readsBackIn (room : Nat) (p : Formula) : ReadsBackIn room p ↔ (encode p).depth ≤ room ∧ True := by
  rw [ReadsBackIn, decode_reread]
  simp

instance : LawfulCodec Formula := lawful_of_iff Formula.readsBackIn

theorem Formula.legible (p : Formula) : Legible p := (legible_iff fun room => p.readsBackIn room).mpr trivial

theorem decode_degree (room : Nat) (v : Json) : (decode room v : Option Degree) =
    (decode room v : Option Float).elim ((decode room v).map .sequence) fun x => some (.scalar x) := by
  delta instCodecDegree
  dsimp only
  cases (decode room v : Option Float) <;> rfl

/-- The shape of a degree is told from its text: a list is no number. -/
theorem readsBackIn_degree (room : Nat) (d : Degree) :
    ReadsBackIn room d ↔ (encode d).depth ≤ room ∧ ∀ x ∈ d.values, ReadsBack x := by
  rw [ReadsBackIn, decode_degree]
  cases d with
  | scalar x =>
    have hnumber := readsBackIn_iff room x
    have hencode : encode (Degree.scalar x) = encode x := rfl
    rw [ReadsBackIn] at hnumber
    simp only [hencode, Degree.values, List.mem_singleton, forall_eq]
    rw [← legible_float, ← hnumber]
    cases (decode room (encode x).reread : Option Float) <;> simp
  | sequence xs =>
    have hlist := readsBackIn_list room xs
    rw [ReadsBackIn] at hlist
    simp only [legible_float] at hlist
    change (decode room (encode xs).reread).map Degree.sequence = some (.sequence xs) ↔ (encode xs).depth ≤ room ∧ _
    simp [Degree.values, ← hlist]

instance : LawfulCodec Degree := lawful_of_iff readsBackIn_degree

theorem legible_degree (d : Degree) : Legible d ↔ ∀ x ∈ d.values, ReadsBack x :=
  legible_iff fun room => readsBackIn_degree room d

theorem Trace.ofList?_eq_some_iff {O : Type} (os : List O) (t : Trace O) : Trace.ofList? os = some t ↔ os = t.toList := by
  constructor
  · intro h
    cases os with
    | nil => cases h
    | cons o os =>
      cases h
      rfl
  · rintro rfl
    exact Trace.ofList?_toList t

section

variable {O : Type} [Codec O]

theorem decode_trace (room : Nat) (v : Json) :
    (decode room v : Option (Trace O)) = (decode room v).bind Trace.ofList? := rfl

theorem readsBackIn_trace [LawfulCodec O] (room : Nat) (t : Trace O) :
    ReadsBackIn room t ↔ (encode t).depth ≤ room ∧ ∀ o ∈ t.toList, Legible o := by
  have hlist := readsBackIn_list room t.toList
  have hencode : encode t = encode t.toList := rfl
  rw [ReadsBackIn] at hlist ⊢
  rw [decode_trace, hencode, ← hlist]
  simp [Option.bind_eq_some_iff, Trace.ofList?_eq_some_iff]

instance [LawfulCodec O] : LawfulCodec (Trace O) := lawful_of_iff readsBackIn_trace

theorem legible_trace [LawfulCodec O] (t : Trace O) : Legible t ↔ ∀ o ∈ t.toList, Legible o :=
  legible_iff fun room => readsBackIn_trace room t

end

def Certificate.floats {A : Type} (c : Certificate A) : List Float :=
  c.robustness.values ++ c.perTrace.flatMap Degree.values

section

variable {A : Type} [Codec A]

/-- Without degrees of single traces the field is left out, and its absence is read as none of them. -/
theorem decode_certificate (room : Nat) (c : Certificate A) : (decode (room + 1) (encode c).reread : Option (Certificate A)) =
    (do return ⟨← decode room (encode c.robustness).reread, ← decode room (encode c.action).reread,
      ← if c.perTrace.isEmpty then some [] else decode room (encode c.perTrace).reread⟩) := by
  rcases c with ⟨robustness, action, _ | ⟨d, ds⟩⟩ <;> rfl

theorem readsBackIn_certificate_succ (room : Nat) (c : Certificate A) :
    ReadsBackIn (room + 1) c ↔ ReadsBackIn room c.robustness ∧ ReadsBackIn room c.action ∧
      (c.perTrace = [] ∨ ReadsBackIn room c.perTrace) := by
  rw [ReadsBackIn, decode_certificate]
  rcases c with ⟨robustness, action, _ | ⟨d, ds⟩⟩ <;> simp [ReadsBackIn, Option.bind_eq_some_iff]

theorem read?_certificate_eq_none {c : Certificate A}
    (h : (decode (Json.depthLimit - 1) (encode c.action).reread : Option A) = none) :
    Json.read? (Certificate A) (encode c).compact = none := by
  have hlimit : Json.depthLimit = Json.depthLimit - 1 + 1 := rfl
  rw [Json.read?, Json.parse?_compact_reread, Option.bind_some, hlimit, decode_certificate, h]
  simp

theorem depth_certificate_le_iff (room : Nat) (c : Certificate A) :
    (encode c).depth ≤ room + 1 ↔ (encode c.robustness).depth ≤ room ∧ (encode c.action).depth ≤ room ∧
      (c.perTrace = [] ∨ (encode c.perTrace).depth ≤ room) := by
  obtain ⟨robustness, action, _ | ⟨d, ds⟩⟩ := c
  · change max _ (max _ 0) + 1 ≤ _ ↔ _
    simp
  · change max _ (max _ (max _ 0)) + 1 ≤ _ ↔ _
    simp

theorem readsBackIn_certificate [LawfulCodec A] (room : Nat) (c : Certificate A) :
    ReadsBackIn room c ↔ (encode c).depth ≤ room ∧ Legible c.action ∧ ∀ x ∈ c.floats, ReadsBack x := by
  apply readsBackIn_of_succ
  · intro hnone
    cases hnone
  · exact Nat.succ_pos _
  · intro room
    have hnone : c.perTrace = [] → ∀ d ∈ c.perTrace, ∀ x ∈ d.values, ReadsBack x := by
      intro hempty
      simp [hempty]
    rw [readsBackIn_certificate_succ, depth_certificate_le_iff]
    simp only [readsBackIn_iff, legible_list, legible_degree, Certificate.floats, List.mem_append, List.mem_flatMap]
    grind

instance [LawfulCodec A] : LawfulCodec (Certificate A) := lawful_of_iff readsBackIn_certificate

theorem legible_certificate [LawfulCodec A] (c : Certificate A) :
    Legible c ↔ Legible c.action ∧ ∀ x ∈ c.floats, ReadsBack x :=
  legible_iff fun room => readsBackIn_certificate room c

end

end RightOfWay.Logic

namespace RightOfWay.Traffic

open Json (LawfulCodec encode decode ReadsBack ReadsBackIn Legible readsBackIn_iff readsBackIn_list legible_iff
  legible_list legible_float legible_nat lawful_of_iff readsBackIn_of_succ)

theorem Condition.readsBackIn (room : Nat) (c : Condition) : ReadsBackIn room c ↔ (encode c).depth ≤ room ∧ True := by
  have hdepth : (encode c).depth = 0 := rfl
  have hread : ReadsBackIn room c := by cases c <;> rfl
  simp [hdepth, hread]

instance : LawfulCodec Condition := lawful_of_iff Condition.readsBackIn

theorem Phase.readsBackIn (room : Nat) (p : Phase) : ReadsBackIn room p ↔ (encode p).depth ≤ room ∧ True := by
  have hdepth : (encode p).depth = 2 := rfl
  rw [hdepth]
  rcases room with _ | _ | room
  · exact ⟨nofun, nofun⟩
  · exact ⟨nofun, nofun⟩
  · exact ⟨fun _ => ⟨by omega, trivial⟩, fun _ => rfl⟩

instance : LawfulCodec Phase := lawful_of_iff Phase.readsBackIn

theorem decode_position (room : Nat) (v : Json) (p : Position) :
    decode room v = some p ↔ decode room v = some [p.x, p.y] := by
  delta instCodecPosition
  dsimp only
  rcases (decode room v : Option (List Float)) with _ | _ | ⟨x, _ | ⟨y, _ | ⟨z, zs⟩⟩⟩ <;> cases p <;> simp

theorem Position.readsBackIn (room : Nat) (p : Position) :
    ReadsBackIn room p ↔ (encode p).depth ≤ room ∧ ReadsBack p.x ∧ ReadsBack p.y := by
  have hencode : encode p = encode [p.x, p.y] := rfl
  have hlist := readsBackIn_list room [p.x, p.y]
  rw [ReadsBackIn] at hlist ⊢
  rw [decode_position, hencode, hlist]
  simp [legible_float]

instance : LawfulCodec Position := lawful_of_iff Position.readsBackIn

theorem View.readsBackIn_succ (room : Nat) (s : View) :
    ReadsBackIn (room + 1) s ↔ ReadsBackIn room s.phase ∧ ReadsBackIn room s.positions ∧ ReadsBackIn room s.crashes ∧
      ReadsBackIn room s.throughput := by
  change (do return ⟨← decode room (encode s.phase).reread, ← decode room (encode s.positions).reread,
    ← decode room (encode s.crashes).reread, ← decode room (encode s.throughput).reread⟩ : Option View) = _ ↔ _
  cases s
  simp [ReadsBackIn, Option.bind_eq_some_iff]

theorem View.depth_le_iff (room : Nat) (s : View) :
    (encode s).depth ≤ room + 1 ↔ (encode s.phase).depth ≤ room ∧ (encode s.positions).depth ≤ room ∧
      (encode s.crashes).depth ≤ room ∧ (encode s.throughput).depth ≤ room := by
  change max _ (max _ (max _ (max _ 0))) + 1 ≤ _ ↔ _
  simp

theorem View.readsBackIn (room : Nat) (s : View) :
    ReadsBackIn room s ↔ (encode s).depth ≤ room ∧ Legible s.phase ∧ Legible s.positions ∧ Legible s.crashes ∧
      Legible s.throughput := by
  apply readsBackIn_of_succ
  · exact nofun
  · exact Nat.succ_pos _
  · intro room
    rw [View.readsBackIn_succ, View.depth_le_iff]
    simp only [readsBackIn_iff]
    grind

instance : LawfulCodec View := lawful_of_iff View.readsBackIn

end RightOfWay.Traffic

namespace RightOfWay.Control

open Json (Codec LawfulCodec encode decode read? parse? depthLimit ReadsBack ReadsBackIn Legible readsBack_iff
  readsBackIn_iff readsBackIn_list legible_iff legible_list legible_float readsBackIn_float legible_nat
  lawful_of_iff readsBackIn_of_succ)
open Logic (Certificate Formula Trace legible_trace legible_certificate readsBackIn_certificate read?_certificate_eq_none)

theorem putEntry_of_last {name : String} {value : Float} {es : List (String × Float)} (h : ∀ e ∈ es, e.1 < name) :
    putEntry name value es = es ++ [(name, value)] := by
  induction es with
  | nil => rfl
  | cons e es ih =>
    have hlt : e.1 < name := h e (by simp)
    have hnot : ¬ name < e.1 := fun hgt => String.lt_irrefl _ (String.lt_trans hgt hlt)
    have hne : name ≠ e.1 := fun heq => String.lt_irrefl _ (heq ▸ hlt)
    rw [putEntry, if_neg hnot, if_neg hne, ih fun e' he' => h e' (by simp [he'])]
    rfl

theorem Info.foldl_insert_entries (es : List (String × Float)) (i : Info)
    (h : (i.entries ++ es).Pairwise (·.1 < ·.1)) :
    (es.foldl (fun i e => i.insert e.1 e.2) i).entries = i.entries ++ es := by
  induction es generalizing i with
  | nil => simp
  | cons e es ih =>
    have hbefore : ∀ d ∈ i.entries, d.1 < e.1 := by
      intro d hd
      exact (List.pairwise_append.mp h).2.2 d hd e (by simp)
    have hinsert : (i.insert e.1 e.2).entries = i.entries ++ [e] := putEntry_of_last hbefore
    rw [List.foldl_cons, ih _ (by rw [hinsert]; simpa using h), hinsert]
    simp

/-- Diagnostics set in the order of their names are kept in the order in which they are set. -/
theorem Info.ofList_entries (es : List (String × Float)) (h : es.Pairwise (·.1 < ·.1)) : (Info.ofList es).entries = es :=
  Info.foldl_insert_entries es .empty (by simpa [Info.empty] using h)

theorem decodeEntries_eq_some_iff (room : Nat) (ms : List (String × Json)) (es : List (String × Float)) :
    decodeEntries room ms = some es ↔
      ms.map (fun m => (m.1, decode room m.2)) = es.map fun e => (e.1, some e.2) := by
  induction ms generalizing es with
  | nil => cases es <;> simp [decodeEntries]
  | cons m ms ih =>
    cases es with
    | nil =>
      rw [decodeEntries]
      split <;> simp
    | cons e es =>
      have hrest := ih es
      rw [decodeEntries, List.map_cons, List.map_cons, List.cons_eq_cons, ← hrest]
      split <;> simp_all [Prod.ext_iff]

theorem Info.ofList_eq_iff (es : List (String × Float)) (i : Info) (h : es.map Prod.fst = i.entries.map Prod.fst) :
    Info.ofList es = i ↔ es = i.entries := by
  have hsorted : es.Pairwise (·.1 < ·.1) := by
    have hnames := List.pairwise_map.mpr i.sorted
    rw [← h] at hnames
    exact List.pairwise_map.mp hnames
  have hentries := Info.ofList_entries es hsorted
  constructor
  · rintro rfl
    exact hentries.symm
  · intro heq
    rcases hi : Info.ofList es with ⟨entries, sorted⟩
    cases i
    simp_all

def Info.floats (i : Info) : List Float := i.entries.map Prod.snd

theorem Info.readsBackIn_succ (room : Nat) (i : Info) : ReadsBackIn (room + 1) i ↔ ∀ e ∈ i.entries, ReadsBackIn room e.2 := by
  have hdecode : (decode (room + 1) (encode i).reread : Option Info) =
      (decodeEntries room (Json.rereadMembers (i.entries.map fun e => (e.1, encode e.2)))).map Info.ofList := rfl
  have hentries : decode (room + 1) (encode i).reread = some i ↔
      decodeEntries room (Json.rereadMembers (i.entries.map fun e => (e.1, encode e.2))) = some i.entries := by
    rw [hdecode, Option.map_eq_some_iff]
    constructor
    · rintro ⟨es, hes, hi⟩
      have hnames : es.map Prod.fst = i.entries.map Prod.fst := by
        have hmap := congrArg (List.map Prod.fst) ((decodeEntries_eq_some_iff _ _ _).mp hes)
        simp only [Json.rereadMembers_eq_map, List.map_map] at hmap
        exact hmap.symm
      rw [hes, (Info.ofList_eq_iff es i hnames).mp hi]
    · intro h
      exact ⟨i.entries, h, (Info.ofList_eq_iff _ i rfl).mpr rfl⟩
  rw [ReadsBackIn, hentries, decodeEntries_eq_some_iff, Json.rereadMembers_eq_map]
  simp [ReadsBackIn]

theorem Info.depth_eq_one (i : Info) : (encode i).depth = 1 := by
  have hmembers (es : List (String × Float)) :
      Json.depthMembers (es.map fun e => (e.1, encode e.2)) = 0 := by
    induction es with
    | nil => rfl
    | cons e es ih =>
      rw [List.map_cons, Json.depthMembers, ih]
      rfl
  change Json.depthMembers _ + 1 = 1
  rw [hmembers]

theorem Info.readsBackIn (room : Nat) (i : Info) :
    ReadsBackIn room i ↔ (encode i).depth ≤ room ∧ ∀ x ∈ i.floats, ReadsBack x := by
  have hdepth := i.depth_eq_one
  apply readsBackIn_of_succ
  · exact nofun
  · omega
  · intro room
    rw [Info.readsBackIn_succ, hdepth, Info.floats, List.forall_mem_map]
    simp [readsBackIn_float]

instance : LawfulCodec Info := lawful_of_iff Info.readsBackIn

theorem legible_info (i : Info) : Legible i ↔ ∀ x ∈ i.floats, ReadsBack x :=
  legible_iff fun room => Info.readsBackIn room i

theorem Info.readsBack_of_empty {i : Info} (h : i = .empty) : ∀ x ∈ i.floats, ReadsBack x := by
  rw [h]
  exact nofun

section

variable {T A O : Type}

def Transition.floats (t : Transition T) : List Float := t.reward :: t.info.floats

def StepReport.floats (r : StepReport T A O) : List Float := r.reward :: (r.info.floats ++ r.certificate.floats)

def Report.floats (r : Report A O) : List Float := r.totalReward :: r.certificates.flatMap Certificate.floats

variable [Codec T] [Codec A] [Codec O]

/-- Diagnostics that are left out for being empty are filled in again. -/
theorem decode_transition (room : Nat) (t : Transition T) : (decode (room + 1) (encode t).reread : Option (Transition T)) =
    (do return ⟨← decode room (encode t.state).reread, ← decode room (encode t.reward).reread, t.done,
      ← if t.info.isEmpty then some .empty else decode room (encode t.info).reread⟩) := by
  rcases t with ⟨state, reward, done, ⟨_ | ⟨e, es⟩, sorted⟩⟩ <;> rfl

theorem readsBackIn_transition_succ (room : Nat) (t : Transition T) :
    ReadsBackIn (room + 1) t ↔ ReadsBackIn room t.state ∧ ReadsBackIn room t.reward ∧
      (t.info = .empty ∨ ReadsBackIn room t.info) := by
  rw [ReadsBackIn, decode_transition]
  rcases t with ⟨state, reward, done, ⟨_ | ⟨e, es⟩, sorted⟩⟩ <;>
    simp [ReadsBackIn, Option.bind_eq_some_iff, Info.empty, Info.isEmpty]

theorem depth_transition_le_iff (room : Nat) (t : Transition T) :
    (encode t).depth ≤ room + 1 ↔ (encode t.state).depth ≤ room ∧ (encode t.reward).depth ≤ room ∧
      (t.info = .empty ∨ (encode t.info).depth ≤ room) := by
  obtain ⟨state, reward, done, ⟨_ | ⟨e, es⟩, sorted⟩⟩ := t
  · change max _ (max _ (max 0 0)) + 1 ≤ _ ↔ _
    simp [Info.empty]
  · change max _ (max _ (max 0 (max _ 0))) + 1 ≤ _ ↔ _
    simp [Info.empty]

theorem readsBackIn_transition [LawfulCodec T] (room : Nat) (t : Transition T) :
    ReadsBackIn room t ↔ (encode t).depth ≤ room ∧ Legible t.state ∧ ∀ x ∈ t.floats, ReadsBack x := by
  apply readsBackIn_of_succ
  · exact nofun
  · exact Nat.succ_pos _
  · intro room
    have hempty : t.info = .empty → ∀ x ∈ t.info.floats, ReadsBack x := Info.readsBack_of_empty
    rw [readsBackIn_transition_succ, depth_transition_le_iff]
    simp only [readsBackIn_iff, legible_float, legible_info, Transition.floats, List.mem_cons]
    grind

theorem decode_stepReport (room : Nat) (r : StepReport T A O) :
    (decode (room + 1) (encode r).reread : Option (StepReport T A O)) =
      (do return ⟨← decode room (encode r.next).reread, ← decode room (encode r.reward).reread, r.done,
        ← if r.info.isEmpty then some .empty else decode room (encode r.info).reread,
        ← decode room (encode r.certificate).reread, ← decode room (encode r.traces).reread⟩) := by
  rcases r with ⟨next, reward, done, ⟨_ | ⟨e, es⟩, sorted⟩, certificate, traces⟩ <;> rfl

theorem readsBackIn_stepReport_succ (room : Nat) (r : StepReport T A O) :
    ReadsBackIn (room + 1) r ↔ ReadsBackIn room r.next ∧ ReadsBackIn room r.reward ∧
      (r.info = .empty ∨ ReadsBackIn room r.info) ∧ ReadsBackIn room r.certificate ∧ ReadsBackIn room r.traces := by
  rw [ReadsBackIn, decode_stepReport]
  rcases r with ⟨next, reward, done, ⟨_ | ⟨e, es⟩, sorted⟩, certificate, traces⟩ <;>
    simp [ReadsBackIn, Option.bind_eq_some_iff, Info.empty, Info.isEmpty]

theorem depth_stepReport_le_iff (room : Nat) (r : StepReport T A O) :
    (encode r).depth ≤ room + 1 ↔ (encode r.next).depth ≤ room ∧ (encode r.reward).depth ≤ room ∧
      (r.info = .empty ∨ (encode r.info).depth ≤ room) ∧ (encode r.certificate).depth ≤ room ∧
      (encode r.traces).depth ≤ room := by
  obtain ⟨next, reward, done, ⟨_ | ⟨e, es⟩, sorted⟩, certificate, traces⟩ := r
  · change max _ (max _ (max 0 (max _ (max _ 0)))) + 1 ≤ _ ↔ _
    simp [Info.empty]
  · change max _ (max _ (max 0 (max _ (max _ (max _ 0))))) + 1 ≤ _ ↔ _
    simp [Info.empty]

theorem legible_traces [LawfulCodec O] (ts : List (Trace O)) : Legible ts ↔ ∀ t ∈ ts, ∀ o ∈ t.toList, Legible o := by
  simp only [legible_list, legible_trace]

theorem readsBackIn_stepReport [LawfulCodec T] [LawfulCodec A] [LawfulCodec O] (room : Nat) (r : StepReport T A O) :
    ReadsBackIn room r ↔ (encode r).depth ≤ room ∧ Legible r.next ∧ Legible r.certificate.action ∧
      (∀ t ∈ r.traces, ∀ o ∈ t.toList, Legible o) ∧ ∀ x ∈ r.floats, ReadsBack x := by
  apply readsBackIn_of_succ
  · exact nofun
  · exact Nat.succ_pos _
  · intro room
    have hempty : r.info = .empty → ∀ x ∈ r.info.floats, ReadsBack x := Info.readsBack_of_empty
    rw [readsBackIn_stepReport_succ, depth_stepReport_le_iff]
    simp only [readsBackIn_iff, legible_float, legible_info, legible_certificate, legible_traces, StepReport.floats,
      List.mem_cons, List.mem_append]
    grind

theorem readsBackIn_report_succ (room : Nat) (r : Report A O) :
    ReadsBackIn (room + 1) r ↔ ReadsBackIn room r.certificates ∧ ReadsBackIn room r.traces ∧
      ReadsBackIn room r.accepted ∧ ReadsBackIn room r.totalReward := by
  change (do return ⟨← decode room (encode r.certificates).reread, ← decode room (encode r.traces).reread,
    ← decode room (encode r.accepted).reread, ← decode room (encode r.totalReward).reread⟩ :
    Option (Report A O)) = _ ↔ _
  cases r
  simp [ReadsBackIn, Option.bind_eq_some_iff]

theorem depth_report_le_iff (room : Nat) (r : Report A O) :
    (encode r).depth ≤ room + 1 ↔ (encode r.certificates).depth ≤ room ∧ (encode r.traces).depth ≤ room ∧
      (encode r.accepted).depth ≤ room ∧ (encode r.totalReward).depth ≤ room := by
  change max _ (max _ (max _ (max _ 0))) + 1 ≤ _ ↔ _
  simp

theorem readsBackIn_report [LawfulCodec A] [LawfulCodec O] (room : Nat) (r : Report A O) :
    ReadsBackIn room r ↔ (encode r).depth ≤ room ∧ (∀ c ∈ r.certificates, Legible c.action) ∧
      (∀ t ∈ r.traces, ∀ o ∈ t.toList, Legible o) ∧ r.accepted < UInt64.size ∧ ∀ x ∈ r.floats, ReadsBack x := by
  apply readsBackIn_of_succ
  · exact nofun
  · exact Nat.succ_pos _
  · intro room
    rw [readsBackIn_report_succ, depth_report_le_iff]
    simp only [readsBackIn_iff, legible_list, legible_certificate, legible_trace, legible_nat, legible_float, Report.floats,
      List.mem_cons, List.mem_flatMap]
    grind

theorem decode_list_eq_some_iff (room : Nat) (v : Json) (os : List O) :
    decode (room + 1) v = some os ↔ ∃ vs, v = .arr vs ∧ vs.map (decode room) = os.map some := by
  cases v with
  | arr vs =>
    change Json.decodeAll room vs = some os ↔ _
    simp [Json.decodeAll_eq_some_iff]
  | _ =>
    change none = some os ↔ _
    simp

theorem read?_trace_eq_some_iff (text : String) (t : Trace O) :
    read? (Trace O) text = some t ↔
      ∃ vs, parse? text = some (.arr vs) ∧ vs.map (decode (depthLimit - 1)) = t.toList.map some := by
  rw [read?, Option.bind_eq_some_iff]
  simp only [Logic.decode_trace, Option.bind_eq_some_iff, Trace.ofList?_eq_some_iff]
  constructor
  · rintro ⟨v, hparse, os, hos, rfl⟩
    obtain ⟨vs, rfl, hvs⟩ := (decode_list_eq_some_iff (depthLimit - 1) v _).mp hos
    exact ⟨vs, hparse, hvs⟩
  · rintro ⟨vs, hparse, hvs⟩
    exact ⟨.arr vs, hparse, t.toList, (decode_list_eq_some_iff (depthLimit - 1) _ _).mpr ⟨vs, rfl, hvs⟩, rfl⟩

theorem exists_read?_trace_iff (text : String) :
    (∃ t, read? (Trace O) text = some t) ↔
      ∃ vs, parse? text = some (.arr vs) ∧ vs ≠ [] ∧ ∀ v ∈ vs, ∃ o : O, decode (depthLimit - 1) v = some o := by
  simp only [read?_trace_eq_some_iff]
  constructor
  · rintro ⟨t, vs, hparse, hvs⟩
    refine ⟨vs, hparse, ?_, ?_⟩
    · rintro rfl
      cases hvs
    · intro v hv
      have hmem : decode (depthLimit - 1) v ∈ t.toList.map some := hvs ▸ List.mem_map_of_mem hv
      obtain ⟨o, -, ho⟩ := List.mem_map.mp hmem
      exact ⟨o, ho.symm⟩
  · rintro ⟨vs, hparse, hne, hvs⟩
    obtain ⟨v, vs, rfl⟩ := List.exists_cons_of_ne_nil hne
    obtain ⟨o, -⟩ := hvs v (by simp)
    have : Nonempty O := ⟨o⟩
    choose! f hf using hvs
    refine ⟨⟨f v, vs.map f⟩, v :: vs, hparse, ?_⟩
    have hmap : (v :: vs).map (decode (depthLimit - 1)) = (v :: vs).map fun v => some (f v) := List.map_congr_left hf
    rw [hmap]
    simp [Trace.toList]

/-- Records come back from their texts exactly when their brackets are within the limit and their numbers, actions, states
and observations come back; a list is read as a trace exactly when it has elements and all of them are read. -/
theorem records_read_back_iff_parts_do [LawfulCodec T] [LawfulCodec A] [LawfulCodec O] :
    (∀ c : Certificate A, ReadsBack c ↔ (encode c).depth ≤ depthLimit ∧ Legible c.action ∧
      ∀ x ∈ c.floats, ReadsBack x) ∧
    (∀ t : Transition T, ReadsBack t ↔ (encode t).depth ≤ depthLimit ∧ Legible t.state ∧
      ∀ x ∈ t.floats, ReadsBack x) ∧
    (∀ r : StepReport T A O, ReadsBack r ↔ (encode r).depth ≤ depthLimit ∧ Legible r.next ∧
      Legible r.certificate.action ∧ (∀ t ∈ r.traces, ∀ o ∈ t.toList, Legible o) ∧ ∀ x ∈ r.floats, ReadsBack x) ∧
    (∀ r : Report A O, ReadsBack r ↔ (encode r).depth ≤ depthLimit ∧ (∀ c ∈ r.certificates, Legible c.action) ∧
      (∀ t ∈ r.traces, ∀ o ∈ t.toList, Legible o) ∧ r.accepted < UInt64.size ∧ ∀ x ∈ r.floats, ReadsBack x) ∧
    (∀ x : Float, ReadsBack x → Number.kind x ≠ .nan ∧ Number.kind x ≠ .infinite) ∧
    (∀ text, (∃ t, read? (Trace O) text = some t) ↔
      ∃ vs, parse? text = some (.arr vs) ∧ vs ≠ [] ∧ ∀ v ∈ vs, ∃ o : O, decode (depthLimit - 1) v = some o) ∧
    (∀ text (t : Trace O), read? (Trace O) text = some t ↔
      ∃ vs, parse? text = some (.arr vs) ∧ vs.map (decode (depthLimit - 1)) = t.toList.map some) := by
  refine ⟨fun c => (readsBack_iff c).trans (readsBackIn_certificate depthLimit c),
    fun t => (readsBack_iff t).trans (readsBackIn_transition depthLimit t),
    fun r => (readsBack_iff r).trans (readsBackIn_stepReport depthLimit r),
    fun r => (readsBack_iff r).trans (readsBackIn_report depthLimit r), ?_, exists_read?_trace_iff,
    read?_trace_eq_some_iff⟩
  intro x hx
  exact ⟨fun hnan => Json.not_readsBack_of_kind (.inl hnan) hx,
    fun hinfinite => Json.not_readsBack_of_kind (.inr hinfinite) hx⟩

end

/-- A step without diagnostics whose certificate has degrees of both shapes, with and without values. -/
def outing : StepReport Traffic.View Traffic.Phase Traffic.Condition where
  next := ⟨⟨true, false, true, false⟩, [⟨3.0, -0.5⟩], 0, 1⟩
  reward := 0.5
  done := false
  info := .empty
  certificate := ⟨.sequence [], ⟨true, false, true, false⟩, [.scalar 1.0, .sequence [], .sequence [0.0, 1e-5]]⟩
  traces := [⟨.flow, [.empty]⟩]

theorem records_read_back_iff_parts_do_outing : ReadsBack outing := by
  obtain ⟨-, -, hreport, -⟩ :=
    records_read_back_iff_parts_do (T := Traffic.View) (A := Traffic.Phase) (O := Traffic.Condition)
  have hdepth : (encode outing).depth = 4 := by decide +kernel
  have hfloats : ∀ x ∈ [0.5, 1.0, 0.0, 1e-5], ReadsBack x := by
    simp only [List.forall_mem_cons, readsBack_iff]
    exact ⟨rfl, rfl, rfl, rfl, by simp⟩
  have hobservations : ∀ o ∈ [Traffic.Condition.flow, .empty], Legible o := by
    simp only [List.forall_mem_cons]
    exact ⟨⟨0, rfl⟩, ⟨0, rfl⟩, by simp⟩
  apply (hreport outing).mpr
  refine ⟨by rw [hdepth]; decide, ⟨3, rfl⟩, ⟨2, rfl⟩, ?_, hfloats⟩
  intro t ht
  rw [List.mem_singleton.mp ht]
  exact hobservations

/-- A certificate for that many negations, one inside the other. -/
def stack (levels : Nat) : Certificate Formula := ⟨.scalar 1.0, Nat.repeat .neg levels .truth, []⟩

/-- A formula that only just comes back alone does not come back in a certificate, whose text cannot be read at all. One
level deeper it does not come back alone either. -/
theorem deep_certificate_not_read :
    (∀ x ∈ (stack 127).floats, ReadsBack x) ∧ ReadsBack (stack 127).action ∧
    (encode (stack 127)).depth = depthLimit + 1 ∧ read? (Certificate Formula) (encode (stack 127)).compact = none ∧
    read? Formula (encode (stack 128).action).compact = none ∧
    read? (Certificate Formula) (encode (stack 128)).compact = none := by
  have hlower : (encode (stack 127).action).depth = depthLimit := by decide +kernel
  have hupper : (encode (stack 128).action).depth = depthLimit + 1 := by decide +kernel
  have hunread (levels : Nat) (h : depthLimit ≤ (encode (stack levels).action).depth) :
      read? (Certificate Formula) (encode (stack levels)).compact = none := by
    apply read?_certificate_eq_none
    rw [Formula.decode_reread, if_neg]
    have hlimit : depthLimit = 127 := rfl
    omega
  refine ⟨?_, ?_, by decide +kernel, hunread 127 (by omega), ?_, hunread 128 (by omega)⟩
  · intro x hx
    rw [List.mem_singleton.mp hx, readsBack_iff]
    rfl
  · rw [readsBack_iff, readsBackIn_iff]
    exact ⟨hlower.le, Formula.legible _⟩
  · rw [Formula.read?_compact_encode, if_neg (by omega)]

end RightOfWay.Control

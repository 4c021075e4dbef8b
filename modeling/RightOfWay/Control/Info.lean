namespace RightOfWay.Control

/-- Puts a value under a name into entries sorted by name; a value already there is replaced. -/
def putEntry (name : String) (value : Float) : List (String × Float) → List (String × Float)
  | [] => [(name, value)]
  | e :: es =>
    if name < e.1 then (name, value) :: e :: es
    else if name = e.1 then (name, value) :: es
    else e :: putEntry name value es

theorem mem_putEntry {name : String} {value : Float} {es : List (String × Float)} {e : String × Float}
    (h : e ∈ putEntry name value es) : e = (name, value) ∨ e ∈ es := by
  induction es with
  | nil => exact .inl (List.mem_singleton.1 h)
  | cons d ds ih =>
    unfold putEntry at h
    split at h
    · exact List.mem_cons.1 h
    · split at h
      · rcases List.mem_cons.1 h with h | h
        · exact .inl h
        · exact .inr (List.mem_cons_of_mem _ h)
      · rcases List.mem_cons.1 h with h | h
        · exact .inr (h ▸ List.mem_cons_self)
        · exact (ih h).imp_right (List.mem_cons_of_mem _)

theorem putEntry_sorted (name : String) (value : Float) {es : List (String × Float)}
    (h : es.Pairwise (·.1 < ·.1)) : (putEntry name value es).Pairwise (·.1 < ·.1) := by
  induction es with
  | nil => exact List.pairwise_singleton _ _
  | cons d ds ih =>
    obtain ⟨hd, hds⟩ := List.pairwise_cons.1 h
    unfold putEntry
    split
    · rename_i hlt
      refine List.pairwise_cons.2 ⟨fun e he => ?_, h⟩
      rcases List.mem_cons.1 he with rfl | he
      · exact hlt
      · exact String.lt_trans hlt (hd e he)
    · rename_i hnlt
      split
      · rename_i heq
        exact List.pairwise_cons.2 ⟨fun e he => heq ▸ hd e he, hds⟩
      · rename_i hne
        refine List.pairwise_cons.2 ⟨fun e he => ?_, ih hds⟩
        rcases mem_putEntry he with rfl | he
        · exact String.not_le.1 fun hle => hne (String.le_antisymm hle (String.not_lt.1 hnlt))
        · exact hd e he

/-- Diagnostics of a step. -/
structure Info where
  entries : List (String × Float)
  sorted : entries.Pairwise (·.1 < ·.1)

namespace Info

def empty : Info := ⟨[], .nil⟩

def insert (i : Info) (name : String) (value : Float) : Info :=
  ⟨putEntry name value i.entries, putEntry_sorted name value i.sorted⟩

/-- The diagnostics that arise by setting the values one after the other. -/
def ofList (es : List (String × Float)) : Info := es.foldl (fun i e => i.insert e.1 e.2) empty

def isEmpty (i : Info) : Bool := i.entries.isEmpty

end Info

end RightOfWay.Control

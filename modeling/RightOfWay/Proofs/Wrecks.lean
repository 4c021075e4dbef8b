import RightOfWay.Traffic.Crossing
import Mathlib.Data.List.Basic
import Mathlib.Tactic.Common

namespace RightOfWay.Traffic

namespace Vehicle

/-- Whether another vehicle of the list is on the same cell. -/
def meetsIn (vs : List Vehicle) (v : Vehicle) : Bool := vs.any fun w => w.id ≠ v.id && w.cell = v.cell

/-- The vehicle after the collisions of a list. -/
def struck (vs : List Vehicle) (v : Vehicle) : Vehicle := if v.meetsIn vs then v.wreck else v

/-- The vehicles ahead of `v` and `v` itself, after they have met. -/
def passed (v : Vehicle) (ahead : List Vehicle) : List Vehicle :=
  (v.meet ahead).1 ++ [(v.meet ahead).2.1]

@[simp] theorem wreck_id (v : Vehicle) : v.wreck.id = v.id := rfl

@[simp] theorem wreck_cell (v : Vehicle) : v.wreck.cell = v.cell := rfl

@[simp] theorem wreck_crashed (v : Vehicle) : v.wreck.crashed = true := rfl

@[simp] theorem wreck_wreck (v : Vehicle) : v.wreck.wreck = v.wreck := rfl

theorem wreck_eq_self (v : Vehicle) (h : v.crashed = true) : v.wreck = v := by
  cases v
  subst h
  rfl

theorem meetsIn_iff (vs : List Vehicle) (v : Vehicle) :
    v.meetsIn vs = true ↔ ∃ w ∈ vs, w.id ≠ v.id ∧ w.cell = v.cell := by
  simp [meetsIn]

@[simp] theorem meetsIn_wreck (vs : List Vehicle) (v : Vehicle) : v.wreck.meetsIn vs = v.meetsIn vs := rfl

theorem meetsIn_congr (vs ws : List Vehicle) (v : Vehicle)
    (h : vs.map (fun w => (w.id, w.cell)) = ws.map fun w => (w.id, w.cell)) : v.meetsIn vs = v.meetsIn ws := by
  have hany (us : List Vehicle) : v.meetsIn us =
      (us.map fun w => (w.id, w.cell)).any fun x => x.1 ≠ v.id && x.2 = v.cell := by
    rw [List.any_map]
    rfl
  rw [hany vs, hany ws, h]

@[simp] theorem struck_id (vs : List Vehicle) (v : Vehicle) : (v.struck vs).id = v.id := by
  rw [struck]
  split <;> rfl

@[simp] theorem struck_cell (vs : List Vehicle) (v : Vehicle) : (v.struck vs).cell = v.cell := by
  rw [struck]
  split <;> rfl

theorem struck_crashed (vs : List Vehicle) (v : Vehicle) :
    (v.struck vs).crashed = true ↔ v.crashed = true ∨ v.meetsIn vs = true := by
  rw [struck]
  by_cases h : v.meetsIn vs = true
  · simp [h]
  · simp [h]

theorem struck_wreck (vs : List Vehicle) (v : Vehicle) (h : v.meetsIn vs = true) :
    v.wreck.struck vs = v.struck vs := by
  rw [struck, struck, meetsIn_wreck, if_pos h, if_pos h, wreck_wreck]

theorem struck_eq_self (vs : List Vehicle) (v : Vehicle) (h : v.meetsIn vs = true → v.crashed = true) :
    v.struck vs = v := by
  rw [struck]
  by_cases hm : v.meetsIn vs = true
  · rw [if_pos hm, wreck_eq_self v (h hm)]
  · rw [if_neg hm]

/-- Meeting those ahead wrecks the ones on the same cell, and the vehicle itself if there are any. -/
theorem meet_eq (v : Vehicle) (ahead : List Vehicle) :
    (v.meet ahead).1 = ahead.map (fun w => if w.cell = v.cell then w.wreck else w) ∧
    (v.meet ahead).2.1 = if ahead.any (fun w => w.cell = v.cell) then v.wreck else v := by
  induction ahead generalizing v with
  | nil => simp [meet]
  | cons w ws ih =>
    by_cases hcell : w.cell = v.cell
    · by_cases hold : (w.crashed && v.crashed) = true
      · have hboth : w.crashed = true ∧ v.crashed = true := by simpa using hold
        have h := ih v
        simp [meet, hcell, hold, h.1, h.2, wreck_eq_self w hboth.1, wreck_eq_self v hboth.2]
      · -- a crash: the vehicle goes on to the others as a wreck on the same cell
        have h : (v.wreck.meet ws).1 = ws.map (fun w => if w.cell = v.cell then w.wreck else w) ∧
            (v.wreck.meet ws).2.1 = if ws.any (fun w => w.cell = v.cell) then v.wreck else v.wreck :=
          ih v.wreck
        simp [meet, hcell, hold, h.1, h.2]
    · have h := ih v
      simp [meet, hcell, h.1, h.2]

/-- Nothing is counted iff only wrecks met. -/
theorem meet_count_eq_zero_iff (v : Vehicle) (ahead : List Vehicle) :
    (v.meet ahead).2.2 = 0 ↔ ∀ w ∈ ahead, w.cell = v.cell → w.crashed = true ∧ v.crashed = true := by
  induction ahead generalizing v with
  | nil => simp [meet]
  | cons w ws ih =>
    by_cases hhit : (w.cell = v.cell && !(w.crashed && v.crashed)) = true
    · simp only [meet, hhit, if_true]
      simp only [Bool.and_eq_true, decide_eq_true_eq, Bool.not_eq_true', Bool.and_eq_false_imp] at hhit
      refine iff_of_false (by simp) ?_
      intro h
      obtain ⟨hw, hv⟩ := h w (by simp) hhit.1
      simp [hv] at hhit
      simp [hhit.2] at hw
    · simp only [meet, hhit, Bool.false_eq_true, if_false]
      rw [ih v, List.forall_mem_cons]
      simp only [Bool.and_eq_true, decide_eq_true_eq, Bool.not_eq_true', Bool.and_eq_false_imp] at hhit
      constructor
      · intro h
        refine ⟨?_, h⟩
        intro hcell
        simpa [hcell] using hhit
      · intro h
        exact h.2

theorem passed_eq (v : Vehicle) (ahead : List Vehicle) :
    v.passed ahead = ahead.map (fun w => if w.cell = v.cell then w.wreck else w) ++
      [if ahead.any (fun w => w.cell = v.cell) then v.wreck else v] := by
  rw [passed, (v.meet_eq ahead).1, (v.meet_eq ahead).2]

theorem passed_shape (v : Vehicle) (ahead : List Vehicle) :
    (v.passed ahead).map (fun w => (w.id, w.cell)) = (ahead ++ [v]).map fun w => (w.id, w.cell) := by
  rw [passed_eq, List.map_append, List.map_append, List.map_map]
  congr 1
  · apply List.map_congr_left
    intro w _
    rw [Function.comp_apply]
    split <;> rfl
  · split <;> rfl

theorem crashed_of_meet_count (v : Vehicle) (ahead : List Vehicle) (h : (v.meet ahead).2.2 ≠ 0) :
    (v.meet ahead).2.1.crashed = true := by
  rw [Ne, meet_count_eq_zero_iff] at h
  push Not at h
  obtain ⟨w, hw, hcell, -⟩ := h
  have hany : ahead.any (fun w => w.cell = v.cell) = true := by
    simp only [List.any_eq_true, decide_eq_true_eq]
    exact ⟨w, hw, hcell⟩
  rw [(v.meet_eq ahead).2, if_pos hany, wreck_crashed]

theorem passed_of_meet_count (v : Vehicle) (ahead : List Vehicle) (h : (v.meet ahead).2.2 = 0) :
    v.passed ahead = ahead ++ [v] := by
  rw [meet_count_eq_zero_iff] at h
  rw [passed_eq]
  congr 1
  · refine (List.map_congr_left (g := fun w => w) ?_).trans (List.map_id' ahead)
    intro w hw
    by_cases hcell : w.cell = v.cell
    · rw [if_pos hcell, wreck_eq_self w (h w hw hcell).1]
    · rw [if_neg hcell]
  · by_cases hany : ahead.any (fun w => w.cell = v.cell) = true
    · rw [if_pos hany]
      simp only [List.any_eq_true, decide_eq_true_eq] at hany
      obtain ⟨w, hw, hcell⟩ := hany
      rw [wreck_eq_self v (h w hw hcell).2]
    · rw [if_neg hany]

end Vehicle

/-- The vehicles ahead have settled their collisions among themselves, and no identifier occurs twice. -/
structure Settled (ahead vs : List Vehicle) : Prop where
  ids : ((ahead ++ vs).map Vehicle.id).Nodup
  wrecked : ∀ w ∈ ahead, w.meetsIn ahead = true → w.crashed = true

namespace Settled

variable {ahead vs : List Vehicle} {v : Vehicle}

theorem id_ne (h : Settled ahead (v :: vs)) (w : Vehicle) (hw : w ∈ ahead) : w.id ≠ v.id := by
  have hids := h.ids
  rw [List.map_append, List.nodup_append] at hids
  exact hids.2.2 w.id (List.mem_map_of_mem hw) v.id (by simp)

/-- Letting one more vehicle pass keeps the vehicles ahead settled. -/
theorem pass (h : Settled ahead (v :: vs)) : Settled (v.passed ahead) vs := by
  have hid : ((v.passed ahead).map Vehicle.id) = (ahead ++ [v]).map Vehicle.id := by
    simpa only [List.map_map, Function.comp_def] using congrArg (List.map Prod.fst) (v.passed_shape ahead)
  refine ⟨?_, ?_⟩
  · rw [List.map_append, hid, ← List.map_append, List.append_assoc]
    exact h.ids
  · intro w hw hmeets
    rw [Vehicle.meetsIn_congr _ _ w (v.passed_shape ahead), Vehicle.meetsIn_iff] at hmeets
    obtain ⟨x, hx, hne, hcell⟩ := hmeets
    rw [Vehicle.passed_eq, List.mem_append, List.mem_map, List.mem_singleton] at hw
    rw [List.mem_append, List.mem_singleton] at hx
    rcases hw with ⟨y, hy, rfl⟩ | rfl
    · by_cases hyv : y.cell = v.cell
      · rw [if_pos hyv, Vehicle.wreck_crashed]
      · rw [if_neg hyv] at hne hcell ⊢
        rcases hx with hx | rfl
        · exact h.wrecked y hy ((Vehicle.meetsIn_iff _ _).mpr ⟨x, hx, hne, hcell⟩)
        · exact absurd hcell.symm hyv
    · by_cases hany : ahead.any (fun w => w.cell = v.cell) = true
      · rw [if_pos hany, Vehicle.wreck_crashed]
      · rw [if_neg hany] at hne hcell
        rcases hx with hx | rfl
        · exact absurd (List.any_eq_true.mpr ⟨x, hx, by simpa using hcell⟩) hany
        · exact absurd rfl hne

end Settled

theorem collide_cons (ahead : List Vehicle) (v : Vehicle) (vs : List Vehicle) :
    collide ahead (v :: vs) =
      ((collide (v.passed ahead) vs).1, (v.meet ahead).2.2 + (collide (v.passed ahead) vs).2) := rfl

/-- Passing anticipates what the whole list does to the vehicles ahead and to the one that passes. -/
theorem passed_map_struck (ahead vs : List Vehicle) (v : Vehicle) (h : Settled ahead (v :: vs)) :
    (v.passed ahead).map (Vehicle.struck (ahead ++ v :: vs)) =
      (ahead ++ [v]).map (Vehicle.struck (ahead ++ v :: vs)) := by
  rw [Vehicle.passed_eq, List.map_append, List.map_append, List.map_map]
  congr 1
  · apply List.map_congr_left
    intro w hw
    rw [Function.comp_apply]
    by_cases hcell : w.cell = v.cell
    · rw [if_pos hcell]
      apply Vehicle.struck_wreck
      rw [Vehicle.meetsIn_iff]
      exact ⟨v, by simp, (h.id_ne w hw).symm, hcell.symm⟩
    · rw [if_neg hcell]
  · by_cases hany : ahead.any (fun w => w.cell = v.cell) = true
    · rw [if_pos hany, List.map_singleton, List.map_singleton, Vehicle.struck_wreck]
      simp only [List.any_eq_true, decide_eq_true_eq] at hany
      obtain ⟨w, hw, hcell⟩ := hany
      rw [Vehicle.meetsIn_iff]
      exact ⟨w, by simp [hw], h.id_ne w hw, hcell⟩
    · rw [if_neg hany]

/-- All collisions at once: each vehicle that shares its cell becomes a wreck. -/
theorem collide_eq (ahead vs : List Vehicle) (h : Settled ahead vs) :
    (collide ahead vs).1 = (ahead ++ vs).map (Vehicle.struck (ahead ++ vs)) := by
  induction vs generalizing ahead with
  | nil =>
    rw [List.append_nil, collide]
    refine ((List.map_congr_left (g := fun w => w) ?_).trans (List.map_id' ahead)).symm
    intro w hw
    exact Vehicle.struck_eq_self ahead w (h.wrecked w hw)
  | cons v vs ih =>
    -- passing leaves identifiers and cells alone, so the rest of the list strikes as before
    have hall : Vehicle.struck (v.passed ahead ++ vs) = Vehicle.struck (ahead ++ v :: vs) := by
      funext w
      rw [Vehicle.struck, Vehicle.struck, Vehicle.meetsIn_congr (v.passed ahead ++ vs) (ahead ++ v :: vs) w]
      rw [List.map_append, v.passed_shape ahead, ← List.map_append, List.append_assoc]
      rfl
    rw [collide_cons]
    dsimp only
    rw [ih _ h.pass, hall, List.map_append, passed_map_struck ahead vs v h, ← List.map_append,
      List.append_assoc]
    rfl

/-- A crash is counted only if there is a wreck afterwards. -/
theorem crashed_of_collide_count (ahead vs : List Vehicle) (h : Settled ahead vs)
    (hcount : (collide ahead vs).2 ≠ 0) : ∃ v ∈ (collide ahead vs).1, v.crashed = true := by
  induction vs generalizing ahead with
  | nil => exact absurd rfl hcount
  | cons v vs ih =>
    rw [collide_cons] at hcount ⊢
    by_cases hmeet : (v.meet ahead).2.2 = 0
    · exact ih _ h.pass (by simpa [hmeet] using hcount)
    · dsimp only
      rw [collide_eq _ _ h.pass]
      refine ⟨_, List.mem_map_of_mem (a := (v.meet ahead).2.1) (by simp [Vehicle.passed]), ?_⟩
      rw [Vehicle.struck_crashed]
      exact .inl (v.crashed_of_meet_count ahead hmeet)

theorem collide_of_count (ahead vs : List Vehicle) (hcount : (collide ahead vs).2 = 0) :
    (collide ahead vs).1 = ahead ++ vs := by
  induction vs generalizing ahead with
  | nil => rw [collide, List.append_nil]
  | cons v vs ih =>
    rw [collide_cons] at hcount ⊢
    dsimp only at hcount ⊢
    obtain ⟨hmeet, hrest⟩ := Nat.add_eq_zero_iff.mp hcount
    rw [ih _ hrest, v.passed_of_meet_count ahead hmeet, List.append_assoc]
    rfl

end RightOfWay.Traffic

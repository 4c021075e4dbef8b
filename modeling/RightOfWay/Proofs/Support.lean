import RightOfWay.Logic.Formula
import Mathlib.Data.List.Basic
import Mathlib.Tactic.Common

namespace RightOfWay.Logic.Formula

mutual

/-- The names at the leaves of a formula, left to right, with repetitions. -/
def leaves : Formula → List String
  | .atom name => [name]
  | .truth => []
  | .neg p | .always p | .eventually p => leaves p
  | .conj ps | .disj ps => leavesList ps
  | .untl p q => leaves p ++ leaves q

def leavesList : List Formula → List String
  | [] => []
  | p :: ps => leaves p ++ leavesList ps

end

theorem leavesList_eq_flatMap (ps : List Formula) : leavesList ps = ps.flatMap leaves := by
  induction ps with
  | nil => rfl
  | cons p ps ih => rw [leavesList, ih, List.flatMap_cons]

variable {seen : List String} {name : String}

/-- A visit adds a name that was not seen before. -/
def visit (seen : List String) (name : String) : List String :=
  if seen.contains name then seen else seen ++ [name]

theorem visit_of_mem (h : name ∈ seen) : visit seen name = seen :=
  if_pos (List.contains_iff_mem.mpr h)

theorem visit_of_not_mem (h : name ∉ seen) : visit seen name = seen ++ [name] :=
  if_neg (by simpa using h)

mutual

/-- The walk over a formula visits its leaves in order. -/
theorem collect_eq_foldl : ∀ (p : Formula) (seen : List String), collect seen p = p.leaves.foldl visit seen
  | .atom name, seen => rfl
  | .truth, seen => rfl
  | .neg p, seen | .always p, seen | .eventually p, seen => collect_eq_foldl p seen
  | .conj ps, seen | .disj ps, seen => collectList_eq_foldl ps seen
  | .untl p q, seen => by
    rw [collect, leaves, List.foldl_append, collect_eq_foldl p, collect_eq_foldl q]

theorem collectList_eq_foldl : ∀ (ps : List Formula) (seen : List String),
    collectList seen ps = (leavesList ps).foldl visit seen
  | [], seen => rfl
  | p :: ps, seen => by
    rw [collectList, leavesList, List.foldl_append, collect_eq_foldl p, collectList_eq_foldl ps]

end

theorem nodup_visit (h : seen.Nodup) (name : String) : (visit seen name).Nodup := by
  by_cases hname : name ∈ seen
  · rw [visit_of_mem hname]
    exact h
  · rw [visit_of_not_mem hname, List.nodup_append]
    refine ⟨h, by simp, ?_⟩
    intro x hx y hy hxy
    obtain rfl := List.mem_singleton.mp hy
    exact hname (hxy ▸ hx)

theorem nodup_foldl_visit (names : List String) (h : seen.Nodup) : (names.foldl visit seen).Nodup := by
  induction names generalizing seen with
  | nil => exact h
  | cons name names ih => exact ih (nodup_visit h name)

/-- The names of a list that were not seen before, each where it first occurs. -/
def unseen (seen names : List String) : List String :=
  (names.filter fun name => !seen.contains name).eraseDups

theorem unseen_cons_of_mem (names : List String) (h : name ∈ seen) :
    unseen seen (name :: names) = unseen seen names := by
  simp [unseen, h]

/-- A new name comes first, and from then on it has been seen. -/
theorem unseen_cons_of_not_mem (names : List String) (h : name ∉ seen) :
    unseen seen (name :: names) = name :: unseen (seen ++ [name]) names := by
  have hlater : ((names.filter fun x => !seen.contains x).filter fun x => !x == name) =
      names.filter fun x => !(seen ++ [name]).contains x := by
    rw [List.filter_filter]
    apply List.filter_congr
    intro x _
    simp [beq_eq_decide, Bool.and_comm]
  rw [unseen, List.filter_cons_of_pos (by simpa using h), List.eraseDups_cons, hlater, unseen]

/-- Visits leave what was seen in its place and put the other names behind it. -/
theorem foldl_visit (names seen : List String) : names.foldl visit seen = seen ++ unseen seen names := by
  -- each visit changes what has been seen, so the induction is for every list to start from
  induction names generalizing seen with
  | nil => simp [unseen]
  | cons name names ih =>
    rw [List.foldl_cons, ih]
    by_cases h : name ∈ seen
    · rw [visit_of_mem h, unseen_cons_of_mem names h]
    · rw [visit_of_not_mem h, unseen_cons_of_not_mem names h]
      simp

theorem mem_atoms (name : String) (p : Formula) : name ∈ p.atoms ↔ name ∈ p.leaves := by
  rw [atoms, collect_eq_foldl, foldl_visit]
  simp [unseen]

theorem leaves_subset_of_mem {p : Formula} {ps : List Formula} (hp : p ∈ ps) : p.leaves ⊆ leavesList ps := by
  intro name hname
  rw [leavesList_eq_flatMap, List.mem_flatMap]
  exact ⟨p, hp, hname⟩

mutual

theorem length_leaves_le_size : ∀ p : Formula, p.leaves.length ≤ p.size
  | .atom name => Nat.le_refl 1
  | .truth => Nat.zero_le 1
  | .neg p | .always p | .eventually p => Nat.le_add_left_of_le (length_leaves_le_size p)
  | .conj ps | .disj ps => Nat.le_add_left_of_le (length_leavesList_le_sizeList ps)
  | .untl p q => by
    have hp := length_leaves_le_size p
    have hq := length_leaves_le_size q
    rw [leaves, size, List.length_append]
    omega

theorem length_leavesList_le_sizeList : ∀ ps : List Formula, (leavesList ps).length ≤ sizeList ps
  | [] => Nat.le_refl 0
  | p :: ps => by
    have hp := length_leaves_le_size p
    have hps := length_leavesList_le_sizeList ps
    rw [leavesList, sizeList, List.length_append]
    omega

end

/-- A walk returns the names it started from and behind them the other names at the leaves of the formula, each once and
in the order of first occurrence. -/
theorem collect_appends_first_occurrences (p : Formula) :
    (∀ seen : List String, collect seen p = seen ++ (p.leaves.filter fun name => name ∉ seen).eraseDups ∧
      (seen.Nodup → (collect seen p).Nodup)) ∧
    p.atoms = p.leaves.eraseDups ∧
    p.atoms.Nodup ∧
    p.atoms.length ≤ p.size := by
  have hwalk (seen : List String) : collect seen p = seen ++ (p.leaves.filter fun name => name ∉ seen).eraseDups := by
    rw [collect_eq_foldl, foldl_visit, unseen]
    simp
  have hnodup (seen : List String) (h : seen.Nodup) : (collect seen p).Nodup := by
    rw [collect_eq_foldl]
    exact nodup_foldl_visit p.leaves h
  have hatoms : p.atoms.Nodup := hnodup [] List.nodup_nil
  refine ⟨fun seen => ⟨hwalk seen, hnodup seen⟩, ?_, hatoms, ?_⟩
  · rw [atoms, hwalk []]
    simp
  · have hsubset : p.atoms ⊆ p.leaves := fun name hname => (mem_atoms name p).mp hname
    exact Nat.le_trans (hatoms.length_le_of_subset hsubset) (length_leaves_le_size p)

/-- Crossing lanes are named in pairs, one of them below an until. -/
def pairedLanes : Formula :=
  .disj [.and (.atom "N") (.atom "E"), .untl (.atom "N") (.neg (.atom "W")), .and (.atom "S") (.atom "E")]

/-- A walk that has seen one of the lanes already leaves it in its place. -/
theorem collect_appends_first_occurrences_paired :
    pairedLanes.leaves = ["N", "E", "N", "W", "S", "E"] ∧
    collect ["W", "X"] pairedLanes = ["W", "X"] ++ ["N", "E", "S"] ∧
    (collect ["W", "X"] pairedLanes).Nodup ∧
    pairedLanes.atoms = ["N", "E", "W", "S"] ∧
    pairedLanes.atoms.length ≤ pairedLanes.size := by
  obtain ⟨hwalk, hatoms, -, hsize⟩ := collect_appends_first_occurrences pairedLanes
  obtain ⟨hseen, hnodup⟩ := hwalk ["W", "X"]
  have hleaves : pairedLanes.leaves = ["N", "E", "N", "W", "S", "E"] := rfl
  rw [hleaves] at hseen hatoms
  exact ⟨hleaves, hseen, hnodup (by decide), hatoms, hsize⟩

end RightOfWay.Logic.Formula

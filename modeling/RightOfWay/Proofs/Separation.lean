import RightOfWay.Proofs.Closeness
import RightOfWay.Traffic.Crossing

namespace RightOfWay.Traffic

open Number.Binary64

/-- A point that is exactly on a cell. -/
structure Position.IsOn (p : Position) (c : Cell) : Prop where
  x : IsInteger (unpacked p.x) c.x
  y : IsInteger (unpacked p.y) c.y

/-- A cell at most `2 ^ 31` from the centre in either direction. -/
structure Cell.Near (c : Cell) : Prop where
  x : c.x.natAbs ≤ 2 ^ 31
  y : c.y.natAbs ≤ 2 ^ 31

theorem Cell.Near.toPosition_isOn {c : Cell} (h : c.Near) : c.toPosition.IsOn c := by
  have hx := h.x
  have hy := h.y
  exact ⟨isInteger_ofInt c.x (by omega), isInteger_ofInt c.y (by omega)⟩

/-- Points on cells are closer than a separation of at most one iff the cells are the same. -/
theorem Position.distance_lt_iff (p q : Position) (a b : Cell) (hp : p.IsOn a) (hq : q.IsOn b) (ha : a.Near)
    (hb : b.Near) (separation : Float) (hpos : 0.0 < separation) (hone : separation ≤ 1.0) :
    p.distance q < separation ↔ a = b := by
  have hax := ha.x
  have hay := ha.y
  have hbx := hb.x
  have hby := hb.y
  have hdx := isInteger_sub p.x q.x a.x b.x hp.x hq.x (by omega)
  have hdy := isInteger_sub p.y q.y a.y b.y hp.y hq.y (by omega)
  rw [Position.distance]
  rcases hypotenuse_cases _ _ _ _ hdx hdy with ⟨hx, hy, hroot⟩ | ⟨hne, hroot⟩
  · have hab : a = b := by
      obtain ⟨ax, ay⟩ := a
      obtain ⟨bx, by'⟩ := b
      simp only [Cell.mk.injEq]
      dsimp only at hx hy
      omega
    exact iff_of_true (lt_of_zero _ _ .positive hroot hpos) hab
  · refine iff_of_false (not_lt_of_atLeastOne _ _ hroot hone) ?_
    rintro rfl
    exact hne ⟨Int.sub_self _, Int.sub_self _⟩

/-- Some two of several points are close iff two of them are on one cell. -/
theorem anyCloser_iff (separation : Float) (hpos : 0.0 < separation) (hone : separation ≤ 1.0)
    {α : Type} (position : α → Position) (cell : α → Cell) (vs : List α)
    (hon : ∀ v ∈ vs, (position v).IsOn (cell v)) (hnear : ∀ v ∈ vs, (cell v).Near) :
    anyCloser separation (vs.map position) = true ↔ ¬ (vs.map cell).Nodup := by
  have happart : vs.Pairwise (fun v w => (position v).Apart separation (position w)) ↔
      vs.Pairwise fun v w => cell v ≠ cell w := by
    apply List.Pairwise.iff_of_mem
    intro v w hv hw
    rw [Position.Apart, Position.distance_lt_iff _ _ _ _ (hon v hv) (hon w hw) (hnear v hv) (hnear w hw) separation
      hpos hone]
  rw [← Bool.not_eq_false, anyCloser_eq_false_iff, List.pairwise_map, happart, List.Nodup, List.pairwise_map]

theorem Vehicle.near_of_onRoad (halfLength : Int) (hword : halfLength < 2 ^ 31) (v : Vehicle)
    (hv : v.onRoad halfLength = true) : v.cell.Near := by
  simp only [Vehicle.onRoad, Bool.and_eq_true, decide_eq_true_eq] at hv
  exact ⟨by omega, by omega⟩

theorem Approach.entryPosition_isOn (a : Approach) (halfLength : Int) (hone : 1 ≤ halfLength)
    (hword : halfLength < 2 ^ 31) : (a.entryPosition halfLength).IsOn (a.entry halfLength) := by
  have hl : IsInteger (unpacked (Float.ofInt halfLength)) halfLength := isInteger_ofInt _ (by omega)
  have hneg : IsInteger (unpacked (-Float.ofInt halfLength)) (-halfLength) := isInteger_neg _ _ hl (by omega)
  have hplus : IsInteger (unpacked 1.0) 1 := isInteger_ofInt 1 (by decide)
  have hminus : IsInteger (unpacked (-1.0)) (-1) := isInteger_neg _ _ hplus (by decide)
  cases a with
  | north => exact ⟨hminus, hl⟩
  | east => exact ⟨hl, hplus⟩
  | south => exact ⟨hplus, hneg⟩
  | west => exact ⟨hneg, hminus⟩

/-- A vehicle on the road is shown exactly on its cell. -/
theorem Vehicle.position_isOn (halfLength : Int) (hone : 1 ≤ halfLength) (hword : halfLength < 2 ^ 31)
    (v : Vehicle) (hv : v.onRoad halfLength = true) : (v.position halfLength).IsOn v.cell := by
  rw [Vehicle.position]
  by_cases hcell : v.cell = v.lane.entry halfLength
  · rw [if_pos hcell, hcell]
    exact v.lane.entryPosition_isOn halfLength hone hword
  · rw [if_neg hcell]
    exact (v.near_of_onRoad halfLength hword hv).toPosition_isOn

end RightOfWay.Traffic

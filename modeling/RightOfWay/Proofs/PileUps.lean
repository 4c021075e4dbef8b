import RightOfWay.Proofs.Lanes
import Mathlib.Algebra.BigOperators.Group.Finset.Basic
import Mathlib.Algebra.Group.Action.Defs

namespace RightOfWay.Traffic

open Finset (sum_filter_of_ne)

/-- How many entries of a list of cells are repetitions. -/
def surplus : List Cell → Nat
  | [] => 0
  | x :: xs => surplus xs + if x ∈ xs then 1 else 0

theorem surplus_add_card (xs : List Cell) : surplus xs + xs.toFinset.card = xs.length := by
  induction xs with
  | nil => rfl
  | cons x xs ih =>
    rw [surplus, List.toFinset_cons, List.length_cons]
    by_cases hx : x ∈ xs
    · rw [if_pos hx, Finset.insert_eq_of_mem (List.mem_toFinset.mpr hx)]
      omega
    · rw [if_neg hx, Finset.card_insert_of_notMem (mt List.mem_toFinset.mp hx)]
      omega

theorem surplus_perm {xs ys : List Cell} (h : xs.Perm ys) : surplus xs = surplus ys := by
  have hx := surplus_add_card xs
  have hy := surplus_add_card ys
  rw [List.toFinset_eq_of_perm xs ys h, h.length_eq] at hx
  omega

/-- Cell by cell, every entry but one is a repetition. -/
theorem surplus_eq_sum (xs : List Cell) :
    surplus xs = ∑ x ∈ xs.toFinset.filter (fun x => 2 ≤ xs.count x), (xs.count x - 1) := by
  -- both sides are the length of the list less the number of its cells
  have hlength : ∑ x ∈ xs.toFinset, (xs.count x - 1 + 1) = xs.length := by
    rw [← List.sum_toFinset_count_eq_length]
    refine Finset.sum_congr rfl ?_
    intro x hx
    exact Nat.sub_add_cancel (List.count_pos_iff.mpr (List.mem_toFinset.mp hx))
  rw [Finset.sum_add_distrib, Finset.sum_const, smul_eq_mul, mul_one] at hlength
  have hsurplus := surplus_add_card xs
  rw [sum_filter_of_ne fun x _ hne => by omega]
  omega

def wreckCells (vs : List Vehicle) : List Cell := (vs.filter Vehicle.crashed).map Vehicle.cell

theorem mem_wreckCells (vs : List Vehicle) (x : Cell) :
    x ∈ wreckCells vs ↔ ∃ v ∈ vs, v.crashed = true ∧ v.cell = x := by
  simp [wreckCells, and_assoc]

/-- How many wrecks have been run into another one. -/
def piled (vs : List Vehicle) : Nat := surplus (wreckCells vs)

theorem piled_perm {vs ws : List Vehicle} (h : vs.Perm ws) : piled vs = piled ws :=
  surplus_perm ((h.filter _).map _)

theorem piled_cons_whole {v : Vehicle} (h : v.crashed = false) (vs : List Vehicle) : piled (v :: vs) = piled vs := by
  rw [piled, wreckCells, List.filter_cons_of_neg (by simp [h])]
  rfl

theorem piled_cons_wreck {v : Vehicle} (h : v.crashed = true) (vs : List Vehicle) :
    piled (v :: vs) = piled vs + if v.cell ∈ wreckCells vs then 1 else 0 := by
  rw [piled, wreckCells, List.filter_cons_of_pos h]
  rfl

/-- Where there are wrecks and a vehicle that is whole, another vehicle came before it. -/
structure Led (vs : List Vehicle) : Prop where
  ordered : (vs.map Vehicle.id).Pairwise (· < ·)
  led : ∀ u ∈ vs, u.crashed = false → ∀ z ∈ vs, z.crashed = true → z.cell = u.cell →
    ∃ w ∈ vs, w.id < u.id ∧ w.cell = u.cell

namespace Led

variable {ahead vs : List Vehicle} {v : Vehicle}

theorem mem_of_id_lt (h : Led (ahead ++ vs)) {u w : Vehicle} (hu : u ∈ ahead) (hw : w ∈ ahead ++ vs)
    (hlt : w.id < u.id) : w ∈ ahead := by
  have hordered := h.ordered
  rw [List.map_append, List.pairwise_append] at hordered
  rcases List.mem_append.mp hw with hw | hw
  · exact hw
  · have := hordered.2.2 u.id (List.mem_map_of_mem hu) w.id (List.mem_map_of_mem hw)
    omega

theorem crashed_of_settled (h : Led (ahead ++ vs)) (hsettled : Settled ahead vs) {w z : Vehicle} (hw : w ∈ ahead)
    (hz : z ∈ ahead ++ vs) (hwreck : z.crashed = true) (hcell : z.cell = w.cell) : w.crashed = true := by
  by_contra hwhole
  obtain ⟨x, hx, hlt, hxcell⟩ := h.led w (List.mem_append_left _ hw) (by simpa using hwhole) z hz hwreck hcell
  apply hwhole
  apply hsettled.wrecked w hw
  rw [Vehicle.meetsIn_iff]
  exact ⟨x, h.mem_of_id_lt hw hx hlt, Nat.ne_of_lt hlt, hxcell⟩

end Led

namespace Vehicle

theorem meet_append (v : Vehicle) (as bs : List Vehicle) :
    (v.meet (as ++ bs)).2.2 = (v.meet as).2.2 + ((v.meet as).2.1.meet bs).2.2 := by
  induction as generalizing v with
  | nil => simp [meet]
  | cons w as ih =>
    rw [List.cons_append, meet, meet]
    split
    · exact (congrArg (· + 1) (ih v.wreck)).trans (Nat.add_right_comm _ _ 1)
    · exact ih v

theorem meet_of_apart (v : Vehicle) (as : List Vehicle) (h : ∀ w ∈ as, w.cell ≠ v.cell) :
    (v.meet as).2.1 = v ∧ (v.meet as).2.2 = 0 := by
  constructor
  · rw [(v.meet_eq as).2, if_neg]
    simpa using h
  · rw [meet_count_eq_zero_iff]
    intro w hw hcell
    exact absurd hcell (h w hw)

/-- A vehicle that is whole crashes once, into the first one on its cell, if the others there are wrecks. -/
theorem meet_count_eq_one (v w : Vehicle) (as bs : List Vehicle) (hv : v.crashed = false)
    (has : ∀ x ∈ as, x.cell ≠ v.cell) (hw : w.cell = v.cell)
    (hbs : ∀ x ∈ bs, x.cell = v.cell → x.crashed = true) : (v.meet (as ++ w :: bs)).2.2 = 1 := by
  have hrest : (v.wreck.meet bs).2.2 = 0 := by
    rw [meet_count_eq_zero_iff]
    exact fun x hx hcell => ⟨hbs x hx hcell, rfl⟩
  rw [meet_append, (v.meet_of_apart as has).1, (v.meet_of_apart as has).2, meet, if_pos (by simp [hw, hv])]
  dsimp only
  rw [hrest]

theorem passed_eq_of_first (v w : Vehicle) (as bs : List Vehicle) (has : ∀ x ∈ as, x.cell ≠ v.cell)
    (hw : w.cell = v.cell) (hbs : ∀ x ∈ bs, x.cell = v.cell → x.crashed = true) :
    v.passed (as ++ w :: bs) = as ++ w.wreck :: bs ++ [v.wreck] := by
  have hmap (xs : List Vehicle) (hxs : ∀ x ∈ xs, x.cell = v.cell → x.crashed = true) :
      xs.map (fun x => if x.cell = v.cell then x.wreck else x) = xs := by
    refine (List.map_congr_left (g := fun x => x) ?_).trans (List.map_id' xs)
    intro x hx
    by_cases hcell : x.cell = v.cell
    · rw [if_pos hcell, wreck_eq_self x (hxs x hx hcell)]
    · rw [if_neg hcell]
  rw [passed_eq, if_pos (by simp [hw]), List.map_append, List.map_cons, if_pos hw, hmap bs hbs,
    hmap as fun x hx hcell => absurd hcell (has x hx)]

/-- Whoever is whole after a vehicle has passed was there before, and away from any crash. -/
theorem mem_of_mem_passed_whole {u v : Vehicle} {ahead : List Vehicle} (hu : u ∈ v.passed ahead)
    (hwhole : u.crashed = false) : u ∈ ahead ++ [v] ∧ ∀ w ∈ ahead, w.cell = v.cell → u.cell ≠ v.cell := by
  rw [passed_eq, List.mem_append, List.mem_map, List.mem_singleton] at hu
  rcases hu with ⟨x, hx, rfl⟩ | rfl
  · by_cases hcell : x.cell = v.cell
    · rw [if_pos hcell] at hwhole
      cases hwhole
    · rw [if_neg hcell]
      exact ⟨List.mem_append_left _ hx, fun _ _ _ => hcell⟩
  · by_cases hany : ahead.any (fun w => w.cell = v.cell) = true
    · rw [if_pos hany] at hwhole
      cases hwhole
    · rw [if_neg hany]
      refine ⟨by simp, ?_⟩
      intro w hw hcell
      exact absurd (List.any_eq_true.mpr ⟨w, hw, by simpa using hcell⟩) hany

theorem mem_of_mem_passed {z v : Vehicle} {ahead : List Vehicle} (hz : z ∈ v.passed ahead) :
    z ∈ ahead ++ [v] ∨ (z.cell = v.cell ∧ ∃ w ∈ ahead, w.cell = v.cell) := by
  rw [passed_eq, List.mem_append, List.mem_map, List.mem_singleton] at hz
  rcases hz with ⟨x, hx, rfl⟩ | rfl
  · by_cases hcell : x.cell = v.cell
    · rw [if_pos hcell]
      exact .inr ⟨hcell, x, hx, hcell⟩
    · rw [if_neg hcell]
      exact .inl (List.mem_append_left _ hx)
  · by_cases hany : ahead.any (fun w => w.cell = v.cell) = true
    · rw [if_pos hany]
      exact .inr ⟨rfl, by simpa using hany⟩
    · rw [if_neg hany]
      exact .inl (by simp)

end Vehicle

theorem Settled.exists_first {ahead vs : List Vehicle} {v w : Vehicle} (h : Settled ahead vs) (hw : w ∈ ahead)
    (hcell : w.cell = v.cell) : ∃ as u bs, ahead = as ++ u :: bs ∧ (∀ x ∈ as, x.cell ≠ v.cell) ∧ u.cell = v.cell ∧
      ∀ x ∈ bs, x.cell = v.cell → x.crashed = true := by
  obtain ⟨u, hu⟩ : ∃ u, ahead.find? (fun x => x.cell = v.cell) = some u := by
    rw [← Option.isSome_iff_exists, List.find?_isSome]
    exact ⟨w, hw, by simpa using hcell⟩
  obtain ⟨hucell, as, bs, rfl, has⟩ := List.find?_eq_some_iff_append.mp hu
  have hids := h.ids
  simp only [decide_eq_true_eq, Bool.not_eq_true', decide_eq_false_iff_not] at hucell has
  refine ⟨as, u, bs, rfl, has, hucell, ?_⟩
  intro x hx hxcell
  apply h.wrecked x (by simp [hx])
  rw [Vehicle.meetsIn_iff]
  refine ⟨u, by simp, ?_, hucell.trans hxcell.symm⟩
  rw [List.map_append, List.map_append, List.map_cons, List.append_assoc, List.nodup_append, List.cons_append,
    List.nodup_cons, List.mem_append, not_or] at hids
  exact fun heq => hids.2.1.1.1 (heq ▸ List.mem_map_of_mem hx)

/-- Each crash that is counted while a vehicle passes adds a wreck to a pile. -/
theorem pass_piled {ahead vs : List Vehicle} {v : Vehicle} (hsettled : Settled ahead (v :: vs))
    (hled : Led (ahead ++ v :: vs)) :
    (v.meet ahead).2.2 + piled (ahead ++ v :: vs) = piled (v.passed ahead ++ vs) := by
  by_cases hcount : (v.meet ahead).2.2 = 0
  · rw [v.passed_of_meet_count ahead hcount, hcount, List.append_assoc, Nat.zero_add]
    rfl
  have hmeets := mt (v.meet_count_eq_zero_iff ahead).mpr hcount
  push Not at hmeets
  obtain ⟨x, hx, hxcell, hxv⟩ := hmeets
  have hv : v.crashed = false := by
    by_contra hwreck
    rw [Bool.not_eq_false] at hwreck
    exact hxv (hled.crashed_of_settled hsettled hx (by simp) hwreck hxcell.symm) hwreck
  obtain ⟨as, w, bs, rfl, has, hw, hbs⟩ := hsettled.exists_first hx hxcell
  have hfront (w v : Vehicle) : (as ++ w :: bs ++ v :: vs).Perm (v :: w :: (as ++ bs ++ vs)) :=
    List.perm_middle.trans ((List.perm_middle.append_right vs).cons v)
  have hjoins : v.wreck.cell ∈ wreckCells (w.wreck :: (as ++ bs ++ vs)) :=
    (mem_wreckCells _ _).mpr ⟨w.wreck, List.mem_cons_self, rfl, hw⟩
  rw [v.meet_count_eq_one w as bs hv has hw hbs, v.passed_eq_of_first w as bs has hw hbs,
    List.append_assoc _ [v.wreck], List.singleton_append, piled_perm (hfront w v), piled_cons_whole hv,
    piled_perm (hfront w.wreck v.wreck), piled_cons_wreck v.wreck_crashed, if_pos hjoins, Nat.add_comm]
  congr 1
  cases hwreck : w.crashed with
  | true => rw [Vehicle.wreck_eq_self w hwreck]
  | false =>
    -- a wreck further back would have struck `w` already
    have hfresh : w.cell ∉ wreckCells (as ++ bs ++ vs) := by
      rw [mem_wreckCells]
      rintro ⟨z, hz, hzwreck, hzcell⟩
      have hzmem : z ∈ as ++ w :: bs ++ v :: vs :=
        (hfront w v).mem_iff.mpr (List.mem_cons_of_mem _ (List.mem_cons_of_mem _ hz))
      have hstruck : w.crashed = true := hled.crashed_of_settled hsettled (by simp) hzmem hzwreck hzcell
      rw [hwreck] at hstruck
      cases hstruck
    rw [piled_cons_whole hwreck, piled_cons_wreck w.wreck_crashed, Vehicle.wreck_cell, if_neg hfresh, Nat.add_zero]

/-- Whoever passes goes on leading those behind it. -/
theorem Led.pass {ahead vs : List Vehicle} {v : Vehicle} (h : Led (ahead ++ v :: vs)) : Led (v.passed ahead ++ vs) := by
  have hshape : (v.passed ahead ++ vs).map (fun w => (w.id, w.cell)) =
      (ahead ++ v :: vs).map fun w => (w.id, w.cell) := by
    rw [List.map_append, v.passed_shape ahead, ← List.map_append, List.append_assoc]
    rfl
  refine ⟨?_, ?_⟩
  · have hids := congrArg (List.map Prod.fst) hshape
    simp only [List.map_map, Function.comp_def] at hids
    rw [hids]
    exact h.ordered
  intro u hu hwhole z hz hwreck hcell
  suffices hbefore : ∃ w ∈ ahead ++ v :: vs, w.id < u.id ∧ w.cell = u.cell by
    obtain ⟨w, hw, hlt, hwcell⟩ := hbefore
    have hmem := List.mem_map_of_mem (f := fun w : Vehicle => (w.id, w.cell)) hw
    rw [← hshape] at hmem
    obtain ⟨w', hw', heq⟩ := List.mem_map.mp hmem
    obtain ⟨hid, hsame⟩ := Prod.mk.inj heq
    exact ⟨w', hw', hid ▸ hlt, hsame.trans hwcell⟩
  have hold (x : Vehicle) (hx : x ∈ ahead ++ [v] ∨ x ∈ vs) : x ∈ ahead ++ v :: vs := by
    simpa [or_assoc] using hx
  have hz' : z ∈ ahead ++ v :: vs ∨ (z.cell = v.cell ∧ ∃ w ∈ ahead, w.cell = v.cell) := by
    rcases List.mem_append.mp hz with hz | hz
    · exact (Vehicle.mem_of_mem_passed hz).imp_left fun hmem => hold z (.inl hmem)
    · exact .inl (hold z (.inr hz))
  rcases List.mem_append.mp hu with hu | hu
  · obtain ⟨hmem, haway⟩ := Vehicle.mem_of_mem_passed_whole hu hwhole
    rcases hz' with hz' | ⟨hzcell, w, hw, hwcell⟩
    · exact h.led u (hold u (.inl hmem)) hwhole z hz' hwreck hcell
    · exact absurd (hcell.symm.trans hzcell) (haway w hw hwcell)
  · rcases hz' with hz' | ⟨hzcell, -⟩
    · exact h.led u (hold u (.inr hu)) hwhole z hz' hwreck hcell
    · -- the crash has just happened ahead of `u`, and `v` was in it
      have hordered := h.ordered
      rw [List.map_append, List.pairwise_append, List.map_cons, List.pairwise_cons] at hordered
      exact ⟨v, by simp, hordered.2.1.1 u.id (List.mem_map_of_mem hu), hzcell.symm.trans hcell⟩

/-- The crashes that are counted are the wrecks that join a pile. -/
theorem collide_piled (ahead vs : List Vehicle) (hsettled : Settled ahead vs) (hled : Led (ahead ++ vs)) :
    (collide ahead vs).2 + piled (ahead ++ vs) = piled (collide ahead vs).1 := by
  induction vs generalizing ahead with
  | nil => rw [collide, List.append_nil, Nat.zero_add]
  | cons v vs ih =>
    have hrest := ih (v.passed ahead) hsettled.pass hled.pass
    have hpass := pass_piled hsettled hled
    rw [collide_cons]
    dsimp only
    omega

/-- Vehicles in file are led by a wreck of their own lane where there is one on their cell. -/
theorem InFile.led {vs : List Vehicle} {halfLength : Int} (h : InFile (Vehicle.AheadMoving halfLength) vs)
    (hids : (vs.map Vehicle.id).Pairwise (· < ·)) : Led vs where
  ordered := hids
  led := by
    intro u hu hwhole z hz hwreck hcell
    obtain ⟨w, hw, hwwreck, hlane, hwcell⟩ : ∃ w ∈ vs, w.crashed = true ∧ w.lane = u.lane ∧ w.cell = u.cell := by
      rcases h.lanes_of_cell hu hz hcell with hlane | hlane
      · exact ⟨z, hz, hwreck, hlane, hcell⟩
      · -- the partner of a wreck of the other lane is of this one
        obtain ⟨y, hy, hylane, hycell, hywreck⟩ := h.mixed z hz hwreck
        have hzu : z.lane.RunsThrough u.cell := hcell ▸ h.inLane z hz
        have hyu : y.lane.RunsThrough u.cell := hcell ▸ hycell ▸ h.inLane y hy
        rcases ((Approach.crossing_cell hlane (h.inLane u hu) hzu).2.2 y.lane).mp hyu with hsame | hsame
        · exact ⟨y, hy, hywreck, hsame, hycell.trans hcell⟩
        · rw [hsame] at hylane
          exact absurd hylane z.lane.not_mem_crossing
    refine ⟨w, hw, ?_, hwcell⟩
    by_contra hnot
    rcases Nat.lt_or_eq_of_le (Nat.le_of_not_lt hnot) with hlt | heq
    · have huwreck := h.leader_crashed hids hu hw hlt hlane hwcell
      rw [hwhole] at huwreck
      cases huwreck
    · obtain rfl : u = w := List.inj_on_of_nodup_map (hids.imp Nat.ne_of_lt) hu hw heq
      rw [hwhole] at hwwreck
      cases hwwreck

theorem wreckCells_advance (p : Phase) (vs : List Vehicle) :
    wreckCells (vs.map (Vehicle.advance p)) = wreckCells vs := by
  have hcrashed : Vehicle.crashed ∘ Vehicle.advance p = Vehicle.crashed := funext (Vehicle.advance_crashed p)
  rw [wreckCells, List.filter_map, List.map_map, hcrashed, wreckCells]
  apply List.map_congr_left
  intro v hv
  rw [Function.comp_apply, Vehicle.advance_wreck p v (List.mem_filter.mp hv).2]

theorem wreckCells_filter (stays : Vehicle → Bool) (vs : List Vehicle)
    (hstays : ∀ v ∈ vs, v.crashed = true → stays v = true) : wreckCells (vs.filter stays) = wreckCells vs := by
  rw [wreckCells, List.filter_filter, wreckCells]
  congr 1
  apply List.filter_congr
  intro v hv
  cases hcrashed : v.crashed with
  | true => rw [hstays v hv hcrashed, Bool.true_and]
  | false => rw [Bool.false_and]

/-- Where only wrecks share cells, the wrecks of piles are the vehicles that share theirs. -/
theorem piled_eq_surplus (vs : List Vehicle)
    (h : vs.Pairwise fun v w => w.cell = v.cell → v.crashed = true ∧ w.crashed = true) :
    piled vs = surplus (vs.map Vehicle.cell) := by
  induction h with
  | nil => rfl
  | @cons v vs hv _ ih =>
    rw [List.map_cons, surplus, ← ih]
    cases hcrashed : v.crashed with
    | true =>
      have hiff : v.cell ∈ wreckCells vs ↔ v.cell ∈ vs.map Vehicle.cell := by
        rw [mem_wreckCells, List.mem_map]
        refine exists_congr fun w => and_congr_right fun hw => ?_
        exact ⟨fun hwreck => hwreck.2, fun hcell => ⟨(hv w hw hcell).2, hcell⟩⟩
      rw [piled_cons_wreck hcrashed, if_congr hiff rfl rfl]
    | false =>
      have halone : v.cell ∉ vs.map Vehicle.cell := by
        rw [List.mem_map]
        rintro ⟨w, hw, hcell⟩
        have hwreck := (hv w hw hcell).1
        rw [hcrashed] at hwreck
        cases hwreck
      rw [piled_cons_whole hcrashed, if_neg halone, Nat.add_zero]

namespace Crossing

def occupants (c : Crossing) (x : Cell) : Nat := (c.vehicles.map Vehicle.cell).count x

/-- The cells that hold more than one vehicle. -/
def pileUps (c : Crossing) : Finset Cell := (c.vehicles.map Vehicle.cell).toFinset.filter fun x => 2 ≤ c.occupants x

variable {c c' : Crossing} {s : Setup}

theorem Sound.crashed_of_cell_eq (h : c.Sound s) {v w : Vehicle} (hv : v ∈ c.vehicles) (hw : w ∈ c.vehicles)
    (hne : w.id ≠ v.id) (hcell : w.cell = v.cell) : v.crashed = true :=
  (h.wrecked v hv).mpr ((Vehicle.meetsIn_iff _ _).mpr ⟨w, hw, hne, hcell⟩)

theorem Sound.piled_eq_sum (h : c.Sound s) : piled c.vehicles = ∑ x ∈ c.pileUps, (c.occupants x - 1) := by
  have hids := h.ordered
  rw [List.pairwise_map] at hids
  rw [piled_eq_surplus, surplus_eq_sum]
  · rfl
  · refine hids.imp_of_mem ?_
    intro v w hv hw hlt hcell
    exact ⟨h.crashed_of_cell_eq hv hw (Nat.ne_of_gt hlt) hcell,
      h.crashed_of_cell_eq hw hv (Nat.ne_of_lt hlt) hcell.symm⟩

theorem Sound.exists_wreck_of_mem_pileUps (h : c.Sound s) {x : Cell} (hx : x ∈ c.pileUps) :
    ∃ v ∈ c.vehicles, v.crashed = true ∧ v.cell = x := by
  have htwo : 2 ≤ c.occupants x := (Finset.mem_filter.mp hx).2
  rw [occupants, List.count_eq_countP, List.countP_map, List.countP_eq_length_filter] at htwo
  have hids := h.ordered
  rw [List.pairwise_map] at hids
  -- the first two of them have different identifiers
  obtain ⟨v, w, rest, hfilter⟩ : ∃ v w rest, c.vehicles.filter ((· == x) ∘ Vehicle.cell) = v :: w :: rest := by
    match hlist : c.vehicles.filter ((· == x) ∘ Vehicle.cell) with
    | [] | [_] => simp [hlist] at htwo
    | v :: w :: rest => exact ⟨v, w, rest, rfl⟩
  have hmem (u : Vehicle) (hu : u ∈ v :: w :: rest) : u ∈ c.vehicles ∧ u.cell = x := by
    rw [← hfilter, List.mem_filter] at hu
    simpa using hu
  have hlt := hids.sublist (List.filter_sublist (p := (· == x) ∘ Vehicle.cell))
  rw [hfilter, List.pairwise_cons] at hlt
  obtain ⟨hv, hvx⟩ := hmem v (by simp)
  obtain ⟨hw, hwx⟩ := hmem w (by simp)
  exact ⟨v, hv, h.crashed_of_cell_eq hv hw (Nat.ne_of_gt (hlt.1 w (by simp))) (hwx.trans hvx.symm), hvx⟩

theorem enter_piled (c : Crossing) (lane : Approach) : piled (c.enter lane).2.vehicles = piled c.vehicles := by
  rcases c.enter_cases lane with heq | ⟨-, -, heq⟩
  · rw [heq]
  · rw [heq]
    dsimp only
    rw [piled_perm List.perm_append_comm, List.singleton_append, piled_cons_whole rfl]

theorem arrivals_piled (harr : c.arrivals = some c') : piled c'.vehicles = piled c.vehicles := by
  rcases c.arrivals_cases c' harr with ⟨stream, -, -, rfl⟩ | ⟨lane, stream, -, -, rfl⟩
  · rfl
  · exact enter_piled { c with stream := stream } _

theorem Sound.moving_piled (h : c.Sound s) : piled c.drive.clear.vehicles = piled c.vehicles := by
  have hdrive : wreckCells c.drive.vehicles = wreckCells c.vehicles := wreckCells_advance c.signal.phase c.vehicles
  rw [piled, piled, ← hdrive]
  exact congrArg surplus (wreckCells_filter _ c.drive.vehicles h.drive.towable)

/-- The crashes of a tick are the wrecks that join a pile. -/
theorem Filed.tick_piled (h : c.Filed s) :
    c.tick.1.crashes + piled c.vehicles = c.crashes + piled c.tick.1.vehicles := by
  have hcounted : { c with ticks := c.ticks + 1 }.Filed s := h.congr rfl rfl rfl
  obtain ⟨c₁, harr, heq⟩ := h.tick_eq
  have h₁ := hcounted.arrivals harr
  have hcollide := collide_piled [] c₁.drive.clear.vehicles h₁.drive.clear.settled
    (h₁.moving.led h₁.drive.clear.ordered)
  rw [List.nil_append, h₁.moving_piled, arrivals_piled harr] at hcollide
  have hcrashes : c.tick.1.crashes = c.crashes + (collide [] c₁.drive.clear.vehicles).2 := by
    rw [heq]
    exact congrArg (· + _) (arrivals_counters harr).2
  have hvehicles : c.tick.1.vehicles = (collide [] c₁.drive.clear.vehicles).1 := by
    rw [heq]
    rfl
  rw [hcrashes, hvehicles, ← hcollide, Nat.add_assoc]

theorem Filed.ticked_piled (h : c.Filed s) (n : Nat) :
    (c.ticked n).1.crashes + piled c.vehicles = c.crashes + piled (c.ticked n).1.vehicles := by
  induction n generalizing c with
  | zero => rfl
  | succ n ih =>
    have hfirst := h.tick_piled
    have hrest := ih h.tick
    rw [h.ticked_succ_fst]
    omega

theorem tow_piled (c : Crossing) : piled c.tow.vehicles = 0 := by
  have hnone : c.tow.vehicles.filter Vehicle.crashed = [] := by
    rw [tow, List.filter_filter, List.filter_eq_nil_iff]
    simp
  rw [piled, wreckCells, hnone]
  rfl

/-- The crashes of a step are the wrecks that have joined a pile when it ends. -/
theorem Filed.step_crashes (h : c.Filed s) (p : Phase) :
    (Crossing.step p c).1.crashes = c.crashes + piled (Crossing.step p c).1.vehicles := by
  have hticked := (h.tow.switchTo p).ticked_piled c.setup.ticksPerStep
  have htow : piled (c.tow.switchTo p).vehicles = 0 := c.tow_piled
  rw [step_state]
  rw [htow, Nat.add_zero] at hticked
  exact hticked

/-- A pile is where two lanes cross, and has a vehicle of each. -/
theorem Filed.lanes_of_pileUp (h : c.Filed s) {x : Cell} (hx : x ∈ c.pileUps) :
    (x.x = 1 ∨ x.x = -1) ∧ (x.y = 1 ∨ x.y = -1) ∧
    ∃ v ∈ c.vehicles, ∃ w ∈ c.vehicles, v.cell = x ∧ w.cell = x ∧ w.lane ∈ v.lane.crossing ∧
      ∀ lane : Approach, lane.RunsThrough x ↔ lane = v.lane ∨ lane = w.lane := by
  obtain ⟨v, hv, hwreck, rfl⟩ := h.exists_wreck_of_mem_pileUps hx
  obtain ⟨w, hw, hlane, hcell, -⟩ := h.inFile.mixed v hv hwreck
  have hwx : w.lane.RunsThrough v.cell := hcell ▸ h.inFile.inLane w hw
  obtain ⟨hx₁, hx₂, hlanes⟩ := Approach.crossing_cell hlane (h.inFile.inLane v hv) hwx
  exact ⟨hx₁, hx₂, v, hv, w, hw, rfl, hcell, hlane, hlanes⟩

/-- A step counts one crash less than there are vehicles on each cell that holds more than one when it ends. Such a cell
is where two lanes cross. -/
theorem step_crashes_eq_sum_pileUps (s : Setup) (hs : s.Valid) (ms : List Move) (c : Crossing)
    (hc : c = (start s).run ms) (p : Phase) (c' : Crossing) (hc' : c' = (step p c).1) :
    c'.crashes = c.crashes + ∑ x ∈ c'.pileUps, (c'.occupants x - 1) ∧
    (∀ x ∈ c'.pileUps, (x.x = 1 ∨ x.x = -1) ∧ (x.y = 1 ∨ x.y = -1) ∧
      ∃ v ∈ c'.vehicles, ∃ w ∈ c'.vehicles, v.cell = x ∧ w.cell = x ∧ w.lane ∈ v.lane.crossing ∧
        ∀ lane : Approach, lane.RunsThrough x ↔ lane = v.lane ∨ lane = w.lane) ∧
    (∀ v ∈ c'.vehicles, v.lane.RunsThrough v.cell ∧
      ∀ w ∈ c'.vehicles, w.cell = v.cell → w.lane = v.lane ∨ w.lane ∈ v.lane.crossing) ∧
    (∀ k, ∀ d d' : Crossing, d = ((c.tow.switchTo p).ticked k).1 →
      d' = ((c.tow.switchTo p).ticked (k + 1)).1 →
      ∀ v ∈ d'.vehicles, ∀ w ∈ d'.vehicles, w.id ≠ v.id → w.lane = v.lane → w.cell = v.cell →
        ∃ x ∈ d.vehicles, ∃ y ∈ d.vehicles, (x.crashed = true ∧ x.lane = v.lane ∧ x.cell = v.cell) ∧
          (y.crashed = true ∧ y.lane ∈ v.lane.crossing ∧ y.cell = v.cell)) := by
  have h : c.Filed s := hc ▸ (filed_start hs).run ms
  have h' : c'.Filed s := hc' ▸ h.move (.step p)
  refine ⟨?_, fun x hx => h'.lanes_of_pileUp hx, ?_, ?_⟩
  · rw [← h'.piled_eq_sum, hc', h.step_crashes]
  · intro v hv
    exact ⟨h'.inFile.inLane v hv, fun w hw hcell => h'.inFile.lanes_of_cell hv hw hcell⟩
  · rintro k d d' rfl rfl v hv w hw hne hlane hcell
    have hstart := h.tow.switchTo p
    rw [hstart.ticked_succ_last] at hv hw
    exact (hstart.ticked k).wrecks_before_tick hv hw hne hlane hcell

/-- A short road on which a vehicle arrives in every tick. -/
def rushHour : Setup := { seed := 59, spawnRate := 1.0, ticksPerStep := 5, halfLength := 2 }

theorem rushHour_valid : rushHour.Valid := ⟨rfl, by decide⟩

def allGreen : Phase := .green [.north, .east, .south, .west]

theorem step_crashes_eq_sum_pileUps_rushHour :
    (step allGreen (start rushHour)).1.pileUps = {⟨1, 1⟩, ⟨-1, -1⟩} ∧
    (step allGreen (start rushHour)).1.occupants ⟨1, 1⟩ = 3 ∧
    (step allGreen (start rushHour)).1.occupants ⟨-1, -1⟩ = 2 ∧
    (step allGreen (start rushHour)).1.crashes = 3 ∧
    ∃ x ∈ (((start rushHour).tow.switchTo allGreen).ticked 4).1.vehicles, x.crashed = true ∧ x.lane = .east := by
  have hpiles : (step allGreen (start rushHour)).1.pileUps = {⟨1, 1⟩, ⟨-1, -1⟩} := by decide +kernel
  have hthree : (step allGreen (start rushHour)).1.occupants ⟨1, 1⟩ = 3 := by decide +kernel
  have htwo : (step allGreen (start rushHour)).1.occupants ⟨-1, -1⟩ = 2 := by decide +kernel
  obtain ⟨hcrashes, -, -, hjoined⟩ :=
    step_crashes_eq_sum_pileUps rushHour rushHour_valid [] (start rushHour) rfl allGreen _ rfl
  refine ⟨hpiles, hthree, htwo, ?_, ?_⟩
  · have hsum : ∑ x ∈ (step allGreen (start rushHour)).1.pileUps,
        ((step allGreen (start rushHour)).1.occupants x - 1) = 3 := by
      rw [hpiles, Finset.sum_pair (by decide), hthree, htwo]
    exact hcrashes.trans (congrArg (0 + ·) hsum)
  · obtain ⟨x, hx, -, -, ⟨hwreck, hlane, -⟩, -⟩ := hjoined 4 _ _ rfl rfl ⟨2, .east, ⟨1, 1⟩, true⟩
      (by decide +kernel) ⟨4, .east, ⟨1, 1⟩, true⟩ (by decide +kernel) (by decide) rfl rfl
    exact ⟨x, hx, hwreck, hlane⟩

end Crossing

end RightOfWay.Traffic

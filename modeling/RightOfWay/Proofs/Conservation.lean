import RightOfWay.Proofs.PileUps

namespace RightOfWay.Traffic.Crossing

open scoped List
open Number.Binary64 (IsExactly isExactly_zero isExactly_ofNat_mul_one)

/-- The vehicles that are off the road and about to be removed. -/
def leavers (c : Crossing) : List Vehicle := c.vehicles.filter fun v => !v.onRoad c.setup.halfLength

/-- The vehicles that leave the road in a tick. -/
def tickLeavers (c : Crossing) : List Vehicle :=
  match { c with ticks := c.ticks + 1 }.arrivals with
  | none => []
  | some c₁ => c₁.drive.leavers

def tickedLeavers (c : Crossing) : Nat → List Vehicle
  | 0 => []
  | n + 1 => c.tickLeavers ++ c.tick.1.tickedLeavers n

/-- From `c` to `c'` the vehicles `came` entered and those in `left` drove off the road, and no other vehicle appeared
or disappeared. -/
structure Conserved (c : Crossing) (came : List Nat) (left : List Vehicle) (c' : Crossing) : Prop where
  split : c.vehicles.map Vehicle.id ++ came ~ c'.vehicles.map Vehicle.id ++ left.map Vehicle.id
  counted : c'.throughput = c.throughput + left.length
  whole : ∀ v ∈ left, v.crashed = false

variable {c c' c'' : Crossing} {s : Setup}

theorem Conserved.of_ids_eq {came : List Nat} (hids : c'.vehicles.map Vehicle.id = c.vehicles.map Vehicle.id ++ came)
    (hthroughput : c'.throughput = c.throughput) : Conserved c came [] c' where
  split := by
    rw [hids, List.map_nil, List.append_nil]
  counted := hthroughput
  whole := by simp

theorem Conserved.trans {came came' : List Nat} {left left' : List Vehicle} (h : Conserved c came left c')
    (h' : Conserved c' came' left' c'') : Conserved c (came ++ came') (left ++ left') c'' where
  split := by
    have hswap (xs ys zs : List Nat) : xs ++ ys ++ zs ~ xs ++ zs ++ ys := by
      rw [List.append_assoc, List.append_assoc]
      exact List.perm_append_comm.append_left xs
    rw [List.map_append, ← List.append_assoc, ← List.append_assoc]
    calc c.vehicles.map Vehicle.id ++ came ++ came'
      _ ~ c'.vehicles.map Vehicle.id ++ left.map Vehicle.id ++ came' := h.split.append_right came'
      _ ~ c'.vehicles.map Vehicle.id ++ came' ++ left.map Vehicle.id := hswap _ _ _
      _ ~ c''.vehicles.map Vehicle.id ++ left'.map Vehicle.id ++ left.map Vehicle.id := h'.split.append_right _
      _ ~ c''.vehicles.map Vehicle.id ++ left.map Vehicle.id ++ left'.map Vehicle.id := hswap _ _ _
  counted := by
    rw [h'.counted, h.counted, List.length_append, Nat.add_assoc]
  whole := by
    intro v hv
    exact (List.mem_append.mp hv).elim (h.whole v) (h'.whole v)

theorem enter_conserved (c : Crossing) (lane : Approach) :
    Conserved c (c.enter lane).1.toList [] (c.enter lane).2 := by
  rcases c.enter_cases lane with heq | ⟨-, -, heq⟩
  · rw [heq]
    exact .of_ids_eq (List.append_nil _).symm rfl
  · rw [heq]
    exact .of_ids_eq (by simp) rfl

theorem arrivals_conserved (harr : c.arrivals = some c') : Conserved c c.arrivalId.toList [] c' := by
  rcases arrivalId_cases harr with ⟨stream, hid, rfl⟩ | ⟨lane, stream, hid, rfl⟩
  · rw [hid]
    exact .of_ids_eq (List.append_nil _).symm rfl
  · rw [hid]
    have h := enter_conserved { c with stream := stream } lane
    exact ⟨h.split, h.counted, h.whole⟩

/-- Whoever drives off the road is counted, and is no wreck. -/
theorem Moving.clear_conserved (h : c.Moving s) : Conserved c [] c.leavers c.clear where
  split := by
    rw [List.append_nil, ← List.map_append]
    exact ((List.filter_append_perm _ _).map _).symm
  counted := by
    have hlength := (List.filter_append_perm (Vehicle.onRoad c.setup.halfLength) c.vehicles).length_eq
    rw [List.length_append] at hlength
    rw [Crossing.clear, leavers]
    dsimp only
    rw [cleared, kept]
    omega
  whole := by
    intro v hv
    obtain ⟨hmem, hoff⟩ := List.mem_filter.mp hv
    by_contra hwreck
    rw [Bool.not_eq_false] at hwreck
    simp [h.towable v hmem hwreck] at hoff

theorem Sound.tick_conserved (h : c.Sound s) :
    Conserved c { c with ticks := c.ticks + 1 }.arrivalId.toList c.tickLeavers c.tick.1 := by
  have hcounted : { c with ticks := c.ticks + 1 }.Sound s := h.congr rfl rfl rfl
  obtain ⟨c₁, harr, heq⟩ := h.tick_eq
  have h₁ := hcounted.arrivals harr
  have hleavers : c.tickLeavers = c₁.drive.leavers := by
    rw [tickLeavers, harr]
  have harrived : Conserved c { c with ticks := c.ticks + 1 }.arrivalId.toList [] c₁ :=
    ⟨(arrivals_conserved harr).split, (arrivals_conserved harr).counted, by simp⟩
  have hdriven : Conserved c₁ [] [] c₁.drive := .of_ids_eq (by simp [Crossing.drive]) rfl
  have hcleared := h₁.drive.clear_conserved
  have hsettled : Conserved c₁.drive.clear [] [] c₁.drive.clear.settle :=
    .of_ids_eq (by simp [h₁.drive.clear.settle_vehicles]) rfl
  rw [heq, hleavers]
  simpa using ((harrived.trans hdriven).trans hcleared).trans hsettled

theorem Sound.ticked_conserved (h : c.Sound s) (n : Nat) :
    Conserved c (c.tickedIds n) (c.tickedLeavers n) (c.ticked n).1 := by
  induction n generalizing c with
  | zero => exact .of_ids_eq (List.append_nil _).symm rfl
  | succ n ih =>
    obtain ⟨c₁, -, heq⟩ := h.tick_eq
    have hids : c.tickedIds (n + 1) = { c with ticks := c.ticks + 1 }.arrivalId.toList ++ c.tick.1.tickedIds n := by
      rw [tickedIds, heq]
    rw [hids, tickedLeavers, h.ticked_succ_fst]
    exact h.tick_conserved.trans (ih h.tick)

def stepLeavers (p : Phase) (c : Crossing) : List Vehicle := (c.tow.switchTo p).tickedLeavers c.setup.ticksPerStep

theorem Sound.step_conserved (h : c.Sound s) (p : Phase) :
    Conserved c.tow (c.moveIds (.step p)) (c.stepLeavers p) (Crossing.step p c).1 := by
  have hticked := (h.tow.switchTo p).ticked_conserved c.setup.ticksPerStep
  rw [step_state]
  exact ⟨hticked.split, hticked.counted, hticked.whole⟩

/-- Identifiers that are issued in a move differ from each other and from all that were given before. -/
theorem Issues.fresh {m n : Nat} {is : List Nat} (h : Issues m is n) : is.Nodup ∧ ∀ i ∈ is, m ≤ i := by
  have hnodup : (List.range m ++ is).Nodup := by
    rw [h]
    exact List.nodup_range
  rw [List.nodup_append] at hnodup
  refine ⟨hnodup.2.1, ?_⟩
  intro i hi
  by_contra hlt
  exact hnodup.2.2 i (List.mem_range.mpr (by omega)) i hi rfl

theorem Orderly.issued_nodup (h : c.Orderly s) {is : List Nat} {n : Nat} (his : Issues c.nextId is n) :
    (c.vehicles.map Vehicle.id ++ is).Nodup := by
  rw [List.nodup_append]
  refine ⟨h.ids_nodup, his.fresh.1, ?_⟩
  intro i hi j hj
  obtain ⟨v, hv, rfl⟩ := List.mem_map.mp hi
  have hold := h.fresh v hv
  have hnew := his.fresh.2 j hj
  omega

theorem Sound.wreck_gone (h : c.Sound s) (p : Phase) {v : Vehicle} (hv : v ∈ c.vehicles) (hwreck : v.crashed = true) :
    v.id ∉ (Crossing.step p c).1.vehicles.map Vehicle.id := by
  intro hmem
  rcases List.mem_append.mp ((h.step_conserved p).split.mem_iff.mpr (List.mem_append_left _ hmem)) with hold | hnew
  · obtain ⟨w, hw, hid⟩ := List.mem_map.mp hold
    obtain ⟨hwc, hwhole⟩ := List.mem_filter.mp hw
    obtain rfl : w = v := List.inj_on_of_nodup_map h.ids_nodup hwc hv hid
    simp [hwreck] at hwhole
  · have hissued := (c.move_issues (.step p)).fresh.2 v.id hnew
    have hgiven := h.fresh v hv
    omega

/-- The rewards that a move returns; only steps are rewarded. -/
def moveRewards (c : Crossing) : Move → List Float
  | .step p =>
    match (Crossing.step p c).2 with
    | .ok transition => [transition.reward]
    | .error _ => []
  | .enter _ => []
  | .switch _ => []
  | .reset => []

def rewards (c : Crossing) : List Move → List Float
  | [] => []
  | m :: ms => c.moveRewards m ++ (c.move m).rewards ms

/-- What the counters are worth in rewards. -/
def worth (c : Crossing) : Int := c.throughput - 1000 * c.crashes

/-- What the rewards of the counters come to without their signs. -/
def turnover (c : Crossing) : Nat := c.throughput + 1000 * c.crashes

/-- From `c` to `c'` the counters do not fall, and `x` becomes `x'` by exactly what their gains are worth, as long as
these are small. -/
structure Accrues (c : Crossing) (x : Float) (c' : Crossing) (x' : Float) : Prop where
  throughput : c.throughput ≤ c'.throughput
  crashes : c.crashes ≤ c'.crashes
  exact : ∀ n : Int, IsExactly x n → n.natAbs + c'.turnover < c.turnover + 2 ^ 53 →
    IsExactly x' (n + (c'.worth - c.worth))

theorem Accrues.turnover_le {x x' : Float} (h : Accrues c x c' x') : c.turnover ≤ c'.turnover := by
  have hgrown := h.throughput
  have hcrashed := h.crashes
  rw [turnover, turnover]
  omega

/-- The counters gain no more than their turnover. -/
theorem Accrues.natAbs_le {x x' : Float} (h : Accrues c x c' x') (n : Int) :
    (n + (c'.worth - c.worth)).natAbs + c.turnover ≤ n.natAbs + c'.turnover := by
  have hgrown := h.throughput
  have hcrashed := h.crashes
  rw [turnover, turnover, worth, worth]
  omega

theorem Accrues.isExactly {r : Float} (h : Accrues c 0.0 c' r) (hsmall : c'.turnover < c.turnover + 2 ^ 53) :
    IsExactly r (c'.worth - c.worth) := by
  have hexact := h.exact 0 isExactly_zero (by omega)
  rwa [Int.zero_add] at hexact

theorem Accrues.of_eq {x : Float} (hthroughput : c'.throughput = c.throughput) (hcrashes : c'.crashes = c.crashes) :
    Accrues c x c' x where
  throughput := hthroughput.ge
  crashes := hcrashes.ge
  exact := by
    intro n hx _
    rwa [worth, worth, hthroughput, hcrashes, Int.sub_self, Int.add_zero]

theorem Accrues.trans {x x' x'' : Float} (h : Accrues c x c' x') (h' : Accrues c' x' c'' x'') :
    Accrues c x c'' x'' where
  throughput := h.throughput.trans h'.throughput
  crashes := h.crashes.trans h'.crashes
  exact := by
    intro n hx hsmall
    have hgrown := h'.turnover_le
    have hgained := h.natAbs_le n
    have hfirst := h.exact n hx (by omega)
    have hsecond := h'.exact _ hfirst (by omega)
    have hsum : n + (c'.worth - c.worth) + (c''.worth - c'.worth) = n + (c''.worth - c.worth) := by omega
    rwa [hsum] at hsecond

/-- What a stretch earns from nothing it adds to whatever there was before it. -/
theorem Accrues.add {x r : Float} (h : Accrues c 0.0 c' r) : Accrues c x c' (x + r) where
  throughput := h.throughput
  crashes := h.crashes
  exact := by
    intro n hx hsmall
    have hgained := h.natAbs_le n
    exact hx.add (h.isExactly (by omega)) (by omega)

theorem clear_accrues (c : Crossing) : Accrues c 0.0 c.clear (0.0 + Float.ofNat c.cleared * clearReward) := by
  apply Accrues.add
  refine ⟨Nat.le_add_right _ _, Nat.le_refl _, ?_⟩
  intro n hzero hsmall
  have hthroughput : c.clear.throughput = c.throughput + c.cleared := rfl
  have hcrashes : c.clear.crashes = c.crashes := rfl
  rw [turnover, turnover, hthroughput, hcrashes] at hsmall
  have hearned : n + (c.clear.worth - c.worth) = c.cleared := by
    have hn : n = 0 := hzero.unique isExactly_zero
    rw [worth, worth, hthroughput, hcrashes]
    omega
  rw [hearned]
  exact isExactly_ofNat_mul_one c.cleared (by omega)

theorem isExactly_crashReward : IsExactly crashReward (-1000) := by
  rw [IsExactly]
  decide +kernel

theorem isExactly_crashes (k : Nat) {x : Float} {n : Int} (hx : IsExactly x n) (hsmall : n.natAbs + 1000 * k < 2 ^ 53) :
    IsExactly (k.repeat (· + crashReward) x) (n - 1000 * k) := by
  induction k with
  | zero =>
    rw [Int.natCast_zero, Int.mul_zero, Int.sub_zero]
    exact hx
  | succ k ih =>
    have hnext := (ih (by omega)).add isExactly_crashReward (by omega)
    have hsum : n - 1000 * (k : Int) + -1000 = n - 1000 * ((k + 1 : Nat) : Int) := by omega
    rw [hsum] at hnext
    exact hnext

theorem settle_accrues (c : Crossing) (x : Float) : Accrues c x c.settle (c.hits.repeat (· + crashReward) x) := by
  refine ⟨Nat.le_refl _, Nat.le_add_right _ _, ?_⟩
  intro n hx hsmall
  have hthroughput : c.settle.throughput = c.throughput := rfl
  have hcrashes : c.settle.crashes = c.crashes + c.hits := rfl
  rw [turnover, turnover, hthroughput, hcrashes] at hsmall
  have hearned : n + (c.settle.worth - c.worth) = n - 1000 * c.hits := by
    rw [worth, worth, hthroughput, hcrashes]
    omega
  rw [hearned]
  exact isExactly_crashes c.hits hx (by omega)

/-- A tick earns what it adds to the counters. -/
theorem tick_accrues {reward : Float} (h : c.tick.2 = some reward) : Accrues c 0.0 c.tick.1 reward := by
  rcases c.tick_cases with ⟨-, heq⟩ | ⟨c₁, harr, heq⟩
  · rw [heq] at h
    cases h
  · rw [heq] at h
    obtain rfl : c₁.drive.reward = reward := Option.some.inj h
    obtain ⟨hthroughput, hcrashes⟩ := arrivals_counters harr
    have hdriven : Accrues c 0.0 c₁.drive 0.0 := .of_eq hthroughput hcrashes
    rw [heq]
    exact hdriven.trans (c₁.drive.clear_accrues.trans (c₁.drive.clear.settle_accrues _))

theorem tickedFrom_accrues (n : Nat) {before reward : Float} (h : (c.tickedFrom before n).2 = some reward) :
    Accrues c before (c.tickedFrom before n).1 reward := by
  induction n generalizing c before with
  | zero =>
    obtain rfl : before = reward := Option.some.inj h
    exact .of_eq rfl rfl
  | succ n ih =>
    rw [tickedFrom] at h ⊢
    rcases htick : c.tick with ⟨c₁, _ | r⟩
    · rw [htick] at h
      cases h
    · have hfirst : Accrues c 0.0 c.tick.1 r := tick_accrues (congrArg Prod.snd htick)
      rw [htick] at h hfirst
      exact hfirst.add.trans (ih h)

theorem Sound.step_accrues (h : c.Sound s) (p : Phase) :
    ∃ transition, (Crossing.step p c).2 = .ok transition ∧ Accrues c 0.0 (Crossing.step p c).1 transition.reward := by
  obtain ⟨reward, hreward, hok⟩ := h.step_eq p
  have hbegin : Accrues c 0.0 (c.tow.switchTo p) 0.0 := .of_eq rfl rfl
  refine ⟨_, hok, ?_⟩
  rw [step_state]
  exact hbegin.trans (tickedFrom_accrues _ hreward)

/-- Moves other than resets return what they add to the counters. -/
theorem Sound.move_accrues (h : c.Sound s) {m : Move} (hm : m ≠ .reset) (x : Float) :
    Accrues c x (c.move m) ((c.moveRewards m).foldl (· + ·) x) ∧
      ((c.move m).turnover < c.turnover + 2 ^ 53 →
        ∃ rs, List.Forall₂ IsExactly (c.moveRewards m) rs ∧ rs.sum = (c.move m).worth - c.worth) := by
  have hidle (d : Crossing) (hthroughput : d.throughput = c.throughput) (hcrashes : d.crashes = c.crashes) :
      Accrues c x d x ∧ (d.turnover < c.turnover + 2 ^ 53 →
        ∃ rs, List.Forall₂ IsExactly [] rs ∧ rs.sum = d.worth - c.worth) := by
    refine ⟨.of_eq hthroughput hcrashes, fun _ => ⟨[], .nil, ?_⟩⟩
    rw [worth, worth, hthroughput, hcrashes, Int.sub_self, List.sum_nil]
  cases m with
  | enter lane => exact hidle _ (c.enter_counters lane).1 (c.enter_counters lane).2
  | step p =>
    obtain ⟨transition, hok, haccrues⟩ := h.step_accrues p
    rw [moveRewards, hok]
    refine ⟨haccrues.add, ?_⟩
    intro hsmall
    exact ⟨[_], .cons (haccrues.isExactly hsmall) .nil, by rw [List.sum_singleton]; rfl⟩
  | switch p => exact hidle _ rfl rfl
  | reset => exact absurd rfl hm

theorem Sound.run_accrues (h : c.Sound s) (ms : List Move) (hms : ∀ m ∈ ms, m ≠ .reset) (x : Float) :
    Accrues c x (c.run ms) ((c.rewards ms).foldl (· + ·) x) ∧
      ((c.run ms).turnover < c.turnover + 2 ^ 53 →
        ∃ rs, List.Forall₂ IsExactly (c.rewards ms) rs ∧ rs.sum = (c.run ms).worth - c.worth) := by
  induction ms generalizing c x with
  | nil =>
    refine ⟨.of_eq rfl rfl, fun _ => ⟨[], .nil, ?_⟩⟩
    exact (Int.sub_self _).symm
  | cons m ms ih =>
    obtain ⟨hfirst, hearned⟩ := h.move_accrues (hms m (by simp)) x
    obtain ⟨hrest, hearned'⟩ := ih (h.move m) (fun m' hm' => hms m' (by simp [hm'])) ((c.moveRewards m).foldl (· + ·) x)
    have hgrown := hfirst.turnover_le
    have hgrown' := hrest.turnover_le
    have hrun : c.run (m :: ms) = (c.move m).run ms := rfl
    rw [rewards, List.foldl_append, hrun]
    refine ⟨hfirst.trans hrest, ?_⟩
    intro hsmall
    obtain ⟨rs, hrs, hsum⟩ := hearned (by omega)
    obtain ⟨rs', hrs', hsum'⟩ := hearned' (by omega)
    refine ⟨rs ++ rs', List.rel_append hrs hrs', ?_⟩
    rw [List.sum_append, hsum, hsum']
    omega

/-- After a step the wrecks of before are gone, and the vehicles that were whole or entered in it are on the road or counted
as throughput. The rewards of a step, and of a run without resets, are exactly what the counters say. -/
theorem step_conserves_vehicles_and_reward (s : Setup) (hs : s.Valid) (ms : List Move) (c : Crossing)
    (hc : c = (start s).run ms) (p : Phase) (c' : Crossing) (hc' : c' = (step p c).1) (left : List Vehicle)
    (hleft : left = c.stepLeavers p) :
    (∀ v ∈ c.vehicles, v.crashed = true → v.id ∉ c'.vehicles.map Vehicle.id) ∧
    (c.vehicles.filter fun v => !v.crashed).map Vehicle.id ++ c.moveIds (.step p) ~
      c'.vehicles.map Vehicle.id ++ left.map Vehicle.id ∧
    (c'.vehicles.map Vehicle.id ++ left.map Vehicle.id).Nodup ∧
    (∀ v ∈ left, v.crashed = false) ∧ c'.throughput = c.throughput + left.length ∧
    (∃ transition, (step p c).2 = .ok transition ∧
      (c'.throughput + 1000 * c'.crashes < c.throughput + 1000 * c.crashes + 2 ^ 53 →
        IsExactly transition.reward
          (((c'.throughput : Int) - c.throughput) - 1000 * ((c'.crashes : Int) - c.crashes)))) ∧
    ((∀ m ∈ ms, m ≠ .reset) → c.throughput + 1000 * c.crashes < 2 ^ 53 →
      ∃ rs : List Int, List.Forall₂ IsExactly ((start s).rewards ms) rs ∧
        rs.sum = (c.throughput : Int) - 1000 * c.crashes ∧
        IsExactly (((start s).rewards ms).foldl (· + ·) 0.0) ((c.throughput : Int) - 1000 * c.crashes)) := by
  have h : c.Sound s := hc ▸ (sound_start hs).run ms
  have hconserved := h.step_conserved p
  have hsplit : (c.vehicles.filter fun v => !v.crashed).map Vehicle.id ++ c.moveIds (.step p) ~
      c'.vehicles.map Vehicle.id ++ left.map Vehicle.id := by
    rw [hc', hleft]
    exact hconserved.split
  refine ⟨?_, hsplit, ?_, ?_, ?_, ?_, ?_⟩
  · intro v hv hwreck
    rw [hc']
    exact h.wreck_gone p hv hwreck
  · exact hsplit.nodup_iff.mp (h.tow.issued_nodup (c.move_issues (.step p)))
  · rw [hleft]
    exact hconserved.whole
  · rw [hc', hleft]
    exact hconserved.counted
  · obtain ⟨transition, hok, haccrues⟩ := h.step_accrues p
    refine ⟨transition, hok, ?_⟩
    intro hsmall
    rw [← hc'] at haccrues
    have hexact := haccrues.isExactly hsmall
    have hworth : c'.worth - c.worth =
        ((c'.throughput : Int) - c.throughput) - 1000 * ((c'.crashes : Int) - c.crashes) := by
      rw [worth, worth]
      omega
    rwa [hworth] at hexact
  · intro hms hsmall
    obtain ⟨haccrues, hearned⟩ := (sound_start hs).run_accrues ms hms 0.0
    rw [← hc] at haccrues hearned
    have hbound : c.turnover < (start s).turnover + 2 ^ 53 := Nat.lt_of_lt_of_le hsmall (Nat.le_add_left _ _)
    have hworth : c.worth - (start s).worth = (c.throughput : Int) - 1000 * c.crashes := Int.sub_zero _
    obtain ⟨rs, hrs, hsum⟩ := hearned hbound
    have hexact := haccrues.isExactly hbound
    rw [hworth] at hexact
    exact ⟨rs, hrs, hsum.trans hworth, hexact⟩

/-- Moves that end with six wrecks, after other vehicles have got through. -/
def rush : List Move :=
  [.step (.green [.north, .south]), .enter .north, .switch allGreen, .step (.green [.north, .south]), .step allGreen]

theorem step_conserves_vehicles_and_reward_rush :
    (⟨2, .east, ⟨1, 1⟩, true⟩ : Vehicle) ∈ ((start rushHour).run rush).vehicles ∧
    2 ∉ (step (.green [.north, .south]) ((start rushHour).run rush)).1.vehicles.map Vehicle.id ∧
    [12] ++ [13, 14, 15] ~ (step (.green [.north, .south]) ((start rushHour).run rush)).1.vehicles.map Vehicle.id ++
      (((start rushHour).run rush).stepLeavers (.green [.north, .south])).map Vehicle.id ∧
    (∃ transition, (step (.green [.north, .south]) ((start rushHour).run rush)).2 = .ok transition ∧
      IsExactly transition.reward 2) ∧
    IsExactly (((start rushHour).rewards rush).foldl (· + ·) 0.0) (-3994) := by
  -- one evaluation of the run for all that is read off it
  have hstate : (⟨2, .east, ⟨1, 1⟩, true⟩ : Vehicle) ∈ ((start rushHour).run rush).vehicles ∧
      (((start rushHour).run rush).vehicles.filter fun v => !v.crashed).map Vehicle.id = [12] ∧
      ((start rushHour).run rush).moveIds (.step (.green [.north, .south])) = [13, 14, 15] ∧
      ((start rushHour).run rush).throughput = 6 ∧ ((start rushHour).run rush).crashes = 4 ∧
      (step (.green [.north, .south]) ((start rushHour).run rush)).1.throughput = 8 ∧
      (step (.green [.north, .south]) ((start rushHour).run rush)).1.crashes = 4 := by decide +kernel
  obtain ⟨hwreck, hwhole, hissued, hthroughput, hcrashes, hthroughput', hcrashes'⟩ := hstate
  obtain ⟨hgone, hsplit, -, -, -, ⟨transition, hok, hreward⟩, hrun⟩ :=
    step_conserves_vehicles_and_reward rushHour rushHour_valid rush _ rfl (.green [.north, .south]) _ rfl _ rfl
  rw [hwhole, hissued] at hsplit
  rw [hthroughput, hcrashes, hthroughput', hcrashes'] at hreward
  rw [hthroughput, hcrashes] at hrun
  obtain ⟨-, -, -, htotal⟩ := hrun (by simp [rush]) (by decide)
  exact ⟨hwreck, hgone _ hwreck rfl, hsplit, ⟨transition, hok, hreward (by decide)⟩, htotal⟩

end RightOfWay.Traffic.Crossing

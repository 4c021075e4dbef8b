import RightOfWay.Proofs.Noninterference
import RightOfWay.Proofs.PileUps

namespace RightOfWay.Number.Binary64

theorem isNaN_of_beq {x y : Float} (h : (x == y) = true) : x.isNaN = false ∧ y.isNaN = false := by
  change ((unpacked x).compare (unpacked y) == some .eq) = true at h
  exact isNaN_of_compare (beq_iff_eq.mp h)

end RightOfWay.Number.Binary64

namespace RightOfWay.Chance

open Number.Binary64

/-- There is a draw for what is between zero and one, and for nothing else. -/
theorem Stream.event_isSome_iff (s : Stream) (p : Float) : (s.event p).isSome = true ↔ 0.0 ≤ p ∧ p ≤ 1.0 := by
  constructor
  · intro h
    rw [event] at h
    split at h
    · rename_i hbelow
      obtain ⟨hzero, hlt⟩ : 0.0 ≤ p ∧ p < 1.0 := by simpa using hbelow
      have hnumber := isNaN_of_lt hlt
      rw [lt_iff_level hnumber.1 hnumber.2] at hlt
      exact ⟨hzero, (le_iff_level hnumber.1 hnumber.2).mpr (Int.le_of_lt hlt)⟩
    · split at h
      · rename_i hcertain
        have hnumber := isNaN_of_beq hcertain
        have hlevel := (beq_iff_level hnumber.1 hnumber.2).mp hcertain
        have hzero : (0.0 : Float) ≤ 1.0 := by decide
        rw [le_iff_level (by decide) hnumber.1, le_iff_level hnumber.1 hnumber.2, hlevel]
        exact ⟨(le_iff_level (by decide) hnumber.2).mp hzero, Int.le_refl _⟩
      · cases h
  · rintro ⟨hzero, hone⟩
    obtain ⟨occurs, rest, hevent⟩ := s.event_isSome p hzero hone
    rw [hevent]
    rfl

end RightOfWay.Chance

namespace RightOfWay.Traffic

open Chance (Stream)

theorem Setup.check_eq_spawnRate_iff (s : Setup) :
    s.check = .error .spawnRate ↔ ¬(0.0 ≤ s.spawnRate ∧ s.spawnRate ≤ 1.0) := by
  rw [check]
  by_cases hrate : 0.0 ≤ s.spawnRate ∧ s.spawnRate ≤ 1.0
  · rw [if_neg (by simpa using hrate)]
    refine iff_of_false ?_ (not_not_intro hrate)
    split <;> simp
  · rw [if_pos (by simpa using not_and_or.mp hrate)]
    exact iff_of_true rfl hrate

/-- The sum of two counts, unless it is too large for its word. -/
def count? (size m n : Nat) : Option Nat := if m + n < size then some (m + n) else none

theorem count?_of_lt {size m n : Nat} (h : m + n < size) : count? size m n = some (m + n) := if_pos h

/-- The difference of two counts, unless it is negative. -/
def difference? (m n : Nat) : Option Nat := if n ≤ m then some (m - n) else none

theorem difference?_of_le {m n : Nat} (h : n ≤ m) : difference? m n = some (m - n) := if_pos h

theorem Approach.getElem?_all (i : Fin 4) : Approach.all[i.val]? = some (.ofIndex i) := by
  revert i
  decide

def Phase.lights (p : Phase) : List Bool := [p.north, p.east, p.south, p.west]

theorem Phase.getElem?_lights (p : Phase) (a : Approach) : p.lights[a.index]? = some (p.isGreen a) := by
  cases a <;> rfl

/-- The vehicles at two places of the list meet; the second component counts the crashes. -/
def meetAt? (i : Nat) (road : List Vehicle × Nat) (j : Nat) : Option (List Vehicle × Nat) := do
  let v ← road.1[i]?
  let w ← road.1[j]?
  if v.crashed && w.crashed then some road
  else if v.cell = w.cell then do
    let crashes ← count? UInt64.size road.2 1
    some ((road.1.set i v.wreck).set j w.wreck, crashes)
  else some road

/-- The vehicle at a place of the list meets all that come after it. -/
def meetRow? (road : List Vehicle × Nat) (i : Nat) : Option (List Vehicle × Nat) :=
  (List.range' (i + 1) (road.1.length - (i + 1))).foldlM (meetAt? i) road

/-- All pairs of vehicles meet, row by row. -/
def meetPairs? (road : List Vehicle × Nat) : Option (List Vehicle × Nat) :=
  (List.range road.1.length).foldlM meetRow? road

namespace Vehicle

/-- Whether a crash is counted where two vehicles meet. -/
def strikes (v w : Vehicle) : Bool := w.cell = v.cell && !(w.crashed && v.crashed)

theorem strikes_comm (v w : Vehicle) : v.strikes w = w.strikes v := by
  rw [strikes, strikes, Bool.and_comm w.crashed]
  congr 1
  exact decide_eq_decide.mpr eq_comm

theorem meet_cons_of_strikes {v w : Vehicle} (h : v.strikes w = true) (ws : List Vehicle) :
    v.meet (w :: ws) = (w.wreck :: (v.wreck.meet ws).1, (v.wreck.meet ws).2.1, (v.wreck.meet ws).2.2 + 1) := if_pos h

theorem meet_cons_of_not_strikes {v w : Vehicle} (h : ¬v.strikes w = true) (ws : List Vehicle) :
    v.meet (w :: ws) = (w :: (v.meet ws).1, (v.meet ws).2.1, (v.meet ws).2.2) := if_neg h

theorem length_meet (v : Vehicle) (ws : List Vehicle) : (v.meet ws).1.length = ws.length := by
  rw [(v.meet_eq ws).1, List.length_map]

end Vehicle

/-- The first vehicle may as well meet all others before they meet one another. -/
theorem collide_cons_ahead (v : Vehicle) (ahead vs : List Vehicle) :
    collide (v :: ahead) vs = ((v.meet vs).2.1 :: (collide ahead (v.meet vs).1).1,
      (v.meet vs).2.2 + (collide ahead (v.meet vs).1).2) := by
  induction vs generalizing v ahead with
  | nil => rfl
  | cons w ws ih =>
    -- both sides begin with `v` and `w`; the rest is the induction hypothesis for `v` as it is then
    rw [collide_cons]
    by_cases hhit : w.strikes v = true
    · have hpassed : w.passed (v :: ahead) = v.wreck :: w.wreck.passed ahead := by
        rw [Vehicle.passed, Vehicle.meet_cons_of_strikes hhit]
        rfl
      rw [hpassed, ih, Vehicle.meet_cons_of_strikes hhit, Vehicle.meet_cons_of_strikes (v.strikes_comm w ▸ hhit),
        collide_cons]
      refine Prod.ext rfl ?_
      dsimp only
      omega
    · have hpassed : w.passed (v :: ahead) = v :: w.passed ahead := by
        rw [Vehicle.passed, Vehicle.meet_cons_of_not_strikes hhit]
        rfl
      rw [hpassed, ih, Vehicle.meet_cons_of_not_strikes hhit,
        Vehicle.meet_cons_of_not_strikes (v.strikes_comm w ▸ hhit), collide_cons]
      refine Prod.ext rfl ?_
      dsimp only
      omega

theorem collide_nil_cons (v : Vehicle) (vs : List Vehicle) :
    collide [] (v :: vs) = ((v.meet vs).2.1 :: (collide [] (v.meet vs).1).1,
      (v.meet vs).2.2 + (collide [] (v.meet vs).1).2) := by
  have hfirst : collide [] (v :: vs) = ((collide [v] vs).1, 0 + (collide [v] vs).2) := rfl
  rw [hfirst, Nat.zero_add]
  exact collide_cons_ahead v [] vs

theorem meetAt?_append (before passed ws : List Vehicle) (v w : Vehicle) (crashes : Nat) :
    meetAt? before.length (before ++ v :: (passed ++ w :: ws), crashes) (before.length + 1 + passed.length) =
      if v.strikes w then
        (count? UInt64.size crashes 1).map fun n => (before ++ v.wreck :: (passed ++ w.wreck :: ws), n)
      else some (before ++ v :: (passed ++ w :: ws), crashes) := by
  have hfirst : (before ++ v :: (passed ++ w :: ws))[before.length]? = some v := by simp
  have hsecond : (before ++ v :: (passed ++ w :: ws))[before.length + 1 + passed.length]? = some w := by
    simp [Nat.add_assoc, Nat.add_comm 1]
  have hset : ((before ++ v :: (passed ++ w :: ws)).set before.length v.wreck).set
      (before.length + 1 + passed.length) w.wreck = before ++ v.wreck :: (passed ++ w.wreck :: ws) := by
    simp [Nat.add_assoc, Nat.add_comm 1]
  rw [meetAt?]
  dsimp only
  rw [hfirst, hsecond, Option.bind_eq_bind, Option.bind_some, Option.bind_eq_bind, Option.bind_some, hset]
  by_cases hwrecks : (v.crashed && w.crashed) = true
  · rw [if_pos hwrecks, if_neg]
    rw [Vehicle.strikes, Bool.and_comm w.crashed, hwrecks]
    simp
  · rw [if_neg hwrecks, Vehicle.strikes, Bool.and_comm w.crashed]
    by_cases hcell : v.cell = w.cell
    · rw [if_pos hcell, if_pos (by simp [hcell, hwrecks])]
      cases count? UInt64.size crashes 1 with
      | none => rfl
      | some n => rfl
    · rw [if_neg hcell, if_neg (by simp [Ne.symm hcell])]

/-- A row is a vehicle that meets the vehicles after it. The induction is on those, with the ones that have been met
before them in the list. -/
theorem foldlM_meetAt? (before passed ws : List Vehicle) (v : Vehicle) (crashes : Nat)
    (h : crashes + (v.meet ws).2.2 < UInt64.size) :
    (List.range' (before.length + 1 + passed.length) ws.length).foldlM (meetAt? before.length)
        (before ++ v :: (passed ++ ws), crashes) =
      some (before ++ (v.meet ws).2.1 :: (passed ++ (v.meet ws).1), crashes + (v.meet ws).2.2) := by
  induction ws generalizing passed v crashes with
  | nil => rfl
  | cons w ws ih =>
    have hnext (u : Vehicle) : before.length + 1 + passed.length + 1 = before.length + 1 + (passed ++ [u]).length := by
      rw [List.length_append, List.length_singleton, Nat.add_assoc]
    rw [List.length_cons, List.range'_succ, List.foldlM_cons, meetAt?_append]
    by_cases hhit : v.strikes w = true
    · rw [Vehicle.meet_cons_of_strikes hhit] at h ⊢
      dsimp only at h ⊢
      rw [if_pos hhit, count?_of_lt (by omega), Option.map_some, Option.bind_eq_bind, Option.bind_some, hnext w.wreck]
      have hrest := ih (passed ++ [w.wreck]) v.wreck (crashes + 1) (by omega)
      rw [List.append_assoc, List.append_assoc, Nat.add_assoc crashes, Nat.add_comm 1] at hrest
      exact hrest
    · rw [Vehicle.meet_cons_of_not_strikes hhit] at h ⊢
      dsimp only at h ⊢
      rw [if_neg hhit, Option.bind_eq_bind, Option.bind_some, hnext w]
      have hrest := ih (passed ++ [w]) v crashes h
      rw [List.append_assoc, List.append_assoc] at hrest
      exact hrest

theorem meetRow?_append (before ws : List Vehicle) (v : Vehicle) (crashes : Nat)
    (h : crashes + (v.meet ws).2.2 < UInt64.size) :
    meetRow? (before ++ v :: ws, crashes) before.length =
      some (before ++ (v.meet ws).2.1 :: (v.meet ws).1, crashes + (v.meet ws).2.2) := by
  have hcount : (before ++ v :: ws).length - (before.length + 1) = ws.length := by
    rw [List.length_append, List.length_cons]
    omega
  rw [meetRow?]
  dsimp only
  rw [hcount]
  exact foldlM_meetAt? before [] ws v crashes h

theorem foldlM_meetRow? (n : Nat) (before vs : List Vehicle) (crashes : Nat) (hn : vs.length = n)
    (h : crashes + (collide [] vs).2 < UInt64.size) :
    (List.range' before.length n).foldlM meetRow? (before ++ vs, crashes) =
      some (before ++ (collide [] vs).1, crashes + (collide [] vs).2) := by
  induction n generalizing before vs crashes with
  | zero =>
    cases vs with
    | nil => rfl
    | cons v vs => cases hn
  | succ n ih =>
    cases vs with
    | nil => cases hn
    | cons v vs =>
      rw [collide_nil_cons] at h ⊢
      dsimp only at h ⊢
      have hlength : (v.meet vs).1.length = n := by
        rw [v.length_meet]
        exact Nat.succ.inj hn
      have hnext : before.length + 1 = (before ++ [(v.meet vs).2.1]).length := by
        rw [List.length_append, List.length_singleton]
      have hrest := ih (before ++ [(v.meet vs).2.1]) (v.meet vs).1 (crashes + (v.meet vs).2.2) hlength (by omega)
      rw [List.append_assoc, List.append_assoc, Nat.add_assoc] at hrest
      rw [List.range'_succ, List.foldlM_cons, meetRow?_append before vs v crashes (by omega), Option.bind_eq_bind,
        Option.bind_some, hnext]
      exact hrest

/-- The loop over pairs of places does what collisions do. -/
theorem meetPairs?_eq (vs : List Vehicle) (crashes : Nat) (h : crashes + (collide [] vs).2 < UInt64.size) :
    meetPairs? (vs, crashes) = some ((collide [] vs).1, crashes + (collide [] vs).2) := by
  rw [meetPairs?, List.range_eq_range']
  exact foldlM_meetRow? vs.length [] vs crashes rfl h

/-- A vehicle looks up its light, unless it is a wreck. -/
def Vehicle.advance? (p : Phase) (v : Vehicle) : Option Vehicle :=
  if v.crashed then some v
  else do
    let green ← p.lights[v.lane.index]?
    some (if green then { v with cell := v.cell.add v.lane.heading } else v)

theorem Vehicle.advance?_eq (p : Phase) (v : Vehicle) : v.advance? p = some (v.advance p) := by
  rw [advance?, advance, p.getElem?_lights, Option.bind_eq_bind, Option.bind_some]
  cases v.crashed with
  | true => rfl
  | false => rfl

namespace Crossing

def enter? (c : Crossing) (lane : Approach) : Option Crossing :=
  if c.setup.maxVehicles ≤ c.vehicles.length || c.vehicles.any (fun v => v.cell = lane.entry c.setup.halfLength) then
    some c
  else do
    let next ← count? UInt64.size c.nextId 1
    some { c with
      nextId := next
      vehicles := c.vehicles ++ [⟨c.nextId, lane, lane.entry c.setup.halfLength, false⟩] }

def arrivals? (c : Crossing) : Option Crossing := do
  let drawn ← c.stream.event c.setup.spawnRate
  if drawn.1 then do
    let lane ← Approach.all[drawn.2.belowFour.1.val]?
    { c with stream := drawn.2.belowFour.2 }.enter? lane
  else some { c with stream := drawn.2 }

def drive? (c : Crossing) : Option Crossing := do
  let vehicles ← c.vehicles.mapM (Vehicle.advance? c.signal.phase)
  some { c with vehicles := vehicles }

def clear? (c : Crossing) : Option Crossing := do
  let kept := c.vehicles.filter (Vehicle.onRoad c.setup.halfLength)
  let cleared ← difference? c.vehicles.length kept.length
  let throughput ← count? UInt64.size c.throughput cleared
  some { c with vehicles := kept, throughput := throughput }

def settle? (c : Crossing) : Option Crossing := do
  let road ← meetPairs? (c.vehicles, c.crashes)
  some { c with vehicles := road.1, crashes := road.2 }

def tick? (c : Crossing) : Option Crossing := do
  let ticks ← count? UInt64.size c.ticks 1
  let arrived ← { c with ticks := ticks }.arrivals?
  let driven ← arrived.drive?
  let cleared ← driven.clear?
  cleared.settle?

def ticked? (c : Crossing) : Nat → Option Crossing
  | 0 => some c
  | n + 1 => do
    let next ← c.tick?
    next.ticked? n

def switchTo? (c : Crossing) (p : Phase) : Option Crossing := do
  let steps ← count? UInt32.size c.signal.steps 1
  some { c with signal := { c.signal with phase := p, steps := steps } }

def step? (p : Phase) (c : Crossing) : Option Crossing := do
  let switched ← c.tow.switchTo? p
  switched.ticked? c.setup.ticksPerStep

def move? (c : Crossing) : Move → Option Crossing
  | .enter lane => c.enter? lane
  | .step p => step? p c
  | .switch p => c.switchTo? p
  | .reset => some c.reset

/-- The counters are in the range of their words. -/
structure Fits (c : Crossing) : Prop where
  steps : c.signal.steps < UInt32.size
  nextId : c.nextId < UInt64.size
  ticks : c.ticks < UInt64.size
  crashes : c.crashes < UInt64.size
  throughput : c.throughput < UInt64.size

instance (c : Crossing) : Decidable c.Fits :=
  decidable_of_iff (c.signal.steps < UInt32.size ∧ c.nextId < UInt64.size ∧ c.ticks < UInt64.size ∧
      c.crashes < UInt64.size ∧ c.throughput < UInt64.size)
    ⟨fun ⟨h₁, h₂, h₃, h₄, h₅⟩ => ⟨h₁, h₂, h₃, h₄, h₅⟩, fun ⟨h₁, h₂, h₃, h₄, h₅⟩ => ⟨h₁, h₂, h₃, h₄, h₅⟩⟩

/-- No counter of the first crossing is ahead of the same counter of the second. -/
structure Grows (c c' : Crossing) : Prop where
  steps : c.signal.steps ≤ c'.signal.steps
  nextId : c.nextId ≤ c'.nextId
  ticks : c.ticks ≤ c'.ticks
  crashes : c.crashes ≤ c'.crashes
  throughput : c.throughput ≤ c'.throughput

variable {c c' c'' : Crossing}

theorem Grows.refl (c : Crossing) : c.Grows c :=
  ⟨Nat.le_refl _, Nat.le_refl _, Nat.le_refl _, Nat.le_refl _, Nat.le_refl _⟩

theorem Grows.trans (h : c.Grows c') (h' : c'.Grows c'') : c.Grows c'' where
  steps := h.steps.trans h'.steps
  nextId := h.nextId.trans h'.nextId
  ticks := h.ticks.trans h'.ticks
  crashes := h.crashes.trans h'.crashes
  throughput := h.throughput.trans h'.throughput

theorem Fits.of_grows (h : c'.Fits) (hgrows : c.Grows c') : c.Fits where
  steps := hgrows.steps.trans_lt h.steps
  nextId := hgrows.nextId.trans_lt h.nextId
  ticks := hgrows.ticks.trans_lt h.ticks
  crashes := hgrows.crashes.trans_lt h.crashes
  throughput := hgrows.throughput.trans_lt h.throughput

theorem enter_grows (c : Crossing) (lane : Approach) : c.Grows (c.enter lane).2 := by
  rcases c.enter_cases lane with heq | ⟨-, -, heq⟩
  · rw [heq]
    exact .refl c
  · rw [heq]
    exact { Grows.refl c with nextId := Nat.le_succ _ }

theorem arrivals_grows (h : c.arrivals = some c') : c.Grows c' := by
  rcases c.arrivals_cases c' h with ⟨stream, -, -, rfl⟩ | ⟨lane, stream, -, -, rfl⟩
  · exact { Grows.refl c with }
  · exact { enter_grows { c with stream := stream } lane with }

theorem clear_grows (c : Crossing) : c.Grows c.clear := { Grows.refl c with throughput := Nat.le_add_right _ _ }

theorem settle_grows (c : Crossing) : c.Grows c.settle := { Grows.refl c with crashes := Nat.le_add_right _ _ }

theorem proceed_grows (c : Crossing) : c.Grows c.drive.clear.settle := by
  have hdrive : c.Grows c.drive := { Grows.refl c with }
  exact hdrive.trans (c.drive.clear_grows.trans c.drive.clear.settle_grows)

theorem tick_grows (c : Crossing) : c.Grows c.tick.1 := by
  have hcounted : c.Grows { c with ticks := c.ticks + 1 } := { Grows.refl c with ticks := Nat.le_succ _ }
  rcases c.tick_cases with ⟨-, heq⟩ | ⟨c₁, harr, heq⟩
  · rw [heq]
    exact hcounted
  · rw [heq]
    exact hcounted.trans ((arrivals_grows harr).trans c₁.proceed_grows)

theorem ticked_grows (n : Nat) (c : Crossing) : c.Grows (c.ticked n).1 :=
  ticked_induct (P := c.Grows) (fun d h => h.trans d.tick_grows) n c (.refl c)

theorem enter?_eq (lane : Approach) (h : (c.enter lane).2.Fits) : c.enter? lane = some (c.enter lane).2 := by
  rw [enter?]
  rw [enter] at h ⊢
  split
  · rfl
  · rename_i hfree
    rw [if_neg hfree] at h
    rw [count?_of_lt h.nextId]
    rfl

theorem drawLane_cases {rate : Float} {s stream : Stream} {lane : Option Approach}
    (h : drawLane rate s = some (lane, stream)) :
    (lane = none ∧ s.event rate = some (false, stream)) ∨
    ∃ drawn i, lane = some (.ofIndex i) ∧ s.event rate = some (true, drawn) ∧ drawn.belowFour = (i, stream) := by
  rw [drawLane] at h
  cases hevent : s.event rate with
  | none =>
    rw [hevent] at h
    cases h
  | some x =>
    obtain ⟨b, drawn⟩ := x
    rw [hevent] at h
    cases b with
    | false =>
      cases h
      exact .inl ⟨rfl, rfl⟩
    | true =>
      dsimp only at h
      cases hdraw : drawn.belowFour with
      | mk i rest =>
        rw [hdraw] at h
        cases h
        exact .inr ⟨drawn, i, rfl, rfl, hdraw⟩

theorem arrivals?_eq (harr : c.arrivals = some c') (h : c'.Fits) : c.arrivals? = some c' := by
  rw [arrivals?]
  rcases c.arrivals_cases c' harr with ⟨stream, hlane, -, rfl⟩ | ⟨lane, stream, hlane, -, rfl⟩
  · obtain ⟨-, hevent⟩ | ⟨drawn, i, hsome, -⟩ := drawLane_cases hlane
    · rw [hevent, Option.bind_eq_bind, Option.bind_some, if_neg Bool.false_ne_true]
    · cases hsome
  · obtain ⟨hnone, -⟩ | ⟨drawn, i, hsome, hevent, hdraw⟩ := drawLane_cases hlane
    · cases hnone
    obtain rfl := Option.some.inj hsome
    rw [hevent, Option.bind_eq_bind, Option.bind_some, if_pos rfl]
    dsimp only
    rw [hdraw, Approach.getElem?_all, Option.bind_eq_bind, Option.bind_some]
    exact enter?_eq _ h

theorem drive?_eq (c : Crossing) : c.drive? = some c.drive := by
  have hadvance : Vehicle.advance? c.signal.phase = fun v => pure (v.advance c.signal.phase) := by
    funext v
    exact v.advance?_eq c.signal.phase
  rw [drive?, hadvance, List.mapM_pure]
  rfl

theorem clear?_eq (h : c.clear.Fits) : c.clear? = some c.clear := by
  have hcleared : difference? c.vehicles.length (c.vehicles.filter (Vehicle.onRoad c.setup.halfLength)).length =
      some c.cleared := difference?_of_le (List.length_filter_le _ _)
  rw [clear?, hcleared, Option.bind_eq_bind, Option.bind_some, count?_of_lt h.throughput]
  rfl

theorem settle?_eq (h : c.settle.Fits) : c.settle? = some c.settle := by
  rw [settle?, meetPairs?_eq c.vehicles c.crashes h.crashes]
  rfl

theorem tick?_eq {c₁ : Crossing} (harr : { c with ticks := c.ticks + 1 }.arrivals = some c₁)
    (h : c₁.drive.clear.settle.Fits) : c.tick? = some c₁.drive.clear.settle := by
  have harrived : c₁.Fits := h.of_grows c₁.proceed_grows
  have hcounted := harrived.of_grows (arrivals_grows harr)
  rw [tick?, count?_of_lt hcounted.ticks, Option.bind_eq_bind, Option.bind_some, arrivals?_eq harr harrived,
    Option.bind_eq_bind, Option.bind_some, drive?_eq, Option.bind_some,
    clear?_eq (h.of_grows c₁.drive.clear.settle_grows), Option.bind_some]
  exact settle?_eq h

theorem tick_of_arrivals {c₁ : Crossing} (harr : { c with ticks := c.ticks + 1 }.arrivals = some c₁) :
    c.tick = (c₁.drive.clear.settle, some c₁.drive.reward) := by
  rcases c.tick_cases with ⟨hnone, -⟩ | ⟨c₂, hsome, heq⟩
  · rw [hnone] at harr
    cases harr
  · rw [harr] at hsome
    cases hsome
    exact heq

theorem ticked?_eq (n : Nat) (c : Crossing) (hzero : 0.0 ≤ c.setup.spawnRate) (hone : c.setup.spawnRate ≤ 1.0)
    (h : (c.ticked n).1.Fits) : c.ticked? n = some (c.ticked n).1 := by
  induction n generalizing c with
  | zero => rfl
  | succ n ih =>
    obtain ⟨c₁, harr⟩ := arrivals_of_probability { c with ticks := c.ticks + 1 } hzero hone
    obtain ⟨hsetup, -, -⟩ := arrivals_stream harr
    have hrest : (c.ticked (n + 1)).1 = (c₁.drive.clear.settle.ticked n).1 := by
      rw [ticked_succ, tick_of_arrivals harr]
    rw [hrest] at h ⊢
    rw [ticked?, tick?_eq harr (h.of_grows (ticked_grows n _)), Option.bind_eq_bind, Option.bind_some]
    exact ih _ (hsetup ▸ hzero) (hsetup ▸ hone) h

theorem switchTo?_eq (p : Phase) (h : (c.switchTo p).Fits) : c.switchTo? p = some (c.switchTo p) := by
  rw [switchTo?, count?_of_lt h.steps]
  rfl

theorem step?_eq (p : Phase) (hzero : 0.0 ≤ c.setup.spawnRate) (hone : c.setup.spawnRate ≤ 1.0)
    (h : (step p c).1.Fits) : step? p c = some (step p c).1 := by
  rw [step_state] at h ⊢
  rw [step?, switchTo?_eq p (h.of_grows (ticked_grows _ _)), Option.bind_eq_bind, Option.bind_some]
  exact ticked?_eq _ (c.tow.switchTo p) hzero hone h

/-- A move on a machine ends as it should where the counters fit after it. -/
theorem move?_eq (m : Move) (hzero : 0.0 ≤ c.setup.spawnRate) (hone : c.setup.spawnRate ≤ 1.0)
    (h : (c.move m).Fits) : c.move? m = some (c.move m) := by
  cases m with
  | enter lane => exact enter?_eq lane h
  | step p => exact step?_eq p hzero hone h
  | switch p => exact switchTo?_eq p h
  | reset => rfl

/-- Moves of a crossing and of the copies that are made of it, each of which goes its own way. -/
inductive Course where
  | done
  | move (m : Move) (rest : Course)
  | copy (original duplicate : Course)

/-- The crossings in the end, the original before its copies. -/
def Course.ends : Course → Crossing → List Crossing
  | .done, c => [c]
  | .move m rest, c => rest.ends (c.move m)
  | .copy original duplicate, c => original.ends c ++ duplicate.ends c

def Course.ends? : Course → Crossing → Option (List Crossing)
  | .done, c => some [c]
  | .move m rest, c => do
    let next ← c.move? m
    rest.ends? next
  | .copy original duplicate, c => do
    let originals ← original.ends? c
    let duplicates ← duplicate.ends? c
    some (originals ++ duplicates)

/-- The moves, each with the crossing that makes it. -/
def Course.calls : Course → Crossing → List (Crossing × Move)
  | .done, _ => []
  | .move m rest, c => (c, m) :: rest.calls (c.move m)
  | .copy original duplicate, c => original.calls c ++ duplicate.calls c

theorem Course.setup_of_mem_calls (course : Course) (c : Crossing) :
    ∀ x ∈ course.calls c, x.1.setup = c.setup := by
  induction course generalizing c with
  | done => simp [calls]
  | move m rest ih =>
    have hrest := ih (c.move m)
    rw [(c.move_elapses m).setup] at hrest
    rw [calls, List.forall_mem_cons]
    exact ⟨rfl, hrest⟩
  | copy original duplicate ihOriginal ihDuplicate =>
    rw [calls, List.forall_mem_append]
    exact ⟨ihOriginal c, ihDuplicate c⟩

theorem Course.ends?_eq (course : Course) (c : Crossing)
    (h : ∀ x ∈ course.calls c, x.1.move? x.2 = some (x.1.move x.2)) : course.ends? c = some (course.ends c) := by
  induction course generalizing c with
  | done => rfl
  | move m rest ih =>
    rw [calls, List.forall_mem_cons] at h
    rw [ends?, h.1, Option.bind_eq_bind, Option.bind_some]
    exact ih (c.move m) h.2
  | copy original duplicate ihOriginal ihDuplicate =>
    rw [calls, List.forall_mem_append] at h
    rw [ends?, ihOriginal c h.1, ihDuplicate c h.2]
    rfl

theorem arrivals?_of_event (h : c.stream.event c.setup.spawnRate = none) : c.arrivals? = none ∧ c.arrivals = none := by
  rw [arrivals?, arrivals, drawLane, h]
  exact ⟨rfl, rfl⟩

theorem tick?_of_event (h : c.stream.event c.setup.spawnRate = none) :
    c.tick? = none ∧ c.tick = ({ c with ticks := c.ticks + 1 }, none) := by
  have hnone (n : Nat) : { c with ticks := n }.arrivals? = none ∧ { c with ticks := n }.arrivals = none :=
    arrivals?_of_event h
  constructor
  · rw [tick?]
    cases count? UInt64.size c.ticks 1 with
    | none => rfl
    | some n =>
      rw [Option.bind_eq_bind, Option.bind_some, (hnone n).1]
      rfl
  · rcases c.tick_cases with ⟨-, heq⟩ | ⟨c₁, harr, -⟩
    · exact heq
    · rw [(hnone _).2] at harr
      cases harr

theorem ticked?_of_event (n : Nat) (h : c.stream.event c.setup.spawnRate = none) :
    c.ticked? (n + 1) = none ∧ c.ticked (n + 1) = ({ c with ticks := c.ticks + 1 }, none) := by
  obtain ⟨hmachine, htick⟩ := tick?_of_event h
  rw [ticked?, hmachine, ticked, tickedFrom, htick]
  exact ⟨rfl, rfl⟩

/-- A step breaks down in its first tick. -/
theorem step?_of_event (p : Phase) (h : c.stream.event c.setup.spawnRate = none) (hticks : c.setup.ticksPerStep ≠ 0) :
    step? p c = none ∧ step p c = ({ c.tow.switchTo p with ticks := c.ticks + 1 }, .error .aborted) := by
  obtain ⟨n, hn⟩ := Nat.exists_eq_succ_of_ne_zero hticks
  -- the draw does not depend on what the signal shows
  have hticked (signal : Signal) :
      { c.tow with signal := signal }.ticked? (n + 1) = none ∧
      { c.tow with signal := signal }.ticked (n + 1) =
        ({ c.tow with signal := signal, ticks := c.ticks + 1 }, none) := ticked?_of_event n h
  constructor
  · rw [step?, switchTo?, hn]
    cases count? UInt32.size c.tow.signal.steps 1 with
    | none => rfl
    | some steps => exact (hticked _).1
  · have hswitched : (c.tow.switchTo p).ticked (n + 1) = ({ c.tow.switchTo p with ticks := c.ticks + 1 }, none) :=
      (hticked _).2
    rw [step, hn, hswitched]

/-- At a crossing with a setup that passes its check, and at its copies, no move breaks down as long as the counters fit
into their words. Where the spawn rate is rejected, the first tick does. -/
theorem checked_crossings_never_break_down :
    (∀ s : Setup, s.check = .ok () → ∀ course : Course,
      (∀ x ∈ course.calls (start s), (x.1.move x.2).Fits) →
        course.ends? (start s) = some (course.ends (start s)) ∧
        ∀ x ∈ course.calls (start s),
          x.1.move? x.2 = some (x.1.move x.2) ∧ ∀ p, x.2 = .step p → ∃ t, (step p x.1).2 = .ok t) ∧
    (∀ (s : Setup) (stream : Stream), (stream.event s.spawnRate).isSome = true ↔ s.check ≠ .error .spawnRate) ∧
    ∀ c : Crossing, c.setup.check = .error .spawnRate →
      c.tick? = none ∧ c.tick = ({ c with ticks := c.ticks + 1 }, none) ∧
      ∀ p, (c.setup.ticksPerStep ≠ 0 → step? p c = none ∧
          step p c = ({ c.tow.switchTo p with ticks := c.ticks + 1 }, .error .aborted)) ∧
        (c.setup.ticksPerStep = 0 → ∃ t, (step p c).2 = .ok t) := by
  have hdraws (s : Setup) (stream : Stream) :
      (stream.event s.spawnRate).isSome = true ↔ s.check ≠ .error .spawnRate := by
    rw [stream.event_isSome_iff, Ne, s.check_eq_spawnRate_iff, not_not]
  refine ⟨?_, hdraws, ?_⟩
  · intro s hs course hfits
    have hrate : 0.0 ≤ s.spawnRate ∧ s.spawnRate ≤ 1.0 := by
      rw [← not_not (a := _ ∧ _), ← s.check_eq_spawnRate_iff, hs]
      simp
    have hcalls (x : Crossing × Move) (hx : x ∈ course.calls (start s)) :
        x.1.move? x.2 = some (x.1.move x.2) ∧ ∀ p, x.2 = .step p → ∃ t, (step p x.1).2 = .ok t := by
      have hsetup : x.1.setup = s := course.setup_of_mem_calls (start s) x hx
      rw [← hsetup] at hrate
      exact ⟨move?_eq x.2 hrate.1 hrate.2 (hfits x hx), fun p _ => (step_of_probability p x.1 hrate.1 hrate.2).1⟩
    exact ⟨course.ends?_eq (start s) fun x hx => (hcalls x hx).1, hcalls⟩
  · intro c hc
    have hevent : c.stream.event c.setup.spawnRate = none := by
      rw [← Option.not_isSome_iff_eq_none, hdraws]
      exact not_not_intro hc
    obtain ⟨hmachine, htick⟩ := tick?_of_event hevent
    refine ⟨hmachine, htick, ?_⟩
    intro p
    refine ⟨step?_of_event p hevent, ?_⟩
    intro hzero
    rw [step, hzero]
    exact ⟨_, rfl⟩

/-- A crossing is copied among wrecks; the copy is driven on, the original starts over. -/
def partingWays : Course :=
  .move (.step allGreen) (.copy
    (.move .reset (.move (.enter .west) (.move (.step allGreen) .done)))
    (.move (.switch .allRed) (.move (.step (.green [.north, .south])) .done)))

/-- As in the rush hour, but with arrivals in more than every tick. -/
def overcrowded : Setup := { rushHour with spawnRate := 1.5 }

theorem checked_crossings_never_break_down_rushHour :
    (step allGreen (start rushHour)).1.crashes = 3 ∧
    (∀ x ∈ partingWays.calls (start rushHour), (x.1.move x.2).Fits) ∧
    partingWays.ends? (start rushHour) = some (partingWays.ends (start rushHour)) ∧
    overcrowded.check = .error .spawnRate ∧ (start overcrowded).tick? = none := by
  have hfits : (step allGreen (start rushHour)).1.crashes = 3 ∧
      ∀ x ∈ partingWays.calls (start rushHour), (x.1.move x.2).Fits := by decide +kernel
  obtain ⟨hruns, -, hbreaks⟩ := checked_crossings_never_break_down
  have hrejected : overcrowded.check = .error .spawnRate := rfl
  exact ⟨hfits.1, hfits.2, (hruns rushHour rushHour_valid.checked partingWays hfits.2).1, hrejected,
    (hbreaks (start overcrowded) hrejected).1⟩

end Crossing

end RightOfWay.Traffic

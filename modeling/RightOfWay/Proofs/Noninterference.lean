import RightOfWay.Proofs.Completion
import Mathlib.Logic.Function.Iterate

namespace RightOfWay.Traffic

open Chance (Stream)
open Control (Interruption Transition)

/-- What the draw of a tick leaves of the stream. -/
def leftover (rate : Float) (s : Stream) : Stream := ((drawLane rate s).map Prod.snd).getD s

namespace Crossing

variable {c c' c'' : Crossing} {s : Setup}

theorem letIn_frame (c : Crossing) (lane : Option Approach) :
    (c.letIn lane).setup = c.setup ∧ (c.letIn lane).stream = c.stream ∧ (c.letIn lane).ticks = c.ticks := by
  cases lane with
  | none => exact ⟨rfl, rfl, rfl⟩
  | some lane =>
    rw [letIn]
    rcases c.enter_cases lane with heq | ⟨-, -, heq⟩
    · rw [heq]
      exact ⟨rfl, rfl, rfl⟩
    · rw [heq]
      exact ⟨rfl, rfl, rfl⟩

theorem arrivals_eq (h : c.arrivals = some c') :
    drawLane c.setup.spawnRate c.stream = some (c.attempt, leftover c.setup.spawnRate c.stream) ∧
      c' = { c with stream := leftover c.setup.spawnRate c.stream }.letIn c.attempt := by
  rw [leftover]
  rcases c.arrivals_cases c' h with ⟨stream, hdraw, hattempt, rfl⟩ | ⟨lane, stream, hdraw, hattempt, rfl⟩
  · rw [hdraw, hattempt]
    exact ⟨rfl, rfl⟩
  · rw [hdraw, hattempt]
    exact ⟨rfl, rfl⟩

theorem leftover_of_arrivals (h : c.arrivals = none) : leftover c.setup.spawnRate c.stream = c.stream := by
  rw [arrivals] at h
  rw [leftover]
  cases hdraw : drawLane c.setup.spawnRate c.stream with
  | none => rfl
  | some drawn =>
    rw [hdraw] at h
    cases h

theorem arrivals_stream (h : c.arrivals = some c') :
    c'.setup = c.setup ∧ c'.stream = leftover c.setup.spawnRate c.stream ∧ c'.ticks = c.ticks := by
  rw [(arrivals_eq h).2]
  exact letIn_frame _ _

/-- The crossings in which several ticks begin. -/
def tickedStarts (c : Crossing) : Nat → List Crossing
  | 0 => []
  | n + 1 =>
    c ::
      match c.tick with
      | (_, none) => []
      | (c', some _) => c'.tickedStarts n

def moveStarts (c : Crossing) : Move → List Crossing
  | .enter _ => []
  | .step p => (c.tow.switchTo p).tickedStarts c.setup.ticksPerStep
  | .switch _ => []
  | .reset => []

/-- The crossings in which the ticks of several moves begin. -/
def starts (c : Crossing) : List Move → List Crossing
  | [] => []
  | m :: ms => c.moveStarts m ++ (c.move m).starts ms

/-- The ticks of the episode that a move ends. -/
def endedBy (c : Crossing) : Move → Nat
  | .enter _ => 0
  | .step _ => 0
  | .switch _ => 0
  | .reset => c.ticks

def endedTicks (c : Crossing) : List Move → Nat
  | [] => 0
  | m :: ms => c.endedBy m + (c.move m).endedTicks ms

/-- Between two moments of a crossing, each tick makes one draw. Ticks are counted since the last reset, those before
it are the `ended` ones. -/
structure Elapses (c : Crossing) (ended : Nat) (begun : List Crossing) (c' : Crossing) : Prop where
  setup : c'.setup = c.setup
  stream : c'.stream = (leftover c.setup.spawnRate)^[begun.length] c.stream
  counted : begun.length + c.ticks = ended + c'.ticks
  tickwise : ∀ k d, begun[k]? = some d → d.setup = c.setup ∧ d.stream = (leftover c.setup.spawnRate)^[k] c.stream

theorem Elapses.of_eq (hsetup : c'.setup = c.setup) (hstream : c'.stream = c.stream) (hticks : c'.ticks = c.ticks) :
    Elapses c 0 [] c' where
  setup := hsetup
  stream := hstream
  counted := by
    rw [hticks]
    rfl
  tickwise := by simp

theorem Elapses.trans {ended ended' : Nat} {begun begun' : List Crossing} (h : Elapses c ended begun c')
    (h' : Elapses c' ended' begun' c'') : Elapses c (ended + ended') (begun ++ begun') c'' where
  setup := h'.setup.trans h.setup
  stream := by
    rw [h'.stream, h.setup, h.stream, List.length_append, Nat.add_comm, Function.iterate_add_apply]
  counted := by
    have hfirst := h.counted
    have hsecond := h'.counted
    rw [List.length_append]
    omega
  tickwise := by
    intro k d hd
    rcases Nat.lt_or_ge k begun.length with hk | hk
    · rw [List.getElem?_append_left hk] at hd
      exact h.tickwise k d hd
    · rw [List.getElem?_append_right hk] at hd
      obtain ⟨hsetup, hstream⟩ := h'.tickwise _ d hd
      refine ⟨hsetup.trans h.setup, ?_⟩
      rw [hstream, h.setup, h.stream, ← Function.iterate_add_apply, Nat.sub_add_cancel hk]

theorem enter_elapses (c : Crossing) (lane : Approach) : Elapses c 0 [] (c.enter lane).2 := by
  obtain ⟨hsetup, hstream, hticks⟩ := c.letIn_frame (some lane)
  exact .of_eq hsetup hstream hticks

theorem tick_elapses (c : Crossing) : Elapses c 0 [c] c.tick.1 := by
  have hone {d : Crossing} (hsetup : d.setup = c.setup)
      (hstream : d.stream = leftover c.setup.spawnRate c.stream) (hticks : d.ticks = c.ticks + 1) :
      Elapses c 0 [c] d := by
    refine ⟨hsetup, hstream, ?_, ?_⟩
    · rw [hticks, List.length_singleton]
      omega
    · intro k d' hd'
      obtain ⟨rfl, rfl⟩ : k = 0 ∧ c = d' := by simpa [List.getElem?_singleton] using hd'
      exact ⟨rfl, rfl⟩
  rcases c.tick_cases with ⟨harr, heq⟩ | ⟨c₁, harr, heq⟩
  · have hleft := leftover_of_arrivals harr
    rw [heq]
    exact hone rfl hleft.symm rfl
  · obtain ⟨hsetup, hstream, hticks⟩ := arrivals_stream harr
    rw [heq]
    exact hone hsetup hstream hticks

theorem ticked_elapses (n : Nat) (c : Crossing) : Elapses c 0 (c.tickedStarts n) (c.ticked n).1 := by
  induction n generalizing c with
  | zero => exact .of_eq rfl rfl rfl
  | succ n ih =>
    have hfirst := c.tick_elapses
    rw [tickedStarts, ticked_succ]
    rcases hc : c.tick with ⟨c₁, _ | r⟩
    · rw [hc] at hfirst
      exact hfirst
    · rw [hc] at hfirst
      exact hfirst.trans (ih c₁)

theorem move_elapses (c : Crossing) (m : Move) : Elapses c (c.endedBy m) (c.moveStarts m) (c.move m) := by
  cases m with
  | enter lane => exact c.enter_elapses lane
  | step p =>
    have hbegin : Elapses c 0 [] (c.tow.switchTo p) := .of_eq rfl rfl rfl
    rw [move, step_state]
    exact hbegin.trans (ticked_elapses _ (c.tow.switchTo p))
  | switch p => exact .of_eq rfl rfl rfl
  | reset => exact ⟨rfl, rfl, Nat.add_comm _ _, by simp [moveStarts]⟩

theorem run_elapses (ms : List Move) (c : Crossing) : Elapses c (c.endedTicks ms) (c.starts ms) (c.run ms) := by
  induction ms generalizing c with
  | nil => exact .of_eq rfl rfl rfl
  | cons m ms ih => exact (c.move_elapses m).trans (ih (c.move m))

/-- Where the spawn rate is a probability, a tick is counted, lets a vehicle enter in the lane that it has drawn, and is
not abandoned. -/
theorem tick_of_probability (c : Crossing) (hzero : 0.0 ≤ c.setup.spawnRate) (hone : c.setup.spawnRate ≤ 1.0) :
    ∃ stream reward, drawLane c.setup.spawnRate c.stream = some (c.attempt, stream) ∧
      c.tick = (({ c with ticks := c.ticks + 1, stream := stream }.letIn c.attempt).drive.clear.settle, some reward) := by
  obtain ⟨c₁, harr⟩ := arrivals_of_probability { c with ticks := c.ticks + 1 } hzero hone
  obtain ⟨hdraw, hentered⟩ := arrivals_eq harr
  rcases c.tick_cases with ⟨hnone, -⟩ | ⟨c₂, harr', heq⟩
  · rw [hnone] at harr
    cases harr
  · rw [harr] at harr'
    cases harr'
    refine ⟨leftover c.setup.spawnRate c.stream, c₁.drive.reward, hdraw, ?_⟩
    rw [heq]
    exact congrArg (fun d : Crossing => (d.drive.clear.settle, some c₁.drive.reward)) hentered

theorem tickedFrom_of_probability (n : Nat) (c : Crossing) (before : Float) (hzero : 0.0 ≤ c.setup.spawnRate)
    (hone : c.setup.spawnRate ≤ 1.0) :
    ∃ c' reward, c.tickedFrom before n = (c', some reward) ∧ c'.ticks = c.ticks + n := by
  induction n generalizing c before with
  | zero => exact ⟨c, before, rfl, rfl⟩
  | succ n ih =>
    obtain ⟨stream, reward, -, htick⟩ := c.tick_of_probability hzero hone
    have hfirst := c.tick_elapses
    have hcount := hfirst.counted
    have hsetup := hfirst.setup
    rw [htick] at hcount hsetup
    have hrate := congrArg Setup.spawnRate hsetup
    rw [← hrate] at hzero hone
    obtain ⟨c₂, total, hticked, hrest⟩ := ih _ (before + reward) hzero hone
    refine ⟨c₂, total, ?_, ?_⟩
    · rw [tickedFrom, htick]
      exact hticked
    · rw [List.length_singleton] at hcount
      omega

theorem step_of_probability (p : Phase) (c : Crossing) (hzero : 0.0 ≤ c.setup.spawnRate)
    (hone : c.setup.spawnRate ≤ 1.0) :
    (∃ t, (Crossing.step p c).2 = .ok t) ∧ (Crossing.step p c).1.ticks = c.ticks + c.setup.ticksPerStep := by
  obtain ⟨c', reward, hticked, hcount⟩ :=
    tickedFrom_of_probability c.setup.ticksPerStep (c.tow.switchTo p) 0.0 hzero hone
  rw [Crossing.step, ticked, hticked]
  exact ⟨⟨_, rfl⟩, hcount⟩

/-- A crossing of a setup at some moment, also within a step, with the number of ticks since it was created and the
crossings in which they began. -/
inductive Stage (s : Setup) : Crossing → Nat → List Crossing → Prop where
  | between (ms : List Move) (c : Crossing) : c = (start s).run ms →
      Stage s c ((start s).endedTicks ms + c.ticks) ((start s).starts ms)
  | within (ms : List Move) (p : Phase) (k : Nat) (c : Crossing) : k ≤ s.ticksPerStep →
      c = ((((start s).run ms).tow.switchTo p).ticked k).1 →
      Stage s c ((start s).endedTicks ms + c.ticks)
        ((start s).starts ms ++ (((start s).run ms).tow.switchTo p).tickedStarts k)

theorem Stage.elapses {n : Nat} {begun : List Crossing} (h : Stage s c n begun) :
    ∃ ended, Elapses (start s) ended begun c ∧ n = ended + c.ticks := by
  cases h with
  | between ms _ hc =>
    subst hc
    exact ⟨_, run_elapses ms (start s), rfl⟩
  | within ms p k _ hk hc =>
    have hbegin : Elapses ((start s).run ms) 0 [] (((start s).run ms).tow.switchTo p) := .of_eq rfl rfl rfl
    have hsofar := (run_elapses ms (start s)).trans (hbegin.trans (ticked_elapses k _))
    subst hc
    exact ⟨_, hsofar, rfl⟩

/-- The same crossing with another budget of steps for its episodes. -/
def withBudget (n : Nat) (c : Crossing) : Crossing :=
  { c with setup := { c.setup with maxSteps := n }, signal := { c.signal with budget := n } }

theorem start_withBudget (n : Nat) (s : Setup) : start { s with maxSteps := n } = (start s).withBudget n := rfl

theorem enter_withBudget (n : Nat) (c : Crossing) (lane : Approach) :
    (c.withBudget n).enter lane = ((c.enter lane).1, (c.enter lane).2.withBudget n) := by
  by_cases hfull : (c.setup.maxVehicles ≤ c.vehicles.length ||
      c.vehicles.any (fun v => v.cell = lane.entry c.setup.halfLength)) = true
  · have hsame : c.enter lane = (none, c) := if_pos hfull
    rw [hsame]
    exact if_pos hfull
  · have hentered : c.enter lane = (some c.nextId, { c with
        nextId := c.nextId + 1
        vehicles := c.vehicles ++ [⟨c.nextId, lane, lane.entry c.setup.halfLength, false⟩] }) := if_neg hfull
    rw [hentered]
    exact if_neg hfull

theorem letIn_withBudget (n : Nat) (c : Crossing) (lane : Option Approach) :
    (c.withBudget n).letIn lane = (c.letIn lane).withBudget n := by
  cases lane with
  | none => rfl
  | some lane => exact congrArg Prod.snd (enter_withBudget n c lane)

theorem arrivals_withBudget (n : Nat) (c : Crossing) : (c.withBudget n).arrivals = c.arrivals.map (withBudget n) := by
  have hdraw : drawLane (c.withBudget n).setup.spawnRate (c.withBudget n).stream =
      drawLane c.setup.spawnRate c.stream := rfl
  rw [arrivals, arrivals, hdraw]
  rcases drawLane c.setup.spawnRate c.stream with _ | ⟨lane, stream⟩
  · rfl
  · exact congrArg some (letIn_withBudget n { c with stream := stream } lane)

theorem tick_withBudget (n : Nat) (c : Crossing) : (c.withBudget n).tick = (c.tick.1.withBudget n, c.tick.2) := by
  have harrivals : { c.withBudget n with ticks := (c.withBudget n).ticks + 1 }.arrivals =
      { c with ticks := c.ticks + 1 }.arrivals.map (withBudget n) :=
    arrivals_withBudget n { c with ticks := c.ticks + 1 }
  rw [tick, tick]
  dsimp only at harrivals ⊢
  rw [harrivals]
  cases { c with ticks := c.ticks + 1 }.arrivals with
  | none => rfl
  | some c₁ => rfl

theorem tickedFrom_withBudget (n k : Nat) (c : Crossing) (before : Float) :
    (c.withBudget n).tickedFrom before k = ((c.tickedFrom before k).1.withBudget n, (c.tickedFrom before k).2) := by
  induction k generalizing c before with
  | zero => rfl
  | succ k ih =>
    rw [tickedFrom, tickedFrom, tick_withBudget]
    rcases c.tick with ⟨c₁, _ | r⟩
    · rfl
    · exact ih c₁ _

/-- What a move gives back. -/
inductive Reply where
  | entered (id : Option Nat)
  | stepped (outcome : Except Interruption (Transition View))
  | switched (outcome : Transition Phase)
  | reset (seen : View)

def reply (c : Crossing) : Move → Reply
  | .enter lane => .entered (c.enter lane).1
  | .step p => .stepped (Crossing.step p c).2
  | .switch p => .switched (c.signal.step p).2
  | .reset => .reset c.reset.view

def replies (c : Crossing) : List Move → List Reply
  | [] => []
  | m :: ms => c.reply m :: (c.move m).replies ms

/-- A reply as it is where no episode is over. -/
def Reply.ongoing : Reply → Reply
  | .stepped outcome => .stepped (outcome.map fun t => { t with done := false })
  | .switched outcome => .switched { outcome with done := false }
  | r => r

theorem step_withBudget (n : Nat) (p : Phase) (c : Crossing) :
    (Crossing.step p (c.withBudget n)).1 = (Crossing.step p c).1.withBudget n ∧
    (Reply.stepped (Crossing.step p (c.withBudget n)).2).ongoing = (Reply.stepped (Crossing.step p c).2).ongoing := by
  have hticked : ((c.withBudget n).tow.switchTo p).ticked (c.withBudget n).setup.ticksPerStep =
      (((c.tow.switchTo p).ticked c.setup.ticksPerStep).1.withBudget n,
        ((c.tow.switchTo p).ticked c.setup.ticksPerStep).2) :=
    tickedFrom_withBudget n c.setup.ticksPerStep (c.tow.switchTo p) 0.0
  rw [Crossing.step, Crossing.step, hticked]
  rcases (c.tow.switchTo p).ticked c.setup.ticksPerStep with ⟨c₁, _ | reward⟩
  · exact ⟨rfl, rfl⟩
  · exact ⟨rfl, rfl⟩

theorem move_withBudget (n : Nat) (c : Crossing) (m : Move) :
    (c.withBudget n).move m = (c.move m).withBudget n ∧ ((c.withBudget n).reply m).ongoing = (c.reply m).ongoing := by
  cases m with
  | enter lane =>
    have hentered := enter_withBudget n c lane
    refine ⟨congrArg Prod.snd hentered, ?_⟩
    rw [reply, hentered]
    rfl
  | step p => exact step_withBudget n p c
  | switch p => exact ⟨rfl, rfl⟩
  | reset => exact ⟨rfl, rfl⟩

theorem run_withBudget (n : Nat) (ms : List Move) (c : Crossing) :
    (c.withBudget n).run ms = (c.run ms).withBudget n ∧
    ((c.withBudget n).replies ms).map Reply.ongoing = (c.replies ms).map Reply.ongoing := by
  induction ms generalizing c with
  | nil => exact ⟨rfl, rfl⟩
  | cons m ms ih =>
    obtain ⟨hmove, hreply⟩ := move_withBudget n c m
    obtain ⟨hrun, hreplies⟩ := ih (c.move m)
    refine ⟨?_, ?_⟩
    · rw [run, List.foldl_cons, hmove]
      exact hrun
    · rw [replies, replies, List.map_cons, List.map_cons, hmove, hreply, hreplies]

/-- At crossings with one seed and one spawn rate, ticks of one number draw the same lane, in which they let a vehicle
enter, whatever else is done; and the length of episodes changes nothing but the flags that they are over. -/
theorem traffic_depends_on_seed_and_rate (s s' : Setup) (hseed : s'.seed = s.seed) (hrate : s'.spawnRate = s.spawnRate)
    (hzero : 0.0 ≤ s.spawnRate) (hone : s.spawnRate ≤ 1.0) :
    (∀ ms p c, c = (start s).run ms →
      (∃ t, (Crossing.step p c).2 = .ok t) ∧ (Crossing.step p c).1.ticks = c.ticks + s.ticksPerStep) ∧
    (∀ c n begun, Stage s c n begun → begun.length = n ∧
      ∀ d ∈ begun, ∃ stream reward, drawLane s.spawnRate d.stream = some (d.attempt, stream) ∧
        d.tick =
          (({ d with ticks := d.ticks + 1, stream := stream }.letIn d.attempt).drive.clear.settle, some reward)) ∧
    (∀ c n begun c' n' begun', Stage s c n begun → Stage s' c' n' begun' →
      (∀ (k : Nat) (d d' : Crossing), begun[k]? = some d → begun'[k]? = some d' →
        d'.stream = d.stream ∧ d'.attempt = d.attempt) ∧
      (n = n' → c'.stream = c.stream ∧ begun'.map attempt = begun.map attempt)) ∧
    (s' = { s with maxSteps := s'.maxSteps } → ∀ ms c c', c = (start s).run ms → c' = (start s').run ms →
      c'.signal.phase = c.signal.phase ∧ c'.vehicles = c.vehicles ∧ c'.ticks = c.ticks ∧ c'.crashes = c.crashes ∧
      c'.throughput = c.throughput ∧ c'.view = c.view ∧
      ((start s').replies ms).map Reply.ongoing = ((start s).replies ms).map Reply.ongoing) := by
  refine ⟨?_, ?_, ?_, ?_⟩
  · rintro ms p c rfl
    have hsetup : ((start s).run ms).setup = s := (run_elapses ms (start s)).setup
    have hstep := step_of_probability p ((start s).run ms)
    rw [hsetup] at hstep
    exact hstep hzero hone
  · intro c n begun h
    obtain ⟨ended, helapses, rfl⟩ := h.elapses
    refine ⟨helapses.counted, ?_⟩
    intro d hd
    obtain ⟨k, hk⟩ := List.mem_iff_getElem?.mp hd
    have hsame : d.setup.spawnRate = s.spawnRate := congrArg Setup.spawnRate (helapses.tickwise k d hk).1
    have htick := d.tick_of_probability
    rw [hsame] at htick
    exact htick hzero hone
  · intro c n begun c' n' begun' h h'
    obtain ⟨ended, helapses, rfl⟩ := h.elapses
    obtain ⟨ended', helapses', rfl⟩ := h'.elapses
    have hlength : begun.length = ended + c.ticks := helapses.counted
    have hlength' : begun'.length = ended' + c'.ticks := helapses'.counted
    have hbegin : (start s').setup.spawnRate = (start s).setup.spawnRate ∧ (start s').stream = (start s).stream :=
      ⟨hrate, congrArg Stream.ofSeed hseed⟩
    have htickwise (k : Nat) (d d' : Crossing) (hd : begun[k]? = some d) (hd' : begun'[k]? = some d') :
        d'.stream = d.stream ∧ d'.attempt = d.attempt := by
      obtain ⟨hsetup, hstream⟩ := helapses.tickwise k d hd
      obtain ⟨hsetup', hstream'⟩ := helapses'.tickwise k d' hd'
      have hsame : d'.stream = d.stream := by rw [hstream', hstream, hbegin.1, hbegin.2]
      refine ⟨hsame, ?_⟩
      rw [attempt, attempt, hsame, hsetup, hsetup', hbegin.1]
    refine ⟨htickwise, ?_⟩
    intro hticks
    have hnumber : begun'.length = begun.length := by omega
    refine ⟨?_, ?_⟩
    · rw [helapses.stream, helapses'.stream, hnumber, hbegin.1, hbegin.2]
    · apply List.ext_getElem
      · rw [List.length_map, List.length_map, hnumber]
      · intro k hk hk'
        rw [List.length_map] at hk hk'
        rw [List.getElem_map, List.getElem_map]
        exact (htickwise k _ _ (List.getElem?_eq_getElem hk') (List.getElem?_eq_getElem hk)).2
  · rintro hbudget ms c c' rfl rfl
    obtain ⟨hrun, hreplies⟩ := run_withBudget s'.maxSteps ms (start s)
    rw [← start_withBudget, ← hbudget] at hrun hreplies
    rw [hrun, hreplies]
    exact ⟨rfl, rfl, rfl, rfl, rfl, rfl, rfl⟩

/-- Vehicles arrive in half of the ticks. -/
def halfTime : Setup := { seed := 7, spawnRate := 0.5, ticksPerStep := 1 }

/-- The same arrivals, at a crossing that has hardly any room for them. -/
def cramped : Setup := { halfTime with ticksPerStep := 3, maxVehicles := 1, halfLength := 0, maxSteps := 1 }

def threeSteps : List Move := [.step (.green [.north, .south]), .step (.green [.east]), .step .allRed]

/-- As many ticks in a single step, with a vehicle in the way and a reset behind it. -/
def detour : List Move := [.enter .north, .switch (.green [.west]), .step .allRed, .reset, .enter .east]

theorem traffic_depends_on_seed_and_rate_detour :
    ((start halfTime).starts threeSteps).map attempt = [some .south, some .north, none] ∧
    ((start cramped).starts detour).map attempt = [some .south, some .north, none] ∧
    ((start cramped).run detour).stream = ((start halfTime).run threeSteps).stream ∧
    (∀ d ∈ (start cramped).starts detour, ∃ stream reward,
      drawLane cramped.spawnRate d.stream = some (d.attempt, stream) ∧
      d.tick = (({ d with ticks := d.ticks + 1, stream := stream }.letIn d.attempt).drive.clear.settle, some reward)) ∧
    ((start { halfTime with maxSteps := 2 }).run threeSteps).vehicles = ((start halfTime).run threeSteps).vehicles := by
  have hticks : (start halfTime).endedTicks threeSteps + ((start halfTime).run threeSteps).ticks =
      (start cramped).endedTicks detour + ((start cramped).run detour).ticks := by decide +kernel
  have htried : ((start halfTime).starts threeSteps).map attempt = [some .south, some .north, none] := by decide +kernel
  obtain ⟨-, -, hagree, -⟩ := traffic_depends_on_seed_and_rate halfTime cramped rfl rfl (by decide +kernel)
    (by decide +kernel)
  obtain ⟨-, hbegun, -, -⟩ := traffic_depends_on_seed_and_rate cramped cramped rfl rfl (by decide +kernel)
    (by decide +kernel)
  obtain ⟨-, -, -, hbudget⟩ := traffic_depends_on_seed_and_rate halfTime { halfTime with maxSteps := 2 } rfl rfl
    (by decide +kernel) (by decide +kernel)
  obtain ⟨-, hsame⟩ := hagree _ _ _ _ _ _ (.between threeSteps _ rfl) (.between detour _ rfl)
  obtain ⟨hstream, hattempts⟩ := hsame hticks
  obtain ⟨-, hvehicles, -⟩ := hbudget rfl threeSteps _ _ rfl rfl
  exact ⟨htried, hattempts.trans htried, hstream, (hbegun _ _ _ (.between detour _ rfl)).2, hvehicles⟩

end Crossing

end RightOfWay.Traffic

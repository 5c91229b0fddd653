import Sniper.Performance.Barriers
import Sniper.Performance.SerializingOrder

/-! The order of loads, stores and memory barriers. -/

namespace Sniper.Performance.RobTimer

variable {Cycle Mem : Type} {config : Config Cycle Mem} {start : State Mem}

/-! ### Dispatch -/

/-- What was in the window before, was dispatched in an earlier cycle. -/
def Rested (config : Config Cycle Mem) (state : State Mem) : Prop :=
  ∀ (index : Nat) (entry : RobEntry), index < state.numInRob → state.rob.entries[index]? = some entry →
    entry.dispatched + config.period ≤ state.now

theorem Rested.insert {state : State Mem} {rob : Rob} {insts : List DynamicMicroOp} (rested : Rested config state)
    (window : state.numInRob ≤ state.rob.entries.length) (inserted : insertMicroOps config state.rob insts = .ok rob) :
    Rested config { state with rob := rob } := by
  intro index entry inWindow found
  have extended := (insertMicroOps_extends config state.rob insts).of_ok inserted
  have there := List.getElem?_eq_getElem (Nat.lt_of_lt_of_le inWindow window)
  obtain ⟨later, found', same⟩ := extended.old_get there
  cases found.symm.trans found'
  have dispatched := congrArg RobEntry.dispatched same
  have early := rested index _ inWindow there
  exact dispatched ▸ early

theorem rested_reachable {advance : Advance} {outstandingLoads outstandingStores begin_ : Nat} {memory : Mem}
    {supply : List (List DynamicMicroOp)} {observed : Observed Mem}
    (reached : (observation config advance (.initial outstandingLoads outstandingStores begin_ memory supply)).Reachable observed) :
    Rested config observed.system.timer.state := by
  induction reached with
  | initial starts =>
    subst starts
    exact fun _ _ inWindow => absurd inWindow (Nat.not_lt_zero _)
  | @step observed next label reached _ stepped ih =>
    have sound := coherent_keeps.reachable ⟨linked_initial .., coherent_initial ..⟩ reached
    have stepped := (observation_step.mp stepped).1
    by_cases asks : observed.system.timer.state.asks config
    · obtain ⟨insts, rob, supply, inserted, timer⟩ := (step_asks asks).mp stepped
      rw [timer]
      exact ih.insert sound.2.window inserted
    · have ran := ((step_runs asks).mp stepped).1
      obtain ⟨after, stall, component, nextEvent, staged, isNext⟩ := execute_eq_ok.mp ran
      rw [isNext]
      intro index entry inWindow there
      have begun := ((coherent_keeps.stages staged sound).2.timed index entry there).begun
      exact Nat.add_le_add begun (period_le_advanceBy ..)

/-- What `doDispatch` does to the entries. -/
structure Dispatched (config : Config Cycle Mem) (before after : State Mem) : Prop where
  now : after.now = before.now
  window : before.numInRob ≤ after.numInRob
  old : ∀ index : Nat, index < before.numInRob → after.rob.entries[index]? = before.rob.entries[index]?
  new : ∀ (index : Nat) (entry : RobEntry), before.numInRob ≤ index → index < after.numInRob → after.rob.entries[index]? = some entry →
    ((before.now + config.period : Nat) : SubsecondTime) ≤ entry.ready

theorem Dispatched.refl (state : State Mem) : Dispatched config state state :=
  ⟨rfl, Nat.le_refl _, fun _ _ => rfl, fun _ _ outside inWindow => absurd inWindow (Nat.not_lt_of_le outside)⟩

theorem Dispatched.trans {before middle after : State Mem} (first : Dispatched config before middle)
    (second : Dispatched config middle after) : Dispatched config before after := by
  refine ⟨second.now.trans first.now, Nat.le_trans first.window second.window, fun index inWindow => ?_,
    fun index entry outside inWindow there => ?_⟩
  · exact (second.old index (Nat.lt_of_lt_of_le inWindow first.window)).trans (first.old index inWindow)
  · by_cases early : index < middle.numInRob
    · exact first.new index entry outside early ((second.old index early).symm.trans there)
    · rw [← first.now]
      exact second.new index entry (Nat.le_of_not_lt early) inWindow there

theorem dispatched_enter {state : State Mem} {entry : RobEntry} (there : state.rob.entries[state.numInRob]? = some entry) (misses : Bool) :
    Dispatched config state ({ state with inIcacheMiss := misses }.enter (entry.dispatch config state.now)) := by
  refine ⟨rfl, Nat.le_succ _, fun index inWindow => List.getElem?_set_ne (Nat.ne_of_gt inWindow), fun index later outside inWindow found => ?_⟩
  have last : state.numInRob = index := Nat.le_antisymm outside (Nat.le_of_lt_succ inWindow)
  subst last
  have self := List.getElem?_set_self (a := entry.dispatch config state.now) (List.getElem?_eq_some_iff.mp there).1
  cases self.symm.trans found
  exact le_max_right _ _

theorem dispatchLoop_dispatched (width : Nat) (state : State Mem) (nextEvent : SubsecondTime) :
    Meets (fun _ => True) (dispatchLoop config width state nextEvent) fun result => Dispatched config state result.1 := by
  induction width generalizing state nextEvent with
  | zero =>
    rw [dispatchLoop]
    refine Meets.ite (fun _ => ?_) fun _ => Meets.ok (.refl state)
    split
    case h_1 => trivial
    case h_2 => exact Meets.ok (.refl state)
  | succ width ih =>
    rw [dispatchLoop]
    refine Meets.ite (fun room => ?_) fun _ => Meets.ok (.refl state)
    split
    case h_1 => trivial
    case h_2 entry there =>
      have same (misses : Bool) (stalled : SubsecondTime) :
          Dispatched config state { state with frontendStalledUntil := stalled, inIcacheMiss := misses } :=
        ⟨rfl, Nat.le_refl _, fun _ _ => rfl, fun _ _ outside inWindow => absurd inWindow (Nat.not_lt_of_le outside)⟩
      refine Meets.ite (fun _ => Meets.ok (same _ _)) fun _ => Meets.ite (fun _ => Meets.ok (same _ _)) fun stations => ?_
      have first (misses : Bool) : Dispatched config state ({ state with inIcacheMiss := misses }.enter (entry.dispatch config state.now)) :=
        dispatched_enter there misses
      refine Meets.ite (fun _ => Meets.ok ?_) fun _ => ?_
      · obtain ⟨now, window, old, new⟩ := first (state.inIcacheMiss && !decide (entry.uop.iCacheHitWhere ≠ .l1i))
        exact ⟨now, window, old, new⟩
      · exact (ih _ _).mono fun result rest => (first _).trans rest

theorem doDispatch_dispatched (state : State Mem) (stall : Option CpiComponent) :
    Meets (fun _ => True) (doDispatch config state stall) fun result => Dispatched config state result.1 := by
  rw [doDispatch, runFrontEnd]
  exact Meets.bind (Meets.ite (fun _ => dispatchLoop_dispatched _ state ⊤) fun _ => Meets.ok (.refl state))
    fun result dispatched => Meets.ok dispatched

/-! ### The loop -/

theorem issueInstruction_frame {state : State Mem} {index : Nat} {entry : RobEntry} (ports : Option Cycle) (nextEvent : SubsecondTime)
    (linked : Linked state.pipeline) (there : state.rob.entries[index]? = some entry) :
    Meets (fun _ => True) (issueInstruction config state index entry ports nextEvent) fun result =>
      (∀ position : Nat, position < index → result.1.rob.entries[position]? = state.rob.entries[position]?) ∧
        (entry.uop.isStore = false → result.1.lastStoreDone = state.lastStoreDone) := by
  obtain ⟨execLatency, where_, isUop⟩ := accessAtIssue_eq config state entry.uop
  rw [issueInstruction]
  revert isUop
  obtain ⟨uop, memory⟩ := accessAtIssue config state entry.uop
  intro isUop
  dsimp only at isUop ⊢
  have base : Numbered state.traced.length state.rob.entries := linked.numbered
  have number := base index entry there
  have isStore : uop.isStore = entry.uop.isStore := by
    rw [isUop]
    rfl
  refine Meets.ite (fun _ => trivial) fun _ => Meets.bind (Meets.any _) fun ports' _ => ?_
  refine Meets.bind (Meets.foldlM (fun _ (entries : List RobEntry) => Numbered state.traced.length entries ∧
    ∀ position : Nat, position < index → entries[position]? = state.rob.entries[position]?) entry.dependants ?_ ?_)
    fun entries kept => Meets.ok ⟨kept.2, fun noStore => ?_⟩
  · intro done dependant rest entries split before
    have younger := linked.younger index entry there dependant (split ▸ List.mem_append_right _ List.mem_cons_self)
    refine (wakeDependant_wakes ..).mono fun entries' result => ?_
    obtain ⟨position, depEntry, woken, found, isDependant, wakes, rfl⟩ := result
    have place := before.1 position depEntry found
    refine ⟨before.1.of_entrywise (.set .refl found wakes.keeps) fun _ _ kept => kept.sequenceNumber, fun other earlier => ?_⟩
    rw [List.getElem?_set_ne (by omega)]
    exact before.2 other earlier
  · have same (done : SubsecondTime) : Entrywise (fun first second => second.uop.sequenceNumber = first.uop.sequenceNumber)
        state.rob.entries (state.rob.entries.set index { entry with uop := uop, issued := state.now, done := done }) := by
      refine .set (fun _ => rfl) there ?_
      rw [isUop]
    exact ⟨base.of_entrywise (same _) fun _ _ same => same, fun other earlier => List.getElem?_set_ne (Nat.ne_of_gt earlier)⟩
  · rw [isStore, noStore]
    rfl

/-- The loop knows of the barriers before an index that are ready but have to wait. -/
def Flagged (index : Nat) (loop : IssueLoop Cycle) (state : State Mem) : Prop :=
  (loop.noMoreLoad = loop.noMoreStore) ∧
    ∀ (older : Nat) (barrier : RobEntry), older < index → state.rob.entries[older]? = some barrier →
      barrier.uop.microOp.membar = true → barrier.done = ⊤ → barrier.ready ≤ state.now →
      ¬(OlderIssued state.rob.entries older ∧ state.lastStoreDone ≤ state.now) → loop.noMoreLoad = true

theorem canIssue_membar {state : State Mem} {loop : IssueLoop Cycle} {entry : RobEntry} (membar : entry.uop.microOp.membar = true)
    (ready : entry.ready ≤ state.now) (waits : ¬(loop.headOfQueue = true ∧ state.lastStoreDone ≤ state.now))
    (noFlag : loop.noMoreLoad = false) (same : loop.noMoreLoad = loop.noMoreStore) :
    canIssue config state loop entry = .barrier ∨ canIssue config state loop entry = .stop := by
  have isReady : ¬entry.ready > state.now := not_lt.mpr ready
  have waits' : ¬((loop.headOfQueue && decide (state.lastStoreDone ≤ state.now)) = true) := by
    rw [Bool.and_eq_true, decide_eq_true_eq]
    exact waits
  rw [canIssue, if_neg isReady, ← same, noFlag]
  simp only [Bool.false_and, Bool.or_false, Bool.false_eq_true, if_false]
  split
  case isTrue => exact .inr rfl
  case isFalse => exact .inl rfl

theorem Flagged.turn {visit : Visit Cycle Mem} {state : State Mem} {loop : IssueLoop Cycle}
    (flagged : Flagged visit.index visit.loop visit.state) (linked : Linked visit.state.pipeline) (proper : visit.Proper config start)
    (turn : visit.Turn config state loop true) : Flagged (visit.index + 1) loop state := by
  cases turn with
  | done nextEvent issued =>
    refine ⟨flagged.1, fun older barrier before there membar waiting ready waits => ?_⟩
    cases Nat.lt_succ_iff_lt_or_eq.mp before with
    | inl earlier => exact flagged.2 older barrier earlier there membar waiting ready waits
    | inr same =>
      subst same
      cases proper.there.symm.trans there
      exact absurd waiting issued
  | issue nextEvent nextEvent' ports ports' state continues issues ran =>
    refine ⟨flagged.1, fun older barrier before there membar waiting ready waits => ?_⟩
    have issuedAt := proper.issue issues ran
    have lets := canIssue_eq_issue.mp issues.decision
    obtain ⟨kept, lastStore⟩ := (issueInstruction_frame ports nextEvent linked proper.there).of_ok ran
    cases Nat.lt_succ_iff_lt_or_eq.mp before with
    | inl earlier =>
      have wasThere := (kept older earlier).symm.trans there
      have noStore : visit.entry.uop.isStore = false := by
        refine Bool.eq_false_iff.mpr fun isStore => ?_
        have inOrder : visit.entry.uop.inOrder = true := by rw [DynamicMicroOp.inOrder, isStore, Bool.or_true]
        exact proper.inLoop.head (lets.head inOrder) older barrier earlier wasThere waiting
      refine flagged.2 older barrier earlier wasThere membar waiting (issuedAt.now ▸ ready) fun free => waits ?_
      refine ⟨fun first entry isFirst found => free.1 first entry isFirst ?_, ?_⟩
      · exact (kept first (Nat.lt_trans isFirst earlier)).symm.trans found
      · rw [lastStore noStore, issuedAt.now]
        exact free.2
    | inr same =>
      subst same
      exact absurd waiting (issuedAt.issued proper.there there)
  | pass nextEvent decision ports continues unissued decided goesOn tried =>
    refine ⟨congrArg (· || decide (decision = .barrier)) flagged.1, fun older barrier before there membar waiting ready waits => ?_⟩
    rw [IssueLoop.pass, Bool.or_eq_true]
    cases Nat.lt_succ_iff_lt_or_eq.mp before with
    | inl earlier => exact .inl (flagged.2 older barrier earlier there membar waiting ready waits)
    | inr same =>
      subst same
      cases proper.there.symm.trans there
      cases noFlag : visit.loop.noMoreLoad with
      | true => exact .inl rfl
      | false =>
        have held : canIssue config visit.state visit.loop visit.entry = .barrier ∨ canIssue config visit.state visit.loop visit.entry = .stop :=
          canIssue_membar membar ready (fun free => waits ⟨proper.inLoop.head free.1, free.2⟩) noFlag flagged.1
        rw [decided] at held
        exact .inr (decide_eq_true (held.resolve_right goesOn))

/-- The entries of the window are not ready. -/
def NoneReady (state : State Mem) : Prop :=
  ∀ (index : Nat) (entry : RobEntry), index < state.numInRob → state.rob.entries[index]? = some entry → ¬entry.ready ≤ state.now

theorem NoneReady.unchanged {visit : Visit Cycle Mem} (none_ : NoneReady start) (visits : Visits config start visit) :
    visit.state = start := by
  induction visits with
  | first => rfl
  | next visit state loop entry visits ran inWindow there ih =>
    cases (issueEntry_turn visit).of_ok ran with
    | done => exact ih
    | pass => exact ih
    | issue nextEvent nextEvent' ports ports' state continues issues issued =>
      have ready := (canIssue_eq_issue.mp issues.decision).ready
      have here := visits.proper.there
      rw [ih] at ready here
      exact absurd ready (none_ visit.index visit.entry visits.proper.inWindow here)

/-- The loop, and the oldest entry as long as it has not issued. -/
structure Watched (start : State Mem) (visit : Visit Cycle Mem) : Prop where
  linked : Linked visit.state.pipeline
  flagged : Flagged visit.index visit.loop visit.state
  front : ∀ entry : RobEntry, visit.state.rob.entries[0]? = some entry → entry.done = ⊤ → start.rob.entries[0]? = some entry

theorem Visits.watched {visit : Visit Cycle Mem} (linked : Linked start.pipeline) (visits : Visits config start visit) :
    Watched start visit := by
  induction visits with
  | first entry => exact ⟨linked, ⟨rfl, fun older _ before => absurd before (Nat.not_lt_zero older)⟩, fun _ there _ => there⟩
  | next visit state loop entry visits ran inWindow there ih =>
    have turn := (issueEntry_turn visit).of_ok ran
    refine ⟨?_, ih.flagged.turn ih.linked visits.proper turn, fun front found waiting => ?_⟩
    · cases turn with
      | done => exact ih.linked
      | pass => exact ih.linked
      | issue nextEvent nextEvent' ports ports' state continues issues issued =>
        exact ih.linked.moves (visits.proper.issue issues issued).moves
    · cases turn with
      | done => exact ih.front front found waiting
      | pass => exact ih.front front found waiting
      | issue nextEvent nextEvent' ports ports' state continues issues issued =>
        obtain ⟨kept, -⟩ := (issueInstruction_frame ports nextEvent ih.linked visits.proper.there).of_ok issued
        cases Nat.eq_zero_or_pos visit.index with
        | inl here => exact absurd waiting ((visits.proper.issue issues issued).issued visits.proper.there (here.symm ▸ found))
        | inr behind => exact ih.front front ((kept 0 behind).symm.trans found) waiting

/-- Where the oldest entry has not issued and is not ready after dispatch, it was dispatched in this cycle, and so was the window. -/
theorem noneReady_of_front {entered : List Entering} {before : State Mem} {front : RobEntry} (linked : Linked start.pipeline)
    (barriers : Barriers config entered start.pipeline) (rested : Rested config before) (dispatched : Dispatched config before start)
    (there : start.rob.entries[0]? = some front) (late : ¬front.ready ≤ start.now) : NoneReady start := by
  have nothing : front.uop.getDependencies = [] := by
    refine List.eq_nil_iff_forall_not_mem.mpr fun producer member => ?_
    obtain ⟨older, issuer, before, -⟩ := linked.producer rfl there member
    exact absurd before (Nat.not_lt_zero older)
  have early : front.readyMax ≤ start.now := by
    refine (barriers.early 0 front there).resolve_right fun waits => ?_
    obtain ⟨older, issuer, before, -⟩ := waits
    exact absurd before (Nat.not_lt_zero older)
  have outside : before.numInRob = 0 := by
    by_contra some_
    have inWindow := Nat.pos_of_ne_zero some_
    have wasThere := (dispatched.old 0 inWindow).symm.trans there
    have begun := rested 0 front inWindow wasThere
    refine late (le_trans ((barriers.coherent.timed 0 front there).most nothing) (max_le early ?_))
    rw [dispatched.now]
    exact SubsecondTime.fs_le_fs.mpr begun
  intro index entry inWindow found ready
  have fresh := le_trans (dispatched.new index entry (outside ▸ Nat.zero_le index) inWindow found) ready
  rw [dispatched.now, SubsecondTime.fs_le_fs] at fresh
  have positive := config.period_pos
  omega

/-! ### Runs -/

/-- A barrier that keeps back no loads: an atomic store or a fencing load that is not ready, or a barrier that could issue, and that,
if it is no memory operation, is the oldest entry. -/
def Slips (state : State Mem) (index : Nat) (barrier : RobEntry) : Prop :=
  ((barrier.uop.isLoad || barrier.uop.isStore) = true ∧ ¬barrier.ready ≤ state.now) ∨
    (((barrier.uop.isLoad || barrier.uop.isStore) = true ∨ index = 0) ∧ barrier.ready ≤ state.now ∧
      (∀ older ∈ state.rob.entries.take index, older.done ≠ ⊤) ∧ state.lastStoreDone ≤ state.now)

instance (state : State Mem) (index : Nat) (barrier : RobEntry) : Decidable (Slips state index barrier) :=
  inferInstanceAs (Decidable (_ ∨ _))

/-- No barrier before a visited entry that has not issued slips. -/
def Visit.Fenced (visit : Visit Cycle Mem) : Prop :=
  ∀ (index : Nat) (barrier : RobEntry), visit.older[index]? = some barrier → barrier.uop.microOp.membar = true → barrier.done = ⊤ →
    ¬Slips visit.state index barrier

/-- Where the loop comes to a load that meets the conditions for issue, no barrier before it slips. -/
def BarriersHold (config : Config Cycle Mem) (system : System Mem) : Prop :=
  ∀ visit, system.Visits config visit → visit.entry.uop.isLoad = true → visit.entry.done = ⊤ →
    canIssue config visit.state visit.loop visit.entry = .issue → visit.Fenced

def BarriersFirst (config : Config Cycle Mem) (system : System Mem) : Prop :=
  ∀ visit, system.Visits config visit → visit.Issues config → (visit.entry.uop.isLoad || visit.entry.uop.isStore) = true →
    ∀ older ∈ visit.older, older.uop.microOp.membar = true → older.done ≠ ⊤

def StoresLast (config : Config Cycle Mem) (system : System Mem) : Prop :=
  ∀ visit, system.Visits config visit → visit.Issues config → visit.entry.uop.isStore = true → ∀ older ∈ visit.older, older.done ≠ ⊤

theorem Visit.Fenced.blocks {entered : List Entering} {before : State Mem} {visit : Visit Cycle Mem} {index : Nat} {barrier : RobEntry}
    (fenced : visit.Fenced) (visits : Visits config start visit) (linked : Linked start.pipeline)
    (barriers : Barriers config entered visit.state.pipeline) (startBarriers : Barriers config entered start.pipeline)
    (rested : Rested config before) (dispatched : Dispatched config before start) (issues : visit.Issues config)
    (load : visit.entry.uop.isLoad = true) (there : visit.older[index]? = some barrier)
    (membar : barrier.uop.microOp.membar = true) : barrier.done ≠ ⊤ := by
  intro waiting
  have proper := visits.proper
  have watched := visits.watched linked
  have lets := canIssue_eq_issue.mp issues.decision
  have noSlip := fenced index barrier there membar waiting
  obtain ⟨inFront, found⟩ := visit.older_getElem? there
  have olderIssued (issued : OlderIssued visit.state.rob.entries index) : ∀ older ∈ visit.state.rob.entries.take index, older.done ≠ ⊤ := by
    intro older member
    obtain ⟨position, inTake⟩ := List.getElem?_of_mem member
    rw [List.getElem?_take] at inTake
    split at inTake
    case isTrue first => exact issued position older first inTake
    case isFalse => cases inTake
  have flags (ready : barrier.ready ≤ visit.state.now)
      (held : ¬(OlderIssued visit.state.rob.entries index ∧ visit.state.lastStoreDone ≤ visit.state.now)) : False := by
    have flag := watched.flagged.2 index barrier inFront found membar waiting ready held
    rw [lets.load load] at flag
    cases flag
  by_cases memory : (barrier.uop.isLoad || barrier.uop.isStore) = true
  · by_cases ready : barrier.ready ≤ visit.state.now
    · exact flags ready fun free => noSlip (.inr ⟨.inl memory, ready, olderIssued free.1, free.2⟩)
    · exact noSlip (.inl ⟨memory, ready⟩)
  · have isMembar : barrier.uop.isMembar = true := by
      rw [Bool.or_eq_true, not_or] at memory
      simp only [DynamicMicroOp.isMembar, Bool.eq_false_iff.mpr memory.1, Bool.eq_false_iff.mpr memory.2, membar, Bool.not_false,
        Bool.and_self]
    have ordered : visit.entry.uop.ordered = true := by simp [DynamicMicroOp.ordered, load]
    have nothing := (barriers.coherent.timed visit.index visit.entry proper.there).ready lets.ready
    have atFront : index = 0 := by
      refine (barriers.behind index visit.index barrier visit.entry inFront found proper.there isMembar waiting ordered).resolve_right
        fun depends => ?_
      obtain ⟨middle, other, -, -, -, -, member⟩ := depends
      rw [nothing] at member
      cases member
    subst atFront
    by_cases ready : barrier.ready ≤ visit.state.now
    · refine flags ready fun free => noSlip (.inr ⟨.inr rfl, ready, olderIssued free.1, free.2⟩)
    · have wasThere := watched.front barrier found waiting
      have late : ¬barrier.ready ≤ start.now := by
        rw [← proper.inLoop.now]
        exact ready
      have none_ := noneReady_of_front linked startBarriers rested dispatched wasThere late
      have here := proper.there
      have now := lets.ready
      rw [none_.unchanged visits] at here now
      exact none_ visit.index visit.entry proper.inWindow here now

/-- In every run stores issue in order, each after everything before it; loads issue after every barrier before them in each cycle
in which none of these slips. -/
theorem memory_order (config : Config Cycle Mem) (advance : Advance) (outstandingLoads outstandingStores begin_ : Nat) (memory : Mem)
    (supply : List (List DynamicMicroOp)) :
    ∀ system, (machine config advance (.initial outstandingLoads outstandingStores begin_ memory supply)).Reachable system →
      StoresLast config system ∧ (BarriersHold config system → BarriersFirst config system) := by
  intro system reached
  have storesLast : StoresLast config system := by
    intro visit visits issues isStore
    obtain ⟨-, dispatched, -, walk⟩ := visits
    have inOrder : visit.entry.uop.inOrder = true := by rw [DynamicMicroOp.inOrder, isStore, Bool.or_true]
    exact visit.older_of_olderIssued (walk.proper.inLoop.head ((canIssue_eq_issue.mp issues.decision).head inOrder))
  refine ⟨storesLast, fun hold visit visits issues access older member membar => ?_⟩
  cases Bool.or_eq_true_iff.mp access with
  | inr isStore => exact storesLast visit visits issues isStore older member
  | inl load =>
    have fenced := hold visit visits load issues.waiting issues.decision
    obtain ⟨entered, observed⟩ := exists_observed reached
    have initially : Linked (System.initial outstandingLoads outstandingStores begin_ memory supply).timer.state.pipeline ∧
        Barriers config [] (System.initial outstandingLoads outstandingStores begin_ memory supply).timer.state.pipeline :=
      ⟨linked_initial .., barriers_initial ..⟩
    have atVisit := barriers_keeps.visits initially observed visits
    have between := barriers_keeps.reachable initially observed
    obtain ⟨-, dispatched, ran, walk⟩ := visits
    have atStart := barriers_keeps.moves ((doDispatch_moves system.timer.state _).of_ok ran) between
    obtain ⟨index, there⟩ := List.getElem?_of_mem member
    exact fenced.blocks walk atStart.1 atVisit.2 atStart.2 (rested_reachable observed)
      ((doDispatch_dispatched system.timer.state _).of_ok ran) issues load there membar

/-- A divide, a fencing load that reads its result, and a load after it. -/
def fencedAfterDivide : List (List DynamicMicroOp) :=
  [{ computes 28 false with microOp := ⟨.execute, [], [], [0], false, false, false⟩ } ::
    { computes 1 false with microOp := ⟨.load, [0], [], [], false, false, true⟩, address := 64 } ::
    { computes 1 false with microOp := ⟨.load, [], [], [], false, false, false⟩, address := 128 } ::
    List.replicate 8 (computes 1 false)]

/-- A fencing load, and a load after it. -/
def fencedFront : List (List DynamicMicroOp) :=
  [{ computes 1 false with microOp := ⟨.load, [], [], [], false, false, true⟩, address := 64 } ::
    { computes 1 false with microOp := ⟨.load, [], [], [], false, false, false⟩, address := 128 } ::
    List.replicate 8 (computes 1 false)]

def loadIssues (visit : Visit Unit Unit) : Bool :=
  visit.entry.uop.isLoad && visit.entry.done = ⊤ && canIssue wideCore visit.state visit.loop visit.entry = .issue

theorem loadIssues_iff {visit : Visit Unit Unit} : loadIssues visit = true ↔
    visit.entry.uop.isLoad = true ∧ visit.entry.done = ⊤ ∧ canIssue wideCore visit.state visit.loop visit.entry = .issue := by
  simp only [loadIssues, Bool.and_eq_true, decide_eq_true_eq, and_assoc]

/-- The load issues while the fencing load waits for the divide. -/
theorem fence_overtaken : ¬ ∀ (config : Config Unit Unit) advance outstandingLoads outstandingStores begin_ supply system,
    (machine config advance (.initial outstandingLoads outstandingStores begin_ () supply)).Reachable system →
      StoresLast config system ∧ BarriersFirst config system := by
  intro always
  have ends : (machine wideCore .skipping (.initial 1 1 0 () fencedAfterDivide)).endsWith (fun _ => true)
      (fun system => (system.visitAt wideCore 2).any fun visit => loadIssues visit &&
        visit.older.any fun barrier => barrier.uop.microOp.membar && barrier.done = ⊤)
      (.initial 1 1 0 () fencedAfterDivide) [(), ()] = true := by
    decide +kernel
  obtain ⟨system, reached, found⟩ := Machine.Reach.of_endsWith (.initial rfl) (fun _ _ _ => trivial) ends
  obtain ⟨visit, visits, facts⟩ := (Option.any_eq_true _ _).mp found
  obtain ⟨issues, overtaken⟩ := Bool.and_eq_true_iff.mp facts
  obtain ⟨load, waiting, decision⟩ := loadIssues_iff.mp issues
  obtain ⟨barrier, member, unissued⟩ := List.any_eq_true.mp overtaken
  obtain ⟨membar, notDone⟩ := Bool.and_eq_true_iff.mp unissued
  have first := (always wideCore .skipping 1 1 0 fencedAfterDivide system reached).2 visit (System.visits_of_visitAt visits)
    (Visit.issues_of_canIssue rfl waiting decision) (Bool.or_eq_true_iff.mpr (.inl load))
  exact first barrier member membar (of_decide_eq_true notDone)

/-- At none of the visits a load that meets the conditions for issue comes after a barrier that has not issued. -/
def noneHeld (system : System Unit) : Bool :=
  (List.range system.timer.state.rob.entries.length).all fun index => (system.visitAt wideCore index).all fun visit =>
    !loadIssues visit || visit.older.all fun barrier => !(barrier.uop.microOp.membar && barrier.done = ⊤)

theorem barriersHold_of_noneHeld {system : System Unit} (none_ : noneHeld system = true) : BarriersHold wideCore system := by
  intro visit visits load waiting decision index barrier there membar unissued
  obtain ⟨old, wasThere, -⟩ := visits.moves.laterEntries.old visits.there
  have inRob : visit.index ∈ List.range system.timer.state.rob.entries.length :=
    List.mem_range.mpr (List.getElem?_eq_some_iff.mp wasThere).1
  have atVisit := List.all_eq_true.mp none_ visit.index inRob
  rw [visits.visitAt_eq, Option.all_some, loadIssues_iff.mpr ⟨load, waiting, decision⟩, Bool.not_true, Bool.false_or] at atVisit
  have issued := List.all_eq_true.mp atVisit barrier (List.mem_of_getElem? there)
  rw [membar, decide_eq_true unissued] at issued
  cases issued

/-- The load issues once the fencing load has issued. -/
theorem memory_order_fencedFront : ∃ system visit,
    (machine wideCore .skipping (.initial 1 1 0 () fencedFront)).Reachable system ∧ system.Visits wideCore visit ∧
      visit.Issues wideCore ∧ visit.entry.uop.isLoad = true ∧ (∃ older ∈ visit.older, older.uop.microOp.membar = true) ∧
      StoresLast wideCore system ∧ BarriersFirst wideCore system := by
  have ends : (machine wideCore .skipping (.initial 1 1 0 () fencedFront)).endsWith (fun _ => true)
      (fun system => noneHeld system && (system.visitAt wideCore 1).any fun visit => loadIssues visit &&
        visit.older.any fun barrier => barrier.uop.microOp.membar)
      (.initial 1 1 0 () fencedFront) (List.replicate 4 ()) = true := by
    decide +kernel
  obtain ⟨system, reached, facts⟩ := Machine.Reach.of_endsWith (.initial rfl) (fun _ _ _ => trivial) ends
  obtain ⟨none_, found⟩ := Bool.and_eq_true_iff.mp facts
  obtain ⟨visit, visits, facts⟩ := (Option.any_eq_true _ _).mp found
  obtain ⟨issues, behind⟩ := Bool.and_eq_true_iff.mp facts
  obtain ⟨load, waiting, decision⟩ := loadIssues_iff.mp issues
  have order := memory_order wideCore .skipping 1 1 0 () fencedFront system reached
  exact ⟨system, visit, reached, System.visits_of_visitAt visits, Visit.issues_of_canIssue rfl waiting decision, load,
    List.any_eq_true.mp behind, order.1, order.2 (barriersHold_of_noneHeld none_)⟩

end Sniper.Performance.RobTimer

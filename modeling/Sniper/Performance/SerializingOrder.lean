import Sniper.Performance.CycleSkipping
import Sniper.Performance.IssueWalk

/-! The order of serializing micro-operations and the others. -/

namespace Sniper.Performance.RobTimer

variable {Cycle Mem : Type} {config : Config Cycle Mem} {start : State Mem}

/-- The loop of `doIssue` goes on to the next entry without issuing the one it visits. -/
def Visit.Passes (config : Config Cycle Mem) (visit : Visit Cycle Mem) (loop : IssueLoop Cycle) : Prop :=
  visit.entry.done = ⊤ ∧ ¬visit.Issues config ∧
    ∃ state, issueEntry config visit.index visit.entry visit.loop visit.state = .ok (state, loop, true)

/-- No entry of the window from an index on meets the conditions for issue. -/
def NoneIssues (config : Config Cycle Mem) (state : State Mem) (loop : IssueLoop Cycle) (index : Nat) : Prop :=
  ∀ younger entry, index ≤ younger → younger < state.numInRob → state.rob.entries[younger]? = some entry → entry.done = ⊤ →
    canIssue config state loop entry ≠ .issue

/-- Where the loop passes a serializing micro-operation, no younger one in the window meets the conditions for issue. -/
def SerializingHeld (config : Config Cycle Mem) (system : System Mem) : Prop :=
  ∀ visit loop, system.Visits config visit → visit.entry.uop.microOp.serializing = true → visit.Passes config loop →
    NoneIssues config visit.state loop (visit.index + 1)

/-- What issues has no older serializing micro-operation that has not issued. -/
def SerializingFirst (config : Config Cycle Mem) (system : System Mem) : Prop :=
  ∀ visit, system.Visits config visit → visit.Issues config →
    ∀ older ∈ visit.older, older.uop.microOp.serializing = true → older.done ≠ ⊤

/-- A serializing micro-operation issues after every older one, and after the last store is done. -/
def SerializingLast (config : Config Cycle Mem) (system : System Mem) : Prop :=
  ∀ visit, system.Visits config visit → visit.Issues config → visit.entry.uop.microOp.serializing = true →
    (∀ older ∈ visit.older, older.done ≠ ⊤) ∧ visit.state.lastStoreDone ≤ visit.state.now

theorem NoneIssues.pass {state : State Mem} {loop : IssueLoop Cycle} {index : Nat} (none_ : NoneIssues config state loop index)
    (nextEvent : SubsecondTime) (ports : Option Cycle) (decision : Decision) (entry : RobEntry) (now : Nat) :
    NoneIssues config state
      (({ loop with nextEvent := nextEvent, ports := ports } : IssueLoop Cycle).pass decision entry now) (index + 1) := by
  intro younger other later inWindow there waiting issues
  have lets := canIssue_eq_issue.mp issues
  refine none_ younger other (Nat.le_of_succ_le later) inWindow there waiting (canIssue_eq_issue.mpr ?_)
  refine ⟨lets.ready, fun load => ?_, fun store => ?_, fun inOrder => ?_, lets.stores, lets.width, lets.loadQueue,
    fun free load disambiguates => ?_, lets.storeQueue⟩
  · exact (Bool.or_eq_false_iff.mp (lets.load load)).1
  · exact (Bool.or_eq_false_iff.mp (lets.store store)).1
  · exact absurd (lets.head inOrder) Bool.false_ne_true
  · exact (Bool.or_eq_false_iff.mp (lets.resolved free load disambiguates)).1

/-- The loop after a serializing micro-operation that has not issued: nothing that it still visits issues. -/
def Held (config : Config Cycle Mem) (index : Nat) (loop : IssueLoop Cycle) (state : State Mem) : Prop :=
  ∀ older entry, older < index → state.rob.entries[older]? = some entry → entry.uop.microOp.serializing = true → entry.done = ⊤ →
    NoneIssues config state loop index

theorem Held.turn {visit : Visit Cycle Mem} {state : State Mem} {loop : IssueLoop Cycle}
    (held : Held config visit.index visit.loop visit.state) (proper : visit.Proper config start)
    (turn : visit.Turn config state loop true)
    (passes : visit.entry.uop.microOp.serializing = true → visit.entry.done = ⊤ → ¬visit.Issues config →
      NoneIssues config visit.state loop (visit.index + 1)) :
    Held config (visit.index + 1) loop state := by
  intro older entry before there serializing waiting
  cases turn with
  | done nextEvent issued =>
    cases Nat.lt_succ_iff_lt_or_eq.mp before with
    | inl earlier =>
      intro younger other later
      exact held older entry earlier there serializing waiting younger other (Nat.le_of_succ_le later)
    | inr same =>
      subst same
      cases proper.there.symm.trans there
      exact absurd waiting issued
  | issue nextEvent nextEvent' ports ports' state continues issues ran =>
    have issuedAt := proper.issue issues ran
    cases Nat.lt_succ_iff_lt_or_eq.mp before with
    | inl earlier =>
      obtain ⟨old, found, -⟩ := issuedAt.moves.laterEntries.old there
      have kept := issuedAt.other (Nat.ne_of_gt earlier) found there
      have inWindow : visit.index < visit.state.numInRob := proper.inLoop.numInRob.symm ▸ proper.inWindow
      have none_ := held older old earlier found (kept.microOp ▸ serializing) (kept.done.symm.trans waiting)
      exact absurd issues.decision (none_ visit.index visit.entry (Nat.le_refl _) inWindow proper.there issues.waiting)
    | inr same =>
      subst same
      exact absurd waiting (issuedAt.issued proper.there there)
  | pass nextEvent decision ports continues unissued decided goesOn tried =>
    cases Nat.lt_succ_iff_lt_or_eq.mp before with
    | inl earlier => exact (held older entry earlier there serializing waiting).pass nextEvent ports decision visit.entry _
    | inr same =>
      subst same
      cases proper.there.symm.trans there
      refine passes serializing unissued fun issues => ?_
      obtain ⟨ports, isTrue⟩ := issues.ports
      rw [← issues.decision, decided, tried] at isTrue
      cases isTrue

theorem Visits.held {visit : Visit Cycle Mem} (visits : Visits config start visit)
    (serializingHeld : ∀ visit loop, Visits config start visit → visit.entry.uop.microOp.serializing = true →
      visit.Passes config loop → NoneIssues config visit.state loop (visit.index + 1)) :
    Held config visit.index visit.loop visit.state := by
  induction visits with
  | first entry => exact fun older entry before => absurd before (Nat.not_lt_zero older)
  | next visit state loop entry visits ran inWindow there ih =>
    refine ih.turn visits.proper ((issueEntry_turn visit).of_ok ran) fun serializing waiting passes => ?_
    exact serializingHeld visit loop visits serializing ⟨waiting, passes, state, ran⟩

/-- In every run serializing micro-operations issue last, and in the cycles in which the loop passes one only where no younger
one meets the conditions for issue, first. -/
theorem serializing_order (config : Config Cycle Mem) (advance : Advance) (start : System Mem) :
    ∀ system, (machine config advance start).Reachable system →
      SerializingLast config system ∧ (SerializingHeld config system → SerializingFirst config system) := by
  intro system _
  constructor
  · intro visit visits issues serializing
    obtain ⟨-, dispatched, -, visits⟩ := visits
    have lets := canIssue_eq_issue.mp issues.decision
    have barrier : visit.entry.uop.barrier = true := by simp [DynamicMicroOp.barrier, serializing]
    have head := lets.head (by simp [DynamicMicroOp.inOrder, barrier])
    exact ⟨visit.older_of_olderIssued (visits.proper.inLoop.head head), lets.stores barrier⟩
  · intro held visit visits issues older member serializing waiting
    obtain ⟨runs, dispatched, ran, visits⟩ := visits
    have inWindow : visit.index < visit.state.numInRob := visits.proper.inLoop.numInRob.symm ▸ visits.proper.inWindow
    obtain ⟨index, there⟩ := List.getElem?_of_mem member
    rw [Visit.older, List.getElem?_take] at there
    split at there
    case isFalse => cases there
    case isTrue before =>
      have none_ := visits.held (fun visit loop visits => held visit loop ⟨runs, dispatched, ran, visits⟩) index older before there
        serializing waiting
      exact none_ visit.index visit.entry (Nat.le_refl _) inWindow visits.proper.there issues.waiting issues.decision

/-- In the stage an entry has issued, and an older serializing one has not. -/
def overtakes (stages : State Mem × State Mem) (index older : Nat) : Bool :=
  match stages.1.rob.entries[index]?, stages.2.rob.entries[index]?, stages.1.rob.entries[older]?, stages.2.rob.entries[older]? with
  | some entry, some later, some serializing, some waiting =>
    entry.done = ⊤ && later.done ≠ ⊤ && serializing.uop.microOp.serializing && waiting.done = ⊤
  | _, _, _, _ => false

theorem SerializingFirst.overtakes_eq {system : System Mem} {stages : State Mem × State Mem} {index older : Nat}
    (first : SerializingFirst config system) (runs : ¬system.timer.state.asks config)
    (staged : system.issueStage config = .ok stages) (before : older < index) : overtakes stages index older = false := by
  rw [overtakes]
  split
  case h_2 => rfl
  case h_1 entry later serializing waiting there found old last =>
    refine Bool.eq_false_iff.mpr fun all => ?_
    simp only [Bool.and_eq_true, decide_eq_true_eq] at all
    obtain ⟨⟨⟨unissued, issued⟩, isSerializing⟩, notIssued⟩ := all
    obtain ⟨visit, visits, isIndex, issues, earlier, laterOn⟩ :=
      system.issueStage_visited runs staged there unissued found issued
    obtain ⟨middle, inMiddle, isLater⟩ := earlier.new old
    have member : middle ∈ visit.older := by
      refine List.mem_of_getElem? (i := older) ?_
      rw [Visit.older, List.getElem?_take_of_lt (isIndex.symm ▸ before)]
      exact inMiddle
    have isDone := first visit visits issues middle member (isLater.microOp ▸ isSerializing)
    exact isDone (((laterOn.2 older middle waiting inMiddle last).done isDone).symm.trans notIssued)

def wideCore : Config Unit Unit := { smallCore with dispatchWidth := 3, commitWidth := 3, windowSize := 3 }

/-- A divide, a serializing micro-operation that reads its result, and eight short micro-operations after it. -/
def serializingAfterDivide : System Unit :=
  ⟨.initial 1 1 0 (),
    [{ computes 28 false with microOp := ⟨.execute, [], [], [0], false, false, false⟩ } ::
      { computes 1 false with microOp := ⟨.execute, [0], [], [], false, true, false⟩ } ::
      List.replicate 8 (computes 1 false)]⟩

def serializingFront : System Unit :=
  ⟨.initial 1 1 0 (),
    [{ computes 1 false with microOp := ⟨.execute, [], [], [], false, true, false⟩ } :: List.replicate 9 (computes 1 false)]⟩

/-- The oldest entry meets the conditions for issue, and no other one is serializing. -/
def frontIssues (config : Config Unit Unit) (state : State Unit) : Bool :=
  state.rob.entries[0]?.any (fun entry => entry.done = ⊤ && canIssue config state (.start config state) entry = .issue) &&
    (state.rob.entries.drop 1).all fun entry => !entry.uop.microOp.serializing

theorem serializing_overtaken : ¬ ∀ (config : Config Unit Unit) advance start system,
    (machine config advance start).Reachable system → SerializingLast config system ∧ SerializingFirst config system := by
  intro always
  have ends : (machine wideCore .skipping serializingAfterDivide).endsWith (fun _ => true) (fun system =>
      ¬system.timer.state.asks wideCore ∧ (system.issueStage wideCore).toOption.any (overtakes · 2 1))
      serializingAfterDivide [(), ()] = true := by
    decide +kernel
  obtain ⟨system, reached, facts⟩ := Machine.Reach.of_endsWith (.initial rfl) (fun _ _ _ => trivial) ends
  obtain ⟨runs, overtaken⟩ := of_decide_eq_true facts
  cases staged : system.issueStage wideCore with
  | error fault =>
    rw [staged] at overtaken
    cases overtaken
  | ok stages =>
    rw [staged] at overtaken
    have first := (always wideCore .skipping serializingAfterDivide system reached).2
    exact Bool.false_ne_true ((first.overtakes_eq runs staged (Nat.lt_succ_self 1)).symm.trans overtaken)

theorem serializingHeld_of_front {system : System Unit} {dispatched : State Unit × Option CpiComponent × CpiComponent × SubsecondTime}
    (ran : doDispatch wideCore system.timer.state system.timer.cpiCurrentFrontEndStall = .ok dispatched)
    (front : frontIssues wideCore dispatched.1 = true) : SerializingHeld wideCore system := by
  intro visit loop visits serializing passes
  obtain ⟨-, other, ran', visits⟩ := visits
  cases ran.symm.trans ran'
  obtain ⟨issues, others⟩ := Bool.and_eq_true_iff.mp front
  obtain ⟨old, there, later⟩ := visits.proper.inLoop.moves.laterEntries.old visits.proper.there
  have atFront : visit.index = 0 := by
    by_contra behind
    obtain ⟨index, isIndex⟩ := Nat.exists_eq_succ_of_ne_zero behind
    have member : old ∈ dispatched.1.rob.entries.drop 1 := by
      refine List.mem_of_getElem? (i := index) ?_
      rw [List.getElem?_drop, Nat.add_comm, ← Nat.succ_eq_add_one, ← isIndex]
      exact there
    have plain := List.all_eq_true.mp others old member
    rw [← later.microOp, serializing] at plain
    cases plain
  cases visits with
  | next => cases atFront
  | first entry some_ found =>
    obtain ⟨entry', found', decided⟩ := (Option.any_eq_true _ _).mp issues
    cases found.symm.trans found'
    simp only [Bool.and_eq_true, decide_eq_true_eq] at decided
    exact absurd ⟨decided.1, decided.2, none, rfl⟩ passes.2.1

/-- The serializing micro-operation at the front issues first. -/
theorem serializing_order_front : ∃ system : System Unit, (machine wideCore .skipping serializingFront).Reachable system ∧
    ¬system.timer.state.asks wideCore ∧ SerializingLast wideCore system ∧ SerializingFirst wideCore system := by
  have ends : (machine wideCore .skipping serializingFront).endsWith (fun _ => true) (fun system =>
      ¬system.timer.state.asks wideCore ∧
        (doDispatch wideCore system.timer.state system.timer.cpiCurrentFrontEndStall).toOption.any fun dispatched =>
          frontIssues wideCore dispatched.1) serializingFront [(), ()] = true := by
    decide +kernel
  obtain ⟨system, reached, facts⟩ := Machine.Reach.of_endsWith (.initial rfl) (fun _ _ _ => trivial) ends
  obtain ⟨runs, front⟩ := of_decide_eq_true facts
  cases ran : doDispatch wideCore system.timer.state system.timer.cpiCurrentFrontEndStall with
  | error fault =>
    rw [ran] at front
    cases front
  | ok dispatched =>
    rw [ran] at front
    have order := serializing_order wideCore .skipping serializingFront system reached
    exact ⟨system, reached, runs, order.1, order.2 (serializingHeld_of_front ran front)⟩

end Sniper.Performance.RobTimer

import Sniper.Performance.Pipeline

/-! The loop of `doIssue`, as the visits it makes to the micro-operations of the window. -/

namespace Sniper.Performance.RobTimer

variable {Cycle Mem : Type} {config : Config Cycle Mem}

/-- The loop of `doIssue` when it comes to an entry. -/
structure Visit (Cycle Mem : Type) where
  index : Nat
  entry : RobEntry
  loop : IssueLoop Cycle
  state : State Mem

namespace Visit

structure Issues (config : Config Cycle Mem) (visit : Visit Cycle Mem) : Prop where
  waiting : visit.entry.done = ⊤
  decision : canIssue config visit.state visit.loop visit.entry = .issue
  ports : ∃ ports, tryPorts config .issue visit.entry.uop visit.loop.ports = .ok (true, ports)

def older (visit : Visit Cycle Mem) : List RobEntry := visit.state.rob.entries.take visit.index

/-- What `issueEntry` can do. -/
inductive Turn (config : Config Cycle Mem) (visit : Visit Cycle Mem) : State Mem → IssueLoop Cycle → Bool → Prop where
  | done (nextEvent : SubsecondTime) : visit.entry.done ≠ ⊤ →
      Turn config visit visit.state { visit.loop with nextEvent := nextEvent } true
  | stop (nextEvent : SubsecondTime) : visit.entry.done = ⊤ → canIssue config visit.state visit.loop visit.entry = .stop →
      Turn config visit visit.state { visit.loop with nextEvent := nextEvent } false
  | issue (nextEvent nextEvent' : SubsecondTime) (ports ports' : Option Cycle) (state : State Mem) (continues : Bool) :
      visit.Issues config →
      issueInstruction config visit.state visit.index visit.entry ports nextEvent = .ok (state, ports', nextEvent') →
      Turn config visit state
        { visit.loop with numIssued := visit.loop.numIssued + 1, ports := ports', nextEvent := nextEvent' } continues
  | pass (nextEvent : SubsecondTime) (decision : Decision) (ports : Option Cycle) (continues : Bool) : visit.entry.done = ⊤ →
      canIssue config visit.state visit.loop visit.entry = decision → decision ≠ .stop →
      tryPorts config decision visit.entry.uop visit.loop.ports = .ok (false, ports) →
      Turn config visit visit.state
        (({ visit.loop with nextEvent := nextEvent, ports := ports } : IssueLoop Cycle).pass decision visit.entry visit.state.now)
        continues

end Visit

theorem tryPorts_issues {decision : Decision} {uop : DynamicMicroOp} {ports ports' : Option Cycle}
    (tried : tryPorts config decision uop ports = .ok (true, ports')) : decision = .issue := by
  unfold tryPorts at tried
  split at tried
  case isTrue issues => exact issues
  case isFalse => cases tried

theorem issueEntry_turn (visit : Visit Cycle Mem) :
    Meets (fun _ => True) (issueEntry config visit.index visit.entry visit.loop visit.state) fun result =>
      visit.Turn config result.1 result.2.1 result.2.2 := by
  rw [issueEntry]
  refine Meets.ite (fun isDone => Meets.ok (.done _ isDone)) fun notDone => ?_
  have waiting : visit.entry.done = ⊤ := not_not.mp notDone
  refine Meets.ite (fun stop => Meets.ok (.stop _ waiting stop)) fun goesOn => ?_
  refine Meets.bind (Meets.result _) fun tried isTried => Meets.ite (fun issues => ?_) fun passes => ?_
  · have isTrue : tryPorts config (canIssue config visit.state visit.loop visit.entry) visit.entry.uop visit.loop.ports =
        .ok (true, tried.2) := by
      rw [← issues]
      exact isTried
    have decision := tryPorts_issues isTrue
    rw [decision] at isTrue
    exact Meets.bind (Meets.result _) fun issued isIssued =>
      Meets.ok (.issue _ _ _ _ _ _ ⟨waiting, decision, tried.2, isTrue⟩ isIssued)
  · have isFalse : tryPorts config (canIssue config visit.state visit.loop visit.entry) visit.entry.uop visit.loop.ports =
        .ok (false, tried.2) := by
      rw [← Bool.eq_false_iff.mpr passes]
      exact isTried
    exact Meets.ok (.pass _ _ _ _ waiting rfl goesOn isFalse)

structure Lets (config : Config Cycle Mem) (state : State Mem) (loop : IssueLoop Cycle) (entry : RobEntry) : Prop where
  ready : entry.ready ≤ state.now
  load : entry.uop.isLoad = true → loop.noMoreLoad = false
  store : entry.uop.isStore = true → loop.noMoreStore = false
  head : entry.uop.inOrder = true → loop.headOfQueue = true
  stores : entry.uop.barrier = true → state.lastStoreDone ≤ state.now
  width : entry.uop.barrier = false → (config.contention.isNone && decide (loop.numIssued = config.dispatchWidth)) = false
  loadQueue : entry.uop.barrier = false → entry.uop.isLoad = true →
    state.loadQueue.hasFreeSlot state.now ContentionModel.noTag = true
  resolved : entry.uop.barrier = false → entry.uop.isLoad = true → config.noAddressDisambiguation = true →
    loop.haveUnresolvedStore = false
  storeQueue : entry.uop.barrier = false → entry.uop.isStore = true →
    state.storeQueue.hasFreeSlot state.now ContentionModel.noTag = true

theorem canIssue_eq_issue {state : State Mem} {loop : IssueLoop Cycle} {entry : RobEntry} :
    canIssue config state loop entry = .issue ↔ Lets config state loop entry := by
  have ready : ¬entry.ready > state.now ↔ entry.ready ≤ state.now := not_lt
  constructor
  · intro issues
    simp only [canIssue] at issues
    constructor <;> grind [DynamicMicroOp.barrier, DynamicMicroOp.inOrder]
  · intro lets
    obtain ⟨isReady, load, store, head, stores, width, loadQueue, resolved, storeQueue⟩ := lets
    simp only [canIssue]
    grind [DynamicMicroOp.barrier, DynamicMicroOp.inOrder]

theorem Visit.issues_of_canIssue {visit : Visit Cycle Mem} (free : config.contention = none) (waiting : visit.entry.done = ⊤)
    (decision : canIssue config visit.state visit.loop visit.entry = .issue) : visit.Issues config := by
  refine ⟨waiting, decision, visit.loop.ports, ?_⟩
  unfold tryPorts
  rw [if_pos rfl, free]

/-- The loop of `doIssue` at an index, from the start of the stage on. -/
structure InLoop (config : Config Cycle Mem) (start : State Mem) (index : Nat) (loop : IssueLoop Cycle) (state : State Mem) :
    Prop where
  moves : Moves config start.pipeline state.pipeline
  numInRob : state.numInRob = start.numInRob
  now : state.now = start.now
  head : loop.headOfQueue = true → OlderIssued state.rob.entries index

variable {start : State Mem}

theorem inLoop_start (config : Config Cycle Mem) (start : State Mem) : InLoop config start 0 (.start config start) start :=
  ⟨.refl, rfl, rfl, fun _ _ _ before => absurd before (Nat.not_lt_zero _)⟩

theorem OlderIssued.succ {entries : List RobEntry} {index : Nat} {entry : RobEntry} (issued : OlderIssued entries index)
    (there : entries[index]? = some entry) (isDone : entry.done ≠ ⊤) : OlderIssued entries (index + 1) := by
  intro older other before found
  cases Nat.lt_succ_iff_lt_or_eq.mp before with
  | inl earlier => exact issued older other earlier found
  | inr same =>
    subst same
    cases there.symm.trans found
    exact isDone

/-- The entry of a visit is in the window, and the loop has come to it. -/
structure Visit.Proper (config : Config Cycle Mem) (start : State Mem) (visit : Visit Cycle Mem) : Prop where
  inWindow : visit.index < start.numInRob
  there : visit.state.rob.entries[visit.index]? = some visit.entry
  inLoop : InLoop config start visit.index visit.loop visit.state

theorem Visit.Proper.issue {visit : Visit Cycle Mem} {ports ports' : Option Cycle} {nextEvent nextEvent' : SubsecondTime}
    {state : State Mem} (proper : visit.Proper config start) (issues : visit.Issues config)
    (issued : issueInstruction config visit.state visit.index visit.entry ports nextEvent = .ok (state, ports', nextEvent')) :
    IssuedAt config visit.state visit.index visit.entry state := by
  have lets := canIssue_eq_issue.mp issues.decision
  have inWindow : visit.index < visit.state.numInRob := proper.inLoop.numInRob.symm ▸ proper.inWindow
  have inOrder := fun inOrder => proper.inLoop.head (lets.head inOrder)
  exact (issueInstruction_issuedAt ports nextEvent inWindow proper.there issues.waiting lets.ready inOrder).of_ok issued

theorem Visit.Proper.turn {visit : Visit Cycle Mem} {state : State Mem} {loop : IssueLoop Cycle} {continues : Bool}
    (proper : visit.Proper config start) (turn : visit.Turn config state loop continues) (goesOn : continues = true) :
    InLoop config start (visit.index + 1) loop state := by
  have inLoop := proper.inLoop
  cases turn with
  | done nextEvent issued =>
    exact ⟨inLoop.moves, inLoop.numInRob, inLoop.now, fun head => (inLoop.head head).succ proper.there issued⟩
  | stop => cases goesOn
  | issue nextEvent nextEvent' ports ports' state continues issues issued =>
    have issuedAt := proper.issue issues issued
    refine ⟨inLoop.moves.trans issuedAt.moves, issuedAt.numInRob.trans inLoop.numInRob, issuedAt.now.trans inLoop.now, fun head => ?_⟩
    obtain ⟨issuer, there, -⟩ := issuedAt.moves.laterEntries.new proper.there
    exact ((inLoop.head head).later issuedAt.moves.laterEntries).succ there (issuedAt.issued proper.there there)
  | pass => exact ⟨inLoop.moves, inLoop.numInRob, inLoop.now, fun head => absurd head Bool.false_ne_true⟩

theorem Visit.older_of_olderIssued {visit : Visit Cycle Mem} (issued : OlderIssued visit.state.rob.entries visit.index) :
    ∀ older ∈ visit.older, older.done ≠ ⊤ := by
  intro older member
  obtain ⟨index, there⟩ := List.getElem?_of_mem member
  rw [Visit.older, List.getElem?_take] at there
  split at there
  case isTrue before => exact issued index older before there
  case isFalse => cases there

theorem Visit.older_getElem? {visit : Visit Cycle Mem} {index : Nat} {older : RobEntry} (there : visit.older[index]? = some older) :
    index < visit.index ∧ visit.state.rob.entries[index]? = some older := by
  rw [Visit.older, List.getElem?_take] at there
  split at there
  case isTrue before => exact ⟨before, there⟩
  case isFalse => cases there

/-- The visits of the loop of `doIssue`. -/
inductive Visits (config : Config Cycle Mem) (start : State Mem) : Visit Cycle Mem → Prop where
  | first (entry : RobEntry) : 0 < start.numInRob → start.rob.entries[0]? = some entry →
      Visits config start ⟨0, entry, .start config start, start⟩
  | next (visit : Visit Cycle Mem) (state : State Mem) (loop : IssueLoop Cycle) (entry : RobEntry) : Visits config start visit →
      issueEntry config visit.index visit.entry visit.loop visit.state = .ok (state, loop, true) →
      visit.index + 1 < start.numInRob → state.rob.entries[visit.index + 1]? = some entry →
      Visits config start ⟨visit.index + 1, entry, loop, state⟩

theorem Visits.proper {visit : Visit Cycle Mem} (visits : Visits config start visit) : visit.Proper config start := by
  induction visits with
  | first entry some_ there => exact ⟨some_, there, inLoop_start config start⟩
  | next visit state loop entry _ ran inWindow there ih =>
    have turn := (issueEntry_turn visit).of_ok ran
    exact ⟨inWindow, there, ih.turn turn rfl⟩

/-- The visit to an index, if the loop comes to it. -/
def visitAt (config : Config Cycle Mem) (start : State Mem) : Nat → Option (Visit Cycle Mem)
  | 0 => if 0 < start.numInRob then start.rob.entries[0]?.map (⟨0, ·, .start config start, start⟩) else none
  | index + 1 =>
    match visitAt config start index with
    | none => none
    | some visit =>
      match issueEntry config visit.index visit.entry visit.loop visit.state with
      | .ok (state, loop, true) =>
        if visit.index + 1 < start.numInRob then state.rob.entries[visit.index + 1]?.map (⟨visit.index + 1, ·, loop, state⟩) else none
      | _ => none

theorem visits_of_visitAt {index : Nat} {visit : Visit Cycle Mem} (found : visitAt config start index = some visit) :
    Visits config start visit := by
  induction index generalizing visit with
  | zero =>
    rw [visitAt] at found
    split at found
    case isFalse => cases found
    case isTrue some_ =>
      obtain ⟨entry, there, rfl⟩ := Option.map_eq_some_iff.mp found
      exact .first entry some_ there
  | succ index ih =>
    rw [visitAt] at found
    split at found
    case h_1 => cases found
    case h_2 before isBefore =>
      split at found
      case h_2 => cases found
      case h_1 state loop ran =>
        split at found
        case isFalse => cases found
        case isTrue inWindow =>
          obtain ⟨entry, there, rfl⟩ := Option.map_eq_some_iff.mp found
          exact .next before state loop entry (ih isBefore) ran inWindow there

theorem Visits.visitAt_eq {visit : Visit Cycle Mem} (visits : Visits config start visit) :
    visitAt config start visit.index = some visit := by
  induction visits with
  | first entry some_ there =>
    rw [visitAt, if_pos some_, there]
    rfl
  | next visit state loop entry visits ran inWindow there ih =>
    rw [visitAt, ih]
    simp only [ran, if_pos inWindow, there, Option.map_some]

/-! ### The whole loop -/

/-- The loop of `doIssue` from an index on, with a visit to each entry that issues. -/
structure Walked (config : Config Cycle Mem) (start : State Mem) (before : State Mem) (after : State Mem) : Prop where
  moves : Moves config start.pipeline after.pipeline
  now : after.now = start.now
  later : Entrywise RobEntry.Later before.rob.entries after.rob.entries
  visited : ∀ (index : Nat) (entry later : RobEntry), before.rob.entries[index]? = some entry → entry.done = ⊤ →
    after.rob.entries[index]? = some later → later.done ≠ ⊤ →
    ∃ visit, Visits config start visit ∧ visit.index = index ∧ visit.Issues config ∧
      Entrywise RobEntry.Later visit.state.rob.entries after.rob.entries

theorem walked_refl {state : State Mem} (moves : Moves config start.pipeline state.pipeline) (now : state.now = start.now) :
    Walked config start state state := by
  refine ⟨moves, now, .refl .refl _, fun index entry later found waiting found' issued => ?_⟩
  cases found.symm.trans found'
  exact absurd waiting issued

theorem Visits.walked {visit : Visit Cycle Mem} {state last : State Mem} {loop : IssueLoop Cycle} {continues : Bool}
    (visits : Visits config start visit) (turn : visit.Turn config state loop continues) (rest : Walked config start state last) :
    Walked config start visit.state last := by
  cases turn with
  | done => exact rest
  | stop => exact rest
  | pass => exact rest
  | issue nextEvent nextEvent' ports ports' state continues issues ran =>
    have issuedAt := visits.proper.issue issues ran
    have later := issuedAt.moves.laterEntries.trans (fun _ _ _ => .trans) rest.later
    refine ⟨rest.moves, rest.now, later, fun position entry last found waiting found' issued => ?_⟩
    by_cases here : visit.index = position
    · exact ⟨visit, visits, here, issues, later⟩
    · obtain ⟨middle, there, -⟩ := issuedAt.moves.laterEntries.new found
      have same : middle.done = entry.done := (issuedAt.other here found there).done
      exact rest.visited position middle last there (same.trans waiting) found' issued

theorem Visits.walked_last {visit : Visit Cycle Mem} {state : State Mem} {loop : IssueLoop Cycle} {continues : Bool}
    (visits : Visits config start visit) (turn : visit.Turn config state loop continues) :
    Walked config start visit.state state := by
  have inLoop := visits.proper.inLoop
  refine visits.walked turn ?_
  cases turn with
  | done => exact walked_refl inLoop.moves inLoop.now
  | stop => exact walked_refl inLoop.moves inLoop.now
  | pass => exact walked_refl inLoop.moves inLoop.now
  | issue nextEvent nextEvent' ports ports' state continues issues ran =>
    have issuedAt := visits.proper.issue issues ran
    exact walked_refl (inLoop.moves.trans issuedAt.moves) (issuedAt.now.trans inLoop.now)

theorem issueLoop_walked (left : Nat) {visit : Visit Cycle Mem} (visits : Visits config start visit)
    (inWindow : visit.index + (left + 1) = start.numInRob) :
    Meets (fun _ => True) (issueLoop config (left + 1) visit.index visit.loop visit.state) fun result =>
      Walked config start visit.state result.1 := by
  induction left generalizing visit with
  | zero =>
    rw [issueLoop, visits.proper.there]
    refine Meets.bind (Meets.result _) fun result ran => ?_
    have last := visits.walked_last ((issueEntry_turn visit).of_ok ran)
    exact Meets.ite (fun _ => Meets.ok last) fun _ => Meets.ok last
  | succ left ih =>
    rw [issueLoop, visits.proper.there]
    refine Meets.bind (Meets.result _) fun result ran => ?_
    have turn := (issueEntry_turn visit).of_ok ran
    refine Meets.ite (fun goesOn => ?_) fun _ => Meets.ok (visits.walked_last turn)
    cases found : result.1.rob.entries[visit.index + 1]? with
    | none =>
      rw [issueLoop, found]
      trivial
    | some entry =>
      have goesOn : issueEntry config visit.index visit.entry visit.loop visit.state = .ok (result.1, result.2.1, true) := by
        rw [← goesOn]
        exact ran
      have next : Visits config start ⟨visit.index + 1, entry, result.2.1, result.1⟩ :=
        .next visit _ _ entry visits goesOn (by omega) found
      refine (ih next ?_).mono fun last rest => visits.walked turn rest
      dsimp only
      omega

theorem doIssue_walked (start : State Mem) :
    Meets (fun _ => True) (doIssue config start) fun result => Walked config start start result.1 := by
  have loop : Meets (fun _ => True) (issueLoop config start.numInRob 0 (.start config start) start) fun result =>
      Walked config start start result.1 := by
    cases count : start.numInRob with
    | zero => exact Meets.ok (walked_refl .refl rfl)
    | succ left =>
      cases there : start.rob.entries[0]? with
      | none =>
        rw [issueLoop, there]
        trivial
      | some entry =>
        have first : Visits config start ⟨0, entry, .start config start, start⟩ :=
          .first entry (count ▸ Nat.succ_pos left) there
        exact issueLoop_walked left first (by dsimp only; omega)
  rw [doIssue]
  exact Meets.bind loop fun result walked => Meets.ok ⟨walked.moves, walked.now, walked.later, walked.visited⟩

/-! ### Cycles -/

/-- The loop of `doIssue` in the cycle that comes next. -/
def System.Visits (config : Config Cycle Mem) (system : System Mem) (visit : Visit Cycle Mem) : Prop :=
  ¬system.timer.state.asks config ∧ ∃ dispatched, doDispatch config system.timer.state system.timer.cpiCurrentFrontEndStall =
    .ok dispatched ∧ RobTimer.Visits config dispatched.1 visit

/-- The visit to an index in the cycle that comes next. -/
def System.visitAt (config : Config Cycle Mem) (system : System Mem) (index : Nat) : Option (Visit Cycle Mem) :=
  if system.timer.state.asks config then none
  else
    match doDispatch config system.timer.state system.timer.cpiCurrentFrontEndStall with
    | .error _ => none
    | .ok dispatched => RobTimer.visitAt config dispatched.1 index

theorem System.visits_of_visitAt {system : System Mem} {index : Nat} {visit : Visit Cycle Mem}
    (found : system.visitAt config index = some visit) : system.Visits config visit := by
  rw [System.visitAt] at found
  split at found
  case isTrue => cases found
  case isFalse runs =>
    split at found
    case h_1 => cases found
    case h_2 dispatched ran => exact ⟨runs, dispatched, ran, RobTimer.visits_of_visitAt found⟩

theorem System.Visits.visitAt_eq {system : System Mem} {visit : Visit Cycle Mem} (visits : system.Visits config visit) :
    system.visitAt config visit.index = some visit := by
  obtain ⟨runs, dispatched, ran, visits⟩ := visits
  rw [System.visitAt, if_neg runs, ran]
  exact visits.visitAt_eq

theorem System.Visits.there {system : System Mem} {visit : Visit Cycle Mem} (visits : system.Visits config visit) :
    visit.state.rob.entries[visit.index]? = some visit.entry := by
  obtain ⟨-, dispatched, -, visits⟩ := visits
  exact visits.proper.there

/-- The states before and after the issue stage of the cycle that comes next. -/
def System.issueStage (config : Config Cycle Mem) (system : System Mem) : Except Fault (State Mem × State Mem) := do
  let dispatched ← doDispatch config system.timer.state system.timer.cpiCurrentFrontEndStall
  let issued ← doIssue config dispatched.1
  return (dispatched.1, issued.1)

theorem System.issueStage_visited {system : System Mem} {before after : State Mem} {index : Nat} {entry later : RobEntry}
    (runs : ¬system.timer.state.asks config) (staged : system.issueStage config = .ok (before, after))
    (there : before.rob.entries[index]? = some entry) (waiting : entry.done = ⊤)
    (found : after.rob.entries[index]? = some later) (issued : later.done ≠ ⊤) :
    ∃ visit, system.Visits config visit ∧ visit.index = index ∧ visit.Issues config ∧
      Entrywise RobEntry.Later before.rob.entries visit.state.rob.entries ∧
      Entrywise RobEntry.Later visit.state.rob.entries after.rob.entries := by
  have stages : Meets (fun _ => True) (system.issueStage config) fun result =>
      ∃ dispatched, doDispatch config system.timer.state system.timer.cpiCurrentFrontEndStall = .ok dispatched ∧
        result.1 = dispatched.1 ∧ Walked config dispatched.1 dispatched.1 result.2 := by
    refine Meets.bind (Meets.result _) fun dispatched ran => Meets.bind (doIssue_walked dispatched.1) fun issued walked => ?_
    exact Meets.ok ⟨dispatched, ran, rfl, walked⟩
  obtain ⟨dispatched, ran, isBefore, walked⟩ := stages.of_ok staged
  dsimp only at isBefore walked
  subst isBefore
  obtain ⟨visit, visits, isIndex, issues, laterOn⟩ := walked.visited index entry later there waiting found issued
  exact ⟨visit, ⟨runs, dispatched, ran, visits⟩, isIndex, issues, visits.proper.inLoop.moves.laterEntries, laterOn⟩

theorem System.Visits.moves {system : System Mem} {visit : Visit Cycle Mem} (visits : system.Visits config visit) :
    Moves config system.timer.state.pipeline visit.state.pipeline := by
  obtain ⟨-, dispatched, ran, visits⟩ := visits
  exact ((doDispatch_moves system.timer.state _).of_ok ran).trans visits.proper.inLoop.moves

end Sniper.Performance.RobTimer

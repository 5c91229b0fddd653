import Sniper.Performance.RobStages

/-! The cycles that `execute` skips, against the model that steps through them.

Between now and the next event no micro-operation can be dispatched, issued or
committed, so the stepping model only counts cycles there.  It follows the
skipping model: the two are the same whenever the stepping one has caught up. -/

namespace Sniper.Performance.RobTimer

variable {Cycle Mem : Type}

/-! ## Cycles in which nothing issues -/

/-- `doIssue` does not look past an entry that waits: in order, or if nothing can issue at all. -/
def Config.Halts (config : Config Cycle Mem) : Prop :=
  config.inorder = true ∨ config.contention.isNone = true ∧ config.dispatchWidth = 0

/-- The entries that `doIssue` looks at, from an index on, do not wake up before the bound. -/
def Quiet (config : Config Cycle Mem) (entries : List RobEntry) (bound : SubsecondTime) : Nat → Nat → Prop
  | 0, _ => True
  | left + 1, index => ∃ entry, entries[index]? = some entry ∧ bound ≤ entry.wakeUp ∧
      (entry.done = ⊤ ∧ config.Halts ∨ Quiet config entries bound left (index + 1))

theorem Quiet.mono {config : Config Cycle Mem} {entries : List RobEntry} {bound earlier : SubsecondTime} {left index : Nat}
    (quiet : Quiet config entries bound left index) (sooner : earlier ≤ bound) : Quiet config entries earlier left index := by
  induction left generalizing index with
  | zero => trivial
  | succ left ih =>
    obtain ⟨entry, there, wakes, rest⟩ := quiet
    exact ⟨entry, there, le_trans sooner wakes, rest.imp_right ih⟩

theorem Quiet.extend {config : Config Cycle Mem} {period : Nat} {old new : List RobEntry} {bound : SubsecondTime}
    {left index : Nat} (quiet : Quiet config old bound left index) (extended : Extends period old new) :
    Quiet config new bound left index := by
  induction left generalizing index with
  | zero => trivial
  | succ left ih =>
    obtain ⟨entry, there, wakes, rest⟩ := quiet
    obtain ⟨entry', there', same⟩ := extended.old_get there
    have done := RobEntry.done_of_bare same
    have wakeUp : entry'.wakeUp = entry.wakeUp := by
      unfold RobEntry.wakeUp
      rw [done, RobEntry.ready_of_bare same]
    exact ⟨entry', there', wakeUp ▸ wakes, rest.imp (And.imp_left fun notDone => done ▸ notDone) ih⟩

structure IssueLoop.Fresh (config : Config Cycle Mem) (loop : IssueLoop Cycle) : Prop where
  numIssued : loop.numIssued = 0
  ports : ∃ now aluUsedUntil, loop.ports = config.contention.map fun contention => contention.initCycle now aluUsedUntil

theorem IssueLoop.start_fresh (config : Config Cycle Mem) (state : State Mem) : (IssueLoop.start config state).Fresh config :=
  ⟨rfl, _, _, rfl⟩

theorem IssueLoop.Fresh.noMore {config : Config Cycle Mem} {loop : IssueLoop Cycle} (fresh : loop.Fresh config) :
    noMore config loop = true ↔ config.contention.isNone = true ∧ config.dispatchWidth = 0 := by
  obtain ⟨numIssued, now, aluUsedUntil, ports⟩ := fresh
  unfold RobTimer.noMore
  rw [ports, numIssued]
  cases config.contention with
  | none => simp [eq_comm]
  | some contention => simp [contention.noMore_initCycle]

theorem issueEntry_asleep {config : Config Cycle Mem} {state : State Mem} (index : Nat) {entry : RobEntry}
    (loop : IssueLoop Cycle) (asleep : (state.now : SubsecondTime) < entry.wakeUp) :
    ∃ loop', issueEntry config index entry loop state =
        .ok (state, loop', decide (entry.done ≠ ⊤) || !(config.inorder || noMore config loop)) ∧
      loop'.numIssued = loop.numIssued ∧ loop'.ports = loop.ports := by
  unfold RobEntry.wakeUp at asleep
  unfold issueEntry
  by_cases isDone : entry.done ≠ ⊤
  · rw [if_pos isDone]
    rw [decide_eq_true isDone, Bool.true_or]
    exact ⟨_, rfl, rfl, rfl⟩
  · rw [if_neg isDone] at asleep
    rw [if_neg isDone, decide_eq_false isDone, Bool.false_or]
    have blocked : canIssue config state { loop with nextEvent := min loop.nextEvent entry.ready } entry = .blocked := by
      unfold canIssue
      exact if_pos asleep
    dsimp only
    rw [blocked]
    exact ⟨_, rfl, rfl, rfl⟩

/-- The loop goes on, unless `doIssue` does not look past the entry. -/
theorem continues_iff {config : Config Cycle Mem} {loop : IssueLoop Cycle} (fresh : loop.Fresh config) (entry : RobEntry) :
    (decide (entry.done ≠ ⊤) || !(config.inorder || noMore config loop)) = false ↔ entry.done = ⊤ ∧ config.Halts := by
  have stops := fresh.noMore
  simp only [Bool.or_eq_false_iff, decide_eq_false_iff_not, ne_eq, not_not, Bool.not_eq_false', Bool.or_eq_true, stops]
  exact Iff.rfl

theorem issueLoop_idle {config : Config Cycle Mem} {state : State Mem} {bound : SubsecondTime} {left index : Nat}
    {loop : IssueLoop Cycle} (quiet : Quiet config state.rob.entries bound left index)
    (before : (state.now : SubsecondTime) < bound) (fresh : loop.Fresh config) :
    ∃ loop', issueLoop config left index loop state = .ok (state, loop') ∧ loop'.ports = loop.ports := by
  induction left generalizing index loop with
  | zero => exact ⟨loop, rfl, rfl⟩
  | succ left ih =>
    obtain ⟨entry, there, wakes, rest⟩ := quiet
    obtain ⟨next, entered, numIssued, ports⟩ := @issueEntry_asleep _ _ config _ index _ loop (lt_of_lt_of_le before wakes)
    unfold issueLoop
    rw [there]
    dsimp only
    rw [entered]
    have continues := continues_iff fresh entry
    cases goes : (decide (entry.done ≠ ⊤) || !(config.inorder || noMore config loop)) with
    | false => exact ⟨next, rfl, ports⟩
    | true =>
      rw [goes] at continues
      have quietRest := rest.resolve_left fun stops => Bool.noConfusion (continues.mpr stops)
      obtain ⟨last, looped, samePorts⟩ := ih quietRest ⟨numIssued.trans fresh.numIssued, ports ▸ fresh.ports⟩
      exact ⟨last, looped, samePorts.trans ports⟩

theorem issueLoop_quiet {config : Config Cycle Mem} {state after : State Mem} {left index : Nat} {loop last : IssueLoop Cycle}
    (valid : Valid config state) (whole : Whole config.period loop.nextEvent) (inWindow : index + left = state.numInRob)
    (fresh : loop.Fresh config) (looped : issueLoop config left index loop state = .ok (after, last))
    (later : (state.now : SubsecondTime) < last.nextEvent) :
    after = state ∧ last.ports = loop.ports ∧ Quiet config state.rob.entries last.nextEvent left index := by
  induction left generalizing index loop with
  | zero =>
    cases looped
    exact ⟨rfl, rfl, trivial⟩
  | succ left ih =>
    unfold issueLoop at looped
    split at looped
    case h_1 => cases looped
    case h_2 entry there =>
      cases entered : issueEntry config index entry loop state with
      | error reason => simp [entered, bind, Except.bind] at looped
      | ok result =>
        obtain ⟨mid, next, continues⟩ := result
        obtain ⟨issued, sooner⟩ := (issueEntry_meets valid whole (by omega) there).of_ok entered
        replace looped : (if continues then issueLoop config left (index + 1) next mid else .ok (mid, next)) =
            .ok (after, last) := by
          simpa [entered, bind, Except.bind, pure, Except.pure] using looped
        -- What comes after the entry only brings the next event closer.
        have closer : last.nextEvent ≤ next.nextEvent := by
          cases continues with
          | false =>
            cases looped
            exact le_refl _
          | true =>
            have window : index + 1 + left = mid.numInRob := by
              rw [issued.numInRob]
              omega
            exact ((issueLoop_meets left issued.valid issued.nextEvent window).of_ok looped).2
        have wakes : last.nextEvent ≤ entry.wakeUp := le_trans closer (le_trans sooner (min_le_right _ _))
        obtain ⟨next', entered', numIssued, ports⟩ :=
          @issueEntry_asleep _ _ config _ index _ loop (lt_of_lt_of_le later wakes)
        rw [entered] at entered'
        cases entered'
        have goesOn := continues_iff fresh entry
        cases goes : (decide (entry.done ≠ ⊤) || !(config.inorder || noMore config loop)) with
        | false =>
          rw [goes] at looped goesOn
          cases looped
          exact ⟨rfl, ports, entry, there, wakes, .inl (goesOn.mp rfl)⟩
        | true =>
          rw [goes] at looped
          obtain ⟨same, samePorts, quiet⟩ := ih issued.nextEvent (by omega)
            ⟨numIssued.trans fresh.numIssued, ports ▸ fresh.ports⟩ looped
          exact ⟨same, samePorts.trans ports, entry, there, wakes, .inr quiet⟩

/-! ## Cycles in which nothing happens -/

theorem doIssue_idle {config : Config Cycle Mem} {state : State Mem} {bound : SubsecondTime}
    (quiet : Quiet config state.rob.entries bound state.numInRob 0) (before : (state.now : SubsecondTime) < bound) :
    ∃ next, doIssue config state = .ok (state, next) := by
  obtain ⟨last, looped, ports⟩ := issueLoop_idle quiet before (IssueLoop.start_fresh config state)
  refine ⟨last.nextEvent, ?_⟩
  unfold doIssue
  rw [looped]
  simp only [bind, Except.bind, pure, Except.pure, ports, IssueLoop.start]
  cases config.contention with
  | none => rfl
  | some contention => simp [contention.aluUsedUntil_initCycle]

theorem doIssue_quiet {config : Config Cycle Mem} {state after : State Mem} {next : SubsecondTime} (valid : Valid config state)
    (issued : doIssue config state = .ok (after, next)) (later : (state.now : SubsecondTime) < next) :
    after = state ∧ Quiet config state.rob.entries next state.numInRob 0 := by
  unfold doIssue at issued
  cases looped : issueLoop config state.numInRob 0 (.start config state) state with
  | error reason => simp [looped, bind, Except.bind] at issued
  | ok result =>
    obtain ⟨mid, last⟩ := result
    simp only [looped, bind, Except.bind, pure, Except.pure, Except.ok.injEq, Prod.mk.injEq] at issued
    obtain ⟨rfl, rfl⟩ := issued
    obtain ⟨rfl, ports, quiet⟩ := issueLoop_quiet valid Whole.top (Nat.zero_add _) (IssueLoop.start_fresh config state) looped later
    refine ⟨?_, quiet⟩
    rw [ports]
    simp only [IssueLoop.start]
    cases config.contention with
    | none => rfl
    | some contention => simp [contention.aluUsedUntil_initCycle]

theorem Quiet.front {config : Config Cycle Mem} {state : State Mem} {bound : SubsecondTime} {front : RobEntry}
    (valid : Valid config state) (quiet : Quiet config state.rob.entries bound state.numInRob 0)
    (first : state.rob.entries.head? = some front) : bound ≤ front.done := by
  rw [List.head?_eq_getElem?] at first
  cases window : state.numInRob with
  | zero =>
    rw [valid.waiting 0 front (by omega) first]
    exact le_top
  | succ left =>
    rw [window] at quiet
    obtain ⟨entry, there, wakes, -⟩ := quiet
    rw [first] at there
    cases there
    unfold RobEntry.wakeUp at wakes
    split at wakes
    case isTrue => exact wakes
    case isFalse notDone =>
      rw [not_not.mp notDone]
      exact le_top

theorem doCommit_idle (config : Config Cycle Mem) {state : State Mem}
    (waits : ∀ front, state.rob.entries.head? = some front → (state.now : SubsecondTime) < front.done) :
    (doCommit config state).1 = state := by
  have stays : commitLoop config state.now state.rob.entries 0 = ([], state.rob.entries) := by
    cases entries : state.rob.entries with
    | nil => rfl
    | cons front rest =>
      have late := waits front (by rw [entries]; rfl)
      exact if_neg (not_le.mpr late)
  unfold doCommit
  rw [stays]
  simp

/-- The component of the first entry of the window. -/
def State.headComponent (state : State Mem) : Option CpiComponent :=
  (state.rob.entries.take state.numInRob).head?.bind RobEntry.cpiComponent

theorem headComponent_extend {period : Nat} {state : State Mem} {rob : Rob} (inRob : state.numInRob ≤ state.rob.entries.length)
    (extended : Extends period state.rob.entries rob.entries) :
    State.headComponent { state with rob := rob } = state.headComponent := by
  unfold State.headComponent
  rw [List.head?_take, List.head?_take]
  split
  case isTrue => rfl
  case isFalse nonempty =>
    have window : state.numInRob ≠ 0 := nonempty
    have first := List.getElem?_eq_getElem (show 0 < state.rob.entries.length by omega)
    obtain ⟨entry, there, same⟩ := extended.old_get first
    have uop := congrArg RobEntry.uop same
    rw [List.head?_eq_getElem?, List.head?_eq_getElem?, there, first]
    simp only [Option.bind_some, RobEntry.cpiComponent]
    rw [show entry.uop = _ from uop]
    rfl

theorem findCpiComponent_quiet {config : Config Cycle Mem} {state : State Mem} {bound : SubsecondTime}
    (valid : Valid config state) (quiet : Quiet config state.rob.entries bound state.numInRob 0)
    (before : (state.now : SubsecondTime) < bound) : findCpiComponent state = state.headComponent := by
  unfold findCpiComponent State.headComponent
  cases window : state.rob.entries.take state.numInRob with
  | nil => rfl
  | cons front rest =>
    have first : state.rob.entries.head? = some front := by
      have head := congrArg List.head? window
      rw [List.head?_take] at head
      split at head
      case isTrue => cases head
      case isFalse => exact head
    have late := lt_of_lt_of_le before (Quiet.front valid quiet first)
    rw [List.find?_cons_of_pos (by simpa using le_of_lt late)]
    rfl

/-- Nothing is dispatched, issued or committed before the bound. -/
structure Idle (config : Config Cycle Mem) (state : State Mem) (bound : Nat) : Prop where
  quiet : Quiet config state.rob.entries bound state.numInRob 0
  frontEnd : (bound : SubsecondTime) ≤ state.frontendStalledUntil ∨ state.numInRob = config.windowSize

def State.stallAt (state : State Mem) (stall : Option CpiComponent) (now : Nat) : Option CpiComponent :=
  if state.frontendStalledUntil ≤ now then none else stall

theorem State.stallAt_of_later (state : State Mem) (stall : Option CpiComponent) {now later : Nat} (late : now ≤ later)
    (stalled : ¬state.frontendStalledUntil ≤ later) : state.stallAt stall now = stall :=
  if_neg fun runs => stalled (le_trans runs (SubsecondTime.fs_le_fs.mpr late))

theorem State.stallAt_stallAt (state : State Mem) (stall : Option CpiComponent) {now later : Nat} (late : now ≤ later) :
    state.stallAt (state.stallAt stall now) later = state.stallAt stall later := by
  by_cases runs : state.frontendStalledUntil ≤ later
  · exact (if_pos runs).trans (if_pos runs).symm
  · rw [state.stallAt_of_later stall late runs]

theorem runFrontEnd_idle {config : Config Cycle Mem} {state : State Mem} {bound : Nat} (stall : Option CpiComponent)
    (idle : Idle config state bound) (before : state.now < bound) :
    runFrontEnd config state stall = .ok (state, state.stallAt stall state.now, ⊤) := by
  unfold runFrontEnd State.stallAt
  by_cases runs : state.frontendStalledUntil ≤ state.now
  · rw [if_pos runs, if_pos runs]
    have full : state.numInRob = config.windowSize := by
      refine idle.frontEnd.resolve_left fun late => ?_
      have impossible := SubsecondTime.fs_le_fs.mp (le_trans late runs)
      omega
    unfold dispatchLoop
    exact if_neg (by omega)
  · rw [if_neg runs, if_neg runs]

def State.idleComponent (config : Config Cycle Mem) (state : State Mem) (stall : Option CpiComponent) (now : Nat) : CpiComponent :=
  chooseCpiComponent (state.stallAt stall now) state.headComponent (state.numInRob = config.windowSize)

theorem execute_idle {config : Config Cycle Mem} {timer : Timer Mem} {bound : Nat} (valid : Valid config timer.state)
    (idle : Idle config timer.state bound) (before : timer.state.now < bound) :
    execute config .stepping timer = .ok
      ⟨{ timer.state with now := timer.state.now + config.period },
        timer.state.stallAt timer.cpiCurrentFrontEndStall timer.state.now,
        charge timer.cpi (timer.state.idleComponent config timer.cpiCurrentFrontEndStall timer.state.now) config.period⟩ := by
  have early : (timer.state.now : SubsecondTime) < bound := SubsecondTime.fs_lt_fs.mpr before
  obtain ⟨next, issued⟩ := doIssue_idle idle.quiet early
  have committed := doCommit_idle config fun front first => lt_of_lt_of_le early (Quiet.front valid idle.quiet first)
  unfold execute runStages doDispatch
  rw [runFrontEnd_idle _ idle before]
  simp only [bind, Except.bind, pure, Except.pure, issued, committed, advanceBy, accountDispatch,
    findCpiComponent_quiet valid idle.quiet early]
  rfl

/-- With the window full, the stall of the front end ends in the middle of the skipped cycles, and nothing but the
front end says where their time goes. -/
structure Masked (config : Config Cycle Mem) (timer : Timer Mem) : Prop where
  full : timer.state.numInRob = config.windowSize
  stall : timer.cpiCurrentFrontEndStall ≠ none
  component : findCpiComponent timer.state = none
  /-- The front end starts again after now, and before anything else happens. -/
  restart : ∃ restart : Nat, timer.state.frontendStalledUntil = restart ∧ timer.state.now < restart ∧
    Quiet config timer.state.rob.entries (restart + 1 : Nat) timer.state.numInRob 0

theorem runStages_skips {config : Config Cycle Mem} {timer : Timer Mem} {after : State Mem} {stall : Option CpiComponent}
    {component : CpiComponent} {bound : Nat} (valid : Valid config timer.state)
    (ran : runStages config timer.state timer.cpiCurrentFrontEndStall = .ok (after, stall, component, (bound : SubsecondTime)))
    (later : timer.state.now < bound) :
    Idle config after bound ∧
      (¬Masked config timer → ∀ now, timer.state.now ≤ now → now < bound → after.idleComponent config stall now = component) := by
  have early : (timer.state.now : SubsecondTime) < bound := SubsecondTime.fs_lt_fs.mpr later
  unfold runStages at ran
  cases dispatched : doDispatch config timer.state timer.cpiCurrentFrontEndStall with
  | error reason => simp [dispatched, bind, Except.bind] at ran
  | ok result =>
    obtain ⟨entered, cpiFrontEnd, component', nextDispatch⟩ := result
    have dispatch : DispatchStage config timer.state entered timer.cpiCurrentFrontEndStall cpiFrontEnd component' nextDispatch :=
      (doDispatch_meets timer.cpiCurrentFrontEndStall valid).of_ok dispatched
    cases issued : doIssue config entered with
    | error reason => simp [dispatched, issued, bind, Except.bind] at ran
    | ok result =>
      obtain ⟨passed, nextIssue⟩ := result
      simp only [dispatched, issued, bind, Except.bind, pure, Except.pure, Except.ok.injEq, Prod.mk.injEq] at ran
      obtain ⟨committed, rfl, rfl, nextEvent⟩ := ran
      have dispatchLater : (bound : SubsecondTime) ≤ nextDispatch := nextEvent ▸ min_le_left _ _
      have issueLater : (bound : SubsecondTime) ≤ nextIssue := nextEvent ▸ le_trans (min_le_right _ _) (min_le_left _ _)
      rw [← dispatch.now] at early
      obtain ⟨rfl, quietIssue⟩ := doIssue_quiet dispatch.valid issued (lt_of_lt_of_le early issueLater)
      have quiet := quietIssue.mono issueLater
      rw [doCommit_idle config fun front first =>
        lt_of_lt_of_le early (Quiet.front dispatch.valid quiet first)] at committed
      subst committed
      have restart : (bound : SubsecondTime) ≤ passed.frontendStalledUntil ∨ passed.numInRob = config.windowSize := by
        by_cases full : passed.numInRob = config.windowSize
        · exact .inr full
        · exact .inl (le_trans dispatchLater (dispatch.restart full))
      refine ⟨⟨quiet, restart⟩, fun unmasked now _ before => ?_⟩
      rw [dispatch.chosen, findCpiComponent_quiet dispatch.valid quiet early]
      unfold State.idleComponent State.stallAt
      split
      case isFalse => rfl
      case isTrue restarted =>
        -- The front end starts again in one of the skipped cycles, so the window is full.
        have restartsBefore := lt_of_le_of_lt restarted (SubsecondTime.fs_lt_fs.mpr before)
        have full := restart.resolve_left (not_le.mpr restartsBefore)
        cases head : passed.headComponent with
        | some component =>
          cases cpiFrontEnd with
          | none => rfl
          | some stall => simp [chooseCpiComponent, full]
        | none =>
          have unstalled : cpiFrontEnd = none := by
            by_cases runs : timer.state.frontendStalledUntil ≤ timer.state.now
            · refine (dispatch.full runs full).resolve_right fun never => ?_
              rw [never] at restartsBefore
              exact absurd restartsBefore not_top_lt
            · obtain ⟨rfl, rfl⟩ := dispatch.stalled runs
              by_contra stall
              obtain top | ⟨restart, starts⟩ := timer.state.frontendStalledUntil.top_or_fs
              · exact absurd (top ▸ restartsBefore) not_top_lt
              · rw [starts] at runs restartsBefore
                have soon := SubsecondTime.fs_lt_fs.mp restartsBefore
                refine unmasked ⟨full, stall, ?_, restart, starts, ?_, ?_⟩
                · rw [findCpiComponent_quiet valid quiet early, head]
                · exact not_le.mp fun late => runs (SubsecondTime.fs_le_fs.mpr late)
                · exact quiet.mono (SubsecondTime.fs_le_fs.mpr soon)
          rw [unstalled]

/-! ## The stepping model follows the skipping one -/

theorem charge_zero (cpi : CpiComponent → Nat) (component : CpiComponent) : charge cpi component 0 = cpi := by
  funext other
  simp [charge]

theorem charge_charge (cpi : CpiComponent → Nat) (component : CpiComponent) (first second : Nat) :
    charge (charge cpi component first) component second = charge cpi component (first + second) := by
  funext other
  unfold charge
  split
  · omega
  · rfl

theorem execute_eq_ok {config : Config Cycle Mem} {advance : Advance} {timer next : Timer Mem} :
    execute config advance timer = .ok next ↔ ∃ after stall component nextEvent,
      runStages config timer.state timer.cpiCurrentFrontEndStall = .ok (after, stall, component, nextEvent) ∧
      next = ⟨{ after with now := after.now + advanceBy config advance after.now nextEvent }, stall,
        charge timer.cpi component (advanceBy config advance after.now nextEvent)⟩ := by
  unfold execute
  cases ran : runStages config timer.state timer.cpiCurrentFrontEndStall with
  | error reason => simp [bind, Except.bind]
  | ok result =>
    obtain ⟨after, stall, component, nextEvent⟩ := result
    simp only [bind, Except.bind, pure, Except.pure, Except.ok.injEq]
    constructor
    · rintro rfl
      exact ⟨after, stall, component, nextEvent, rfl, rfl⟩
    · rintro ⟨after', stall', component', nextEvent', same, rfl⟩
      cases same
      rfl

theorem runStages_congr {config : Config Cycle Mem} {state : State Mem} {first second : Option CpiComponent}
    (same : ¬state.frontendStalledUntil ≤ state.now → first = second) :
    runStages config state first = runStages config state second := by
  by_cases runs : state.frontendStalledUntil ≤ state.now
  · unfold runStages doDispatch runFrontEnd
    rw [if_pos runs, if_pos runs]
  · rw [same runs]

/-- The stepping timer is in the middle of the cycles that the skipping one has skipped, or has caught up with it. -/
structure Behind (config : Config Cycle Mem) (counted : Prop) (slow fast : Timer Mem) : Prop where
  valid : Valid config slow.state
  validFast : Valid config fast.state
  state : slow.state = { fast.state with now := slow.state.now }
  now : slow.state.now ≤ fast.state.now
  stall : ¬fast.state.frontendStalledUntil ≤ fast.state.now → slow.cpiCurrentFrontEndStall = fast.cpiCurrentFrontEndStall
  idle : slow.state.now < fast.state.now → Idle config slow.state fast.state.now
  cpi : counted → ∃ component, fast.cpi = charge slow.cpi component (fast.state.now - slow.state.now) ∧
    ∀ now, slow.state.now ≤ now → now < fast.state.now →
      slow.state.idleComponent config slow.cpiCurrentFrontEndStall now = component

namespace Behind

variable {config : Config Cycle Mem} {counted : Prop} {slow fast : Timer Mem}

theorem refl (timer : Timer Mem) (valid : Valid config timer.state) : Behind config counted timer timer where
  valid := valid
  validFast := valid
  state := rfl
  now := Nat.le_refl _
  stall _ := rfl
  idle := by
    intro impossible
    exact absurd impossible (Nat.lt_irrefl _)
  cpi := by
    intro _
    refine ⟨.base, ?_, fun now late early => absurd early (Nat.not_lt.mpr late)⟩
    rw [Nat.sub_self, charge_zero]

theorem state_eq (behind : Behind config counted slow fast) (caught : slow.state.now = fast.state.now) :
    slow.state = fast.state := by
  have same := behind.state
  rw [caught] at same
  exact same

theorem asks_of_asks (behind : Behind config counted slow fast) (asks : slow.state.asks config) : fast.state.asks config := by
  obtain ⟨runs, few⟩ := asks
  rw [behind.state] at runs few
  exact ⟨le_trans runs (SubsecondTime.fs_le_fs.mpr behind.now), few⟩

theorem insert {rob : Rob} (behind : Behind config counted slow fast)
    (extended : Extends config.period fast.state.rob.entries rob.entries) :
    Behind config counted { slow with state := { slow.state with rob := rob } }
      { fast with state := { fast.state with rob := rob } } := by
  have entries : slow.state.rob = fast.state.rob := by rw [behind.state]
  have window : slow.state.numInRob = fast.state.numInRob := by rw [behind.state]
  have sameEntries : Extends config.period slow.state.rob.entries rob.entries := by rwa [entries]
  refine ⟨behind.valid.insert sameEntries, behind.validFast.insert extended, ?_, behind.now, behind.stall, ?_, fun counts => ?_⟩
  · dsimp only
    rw [behind.state]
  · intro before
    have idle := behind.idle before
    exact ⟨idle.quiet.extend sameEntries, idle.frontEnd⟩
  · obtain ⟨component, total, steady⟩ := behind.cpi counts
    refine ⟨component, total, fun now late early => ?_⟩
    rw [← steady now late early]
    unfold State.idleComponent
    congr 1
    exact headComponent_extend behind.valid.inRob sameEntries

theorem pass (behind : Behind config counted slow fast) (before : slow.state.now < fast.state.now) :
    ∃ next, execute config .stepping slow = .ok next ∧ next.state.now = slow.state.now + config.period ∧
      Behind config counted next fast := by
  have idle := behind.idle before
  refine ⟨_, execute_idle behind.valid idle before, rfl, ?_⟩
  have within : slow.state.now + config.period ≤ fast.state.now := by
    obtain ⟨cycles, slowNow⟩ := behind.valid.now
    obtain ⟨cyclesFast, fastNow⟩ := behind.validFast.now
    rw [slowNow, fastNow] at before ⊢
    have fewer := Nat.lt_of_mul_lt_mul_left before
    rw [← Nat.mul_succ]
    exact Nat.mul_le_mul_left _ fewer
  have valid := (execute_valid .stepping behind.valid).of_ok (execute_idle behind.valid idle before)
  refine ⟨valid, behind.validFast, ?_, within, ?_, fun _ => ⟨idle.quiet, idle.frontEnd⟩, fun counts => ?_⟩
  · rw [behind.state]
  · intro stalled
    rw [← behind.stall stalled]
    have same : fast.state.frontendStalledUntil = slow.state.frontendStalledUntil := by rw [behind.state]
    rw [same] at stalled
    exact slow.state.stallAt_of_later _ (Nat.le_of_lt before) stalled
  · obtain ⟨component, total, steady⟩ := behind.cpi counts
    refine ⟨component, ?_, ?_⟩
    · dsimp only
      rw [steady _ (Nat.le_refl _) before, charge_charge, total]
      congr 1
      omega
    · intro now late early
      have sinceNow : slow.state.now ≤ now := Nat.le_trans (Nat.le_add_right _ _) late
      rw [← steady now sinceNow early]
      unfold State.idleComponent
      congr 1
      exact slow.state.stallAt_stallAt _ sinceNow

theorem cycle {next : Timer Mem} (behind : Behind config counted slow fast) (caught : slow.state.now = fast.state.now)
    (unmasked : counted → ¬Masked config fast) (stepped : execute config .skipping fast = .ok next) :
    ∃ next', execute config .stepping slow = .ok next' ∧ Behind config counted next' next := by
  have same := behind.state_eq caught
  obtain ⟨after, stall, component, nextEvent, ran, rfl⟩ := execute_eq_ok.mp stepped
  have ranSlow : runStages config slow.state slow.cpiCurrentFrontEndStall = .ok (after, stall, component, nextEvent) := by
    rw [same, runStages_congr behind.stall, ran]
  obtain ⟨valid, whole, now⟩ := (runStages_meets _ behind.validFast).of_ok ran
  dsimp only at valid whole now
  refine ⟨_, execute_eq_ok.mpr ⟨after, stall, component, nextEvent, ranSlow, rfl⟩, ?_⟩
  have validSlow := (execute_valid .stepping behind.valid).of_ok (execute_eq_ok.mpr ⟨_, _, _, _, ranSlow, rfl⟩)
  have validFast := (execute_valid .skipping behind.validFast).of_ok stepped
  have sameCpi (counts : counted) : fast.cpi = slow.cpi := by
    obtain ⟨component, total, -⟩ := behind.cpi counts
    rw [caught, Nat.sub_self, charge_zero] at total
    exact total
  unfold advanceBy skipTo at validSlow validFast ⊢
  dsimp only at validSlow validFast ⊢
  split at validFast
  case isFalse =>
    rename_i none
    rw [if_neg none]
    refine ⟨validSlow, validFast, rfl, Nat.le_refl _, fun _ => rfl, fun impossible => absurd impossible (Nat.lt_irrefl _),
      fun counts => ⟨component, ?_, fun now late early => absurd early (Nat.not_lt.mpr late)⟩⟩
    rw [Nat.sub_self, charge_zero, sameCpi counts]
  case isTrue skips =>
    obtain top | ⟨bound, rfl⟩ := nextEvent.top_or_fs
    · exact absurd top skips.1
    · have later := SubsecondTime.fs_lt_fs.mp skips.2
      have period := config.period_pos
      obtain ⟨idle, steady⟩ := runStages_skips behind.validFast ran (by omega)
      have reach : after.now + (bound - after.now) = bound := by omega
      rw [if_pos skips]
      simp only [SubsecondTime.value_fs, reach] at validFast ⊢
      refine ⟨validSlow, validFast, rfl, Nat.le_of_lt later, fun _ => rfl, fun _ => ⟨idle.quiet, idle.frontEnd⟩, fun counts => ?_⟩
      refine ⟨component, ?_, fun time late early => ?_⟩
      · have parts : bound - after.now = config.period + (bound - (after.now + config.period)) := by omega
        rw [charge_charge, sameCpi counts, parts]
      · dsimp only at late early
        exact steady (unmasked counts) time (by omega) early

end Behind

/-! ## Runs -/

theorem step_asks {config : Config Cycle Mem} {advance : Advance} {system next : System Mem}
    (asks : system.timer.state.asks config) :
    system.step config advance = .ok next ↔ ∃ insts rob, system.supply = insts :: next.supply ∧
      insertMicroOps config system.timer.state.rob insts = .ok rob ∧
      next.timer = { system.timer with state := { system.timer.state with rob := rob } } := by
  unfold System.step
  rw [if_pos asks]
  cases system.supply with
  | nil => simp
  | cons insts supply =>
    cases inserted : insertMicroOps config system.timer.state.rob insts with
    | error reason => simp [inserted, bind, Except.bind]
    | ok rob =>
      simp only [inserted, bind, Except.bind, pure, Except.pure, Except.ok.injEq]
      constructor
      · rintro rfl
        exact ⟨insts, rob, rfl, inserted, rfl⟩
      · rintro ⟨insts', rob', remaining, inserted', timer⟩
        obtain ⟨rfl, rfl⟩ := List.cons.inj remaining
        rw [inserted] at inserted'
        cases inserted'
        rw [← timer]

theorem step_runs {config : Config Cycle Mem} {advance : Advance} {system next : System Mem}
    (runs : ¬system.timer.state.asks config) :
    system.step config advance = .ok next ↔
      execute config advance system.timer = .ok next.timer ∧ next.supply = system.supply := by
  unfold System.step
  rw [if_neg runs]
  obtain ⟨timer, left⟩ := next
  cases execute config advance system.timer with
  | error reason => simp [bind, Except.bind]
  | ok after => simp [bind, Except.bind, pure, Except.pure, eq_comm]

/-- A system of the stepping model at the time of an earlier one has its totals: feeding leaves the totals alone and
each cycle takes time. -/
theorem run_totals {config : Config Cycle Mem} {start earlier later : System Mem} {labels : List Unit}
    (valid : Valid config earlier.timer.state) (ran : (machine config .stepping start).run earlier labels = .ok later)
    (same : later.timer.state.now = earlier.timer.state.now) : later.timer.cpi = earlier.timer.cpi := by
  refine (Machine.run_invariant (fun system => Valid config system.timer.state ∧
    earlier.timer.state.now ≤ system.timer.state.now ∧
      (system.timer.state.now = earlier.timer.state.now → system.timer.cpi = earlier.timer.cpi)) ?_
    ⟨valid, Nat.le_refl _, fun _ => rfl⟩ ran).2.2 same
  rintro system label next ⟨valid, late, totals⟩ stepped
  replace stepped : system.step config .stepping = .ok next := stepped
  refine ⟨(step_valid .stepping valid).of_ok stepped, ?_⟩
  by_cases asks : system.timer.state.asks config
  · obtain ⟨insts, rob, -, -, timer⟩ := (step_asks asks).mp stepped
    rw [timer]
    exact ⟨late, totals⟩
  · obtain ⟨executed, -⟩ := (step_runs asks).mp stepped
    obtain ⟨after, stall, component, nextEvent, staged, timer⟩ := execute_eq_ok.mp executed
    obtain ⟨-, -, now⟩ := (runStages_meets _ valid).of_ok staged
    have later : next.timer.state.now = system.timer.state.now + config.period := by
      rw [timer, ← now]
      rfl
    have period := config.period_pos
    exact ⟨by omega, fun same => by omega⟩

theorem stepping_totals {config : Config Cycle Mem} {start first second : System Mem} (valid : Valid config start.timer.state)
    (reachedFirst : (machine config .stepping start).Reachable first)
    (reachedSecond : (machine config .stepping start).Reachable second)
    (same : first.timer.state.now = second.timer.state.now) : first.timer.cpi = second.timer.cpi := by
  have reachedValid {system : System Mem} (reached : (machine config .stepping start).Reachable system) :
      Valid config system.timer.state := by
    refine reached.invariant (fun system => Valid config system.timer.state) ?_ ?_
    · rintro _ rfl
      exact valid
    · intro system label next valid _ stepped
      exact (step_valid .stepping valid).of_ok stepped
  have alone (first second : System Mem) (starts : (machine config .stepping start).initial first)
      (starts' : (machine config .stepping start).initial second) : first = second := starts.trans starts'.symm
  obtain ⟨labels, ran⟩ | ⟨labels, ran⟩ := reachedFirst.linear alone reachedSecond
  · exact (run_totals (reachedValid reachedFirst) ran same.symm).symm
  · exact run_totals (reachedValid reachedSecond) ran same

/-- The stepping system follows the skipping one, with the same micro-operations to come. -/
structure Follows (config : Config Cycle Mem) (counted : Prop) (slow fast : System Mem) : Prop where
  supply : slow.supply = fast.supply
  behind : Behind config counted slow.timer fast.timer

namespace Follows

variable {config : Config Cycle Mem} {counted : Prop} {slow fast : System Mem}

theorem feed {rob : Rob} {insts : List DynamicMicroOp} (supply : List (List DynamicMicroOp))
    (follows : Follows config counted slow fast) (inserted : insertMicroOps config fast.timer.state.rob insts = .ok rob) :
    Follows config counted ⟨{ slow.timer with state := { slow.timer.state with rob := rob } }, supply⟩
      ⟨{ fast.timer with state := { fast.timer.state with rob := rob } }, supply⟩ :=
  ⟨rfl, follows.behind.insert ((insertMicroOps_extends config fast.timer.state.rob insts).of_ok inserted)⟩

theorem rob_eq (follows : Follows config counted slow fast) : slow.timer.state.rob = fast.timer.state.rob := by
  rw [follows.behind.state]

theorem catchUp {start : System Mem} (follows : Follows config counted slow fast)
    (reached : (machine config .stepping start).Reachable slow) :
    ∃ slow', (machine config .stepping start).Reachable slow' ∧ Follows config counted slow' fast ∧
      (slow'.timer.state.asks config ∨ slow'.timer.state.now = fast.timer.state.now) := by
  generalize lag : fast.timer.state.now - slow.timer.state.now = cycles
  induction cycles using Nat.strong_induction_on generalizing slow with
  | _ cycles ih =>
    by_cases asks : slow.timer.state.asks config
    · exact ⟨slow, reached, follows, .inl asks⟩
    · have within := follows.behind.now
      by_cases caught : slow.timer.state.now = fast.timer.state.now
      · exact ⟨slow, reached, follows, .inr caught⟩
      · obtain ⟨next, passed, now, behind⟩ := follows.behind.pass (by omega)
        have stepped : slow.step config .stepping = .ok ⟨next, slow.supply⟩ := (step_runs asks).mpr ⟨passed, rfl⟩
        have period := config.period_pos
        have nowNext := behind.now
        exact @ih (fast.timer.state.now - next.state.now) (by omega) ⟨next, slow.supply⟩ ⟨follows.supply, behind⟩
          (.step () reached trivial stepped) rfl

end Follows

theorem stepping_follows {config : Config Cycle Mem} {start fast : System Mem} {guard : System Mem → Unit → Prop}
    (valid : Valid config start.timer.state) (reached : (machine config .skipping start).Reach guard fast) :
    ∃ slow, (machine config .stepping start).Reachable slow ∧
      Follows config (∀ system label, guard system label → ¬Masked config system.timer) slow fast := by
  induction reached with
  | initial starts =>
    cases starts
    exact ⟨start, .initial rfl, rfl, .refl start.timer valid⟩
  | @step fast next label _ allowed stepped ih =>
    obtain ⟨slow, reachedSlow, follows⟩ := ih
    obtain ⟨slow, reachedSlow, follows, waits⟩ := follows.catchUp reachedSlow
    replace stepped : fast.step config .skipping = .ok next := stepped
    by_cases asks : fast.timer.state.asks config
    · obtain ⟨insts, rob, supply, inserted, timer⟩ := (step_asks asks).mp stepped
      have fed := follows.feed next.supply inserted
      rw [← timer] at fed
      have slowAsks : slow.timer.state.asks config := by
        refine waits.elim id fun caught => ?_
        rw [follows.behind.state_eq caught]
        exact asks
      refine ⟨_, .step () reachedSlow trivial ((step_asks slowAsks).mpr ⟨insts, rob, ?_, ?_, rfl⟩), fed⟩
      · exact follows.supply.trans supply
      · rw [follows.rob_eq]
        exact inserted
    · obtain ⟨ran, supply⟩ := (step_runs asks).mp stepped
      have caught := waits.resolve_left fun slowAsks => asks (follows.behind.asks_of_asks slowAsks)
      obtain ⟨after, executed, behind⟩ := follows.behind.cycle caught (fun unmasked => unmasked fast label allowed) ran
      have slowRuns : ¬slow.timer.state.asks config := by
        rw [follows.behind.state_eq caught]
        exact asks
      exact ⟨⟨after, slow.supply⟩, .step () reachedSlow trivial ((step_runs slowRuns).mpr ⟨executed, rfl⟩),
        follows.supply.trans supply.symm, behind⟩

theorem skipping_leads {config : Config Cycle Mem} {start slow : System Mem} (valid : Valid config start.timer.state)
    (reached : (machine config .stepping start).Reachable slow) :
    ∃ fast, (machine config .skipping start).Reachable fast ∧ Follows config False slow fast := by
  induction reached with
  | initial starts =>
    cases starts
    exact ⟨start, .initial rfl, rfl, .refl start.timer valid⟩
  | @step slow next _ _ _ stepped ih =>
    obtain ⟨fast, reachedFast, follows⟩ := ih
    replace stepped : slow.step config .stepping = .ok next := stepped
    by_cases asks : slow.timer.state.asks config
    · obtain ⟨insts, rob, supply, inserted, timer⟩ := (step_asks asks).mp stepped
      rw [follows.supply] at supply
      rw [follows.rob_eq] at inserted
      have fed := follows.feed next.supply inserted
      rw [← timer] at fed
      have fastAsks := follows.behind.asks_of_asks asks
      refine ⟨⟨{ fast.timer with state := { fast.timer.state with rob := rob } }, next.supply⟩,
        .step () reachedFast trivial ?_, fed⟩
      exact (step_asks fastAsks).mpr ⟨insts, rob, supply, inserted, rfl⟩
    · obtain ⟨ran, supply⟩ := (step_runs asks).mp stepped
      have within := follows.behind.now
      by_cases caught : slow.timer.state.now = fast.timer.state.now
      · have same := follows.behind.state_eq caught
        have runs : ¬fast.timer.state.asks config := by
          rw [← same]
          exact asks
        obtain ⟨after, stall, component, nextEvent, staged, -⟩ := execute_eq_ok.mp ran
        rw [same, runStages_congr follows.behind.stall] at staged
        obtain ⟨leader, ranFast⟩ : ∃ leader, execute config .skipping fast.timer = .ok leader :=
          ⟨_, execute_eq_ok.mpr ⟨_, _, _, _, staged, rfl⟩⟩
        obtain ⟨after', executed, behind⟩ := follows.behind.cycle caught (fun impossible => impossible.elim) ranFast
        rw [ran] at executed
        cases executed
        exact ⟨⟨leader, fast.supply⟩, .step () reachedFast trivial ((step_runs runs).mpr ⟨ranFast, rfl⟩),
          supply.trans follows.supply, behind⟩
      · obtain ⟨after, passed, -, behind⟩ := follows.behind.pass (by omega)
        rw [ran] at passed
        cases passed
        exact ⟨fast, reachedFast, supply.trans follows.supply, behind⟩

/-- All micro-operations get the same times in both models. -/
def SameTimes (config : Config Cycle Mem) (start : System Mem) : Prop :=
  (∀ fast, (machine config .skipping start).Reachable fast →
    ∃ slow, (machine config .stepping start).Reachable slow ∧ slow.timer.state.times = fast.timer.state.times) ∧
  ∀ slow, (machine config .stepping start).Reachable slow →
    ∃ fast, (machine config .skipping start).Reachable fast ∧ fast.timer.state.times = slow.timer.state.times

/-- Whenever the skipping model, in runs whose steps meet the guard, is about to execute a cycle, the stepping model
gets to the same time, with the same times of all micro-operations and the same totals of all components. -/
def SameTotals (config : Config Cycle Mem) (start : System Mem) (guard : System Mem → Unit → Prop) : Prop :=
  ∀ fast, (machine config .skipping start).Reach guard fast → ¬fast.timer.state.asks config →
    ∃ slow, (machine config .stepping start).Reachable slow ∧ slow.timer.state.now = fast.timer.state.now ∧
      slow.timer.state.times = fast.timer.state.times ∧ slow.timer.cpi = fast.timer.cpi

/-- A core with a window of two micro-operations. -/
def smallCore : Config Unit Unit where
  dispatchWidth := 2
  commitWidth := 2
  windowSize := 2
  rsEntries := 4
  mispredictionPenalty := 8
  storeToLoadForwarding := false
  noAddressDisambiguation := false
  inorder := false
  contention := none
  period := 1
  period_pos := Nat.one_pos
  accessMemory _ _ _ := ((0, .l1Own), ())

/-- A micro-operation without operands, and whether it is a mispredicted branch. -/
def computes (execLatency : Nat) (redirects : Bool) : DynamicMicroOp where
  microOp := ⟨.execute, [], [], [], redirects, false, false⟩
  sequenceNumber := 0
  address := 0
  squashed := false
  intraInstructionDependencies := 0
  microOpTypeOffset := 0
  dependencies := []
  execLatency := execLatency
  branchMispredicted := redirects
  dCacheHitWhere := .unknown
  iCacheHitWhere := .l1i
  iCacheLatency := 0
  last := true
  port := .nehalem .port0
  alu := .none
  aluLatency := 0

/-- A divide, a slow branch that is mispredicted, and six short micro-operations after it. -/
def branchAfterDivide : System Unit :=
  ⟨.initial 1 1 0 (), [computes 28 false :: computes 8 true :: List.replicate 6 (computes 1 false)]⟩

theorem skipping_hides_restart : ¬SameTotals smallCore branchAfterDivide fun _ _ => True := by
  intro sameTotals
  have skips : (machine smallCore .skipping branchAfterDivide).endsWith (fun _ => true) (fun fast =>
      fast.timer.state.now = 10 ∧ fast.timer.cpi .branchPredictor = 10 ∧ ¬fast.timer.state.asks smallCore)
      branchAfterDivide (List.replicate 4 ()) = true := by
    decide +kernel
  have steps : (machine smallCore .stepping branchAfterDivide).endsWith (fun _ => true) (fun slow =>
      slow.timer.state.now = 10 ∧ slow.timer.cpi .branchPredictor = 7) branchAfterDivide (List.replicate 11 ()) = true := by
    decide +kernel
  obtain ⟨fast, reachedFast, facts⟩ := Machine.Reach.of_endsWith (.initial rfl) (fun _ _ _ => trivial) skips
  obtain ⟨now, skipped, runs⟩ := of_decide_eq_true facts
  obtain ⟨stepped, reachedStepped, facts⟩ :=
    Machine.Reach.of_endsWith (.initial rfl) (fun _ _ _ => trivial) steps
  obtain ⟨nowStepped, counted⟩ := of_decide_eq_true facts
  obtain ⟨slow, reachedSlow, sameNow, -, sameCpi⟩ := sameTotals fast reachedFast runs
  have valid : Valid smallCore branchAfterDivide.timer.state := initial_valid smallCore 1 1 () (Nat.dvd_zero _)
  have same := stepping_totals valid reachedSlow reachedStepped (by omega)
  rw [← sameCpi, same, counted] at skipped
  cases skipped

theorem Follows.times {config : Config Cycle Mem} {counted : Prop} {slow fast : System Mem}
    (follows : Follows config counted slow fast) : slow.timer.state.times = fast.timer.state.times := by
  rw [follows.behind.state]
  rfl

/-- Skipping changes no time of a micro-operation, and no total unless it hides that the front end starts again. -/
theorem skipping_transparent (config : Config Cycle Mem) (outstandingLoads outstandingStores start : Nat) (memory : Mem)
    (supply : List (List DynamicMicroOp)) (whole : config.period ∣ start) :
    SameTimes config ⟨.initial outstandingLoads outstandingStores start memory, supply⟩ ∧
      SameTotals config ⟨.initial outstandingLoads outstandingStores start memory, supply⟩
        fun system _ => ¬Masked config system.timer := by
  have valid := initial_valid config outstandingLoads outstandingStores memory whole
  refine ⟨⟨fun fast reached => ?_, fun slow reached => ?_⟩, fun fast reached runs => ?_⟩
  · obtain ⟨slow, reachedSlow, follows⟩ := stepping_follows valid reached
    exact ⟨slow, reachedSlow, follows.times⟩
  · obtain ⟨fast, reachedFast, follows⟩ := skipping_leads valid reached
    exact ⟨fast, reachedFast, follows.times.symm⟩
  · obtain ⟨slow, reachedSlow, follows⟩ := stepping_follows valid reached
    obtain ⟨slow, reachedSlow, follows, waits⟩ := follows.catchUp reachedSlow
    have caught := waits.resolve_left fun asks => runs (follows.behind.asks_of_asks asks)
    obtain ⟨component, total, -⟩ := follows.behind.cpi fun _ _ unmasked => unmasked
    rw [caught, Nat.sub_self, charge_zero] at total
    exact ⟨slow, reachedSlow, caught, follows.times, total.symm⟩

/-- The skipping model skips 28 cycles here, with the totals of the stepping one. -/
theorem skipping_transparent_divides :
    SameTimes smallCore ⟨.initial 1 1 0 (), [List.replicate 8 (computes 28 false)]⟩ ∧
      ∃ slow, (machine smallCore .stepping ⟨.initial 1 1 0 (), [List.replicate 8 (computes 28 false)]⟩).Reachable slow ∧
        slow.timer.state.now = 30 ∧ slow.timer.cpi .base = 30 := by
  obtain ⟨sameTimes, sameTotals⟩ :=
    skipping_transparent smallCore 1 1 0 () [List.replicate 8 (computes 28 false)] (Nat.dvd_zero _)
  have skips : (machine smallCore .skipping ⟨.initial 1 1 0 (), [List.replicate 8 (computes 28 false)]⟩).endsWith
      (fun fast => fast.timer.cpiCurrentFrontEndStall = none)
      (fun fast => fast.timer.state.now = 30 ∧ fast.timer.cpi .base = 30 ∧ ¬fast.timer.state.asks smallCore)
      ⟨.initial 1 1 0 (), [List.replicate 8 (computes 28 false)]⟩ (List.replicate 4 ()) = true := by
    decide +kernel
  have unmasked (system : System Unit) (_ : Unit) (running : decide (system.timer.cpiCurrentFrontEndStall = none) = true) :
      ¬Masked smallCore system.timer := fun masked => masked.stall (of_decide_eq_true running)
  obtain ⟨fast, reached, facts⟩ := Machine.Reach.of_endsWith (.initial rfl) unmasked skips
  obtain ⟨now, base, runs⟩ := of_decide_eq_true facts
  obtain ⟨slow, reachedSlow, sameNow, -, sameCpi⟩ := sameTotals fast reached runs
  exact ⟨sameTimes, slow, reachedSlow, sameNow.trans now, by rw [sameCpi, base]⟩

end Sniper.Performance.RobTimer

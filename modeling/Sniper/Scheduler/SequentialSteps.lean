import Sniper.Scheduler.SequentialSets

/-! Threads of `SchedulerSequential` that are created and that start. -/

namespace Sniper.Scheduler.Sequential

variable {cores : Nat} {seqs : List Int} {thread other : Nat} {state next : State cores} {core : Fin cores}

/-! ## A thread starts -/

/-- `m_threads_runnable.size()` after the start of a thread. -/
def grown (state : State cores) (thread : Nat) : Nat :=
  if state.base.runnableSize ≤ thread then state.base.runnableSize + 16 else state.base.runnableSize

theorem Sizes.started_grown (sizes : Sizes state.base) (created : thread < state.base.numThreads)
    (within : thread < state.base.runnableSize + 16) {status : Nat → Status}
    (others : ∀ other ≠ thread, status other = state.base.status other) {base : Scheduler.State cores}
    (same : base.numThreads = state.base.numThreads ∧ base.infoSize = state.base.infoSize ∧
      base.runnableSize = grown state thread ∧ base.status = status) : Sizes base := by
  obtain ⟨numThreads, infoSize, runnableSize, isStatus⟩ := same
  obtain ⟨info, runnable, fits, empty, enough, started⟩ := sizes
  rw [grown] at runnableSize
  refine ⟨infoSize ▸ info, ?_, by omega, fun none_ => by omega, ?_, ?_⟩
  · rw [runnableSize]
    split <;> omega
  · intro some_
    split at runnableSize <;> omega
  · intro other member notInitializing
    by_cases isThread : other = thread
    · split at runnableSize <;> omega
    · rw [isStatus, others other isThread] at notInitializing
      have reach := started other (by omega) notInitializing
      split at runnableSize <;> omega

/-- The thread that the core has starts. -/
def startedState (state : State cores) (core : Fin cores) (thread : Nat) : State cores :=
  { state with
    base := { state.base with
      runnableSize := grown state thread
      threadsRunnable := Function.update state.base.threadsRunnable thread true
      status := Function.update state.base.status thread .running }
    nextThreadToExecute := Function.update state.nextThreadToExecute core (state.nextThreadToExecute core + 1) }

/-- Any other one is queued. -/
def queuedState (state : State cores) (core : Fin cores) (thread : Nat) : State cores :=
  { state with
    base := { state.base with
      runnableSize := grown state thread
      threadsRunnable := Function.update state.base.threadsRunnable thread false
      status := Function.update state.base.status thread (.stalled true) }
    coreWaitingThreads := Function.update state.coreWaitingThreads core (thread :: state.coreWaitingThreads core) }

theorem threadStart_eq (created : thread < state.base.numThreads) (within : thread < state.base.runnableSize + 16)
    (pinned : (state.base.threadInfo thread).coreAffinity = fun other => decide (other = core))
    (placed : state.base.coreThreadRunning core = some thread ↔ state.base.threadCore thread ≠ none) :
    threadStart thread state = .ok (if state.base.coreThreadRunning core = some thread then startedState state core thread
      else queuedState state core thread) := by
  have known : ¬state.base.numThreads ≤ thread := Nat.not_le.mpr created
  have inside : ¬grown state thread ≤ thread := by
    rw [grown]
    split <;> omega
  rw [grown] at inside
  simp only [threadStart, if_neg known, if_neg inside, schedulerStart, markResumed, affinityCore_of_pinned pinned]
  by_cases here : state.base.coreThreadRunning core = some thread
  · have isPlaced := Option.isSome_iff_ne_none.mpr (placed.mp here)
    simp only [here, if_true, isPlaced, Function.update_idem]
    rfl
  · have notPlaced : (state.base.threadCore thread).isSome = false := by
      cases there : state.base.threadCore thread with
      | none => rfl
      | some home => exact absurd (placed.mpr (by simp [there])) here
    simp only [here, if_false, notPlaced, Bool.false_eq_true, Function.update_idem]
    rfl

theorem Cursor.same (cursor : Cursor seqs state) (left : next.seqs = state.seqs)
    (current : next.currentPinballSet = state.currentPinballSet) (created : next.base.numThreads = state.base.numThreads) :
    Cursor seqs next := by
  obtain ⟨length, passed, reached, remaining, ahead⟩ := cursor
  rw [← left, ← current] at remaining
  refine ⟨left ▸ length, current ▸ passed, current ▸ created ▸ reached, created ▸ remaining, ?_⟩
  rw [left, current]
  exact ahead

theorem other_core (own : setOf seqs thread = some core.val) {otherCore : Fin cores} (apart : otherCore ≠ core)
    (own' : setOf seqs other = some otherCore.val) : other ≠ thread :=
  ne_of_setOf own own' fun same => apart (Fin.ext same)

theorem startedState_sameOn (own : setOf seqs thread = some core.val) {otherCore : Fin cores} (apart : otherCore ≠ core) :
    SameOn seqs otherCore state (startedState state core thread) where
  running := rfl
  waiting := rfl
  nextThread := Function.update_of_ne apart ..
  created _ _ := Iff.rfl
  status _ own' := Function.update_of_ne (other_core own apart own') ..
  placed _ _ := rfl
  runnable _ own' := Function.update_of_ne (other_core own apart own') ..

theorem queuedState_sameOn (own : setOf seqs thread = some core.val) {otherCore : Fin cores} (apart : otherCore ≠ core) :
    SameOn seqs otherCore state (queuedState state core thread) where
  running := rfl
  waiting := Function.update_of_ne apart ..
  nextThread := rfl
  created _ _ := Iff.rfl
  status _ own' := Function.update_of_ne (other_core own apart own') ..
  placed _ _ := rfl
  runnable _ own' := Function.update_of_ne (other_core own apart own') ..

theorem started_of_ne {status : Status} (apart : other ≠ thread) (same : next.base.numThreads = state.base.numThreads)
    (changed : next.base.status = Function.update state.base.status thread status) : Started next other ↔ Started state other := by
  rw [Started, Started, same, changed, Function.update_of_ne apart]

theorem Busy.starts (busy : Busy seqs state core thread) (initializing : state.base.status thread = .initializing) :
    Busy seqs (startedState state core thread) core thread where
  running := busy.running
  created := busy.created
  own := busy.own
  earlier before lower own := by
    obtain ⟨away, idle⟩ := busy.earlier before lower own
    have apart := Nat.ne_of_lt lower
    exact ⟨⟨away.nowhere, (Function.update_of_ne apart ..).trans away.waits⟩, (Function.update_of_ne apart ..).trans idle⟩
  later after upper created own := by
    obtain ⟨away, status⟩ := busy.later after upper created own
    have apart := Nat.ne_of_gt upper
    have same : (startedState state core thread).base.status after = state.base.status after := Function.update_of_ne apart ..
    rw [same]
    exact ⟨⟨away.nowhere, (Function.update_of_ne apart ..).trans away.waits⟩, status⟩
  waiting other := by
    refine (busy.waiting other).trans (and_congr_right fun upper => and_congr_right fun _ => ?_)
    have started : Started (startedState state core thread) other ↔ Started state other :=
      started_of_ne (Nat.ne_of_gt upper) rfl rfl
    exact started.symm
  nodup := busy.nodup
  current := by
    have status : (startedState state core thread).base.status thread = .running := Function.update_self ..
    cases busy.current with
    | initializing _ nextThread _ placed =>
      refine .running status ?_ ⟨Function.update_self .., busy.running, placed⟩
      exact (Function.update_self ..).trans (by rw [nextThread])
    | running status' => exact absurd (initializing.symm.trans status') (by simp)
    | last status' => exact absurd (initializing.symm.trans status') (by simp)

theorem Busy.queues {current : Nat} (busy : Busy seqs state core current) (created : thread < state.base.numThreads)
    (own : setOf seqs thread = some core.val) (initializing : state.base.status thread = .initializing) (apart : thread ≠ current) :
    Busy seqs (queuedState state core thread) core current := by
  have upper : current < thread := by
    refine Nat.lt_of_le_of_ne (Nat.le_of_not_lt fun before => ?_) (Ne.symm apart)
    exact absurd (initializing.symm.trans (busy.earlier thread before own).2) (by simp)
  have status {other : Nat} (differs : other ≠ thread) :
      (queuedState state core thread).base.status other = state.base.status other := Function.update_of_ne differs ..
  have runnable {other : Nat} (differs : other ≠ thread) :
      (queuedState state core thread).base.threadsRunnable other = state.base.threadsRunnable other := Function.update_of_ne differs ..
  have waiting : (queuedState state core thread).coreWaitingThreads core = thread :: state.coreWaitingThreads core :=
    Function.update_self ..
  have stalled : (queuedState state core thread).base.status thread = .stalled true := Function.update_self ..
  constructor
  case running => exact busy.running
  case created => exact busy.created
  case own => exact busy.own
  case earlier =>
    intro before lower own'
    obtain ⟨away, idle⟩ := busy.earlier before lower own'
    have differs : before ≠ thread := by omega
    exact ⟨⟨away.nowhere, (runnable differs).trans away.waits⟩, (status differs).trans idle⟩
  case later =>
    intro after upper' created' own'
    obtain ⟨away, status'⟩ := busy.later after upper' created' own'
    by_cases same : after = thread
    · subst same
      exact ⟨⟨away.nowhere, Function.update_self ..⟩, .inr stalled⟩
    · rw [status same]
      exact ⟨⟨away.nowhere, (runnable same).trans away.waits⟩, status'⟩
  case waiting =>
    intro other
    rw [waiting, List.mem_cons, busy.waiting other]
    by_cases same : other = thread
    · subst same
      have started : Started (queuedState state core other) other := ⟨created, by rw [stalled]; simp⟩
      exact ⟨fun _ => ⟨upper, own, started⟩, fun _ => .inl rfl⟩
    · have started : Started (queuedState state core thread) other ↔ Started state other := started_of_ne same rfl rfl
      rw [or_iff_right same, started]
  case nodup =>
    rw [waiting, List.nodup_cons]
    exact ⟨fun member => ((busy.waiting thread).mp member).2.2.2 initializing, busy.nodup⟩
  case current =>
    have differs := Ne.symm apart
    cases busy.current with
    | initializing status' nextThread waits placed =>
      exact .initializing ((status differs).trans status') nextThread ((runnable differs).trans waits) placed
    | running status' nextThread scheduled =>
      exact .running ((status differs).trans status') nextThread
        ⟨(runnable differs).trans scheduled.runnable, scheduled.running, scheduled.placed⟩
    | last status' isLast away =>
      exact .last ((status differs).trans status') isLast ⟨away.nowhere, (runnable differs).trans away.waits⟩

theorem Invariant.threadStart (invariant : Invariant seqs state) (created : thread < state.base.numThreads)
    (initializing : state.base.status thread = .initializing) (within : thread < state.base.runnableSize + 16) :
    ∃ next, threadStart thread state = .ok next ∧ Invariant seqs next := by
  obtain ⟨core, own, pinned⟩ := invariant.pinned thread created
  obtain ⟨current, busy⟩ := invariant.busy_of_created own created
  have placed : state.base.coreThreadRunning core = some thread ↔ state.base.threadCore thread ≠ none := by
    constructor
    · intro running
      cases (invariant.busy_of_running running).current with
      | initializing _ _ _ placed => simp [placed]
      | running _ _ scheduled => simp [scheduled.placed]
      | last status => exact absurd (initializing.symm.trans status) (by simp)
    · intro somewhere
      obtain ⟨home, there⟩ := Option.ne_none_iff_exists'.mp somewhere
      have busy' := invariant.busy_of_placed there
      have same : home = core := Fin.ext (Option.some.inj (busy'.own.symm.trans own))
      exact same ▸ busy'.running
  have fresh {runnable : Bool} (other : Nat) (isFresh : state.base.numThreads ≤ other) :
      Function.update state.base.threadsRunnable thread runnable other = false := by
    rw [Function.update_of_ne (by omega)]
    exact (invariant.fresh other isFresh).2.waits
  have others {status : Status} (other : Nat) (differs : other ≠ thread) :
      Function.update state.base.status thread status other = state.base.status other := Function.update_of_ne differs ..
  refine ⟨_, threadStart_eq created within pinned placed, ?_⟩
  split
  case isTrue here =>
    refine ⟨invariant.cursor.same rfl rfl rfl, invariant.sizes.started_grown created within others ⟨rfl, rfl, rfl, rfl⟩,
      invariant.pinned, ?_, invariant.inverse, fun otherCore => ?_⟩
    · intro other isFresh
      obtain ⟨info, away⟩ := invariant.fresh other isFresh
      exact ⟨info, away.nowhere, fresh other isFresh⟩
    · by_cases same : otherCore = core
      · subst same
        exact .inr ⟨thread, (invariant.busy_of_running here).starts initializing⟩
      · exact (startedState_sameOn own same).served (invariant.served otherCore)
  case isFalse elsewhere =>
    have apart : thread ≠ current := fun same => elsewhere (same ▸ busy.running)
    refine ⟨invariant.cursor.same rfl rfl rfl, invariant.sizes.started_grown created within others ⟨rfl, rfl, rfl, rfl⟩,
      invariant.pinned, ?_, invariant.inverse, fun otherCore => ?_⟩
    · intro other isFresh
      obtain ⟨info, away⟩ := invariant.fresh other isFresh
      exact ⟨info, away.nowhere, fresh other isFresh⟩
    · by_cases same : otherCore = core
      · subst same
        exact .inr ⟨current, busy.queues created own initializing apart⟩
      · exact (queuedState_sameOn own same).served (invariant.served otherCore)

/-! ## A thread is created -/

theorem findFreeCoreForThread_pinned {base : Scheduler.State cores}
    (pinned : (base.threadInfo thread).coreAffinity = fun other => decide (other = core)) :
    findFreeCoreForThread thread base = if base.coreThreadRunning core = none then some core else none := by
  rw [findFreeCoreForThread, pinned]
  split
  case isTrue free =>
    cases found : (List.finRange cores).find? fun other => decide (other = core) && (base.coreThreadRunning other).isNone with
    | some other =>
      have isCore := List.find?_some found
      rw [Bool.and_eq_true, decide_eq_true_eq] at isCore
      rw [isCore.1]
    | none =>
      have refused := List.find?_eq_none.mp found core (List.mem_finRange core)
      simp [free] at refused
  case isFalse occupied =>
    refine List.find?_eq_none.mpr fun other _ => ?_
    rw [Bool.and_eq_true, decide_eq_true_eq]
    rintro ⟨rfl, free⟩
    exact occupied (Option.isNone_iff_eq_none.mp free)

def createdInfo (core : Fin cores) (running : Option (Fin cores)) : ThreadInfo cores :=
  { ThreadInfo.new.clearAffinity.addAffinity core with explicitAffinity := true, coreRunning := running }

theorem createdInfo_coreAffinity (core : Fin cores) (running : Option (Fin cores)) :
    (createdInfo core running).coreAffinity = fun other => decide (other = core) := by
  funext other
  by_cases same : other = core
  · rw [same, decide_eq_true rfl]
    exact Function.update_self ..
  · rw [decide_eq_false same]
    exact Function.update_of_ne same ..

def createdBase (state : State cores) (core : Fin cores) (running : Option (Fin cores)) : Scheduler.State cores :=
  { state.base with
    numThreads := state.base.numThreads + 1
    status := Function.update state.base.status state.base.numThreads .initializing
    infoSize := if state.base.infoSize ≤ state.base.numThreads then state.base.infoSize + 16 else state.base.infoSize
    threadInfo := Function.update state.base.threadInfo state.base.numThreads (createdInfo core running) }

/-- A thread that is created gets its core if that has no thread. -/
def createdState (quantum : UInt64) (state : State cores) (core : Fin cores) (seq : Int) : State cores :=
  { state with
    base :=
      if state.base.coreThreadRunning core = none then
        { createdBase state core (some core) with
          coreThreadRunning := Function.update state.base.coreThreadRunning core (some state.base.numThreads)
          quantumLeft := Function.update state.base.quantumLeft core quantum
          threadCore := Function.update state.base.threadCore state.base.numThreads (some core) }
      else createdBase state core none
    seqs := state.seqs.set core (seq - 1)
    currentPinballSet := if seq - 1 = 0 then core + 1 else core }

theorem threadCreate_eq (quantum : UInt64) {seq : Int} (isCore : state.currentPinballSet = core.val)
    (there : state.seqs[core.val]? = some seq) (fresh : state.base.threadInfo state.base.numThreads = .new) :
    threadCreate quantum state = .ok (createdState quantum state core seq) := by
  have unset : (ThreadInfo.new : ThreadInfo cores).hasAffinity = false := rfl
  have pinned : (createdBase state core none).threadInfo state.base.numThreads = createdInfo core none := Function.update_self ..
  have free : findFreeCoreForThread state.base.numThreads (createdBase state core none) =
      if state.base.coreThreadRunning core = none then some core else none :=
    findFreeCoreForThread_pinned (pinned ▸ createdInfo_coreAffinity core none)
  simp only [threadCreate, fresh, unset, Bool.false_eq_true, if_false, threadSetInitialAffinity, isCore, dif_pos core.isLt, there,
    setInfo, createdState]
  congr 2
  change createOn quantum state.base.numThreads (createdBase state core none) = _
  rw [createOn, free]
  by_cases isFree : state.base.coreThreadRunning core = none
  · simp only [isFree, if_true, setInfo, pinned]
    simp [createdBase, createdInfo]
  · simp only [isFree, if_false, setInfo, pinned]
    simp [createdBase, createdInfo]

section Created

variable {quantum : UInt64} {seq : Int}

theorem createdState_numThreads : (createdState quantum state core seq).base.numThreads = state.base.numThreads + 1 := by
  unfold createdState
  dsimp only
  split <;> rfl

theorem createdState_status : (createdState quantum state core seq).base.status =
    Function.update state.base.status state.base.numThreads .initializing := by
  unfold createdState
  dsimp only
  split <;> rfl

theorem createdState_threadsRunnable :
    (createdState quantum state core seq).base.threadsRunnable = state.base.threadsRunnable := by
  unfold createdState
  dsimp only
  split <;> rfl

theorem createdState_threadCore : (createdState quantum state core seq).base.threadCore =
    if state.base.coreThreadRunning core = none then Function.update state.base.threadCore state.base.numThreads (some core)
    else state.base.threadCore := by
  unfold createdState
  dsimp only
  split <;> rfl

theorem createdState_coreThreadRunning : (createdState quantum state core seq).base.coreThreadRunning =
    if state.base.coreThreadRunning core = none then
      Function.update state.base.coreThreadRunning core (some state.base.numThreads)
    else state.base.coreThreadRunning := by
  unfold createdState
  dsimp only
  split <;> rfl

theorem createdState_threadInfo : (createdState quantum state core seq).base.threadInfo =
    Function.update state.base.threadInfo state.base.numThreads
      (createdInfo core (if state.base.coreThreadRunning core = none then some core else none)) := by
  unfold createdState
  dsimp only
  split <;> rfl

theorem createdState_sizes (sizes : Sizes state.base) : Sizes (createdState quantum state core seq).base := by
  have infoSize : (createdState quantum state core seq).base.infoSize =
      if state.base.infoSize ≤ state.base.numThreads then state.base.infoSize + 16 else state.base.infoSize := by
    unfold createdState
    dsimp only
    split <;> rfl
  have runnableSize : (createdState quantum state core seq).base.runnableSize = state.base.runnableSize := by
    unfold createdState
    dsimp only
    split <;> rfl
  have numThreads : (createdState quantum state core seq).base.numThreads = state.base.numThreads + 1 := createdState_numThreads
  obtain ⟨info, runnable, fits, empty, enough, started⟩ := sizes
  constructor
  case info =>
    rw [infoSize]
    split <;> omega
  case runnable => rw [runnableSize]; exact runnable
  case created => split at infoSize <;> omega
  case empty => omega
  case enough =>
    obtain none_ | some_ := Nat.eq_zero_or_pos state.base.numThreads
    · have small := empty none_
      split at infoSize <;> omega
    · have before := enough some_
      split at infoSize <;> omega
  case started =>
    intro other created notInitializing
    rw [createdState_status] at notInitializing
    have isOther : other ≠ state.base.numThreads := by
      rintro rfl
      exact notInitializing (Function.update_self ..)
    rw [Function.update_of_ne isOther] at notInitializing
    rw [runnableSize]
    exact started other (by omega) notInitializing

theorem Cursor.setOf_next (cursor : Cursor seqs state) (isCore : state.currentPinballSet = core.val)
    (there : state.seqs[core.val]? = some seq) (some_ : 0 < seq) : setOf seqs state.base.numThreads = some core.val := by
  have inside : core.val < state.seqs.length := (List.getElem?_eq_some_iff.mp there).1
  have left := cursor.left seq (isCore ▸ there)
  have reached := cursor.reached
  rw [isCore] at left reached
  refine setOf_eq_some.mpr ⟨cursor.length ▸ inside, by omega, fun earlier before => ?_⟩
  have passed := cursor.passed (earlier + 1) (by omega)
  rw [isCore] at passed
  exact Int.le_trans passed reached

theorem Cursor.created (cursor : Cursor seqs state) (isCore : state.currentPinballSet = core.val)
    (there : state.seqs[core.val]? = some seq) : Cursor seqs (createdState quantum state core seq) := by
  have inside : core.val < state.seqs.length := (List.getElem?_eq_some_iff.mp there).1
  obtain ⟨length, passed, reached, left, ahead⟩ := cursor
  have isLeft := left seq (isCore ▸ there)
  rw [isCore] at passed reached isLeft ahead
  have seqs_eq : (createdState quantum state core seq).seqs = state.seqs.set core (seq - 1) := rfl
  by_cases empty : seq - 1 = 0
  · have current : (createdState quantum state core seq).currentPinballSet = core.val + 1 := if_pos empty
    constructor
    case length => rw [seqs_eq, List.length_set, length]
    case passed =>
      intro set below
      rw [current] at below ⊢
      obtain before | rfl := Nat.lt_or_eq_of_le below
      · have lower := passed set (Nat.le_of_lt_succ before)
        omega
      · exact Int.le_refl _
    case reached =>
      rw [current, createdState_numThreads, isLeft]
      omega
    case left =>
      intro next there'
      rw [current, seqs_eq, List.getElem?_set_ne (by omega), ahead _ (by omega)] at there'
      rw [current, firstOf_succ there', isLeft, createdState_numThreads]
      omega
    case ahead =>
      intro set beyond
      rw [current] at beyond
      rw [seqs_eq, List.getElem?_set_ne (by omega), ahead _ (by omega)]
  · have current : (createdState quantum state core seq).currentPinballSet = core.val := if_neg empty
    constructor
    case length => rw [seqs_eq, List.length_set, length]
    case passed =>
      intro set below
      rw [current] at below ⊢
      exact passed set below
    case reached =>
      rw [current, createdState_numThreads]
      omega
    case left =>
      intro next there'
      rw [current, seqs_eq, List.getElem?_set_self inside, Option.some.injEq] at there'
      rw [current, isLeft, createdState_numThreads]
      omega
    case ahead =>
      intro set beyond
      rw [current] at beyond
      rw [seqs_eq, List.getElem?_set_ne (by omega), ahead _ beyond]

theorem Cursor.first (cursor : Cursor seqs state) (isCore : state.currentPinballSet = core.val)
    (there : state.seqs[core.val]? = some seq) (some_ : 0 < seq)
    (none_created : ∀ thread, setOf seqs thread = some core.val → state.base.numThreads ≤ thread) :
    firstOf seqs core = state.base.numThreads := by
  have own := cursor.setOf_next isCore there some_
  have reached := cursor.reached
  have start := cursor.passed 0 (Nat.zero_le _)
  rw [isCore] at reached start
  have zero : firstOf seqs 0 = 0 := rfl
  by_contra later
  obtain ⟨inside, below, -⟩ := setOf_eq_some.mp own
  have previous : setOf seqs (state.base.numThreads - 1) = some core.val := by
    refine setOf_eq_some.mpr ⟨inside, by omega, fun earlier before => ?_⟩
    have passed := cursor.passed (earlier + 1) (by omega)
    rw [isCore] at passed
    omega
  have created := none_created _ previous
  omega

theorem createdState_sameOn (own : setOf seqs state.base.numThreads = some core.val) {otherCore : Fin cores}
    (apart : otherCore ≠ core) : SameOn seqs otherCore state (createdState quantum state core seq) where
  running := by
    rw [createdState_coreThreadRunning]
    split
    · exact Function.update_of_ne apart ..
    · rfl
  waiting := rfl
  nextThread := rfl
  created thread own' := by
    have differs := other_core own apart own'
    rw [createdState_numThreads]
    omega
  status thread own' := by
    rw [createdState_status]
    exact Function.update_of_ne (other_core own apart own') ..
  placed thread own' := by
    rw [createdState_threadCore]
    split
    · exact Function.update_of_ne (other_core own apart own') ..
    · rfl
  runnable _ _ := by rw [createdState_threadsRunnable]

theorem Unused.created (unused : Unused seqs state core) (own : setOf seqs state.base.numThreads = some core.val)
    (isFirst : firstOf seqs core = state.base.numThreads) (fresh : Away state state.base.numThreads) :
    Busy seqs (createdState quantum state core seq) core state.base.numThreads where
  running := by
    rw [createdState_coreThreadRunning, if_pos unused.free]
    exact Function.update_self ..
  created := by
    rw [createdState_numThreads]
    exact Nat.lt_succ_self _
  own := own
  earlier before lower own' := absurd lower (Nat.not_lt.mpr (unused.none_created before own'))
  later after upper created _ := by
    rw [createdState_numThreads] at created
    omega
  waiting other := by
    have none_waits : (createdState quantum state core seq).coreWaitingThreads core = [] := unused.empty
    rw [none_waits]
    refine ⟨fun member => absurd member List.not_mem_nil, fun ⟨upper, _, created, _⟩ => ?_⟩
    rw [createdState_numThreads] at created
    omega
  nodup := by
    have none_waits : (createdState quantum state core seq).coreWaitingThreads core = [] := unused.empty
    rw [none_waits]
    exact List.nodup_nil
  current := by
    refine .initializing ?_ (unused.nextThread.trans isFirst) ?_ ?_
    · rw [createdState_status]
      exact Function.update_self ..
    · rw [createdState_threadsRunnable]
      exact fresh.waits
    · rw [createdState_threadCore, if_pos unused.free]
      exact Function.update_self ..

theorem Busy.follows (busy : Busy seqs state core thread) (fresh : Away state state.base.numThreads) :
    Busy seqs (createdState quantum state core seq) core thread := by
  have occupied : state.base.coreThreadRunning core ≠ none := by simp [busy.running]
  have running : (createdState quantum state core seq).base.coreThreadRunning = state.base.coreThreadRunning := by
    rw [createdState_coreThreadRunning, if_neg occupied]
  have placed : (createdState quantum state core seq).base.threadCore = state.base.threadCore := by
    rw [createdState_threadCore, if_neg occupied]
  have runnable : (createdState quantum state core seq).base.threadsRunnable = state.base.threadsRunnable :=
    createdState_threadsRunnable
  have numThreads : (createdState quantum state core seq).base.numThreads = state.base.numThreads + 1 := createdState_numThreads
  have status {other : Nat} (differs : other ≠ state.base.numThreads) :
      (createdState quantum state core seq).base.status other = state.base.status other := by
    rw [createdState_status]
    exact Function.update_of_ne differs ..
  have initializing : (createdState quantum state core seq).base.status state.base.numThreads = .initializing := by
    rw [createdState_status]
    exact Function.update_self ..
  have away {other : Nat} (gone : Away state other) : Away (createdState quantum state core seq) other :=
    ⟨by rw [placed]; exact gone.nowhere, by rw [runnable]; exact gone.waits⟩
  have differs : thread ≠ state.base.numThreads := Nat.ne_of_lt busy.created
  constructor
  case running => rw [running]; exact busy.running
  case created => rw [numThreads]; exact Nat.lt_succ_of_lt busy.created
  case own => exact busy.own
  case earlier =>
    intro before lower own'
    obtain ⟨gone, idle⟩ := busy.earlier before lower own'
    exact ⟨away gone, (status (Nat.ne_of_lt (Nat.lt_trans lower busy.created))).trans idle⟩
  case later =>
    intro after upper created own'
    rw [numThreads] at created
    obtain old | rfl := Nat.lt_or_eq_of_le (Nat.le_of_lt_succ created)
    · obtain ⟨gone, status'⟩ := busy.later after upper old own'
      rw [status (Nat.ne_of_lt old)]
      exact ⟨away gone, status'⟩
    · exact ⟨away fresh, .inl initializing⟩
  case waiting =>
    intro other
    refine (busy.waiting other).trans (and_congr_right fun _ => and_congr_right fun _ => ?_)
    by_cases new : other = state.base.numThreads
    · subst new
      exact ⟨fun started => absurd started.1 (Nat.lt_irrefl _), fun started => absurd initializing started.2⟩
    · rw [Started, Started, numThreads, status new]
      exact and_congr_left fun _ => by omega
  case nodup => exact busy.nodup
  case current =>
    have isStatus := status differs
    cases busy.current with
    | initializing status' nextThread waits here =>
      exact .initializing (isStatus.trans status') nextThread (by rw [runnable]; exact waits) (by rw [placed]; exact here)
    | running status' nextThread scheduled =>
      exact .running (isStatus.trans status') nextThread
        ⟨by rw [runnable]; exact scheduled.runnable, by rw [running]; exact scheduled.running,
          by rw [placed]; exact scheduled.placed⟩
    | last status' isLast gone => exact .last (isStatus.trans status') isLast (away gone)

theorem Invariant.threadCreate (invariant : Invariant seqs state) (same : seqs.length = cores)
    (there : state.seqs[state.currentPinballSet]? = some seq) (some_ : 0 < seq) :
    ∃ next, threadCreate quantum state = .ok next ∧ Invariant seqs next := by
  have inside : state.currentPinballSet < cores := by
    have within := (List.getElem?_eq_some_iff.mp there).1
    rw [invariant.cursor.length, same] at within
    exact within
  obtain ⟨core, isCore⟩ : ∃ core : Fin cores, state.currentPinballSet = core.val := ⟨⟨_, inside⟩, rfl⟩
  rw [isCore] at there
  obtain ⟨info, fresh⟩ := invariant.fresh state.base.numThreads (Nat.le_refl _)
  have own := invariant.cursor.setOf_next isCore there some_
  have threadInfo : (createdState quantum state core seq).base.threadInfo = _ := createdState_threadInfo
  refine ⟨_, threadCreate_eq quantum isCore there info, ?_⟩
  constructor
  case cursor => exact invariant.cursor.created isCore there
  case sizes => exact createdState_sizes invariant.sizes
  case pinned =>
    intro thread created
    rw [createdState_numThreads] at created
    rw [threadInfo]
    obtain old | rfl := Nat.lt_or_eq_of_le (Nat.le_of_lt_succ created)
    · rw [Function.update_of_ne (Nat.ne_of_lt old)]
      exact invariant.pinned thread old
    · rw [Function.update_self]
      exact ⟨core, own, createdInfo_coreAffinity core _⟩
  case fresh =>
    intro thread isFresh
    rw [createdState_numThreads] at isFresh
    have differs : thread ≠ state.base.numThreads := by omega
    obtain ⟨info', away⟩ := invariant.fresh thread (by omega)
    rw [threadInfo, Function.update_of_ne differs]
    refine ⟨info', ?_, by rw [createdState_threadsRunnable]; exact away.waits⟩
    rw [createdState_threadCore]
    split
    · rw [Function.update_of_ne differs]
      exact away.nowhere
    · exact away.nowhere
  case inverse =>
    intro other thread
    have old := invariant.inverse other thread
    rw [threadInfo, createdState_coreThreadRunning]
    by_cases new : thread = state.base.numThreads
    · subst new
      rw [info] at old
      have nowhere : state.base.coreThreadRunning other ≠ some state.base.numThreads := fun runs => nomatch old.mp runs
      rw [Function.update_self, createdInfo]
      split
      case isTrue free =>
        by_cases here : other = core
        · simp [here]
        · simp [Function.update_of_ne here, nowhere, Ne.symm here]
      case isFalse occupied => simp [nowhere]
    · rw [Function.update_of_ne new, ← old]
      split
      case isTrue free =>
        by_cases here : other = core
        · simp [here, free, Ne.symm new]
        · rw [Function.update_of_ne here]
      case isFalse occupied => exact Iff.rfl
  case served =>
    intro otherCore
    by_cases isThis : otherCore = core
    · subst isThis
      obtain unused | ⟨thread, busy⟩ := invariant.served otherCore
      · exact .inr ⟨_, unused.created own (invariant.cursor.first isCore there some_ unused.none_created) fresh⟩
      · exact .inr ⟨thread, busy.follows fresh⟩
    · exact (createdState_sameOn own isThis).served (invariant.served otherCore)

end Created

end Sniper.Scheduler.Sequential

import Sniper.Scheduler.SequentialSteps

/-! The order in which `SchedulerSequential` runs the threads of a set, one after the exit of the other. -/

namespace Sniper.Scheduler.Sequential

variable {cores : Nat} {seqs : List Int} {thread other : Nat} {state next : State cores} {core : Fin cores}

/-! ## A thread exits -/

section HandOver

variable {quantum time : UInt64} {base : Scheduler.State cores} {current following : Nat}

/-- The next thread of a core in the place of the one that has ended. -/
def handedBase (quantum time : UInt64) (core : Fin cores) (following : Nat) (base : Scheduler.State cores) : Scheduler.State cores :=
  let placed := place time core following (unschedule time core base)
  returned core (renewQuantum quantum core
    { markResumed following placed with threadCore := Function.update placed.threadCore following (some core) })

structure Ready (base : Scheduler.State cores) (core : Fin cores) (current following : Nat) : Prop where
  running : base.coreThreadRunning core = some current
  ended : base.status current = .idle
  sizes : base.runnableSize ≤ base.infoSize
  differs : following ≠ current
  stopped : (base.threadInfo following).coreRunning = none
  nowhere : base.threadCore following = none
  stalled : base.status following = .stalled true
  pinned : (base.threadInfo following).coreAffinity = fun other => decide (other = core)

variable (ready : Ready base core current following)
include ready

theorem Ready.unschedule_eq : unschedule time core base =
    { setInfo current (fun info => { info with coreRunning := none, lastScheduledOut := time + UInt64.ofNat (1000 * core) }) base with
      threadCore := Function.update base.threadCore current none } := by
  rw [unschedule, ready.running]
  rfl

theorem Ready.info_following : (unschedule time core base).threadInfo following = base.threadInfo following := by
  rw [ready.unschedule_eq]
  exact Function.update_of_ne ready.differs ..

theorem Ready.placed_eq : place time core following (unschedule time core base) =
    { base with
      coreThreadRunning := Function.update base.coreThreadRunning core (some following)
      threadInfo := Function.update (unschedule time core base).threadInfo following
        { base.threadInfo following with coreRunning := some core, lastScheduledIn := time }
      threadCore := Function.update base.threadCore current none
      log := .placed core following true (base.threadsRunnable following) :: base.log } := by
  have info : (unschedule time core base).threadInfo following = base.threadInfo following := ready.info_following
  have allowed : (base.threadInfo following).coreAffinity core = true := by
    rw [ready.pinned]
    exact decide_eq_true rfl
  simp only [place, setInfo, info, ready.stopped, Function.update_self, allowed]
  rw [ready.unschedule_eq]
  rfl

theorem Ready.reschedule_eq (selected : selectThread base time core = some following) :
    reschedule quantum time core base = .ok (handedBase quantum time core following base) := by
  have initialized : (base.coreThreadRunning core).any (fun thread => base.status thread == .initializing) = false := by
    simp [ready.running, ready.ended]
  have changes : base.coreThreadRunning core ≠ some following := by
    rw [ready.running]
    exact fun same => ready.differs (Option.some.inj same).symm
  have nowhere : (place time core following (unschedule time core base)).threadCore following = none := by
    rw [ready.placed_eq]
    exact (Function.update_of_ne ready.differs ..).trans ready.nowhere
  have stalled : (place time core following (unschedule time core base)).status following = .stalled true := by
    rw [ready.placed_eq]
    exact ready.stalled
  have occupied : findFreeCoreForThread following (markResumed following (place time core following (unschedule time core base))) =
      none := by
    have running : (place time core following (unschedule time core base)).coreThreadRunning core = some following := by
      rw [ready.placed_eq]
      exact Function.update_self ..
    have pinned : ((place time core following (unschedule time core base)).threadInfo following).coreAffinity =
        fun other => decide (other = core) := by
      rw [ready.placed_eq]
      simpa using ready.pinned
    have resumed : ((markResumed following (place time core following (unschedule time core base))).threadInfo following).coreAffinity =
        fun other => decide (other = core) := pinned
    rw [findFreeCoreForThread_pinned resumed]
    exact if_neg (by simp [markResumed, running])
  have resumes : (place time core following (unschedule time core base)).threadCore following = none ∧
      (place time core following (unschedule time core base)).status following = .stalled true := ⟨nowhere, stalled⟩
  simp only [reschedule, rescheduleWithin, initialized, Bool.false_eq_true, if_false, Nat.not_lt.mpr ready.sizes, selected, changes,
    moveThread, resumes, and_self, if_true, occupied]
  rfl

theorem Ready.handedBase_eq : handedBase quantum time core following base =
    { base with
      coreThreadRunning := Function.update base.coreThreadRunning core (some following)
      threadInfo := Function.update (unschedule time core base).threadInfo following
        { base.threadInfo following with coreRunning := some core, lastScheduledIn := time }
      threadCore := Function.update (Function.update base.threadCore current none) following (some core)
      status := Function.update base.status following .running
      threadsRunnable := Function.update base.threadsRunnable following true
      quantumLeft := (handedBase quantum time core following base).quantumLeft
      log := (handedBase quantum time core following base).log } := by
  simp only [handedBase, returned, renewQuantum, markResumed, ready.placed_eq]

theorem Ready.handed_coreAffinity (thread : Nat) :
    ((handedBase quantum time core following base).threadInfo thread).coreAffinity = (base.threadInfo thread).coreAffinity := by
  rw [ready.handedBase_eq]
  dsimp only
  by_cases next : thread = following
  · rw [next, Function.update_self]
  · rw [Function.update_of_ne next, ready.unschedule_eq]
    by_cases ended : thread = current
    · rw [ended]
      simp [setInfo]
    · exact congrArg ThreadInfo.coreAffinity (Function.update_of_ne ended ..)

theorem Ready.handed_coreRunning (thread : Nat) :
    ((handedBase quantum time core following base).threadInfo thread).coreRunning =
      if thread = following then some core else if thread = current then none else (base.threadInfo thread).coreRunning := by
  rw [ready.handedBase_eq]
  dsimp only
  by_cases next : thread = following
  · rw [next, Function.update_self, if_pos rfl]
  · rw [Function.update_of_ne next, if_neg next, ready.unschedule_eq]
    by_cases ended : thread = current
    · rw [ended, if_pos rfl]
      simp [setInfo]
    · rw [if_neg ended]
      exact congrArg ThreadInfo.coreRunning (Function.update_of_ne ended ..)

end HandOver

/-- A thread has ended, and nothing else has happened. -/
def endedState (time : UInt64) (thread : Nat) (state : State cores) : State cores :=
  { state with
    base := setInfo thread (fun info => { info with lastScheduledOut := time })
      { state.base with
        status := Function.update state.base.status thread .idle
        threadCore := Function.update state.base.threadCore thread none
        threadsRunnable := Function.update state.base.threadsRunnable thread false } }

def resumedBase (time : UInt64) (thread : Nat) (state : State cores) : Scheduler.State cores :=
  { (endedState time thread state).base with
    threadsRunnable := Function.update (endedState time thread state).base.threadsRunnable (thread + 1) true }

def handedState (quantum time : UInt64) (core : Fin cores) (thread : Nat) (state : State cores) : State cores :=
  { state with
    base := handedBase quantum time core (thread + 1) (resumedBase time thread state)
    coreWaitingThreads := Function.update state.coreWaitingThreads core ((state.coreWaitingThreads core).erase (thread + 1))
    nextThreadToExecute := Function.update state.nextThreadToExecute core (state.nextThreadToExecute core + 1) }

structure Exits (state : State cores) (core : Fin cores) (thread : Nat) : Prop where
  created : thread < state.base.numThreads
  placed : state.base.threadCore thread ≠ none
  running : state.base.status thread = .running
  within : thread < state.base.runnableSize
  pinned : (state.base.threadInfo thread).coreAffinity = fun other => decide (other = core)

theorem Exits.threadExit_eq (exits : Exits state core thread) (quantum time : UInt64) :
    threadExit quantum time thread state = schedulerExit quantum time thread
      { state with base := { state.base with
          status := Function.update state.base.status thread .idle
          threadCore := Function.update state.base.threadCore thread none
          threadsRunnable := Function.update state.base.threadsRunnable thread false } } := by
  have placed : (state.base.threadCore thread).isNone = false := by
    obtain ⟨home, there⟩ := Option.ne_none_iff_exists'.mp exits.placed
    rw [there]
    rfl
  rw [threadExit, if_neg (Nat.not_le.mpr exits.created), placed, if_neg Bool.false_ne_true, if_neg (not_not.mpr exits.running),
    if_neg (Nat.not_le.mpr exits.within)]

theorem Exits.last (exits : Exits state core thread) (quantum time : UInt64) (empty : state.coreWaitingThreads core = []) :
    threadExit quantum time thread state = .ok (endedState time thread state) := by
  rw [exits.threadExit_eq]
  simp only [schedulerExit, affinityCore_of_pinned exits.pinned, empty]
  rfl

theorem Exits.handsOver (exits : Exits state core thread) {quantum time : UInt64}
    (first : (state.coreWaitingThreads core).min? = some (thread + 1)) (expected : state.nextThreadToExecute core = thread + 1)
    (ready : Ready (resumedBase time thread state) core thread (thread + 1))
    (selected : selectThread (resumedBase time thread state) time core = some (thread + 1)) :
    threadExit quantum time thread state = .ok (handedState quantum time core thread state) := by
  have rescheduled : reschedule quantum time core (resumedBase time thread state) =
      .ok (handedBase quantum time core (thread + 1) (resumedBase time thread state)) := ready.reschedule_eq selected
  have isNext : ((thread + 1 : Nat) : Int) = state.nextThreadToExecute core := by
    rw [expected]
    rfl
  simp only [resumedBase, endedState] at rescheduled
  rw [exits.threadExit_eq]
  simp only [schedulerExit, affinityCore_of_pinned exits.pinned, first, isNext, ne_eq, not_true_eq_false, if_false, rescheduled]
  rfl

theorem Sizes.same {base base' : Scheduler.State cores} (sizes : Sizes base) (numThreads : base'.numThreads = base.numThreads)
    (infoSize : base'.infoSize = base.infoSize) (runnableSize : base'.runnableSize = base.runnableSize)
    (status : ∀ thread, base'.status thread ≠ .initializing → base.status thread ≠ .initializing) : Sizes base' := by
  obtain ⟨info, runnable, created, empty, enough, started⟩ := sizes
  refine ⟨infoSize ▸ info, runnableSize ▸ runnable, by omega, fun none_ => by omega, fun some_ => by omega, ?_⟩
  intro thread isCreated notInitializing
  have reach := started thread (by omega) (status thread notInitializing)
  omega

section Ended

variable {time : UInt64}

theorem endedState_coreAffinity (thread other : Nat) : ((endedState time thread state).base.threadInfo other).coreAffinity =
    (state.base.threadInfo other).coreAffinity := by
  by_cases same : other = thread
  · simp [same, endedState, setInfo]
  · exact congrArg ThreadInfo.coreAffinity (Function.update_of_ne same ..)

theorem endedState_coreRunning (thread other : Nat) : ((endedState time thread state).base.threadInfo other).coreRunning =
    (state.base.threadInfo other).coreRunning := by
  by_cases same : other = thread
  · simp [same, endedState, setInfo]
  · exact congrArg ThreadInfo.coreRunning (Function.update_of_ne same ..)

theorem endedState_sameOn (own : setOf seqs thread = some core.val) {otherCore : Fin cores} (apart : otherCore ≠ core) :
    SameOn seqs otherCore state (endedState time thread state) where
  running := rfl
  waiting := rfl
  nextThread := rfl
  created _ _ := Iff.rfl
  status _ own' := Function.update_of_ne (other_core own apart own') ..
  placed _ own' := Function.update_of_ne (other_core own apart own') ..
  runnable _ own' := Function.update_of_ne (other_core own apart own') ..

theorem endedState_away (thread : Nat) : Away (endedState time thread state) thread :=
  ⟨Function.update_self .., Function.update_self ..⟩

theorem endedState_away_of_ne (apart : other ≠ thread) (away : Away state other) : Away (endedState time thread state) other :=
  ⟨(Function.update_of_ne apart ..).trans away.nowhere, (Function.update_of_ne apart ..).trans away.waits⟩

theorem Busy.ends (busy : Busy seqs state core thread) (isLast : setOf seqs (thread + 1) ≠ some core.val) :
    Busy seqs (endedState time thread state) core thread where
  running := busy.running
  created := busy.created
  own := busy.own
  earlier before lower own := by
    obtain ⟨away, idle⟩ := busy.earlier before lower own
    exact ⟨endedState_away_of_ne (Nat.ne_of_lt lower) away, (Function.update_of_ne (Nat.ne_of_lt lower) ..).trans idle⟩
  later after upper _ own := absurd (setOf_between busy.own own (Nat.le_succ thread) upper) isLast
  waiting other := by
    refine (busy.waiting other).trans (and_congr_right fun upper => and_congr_right fun _ => ?_)
    have started : Started (endedState time thread state) other ↔ Started state other :=
      started_of_ne (Nat.ne_of_gt upper) rfl rfl
    exact started.symm
  nodup := busy.nodup
  current := .last (Function.update_self ..) isLast (endedState_away thread)

theorem Invariant.ended (invariant : Invariant seqs state) (busy : Busy seqs state core thread)
    (running : state.base.status thread = .running) (isLast : setOf seqs (thread + 1) ≠ some core.val) :
    Invariant seqs (endedState time thread state) where
  cursor := invariant.cursor.same rfl rfl rfl
  sizes := by
    refine invariant.sizes.same rfl rfl rfl fun other notInitializing => ?_
    by_cases same : other = thread
    · simp [same, running]
    · have status : (endedState time thread state).base.status other = state.base.status other := Function.update_of_ne same ..
      rw [← status]
      exact notInitializing
  pinned other created := by
    rw [endedState_coreAffinity]
    exact invariant.pinned other created
  fresh other isFresh := by
    have created := busy.created
    have apart : other ≠ thread := by
      rintro rfl
      exact absurd created (Nat.not_lt.mpr isFresh)
    obtain ⟨info, away⟩ := invariant.fresh other isFresh
    exact ⟨(Function.update_of_ne apart ..).trans info, endedState_away_of_ne apart away⟩
  inverse other thread' := by
    rw [endedState_coreRunning]
    exact invariant.inverse other thread'
  served otherCore := by
    by_cases same : otherCore = core
    · subst same
      exact .inr ⟨thread, busy.ends isLast⟩
    · exact (endedState_sameOn busy.own same).served (invariant.served otherCore)

variable {quantum : UInt64}

section Handed

variable (ready : Ready (resumedBase time thread state) core thread (thread + 1))
include ready

theorem handedState_numThreads : (handedState quantum time core thread state).base.numThreads = state.base.numThreads := by
  rw [handedState, ready.handedBase_eq]
  rfl

theorem handedState_coreThreadRunning : (handedState quantum time core thread state).base.coreThreadRunning =
    Function.update state.base.coreThreadRunning core (some (thread + 1)) := by
  rw [handedState, ready.handedBase_eq]
  rfl

theorem handedState_coreAffinity (other : Nat) : ((handedState quantum time core thread state).base.threadInfo other).coreAffinity =
    (state.base.threadInfo other).coreAffinity :=
  (ready.handed_coreAffinity other).trans (endedState_coreAffinity thread other)

theorem handedState_coreRunning (other : Nat) : ((handedState quantum time core thread state).base.threadInfo other).coreRunning =
    if other = thread + 1 then some core else if other = thread then none else (state.base.threadInfo other).coreRunning := by
  have info : ((handedBase quantum time core (thread + 1) (resumedBase time thread state)).threadInfo other).coreRunning = _ :=
    ready.handed_coreRunning other
  have ended : ((resumedBase time thread state).threadInfo other).coreRunning = (state.base.threadInfo other).coreRunning :=
    endedState_coreRunning thread other
  rw [ended] at info
  exact info

theorem handedState_threadInfo_of_ne (next : other ≠ thread + 1) (apart : other ≠ thread) :
    (handedState quantum time core thread state).base.threadInfo other = state.base.threadInfo other := by
  rw [handedState, ready.handedBase_eq]
  dsimp only
  rw [Function.update_of_ne next, ready.unschedule_eq]
  simp [setInfo, resumedBase, endedState, apart]

theorem handedState_status (other : Nat) : (handedState quantum time core thread state).base.status other =
    if other = thread + 1 then .running else if other = thread then .idle else state.base.status other := by
  rw [handedState, ready.handedBase_eq]
  dsimp only [resumedBase, endedState, setInfo]
  rw [Function.update_apply, Function.update_apply]

theorem handedState_threadCore (other : Nat) : (handedState quantum time core thread state).base.threadCore other =
    if other = thread + 1 then some core else if other = thread then none else state.base.threadCore other := by
  rw [handedState, ready.handedBase_eq]
  dsimp only [resumedBase, endedState, setInfo]
  rw [Function.update_idem, Function.update_apply, Function.update_apply]

theorem handedState_threadsRunnable (other : Nat) : (handedState quantum time core thread state).base.threadsRunnable other =
    if other = thread + 1 then true else if other = thread then false else state.base.threadsRunnable other := by
  rw [handedState, ready.handedBase_eq]
  dsimp only [resumedBase, endedState, setInfo]
  rw [Function.update_idem, Function.update_apply, Function.update_apply]

theorem handedState_sameOn (own : setOf seqs thread = some core.val) (ownNext : setOf seqs (thread + 1) = some core.val)
    {otherCore : Fin cores} (apart : otherCore ≠ core) : SameOn seqs otherCore state (handedState quantum time core thread state) where
  running := by
    rw [handedState_coreThreadRunning ready]
    exact Function.update_of_ne apart ..
  waiting := Function.update_of_ne apart ..
  nextThread := Function.update_of_ne apart ..
  created _ _ := by rw [handedState_numThreads ready]
  status _ own' := by
    rw [handedState_status ready, if_neg (other_core ownNext apart own'), if_neg (other_core own apart own')]
  placed _ own' := by
    rw [handedState_threadCore ready, if_neg (other_core ownNext apart own'), if_neg (other_core own apart own')]
  runnable _ own' := by
    rw [handedState_threadsRunnable ready, if_neg (other_core ownNext apart own'), if_neg (other_core own apart own')]

theorem handedState_away_of_ne (next : other ≠ thread + 1) (apart : other ≠ thread) (away : Away state other) :
    Away (handedState quantum time core thread state) other :=
  ⟨by rw [handedState_threadCore ready, if_neg next, if_neg apart, away.nowhere],
    by rw [handedState_threadsRunnable ready, if_neg next, if_neg apart, away.waits]⟩

theorem Busy.handed (busy : Busy seqs state core thread) (ownNext : setOf seqs (thread + 1) = some core.val)
    (started : Started state (thread + 1)) (expected : state.nextThreadToExecute core = thread + 1) :
    Busy seqs (handedState quantum time core thread state) core (thread + 1) := by
  have numThreads : (handedState quantum time core thread state).base.numThreads = state.base.numThreads :=
    handedState_numThreads ready
  have nextThread : (handedState quantum time core thread state).nextThreadToExecute core = thread + 1 + 1 := by
    rw [← expected]
    exact Function.update_self ..
  have waiting : (handedState quantum time core thread state).coreWaitingThreads core =
      (state.coreWaitingThreads core).erase (thread + 1) := Function.update_self ..
  have running : (handedState quantum time core thread state).base.coreThreadRunning core = some (thread + 1) := by
    rw [handedState_coreThreadRunning ready]
    exact Function.update_self ..
  constructor
  case running => exact running
  case created => rw [numThreads]; exact started.1
  case own => exact ownNext
  case earlier =>
    intro before lower own
    obtain earlier | rfl := Nat.lt_or_eq_of_le (Nat.le_of_lt_succ lower)
    · obtain ⟨away, idle⟩ := busy.earlier before earlier own
      have apart := Nat.ne_of_lt earlier
      rw [handedState_status ready, if_neg (Nat.ne_of_lt lower), if_neg apart]
      exact ⟨handedState_away_of_ne ready (Nat.ne_of_lt lower) apart away, idle⟩
    · have self := Nat.ne_of_lt lower
      rw [handedState_status ready, if_neg self, if_pos rfl]
      exact ⟨⟨by rw [handedState_threadCore ready, if_neg self, if_pos rfl],
        by rw [handedState_threadsRunnable ready, if_neg self, if_pos rfl]⟩, rfl⟩
  case later =>
    intro after upper created own
    rw [numThreads] at created
    have lower := Nat.lt_of_succ_lt upper
    obtain ⟨away, status⟩ := busy.later after lower created own
    rw [handedState_status ready, if_neg (Nat.ne_of_gt upper), if_neg (Nat.ne_of_gt lower)]
    exact ⟨handedState_away_of_ne ready (Nat.ne_of_gt upper) (Nat.ne_of_gt lower) away, status⟩
  case waiting =>
    intro other
    rw [waiting, busy.nodup.mem_erase_iff, busy.waiting other, Started, Started, numThreads, handedState_status ready]
    constructor
    · rintro ⟨notNext, upper, own, isStarted⟩
      rw [if_neg notNext, if_neg (Nat.ne_of_gt upper)]
      exact ⟨by omega, own, isStarted⟩
    · rintro ⟨upper, own, isStarted⟩
      rw [if_neg (Nat.ne_of_gt upper), if_neg (by omega)] at isStarted
      exact ⟨Nat.ne_of_gt upper, by omega, own, isStarted⟩
  case nodup =>
    rw [waiting]
    exact busy.nodup.erase _
  case current =>
    refine .running ?_ nextThread ⟨?_, running, ?_⟩
    · rw [handedState_status ready, if_pos rfl]
    · rw [handedState_threadsRunnable ready, if_pos rfl]
    · rw [handedState_threadCore ready, if_pos rfl]

theorem Invariant.handed (invariant : Invariant seqs state) (busy : Busy seqs state core thread)
    (isRunning : state.base.status thread = .running) (ownNext : setOf seqs (thread + 1) = some core.val)
    (started : Started state (thread + 1)) (expected : state.nextThreadToExecute core = thread + 1) :
    Invariant seqs (handedState quantum time core thread state) where
  cursor := invariant.cursor.same rfl rfl (handedState_numThreads ready)
  sizes := by
    have infoSize : (handedState quantum time core thread state).base.infoSize = state.base.infoSize := by
      rw [handedState, ready.handedBase_eq]
      rfl
    have runnableSize : (handedState quantum time core thread state).base.runnableSize = state.base.runnableSize := by
      rw [handedState, ready.handedBase_eq]
      rfl
    refine invariant.sizes.same (handedState_numThreads ready) infoSize runnableSize fun other notInitializing => ?_
    rw [handedState_status ready] at notInitializing
    by_cases next : other = thread + 1
    · rw [next]
      exact started.2
    · by_cases same : other = thread
      · simp [same, isRunning]
      · rw [if_neg next, if_neg same] at notInitializing
        exact notInitializing
  pinned other created := by
    rw [handedState_coreAffinity ready]
    have numThreads : (handedState quantum time core thread state).base.numThreads = state.base.numThreads :=
      handedState_numThreads ready
    exact invariant.pinned other (numThreads ▸ created)
  fresh other isFresh := by
    rw [handedState_numThreads ready] at isFresh
    have next : other ≠ thread + 1 := Nat.ne_of_gt (Nat.lt_of_lt_of_le started.1 isFresh)
    have apart : other ≠ thread := Nat.ne_of_gt (Nat.lt_of_lt_of_le busy.created isFresh)
    obtain ⟨info, away⟩ := invariant.fresh other isFresh
    exact ⟨(handedState_threadInfo_of_ne ready next apart).trans info, handedState_away_of_ne ready next apart away⟩
  inverse otherCore other := by
    have old := invariant.inverse otherCore other
    rw [handedState_coreThreadRunning ready, handedState_coreRunning ready]
    by_cases here : otherCore = core
    · subst here
      rw [Function.update_self]
      split
      case isTrue next => simp [next]
      case isFalse notNext =>
        split
        case isTrue same => simp [same]
        case isFalse apart =>
          rw [← old, busy.running, Option.some.injEq, Option.some.injEq]
          exact ⟨fun same => absurd same.symm notNext, fun same => absurd same.symm apart⟩
    · rw [Function.update_of_ne here]
      have elsewhere (own : setOf seqs other = some core.val) : state.base.coreThreadRunning otherCore ≠ some other := by
        intro runs
        have own' := (invariant.busy_of_running runs).own
        exact here (Fin.ext (Option.some.inj (own'.symm.trans own)))
      split
      case isTrue next =>
        subst next
        exact ⟨fun runs => absurd runs (elsewhere ownNext), fun same => absurd (Option.some.inj same).symm here⟩
      case isFalse =>
        split
        case isTrue same =>
          subst same
          exact ⟨fun runs => absurd runs (elsewhere busy.own), fun impossible => nomatch impossible⟩
        case isFalse => exact old
  served otherCore := by
    by_cases same : otherCore = core
    · subst same
      exact .inr ⟨thread + 1, busy.handed ready ownNext started expected⟩
    · exact (handedState_sameOn ready busy.own ownNext same).served (invariant.served otherCore)

end Handed

end Ended

theorem Invariant.ready (invariant : Invariant seqs state) (busy : Busy seqs state core thread) (time : UInt64)
    (ownNext : setOf seqs (thread + 1) = some core.val) (started : Started state (thread + 1)) :
    Ready (resumedBase time thread state) core thread (thread + 1) := by
  obtain ⟨created, notInitializing⟩ := started
  obtain ⟨away, status⟩ := busy.later (thread + 1) (Nat.lt_succ_self thread) created ownNext
  obtain ⟨home, own, pinned⟩ := invariant.pinned (thread + 1) created
  have isHome : home = core := Fin.ext (Option.some.inj (own.symm.trans ownNext))
  have differs : thread + 1 ≠ thread := Nat.succ_ne_self thread
  constructor
  case running => exact busy.running
  case ended => exact Function.update_self ..
  case sizes => exact invariant.sizes.enough (Nat.lt_of_le_of_lt (Nat.zero_le _) created)
  case differs => exact differs
  case stopped =>
    refine (endedState_coreRunning thread (thread + 1)).trans ?_
    by_contra runs
    obtain ⟨other, there⟩ := Option.ne_none_iff_exists'.mp runs
    have busy' := invariant.busy_of_running ((invariant.inverse other (thread + 1)).mpr there)
    have same : other = core := Fin.ext (Option.some.inj (busy'.own.symm.trans ownNext))
    subst same
    exact differs (Option.some.inj (busy'.running.symm.trans busy.running))
  case nowhere => exact (Function.update_of_ne differs ..).trans away.nowhere
  case stalled => exact (Function.update_of_ne differs ..).trans (status.resolve_left notInitializing)
  case pinned =>
    rw [← isHome]
    exact (endedState_coreAffinity thread (thread + 1)).trans pinned

theorem Invariant.selected (invariant : Invariant seqs state) (busy : Busy seqs state core thread) (time : UInt64)
    (ownNext : setOf seqs (thread + 1) = some core.val) (started : Started state (thread + 1)) :
    selectThread (resumedBase time thread state) time core = some (thread + 1) := by
  have ready := invariant.ready busy time ownNext started
  have runnable (other : Nat) : (resumedBase time thread state).threadsRunnable other =
      if other = thread + 1 then true else if other = thread then false else state.base.threadsRunnable other := by
    dsimp only [resumedBase, endedState, setInfo]
    rw [Function.update_apply, Function.update_apply]
  cases selected : selectThread (resumedBase time thread state) time core with
  | none =>
    have refused := selectThread_none selected (invariant.sizes.started (thread + 1) started.1 started.2)
    have allowed : eligible (resumedBase time thread state) core (thread + 1) = true := by
      simp only [eligible, ready.pinned, runnable, ThreadInfo.isRunning, ready.stopped]
      simp
    exact absurd (allowed.symm.trans refused) (by simp)
  | some other =>
    obtain ⟨allowed, mayRun, -⟩ := eligible_parts (selectThread_some selected)
    rw [runnable] at mayRun
    by_cases next : other = thread + 1
    · rw [next]
    · rw [if_neg next] at mayRun
      split at mayRun
      case isTrue => cases mayRun
      case isFalse apart =>
        have affinity : ((resumedBase time thread state).threadInfo other).coreAffinity =
            (state.base.threadInfo other).coreAffinity := endedState_coreAffinity thread other
        have notAway : ¬Away state other := fun away => absurd (mayRun.symm.trans away.waits) (by simp)
        have created := invariant.created_of_not_away notAway
        obtain ⟨home, own, pinned⟩ := invariant.pinned other created
        rw [affinity, pinned, decide_eq_true_eq] at allowed
        exact absurd (busy.same_thread (allowed ▸ own) created notAway) apart

theorem Invariant.threadExit (invariant : Invariant seqs state) (quantum time : UInt64)
    (isRunning : state.base.status thread = .running) (placed : state.base.threadCore thread ≠ none)
    (nextStarted : setOf seqs (thread + 1) = setOf seqs thread → Started state (thread + 1)) :
    ∃ next, threadExit quantum time thread state = .ok next ∧ Invariant seqs next := by
  obtain ⟨core, here⟩ := Option.ne_none_iff_exists'.mp placed
  have busy := invariant.busy_of_placed here
  obtain ⟨home, own, pinned⟩ := invariant.pinned thread busy.created
  have isHome : home = core := Fin.ext (Option.some.inj (own.symm.trans busy.own))
  subst isHome
  have within := invariant.sizes.started thread busy.created (by simp [isRunning])
  have exits : Exits state home thread := ⟨busy.created, placed, isRunning, within, pinned⟩
  by_cases ownNext : setOf seqs (thread + 1) = some home.val
  · have started := nextStarted (ownNext.trans own.symm)
    have expected : state.nextThreadToExecute home = thread + 1 := by
      cases busy.current with
      | initializing status => exact absurd (isRunning.symm.trans status) (by simp)
      | running _ nextThread => exact nextThread
      | last status => exact absurd (isRunning.symm.trans status) (by simp)
    have queued : thread + 1 ∈ state.coreWaitingThreads home :=
      (busy.waiting (thread + 1)).mpr ⟨Nat.lt_succ_self thread, ownNext, started⟩
    have first : (state.coreWaitingThreads home).min? = some (thread + 1) :=
      List.min?_eq_some_iff.mpr ⟨queued, fun other member => ((busy.waiting other).mp member).1⟩
    have ready := invariant.ready busy time ownNext started
    have selected := invariant.selected busy time ownNext started
    exact ⟨_, exits.handsOver first expected ready selected, invariant.handed ready busy isRunning ownNext started expected⟩
  · have empty : state.coreWaitingThreads home = [] := by
      refine List.eq_nil_iff_forall_not_mem.mpr fun other member => ?_
      obtain ⟨upper, own', -⟩ := (busy.waiting other).mp member
      exact ownNext (setOf_between own own' (Nat.le_succ thread) upper)
    exact ⟨_, exits.last quantum time empty, invariant.ended busy isRunning ownNext⟩

/-! ## Whole runs -/

theorem Invariant.step (invariant : Invariant seqs state) (same : seqs.length = cores) (quantum : UInt64) {label : Label}
    (orderly : Orderly state label) (hands : HandsOver seqs state label) :
    ∃ next, step quantum state label = .ok next ∧ Invariant seqs next := by
  cases label with
  | create =>
    obtain ⟨seq, there, some_⟩ := hands
    exact invariant.threadCreate same there some_
  | start thread => exact invariant.threadStart orderly.1 orderly.2 hands
  | exit thread time => exact invariant.threadExit quantum time orderly.2.1 orderly.2.2 hands

theorem Invariant.created {sequence : List Char} {start : State cores} (same : (parseSequence sequence).length = cores)
    (starts : create cores sequence = .ok start) : Invariant (parseSequence sequence) start := by
  rw [create_enough same, Except.ok.injEq] at starts
  subst starts
  constructor
  case cursor =>
    refine ⟨rfl, ?_, Int.le_refl 0, ?_, fun _ _ => rfl⟩
    · intro set below
      rw [Nat.le_zero.mp below]
    · intro seq there
      have isFirst : firstOf (parseSequence sequence) 1 = firstOf (parseSequence sequence) 0 + seq := firstOf_succ there
      exact isFirst
  case sizes =>
    exact ⟨⟨0, rfl⟩, ⟨1, rfl⟩, Nat.le_refl 0, fun _ => rfl, fun some_ => absurd some_ (Nat.lt_irrefl 0),
      fun thread created => absurd created (Nat.not_lt_zero thread)⟩
  case pinned => exact fun thread created => absurd created (Nat.not_lt_zero thread)
  case fresh => exact fun thread _ => ⟨rfl, rfl, rfl⟩
  case inverse => exact fun core thread => ⟨fun impossible => (nomatch impossible), fun impossible => (nomatch impossible)⟩
  case served => exact fun core => .inl ⟨rfl, fun thread _ => Nat.zero_le thread, rfl, rfl⟩

/-- Threads that start once and exit once from their core, with the next thread of their set started. -/
def Allowed (seqs : List Int) (state : State cores) (label : Label) : Prop := Orderly state label ∧ HandsOver seqs state label

/-- Each set has its core: every set is run in order, and no step fails. -/
theorem runs_in_order {sequence : List Char} (enough : (parseSequence sequence).length ≤ cores) (quantum : UInt64) :
    ((∃ start : State cores, create cores sequence = .ok start) ↔ (parseSequence sequence).length = cores) ∧
    ∀ state, (machine quantum cores sequence).Reach (Allowed (parseSequence sequence)) state →
      InOrder (parseSequence sequence) state ∧
      ∀ label, Allowed (parseSequence sequence) state label → ∃ next, step quantum state label = .ok next := by
  have built : (∃ start : State cores, create cores sequence = .ok start) ↔ (parseSequence sequence).length = cores := by
    constructor
    · intro starts
      obtain ⟨start, created⟩ := starts
      by_contra fewer
      have fails := create_few (Nat.lt_of_le_of_ne enough fewer)
      exact absurd (created.symm.trans fails) (by simp)
    · intro same
      exact ⟨_, create_enough same⟩
  refine ⟨built, fun state reached => ?_⟩
  have kept : (parseSequence sequence).length = cores ∧ Invariant (parseSequence sequence) state := by
    refine reached.invariant (fun state => (parseSequence sequence).length = cores ∧ Invariant (parseSequence sequence) state) ?_ ?_
    · intro start starts
      have same := built.mp ⟨start, starts⟩
      exact ⟨same, Invariant.created same starts⟩
    · intro state label next before allowed stepped
      obtain ⟨same, invariant⟩ := before
      obtain ⟨next', stepped', kept⟩ := invariant.step same quantum allowed.1 allowed.2
      cases stepped.symm.trans stepped'
      exact ⟨same, kept⟩
  obtain ⟨same, invariant⟩ := kept
  refine ⟨invariant.inOrder, fun label allowed => ?_⟩
  obtain ⟨next, stepped, -⟩ := invariant.step same quantum allowed.1 allowed.2
  exact ⟨next, stepped⟩

/-- One set of two threads: the second takes over the core when the first exits. -/
theorem runs_in_order_handOver :
    ∃ state : State 1, (machine 0 1 ['2']).Reach (Allowed (parseSequence ['2'])) state ∧ Exited state 0 ∧
      Scheduled state 0 1 ∧ InOrder (parseSequence ['2']) state := by
  have first : (machine 0 1 ['2']).Reach (Allowed (parseSequence ['2'])) _ :=
    .step .create (.initial rfl) ⟨trivial, 2, rfl, by decide⟩ rfl
  have both := first.step Label.create ⟨trivial, 1, rfl, by decide⟩ rfl
  have runs := both.step (Label.start 0) ⟨⟨by decide, rfl⟩, Nat.lt_add_left _ (by decide)⟩ rfl
  have waits := runs.step (Label.start 1) ⟨⟨by decide, rfl⟩, Nat.lt_add_left _ (by decide)⟩ rfl
  have handed := waits.step (Label.exit 0 0) ⟨⟨by decide, rfl, by decide⟩, fun _ => ⟨by decide, by decide⟩⟩ rfl
  exact ⟨_, handed, ⟨by decide, rfl⟩, ⟨rfl, rfl, rfl⟩, ((runs_in_order (by decide) 0).2 _ handed).1⟩

/-- Fewer sets than cores, and a thread that exits before the next one has started. -/
theorem exit_before_start :
    create 2 ['1'] = .error .outsideSeqs ∧
    ∃ state : State 1, (machine 0 1 ['2']).Reach Orderly state ∧ ¬InOrder (parseSequence ['2']) state := by
  constructor
  · exact create_few (by decide)
  · have created : (machine 0 1 ['2']).Reach Orderly _ := .step .create (.step .create (.initial rfl) trivial rfl) trivial rfl
    have exited : (machine 0 1 ['2']).Reach Orderly _ :=
      .step (.exit 0 0) (.step (.start 0) created ⟨by decide, rfl⟩ rfl) ⟨by decide, rfl, by decide⟩ rfl
    have queued : (machine 0 1 ['2']).Reach Orderly _ := .step (.start 1) exited ⟨by decide, rfl⟩ rfl
    refine ⟨_, queued, fun inOrder => ?_⟩
    have handed := inOrder.handed 0 0 rfl rfl ⟨by decide, rfl⟩ ⟨by decide, by decide⟩
    obtain ⟨-, idle⟩ | scheduled := handed
    · exact absurd idle (by decide)
    · exact absurd scheduled.runnable (by decide)

end Sniper.Scheduler.Sequential

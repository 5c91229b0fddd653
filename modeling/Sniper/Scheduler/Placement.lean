import Sniper.Scheduler.PinnedBase
import Sniper.Library.Outcome

/-! Placement of threads by `SchedulerPinnedBase`: the two maps agree, threads go
only where they may, and no core is left idle while a thread waits for it. -/

namespace Sniper.Scheduler

variable {cores : Nat}

def Event.Right : Event cores → Prop
  | .placed _ _ allowed runnable => allowed = true ∧ runnable = true
  | .returned _ starved => starved = false

structure Consistent (state : State cores) : Prop where
  /-- The cores' threads and the threads' cores are inverse to each other. -/
  inverse : ∀ core thread,
    state.coreThreadRunning core = some thread ↔ (state.threadInfo thread).coreRunning = some core
  bounded : ∀ thread, state.threadsRunnable thread = true → thread < state.runnableSize
  created : ∀ thread, state.threadsRunnable thread = true → thread < state.numThreads
  fresh : ∀ thread, state.numThreads ≤ thread → (state.threadInfo thread).coreRunning = none
  log : ∀ event ∈ state.log, event.Right

theorem getPS_toInt (time : UInt64) : (getPS time).toInt64.toInt = ((time.toNat / 1000 : Nat) : Int) := by
  have bound := time.toNat_lt
  have small : (getPS time).toNat = time.toNat / 1000 := by simp [getPS]
  have signed : (getPS time).toInt64.toInt = (getPS time).toBitVec.toInt := rfl
  rw [signed, BitVec.toInt_eq_toNat_of_lt]
  · exact congrArg _ small
  · change 2 * (getPS time).toNat < 2 ^ 64
    omega

theorem minValue_lt_sub (first second : UInt64) : Int64.minValue < (getPS first - getPS second).toInt64 := by
  have firstBound := first.toNat_lt
  have secondBound := second.toNat_lt
  rw [Int64.lt_iff_toInt_lt, UInt64.toInt64_sub, Int64.toInt_sub, getPS_toInt, getPS_toInt, Int64.toInt_minValue,
    Int.bmod_eq_of_le]
  all_goals omega

theorem minValue_lt_score (info : ThreadInfo cores) (time : UInt64) : Int64.minValue < score info time := by
  unfold score
  split
  case isTrue running => exact minValue_lt_sub _ _
  case isFalse waiting => exact minValue_lt_sub _ _

theorem selectFrom_some {state : State cores} {time : UInt64} {core : Fin cores} {list : List Nat} {best : Option Nat}
    {maxScore : Int64} {thread : Nat} (selected : selectFrom state time core list best maxScore = some thread) :
    best = some thread ∨ thread ∈ list ∧ eligible state core thread = true := by
  induction list generalizing best maxScore with
  | nil => exact .inl selected
  | cons head rest ih =>
    unfold selectFrom at selected
    split at selected
    case isTrue better =>
      cases ih selected with
      | inl found =>
        cases found
        exact .inr ⟨List.mem_cons_self, better.1⟩
      | inr found => exact .inr ⟨List.mem_cons_of_mem head found.1, found.2⟩
    case isFalse =>
      cases ih selected with
      | inl found => exact .inl found
      | inr found => exact .inr ⟨List.mem_cons_of_mem head found.1, found.2⟩

theorem selectFrom_none {state : State cores} {time : UInt64} {core : Fin cores} {list : List Nat} {best : Option Nat}
    {maxScore : Int64} (selected : selectFrom state time core list best maxScore = none) :
    best = none ∧ ∀ thread ∈ list, eligible state core thread = true → ¬maxScore < score (state.threadInfo thread) time := by
  induction list generalizing best maxScore with
  | nil => exact ⟨selected, fun thread member => by cases member⟩
  | cons head rest ih =>
    unfold selectFrom at selected
    split at selected
    case isTrue => cases (ih selected).1
    case isFalse worse =>
      obtain ⟨empty, others⟩ := ih selected
      refine ⟨empty, fun thread member allowed => ?_⟩
      cases member with
      | head => exact fun better => worse ⟨allowed, better⟩
      | tail _ member => exact others thread member allowed

theorem selectThread_some {state : State cores} {time : UInt64} {core : Fin cores} {thread : Nat}
    (selected : selectThread state time core = some thread) : eligible state core thread = true := by
  cases selectFrom_some selected with
  | inl impossible => cases impossible
  | inr found => exact found.2

theorem selectThread_none {state : State cores} {time : UInt64} {core : Fin cores}
    (selected : selectThread state time core = none) {thread : Nat} (bounded : thread < state.runnableSize) :
    eligible state core thread = false := by
  cases allowed : eligible state core thread with
  | false => rfl
  | true =>
    have worse := (selectFrom_none selected).2 thread (List.mem_range.mpr bounded) allowed
    exact absurd (minValue_lt_score _ _) worse

/-- The state with the core vacated: its thread, if it has one, runs nowhere. -/
def vacate (time : UInt64) (core : Fin cores) (state : State cores) : State cores :=
  { unschedule time core state with
    coreThreadRunning := Function.update (unschedule time core state).coreThreadRunning core none }

section Vacate

variable {state : State cores} {time : UInt64} {core : Fin cores}

theorem vacate_coreThreadRunning :
    (vacate time core state).coreThreadRunning = Function.update state.coreThreadRunning core none := by
  unfold vacate unschedule
  split <;> rfl

theorem vacate_threadsRunnable : (vacate time core state).threadsRunnable = state.threadsRunnable := by
  unfold vacate unschedule
  split <;> rfl

theorem vacate_runnableSize : (vacate time core state).runnableSize = state.runnableSize := by
  unfold vacate unschedule
  split <;> rfl

theorem vacate_numThreads : (vacate time core state).numThreads = state.numThreads := by
  unfold vacate unschedule
  split <;> rfl

theorem vacate_log : (vacate time core state).log = state.log := by
  unfold vacate unschedule
  split <;> rfl

theorem vacate_coreAffinity (thread : Nat) :
    ((vacate time core state).threadInfo thread).coreAffinity = (state.threadInfo thread).coreAffinity := by
  unfold vacate unschedule
  split
  case h_1 => rfl
  case h_2 current _ =>
    by_cases same : thread = current
    · subst same
      simp [setInfo]
    · simp [setInfo, Function.update_of_ne same]

theorem vacate_coreRunning (thread : Nat) :
    ((vacate time core state).threadInfo thread).coreRunning =
      if state.coreThreadRunning core = some thread then none else (state.threadInfo thread).coreRunning := by
  cases running : state.coreThreadRunning core with
  | none => simp [vacate, unschedule, running]
  | some current =>
    by_cases same : thread = current
    · subst same
      simp [vacate, running, unschedule, setInfo]
    · have other : current ≠ thread := fun equal => same equal.symm
      simp [vacate, running, unschedule, setInfo, Function.update_of_ne same, other]

theorem Consistent.vacate (consistent : Consistent state) : Consistent (vacate time core state) := by
  constructor
  case inverse =>
    intro other thread
    rw [vacate_coreThreadRunning, vacate_coreRunning]
    have inverse := consistent.inverse other thread
    by_cases same : other = core
    · subst same
      rw [Function.update_self]
      constructor
      · intro impossible
        cases impossible
      · intro runs
        split at runs
        case isTrue => cases runs
        case isFalse elsewhere => exact absurd (inverse.mpr runs) elsewhere
    · rw [Function.update_of_ne same, inverse]
      split
      case isTrue here =>
        have runs := (consistent.inverse core thread).mp here
        constructor
        · intro there
          exact absurd (Option.some.inj (there.symm.trans runs)) same
        · intro impossible
          cases impossible
      case isFalse => exact Iff.rfl
  case bounded =>
    rw [vacate_threadsRunnable, vacate_runnableSize]
    exact consistent.bounded
  case created =>
    rw [vacate_threadsRunnable, vacate_numThreads]
    exact consistent.created
  case fresh =>
    intro thread later
    rw [vacate_numThreads] at later
    rw [vacate_coreRunning]
    split
    case isTrue => rfl
    case isFalse => exact consistent.fresh thread later
  case log =>
    rw [vacate_log]
    exact consistent.log

end Vacate

theorem place_vacate (time : UInt64) (core : Fin cores) (thread : Nat) (state : State cores) :
    place time core thread (vacate time core state) = place time core thread (unschedule time core state) := by
  simp [place, vacate]

theorem vacate_free {time : UInt64} {core : Fin cores} {state : State cores} (free : state.coreThreadRunning core = none) :
    vacate time core state = state := by
  have same : Function.update state.coreThreadRunning core none = state.coreThreadRunning := by
    rw [← free, Function.update_eq_self]
  simp only [vacate, unschedule, free, same]

theorem Consistent.assign {state : State cores} (consistent : Consistent state) {core : Fin cores} {thread : Nat}
    {info : ThreadInfo cores} (free : state.coreThreadRunning core = none)
    (nowhere : (state.threadInfo thread).coreRunning = none) (created : thread < state.numThreads)
    (assigned : info.coreRunning = some core) :
    Consistent { state with
      coreThreadRunning := Function.update state.coreThreadRunning core (some thread)
      threadInfo := Function.update state.threadInfo thread info } := by
  constructor
  case inverse =>
    intro other mover
    have inverse := consistent.inverse other mover
    dsimp only
    by_cases sameCore : other = core <;> by_cases sameThread : mover = thread
    · subst sameCore sameThread
      simp [assigned]
    · subst sameCore
      have different : thread ≠ mover := fun equal => sameThread equal.symm
      rw [Function.update_self, Function.update_of_ne sameThread, ← inverse, free]
      simp [different]
    · subst sameThread
      have different : core ≠ other := fun equal => sameCore equal.symm
      rw [Function.update_of_ne sameCore, Function.update_self, inverse, nowhere, assigned]
      simp [different]
    · rw [Function.update_of_ne sameCore, Function.update_of_ne sameThread, inverse]
  case bounded => exact consistent.bounded
  case created => exact consistent.created
  case fresh =>
    intro other later
    have different : other ≠ thread := by
      rintro rfl
      exact absurd created (Nat.not_lt.mpr later)
    simp only [Function.update_of_ne different]
    exact consistent.fresh other later
  case log => exact consistent.log

theorem Consistent.place {state : State cores} (consistent : Consistent state) (time : UInt64) {core : Fin cores} {thread : Nat}
    (free : state.coreThreadRunning core = none) (nowhere : (state.threadInfo thread).coreRunning = none)
    (allowed : (state.threadInfo thread).coreAffinity core = true) (runnable : state.threadsRunnable thread = true) :
    Consistent (place time core thread state) := by
  have info : ({ state.threadInfo thread with coreRunning := some core, lastScheduledIn := time } :
      ThreadInfo cores).coreRunning = some core := rfl
  have assigned := consistent.assign free nowhere (consistent.created thread runnable) info
  simp only [Scheduler.place, nowhere, setInfo, Function.update_self]
  constructor
  case inverse => exact assigned.inverse
  case bounded => exact assigned.bounded
  case created => exact assigned.created
  case fresh => exact assigned.fresh
  case log =>
    simp only [List.mem_cons, forall_eq_or_imp]
    exact ⟨⟨allowed, runnable⟩, consistent.log⟩

theorem Consistent.returned {state : State cores} (consistent : Consistent state) {core : Fin cores}
    (fed : state.coreThreadRunning core = none → hasWaiting state core = false) : Consistent (returned core state) where
  inverse := consistent.inverse
  bounded := consistent.bounded
  created := consistent.created
  fresh := consistent.fresh
  log := by
    simp only [Scheduler.returned, List.mem_cons, forall_eq_or_imp]
    refine ⟨?_, consistent.log⟩
    cases running : state.coreThreadRunning core with
    | none => simp [Event.Right, fed running]
    | some thread => simp [Event.Right]

theorem Consistent.quantumLeft {state : State cores} (consistent : Consistent state) (quanta : Fin cores → UInt64) :
    Consistent { state with quantumLeft := quanta } where
  inverse := consistent.inverse
  bounded := consistent.bounded
  created := consistent.created
  fresh := consistent.fresh
  log := consistent.log

theorem Consistent.manager {state : State cores} (consistent : Consistent state) (status : Nat → Status)
    (threadCore : Nat → Option (Fin cores)) : Consistent { state with status := status, threadCore := threadCore } where
  inverse := consistent.inverse
  bounded := consistent.bounded
  created := consistent.created
  fresh := consistent.fresh
  log := consistent.log

theorem Consistent.markResumed {state : State cores} (consistent : Consistent state) {thread : Nat}
    (bounded : thread < state.runnableSize) (created : thread < state.numThreads) :
    Consistent (markResumed thread state) := by
  constructor
  case inverse => exact consistent.inverse
  case bounded =>
    intro other runnable
    by_cases same : other = thread
    · rw [same]
      exact bounded
    · simp only [Scheduler.markResumed, Function.update_of_ne same] at runnable
      exact consistent.bounded other runnable
  case created =>
    intro other runnable
    by_cases same : other = thread
    · rw [same]
      exact created
    · simp only [Scheduler.markResumed, Function.update_of_ne same] at runnable
      exact consistent.created other runnable
  case fresh => exact consistent.fresh
  case log => exact consistent.log

theorem eligible_parts {state : State cores} {core : Fin cores} {thread : Nat} (allowed : eligible state core thread = true) :
    (state.threadInfo thread).coreAffinity core = true ∧ state.threadsRunnable thread = true ∧
      ((state.threadInfo thread).coreRunning = none ∨ (state.threadInfo thread).coreRunning = some core) := by
  simpa [eligible, ThreadInfo.isRunning, and_assoc] using allowed

theorem stalled_of_refused {state : State cores} {core : Fin cores} {thread : Nat} (refused : eligible state core thread = false)
    (free : (state.threadInfo thread).coreRunning = none ∨ (state.threadInfo thread).coreRunning = some core)
    (allowed : (state.threadInfo thread).coreAffinity core = true) : state.threadsRunnable thread = false := by
  cases runnable : state.threadsRunnable thread with
  | false => rfl
  | true =>
    rcases free with none_ | here
    · simp [eligible, ThreadInfo.isRunning, none_, allowed, runnable] at refused
    · simp [eligible, here, allowed, runnable] at refused

theorem hasWaiting_vacate {state : State cores} (consistent : Consistent state) {time : UInt64} {core : Fin cores}
    (selected : selectThread state time core = none) : hasWaiting (vacate time core state) core = false := by
  rw [hasWaiting, List.any_eq_false]
  intro thread member
  rw [vacate_runnableSize] at member
  have refused := selectThread_none selected (List.mem_range.mp member)
  rw [vacate_threadsRunnable, vacate_coreAffinity, ThreadInfo.isRunning, vacate_coreRunning]
  by_cases here : state.coreThreadRunning core = some thread
  · have runs := (consistent.inverse core thread).mp here
    cases allowed : (state.threadInfo thread).coreAffinity core with
    | false => simp
    | true => simp [stalled_of_refused refused (.inr runs) allowed]
  · simp only [here, if_false]
    cases runs : (state.threadInfo thread).coreRunning with
    | some other => simp
    | none =>
      cases allowed : (state.threadInfo thread).coreAffinity core with
      | false => simp
      | true => simp [stalled_of_refused refused (.inl runs) allowed]

theorem findFreeCoreForThread_some {state : State cores} {thread : Nat} {core : Fin cores}
    (found : findFreeCoreForThread thread state = some core) : state.coreThreadRunning core = none := by
  have holds := List.find?_some found
  simp only [Bool.and_eq_true, Option.isNone_iff_eq_none] at holds
  exact holds.2

def KeepsOthers (core : Fin cores) (state next : State cores) : Prop :=
  ∀ other, other ≠ core → state.coreThreadRunning other ≠ none →
    next.coreThreadRunning other = state.coreThreadRunning other

theorem rescheduleWithin_cases (quantum time : UInt64) (depth : Nat) (core : Fin cores) (state : State cores) :
    state.coreThreadRunning core ≠ none ∧ rescheduleWithin quantum time (depth + 1) core state = .ok (returned core state) ∨
    rescheduleWithin quantum time (depth + 1) core state = .error .outOfBounds ∨
    state.coreThreadRunning core = selectThread state time core ∧
      rescheduleWithin quantum time (depth + 1) core state = .ok (returned core (renewQuantum quantum core state)) ∨
    selectThread state time core = none ∧
      rescheduleWithin quantum time (depth + 1) core state =
        .ok (returned core (renewQuantum quantum core (vacate time core state))) ∨
    ∃ thread, selectThread state time core = some thread ∧ state.coreThreadRunning core ≠ some thread ∧
      rescheduleWithin quantum time (depth + 1) core state =
        (moveThread (rescheduleWithin quantum time depth) core thread (place time core thread (vacate time core state))).map
          fun moved => returned core (renewQuantum quantum core moved) := by
  unfold rescheduleWithin
  dsimp only
  split
  case isTrue starting =>
    refine .inl ⟨fun idle => ?_, rfl⟩
    simp [idle] at starting
  case isFalse =>
    split
    case isTrue => exact .inr (.inl rfl)
    case isFalse =>
      split
      case isTrue same => exact .inr (.inr (.inl ⟨same, rfl⟩))
      case isFalse changes =>
        split
        case h_1 selected => exact .inr (.inr (.inr (.inl ⟨selected, rfl⟩)))
        case h_2 thread selected =>
          rw [selected] at changes
          refine .inr (.inr (.inr (.inr ⟨thread, selected, changes, ?_⟩)))
          rw [place_vacate]
          cases moveThread (rescheduleWithin quantum time depth) core thread
            (place time core thread (unschedule time core state)) <;> rfl

theorem Consistent.selected {state : State cores} (consistent : Consistent state) {time : UInt64} {core : Fin cores}
    {thread : Nat} (selected : selectThread state time core = some thread)
    (changes : state.coreThreadRunning core ≠ some thread) :
    (state.threadInfo thread).coreRunning = none ∧ state.threadsRunnable thread = true ∧
      Consistent (Scheduler.place time core thread (Scheduler.vacate time core state)) := by
  obtain ⟨allowed, runnable, nowhere | here⟩ := eligible_parts (selectThread_some selected)
  · refine ⟨nowhere, runnable, consistent.vacate.place time ?_ ?_ ?_ ?_⟩
    · rw [vacate_coreThreadRunning, Function.update_self]
    · rw [vacate_coreRunning, if_neg changes]
      exact nowhere
    · rw [vacate_coreAffinity]
      exact allowed
    · rw [vacate_threadsRunnable]
      exact runnable
  · exact absurd ((consistent.inverse core thread).mpr here) changes

theorem KeepsOthers.vacate (time : UInt64) (core : Fin cores) (state : State cores) :
    KeepsOthers core state (vacate time core state) := by
  intro other different _
  rw [vacate_coreThreadRunning, Function.update_of_ne different]

theorem place_coreThreadRunning {state : State cores} {time : UInt64} {core : Fin cores} {thread : Nat}
    (nowhere : (state.threadInfo thread).coreRunning = none) :
    (place time core thread state).coreThreadRunning = Function.update state.coreThreadRunning core (some thread) := by
  simp only [place, nowhere, setInfo]

theorem place_threadsRunnable {state : State cores} {time : UInt64} {core : Fin cores} {thread : Nat} :
    (place time core thread state).threadsRunnable = state.threadsRunnable := by
  simp only [place, setInfo]
  split <;> rfl

theorem place_vacate_coreThreadRunning {state : State cores} (time : UInt64) {core : Fin cores} {thread : Nat}
    (nowhere : (state.threadInfo thread).coreRunning = none) (changes : state.coreThreadRunning core ≠ some thread) :
    (place time core thread (vacate time core state)).coreThreadRunning =
      Function.update state.coreThreadRunning core (some thread) := by
  have still : ((vacate time core state).threadInfo thread).coreRunning = none := by
    rw [vacate_coreRunning, if_neg changes]
    exact nowhere
  rw [place_coreThreadRunning still, vacate_coreThreadRunning, Function.update_idem]

theorem moveThread_cases (nested : Fin cores → State cores → Except Fault (State cores)) (core : Fin cores) (thread : Nat)
    (state : State cores) :
    (∃ resumed, (resumed = state ∨ resumed = markResumed thread state) ∧
      moveThread nested core thread state =
        .ok { resumed with threadCore := Function.update resumed.threadCore thread (some core) }) ∨
    ∃ free, state.coreThreadRunning free = none ∧
      moveThread nested core thread state = (nested free (markResumed thread state)).map
        fun moved => { moved with threadCore := Function.update moved.threadCore thread (some core) } := by
  by_cases resumes : state.threadCore thread = none ∧ state.status thread = .stalled true
  · cases found : findFreeCoreForThread thread (markResumed thread state) with
    | none =>
      refine .inl ⟨markResumed thread state, .inr rfl, ?_⟩
      simp only [moveThread, if_pos resumes, found]
    | some free =>
      refine .inr ⟨free, findFreeCoreForThread_some found, ?_⟩
      simp only [moveThread, if_pos resumes, found]
      cases nested free (markResumed thread state) <;> rfl
  · refine .inl ⟨state, .inl rfl, ?_⟩
    simp only [moveThread, if_neg resumes]

theorem place_vacate_threadsRunnable (time : UInt64) (core : Fin cores) {thread : Nat} {state : State cores}
    (runnable : state.threadsRunnable thread = true) :
    (place time core thread (vacate time core state)).threadsRunnable thread = true := by
  rwa [place_threadsRunnable, vacate_threadsRunnable]

theorem Consistent.moveThread {nested : Fin cores → State cores → Except Fault (State cores)}
    (keeps : ∀ {core state next}, Consistent state → nested core state = .ok next →
      Consistent next ∧ KeepsOthers core state next)
    {core : Fin cores} {thread : Nat} {state next : State cores} (consistent : Consistent state)
    (runnable : state.threadsRunnable thread = true) (moved : moveThread nested core thread state = .ok next) :
    Consistent next ∧ ∀ other, state.coreThreadRunning other ≠ none →
      next.coreThreadRunning other = state.coreThreadRunning other := by
  have resumed := consistent.markResumed (consistent.bounded thread runnable) (consistent.created thread runnable)
  obtain ⟨marked, marks, result⟩ | ⟨free, idle, result⟩ := moveThread_cases nested core thread state
  · cases result.symm.trans moved
    cases marks with
    | inl same => subst same; exact ⟨consistent.manager _ _, fun _ _ => rfl⟩
    | inr same => subst same; exact ⟨resumed.manager _ _, fun _ _ => rfl⟩
  · obtain ⟨after, inner, rfl⟩ := map_eq_ok (result.symm.trans moved)
    obtain ⟨holds, others⟩ := keeps resumed inner
    refine ⟨holds.manager _ _, fun other occupied => others other ?_ occupied⟩
    rintro rfl
    exact occupied idle

theorem rescheduleWithin_consistent {quantum time : UInt64} {depth : Nat} {core : Fin cores} {state next : State cores}
    (consistent : Consistent state) (rescheduled : rescheduleWithin quantum time depth core state = .ok next) :
    Consistent next ∧ KeepsOthers core state next := by
  induction depth generalizing core state next with
  | zero => cases rescheduled
  | succ depth ih =>
    obtain ⟨occupied, result⟩ | result | ⟨same, result⟩ | ⟨selected, result⟩ | ⟨thread, selected, changes, result⟩ :=
      rescheduleWithin_cases quantum time depth core state
    · cases result.symm.trans rescheduled
      exact ⟨consistent.returned fun idle => absurd idle occupied, fun _ _ _ => rfl⟩
    · cases result.symm.trans rescheduled
    · cases result.symm.trans rescheduled
      refine ⟨(consistent.quantumLeft _).returned fun idle => ?_, fun _ _ _ => rfl⟩
      have free : state.coreThreadRunning core = none := idle
      have fed := hasWaiting_vacate consistent (same.symm.trans free)
      rw [vacate_free free] at fed
      exact fed
    · cases result.symm.trans rescheduled
      refine ⟨(consistent.vacate.quantumLeft _).returned fun _ => ?_, KeepsOthers.vacate time core state⟩
      exact hasWaiting_vacate consistent selected
    · obtain ⟨nowhere, runnable, placed⟩ := consistent.selected selected changes
      have running := place_vacate_coreThreadRunning time nowhere changes
      have still := place_vacate_threadsRunnable time core runnable
      obtain ⟨after, moved, rfl⟩ := map_eq_ok (result.symm.trans rescheduled)
      obtain ⟨holds, others⟩ := placed.moveThread ih still moved
      rw [running] at others
      have here := others core (by simp)
      rw [Function.update_self] at here
      constructor
      · refine (holds.quantumLeft _).returned fun idle => ?_
        cases here.symm.trans idle
      · intro other different occupied
        have there := others other (by rw [Function.update_of_ne different]; exact occupied)
        rw [Function.update_of_ne different] at there
        exact there

/-- The cores without a thread. -/
def freeCores (state : State cores) : Finset (Fin cores) :=
  Finset.univ.filter fun core => state.coreThreadRunning core = none

/-- How many calls of `reschedule` can be inside one for the core, that one included. -/
def callDepth (core : Fin cores) (state : State cores) : Nat :=
  (freeCores state).card + if state.coreThreadRunning core = none then 0 else 1

theorem callDepth_le (core : Fin cores) (state : State cores) : callDepth core state < cores + 2 := by
  have bounded : (freeCores state).card ≤ cores := by
    simpa using Finset.card_le_univ (freeCores state)
  unfold callDepth
  split <;> omega

theorem callDepth_lt {state placed : State cores} {core free : Fin cores} {thread : Nat}
    (running : placed.coreThreadRunning = Function.update state.coreThreadRunning core (some thread))
    (idle : placed.coreThreadRunning free = none) : callDepth free placed < callDepth core state := by
  have erased : freeCores placed = (freeCores state).erase core := by
    ext other
    simp only [freeCores, Finset.mem_filter, Finset.mem_univ, true_and, Finset.mem_erase, running]
    by_cases same : other = core
    · subst same
      simp
    · simp [same]
  unfold callDepth
  rw [if_pos idle, erased]
  split
  case isTrue free =>
    have member : core ∈ freeCores state := by simp [freeCores, free]
    exact Finset.card_erase_lt_of_mem member
  case isFalse =>
    have fewer := Finset.card_erase_le (s := freeCores state) (a := core)
    omega

theorem rescheduleWithin_ends {quantum time : UInt64} {depth : Nat} {core : Fin cores} {state : State cores}
    (consistent : Consistent state) (enough : callDepth core state < depth) :
    rescheduleWithin quantum time depth core state ≠ .error .tooDeep := by
  induction depth generalizing core state with
  | zero => omega
  | succ depth ih =>
    obtain ⟨-, result⟩ | result | ⟨-, result⟩ | ⟨-, result⟩ | ⟨thread, selected, changes, result⟩ :=
      rescheduleWithin_cases quantum time depth core state
    · rw [result]; intro impossible; cases impossible
    · rw [result]; intro impossible; cases impossible
    · rw [result]; intro impossible; cases impossible
    · rw [result]; intro impossible; cases impossible
    · obtain ⟨nowhere, runnable, placed⟩ := consistent.selected selected changes
      have running := place_vacate_coreThreadRunning time nowhere changes
      have still := place_vacate_threadsRunnable time core runnable
      have resumed := placed.markResumed (placed.bounded thread still) (placed.created thread still)
      rw [result]
      obtain ⟨marked, -, moved⟩ | ⟨free, idle, moved⟩ := moveThread_cases (rescheduleWithin quantum time depth) core thread
        (place time core thread (vacate time core state))
      · rw [moved]
        intro impossible
        cases impossible
      · have smaller : callDepth free (markResumed thread (place time core thread (vacate time core state))) <
            callDepth core state := callDepth_lt running idle
        have nested := ih resumed (Nat.lt_of_lt_of_le smaller (Nat.lt_succ_iff.mp enough))
        rw [moved]
        cases inner : rescheduleWithin quantum time depth free
            (markResumed thread (place time core thread (vacate time core state))) with
        | ok after => intro impossible; cases impossible
        | error fault =>
          rw [inner] at nested
          intro deep
          cases deep
          exact nested rfl

/-- Every fault but the one of the model's own bound. -/
def Expected (fault : Fault) : Prop := fault ≠ .tooDeep

theorem reschedule_meets (quantum time : UInt64) (core : Fin cores) {state : State cores} (consistent : Consistent state) :
    Meets Expected (reschedule quantum time core state) Consistent := by
  cases result : reschedule quantum time core state with
  | ok next => exact (rescheduleWithin_consistent consistent result).1
  | error fault =>
    rintro rfl
    exact rescheduleWithin_ends consistent (callDepth_le core state) result

/-! ### What a call leaves behind -/

/-- A step of `reschedule`: a thread that is new on a core is allowed there and runnable. -/
structure Places (state next : State cores) : Prop where
  affinity : ∀ thread, (next.threadInfo thread).coreAffinity = (state.threadInfo thread).coreAffinity
  runnable : ∀ thread, state.threadsRunnable thread = true → next.threadsRunnable thread = true
  placed : ∀ core thread, next.coreThreadRunning core = some thread → state.coreThreadRunning core = some thread ∨
    (next.threadInfo thread).coreAffinity core = true ∧ next.threadsRunnable thread = true

section Places

variable {state mid next : State cores} {time quantum : UInt64} {core : Fin cores} {thread : Nat}

theorem Places.refl (state : State cores) : Places state state := ⟨fun _ => rfl, fun _ => id, fun _ _ => .inl⟩

theorem Places.trans (first : Places state mid) (second : Places mid next) : Places state next where
  affinity thread := (second.affinity thread).trans (first.affinity thread)
  runnable thread runs := second.runnable thread (first.runnable thread runs)
  placed core thread here := by
    rcases second.placed core thread here with there | allowed
    · refine (first.placed core thread there).imp_right fun allowed => ?_
      rw [second.affinity]
      exact ⟨allowed.1, second.runnable thread allowed.2⟩
    · exact .inr allowed

theorem Places.markResumed (thread : Nat) (state : State cores) : Places state (markResumed thread state) where
  affinity _ := rfl
  runnable other runs := by
    by_cases same : other = thread
    · simp [Scheduler.markResumed, same]
    · simpa [Scheduler.markResumed, Function.update_of_ne same] using runs
  placed _ _ := .inl

theorem Places.vacate (time : UInt64) (core : Fin cores) (state : State cores) : Places state (vacate time core state) where
  affinity := vacate_coreAffinity
  runnable thread runs := by rwa [vacate_threadsRunnable]
  placed other thread here := by
    left
    rw [vacate_coreThreadRunning] at here
    by_cases same : other = core
    · rw [same, Function.update_self] at here
      cases here
    · rwa [Function.update_of_ne same] at here

theorem place_coreAffinity (other : Nat) :
    ((place time core thread state).threadInfo other).coreAffinity = (state.threadInfo other).coreAffinity := by
  unfold place setInfo
  dsimp only
  by_cases same : other = thread
  · subst same
    rw [Function.update_self]
    split <;> rfl
  · rw [Function.update_of_ne same]
    split <;> rfl

theorem Places.place (nowhere : (state.threadInfo thread).coreRunning = none)
    (allowed : (state.threadInfo thread).coreAffinity core = true) (runnable : state.threadsRunnable thread = true) :
    Places state (place time core thread state) where
  affinity := place_coreAffinity
  runnable other runs := by rwa [place_threadsRunnable]
  placed other mover here := by
    rw [place_coreThreadRunning nowhere] at here
    by_cases same : other = core
    · subst same
      rw [Function.update_self, Option.some.injEq] at here
      subst here
      rw [place_coreAffinity, place_threadsRunnable]
      exact .inr ⟨allowed, runnable⟩
    · rw [Function.update_of_ne same] at here
      exact .inl here

theorem Places.moveThread {nested : Fin cores → State cores → Except Fault (State cores)}
    (places : ∀ {core state next}, Consistent state → nested core state = .ok next → Places state next)
    (consistent : Consistent state) (runnable : state.threadsRunnable thread = true)
    (moved : moveThread nested core thread state = .ok next) : Places state next := by
  have marks := Places.markResumed thread state
  obtain ⟨marked, same | same, result⟩ | ⟨free, -, result⟩ := moveThread_cases nested core thread state
  · cases result.symm.trans moved
    exact same ▸ ⟨fun _ => rfl, fun _ => id, fun _ _ => .inl⟩
  · cases result.symm.trans moved
    exact same ▸ ⟨marks.affinity, marks.runnable, marks.placed⟩
  · obtain ⟨after, inner, rfl⟩ := map_eq_ok (result.symm.trans moved)
    have resumed := consistent.markResumed (consistent.bounded thread runnable) (consistent.created thread runnable)
    have whole := marks.trans (places resumed inner)
    exact ⟨whole.affinity, whole.runnable, whole.placed⟩

theorem rescheduleWithin_places {depth : Nat} (consistent : Consistent state)
    (rescheduled : rescheduleWithin quantum time depth core state = .ok next) : Places state next := by
  induction depth generalizing core state next with
  | zero => cases rescheduled
  | succ depth ih =>
    obtain ⟨-, result⟩ | result | ⟨-, result⟩ | ⟨-, result⟩ | ⟨thread, selected, changes, result⟩ :=
      rescheduleWithin_cases quantum time depth core state
    · cases result.symm.trans rescheduled
      exact ⟨fun _ => rfl, fun _ => id, fun _ _ => .inl⟩
    · cases result.symm.trans rescheduled
    · cases result.symm.trans rescheduled
      exact ⟨fun _ => rfl, fun _ => id, fun _ _ => .inl⟩
    · cases result.symm.trans rescheduled
      have vacated := Places.vacate time core state
      exact ⟨vacated.affinity, vacated.runnable, vacated.placed⟩
    · obtain ⟨nowhere, runnable, placed⟩ := consistent.selected selected changes
      have allowed := (eligible_parts (selectThread_some selected)).1
      have taken : Places (vacate time core state) (place time core thread (vacate time core state)) := by
        refine .place ?_ ?_ ?_
        · rw [vacate_coreRunning, if_neg changes]
          exact nowhere
        · rwa [vacate_coreAffinity]
        · rwa [vacate_threadsRunnable]
      have still := place_vacate_threadsRunnable time core runnable
      obtain ⟨after, moved, rfl⟩ := map_eq_ok (result.symm.trans rescheduled)
      have whole := ((Places.vacate time core state).trans taken).trans (Places.moveThread ih placed still moved)
      exact ⟨whole.affinity, whole.runnable, whole.placed⟩

theorem rescheduleWithin_returned {depth : Nat} (rescheduled : rescheduleWithin quantum time depth core state = .ok next) :
    ∃ last, next = returned core last := by
  cases depth with
  | zero => cases rescheduled
  | succ depth =>
    obtain ⟨-, result⟩ | result | ⟨-, result⟩ | ⟨-, result⟩ | ⟨thread, -, -, result⟩ :=
      rescheduleWithin_cases quantum time depth core state
    · exact ⟨_, Except.ok.inj (rescheduled.symm.trans result)⟩
    · cases result.symm.trans rescheduled
    · exact ⟨_, Except.ok.inj (rescheduled.symm.trans result)⟩
    · exact ⟨_, Except.ok.inj (rescheduled.symm.trans result)⟩
    · obtain ⟨_, -, returns⟩ := map_eq_ok (result.symm.trans rescheduled)
      exact ⟨_, returns⟩

/-- The state that `reschedule` returns: what is new on a core may run there, and if its own core is idle, no
runnable thread that runs nowhere may run on it. -/
structure Rescheduled (core : Fin cores) (state next : State cores) : Prop where
  placed : ∀ other thread, next.coreThreadRunning other = some thread → state.coreThreadRunning other = some thread ∨
    (next.threadInfo thread).coreAffinity other = true ∧ next.threadsRunnable thread = true
  idle : next.coreThreadRunning core = none → ∀ thread, next.threadsRunnable thread = true →
    (next.threadInfo thread).coreRunning = none → (next.threadInfo thread).coreAffinity core = false

theorem reschedule_rescheduled (consistent : Consistent state) (result : reschedule quantum time core state = .ok next) :
    Rescheduled core state next := by
  refine ⟨(rescheduleWithin_places consistent result).placed, fun idle thread runnable nowhere => ?_⟩
  have holds := (rescheduleWithin_consistent consistent result).1
  obtain ⟨last, same⟩ := rescheduleWithin_returned result
  subst same
  have fed : ((last.coreThreadRunning core).isNone && hasWaiting last core) = false := holds.log _ List.mem_cons_self
  have isIdle : last.coreThreadRunning core = none := idle
  rw [isIdle, Option.isNone_none, Bool.true_and, hasWaiting, List.any_eq_false] at fed
  have refused := fed thread (List.mem_range.mpr (holds.bounded thread runnable))
  have runs : last.threadsRunnable thread = true := runnable
  have away : (last.threadInfo thread).coreRunning = none := nowhere
  change (last.threadInfo thread).coreAffinity core = false
  simpa [runs, away, ThreadInfo.isRunning] using refused

end Places

theorem rescheduleFree_meets (quantum time : UInt64) (thread : Nat) {state : State cores} (consistent : Consistent state) :
    Meets Expected (rescheduleFree quantum time thread state) Consistent := by
  unfold rescheduleFree
  split
  case h_1 => exact consistent
  case h_2 => exact reschedule_meets quantum time _ consistent

theorem leaveCore_meets (quantum time : UInt64) (thread : Nat) {state : State cores} (consistent : Consistent state) :
    Meets Expected (leaveCore quantum time thread state) Consistent := by
  unfold leaveCore
  split
  case h_1 => exact consistent
  case h_2 => exact reschedule_meets quantum time _ consistent

theorem Consistent.setInfo {state : State cores} (consistent : Consistent state) {thread : Nat}
    {change : ThreadInfo cores → ThreadInfo cores}
    (keeps : (change (state.threadInfo thread)).coreRunning = (state.threadInfo thread).coreRunning) :
    Consistent (setInfo thread change state) := by
  have same (other : Nat) : ((Scheduler.setInfo thread change state).threadInfo other).coreRunning =
      (state.threadInfo other).coreRunning := by
    by_cases here : other = thread
    · subst here
      simpa [Scheduler.setInfo] using keeps
    · simp [Scheduler.setInfo, Function.update_of_ne here]
  constructor
  case inverse =>
    intro core other
    rw [same]
    exact consistent.inverse core other
  case bounded => exact consistent.bounded
  case created => exact consistent.created
  case fresh =>
    intro other later
    rw [same]
    exact consistent.fresh other later
  case log => exact consistent.log

theorem foldl_addAffinity_coreRunning (list : List (Fin cores)) (info : ThreadInfo cores) :
    (list.foldl (fun info core => info.addAffinity core) info).coreRunning = info.coreRunning := by
  induction list generalizing info with
  | nil => rfl
  | cons core rest ih => exact ih (info.addAffinity core)

theorem setMask_coreRunning {mask : Option (List Nat)} {info next : ThreadInfo cores} (set : setMask mask info = .ok next) :
    next.coreRunning = info.coreRunning := by
  cases mask with
  | none =>
    cases set
    exact foldl_addAffinity_coreRunning _ _
  | some cpus =>
    have meets : Meets (fun _ => True) (setMask (some cpus) info) fun next => next.coreRunning = info.coreRunning := by
      refine Meets.foldlM (fun _ (next : ThreadInfo cores) => next.coreRunning = info.coreRunning) cpus ?_ rfl
      intro _ cpu _ next _ same
      split
      case isTrue => exact same
      case isFalse => exact trivial
    exact meets.of_ok set

theorem Consistent.createOn {state : State cores} (consistent : Consistent state) (quantum : UInt64) {thread : Nat}
    (created : thread < state.numThreads) (nowhere : (state.threadInfo thread).coreRunning = none) :
    Consistent (createOn quantum thread state) := by
  unfold Scheduler.createOn
  split
  case h_1 => exact consistent.setInfo nowhere.symm
  case h_2 core found =>
    have info : ({ state.threadInfo thread with coreRunning := some core } : ThreadInfo cores).coreRunning = some core := rfl
    have assigned := consistent.assign (findFreeCoreForThread_some found) nowhere created info
    exact (assigned.quantumLeft _).manager _ _

theorem Consistent.threadCreate {state : State cores} (consistent : Consistent state) (quantum : UInt64)
    (initial : List (Fin cores)) : Consistent (threadCreate quantum initial state) := by
  have nowhere := consistent.fresh state.numThreads (Nat.le_refl _)
  have counted (status : Nat → Status) (size : Nat) :
      Consistent { state with numThreads := state.numThreads + 1, status := status, infoSize := size } :=
    { inverse := consistent.inverse
      bounded := consistent.bounded
      created := fun thread runnable => Nat.lt_succ_of_lt (consistent.created thread runnable)
      fresh := fun thread later => consistent.fresh thread (Nat.le_of_succ_le later)
      log := consistent.log }
  unfold Scheduler.threadCreate
  dsimp only
  split
  case isTrue => exact (counted _ _).createOn quantum (Nat.lt_succ_self _) nowhere
  case isFalse =>
    have keeps := foldl_addAffinity_coreRunning initial (state.threadInfo state.numThreads).clearAffinity
    refine ((counted _ _).setInfo keeps).createOn quantum (Nat.lt_succ_self _) ?_
    simp only [Scheduler.setInfo, Function.update_self]
    exact keeps.trans nowhere

section Events

variable {state : State cores} {quantum time : UInt64} {thread : Nat}

theorem threadStart_meets (consistent : Consistent state) :
    Meets Expected (threadStart quantum time thread state) Consistent := by
  unfold threadStart
  refine Meets.ite (fun _ => ?_) fun known => Meets.ite (fun _ => ?_) fun within => ?_
  · intro impossible; cases impossible
  · intro impossible; cases impossible
  · have started : Consistent { markResumed thread state with
        runnableSize := if state.runnableSize ≤ thread then state.runnableSize + 16 else state.runnableSize } := by
      have grown : Consistent { state with
          runnableSize := if state.runnableSize ≤ thread then state.runnableSize + 16 else state.runnableSize } :=
        { inverse := consistent.inverse
          bounded := fun other runnable => by
            have bounded := consistent.bounded other runnable
            dsimp only
            split <;> omega
          created := consistent.created
          fresh := consistent.fresh
          log := consistent.log }
      exact grown.markResumed (Nat.lt_of_not_le within) (Nat.lt_of_not_le known)
    have meets := rescheduleFree_meets quantum time thread started
    dsimp only
    split
    case h_1 fault result => exact meets.of_error result
    case h_2 next result =>
      have holds := meets.of_ok result
      exact Meets.ite (fun _ => holds.manager _ _) fun _ => holds.manager _ _

theorem Consistent.stop (consistent : Consistent state) (thread : Nat) :
    Consistent { state with threadsRunnable := Function.update state.threadsRunnable thread false } := by
  have before {other : Nat} (runnable : Function.update state.threadsRunnable thread false other = true) :
      state.threadsRunnable other = true := by
    by_cases same : other = thread
    · subst same
      simp at runnable
    · rwa [Function.update_of_ne same] at runnable
  constructor
  case inverse => exact consistent.inverse
  case bounded => exact fun other runnable => consistent.bounded other (before runnable)
  case created => exact fun other runnable => consistent.created other (before runnable)
  case fresh => exact consistent.fresh
  case log => exact consistent.log

theorem threadStall_meets (consistent : Consistent state) (unscheduled : Bool) :
    Meets Expected (threadStall quantum time thread unscheduled state) Consistent := by
  unfold threadStall
  refine Meets.ite (fun _ => ?_) fun _ => ?_
  · intro impossible; cases impossible
  · refine Meets.ite (fun _ => consistent.manager _ _) fun _ => Meets.ite (fun _ => ?_) fun _ => ?_
    · intro impossible; cases impossible
    · exact leaveCore_meets quantum time thread ((consistent.stop thread).manager _ _)

theorem threadResume_meets (consistent : Consistent state) :
    Meets Expected (threadResume quantum time thread state) Consistent := by
  unfold threadResume
  refine Meets.ite (fun _ => ?_) fun known => Meets.ite (fun _ => ?_) fun within => ?_
  · intro impossible; cases impossible
  · intro impossible; cases impossible
  · exact rescheduleFree_meets quantum time thread (consistent.markResumed (Nat.lt_of_not_le within) (Nat.lt_of_not_le known))

theorem threadExit_meets (consistent : Consistent state) :
    Meets Expected (threadExit quantum time thread state) Consistent := by
  unfold threadExit
  refine Meets.ite (fun _ => ?_) fun _ => Meets.ite (fun _ => ?_) fun _ => Meets.ite (fun _ => ?_) fun _ =>
    Meets.ite (fun _ => ?_) fun _ => ?_
  · intro impossible; cases impossible
  · intro impossible; cases impossible
  · intro impossible; cases impossible
  · intro impossible; cases impossible
  · exact leaveCore_meets quantum time thread ((consistent.stop thread).manager _ _)

theorem threadYield_meets (consistent : Consistent state) :
    Meets Expected (threadYield quantum time thread state) Consistent := by
  unfold threadYield
  refine Meets.ite (fun _ => ?_) fun _ => ?_
  · intro impossible; cases impossible
  · split
    case h_1 => exact consistent
    case h_2 core running =>
      have meets := reschedule_meets quantum time core
        (consistent.quantumLeft (Function.update state.quantumLeft core 0))
      split
      case h_1 fault result => exact meets.of_error result
      case h_2 next result =>
        have holds := meets.of_ok result
        exact Meets.ite (fun _ => holds) fun _ => rescheduleFree_meets quantum time thread holds

theorem setMask_expected {mask : Option (List Nat)} {info : ThreadInfo cores} {fault : Fault}
    (failed : setMask mask info = .error fault) : Expected fault := by
  cases mask with
  | none => cases failed
  | some cpus =>
    have meets : Meets Expected (setMask (some cpus) info) fun _ => True := by
      refine Meets.foldlM (fun _ _ => True) cpus ?_ trivial
      intro _ cpu _ _ _ _
      split
      case isTrue => exact trivial
      case isFalse => intro impossible; cases impossible
    exact meets.of_error failed

theorem threadSetAffinity_meets (consistent : Consistent state) (calling : Option Nat) (mask : Option (List Nat)) :
    Meets Expected (threadSetAffinity quantum time calling thread mask state) Consistent := by
  unfold threadSetAffinity
  split
  case h_1 fault failed => exact setMask_expected failed
  case h_2 info set =>
    have changed : Consistent (setInfo thread (fun _ => info) state) := consistent.setInfo (setMask_coreRunning set)
    have grown (size : Nat) : Consistent { setInfo thread (fun _ => info) state with infoSize := size } :=
      { inverse := changed.inverse
        bounded := changed.bounded
        created := changed.created
        fresh := changed.fresh
        log := changed.log }
    refine Meets.ite (fun _ => grown _) fun _ => Meets.ite (fun _ => threadYield_meets (grown _)) fun _ => ?_
    split
    case h_1 core running =>
      refine Meets.ite (fun _ => Meets.ite (fun _ => ?_) fun _ => grown _) fun _ => (grown _).quantumLeft _
      intro impossible; cases impossible
    case h_2 =>
      refine Meets.ite (fun _ => ?_) fun _ =>
        Meets.ite (fun _ => rescheduleFree_meets quantum time thread (grown _)) fun _ => grown _
      intro impossible; cases impossible

theorem periodicFrom_meets (quantum time delta : UInt64) (list : List (Fin cores)) (consistent : Consistent state) :
    Meets Expected (periodicFrom quantum time delta list state) Consistent := by
  induction list generalizing state with
  | nil => exact consistent
  | cons core rest ih =>
    unfold periodicFrom
    refine Meets.ite (fun _ => ?_) fun _ => ih (consistent.quantumLeft _)
    have meets := reschedule_meets quantum time core consistent
    split
    case h_1 fault result => exact meets.of_error result
    case h_2 next result => exact ih (meets.of_ok result)

theorem periodic_meets (consistent : Consistent state) : Meets Expected (periodic quantum time state) Consistent := by
  have meets := periodicFrom_meets quantum time (time - state.lastPeriodic) (List.finRange cores) consistent
  unfold periodic
  split
  case h_1 fault result => exact meets.of_error result
  case h_2 next result =>
    have holds := meets.of_ok result
    exact {
      inverse := holds.inverse
      bounded := holds.bounded
      created := holds.created
      fresh := holds.fresh
      log := holds.log }

theorem step_meets (consistent : Consistent state) (label : Label cores) :
    Meets Expected (step quantum state label) Consistent := by
  cases label with
  | create initial => exact consistent.threadCreate quantum initial
  | start thread time => exact threadStart_meets consistent
  | stall thread unscheduled time => exact threadStall_meets consistent unscheduled
  | resume thread time => exact threadResume_meets consistent
  | exit thread time => exact threadExit_meets consistent
  | yield thread time => exact threadYield_meets consistent
  | setAffinity calling thread mask time => exact threadSetAffinity_meets consistent calling mask
  | periodic time => exact periodic_meets consistent

end Events

theorem consistent_empty : Consistent (emptyState : State cores) where
  inverse core thread := by
    constructor <;> intro impossible <;> cases impossible
  bounded _ impossible := by cases impossible
  created _ impossible := by cases impossible
  fresh _ _ := rfl
  log _ member := by cases member

theorem Consistent.of_reachable {quantum : UInt64} {state : State cores}
    (reached : (machine quantum cores).Reachable state) : Consistent state := by
  refine Machine.Reach.invariant Consistent ?_ ?_ reached
  · rintro state rfl
    exact consistent_empty
  · exact fun state label next holds _ stepped => (step_meets holds label).of_ok stepped

/-- In every state of every run the two maps are inverse to each other, every
thread that `reschedule` placed was allowed there and runnable, and no call of
`reschedule` returned with the core idle and a thread waiting for it; and each
call returns.  The state is consistent, and from a consistent state `reschedule` returns in one where
what is new on a core may run there and its own core, if idle, has nothing to run. -/
theorem placement_right {quantum : UInt64} {state : State cores} (reached : (machine quantum cores).Reachable state) :
    (∀ core thread, state.coreThreadRunning core = some thread ↔ (state.threadInfo thread).coreRunning = some core) ∧
    (Consistent state ∧ ∀ between : State cores, Consistent between → ∀ time core next,
      reschedule quantum time core between = .ok next → Rescheduled core between next ∧ Consistent next) ∧
    (∀ core thread allowed runnable, .placed core thread allowed runnable ∈ state.log → allowed = true ∧ runnable = true) ∧
    (∀ core starved, .returned core starved ∈ state.log → starved = false) ∧
    ∀ label, (machine quantum cores).step state label ≠ .error .tooDeep := by
  have consistent := Consistent.of_reachable reached
  refine ⟨consistent.inverse, ⟨consistent, fun between holds time core next result => ?_⟩, ?_, ?_, ?_⟩
  · exact ⟨reschedule_rescheduled holds result, (rescheduleWithin_consistent holds result).1⟩
  · exact fun core thread allowed runnable member => consistent.log _ member
  · exact fun core starved member => consistent.log _ member
  · intro label deep
    exact (step_meets consistent label).of_error deep rfl

/-- Two threads share a core; when the first stalls, the second is placed and resumed. -/
theorem placement_right_shared :
    ∃ state : State 2, (machine 1000 2).Reachable state ∧ state.coreThreadRunning 0 = some 1 ∧
      ((∀ core thread, state.coreThreadRunning core = some thread ↔ (state.threadInfo thread).coreRunning = some core) ∧
        (Consistent state ∧ ∀ between : State 2, Consistent between → ∀ time core next,
          reschedule 1000 time core between = .ok next → Rescheduled core between next ∧ Consistent next) ∧
        (∀ core thread allowed runnable, .placed core thread allowed runnable ∈ state.log →
          allowed = true ∧ runnable = true) ∧
        (∀ core starved, .returned core starved ∈ state.log → starved = false) ∧
        ∀ label, (machine 1000 2).step state label ≠ .error .tooDeep) := by
  obtain ⟨state, ran, shared⟩ : ∃ state : State 2, (machine 1000 2).run emptyState
      [.create [0], .start 0 0, .create [0], .start 1 0, .stall 0 false 5000] = .ok state ∧
      state.coreThreadRunning 0 = some 1 := ⟨_, rfl, rfl⟩
  have starts : (machine 1000 2).initial emptyState := rfl
  have reached := Machine.Reachable.run (.initial starts) ran
  exact ⟨state, reached, shared, placement_right reached⟩

end Sniper.Scheduler

import Sniper.Library.Machine
import Mathlib.Data.Fintype.Card

/-! `SchedulerPinnedBase`: threads share the cores that their affinity masks allow.

`reschedule` places a thread through `ThreadManager::moveThread`, which may
resume it; the hook of the resumption comes back to the scheduler and may
reschedule a further core.  The recursion is bounded by a number of calls that
is never used up.  `log` is not in the source: it records what each call of
`reschedule` did at the moment it did it. -/

namespace Sniper.Scheduler

/-- The state of a thread, with whether it stalls only because it has no core (`STALL_UNSCHEDULED`). -/
inductive Status where
  | idle
  | initializing
  | running
  | stalled (unscheduled : Bool)
deriving DecidableEq, Repr

structure ThreadInfo (cores : Nat) where
  hasAffinity : Bool
  explicitAffinity : Bool
  coreAffinity : Fin cores → Bool
  coreRunning : Option (Fin cores)
  lastScheduledIn : UInt64
  lastScheduledOut : UInt64

def ThreadInfo.new : ThreadInfo cores := ⟨false, false, fun _ => false, none, 0, 0⟩

def ThreadInfo.isRunning (info : ThreadInfo cores) : Bool := info.coreRunning.isSome

def ThreadInfo.addAffinity (core : Fin cores) (info : ThreadInfo cores) : ThreadInfo cores :=
  { info with coreAffinity := Function.update info.coreAffinity core true, hasAffinity := true }

def ThreadInfo.clearAffinity (info : ThreadInfo cores) : ThreadInfo cores :=
  { info with coreAffinity := fun _ => false }

inductive Event (cores : Nat) where
  /-- A thread was placed, and whether its mask allowed the core and it was runnable. -/
  | placed (core : Fin cores) (thread : Nat) (allowed runnable : Bool)
  /-- `reschedule` returned, and whether it left the core idle with a thread to run on it. -/
  | returned (core : Fin cores) (starved : Bool)

structure State (cores : Nat) where
  lastPeriodic : UInt64
  threadInfo : Nat → ThreadInfo cores
  /-- `m_thread_info.size()` -/
  infoSize : Nat
  coreThreadRunning : Fin cores → Option Nat
  quantumLeft : Fin cores → UInt64
  threadsRunnable : Nat → Bool
  /-- `m_threads_runnable.size()` -/
  runnableSize : Nat
  status : Nat → Status
  /-- `Thread::getCore` -/
  threadCore : Nat → Option (Fin cores)
  numThreads : Nat
  log : List (Event cores)

inductive Fault where
  /-- "Invalid thread_id %d" -/
  | invalidThread
  /-- "Thread ended while not running on a core?" -/
  | noCore
  /-- The thread that ends is not running. -/
  | notRunning
  /-- "Invalid core %d found in sched_setaffinity() mask" -/
  | invalidCore
  /-- An index behind the end of a vector. -/
  | outOfBounds
  /-- More calls of `reschedule` inside each other than the model allows. -/
  | tooDeep
deriving DecidableEq, Repr

variable {cores : Nat}

def setInfo (thread : Nat) (change : ThreadInfo cores → ThreadInfo cores) (state : State cores) : State cores :=
  { state with threadInfo := Function.update state.threadInfo thread (change (state.threadInfo thread)) }

def findFreeCoreForThread (thread : Nat) (state : State cores) : Option (Fin cores) :=
  (List.finRange cores).find? fun core =>
    (state.threadInfo thread).coreAffinity core && (state.coreThreadRunning core).isNone

def getPS (time : UInt64) : UInt64 := time / 1000

/-- A running thread has a negative score, a waiting one a positive score. -/
def score (info : ThreadInfo cores) (time : UInt64) : Int64 :=
  if info.isRunning then (getPS info.lastScheduledIn - getPS time).toInt64
  else (getPS time - getPS info.lastScheduledOut).toInt64

/-- The thread may run on the core, is not stalled and does not run somewhere else. -/
def eligible (state : State cores) (core : Fin cores) (thread : Nat) : Bool :=
  let info := state.threadInfo thread
  info.coreAffinity core && state.threadsRunnable thread && (!info.isRunning || info.coreRunning == some core)

/-- The loop of `reschedule` over the threads, with `new_thread_id` and `max_score`. -/
def selectFrom (state : State cores) (time : UInt64) (core : Fin cores) : List Nat → Option Nat → Int64 → Option Nat
  | [], best, _ => best
  | thread :: rest, best, maxScore =>
    if eligible state core thread ∧ maxScore < score (state.threadInfo thread) time then
      selectFrom state time core rest (some thread) (score (state.threadInfo thread) time)
    else selectFrom state time core rest best maxScore

def selectThread (state : State cores) (time : UInt64) (core : Fin cores) : Option Nat :=
  selectFrom state time core (List.range state.runnableSize) none Int64.minValue

/-- The thread of the core leaves it: `moveThread` to no core. -/
def unschedule (time : UInt64) (core : Fin cores) (state : State cores) : State cores :=
  match state.coreThreadRunning core with
  | none => state
  | some thread =>
    let state := setInfo thread (fun info =>
      { info with coreRunning := none, lastScheduledOut := time + UInt64.ofNat (1000 * core) }) state
    { state with threadCore := Function.update state.threadCore thread none }

/-- The core gets the thread in both maps, before `moveThread` is called. -/
def place (time : UInt64) (core : Fin cores) (thread : Nat) (state : State cores) : State cores :=
  let state := { state with coreThreadRunning := Function.update state.coreThreadRunning core (some thread) }
  let state :=
    match (state.threadInfo thread).coreRunning with
    | none => state
    | some other => { state with coreThreadRunning := Function.update state.coreThreadRunning other none }
  let state := setInfo thread (fun info => { info with coreRunning := some core, lastScheduledIn := time }) state
  { state with
    log := .placed core thread ((state.threadInfo thread).coreAffinity core) (state.threadsRunnable thread) :: state.log }

/-- Whether some runnable thread that runs nowhere is allowed on the core. -/
def hasWaiting (state : State cores) (core : Fin cores) : Bool :=
  (List.range state.runnableSize).any fun thread =>
    state.threadsRunnable thread && !(state.threadInfo thread).isRunning && (state.threadInfo thread).coreAffinity core

/-- `reschedule` returns. -/
def returned (core : Fin cores) (state : State cores) : State cores :=
  { state with
    log := .returned core ((state.coreThreadRunning core).isNone && hasWaiting state core) :: state.log }

/-- `ThreadManager::resumeThread` up to the call of `threadResume`. -/
def markResumed (thread : Nat) (state : State cores) : State cores :=
  { state with
    status := Function.update state.status thread .running
    threadsRunnable := Function.update state.threadsRunnable thread true }

def renewQuantum (quantum : UInt64) (core : Fin cores) (state : State cores) : State cores :=
  { state with quantumLeft := Function.update state.quantumLeft core quantum }

/-- `ThreadManager::moveThread` to a core.  The hook of the resumption, `threadResume`, looks for a free core. -/
def moveThread (reschedule : Fin cores → State cores → Except Fault (State cores)) (core : Fin cores) (thread : Nat)
    (state : State cores) : Except Fault (State cores) :=
  let resumed : Except Fault (State cores) :=
    if state.threadCore thread = none ∧ state.status thread = .stalled true then
      match findFreeCoreForThread thread (markResumed thread state) with
      | none => .ok (markResumed thread state)
      | some free => reschedule free (markResumed thread state)
    else .ok state
  match resumed with
  | .error fault => .error fault
  | .ok state => .ok { state with threadCore := Function.update state.threadCore thread (some core) }

/-- `reschedule`, with at most `depth` calls inside each other. -/
def rescheduleWithin (quantum time : UInt64) : Nat → Fin cores → State cores → Except Fault (State cores)
  | 0, _, _ => .error .tooDeep
  | depth + 1, core, state =>
    let current := state.coreThreadRunning core
    -- The thread on this core is starting up.
    if current.any fun thread => state.status thread == .initializing then .ok (returned core state)
    else if state.infoSize < state.runnableSize then .error .outOfBounds
    else
      let new := selectThread state time core
      if current = new then .ok (returned core (renewQuantum quantum core state))
      else
        let cleared := unschedule time core state
        match new with
        | none =>
          .ok (returned core (renewQuantum quantum core
            { cleared with coreThreadRunning := Function.update cleared.coreThreadRunning core none }))
        | some thread =>
          match moveThread (rescheduleWithin quantum time depth) core thread (place time core thread cleared) with
          | .error fault => .error fault
          | .ok moved => .ok (returned core (renewQuantum quantum core moved))

def reschedule (quantum time : UInt64) (core : Fin cores) (state : State cores) : Except Fault (State cores) :=
  rescheduleWithin quantum time (cores + 2) core state

/-- What `threadStart`, `threadResume` and others do when the thread may have a free core. -/
def rescheduleFree (quantum time : UInt64) (thread : Nat) (state : State cores) : Except Fault (State cores) :=
  match findFreeCoreForThread thread state with
  | none => .ok state
  | some core => reschedule quantum time core state

/-- `threadCreate` after the affinity of the thread is known. -/
def createOn (quantum : UInt64) (thread : Nat) (state : State cores) : State cores :=
  match findFreeCoreForThread thread state with
  | none => setInfo thread (fun info => { info with coreRunning := none }) state
  | some core =>
    let state := setInfo thread (fun info => { info with coreRunning := some core }) state
    { state with
      coreThreadRunning := Function.update state.coreThreadRunning core (some thread)
      quantumLeft := Function.update state.quantumLeft core quantum
      threadCore := Function.update state.threadCore thread (some core) }

/-- `createThread`; the list is what `threadSetInitialAffinity` of the derived scheduler adds. -/
def threadCreate (quantum : UInt64) (initial : List (Fin cores)) (state : State cores) : State cores :=
  let thread := state.numThreads
  let state := { state with
    numThreads := thread + 1
    status := Function.update state.status thread .initializing
    infoSize := if state.infoSize ≤ thread then state.infoSize + 16 else state.infoSize }
  let state :=
    if (state.threadInfo thread).hasAffinity then state
    else setInfo thread (fun info => initial.foldl (fun info core => info.addAffinity core) info.clearAffinity) state
  createOn quantum thread state

/-- `onThreadStart`. -/
def threadStart (quantum time : UInt64) (thread : Nat) (state : State cores) : Except Fault (State cores) :=
  if state.numThreads ≤ thread then .error .invalidThread
  else
    let size := if state.runnableSize ≤ thread then state.runnableSize + 16 else state.runnableSize
    if size ≤ thread then .error .outOfBounds
    else
      match rescheduleFree quantum time thread { markResumed thread state with runnableSize := size } with
      | .error fault => .error fault
      | .ok state =>
        if (state.threadCore thread).isSome then
          .ok { state with status := Function.update state.status thread .running }
        else .ok { state with status := Function.update state.status thread (.stalled true) }

/-- `threadStall` and `threadExit` of the scheduler. -/
def leaveCore (quantum time : UInt64) (thread : Nat) (state : State cores) : Except Fault (State cores) :=
  match (state.threadInfo thread).coreRunning with
  | none => .ok state
  | some core => reschedule quantum time core state

/-- `stallThread_async`. -/
def threadStall (quantum time : UInt64) (thread : Nat) (unscheduled : Bool) (state : State cores) :
    Except Fault (State cores) :=
  if state.numThreads ≤ thread then .error .invalidThread
  else
    let state := { state with status := Function.update state.status thread (.stalled unscheduled) }
    if unscheduled then .ok state
    else if state.runnableSize ≤ thread then .error .outOfBounds
    else leaveCore quantum time thread { state with threadsRunnable := Function.update state.threadsRunnable thread false }

/-- `resumeThread_async`. -/
def threadResume (quantum time : UInt64) (thread : Nat) (state : State cores) : Except Fault (State cores) :=
  if state.numThreads ≤ thread then .error .invalidThread
  else if state.runnableSize ≤ thread then .error .outOfBounds
  else rescheduleFree quantum time thread (markResumed thread state)

/-- `onThreadExit`; the threads it wakes up are resumed before. -/
def threadExit (quantum time : UInt64) (thread : Nat) (state : State cores) : Except Fault (State cores) :=
  if state.numThreads ≤ thread then .error .invalidThread
  else if (state.threadCore thread).isNone then .error .noCore
  else if state.status thread ≠ .running then .error .notRunning
  else if state.runnableSize ≤ thread then .error .outOfBounds
  else
    leaveCore quantum time thread
      { state with
        status := Function.update state.status thread .idle
        threadCore := Function.update state.threadCore thread none
        threadsRunnable := Function.update state.threadsRunnable thread false }

def threadYield (quantum time : UInt64) (thread : Nat) (state : State cores) : Except Fault (State cores) :=
  if state.infoSize ≤ thread then .error .outOfBounds
  else
    match (state.threadInfo thread).coreRunning with
    | none => .ok state
    | some core =>
      match reschedule quantum time core { state with quantumLeft := Function.update state.quantumLeft core 0 } with
      | .error fault => .error fault
      | .ok state =>
        if (state.threadInfo thread).coreAffinity core then .ok state else rescheduleFree quantum time thread state

/-- The mask of `threadSetAffinity`: the cpus in it, or every core. -/
def setMask (mask : Option (List Nat)) (info : ThreadInfo cores) : Except Fault (ThreadInfo cores) :=
  let info := { info with explicitAffinity := true }
  match mask with
  | none => .ok ((List.finRange cores).foldl (fun info core => info.addAffinity core) info)
  | some cpus =>
    cpus.foldlM (fun info cpu => if valid : cpu < cores then .ok (info.addAffinity ⟨cpu, valid⟩) else .error .invalidCore)
      info.clearAffinity

def threadSetAffinity (quantum time : UInt64) (calling : Option Nat) (thread : Nat) (mask : Option (List Nat))
    (state : State cores) : Except Fault (State cores) :=
  match setMask mask (state.threadInfo thread) with
  | .error fault => .error fault
  | .ok info =>
    let state := { setInfo thread (fun _ => info) state with
      infoSize := if state.infoSize ≤ thread then thread + 16 else state.infoSize }
    -- The thread is not created yet.
    if state.numThreads ≤ thread then .ok state
    else if calling = some thread then threadYield quantum time thread state
    else
      match (state.threadInfo thread).coreRunning with
      | some core =>
        if info.coreAffinity core then
          if state.runnableSize ≤ thread then .error .outOfBounds else .ok state
        else .ok { state with quantumLeft := Function.update state.quantumLeft core 0 }
      | none =>
        if state.runnableSize ≤ thread then .error .outOfBounds
        else if state.threadsRunnable thread then rescheduleFree quantum time thread state
        else .ok state

/-- The loop of `periodic` over the cores. -/
def periodicFrom (quantum time delta : UInt64) : List (Fin cores) → State cores → Except Fault (State cores)
  | [], state => .ok state
  | core :: rest, state =>
    if state.quantumLeft core < delta ∨ state.coreThreadRunning core = none then
      match reschedule quantum time core state with
      | .error fault => .error fault
      | .ok state => periodicFrom quantum time delta rest state
    else
      periodicFrom quantum time delta rest
        { state with quantumLeft := Function.update state.quantumLeft core (state.quantumLeft core - delta) }

def periodic (quantum time : UInt64) (state : State cores) : Except Fault (State cores) :=
  match periodicFrom quantum time (time - state.lastPeriodic) (List.finRange cores) state with
  | .error fault => .error fault
  | .ok state => .ok { state with lastPeriodic := time }

inductive Label (cores : Nat) where
  | create (initial : List (Fin cores))
  | start (thread : Nat) (time : UInt64)
  | stall (thread : Nat) (unscheduled : Bool) (time : UInt64)
  | resume (thread : Nat) (time : UInt64)
  | exit (thread : Nat) (time : UInt64)
  | yield (thread : Nat) (time : UInt64)
  | setAffinity (calling : Option Nat) (thread : Nat) (mask : Option (List Nat)) (time : UInt64)
  | periodic (time : UInt64)

def step (quantum : UInt64) (state : State cores) : Label cores → Except Fault (State cores)
  | .create initial => .ok (threadCreate quantum initial state)
  | .start thread time => threadStart quantum time thread state
  | .stall thread unscheduled time => threadStall quantum time thread unscheduled state
  | .resume thread time => threadResume quantum time thread state
  | .exit thread time => threadExit quantum time thread state
  | .yield thread time => threadYield quantum time thread state
  | .setAffinity calling thread mask time => threadSetAffinity quantum time calling thread mask state
  | .periodic time => periodic quantum time state

def emptyState : State cores where
  lastPeriodic := 0
  threadInfo := fun _ => .new
  infoSize := 0
  coreThreadRunning := fun _ => none
  quantumLeft := fun _ => 0
  threadsRunnable := fun _ => false
  runnableSize := 16
  status := fun _ => .idle
  threadCore := fun _ => none
  numThreads := 0
  log := []

def machine (quantum : UInt64) (cores : Nat) : Machine (State cores) (Label cores) Fault where
  initial state := state = emptyState
  step := step quantum

end Sniper.Scheduler

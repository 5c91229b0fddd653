import Sniper.Scheduler.Placement
import Mathlib.Data.Finset.Card

/-! `SchedulerBigSmall`: threads that are promoted to the big cores, on top of `SchedulerPinnedBase`.

`rng` gives what `rng_next` returns and `clock` the time at which a core is rescheduled after a change of affinity, call
after call.  `exited` is not in the source: it tells which threads have ended. -/

namespace Sniper.Scheduler.BigSmall

structure Config (cores : Nat) where
  quantum : UInt64
  /-- The cores with the tag "big". -/
  big : Fin cores → Bool

variable {cores : Nat}

def Config.numBigCores (config : Config cores) : Nat := (List.finRange cores).countP config.big

def Config.maskBig (config : Config cores) : List Nat := ((List.finRange cores).filter config.big).map Fin.val

def Config.maskSmall (config : Config cores) : List Nat := ((List.finRange cores).filter fun core => !config.big core).map Fin.val

structure State (cores : Nat) where
  base : Scheduler.State cores
  isBig : Nat → Bool
  lastReshuffle : UInt64
  rng : Nat → Nat
  clock : Nat → UInt64
  exited : Nat → Bool

/-- `threadSetAffinity` of the base without a calling thread.  The flag of a thread behind the end of `m_threads_runnable`,
which has not started yet, reads as false. -/
def setAffinity (quantum time : UInt64) (thread : Nat) (mask : List Nat) (state : Scheduler.State cores) :
    Except Fault (Scheduler.State cores) :=
  match setMask (some mask) (state.threadInfo thread) with
  | .error fault => .error fault
  | .ok info =>
    let state := { setInfo thread (fun _ => info) state with
      infoSize := if state.infoSize ≤ thread then thread + 16 else state.infoSize }
    if state.numThreads ≤ thread then .ok state
    else
      match (state.threadInfo thread).coreRunning with
      | some core =>
        if info.coreAffinity core then .ok state
        else .ok { state with quantumLeft := Function.update state.quantumLeft core 0 }
      | none => if state.threadsRunnable thread then rescheduleFree quantum time thread state else .ok state

variable (config : Config cores)

def moveTo (mask : List Nat) (isBig : Bool) (thread : Nat) (state : State cores) : Except Fault (State cores) := do
  let base ← setAffinity config.quantum (state.clock 0) thread mask state.base
  return { state with base, isBig := Function.update state.isBig thread isBig, clock := fun call => state.clock (call + 1) }

def moveToSmall (thread : Nat) (state : State cores) : Except Fault (State cores) :=
  moveTo config config.maskSmall false thread state

def moveToBig (thread : Nat) (state : State cores) : Except Fault (State cores) :=
  moveTo config config.maskBig true thread state

def eligibleThreads (state : State cores) : List Nat :=
  (List.range state.base.numThreads).filter fun thread => !state.isBig thread && state.base.threadsRunnable thread

def pickBigThread (state : State cores) : Except Fault (State cores) :=
  match (eligibleThreads state)[state.rng 0 % (eligibleThreads state).length]? with
  | none => .ok state
  | some thread => moveToBig config thread { state with rng := fun call => state.rng (call + 1) }

/-- `threadSetInitialAffinity`, for a thread that has no affinity yet. -/
def setInitialAffinity (thread : Nat) (state : State cores) : Except Fault (State cores) :=
  if (state.base.threadInfo thread).hasAffinity then .ok state else moveToSmall config thread state

def threadCreate (state : State cores) : Except Fault (State cores) := do
  let thread := state.base.numThreads
  let base := { state.base with
    numThreads := thread + 1
    status := Function.update state.base.status thread .initializing
    infoSize := if state.base.infoSize ≤ thread then state.base.infoSize + 16 else state.base.infoSize }
  let state ← setInitialAffinity config thread { state with base }
  return { state with base := createOn config.quantum thread state.base }

/-- A big thread is replaced, and becomes small. -/
def demote (thread : Nat) (state : State cores) : Except Fault (State cores) :=
  if state.isBig thread then do
    let state ← pickBigThread config state
    moveToSmall config thread state
  else .ok state

/-- `stallThread_async`. -/
def threadStall (thread : Nat) (unscheduled : Bool) (time : UInt64) (state : State cores) : Except Fault (State cores) :=
  if state.base.numThreads ≤ thread then .error .invalidThread
  else
    let base := { state.base with status := Function.update state.base.status thread (.stalled unscheduled) }
    if unscheduled then .ok { state with base }
    else if base.runnableSize ≤ thread then .error .outOfBounds
    else do
      let base := { base with threadsRunnable := Function.update base.threadsRunnable thread false }
      let state ← demote config thread { state with base }
      let base ← leaveCore config.quantum time thread state.base
      return { state with base }

def replace (thread : Nat) (state : State cores) : Except Fault (State cores) :=
  if state.isBig thread then pickBigThread config state else .ok state

/-- `onThreadExit`. -/
def threadExit (thread : Nat) (time : UInt64) (state : State cores) : Except Fault (State cores) :=
  if state.base.numThreads ≤ thread then .error .invalidThread
  else if (state.base.threadCore thread).isNone then .error .noCore
  else if state.base.status thread ≠ .running then .error .notRunning
  else if state.base.runnableSize ≤ thread then .error .outOfBounds
  else do
    let base := { state.base with
      status := Function.update state.base.status thread .idle
      threadCore := Function.update state.base.threadCore thread none
      threadsRunnable := Function.update state.base.threadsRunnable thread false }
    let state ← replace config thread { state with base, exited := Function.update state.exited thread true }
    let base ← leaveCore config.quantum time thread state.base
    return { state with base }

/-- The first loop of `periodic`. -/
def moveAllToSmall (state : State cores) : Except Fault (State cores) :=
  (List.range state.base.numThreads).foldlM
    (fun state thread => if state.isBig thread then moveToSmall config thread state else .ok state) state

/-- The second loop of `periodic`. -/
def pickBigThreads (state : State cores) : Except Fault (State cores) :=
  (List.range (min config.numBigCores state.base.numThreads)).foldlM (fun state _ => pickBigThread config state) state

def reshuffle (time : UInt64) (state : State cores) : Except Fault (State cores) :=
  if state.lastReshuffle + config.quantum < time then do
    let state ← moveAllToSmall config state
    let state ← pickBigThreads config state
    return { state with lastReshuffle := time }
  else .ok state

def periodic (time : UInt64) (state : State cores) : Except Fault (State cores) := do
  let state ← reshuffle config time state
  let base ← Scheduler.periodic config.quantum time state.base
  return { state with base }

inductive Label (cores : Nat) where
  | create
  | start (thread : Nat) (time : UInt64)
  | stall (thread : Nat) (unscheduled : Bool) (time : UInt64)
  | resume (thread : Nat) (time : UInt64)
  | exit (thread : Nat) (time : UInt64)
  | yield (thread : Nat) (time : UInt64)
  | setAffinity (calling : Option Nat) (thread : Nat) (mask : Option (List Nat)) (time : UInt64)
  | periodic (time : UInt64)

/-- A step that only the base takes. -/
def onBase (result : Except Fault (Scheduler.State cores)) (state : State cores) : Except Fault (State cores) := do
  let base ← result
  return { state with base }

def step (state : State cores) : Label cores → Except Fault (State cores)
  | .create => threadCreate config state
  | .start thread time => onBase (threadStart config.quantum time thread state.base) state
  | .stall thread unscheduled time => threadStall config thread unscheduled time state
  | .resume thread time => onBase (threadResume config.quantum time thread state.base) state
  | .exit thread time => threadExit config thread time state
  | .yield thread time => onBase (threadYield config.quantum time thread state.base) state
  | .setAffinity calling thread mask time =>
    onBase (threadSetAffinity config.quantum time calling thread mask state.base) state
  | .periodic time => periodic config time state

def machine : Machine (State cores) (Label cores) Fault where
  initial state := ∃ rng clock, state = ⟨emptyState, fun _ => false, 0, rng, clock, fun _ => false⟩
  step := step config

/-- A thread that has ended starts, stalls, resumes and ends no more. -/
def Alive (state : State cores) : Label cores → Prop
  | .start thread _ | .stall thread _ _ | .resume thread _ | .exit thread _ | .yield thread _ => state.exited thread = false
  | .create | .setAffinity _ _ _ _ | .periodic _ => True

def bigThreads (state : State cores) : Finset Nat :=
  (Finset.range state.base.numThreads).filter fun thread => state.isBig thread = true ∧ state.exited thread = false

end Sniper.Scheduler.BigSmall

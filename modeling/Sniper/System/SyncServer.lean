import Sniper.Library.Machine
import Sniper.Library.Outcome
import Sniper.Library.WaitQueue

/-! `SimMutex` and `SimCond`: mutexes and condition variables of the simulated threads.

`arrivals`, `grants`, `stalls` and `resumes` are not in the source: they record
for each mutex who joined its queue and who left it as the owner, and for each
thread how often it was put to sleep and woken up. -/

namespace Sniper.System.SyncServer

open WaitQueue (Located)

structure SimMutex (Thread : Type) where
  owner : Option Thread
  waiting : List Thread
deriving DecidableEq, Repr

structure CondWaiter (Thread Mutex : Type) where
  thread : Thread
  mutex : Mutex
deriving DecidableEq, Repr

structure State (Thread Mutex Cond : Type) where
  mutexes : Mutex → Option (SimMutex Thread)
  conds : Cond → List (CondWaiter Thread Mutex)
  /-- The thread manager has the thread stalled. -/
  stalled : Thread → Bool
  arrivals : Mutex → List Thread
  grants : Mutex → List Thread
  stalls : Thread → Nat
  resumes : Thread → Nat

inductive Fault where
  /-- "Invalid mutex id passed" -/
  | invalidMutex
  /-- `assert(m_owner == thread_id)` -/
  | notOwner
  /-- A stalled thread makes no calls. -/
  | blocked
deriving DecidableEq, Repr

variable {Thread Mutex Cond : Type} [DecidableEq Thread] [DecidableEq Mutex] [DecidableEq Cond]

/-- `getMutex`: a mutex that is not known is created. -/
def getMutex (state : State Thread Mutex Cond) (mutex : Mutex) : SimMutex Thread :=
  (state.mutexes mutex).getD ⟨none, []⟩

def setMutex (mutex : Mutex) (value : SimMutex Thread) (state : State Thread Mutex Cond) : State Thread Mutex Cond :=
  { state with mutexes := Function.update state.mutexes mutex (some value) }

def stallThread (thread : Thread) (state : State Thread Mutex Cond) : State Thread Mutex Cond :=
  { state with
    stalled := Function.update state.stalled thread true
    stalls := Function.update state.stalls thread (state.stalls thread + 1) }

def resumeThread (thread : Thread) (state : State Thread Mutex Cond) : State Thread Mutex Cond :=
  { state with
    stalled := Function.update state.stalled thread false
    resumes := Function.update state.resumes thread (state.resumes thread + 1) }

/-- `m_waiting.push` of a mutex. -/
def enqueue (thread : Thread) (mutex : Mutex) (state : State Thread Mutex Cond) : State Thread Mutex Cond :=
  let simMutex := getMutex state mutex
  { setMutex mutex { simMutex with waiting := simMutex.waiting ++ [thread] } state with
    arrivals := Function.update state.arrivals mutex (state.arrivals mutex ++ [thread]) }

/-- `SimMutex::isLocked`: owned by someone else. -/
def isLocked (state : State Thread Mutex Cond) (thread : Thread) (mutex : Mutex) : Bool :=
  match (getMutex state mutex).owner with
  | none => false
  | some owner => owner ≠ thread

def lock (thread : Thread) (mutex : Mutex) (state : State Thread Mutex Cond) : State Thread Mutex Cond :=
  match (getMutex state mutex).owner with
  | none => setMutex mutex { getMutex state mutex with owner := some thread } state
  | some _ => stallThread thread (enqueue thread mutex state)

/-- `SimMutex::lock_async`, for a thread that is stalled. -/
def lockAsync (thread : Thread) (mutex : Mutex) (state : State Thread Mutex Cond) : State Thread Mutex Cond :=
  match (getMutex state mutex).owner with
  | none => resumeThread thread (setMutex mutex { getMutex state mutex with owner := some thread } state)
  | some _ => enqueue thread mutex state

def unlock (thread : Thread) (mutex : Mutex) (state : State Thread Mutex Cond) :
    Except Fault (State Thread Mutex Cond) :=
  if (getMutex state mutex).owner = some thread then
    match (getMutex state mutex).waiting with
    | [] => .ok (setMutex mutex ⟨none, []⟩ state)
    | waiter :: rest =>
      .ok { resumeThread waiter (setMutex mutex ⟨some waiter, rest⟩ state) with
        grants := Function.update state.grants mutex (state.grants mutex ++ [waiter]) }
  else .error .notOwner

def mutexLock (thread : Thread) (mutex : Mutex) (tryLock : Bool) (state : State Thread Mutex Cond) :
    State Thread Mutex Cond :=
  if tryLock && isLocked state thread mutex then state else lock thread mutex state

def mutexUnlock (thread : Thread) (mutex : Mutex) (state : State Thread Mutex Cond) :
    Except Fault (State Thread Mutex Cond) :=
  if (state.mutexes mutex).isSome then unlock thread mutex state else .error .invalidMutex

/-- `SimCond::wait`. -/
def condWait (thread : Thread) (cond : Cond) (mutex : Mutex) (state : State Thread Mutex Cond) :
    Except Fault (State Thread Mutex Cond) :=
  match unlock thread mutex state with
  | .error fault => .error fault
  | .ok state =>
    .ok (stallThread thread
      { state with conds := Function.update state.conds cond (state.conds cond ++ [⟨thread, mutex⟩]) })

/-- `SimCond::signal`, and one turn of the loop of `broadcast`. -/
def condSignal (cond : Cond) (state : State Thread Mutex Cond) : State Thread Mutex Cond :=
  match state.conds cond with
  | [] => state
  | woken :: rest => lockAsync woken.thread woken.mutex { state with conds := Function.update state.conds cond rest }

/-- The loop of `SimCond::broadcast`, for as many turns as there are waiters. -/
def broadcastWithin (cond : Cond) : Nat → State Thread Mutex Cond → State Thread Mutex Cond
  | 0, state => state
  | turns + 1, state =>
    if (state.conds cond).isEmpty then state else broadcastWithin cond turns (condSignal cond state)

def condBroadcast (cond : Cond) (state : State Thread Mutex Cond) : State Thread Mutex Cond :=
  broadcastWithin cond (state.conds cond).length state

inductive Operation (Mutex Cond : Type) where
  | lock (mutex : Mutex)
  | tryLock (mutex : Mutex)
  | unlock (mutex : Mutex)
  | condWait (cond : Cond) (mutex : Mutex)
  | condSignal (cond : Cond)
  | condBroadcast (cond : Cond)

def perform (thread : Thread) (state : State Thread Mutex Cond) :
    Operation Mutex Cond → Except Fault (State Thread Mutex Cond)
  | .lock mutex => .ok (mutexLock thread mutex false state)
  | .tryLock mutex => .ok (mutexLock thread mutex true state)
  | .unlock mutex => mutexUnlock thread mutex state
  | .condWait cond mutex => condWait thread cond mutex state
  | .condSignal cond => .ok (condSignal cond state)
  | .condBroadcast cond => .ok (condBroadcast cond state)

def machine (Thread Mutex Cond : Type) [DecidableEq Thread] [DecidableEq Mutex] [DecidableEq Cond] :
    Machine (State Thread Mutex Cond) (Thread × Operation Mutex Cond) Fault where
  initial state := state = ⟨fun _ => none, fun _ => [], fun _ => false, fun _ => [], fun _ => [], fun _ => 0, fun _ => 0⟩
  step state label := if state.stalled label.1 then .error .blocked else perform label.1 state label.2

end Sniper.System.SyncServer

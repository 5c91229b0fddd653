import Sniper.Library.Machine
import Mathlib.Algebra.Ring.Nat

/-! `SmtTimer`: the barrier between the threads that share a core.

The threads of the host that wait at the barrier or synchronize with the global one are kept by the SMT thread they
simulate.  The micro-operations a call finds in the reorder buffers are part of the call. -/

namespace Sniper.Performance.SmtTimer

/-- `SmtThread`, with the futex of its condition variable. -/
structure SmtThread where
  core : Nat
  thread : Option Nat
  inWakeup : Bool
  running : Bool
  inBarrier : Bool
  signalled : Bool
deriving DecidableEq

structure Config where
  dispatchWidth : Nat
  /-- Whether there is a client of the global barrier. -/
  client : Bool

/-- `rob.size()`, which is 32 bits wide, and `m_num_in_rob`. -/
structure RobCounts where
  robSize : Nat
  numInRob : Nat
  held : numInRob ≤ robSize
  small : robSize < 2 ^ 32

def RobCounts.threadNumSurplusInstructions (counts : RobCounts) : Nat := counts.robSize - counts.numInRob

def RobCounts.threadHasEnoughInstructions (config : Config) (counts : RobCounts) : Bool :=
  counts.threadNumSurplusInstructions > 2 * config.dispatchWidth % 2 ^ 64

/-- `execute_thread` is none for `INVALID_SMTTHREAD_ID`. -/
structure State where
  threads : List SmtThread
  inSync : Bool
  enabled : Bool
  executeThread : Option Nat
  /-- In `cond.wait`. -/
  waiting : List Nat
  /-- In `client->synchronize()`. -/
  syncing : List Nat

/-- The loop of `isBarrierReached`. -/
def allInBarrier (anyInBarrier : Bool) : List SmtThread → Bool
  | [] => anyInBarrier
  | thread :: rest =>
    if thread.running && !thread.inBarrier then false else allInBarrier (anyInBarrier || thread.inBarrier) rest

def isBarrierReached (state : State) : Bool :=
  if state.inSync then false else allInBarrier false state.threads

/-- What `barrierRelease` keeps while it goes over the threads. -/
structure Progress where
  numRunning : Nat
  releaseMe : Bool
  executeThread : Option Nat

def Progress.count (thread : SmtThread) (progress : Progress) : Progress :=
  { progress with numRunning := progress.numRunning + if thread.running then 1 else 0 }

def release (caller : Option Nat) (index : Nat) (thread : SmtThread) (progress : Progress) : SmtThread × Progress :=
  if caller = some index then (thread, { progress with releaseMe := true })
  else ({ thread with inBarrier := false, signalled := true }, progress)

/-- Releases those threads for which we want more instructions. -/
def releaseWanted (config : Config) (counts : Nat → RobCounts) (releaseAll : Bool) (caller : Option Nat) :
    Nat → List SmtThread → Progress → List SmtThread × Progress
  | _, [], progress => ([], progress)
  | index, thread :: rest, progress =>
    if !thread.inBarrier then
      let others := releaseWanted config counts releaseAll caller (index + 1) rest (progress.count thread)
      (thread :: others.1, others.2)
    else if (counts index).threadHasEnoughInstructions config then
      let others := releaseWanted config counts releaseAll caller (index + 1) rest progress
      (thread :: others.1, others.2)
    else
      let released := release caller index thread (progress.count thread)
      if releaseAll then
        let others := releaseWanted config counts releaseAll caller (index + 1) rest released.2
        (released.1 :: others.1, others.2)
      else (released.1 :: rest, { released.2 with executeThread := some index })

/-- Releases running threads with fewer surplus instructions than the limit. -/
def releaseBelow (counts : Nat → RobCounts) (releaseAll : Bool) (caller : Option Nat) (limit : Nat) :
    Nat → List SmtThread → Progress → List SmtThread × Progress
  | _, [], progress => ([], progress)
  | index, thread :: rest, progress =>
    if thread.inBarrier && thread.running && (counts index).threadNumSurplusInstructions < limit then
      let released := release caller index thread { progress with numRunning := progress.numRunning + 1 }
      if releaseAll then
        let others := releaseBelow counts releaseAll caller limit (index + 1) rest released.2
        (released.1 :: others.1, others.2)
      else (released.1 :: rest, { released.2 with executeThread := some index })
    else
      let others := releaseBelow counts releaseAll caller limit (index + 1) rest progress
      (thread :: others.1, others.2)

/-- `while (num_running == 0)`, none where the fuel runs out. -/
def releaseSome (counts : Nat → RobCounts) (releaseAll : Bool) (caller : Option Nat) :
    Nat → Nat → List SmtThread × Progress → Option (List SmtThread × Progress)
  | 0, _, _ => none
  | fuel + 1, limit, (threads, progress) =>
    if progress.numRunning ≠ 0 then some (threads, progress)
    else
      releaseSome counts releaseAll caller fuel (2 * limit % 2 ^ 64)
        (releaseBelow counts releaseAll caller limit 0 threads progress)

/-- The state, and whether the caller is released. -/
def barrierRelease (config : Config) (fuel : Nat) (counts : Nat → RobCounts) (releaseAll : Bool) (caller : Option Nat)
    (state : State) : Option (State × Bool) :=
  (releaseSome counts releaseAll caller fuel 1
    (releaseWanted config counts releaseAll caller 0 state.threads ⟨0, false, caller⟩)).map fun released =>
      ({ state with threads := released.1, executeThread := released.2.executeThread }, released.2.releaseMe)

inductive Failure where
  | outOfFuel
  | assertion
  | noThread
deriving DecidableEq

def setThread (index : Nat) (change : SmtThread → SmtThread) (state : State) : State :=
  { state with threads := state.threads.modify index change }

/-- `cond.wait`, until the next signal. -/
def wait (index : Nat) (state : State) : State :=
  { setThread index (fun thread => { thread with signalled := false }) state with waiting := index :: state.waiting }

/-- The end of `simulate`, after the global barrier. -/
def afterSync (config : Config) (fuel : Nat) (counts : Nat → RobCounts) (index : Nat) (state : State) :
    Except Failure State :=
  match barrierRelease config fuel counts true (some index) state with
  | none => .error .outOfFuel
  | some released => .ok released.1

/-- `simulate`, after `barrier` has returned. -/
def afterBarrier (config : Config) (fuel : Nat) (counts : Nat → RobCounts) (index : Nat) (state : State) :
    Except Failure State :=
  if state.executeThread = some index then
    let executed := { state with executeThread := none }
    if config.client then .ok { executed with inSync := true, syncing := index :: state.syncing }
    else afterSync config fuel counts index executed
  else .ok state

/-- `simulate`, with the counts before and after `execute`. -/
def simulate (config : Config) (fuel : Nat) (before after : Nat → RobCounts) (index : Nat) (state : State) :
    Except Failure State :=
  match state.threads[index]? with
  | none => .error .noThread
  | some thread =>
    if (before index).threadNumSurplusInstructions ≤ 128 then .ok state
    else if !state.enabled then .ok state
    else if thread.thread = none then .error .assertion
    else
      let entered := setThread index (fun thread => { thread with inBarrier := true }) state
      if !isBarrierReached entered then .ok (wait index entered)
      else
        match barrierRelease config fuel before false (some index) entered with
        | none => .error .outOfFuel
        | some (released, releaseMe) =>
          if releaseMe then
            afterBarrier config fuel after index
              (setThread index (fun thread => { thread with inBarrier := false }) released)
          else .ok (wait index released)

def signalBarrier (config : Config) (fuel : Nat) (counts : Nat → RobCounts) (state : State) : Except Failure State :=
  if isBarrierReached state then
    match barrierRelease config fuel counts false none state with
    | none => .error .outOfFuel
    | some released => .ok released.1
  else .ok state

def findSmtThreadFromThread (threadId : Nat) (state : State) : Option Nat :=
  state.threads.findIdx? fun thread => thread.thread = some threadId

def findSmtThreadFromCore (coreId : Nat) (state : State) : Option Nat :=
  state.threads.findIdx? fun thread => thread.core = coreId

/-- Changes the SMT thread of a thread, if it is one of ours. -/
def changeThread (threadId : Nat) (change : SmtThread → SmtThread) (state : State) : State :=
  match findSmtThreadFromThread threadId state with
  | none => state
  | some index => setThread index change state

def threadStart (threadId : Nat) (state : State) : State :=
  changeThread threadId (fun thread => { thread with running := true }) state

/-- `threadExit` and `threadStall` -/
def threadStop (config : Config) (fuel : Nat) (counts : Nat → RobCounts) (threadId : Nat) (state : State) :
    Except Failure State :=
  signalBarrier config fuel counts (changeThread threadId (fun thread => { thread with running := false }) state)

def threadResume (threadId : Nat) (state : State) : State :=
  changeThread threadId (fun thread => { thread with inWakeup := true, running := true }) state

def wakeUp (thread : SmtThread) : SmtThread :=
  if thread.inBarrier then { thread with inBarrier := false, signalled := true } else thread

/-- The core is none for `INVALID_CORE_ID`. -/
def threadMigrate (threadId : Nat) (coreId : Option Nat) (state : State) : State :=
  let left := changeThread threadId (fun thread => wakeUp { thread with running := false, thread := none }) state
  match coreId.bind fun coreId => findSmtThreadFromCore coreId left with
  | none => left
  | some index =>
    setThread index (fun thread => { thread with inWakeup := true, running := true, thread := some threadId }) left

def disable (state : State) : State :=
  { state with enabled := false, threads := state.threads.map wakeUp }

def roiBegin (state : State) : State :=
  { state with threads := state.threads.map fun thread => { thread with inWakeup := false } }

inductive Event where
  | simulate (index : Nat) (before after : Nat → RobCounts)
  /-- `cond.wait` returns. -/
  | wake (index : Nat) (counts : Nat → RobCounts)
  /-- `client->synchronize()` returns. -/
  | synchronized (index : Nat) (counts : Nat → RobCounts)
  | threadStart (threadId : Nat)
  | threadExit (threadId : Nat) (counts : Nat → RobCounts)
  | threadStall (threadId : Nat) (counts : Nat → RobCounts)
  | threadResume (threadId : Nat)
  | threadMigrate (threadId : Nat) (coreId : Option Nat)
  | roiBegin
  | enable
  | disable

def step (config : Config) (fuel : Nat) (state : State) (event : Event) : Except Failure State :=
  match event with
  | .simulate index before after => simulate config fuel before after index state
  | .wake index counts =>
    if index ∈ state.waiting ∧ (state.threads[index]?.any fun thread => thread.signalled) then
      afterBarrier config fuel counts index { state with waiting := state.waiting.erase index }
    else .error .noThread
  | .synchronized index counts =>
    if index ∈ state.syncing then
      afterSync config fuel counts index { state with inSync := false, syncing := state.syncing.erase index }
    else .error .noThread
  | .threadStart threadId => .ok (threadStart threadId state)
  | .threadExit threadId counts => threadStop config fuel counts threadId state
  | .threadStall threadId counts => threadStop config fuel counts threadId state
  | .threadResume threadId => .ok (threadResume threadId state)
  | .threadMigrate threadId coreId => .ok (threadMigrate threadId coreId state)
  | .roiBegin => .ok (roiBegin state)
  | .enable => .ok { state with enabled := true }
  | .disable => .ok (disable state)

/-- Cores without a thread, before the first start. -/
def State.initial (cores : List Nat) : State where
  threads := cores.map fun core => ⟨core, none, false, false, false, false⟩
  inSync := false
  enabled := true
  executeThread := some 0
  waiting := []
  syncing := []

/-- The fuel that `barrierRelease` needs where it returns. -/
def enoughFuel : Nat := 64

def machine (config : Config) (cores : List Nat) : Machine State Event Failure where
  initial state := state = .initial cores
  step := step config enoughFuel

end Sniper.Performance.SmtTimer

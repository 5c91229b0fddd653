import Sniper.Library.Machine
import Sniper.Performance.HistoryList

/-! `BarrierSyncServer`: the cores run one barrier interval at a time.

The server is called with the lock of the thread manager held.  The loop of
`barrierRelease` calls the periodic hooks in every turn, and these call back
into the server; so one turn is a step of its own (`iterate`), and what the
hooks do stands between two turns.  `entries` and `wakeups` are not in the
source: they count how often each core entered the barrier and was let go. -/

namespace Sniper.System

open Performance (addTime)

/-- The state of a core and of the thread on it, as the thread manager knows them. -/
inductive Occupant (Thread : Type) where
  | none
  | initializing (thread : Thread)
  | running (thread : Thread) (isThreadRunning : Bool)
deriving DecidableEq, Repr

structure Threads (cores : Nat) (Thread : Type) where
  occupant : Fin cores → Occupant Thread
  anyThreadRunning : Bool
  /-- `getNextTimeout` is not `MaxTime`. -/
  timeoutPending : Bool

namespace BarrierSyncServer

structure Config where
  /-- `clock_skew_minimization/barrier/quantum` -/
  barrierInterval : Nat
  numHostCores : Nat
  barrierInterval_lt : barrierInterval < 2 ^ 64

inductive Phase (Thread : Type) where
  | idle
  | releasing (caller : Option Thread) (continueUntilRelease : Bool)
deriving DecidableEq, Repr

structure State (cores : Nat) (Thread : Type) where
  nextBarrierTime : Nat
  globalTime : Nat
  localClock : Fin cores → Nat
  barrierAcquire : Fin cores → Bool
  coreThread : Fin cores → Option Thread
  coreGroup : Fin cores → Option (Fin cores)
  /-- `m_to_release`, its back first. -/
  toRelease : List (Fin cores)
  fastforward : Bool
  disable : Bool
  threads : Threads cores Thread
  phase : Phase Thread
  entries : Fin cores → Nat
  wakeups : Fin cores → Nat

inductive Fault where
  /-- "Core(%i) is not running or initializing at time(%s)" -/
  | notRunning
  /-- "Core(%i) or its sibling is already in the barrier (this is thread %d, we have thread %d)" -/
  | alreadyWaiting
  /-- "Reached the barrier while some threads haven't even restarted?" -/
  | notRestarted
  /-- "No threads running, no timeout. Application has deadlocked..." -/
  | deadlocked
  /-- "Core(%d) is in the barrier, cannot set participate to false" -/
  | inBarrier
  /-- The step needs the lock, or the loop, that another one has. -/
  | locked
deriving DecidableEq, Repr

/-- `std::random_shuffle`. -/
structure Shuffle (cores : Nat) where
  apply : List (Fin cores) → List (Fin cores)
  perm : ∀ list, (apply list).Perm list

inductive Label (cores : Nat) (Thread : Type) where
  | synchronize (core : Fin cores) (time : Nat)
  | threadExit (thread : Thread) (threads : Threads cores Thread)
  | threadStall (thread : Thread) (threads : Threads cores Thread)
  | threadMigrate (thread : Thread) (threads : Threads cores Thread)
  /-- A thread is created, starts or resumes. -/
  | threadResume (threads : Threads cores Thread)
  | advance
  | iterate (shuffle : Shuffle cores)
  | release
  | setDisable (disable : Bool)
  | setGroup (core : Fin cores) (master : Option (Fin cores))
  /-- `none` stands for `MaxTime`. -/
  | setFastForward (fastforward : Bool) (nextBarrierTime : Option Nat)

variable {cores : Nat} {Thread : Type} [DecidableEq Thread]

def doRelease (count : Nat) (state : State cores Thread) : State cores Thread :=
  { state with
    toRelease := state.toRelease.drop count
    wakeups := fun core => state.wakeups core + (state.toRelease.take count).count core }

def releaseThread (thread : Thread) (state : State cores Thread) : State cores Thread :=
  doRelease 1
    { state with
      localClock := fun core =>
        if state.barrierAcquire core ∧ state.coreThread core = some thread then 0 else state.localClock core }

def abortBarrier (state : State cores Thread) : State cores Thread :=
  { state with
    barrierAcquire := fun _ => false
    wakeups := fun core => state.wakeups core + (state.barrierAcquire core).toNat }

/-- `isCoreRunning` without the siblings. -/
def isContextRunning (state : State cores Thread) (core : Fin cores) : Bool :=
  match state.threads.occupant core with
  | .running _ isThreadRunning => isThreadRunning
  | _ => false

def isCoreRunning (state : State cores Thread) (core : Fin cores) : Bool :=
  isContextRunning state core || (!state.fastforward &&
    (List.finRange cores).any fun sibling => state.coreGroup sibling == some core && isContextRunning state sibling)

/-- The loop of `isBarrierReached`; the flag is `single_core_barrier_reached`. -/
def isBarrierReachedFrom (state : State cores Thread) : List (Fin cores) → Bool → Bool
  | [], reached => reached
  | core :: rest, reached =>
    if state.fastforward then
      if state.barrierAcquire core then isBarrierReachedFrom state rest true
      else if isCoreRunning state core then false
      else isBarrierReachedFrom state rest reached
    else if (state.coreGroup core).isSome then isBarrierReachedFrom state rest reached
    else if isCoreRunning state core then
      if state.localClock core < state.nextBarrierTime then false else isBarrierReachedFrom state rest true
    else isBarrierReachedFrom state rest reached

def isBarrierReached (state : State cores Thread) : Bool :=
  isBarrierReachedFrom state (List.finRange cores) false

/-- In fast-forward mode `barrierRelease` skips over many time slots. -/
def skipTo (clock : Fin cores → Nat) (next : Nat) : List (Fin cores) → Nat
  | [] => next
  | core :: rest => skipTo clock (if next < clock core then clock core else next) rest

/-- `barrierRelease` up to the hooks of the first turn of its loop. -/
def barrierRelease (caller : Option Thread) (continueUntilRelease : Bool) (state : State cores Thread) :
    Except Fault (State cores Thread) :=
  if state.toRelease.isEmpty then
    let next := if state.fastforward then skipTo state.localClock state.nextBarrierTime (List.finRange cores)
      else state.nextBarrierTime
    .ok { state with nextBarrierTime := next, globalTime := next, phase := .releasing caller continueUntilRelease }
  else .error .notRestarted

/-- Whether the turn that ends at `next` lets the core go. -/
def resumes (state : State cores Thread) (next : Nat) (core : Fin cores) : Bool :=
  decide (state.localClock core < next) && state.barrierAcquire core

/-- The last turn of the loop of `barrierRelease`, and what follows the loop. -/
def finish (config : Config) (shuffle : Shuffle cores) (caller : Option Thread) (next : Nat)
    (state : State cores Thread) : State cores Thread :=
  let others := ((List.finRange cores).filter (resumes state next)).filter fun core => state.coreThread core ≠ caller
  let toRelease := shuffle.apply (others.reverse ++ state.toRelease)
  doRelease (if state.fastforward then toRelease.length else config.numHostCores)
    { state with
      nextBarrierTime := next
      barrierAcquire := fun core => state.barrierAcquire core && !resumes state next core
      toRelease := toRelease
      wakeups := fun core =>
        state.wakeups core + (resumes state next core && decide (state.coreThread core = caller)).toNat
      phase := .idle }

/-- One turn of the loop of `barrierRelease` after its hooks, up to those of the next turn. -/
def iterate (config : Config) (shuffle : Shuffle cores) (caller : Option Thread) (continueUntilRelease : Bool)
    (state : State cores Thread) : Except Fault (State cores Thread) :=
  if continueUntilRelease && state.threads.anyThreadRunning then .ok { state with phase := .idle }
  else if continueUntilRelease && !state.threads.timeoutPending then .error .deadlocked
  else if state.disable then .ok { state with phase := .idle }
  else
    let next := addTime state.nextBarrierTime config.barrierInterval
    if (List.finRange cores).any (resumes state next) then .ok (finish config shuffle caller next state)
    else .ok { state with nextBarrierTime := next, globalTime := next }

def masterCore (state : State cores Thread) (core : Fin cores) : Fin cores :=
  if state.fastforward then core else (state.coreGroup core).getD core

def enter (core : Fin cores) (thread : Thread) (time : Nat) (state : State cores Thread) : State cores Thread :=
  { state with
    localClock := Function.update state.localClock core time
    barrierAcquire := Function.update state.barrierAcquire core true
    coreThread := Function.update state.coreThread core (some thread)
    entries := Function.update state.entries core (state.entries core + 1) }

def getThread : Occupant Thread → Option Thread
  | .none => none
  | .initializing thread => some thread
  | .running thread _ => some thread

def synchronize (core : Fin cores) (time : Nat) (state : State cores Thread) : Except Fault (State cores Thread) :=
  if state.disable then .ok state
  else
    let master := masterCore state core
    match getThread (state.threads.occupant core) with
    | none => .error .notRunning
    | some thread =>
      if state.barrierAcquire master then .error .alreadyWaiting
      else if time < state.nextBarrierTime ∧ ¬state.fastforward then .ok state
      else
        -- One thread entered the barrier, another one can resume.
        let entered := enter master thread time (doRelease 1 state)
        if isBarrierReached entered then barrierRelease (some thread) false entered else .ok entered

def signal (state : State cores Thread) : Except Fault (State cores Thread) :=
  if state.disable then .ok state
  else if isBarrierReached state then barrierRelease none false state
  else .ok state

def setDisable (disable : Bool) (state : State cores Thread) : State cores Thread :=
  if disable then abortBarrier { state with disable := true } else { state with disable := false }

def raise (next : Nat) : Option Nat → Nat
  | none => next
  | some time => max next time

def setFastForward (fastforward : Bool) (next : Option Nat) (state : State cores Thread) : State cores Thread :=
  { state with fastforward := fastforward, nextBarrierTime := raise state.nextBarrierTime next }

def setGroup (core : Fin cores) (master : Option (Fin cores)) (state : State cores Thread) :
    Except Fault (State cores Thread) :=
  if master.isSome && state.barrierAcquire core then .error .inBarrier
  else .ok { state with coreGroup := Function.update state.coreGroup core master }

def step (config : Config) (state : State cores Thread) : Label cores Thread → Except Fault (State cores Thread)
  | .synchronize core time => if state.phase = .idle then synchronize core time state else .error .locked
  | .threadExit thread threads | .threadStall thread threads =>
    if state.phase = .idle then signal (releaseThread thread { state with threads := threads }) else .error .locked
  | .threadMigrate thread threads => .ok (releaseThread thread { state with threads := threads })
  | .threadResume threads => .ok { state with threads := threads }
  | .advance => if state.phase = .idle then barrierRelease none true state else .error .locked
  | .iterate shuffle =>
    match state.phase with
    | .idle => .error .locked
    | .releasing caller continueUntilRelease => iterate config shuffle caller continueUntilRelease state
  | .release => .ok (abortBarrier state)
  | .setDisable disable => .ok (setDisable disable state)
  | .setGroup core master => setGroup core master state
  | .setFastForward fastforward next => .ok (setFastForward fastforward next state)

def start (config : Config) (threads : Threads cores Thread) : State cores Thread where
  nextBarrierTime := config.barrierInterval
  globalTime := 0
  localClock := fun _ => 0
  barrierAcquire := fun _ => false
  coreThread := fun _ => none
  coreGroup := fun _ => none
  toRelease := []
  fastforward := false
  disable := false
  threads := threads
  phase := .idle
  entries := fun _ => 0
  wakeups := fun _ => 0

def machine (config : Config) (cores : Nat) (Thread : Type) [DecidableEq Thread] :
    Machine (State cores Thread) (Label cores Thread) Fault where
  initial state := ∃ threads, state = start config threads
  step := step config

end BarrierSyncServer

end Sniper.System

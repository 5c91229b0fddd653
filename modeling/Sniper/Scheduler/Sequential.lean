import Sniper.Scheduler.Placement
import Mathlib.Algebra.Ring.Nat
import Mathlib.Algebra.BigOperators.Group.List.Basic
import Mathlib.Algebra.Ring.Int.Defs

/-! `SchedulerSequential`: sets of threads, each on a core of its own and one thread after the other. -/

namespace Sniper.Scheduler.Sequential

structure State (cores : Nat) where
  base : Scheduler.State cores
  /-- `core_waiting_threads`: the queue of a core gives the smallest of its threads first. -/
  coreWaitingThreads : Fin cores → List Nat
  /-- The threads of each set that are still to be created. -/
  seqs : List Int
  currentPinballSet : Nat
  nextThreadToExecute : Fin cores → Int

inductive SetupFault where
  /-- "Not enought cores. Every pinballs set must be executed on a different core." -/
  | notEnoughCores
  /-- `seqs.at(i)` behind its end. -/
  | outsideSeqs
deriving DecidableEq, Repr

def atoiDigits (value : Int) : List Char → Int
  | [] => value
  | char :: rest => if char.isDigit then atoiDigits (10 * value + (char.toNat - '0'.toNat : Nat)) rest else value

def atoi (text : List Char) : Int :=
  match text.dropWhile fun char => char.isWhitespace with
  | '-' :: rest => -atoiDigits 0 rest
  | '+' :: rest => atoiDigits 0 rest
  | text => atoiDigits 0 text

def parseSequence (sequence : List Char) : List Int := (sequence.splitOn '|').map atoi

variable {cores : Nat}

/-- The loop over the cores that sets the first thread of each; the number is `next_tte`. -/
def firstThreads (seqs : List Int) : List (Fin cores) → Int → (Fin cores → Int) → Except SetupFault (Fin cores → Int)
  | [], _, nextThread => .ok nextThread
  | core :: rest, nextTte, nextThread =>
    match seqs[core.val]? with
    | none => .error .outsideSeqs
    | some seq => firstThreads seqs rest (nextTte + seq) (Function.update nextThread core nextTte)

/-- The constructor. -/
def create (cores : Nat) (sequence : List Char) : Except SetupFault (State cores) :=
  let seqs := parseSequence sequence
  if cores < seqs.length then .error .notEnoughCores
  else
    match firstThreads seqs (List.finRange cores) 0 fun _ => 0 with
    | .error fault => .error fault
    | .ok nextThreadToExecute => .ok
        { base := emptyState
          coreWaitingThreads := fun _ => []
          seqs := seqs
          currentPinballSet := 0
          nextThreadToExecute := nextThreadToExecute }

/-- `atoi` of the affinity string: the first core of the mask, or 0 for an empty one. -/
def affinityCore (info : ThreadInfo cores) : Option (Fin cores) :=
  match (List.finRange cores).find? info.coreAffinity with
  | some core => some core
  | none => if some_ : 0 < cores then some ⟨0, some_⟩ else none

def threadSetInitialAffinity (thread : Nat) (state : State cores) : Except Fault (State cores) :=
  if inside : state.currentPinballSet < cores then
    match state.seqs[state.currentPinballSet]? with
    | none => .error .outOfBounds
    | some seq =>
      let base := setInfo thread
        (fun info => { info.clearAffinity.addAffinity ⟨state.currentPinballSet, inside⟩ with explicitAffinity := true }) state.base
      .ok { state with
        base
        seqs := state.seqs.set state.currentPinballSet (seq - 1)
        currentPinballSet := if seq - 1 = 0 then state.currentPinballSet + 1 else state.currentPinballSet }
  else .error .outOfBounds

variable (quantum : UInt64)

/-- `createThread`. -/
def threadCreate (state : State cores) : Except Fault (State cores) :=
  let thread := state.base.numThreads
  let base := { state.base with
    numThreads := thread + 1
    status := Function.update state.base.status thread .initializing
    infoSize := if state.base.infoSize ≤ thread then state.base.infoSize + 16 else state.base.infoSize }
  let pinned := if (base.threadInfo thread).hasAffinity then .ok { state with base }
    else threadSetInitialAffinity thread { state with base }
  match pinned with
  | .error fault => .error fault
  | .ok state => .ok { state with base := createOn quantum thread state.base }

/-- What `threadStart` of the scheduler does. -/
def schedulerStart (thread : Nat) (state : State cores) : Except Fault (State cores) :=
  match affinityCore (state.base.threadInfo thread) with
  | none => .error .outOfBounds
  | some core =>
    if state.base.coreThreadRunning core = some thread then
      -- Only the first thread of a core is on it when it starts.
      .ok { state with
        nextThreadToExecute := Function.update state.nextThreadToExecute core (state.nextThreadToExecute core + 1) }
    else
      .ok { state with
        base := { state.base with threadsRunnable := Function.update state.base.threadsRunnable thread false }
        coreWaitingThreads := Function.update state.coreWaitingThreads core (thread :: state.coreWaitingThreads core) }

/-- `onThreadStart`. -/
def threadStart (thread : Nat) (state : State cores) : Except Fault (State cores) :=
  if state.base.numThreads ≤ thread then .error .invalidThread
  else
    let size := if state.base.runnableSize ≤ thread then state.base.runnableSize + 16 else state.base.runnableSize
    if size ≤ thread then .error .outOfBounds
    else
      match schedulerStart thread { state with base := { markResumed thread state.base with runnableSize := size } } with
      | .error fault => .error fault
      | .ok state =>
        let status : Status := if (state.base.threadCore thread).isSome then .running else .stalled true
        .ok { state with base := { state.base with status := Function.update state.base.status thread status } }

/-- What `threadExit` of the scheduler does. -/
def schedulerExit (time : UInt64) (thread : Nat) (state : State cores) : Except Fault (State cores) :=
  match affinityCore (state.base.threadInfo thread) with
  | none => .error .outOfBounds
  | some core =>
    let base := setInfo thread (fun info => { info with lastScheduledOut := time }) state.base
    match (state.coreWaitingThreads core).min? with
    | none => .ok { state with base }
    | some nextThread =>
      if (nextThread : Int) ≠ state.nextThreadToExecute core then .ok { state with base }
      else
        let resumed := { base with threadsRunnable := Function.update base.threadsRunnable nextThread true }
        match reschedule quantum time core resumed with
        | .error fault => .error fault
        | .ok base => .ok { state with
            base
            coreWaitingThreads := Function.update state.coreWaitingThreads core ((state.coreWaitingThreads core).erase nextThread)
            nextThreadToExecute := Function.update state.nextThreadToExecute core (state.nextThreadToExecute core + 1) }

/-- `onThreadExit`. -/
def threadExit (time : UInt64) (thread : Nat) (state : State cores) : Except Fault (State cores) :=
  if state.base.numThreads ≤ thread then .error .invalidThread
  else if (state.base.threadCore thread).isNone then .error .noCore
  else if state.base.status thread ≠ .running then .error .notRunning
  else if state.base.runnableSize ≤ thread then .error .outOfBounds
  else
    schedulerExit quantum time thread
      { state with base := { state.base with
          status := Function.update state.base.status thread .idle
          threadCore := Function.update state.base.threadCore thread none
          threadsRunnable := Function.update state.base.threadsRunnable thread false } }

inductive Label where
  | create
  | start (thread : Nat)
  | exit (thread : Nat) (time : UInt64)
deriving DecidableEq, Repr

def step (state : State cores) : Label → Except Fault (State cores)
  | .create => threadCreate quantum state
  | .start thread => threadStart thread state
  | .exit thread time => threadExit quantum time thread state

def machine (cores : Nat) (sequence : List Char) : Machine (State cores) Label Fault where
  initial state := create cores sequence = .ok state
  step := step quantum

end Sniper.Scheduler.Sequential

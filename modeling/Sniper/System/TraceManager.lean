import Sniper.Library.Machine

/-! `TraceManager`: the applications of a simulation, their threads and their runs.

Threads are known by their place in `m_threads`.  The times, the thread manager and the reader of a trace are left out. -/

namespace Sniper.System.TraceManager

/-- The configuration, with the trace file of each first thread where there is no prefix. -/
structure Config where
  numApps : Nat
  stopWithFirstApp : Bool
  restartApps : Bool
  tracePrefix : String
  threadFile : Nat → String
  /-- Whether `push_back` moves a vector of this size to other storage: the choice of the library. -/
  reallocates : Nat → Bool

inductive Hook where
  | applicationStart (appId : Nat)
  | applicationExit (appId : Nat)
deriving DecidableEq

structure AppInfo where
  /-- Index counter for new thread's FIFO name -/
  threadCount : Nat
  /-- Number of active threads for this app (when zero, app is done) -/
  numThreads : Nat
  /-- Number of completed runs -/
  numRuns : Nat
deriving DecidableEq

def AppInfo.new : AppInfo := ⟨1, 1, 0⟩

/-- `TraceThread`, with the run of its application it has been created for, which the code does not keep. -/
structure TraceThread where
  tracefile : String
  responsefile : String
  appId : Nat
  stop : Bool
  stopped : Bool
  run : Nat
deriving DecidableEq

/-- The loop of `endApplication` in `thread`: its iterator has got to `place` in `m_threads`, which had `size` elements
when it was made. -/
structure EndLoop where
  thread : Nat
  place : Nat
  size : Nat
deriving DecidableEq

structure State where
  threads : List TraceThread
  numThreadsRunning : Nat
  numApps : Nat
  /-- Number of applications that have yet to complete their first run -/
  numAppsNonfinish : Nat
  appInfo : List AppInfo
  /-- The hooks that have been called so far. -/
  hooks : List Hook
  /-- How often `stop` has been called. -/
  stops : Nat
  /-- The loops of `endApplication` that are going on. -/
  ending : List EndLoop

inductive Failure where
  | assertion
  | outOfRange
  | noThread
  | invalidIterator
deriving DecidableEq

def getFifoName (config : Config) (appId threadNum : Nat) (response : Bool) : String :=
  config.tracePrefix ++ (if response then "_response" else "") ++ ".app" ++ toString appId ++ ".th" ++
    toString threadNum ++ ".sift"

/-- `m_tracefiles` after `setupTraceFiles`. -/
def Config.tracefiles (config : Config) : List String :=
  (List.range config.numApps).map fun appId =>
    if config.tracePrefix ≠ "" then getFifoName config appId 0 false else config.threadFile appId

/-- `m_responsefiles` after `setupTraceFiles`. -/
def Config.responsefiles (config : Config) : List String :=
  (List.range config.numApps).map fun appId =>
    if config.tracePrefix ≠ "" then getFifoName config appId 0 true else ""

/-- The file names for a new thread, none where a table is indexed out of range. -/
def files (config : Config) (appId threadNum : Nat) (first initFifo : Bool) : Option (String × String) :=
  if initFifo then
    some (getFifoName config appId threadNum false,
      if config.responsefiles.length ≠ 0 then getFifoName config appId threadNum true else "")
  else if first then
    match config.tracefiles[appId]? with
    | none => none
    | some tracefile =>
      if config.responsefiles.length ≠ 0 then
        match config.responsefiles[appId]? with
        | none => none
        | some responsefile => some (tracefile, responsefile)
      else some (tracefile, "")
  else some ("", "")

def startsOf (hooks : List Hook) (appId : Nat) : Nat := hooks.count (.applicationStart appId)

def newThread (config : Config) (appId : Nat) (first initFifo : Bool) (state : State) : Except Failure State :=
  if appId ≥ state.numApps then .error .assertion
  else
    match state.appInfo[appId]? with
    | none => .error .outOfRange
    | some info =>
      let threadNum := if first then 0 else info.threadCount
      match files config appId threadNum first initFifo with
      | none => .error .outOfRange
      | some names =>
        let hooks := if first then state.hooks ++ [.applicationStart appId] else state.hooks
        let counted : AppInfo :=
          if first then { info with threadCount := 1, numThreads := 1 }
          else { info with threadCount := info.threadCount + 1, numThreads := info.numThreads + 1 }
        .ok { state with
          appInfo := state.appInfo.set appId counted
          hooks := hooks
          numThreadsRunning := state.numThreadsRunning + 1
          threads := state.threads ++ [⟨names.1, names.2, appId, false, false, startsOf hooks appId⟩] }

/-- `createThread`, for the application of the creating thread. -/
def createThread (config : Config) (creator : Nat) (state : State) : Except Failure State :=
  match state.threads[creator]? with
  | none => .error .noThread
  | some thread => newThread config thread.appId false true state

def createApplication (config : Config) (state : State) : Except Failure State :=
  newThread config state.numApps true true { state with
    numApps := state.numApps + 1
    numAppsNonfinish := state.numAppsNonfinish + 1
    appInfo := state.appInfo ++ [.new] }

/-- `stop`, which asks all threads to stop. -/
def stop (state : State) : State :=
  { state with
    threads := state.threads.map fun thread => { thread with stop := true }
    stops := state.stops + 1 }

/-- The last thread of a run has ended. -/
def finishRun (config : Config) (appId : Nat) (state : State) : Except Failure State :=
  match state.appInfo[appId]? with
  | none => .error .outOfRange
  | some info =>
    let finished : State :=
      { state with
        appInfo := state.appInfo.set appId { info with numRuns := info.numRuns + 1 }
        hooks := state.hooks ++ [.applicationExit appId]
        numAppsNonfinish :=
          if info.numRuns + 1 = 1 then state.numAppsNonfinish - 1 else state.numAppsNonfinish }
    if config.stopWithFirstApp then .ok (stop finished)
    else if finished.numAppsNonfinish = 0 then .ok (stop finished)
    else if config.restartApps then newThread config appId true false finished
    else .ok finished

def signalDone (config : Config) (index : Nat) (aborted : Bool) (state : State) : Except Failure State :=
  match state.threads[index]? with
  | none => .error .noThread
  | some thread =>
    if thread.stopped then .ok state
    else
      match state.appInfo[thread.appId]? with
      | none => .error .outOfRange
      | some info =>
        let left : State :=
          { state with
            threads := state.threads.set index { thread with stopped := true }
            appInfo := state.appInfo.set thread.appId { info with numThreads := info.numThreads - 1 } }
        let handled :=
          if aborted = false ∧ info.numThreads - 1 = 0 then finishRun config thread.appId left else .ok left
        match handled with
        | .error failure => .error failure
        | .ok handled => .ok { handled with numThreadsRunning := handled.numThreadsRunning - 1 }

/-- The thread is asked to stop, and `signalDone` is called in its place. -/
def abort (config : Config) (index : Nat) (state : State) : Except Failure State :=
  match state.threads[index]? with
  | none => .error .noThread
  | some thread => signalDone config index true { state with threads := state.threads.set index { thread with stop := true } }

/-- No `push_back` has moved `m_threads` since the loop made its iterator. -/
def Config.Valid (config : Config) (state : State) (loop : EndLoop) : Prop :=
  ∀ size < state.threads.length, loop.size ≤ size → config.reallocates size = false

instance (config : Config) (state : State) (loop : EndLoop) : Decidable (config.Valid state loop) :=
  inferInstanceAs (Decidable (∀ size < _, _ → _))

/-- One round of a loop of `endApplication`, which holds no lock.  At the end of `m_threads` the loop is over. -/
def advance (config : Config) (index : Nat) (state : State) : Except Failure State :=
  match state.ending[index]? with
  | none => .error .noThread
  | some loop =>
    if config.Valid state loop then
      match state.threads[loop.thread]?, state.threads[loop.place]? with
      | some thread, some other =>
        let moved : State := { state with ending := state.ending.set index { loop with place := loop.place + 1 } }
        if other.appId = thread.appId ∧ loop.place ≠ loop.thread then abort config loop.place moved else .ok moved
      | _, _ => .ok { state with ending := state.ending.eraseIdx index }
    else .error .invalidIterator

/-- The first threads of the applications of the configuration. -/
def init (config : Config) : List Nat → State → Except Failure State
  | [], state => .ok state
  | appId :: later, state =>
    match newThread config appId true false state with
    | .error failure => .error failure
    | .ok state => init config later state

/-- `TraceManager`, before `init`. -/
def State.new (config : Config) : State where
  threads := []
  numThreadsRunning := 0
  numApps := config.numApps
  numAppsNonfinish := config.numApps
  appInfo := List.replicate config.numApps .new
  hooks := []
  stops := 0
  ending := []

/-- Calls of a thread, and rounds of a thread's `endApplication`. -/
inductive Call where
  | createThread (thread : Nat)
  | createApplication (thread : Nat)
  | endApplication (thread : Nat)
  | advance (loop : Nat)
  | signalDone (thread : Nat)
deriving DecidableEq

def step (config : Config) (state : State) (call : Call) : Except Failure State :=
  match call with
  | .createThread thread => createThread config thread state
  | .createApplication _ => createApplication config state
  | .endApplication thread => .ok { state with ending := state.ending ++ [⟨thread, 0, state.threads.length⟩] }
  | .advance loop => advance config loop state
  | .signalDone index =>
    match state.threads[index]? with
    | none => .error .noThread
    | some thread => signalDone config index thread.stop state

def machine (config : Config) : Machine State Call Failure where
  initial state := init config (List.range config.numApps) (.new config) = .ok state
  step := step config

end Sniper.System.TraceManager

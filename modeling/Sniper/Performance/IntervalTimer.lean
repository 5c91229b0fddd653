import Sniper.Library.Machine
import Sniper.Performance.Windows

/-! `IntervalTimer`: micro-operations leave the window at the rate of the critical path of the old window.

Times do not wrap around.  The memory below the core is a parameter of the model. -/

namespace Sniper.Performance.IntervalTimer

inductive StopDispatchReason where
  | icacheMiss
  | branchMispredict
deriving DecidableEq, Repr

structure Timer (Port Mem : Type) where
  windows : Windows Port
  /-- A fixed-point number. -/
  remainingDispatchBandwidth : Nat
  maxStoreCompletionTime : Nat
  maxLoadCompletionTime : Nat
  loadstoreContention : ContentionModel
  memory : Mem

/-- `m_one` of `FixedPoint` -/
def one : Nat := 2 ^ 14

variable {Port Mem : Type} [DecidableEq Port]

def isPending (microOp : WindowEntry Port) : Bool :=
  (microOp.uop.isLoad || microOp.uop.isStore) && microOp.uop.dCacheHitWhere = .unknown

/-- Issue memory operations to the memory hierarchy. -/
def issueMemOp (config : Config Port Mem) (memory : Mem) (microOp : WindowEntry Port) : WindowEntry Port × Mem :=
  if isPending microOp then
    let ((latency, hitWhere), memory) := config.accessMemory memory microOp.uop
    let latency := (latency + (config.period / 2 + 1)) / config.period
    -- execlatency already contains bypass latency
    ({ microOp with uop := { microOp.uop with
        execLatency := (microOp.uop.execLatency + latency) % 2 ^ 32
        dCacheHitWhere := hitWhere } }, memory)
  else (microOp, memory)

/-- Allow the use of negative times for comparisons -/
def producerTime (relativeFetchTime oldestStartTime : Int) (producer : WindowEntry Port) : Int :=
  let relativeStartTime := (producer.execTime : Int) - producer.uop.execLatency - oldestStartTime
  if relativeFetchTime > relativeStartTime then
    producer.execTime + (relativeFetchTime - max relativeStartTime 0)
  else producer.execTime

def getMaxProducerExecTime (windows : Windows Port) (microOp : WindowEntry Port) : Nat :=
  let oldest := windows.oldWindow.head?.getD microOp
  let oldestStartTime := (oldest.execTime : Int) - oldest.uop.execLatency
  let relativeFetchTime := (microOp.fetchTime : Int) - oldest.fetchTime
  ((windows.getProducers microOp).foldl
    (fun maxProducerExecTime producer => max maxProducerExecTime (producerTime relativeFetchTime oldestStartTime producer)) 0).toNat

/-- An instruction cache miss, or a misprediction, that no load hides: where the window is cleared to, the latency and the
reason to stop. -/
def frontEnd (config : Config Port Mem) (windows : Windows Port) (microOp : WindowEntry Port) :
    Windows Port × Nat × Option StopDispatchReason :=
  let cptail := windows.criticalPathTail
  let (windows, latency, stop) : Windows Port × Nat × Option StopDispatchReason :=
    if microOp.uop.iCacheHitWhere ≠ .l1i ∧ ¬microOp.icacheOverlap = true then
      (windows.clearOldWindow (cptail + microOp.uop.iCacheLatency), microOp.uop.iCacheLatency, some .icacheMiss)
    else (windows, 0, none)
  if microOp.uop.redirects && !microOp.bpredOverlap then
    let bpredLatency := (config.branchMispredictionPenalty + windows.calculateBranchResolutionLatency microOp) % 2 ^ 32
    (windows.clearOldWindow (cptail + bpredLatency), latency + bpredLatency, some .branchMispredict)
  else (windows, latency, stop)

/-- If it extends the critical path by more than the long-latency cut-off, clear the window instead. -/
def updateCriticalPath (config : Config Port Mem) (windows : Windows Port) (microOp : WindowEntry Port) :
    Windows Port × WindowEntry Port × Nat :=
  let lll := windows.longLatencyOperationLatency config microOp
  if lll = 0 then
    let (windows, microOp) := windows.updateCriticalPathTail microOp
    (windows, microOp, 0)
  else (windows.clearOldWindow microOp.execTime, microOp, lll)

/-- When a load that starts at some cycle is complete, behind those that are outstanding. -/
def loadCompletion (config : Config Port Mem) (contention : ContentionModel) (microOp : WindowEntry Port) (schedCycle : Nat) :
    Nat × ContentionModel :=
  let delay := microOp.uop.execLatency * config.period
  -- This logic only works for LFENCEs, when marked on load uops
  let (time, contention) :=
    if microOp.uop.microOp.membar then contention.getBarrierCompletionTime (schedCycle * config.period) delay 0
    else contention.getCompletionTime (schedCycle * config.period) delay 0
  (time / config.period, contention)

/-! ## Overlap with a long-latency load -/

/-- The loop of `blockWindow` over the dependencies: whether one of them waits for a long-latency load. -/
def waitsForLoad (config : Config Port Mem) (entries : List (WindowEntry Port)) (microOp : WindowEntry Port) : Bool :=
  microOp.uop.getDependencies.any fun dependency =>
    (entries.find? (·.sequenceNumber = dependency)).any fun dependee =>
      dependee.dependent = .dataDep ||
        (dependee.dependent = .indepMiss && dependee.uop.isLoad && dependee.uop.isLongLatencyLoad config)

/-- The micro-operation starts under the load that blocks the window, if nothing keeps it. -/
def overlap (config : Config Port Mem) (criticalPathHead : Nat) (memBarrierPending : Bool) (memory : Mem)
    (microOp : WindowEntry Port) : WindowEntry Port × Mem :=
  if microOp.uop.microOp.branch ∧ microOp.dependent ≠ .dataDep then ({ microOp with bpredOverlap := true }, memory)
  else if microOp.uop.isLoad ∧ microOp.dependent ≠ .dataDep ∧ memBarrierPending = false ∧ microOp.dcacheOverlap = false then
    -- Issue the memory operation now
    let (microOp, memory) := issueMemOp config memory { microOp with dcacheOverlap := true }
    ({ microOp with dependent := .indepMiss, execTime := criticalPathHead }, memory)
  else (microOp, memory)

def maskAddress (granularity address : Nat) : Nat := address - address % granularity

/-- The loop of `blockWindow`, with the micro-operations that it has passed, and those that are left. -/
def blockLoop (config : Config Port Mem) (criticalPathHead headAddress : Nat) :
    List (WindowEntry Port) → List (WindowEntry Port) → Bool → Mem → List (WindowEntry Port) × Mem
  | passed, [], _, memory => (passed, memory)
  | passed, microOp :: rest, memBarrierPending, memory =>
    let microOp := { microOp with dependent := .noDep, icacheOverlap := true }
    if microOp.uop.microOp.serializing then (passed ++ microOp :: rest, memory)
    else
      let memBarrierPending := memBarrierPending || microOp.uop.microOp.membar
      let microOp :=
        if waitsForLoad config (passed ++ microOp :: rest) microOp then { microOp with dependent := .dataDep } else microOp
      -- A load of the line that the long-latency load accesses is complete when the miss is resolved
      let microOp :=
        if microOp.uop.isLoad && maskAddress config.lllGranularity microOp.uop.address = headAddress then
          { microOp with dependent := .dataDep }
        else microOp
      let (microOp, memory) := overlap config criticalPathHead memBarrierPending memory microOp
      blockLoop config criticalPathHead headAddress (passed ++ [microOp]) rest memBarrierPending memory

/-- A micro-operation blocks the window: those after it, that overlap with it. -/
def blockWindow (config : Config Port Mem) (criticalPathHead : Nat) (microOp : WindowEntry Port)
    (rest : List (WindowEntry Port)) (memory : Mem) : List (WindowEntry Port) × Mem :=
  let head := { microOp with dependent := .indepMiss }
  let headAddress := if microOp.uop.isLoad then maskAddress config.lllGranularity microOp.uop.address else 0
  let (entries, memory) := blockLoop config criticalPathHead headAddress [head] rest false memory
  (entries.tail, memory)

/-! ## Dispatch -/

/-- A micro-operation that `dispatchInstruction` has handled, and those that follow it in the window. -/
structure Dispatched (Port Mem : Type) where
  timer : Timer Port Mem
  microOp : WindowEntry Port
  rest : List (WindowEntry Port)
  latency : Nat

/-- The critical path of a micro-operation with its time. -/
def place (config : Config Port Mem) (timer : Timer Port Mem) (microOp : WindowEntry Port) (rest : List (WindowEntry Port)) :
    Dispatched Port Mem :=
  let (windows, microOp, latency) := updateCriticalPath config timer.windows microOp
  ⟨{ timer with windows := windows }, microOp, rest, latency⟩

def dispatchSerializing (config : Config Port Mem) (timer : Timer Port Mem) (microOp : WindowEntry Port)
    (rest : List (WindowEntry Port)) : Dispatched Port Mem :=
  let windows := timer.windows
  let flushLatency := (max windows.getCriticalPathLength (windows.getMinimalFlushLatency config.dispatchWidth : Int)).toNat
  ⟨{ timer with windows := windows.clearOldWindow windows.criticalPathTail },
    { microOp with execTime := windows.criticalPathTail }, rest, flushLatency + microOp.uop.execLatency⟩

def dispatchMemBarrier (config : Config Port Mem) (maxProducerExecTime : Nat) (timer : Timer Port Mem)
    (microOp : WindowEntry Port) (rest : List (WindowEntry Port)) : Dispatched Port Mem :=
  let cycleToWaitUntil := max maxProducerExecTime (max timer.maxStoreCompletionTime timer.maxLoadCompletionTime)
  place config timer { microOp with execTime := cycleToWaitUntil + microOp.uop.execLatency } rest

/-- Long latency loads trump all other latencies -/
def dispatchLongLatencyLoad (config : Config Port Mem) (maxProducerExecTime : Nat) (timer : Timer Port Mem)
    (microOp : WindowEntry Port) (rest : List (WindowEntry Port)) : Dispatched Port Mem :=
  let windows := timer.windows
  let dispatchCycle := max maxProducerExecTime windows.criticalPathHead
  let (contentionExecCycle, contention) := loadCompletion config timer.loadstoreContention microOp dispatchCycle
  let longLatencyLoadLatency := contentionExecCycle - dispatchCycle
  let microOp := { microOp with execTime := windows.criticalPathTail }
  let windows := windows.clearOldWindow (microOp.execTime + longLatencyLoadLatency)
  let (rest, memory) := blockWindow config windows.criticalPathHead microOp rest timer.memory
  ⟨{ timer with windows := windows, loadstoreContention := contention, memory := memory },
    { microOp with dependent := .indepMiss }, rest, longLatencyLoadLatency⟩

def dispatchShortLoad (config : Config Port Mem) (maxProducerExecTime : Nat) (timer : Timer Port Mem)
    (microOp : WindowEntry Port) (rest : List (WindowEntry Port)) : Dispatched Port Mem :=
  let dispatchCycle := max maxProducerExecTime timer.windows.criticalPathHead
  let (contentionExecTime, contention) := loadCompletion config timer.loadstoreContention microOp dispatchCycle
  place config { timer with loadstoreContention := contention } { microOp with execTime := contentionExecTime } rest

def dispatchLoad (config : Config Port Mem) (maxProducerExecTime : Nat) (timer : Timer Port Mem)
    (microOp : WindowEntry Port) (rest : List (WindowEntry Port)) : Dispatched Port Mem :=
  let dispatched :=
    -- do nothing for overlapped loads, as they don't add to the critical path
    if microOp.dcacheOverlap then ⟨timer, microOp, rest, 0⟩
    else if microOp.uop.isLongLatencyLoad config then dispatchLongLatencyLoad config maxProducerExecTime timer microOp rest
    else dispatchShortLoad config maxProducerExecTime timer microOp rest
  { dispatched with timer :=
      { dispatched.timer with
        maxLoadCompletionTime := max dispatched.timer.maxLoadCompletionTime dispatched.microOp.execTime } }

def dispatchStore (config : Config Port Mem) (maxProducerExecTime : Nat) (timer : Timer Port Mem)
    (microOp : WindowEntry Port) (rest : List (WindowEntry Port)) : Dispatched Port Mem :=
  let schedCycle := max maxProducerExecTime timer.windows.criticalPathHead
  -- This store result will be ready to use one cycle later
  let dataReadyCycle := schedCycle + microOp.uop.info.bypassLatency + 1
  let timer := { timer with maxStoreCompletionTime := max timer.maxStoreCompletionTime (schedCycle + microOp.uop.execLatency) }
  place config timer { microOp with execTime := dataReadyCycle } rest

def dispatchExecute (config : Config Port Mem) (maxProducerExecTime : Nat) (timer : Timer Port Mem)
    (microOp : WindowEntry Port) (rest : List (WindowEntry Port)) : Dispatched Port Mem :=
  let dispatchCycle := max maxProducerExecTime timer.windows.criticalPathHead
  place config timer { microOp with execTime := dispatchCycle + microOp.uop.execLatency } rest

/-- After the front end. -/
def backEnd (config : Config Port Mem) (maxProducerExecTime : Nat) (timer : Timer Port Mem) (microOp : WindowEntry Port)
    (rest : List (WindowEntry Port)) : Dispatched Port Mem :=
  if microOp.uop.microOp.serializing || microOp.uop.interrupt then dispatchSerializing config timer microOp rest
  else if microOp.uop.microOp.uopType = .execute && microOp.uop.microOp.membar then
    dispatchMemBarrier config maxProducerExecTime timer microOp rest
  else if microOp.uop.isLoad then dispatchLoad config maxProducerExecTime timer microOp rest
  else if microOp.uop.isStore then dispatchStore config maxProducerExecTime timer microOp rest
  else dispatchExecute config maxProducerExecTime timer microOp rest

/-- `IntervalTimer::dispatchInstruction`, for the first micro-operation of the window. -/
def dispatchInstruction (config : Config Port Mem) (timer : Timer Port Mem) (microOp : WindowEntry Port)
    (rest : List (WindowEntry Port)) : Dispatched Port Mem × Option StopDispatchReason :=
  let (microOp, memory) := issueMemOp config timer.memory microOp
  let maxProducerExecTime := getMaxProducerExecTime timer.windows microOp
  let (windows, latency, stop) := frontEnd config timer.windows microOp
  let dispatched := backEnd config maxProducerExecTime { timer with windows := windows, memory := memory } microOp rest
  ({ dispatched with latency := latency + dispatched.latency }, stop)

/-- `IntervalTimer::dispatchInstruction` followed by `Windows::dispatchInstruction`. -/
def dispatchNext (config : Config Port Mem) (timer : Timer Port Mem) (microOp : WindowEntry Port)
    (rest : List (WindowEntry Port)) : Timer Port Mem × Nat × Option StopDispatchReason :=
  let (dispatched, stop) := dispatchInstruction config timer microOp rest
  ({ dispatched.timer with
      windows := dispatched.timer.windows.dispatchInstruction config dispatched.microOp dispatched.rest },
    dispatched.latency, stop)

/-- The dispatch rate, and the fraction of it that remains for the next cycle. -/
def calculateCurrentDispatchRate (config : Config Port Mem) (timer : Timer Port Mem) : Nat × Nat :=
  let criticalPathLength := timer.windows.getCriticalPathLength
  if criticalPathLength > 0 then
    let effective := timer.windows.getEffectiveCriticalPathLength config (toUInt64 criticalPathLength)
    let ipc := timer.windows.oldWindow.length * one / effective + timer.remainingDispatchBandwidth
    let dispatchRate := ipc / one % 2 ^ 32
    (dispatchRate, if dispatchRate < config.dispatchWidth then ipc - dispatchRate * one else 0)
  else (config.dispatchWidth, 0)

structure Cycle where
  instructionsExecuted : Nat
  latency : Nat
  /-- The micro-operations that the dispatch rate still allows. -/
  rateLeft : Nat
deriving DecidableEq, Repr

/-- The loop of `dispatchWindow`, up to the dispatch rate. -/
def dispatchLoop (config : Config Port Mem) : Nat → Timer Port Mem → Nat → Nat → Timer Port Mem × Cycle
  | 0, timer, instructionsExecuted, latency => (timer, ⟨instructionsExecuted, latency, 0⟩)
  | left + 1, timer, instructionsExecuted, latency =>
    match timer.windows.window with
    | [] => (timer, ⟨instructionsExecuted, latency, left + 1⟩)
    | microOp :: rest =>
      if instructionsExecuted < config.dispatchWidth then
        let (timer, instructionLatency, stop) := dispatchNext config timer microOp rest
        let instructionsExecuted := if microOp.uop.last then instructionsExecuted + 1 else instructionsExecuted
        if stop.isNone then dispatchLoop config left timer instructionsExecuted (latency + instructionLatency)
        else (timer, ⟨instructionsExecuted, latency + instructionLatency, left⟩)
      else (timer, ⟨instructionsExecuted, latency, left + 1⟩)

/-- The fractions by which a cycle that the dispatch rate stops is accounted to the components of the critical path. -/
def cpContrByType (config : Config Port Mem) (windows : Windows Port) : Except Failure (List Nat) :=
  let criticalPathLength := windows.getCriticalPathLength
  let effectiveCpLength := toInt (windows.getEffectiveCriticalPathLength config (toUInt64 criticalPathLength))
  CpContrType.all.mapM fun type => windows.getCpContrFraction type (toUInt64 effectiveCpLength)

/-- A cycle, and whether its stop is accounted to the components of the critical path. -/
def dispatchWindow (config : Config Port Mem) (timer : Timer Port Mem) : Timer Port Mem × Nat × Nat × Bool :=
  let (dispatchRate, remaining) := calculateCurrentDispatchRate config timer
  let (timer, cycle) := dispatchLoop config dispatchRate { timer with remainingDispatchBandwidth := remaining } 0 0
  -- The minimum latency for dispatching these micro-ops is 1 cycle
  if cycle.latency = 0 then (timer, cycle.instructionsExecuted, 1, cycle.rateLeft = 0)
  else (timer, cycle.instructionsExecuted, cycle.latency, false)

/-- `while (m_windows->wIsFull())`, with the totals of `simulate`. -/
def dispatchWhileFull (config : Config Port Mem) : Nat → Timer Port Mem → Nat → Nat → Except Failure (Timer Port Mem × Nat × Nat)
  | 0, _, _, _ => .error .outOfFuel
  | fuel + 1, timer, totalInstructionsExecuted, totalLatency =>
    if timer.windows.wIsFull config then
      let (timer, instructionsExecuted, latency, _) := dispatchWindow config timer
      dispatchWhileFull config fuel timer (totalInstructionsExecuted + instructionsExecuted) (totalLatency + latency)
    else .ok (timer, totalInstructionsExecuted, totalLatency)

/-- Enforce memory dependency granularity -/
def enforceGranularity (config : Config Port Mem) (uop : Uop Port) : Uop Port :=
  if uop.isLoad || uop.isStore then
    { uop with toDynamicMicroOp := { uop.toDynamicMicroOp with address := maskAddress config.memoryGranularity uop.address } }
  else uop

def addMicroOp (config : Config Port Mem) (timer : Timer Port Mem) (uop : Uop Port) : Except Failure (Timer Port Mem) := do
  let windows ← timer.windows.add config (enforceGranularity config uop)
  return { timer with windows := windows }

/-- Simulate a collection of micro-ops and report the number of instructions executed and the latency -/
def simulate (config : Config Port Mem) (fuel : Nat) :
    List (Uop Port) → Timer Port Mem → Nat → Nat → Except Failure (Timer Port Mem × Nat × Nat)
  | [], timer, totalInstructionsExecuted, totalLatency => .ok (timer, totalInstructionsExecuted, totalLatency)
  | uop :: rest, timer, totalInstructionsExecuted, totalLatency => do
      if uop.squashed then simulate config fuel rest timer totalInstructionsExecuted totalLatency
      else
        let timer ← addMicroOp config timer uop
        let (timer, totalInstructionsExecuted, totalLatency) ←
          dispatchWhileFull config fuel timer totalInstructionsExecuted totalLatency
        simulate config fuel rest timer totalInstructionsExecuted totalLatency

/-! ## Runs -/

/-- The constructor. -/
def Timer.initial (numOutstanding : Nat) (memory : Mem) : Timer Port Mem where
  windows := .empty
  remainingDispatchBandwidth := 0
  maxStoreCompletionTime := 0
  maxLoadCompletionTime := 0
  loadstoreContention := .create numOutstanding
  memory := memory

/-- What `simulate` does, piece by piece. -/
inductive Label (Port : Type) where
  | add (uop : Uop Port)
  /-- The start of a cycle. -/
  | calculateRate
  | dispatch

def step (config : Config Port Mem) (timer : Timer Port Mem) : Label Port → Except Failure (Timer Port Mem)
  | .add uop => addMicroOp config timer uop
  | .calculateRate => .ok { timer with remainingDispatchBandwidth := (calculateCurrentDispatchRate config timer).2 }
  | .dispatch =>
    match timer.windows.window with
    | [] => .error .windowEmpty
    | microOp :: rest => .ok (dispatchNext config timer microOp rest).1

def machine (config : Config Port Mem) : Machine (Timer Port Mem) (Label Port) Failure where
  initial timer := ∃ numOutstanding memory, timer = .initial numOutstanding memory
  step := step config

end Sniper.Performance.IntervalTimer

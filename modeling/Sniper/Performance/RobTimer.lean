import Sniper.Performance.ContentionModel
import Sniper.Performance.RobContention
import Sniper.Library.Machine
import Mathlib.Order.WithBot
import Mathlib.Order.MinMax
import Mathlib.Order.Nat

/-! `RobTimer`: the dispatch, issue and commit stages over the reorder buffer.

Times do not wrap around.  The memory below the core is a parameter of the model. -/

namespace Sniper.Performance.RobTimer

/-- In femtoseconds; `⊤` is `MaxTime`. -/
def SubsecondTime : Type := WithTop Nat

namespace SubsecondTime

instance : LinearOrder SubsecondTime := inferInstanceAs (LinearOrder (WithTop Nat))

instance : OrderTop SubsecondTime := inferInstanceAs (OrderTop (WithTop Nat))

def fs (value : Nat) : SubsecondTime := WithTop.some value

instance : Coe Nat SubsecondTime := ⟨fs⟩

/-- The value of a time other than `MaxTime`. -/
def value (time : SubsecondTime) : Nat := WithTop.untopD 0 time

theorem top_or_fs (time : SubsecondTime) : time = ⊤ ∨ ∃ value : Nat, time = value := by
  cases time with
  | none => exact .inl rfl
  | some value => exact .inr ⟨value, rfl⟩

theorem fs_ne_top (value : Nat) : fs value ≠ ⊤ := WithTop.coe_ne_top

theorem fs_injective {first second : Nat} (same : fs first = fs second) : first = second := WithTop.coe_injective same

@[simp] theorem fs_le_fs {first second : Nat} : fs first ≤ fs second ↔ first ≤ second := WithTop.coe_le_coe

@[simp] theorem fs_lt_fs {first second : Nat} : fs first < fs second ↔ first < second := WithTop.coe_lt_coe

@[simp] theorem value_fs (value : Nat) : (fs value).value = value := rfl

end SubsecondTime

structure RobEntry where
  uop : DynamicMicroOp
  addressProducers : List Nat
  /-- The sequence numbers of `inlineDependants` and `vectorDependants`. -/
  dependants : List Nat
  dispatched : Nat
  ready : SubsecondTime
  readyMax : SubsecondTime
  addressReady : SubsecondTime
  addressReadyMax : SubsecondTime
  issued : SubsecondTime
  done : SubsecondTime

def RobEntry.init (uop : DynamicMicroOp) : RobEntry where
  uop := uop
  addressProducers := []
  dependants := []
  dispatched := 0
  ready := ⊤
  readyMax := (0 : Nat)
  addressReady := ⊤
  addressReadyMax := (0 : Nat)
  issued := ⊤
  done := ⊤

/-- The queue `rob`, in the part of the window and the part before it, and who produces what. -/
structure Rob where
  entries : List RobEntry
  nextSequenceNumber : Nat
  registerDependencies : RegisterDependencies
  memoryDependencies : MemoryDependencies

inductive CpiComponent where
  | base
  | branchPredictor
  | serialization
  | rsFull
  | instructionCache (where_ : HitWhere)
  | dataCache (where_ : HitWhere)
deriving DecidableEq, Repr

/-- `InstructionTracer::uop_times_t`; `⊤` for what has not happened yet. -/
structure UopTimes where
  sequenceNumber : Nat
  dispatched : Nat
  issued : SubsecondTime
  done : SubsecondTime
  committed : SubsecondTime
deriving DecidableEq

structure Config (Cycle Mem : Type) where
  dispatchWidth : Nat
  commitWidth : Nat
  windowSize : Nat
  rsEntries : Nat
  mispredictionPenalty : Nat
  storeToLoadForwarding : Bool
  noAddressDisambiguation : Bool
  inorder : Bool
  contention : Option (RobContention Cycle)
  period : Nat
  period_pos : 0 < period
  /-- `Core::accessMemory` at a time: the latency and where the access hit. -/
  accessMemory : Mem → DynamicMicroOp → Nat → (Nat × HitWhere) × Mem

structure State (Mem : Type) where
  rob : Rob
  numInRob : Nat
  rsEntriesUsed : Nat
  /-- `alu_used_until` of the contention model. -/
  aluUsedUntil : Alu → Nat
  now : Nat
  frontendStalledUntil : SubsecondTime
  inIcacheMiss : Bool
  lastStoreDone : Nat
  loadQueue : ContentionModel
  storeQueue : ContentionModel
  memory : Mem
  /-- What `traceInstruction` has seen. -/
  traced : List UopTimes
  instructionsExecuted : Nat

structure Timer (Mem : Type) where
  state : State Mem
  cpiCurrentFrontEndStall : Option CpiComponent
  cpi : CpiComponent → Nat

variable {Cycle Mem : Type}

/-! ## New micro-operations -/

/-- The position of a sequence number: micro-operations are numbered sequentially. -/
def findPosition (entries : List RobEntry) (sequenceNumber : Nat) : Except Fault Nat :=
  match entries with
  | [] => .error .outsideRob
  | front :: _ =>
    let position := sequenceNumber - front.uop.sequenceNumber
    match entries[position]? with
    | none => .error .outsideRob
    | some entry => if entry.uop.sequenceNumber = sequenceNumber then .ok position else .error .outsideRob

def findEntryBySequenceNumber (entries : List RobEntry) (sequenceNumber : Nat) : Except Fault RobEntry := do
  match entries[← findPosition entries sequenceNumber]? with
  | none => .error .outsideRob
  | some entry => return entry

def updateEntry (entries : List RobEntry) (sequenceNumber : Nat) (update : RobEntry → RobEntry) :
    Except Fault (List RobEntry) := do
  return entries.modify (← findPosition entries sequenceNumber) update

/-- A register that produces the address of a store: when the address is ready, and the producers it waits for. -/
def addAddressRegister (rob : Rob) (lowestValidSequenceNumber : Nat) (address : SubsecondTime × List Nat)
    (register : Option Nat) : Except Fault (SubsecondTime × List Nat) :=
  match rob.registerDependencies.peekProducer register lowestValidSequenceNumber with
  | none => .ok address
  | some producer => do
      let prodEntry ← findEntryBySequenceNumber rob.entries producer
      if prodEntry.done ≠ ⊤ then return (max address.1 prodEntry.done, address.2)
      else return (address.1, address.2 ++ [producer])

def findAddressProducers (rob : Rob) (lowestValidSequenceNumber : Nat) (uop : DynamicMicroOp) :
    Except Fault (SubsecondTime × List Nat) :=
  if uop.isStore then
    uop.microOp.addressRegisters.foldlM (addAddressRegister rob lowestValidSequenceNumber) ((0 : Nat), [])
  else .ok ((0 : Nat), [])

/-- Store-to-load forwarding: the first store among the dependencies is replaced by its own dependencies. -/
def forwardStore (entries : List RobEntry) (uop : DynamicMicroOp) : List Nat → Except Fault DynamicMicroOp
  | [] => .ok uop
  | dependency :: rest => do
      let prodEntry ← findEntryBySequenceNumber entries dependency
      if prodEntry.uop.isStore then
        (← uop.removeDependency dependency).addDependencies prodEntry.uop.getDependencies
      else forwardStore entries uop rest

def forwardStores (config : Config Cycle Mem) (entries : List RobEntry) (uop : DynamicMicroOp) : Except Fault DynamicMicroOp :=
  if config.storeToLoadForwarding && uop.isLoad then forwardStore entries uop uop.getDependencies else .ok uop

/-- The producers that are done, and when the last of them is; the entry becomes a dependant of the others. -/
def addToProducers (sequenceNumber : Nat) : List Nat → List RobEntry → Except Fault (List RobEntry × List Nat × SubsecondTime)
  | [], entries => .ok (entries, [], (0 : Nat))
  | dependency :: rest, entries => do
      let prodEntry ← findEntryBySequenceNumber entries dependency
      if prodEntry.done ≠ ⊤ then
        let (entries, toRemove, readyMax) ← addToProducers sequenceNumber rest entries
        return (entries, dependency :: toRemove, max prodEntry.done readyMax)
      else
        let entries ← updateEntry entries dependency fun producer =>
          { producer with dependants := producer.dependants ++ [sequenceNumber] }
        addToProducers sequenceNumber rest entries

/-- The dependencies that are looked up; a number before the first micro-operation wraps around. -/
def findDependencies (uop : DynamicMicroOp) : Except Fault (List Nat) :=
  if 0 < uop.intraInstructionDependencies ∧ uop.sequenceNumber < uop.microOpTypeOffset + uop.intraInstructionDependencies then
    .error .outsideRob
  else .ok uop.getDependencies

/-- The size of `deps_to_remove`. -/
def depsToRemoveSize : Nat := 8

/-- One micro-operation of `simulate`. -/
def insertMicroOp (config : Config Cycle Mem) (rob : Rob) (uop : DynamicMicroOp) : Except Fault Rob :=
  if uop.squashed then .ok rob
  else if rob.entries.length ≥ config.windowSize + 255 then .error .robFull
  else do
    let uop := { uop with sequenceNumber := rob.nextSequenceNumber }
    let lowestValidSequenceNumber :=
      match rob.entries with
      | [] => rob.nextSequenceNumber
      | front :: _ => front.uop.sequenceNumber
    let (addressReadyMax, addressProducers) ← findAddressProducers rob lowestValidSequenceNumber uop
    let addressReady := if uop.isStore && addressProducers = [] then addressReadyMax else ⊤
    let (registerDependencies, uop) ← rob.registerDependencies.setDependencies uop lowestValidSequenceNumber
    let (memoryDependencies, uop) ← rob.memoryDependencies.setDependencies uop lowestValidSequenceNumber
    let uop ← forwardStores config rob.entries uop
    let dependencies ← findDependencies uop
    let (entries, toRemove, readyMax) ← addToProducers uop.sequenceNumber dependencies rob.entries
    if toRemove.length > depsToRemoveSize then .error .tooManyRemovals
    else do
      let uop ← uop.removeDependencies toRemove
      let ready := if uop.getDependenciesLength = 0 then readyMax else ⊤
      let entry : RobEntry := { RobEntry.init uop with
        addressProducers, addressReadyMax, addressReady, readyMax, ready }
      return ⟨entries ++ [entry], rob.nextSequenceNumber + 1, registerDependencies, memoryDependencies⟩

/-- The micro-operations of one call of `simulate`. -/
def insertMicroOps (config : Config Cycle Mem) (rob : Rob) (insts : List DynamicMicroOp) : Except Fault Rob :=
  insts.foldlM (insertMicroOp config) rob

/-! ## Dispatch -/

/-- The component of a micro-operation that everyone is blocked on. -/
def RobEntry.cpiComponent (entry : RobEntry) : Option CpiComponent :=
  if entry.uop.microOp.serializing || entry.uop.microOp.membar then some .serialization
  else if entry.uop.isLoad || entry.uop.isStore then some (.dataCache entry.uop.dCacheHitWhere)
  else none

/-- The component of the first micro-operation that is not completed. -/
def findCpiComponent (state : State Mem) : Option CpiComponent :=
  ((state.rob.entries.take state.numInRob).find? fun entry => ¬entry.done < (state.now : SubsecondTime)).bind
    RobEntry.cpiComponent

/-- If uop is already ready, we may need to issue it in the following cycle -/
def RobEntry.dispatch (config : Config Cycle Mem) (entry : RobEntry) (now : Nat) : RobEntry :=
  { entry with dispatched := now, ready := max entry.ready (now + config.period : Nat) }

/-- The next entry enters the window. -/
def State.enter (state : State Mem) (entry : RobEntry) : State Mem :=
  { state with
    rob := { state.rob with entries := state.rob.entries.set state.numInRob entry }
    numInRob := state.numInRob + 1
    rsEntriesUsed := state.rsEntriesUsed + 1 }

/-- The loop of `doDispatch`, for the width that is left, with the component of the front end that ends it. -/
def dispatchLoop (config : Config Cycle Mem) :
    Nat → State Mem → SubsecondTime → Except Fault (State Mem × Option CpiComponent × SubsecondTime)
  | width, state, nextEvent =>
    if state.numInRob < config.windowSize then
      match state.rob.entries[state.numInRob]? with
      | none => .error .noMicroOp
      | some entry =>
        match width with
        | 0 => .ok (state, none, nextEvent)
        | width + 1 =>
          let iCacheMiss : Bool := entry.uop.iCacheHitWhere ≠ .l1i
          if iCacheMiss && !state.inIcacheMiss then
            let stalledUntil : SubsecondTime := (state.now + entry.uop.iCacheLatency * config.period : Nat)
            .ok ({ state with frontendStalledUntil := stalledUntil, inIcacheMiss := true },
              some (.instructionCache entry.uop.iCacheHitWhere), nextEvent)
          else
            -- We just took the latency for this instruction, now dispatch it
            let state := { state with inIcacheMiss := state.inIcacheMiss && !iCacheMiss }
            if state.rsEntriesUsed = config.rsEntries then .ok (state, some .rsFull, nextEvent)
            else
              let entry := entry.dispatch config state.now
              let state := state.enter entry
              let nextEvent := min nextEvent entry.ready
              if entry.uop.redirects then
                .ok ({ state with frontendStalledUntil := ⊤ }, some .branchPredictor, nextEvent)
              else dispatchLoop config width state nextEvent
    else .ok (state, none, nextEvent)

def chooseCpiComponent (cpiFrontEnd cpiRobHead : Option CpiComponent) (windowFull : Bool) : CpiComponent :=
  match cpiFrontEnd with
  | some stall => cpiRobHead.getD stall
  | none => if windowFull then cpiRobHead.getD .base else .base

/-- The front end in this cycle, and the component it is stalled for, given the last one. -/
def runFrontEnd (config : Config Cycle Mem) (state : State Mem) (cpiCurrentFrontEndStall : Option CpiComponent) :
    Except Fault (State Mem × Option CpiComponent × SubsecondTime) :=
  if state.frontendStalledUntil ≤ state.now then dispatchLoop config config.dispatchWidth state ⊤
  -- Front-end is still stalled: re-use last CPI component
  else .ok (state, cpiCurrentFrontEndStall, ⊤)

/-- What `doDispatch` returns, after the state and the component of the front end. -/
def accountDispatch (config : Config Cycle Mem) (state : State Mem) (cpiFrontEnd : Option CpiComponent)
    (nextEvent : SubsecondTime) : CpiComponent × SubsecondTime :=
  let windowFull : Bool := state.numInRob = config.windowSize
  (chooseCpiComponent cpiFrontEnd (findCpiComponent state) windowFull,
    if windowFull then nextEvent else min state.frontendStalledUntil nextEvent)

def doDispatch (config : Config Cycle Mem) (state : State Mem) (cpiCurrentFrontEndStall : Option CpiComponent) :
    Except Fault (State Mem × Option CpiComponent × CpiComponent × SubsecondTime) := do
  let (state, cpiFrontEnd, nextEvent) ← runFrontEnd config state cpiCurrentFrontEndStall
  return (state, cpiFrontEnd, accountDispatch config state cpiFrontEnd nextEvent)

/-! ## Issue -/

def divideRounded (lhs rhs : Nat) : Nat := (lhs + (rhs / 2 + 1)) / rhs

/-- The access of a load or store that is made at issue. -/
def accessAtIssue (config : Config Cycle Mem) (state : State Mem) (uop : DynamicMicroOp) : DynamicMicroOp × Mem :=
  if (uop.isLoad || uop.isStore) && uop.dCacheHitWhere = .unknown then
    let ((latency, where_), memory) := config.accessMemory state.memory uop state.now
    ({ uop with execLatency := uop.execLatency + divideRounded latency config.period, dCacheHitWhere := where_ }, memory)
  else (uop, state.memory)

/-- A producer of an address: whether the address still waits for it. -/
def addressProducerWaits (entries : List RobEntry) (producer : Nat) : Except Fault Bool :=
  match entries with
  | [] => .error .outsideRob
  | front :: _ =>
    if producer ≥ front.uop.sequenceNumber then do
      return (← findEntryBySequenceNumber entries producer).done = ⊤
    else return false

/-- For a store whose address is not ready, that one of its producers issues. -/
def produceAddress (entries : List RobEntry) (producer : Nat) (cycleDepend : SubsecondTime) (depEntry : RobEntry) :
    Except Fault RobEntry := do
  if depEntry.uop.isStore && depEntry.addressReady = ⊤ then
    let waits ← depEntry.addressProducers.mapM (addressProducerWaits entries)
    let addressReadyMax :=
      if producer ∈ depEntry.addressProducers then max depEntry.addressReadyMax cycleDepend else depEntry.addressReadyMax
    if true ∈ waits then return { depEntry with addressReadyMax := addressReadyMax }
    else return { depEntry with addressReadyMax := addressReadyMax, addressReady := addressReadyMax }
  else return depEntry

/-- A dependant of a micro-operation that issues. -/
def wakeDependant (producer : Nat) (cycleDepend : SubsecondTime) (entries : List RobEntry) (dependant : Nat) :
    Except Fault (List RobEntry) := do
  let position ← findPosition entries dependant
  match entries[position]? with
  | none => .error .outsideRob
  | some depEntry =>
    if depEntry.uop.getDependenciesLength = 0 then .error .missingDependency
    else do
      let readyMax := max depEntry.readyMax cycleDepend
      let uop ← depEntry.uop.removeDependency producer
      let ready := if uop.getDependenciesLength = 0 then readyMax else depEntry.ready
      let depEntry ← produceAddress entries producer cycleDepend { depEntry with uop, readyMax, ready }
      return entries.set position depEntry

/-- `doIssue` of the contention model. -/
def issuePorts (config : Config Cycle Mem) (uop : DynamicMicroOp) (ports : Option Cycle) : Except Fault (Option Cycle) :=
  match config.contention, ports with
  | some contention, some cycle => do return some (← contention.doIssue config.period uop cycle)
  | _, _ => .ok ports

/-- When result is available for dependent instructions; for stores, forward the result immediately -/
def cycleDepend (config : Config Cycle Mem) (uop : DynamicMicroOp) (now : Nat) : Nat :=
  if uop.isStore then now + config.period else now + uop.execLatency * config.period

def cycleDone (config : Config Cycle Mem) (uop : DynamicMicroOp) (now : Nat) : Nat :=
  if uop.isStore then now + config.period else now + uop.execLatency * config.period + config.period

def issueInstruction (config : Config Cycle Mem) (state : State Mem) (index : Nat) (entry : RobEntry)
    (ports : Option Cycle) (nextEvent : SubsecondTime) : Except Fault (State Mem × Option Cycle × SubsecondTime) :=
  let (uop, memory) := accessAtIssue config state entry.uop
  let delay := uop.execLatency * config.period
  let done := cycleDone config uop state.now
  if uop.isStore && ¬entry.addressReady ≤ entry.ready then .error .storeAddressLate
  else do
    let ports ← issuePorts config uop ports
    let entries := state.rob.entries.set index { entry with uop := uop, issued := state.now, done := done }
    let entries ← entry.dependants.foldlM (wakeDependant uop.sequenceNumber (cycleDepend config uop state.now)) entries
    return ({ state with
        rob := { state.rob with entries := entries }
        rsEntriesUsed := state.rsEntriesUsed - 1
        -- The frontend needs to start 2 cycles earlier
        frontendStalledUntil :=
          if uop.redirects then ((state.now + config.mispredictionPenalty * config.period - 2 * config.period : Nat) : SubsecondTime)
          else state.frontendStalledUntil
        lastStoreDone :=
          if uop.isStore then max state.lastStoreDone (state.now + delay + config.period) else state.lastStoreDone
        loadQueue :=
          if uop.isLoad then (state.loadQueue.getCompletionTime state.now delay uop.address).2 else state.loadQueue
        storeQueue :=
          if uop.isStore then (state.storeQueue.getCompletionTime state.now delay uop.address).2 else state.storeQueue
        memory := memory },
      ports, min nextEvent done)

/-- The variables of the loop of `doIssue`. -/
structure IssueLoop (Cycle : Type) where
  numIssued : Nat
  nextEvent : SubsecondTime
  headOfQueue : Bool
  noMoreLoad : Bool
  noMoreStore : Bool
  haveUnresolvedStore : Bool
  /-- The contention model in this cycle. -/
  ports : Option Cycle

inductive Decision where
  | issue
  | blocked
  /-- A memory barrier: no memory operation after it issues. -/
  | barrier
  /-- A serializing micro-operation: nothing after it issues. -/
  | stop
deriving DecidableEq, Repr

/-- See if we can issue this instruction. -/
def canIssue (config : Config Cycle Mem) (state : State Mem) (loop : IssueLoop Cycle) (entry : RobEntry) : Decision :=
  let uop := entry.uop
  if entry.ready > state.now then .blocked
  else if (loop.noMoreLoad && uop.isLoad) || (loop.noMoreStore && uop.isStore) then .blocked
  else if uop.microOp.serializing then
    if loop.headOfQueue && state.lastStoreDone ≤ state.now then .issue else .stop
  else if uop.microOp.membar then
    if loop.headOfQueue && state.lastStoreDone ≤ state.now then .issue else .barrier
  else if config.contention.isNone && loop.numIssued = config.dispatchWidth then .blocked
  else if uop.isLoad && !state.loadQueue.hasFreeSlot state.now ContentionModel.noTag then .blocked
  else if uop.isLoad && config.noAddressDisambiguation && loop.haveUnresolvedStore then .blocked
  else if uop.isStore && (!loop.headOfQueue || !state.storeQueue.hasFreeSlot state.now ContentionModel.noTag) then .blocked
  else .issue

/-- Whether it issues: `tryIssue` is made last since it marks the ports as in use. -/
def tryPorts (config : Config Cycle Mem) (decision : Decision) (uop : DynamicMicroOp) (ports : Option Cycle) :
    Except Fault (Bool × Option Cycle) :=
  if decision = .issue then
    match config.contention, ports with
    | some contention, some cycle => do
        let (issues, cycle) ← contention.tryIssue uop cycle
        return (issues, some cycle)
    | _, _ => .ok (true, ports)
  else .ok (false, ports)

/-- Nothing more can be issued in this cycle. -/
def noMore (config : Config Cycle Mem) (loop : IssueLoop Cycle) : Bool :=
  match config.contention, loop.ports with
  | some contention, some cycle => contention.noMore cycle
  | _, _ => loop.numIssued = config.dispatchWidth

/-- The loop variables after a micro-operation that does not issue. -/
def IssueLoop.pass (loop : IssueLoop Cycle) (decision : Decision) (entry : RobEntry) (now : Nat) : IssueLoop Cycle :=
  { loop with
    headOfQueue := false
    noMoreLoad := loop.noMoreLoad || decision = .barrier
    noMoreStore := loop.noMoreStore || decision = .barrier
    haveUnresolvedStore := loop.haveUnresolvedStore || (entry.uop.isStore && entry.addressReady > now) }

/-- One entry in the loop of `doIssue`, and whether the loop goes on. -/
def issueEntry (config : Config Cycle Mem) (index : Nat) (entry : RobEntry) (loop : IssueLoop Cycle) (state : State Mem) :
    Except Fault (State Mem × IssueLoop Cycle × Bool) :=
  if entry.done ≠ ⊤ then .ok (state, { loop with nextEvent := min loop.nextEvent entry.done }, true)
  else
    let loop := { loop with nextEvent := min loop.nextEvent entry.ready }
    let decision := canIssue config state loop entry
    if decision = .stop then .ok (state, loop, false)
    else do
      let (issues, ports) ← tryPorts config decision entry.uop loop.ports
      if issues then do
        let (state, ports, nextEvent) ← issueInstruction config state index entry ports loop.nextEvent
        let loop := { loop with numIssued := loop.numIssued + 1, ports := ports, nextEvent := nextEvent }
        return (state, loop, !noMore config loop)
      else
        let loop := { loop with ports := ports }.pass decision entry state.now
        -- In-order: only issue from head of the ROB
        return (state, loop, !(config.inorder || noMore config loop))

/-- The loop of `doIssue`, for the entries that are left of the window, from an index on. -/
def issueLoop (config : Config Cycle Mem) : Nat → Nat → IssueLoop Cycle → State Mem → Except Fault (State Mem × IssueLoop Cycle)
  | 0, _, loop, state => .ok (state, loop)
  | left + 1, index, loop, state =>
    match state.rob.entries[index]? with
    | none => .error .outsideRob
    | some entry => do
        let (state, loop, continues) ← issueEntry config index entry loop state
        if continues then issueLoop config left (index + 1) loop state else return (state, loop)

def IssueLoop.start (config : Config Cycle Mem) (state : State Mem) : IssueLoop Cycle where
  numIssued := 0
  nextEvent := ⊤
  headOfQueue := true
  noMoreLoad := false
  noMoreStore := false
  haveUnresolvedStore := false
  ports := config.contention.map fun contention => contention.initCycle state.now state.aluUsedUntil

def doIssue (config : Config Cycle Mem) (state : State Mem) : Except Fault (State Mem × SubsecondTime) := do
  let (state, loop) ← issueLoop config state.numInRob 0 (.start config state) state
  let aluUsedUntil :=
    match config.contention, loop.ports with
    | some contention, some cycle => contention.aluUsedUntil cycle
    | _, _ => state.aluUsedUntil
  return ({ state with aluUsedUntil := aluUsedUntil }, loop.nextEvent)

/-! ## Commit -/

/-- The entries that commit, of which `numCommitted` have done so, and those that stay. -/
def commitLoop (config : Config Cycle Mem) (now : Nat) : List RobEntry → Nat → List RobEntry × List RobEntry
  | [], _ => ([], [])
  | front :: rest, numCommitted =>
    if front.done ≤ now then
      if numCommitted + 1 = config.commitWidth then ([front], rest)
      else
        let (commits, stay) := commitLoop config now rest (numCommitted + 1)
        (front :: commits, stay)
    else ([], front :: rest)

def RobEntry.times (entry : RobEntry) (committed : SubsecondTime) : UopTimes :=
  ⟨entry.uop.sequenceNumber, entry.dispatched, entry.issued, entry.done, committed⟩

def doCommit (config : Config Cycle Mem) (state : State Mem) : State Mem × SubsecondTime :=
  let (commits, stay) := commitLoop config state.now state.rob.entries 0
  ({ state with
      rob := { state.rob with entries := stay }
      numInRob := state.numInRob - commits.length
      traced := state.traced ++ commits.map (·.times state.now)
      instructionsExecuted := state.instructionsExecuted + commits.countP (·.uop.last) },
    match stay with
    | [] => ⊤
    | front :: _ => front.done)

/-! ## Cycles -/

/-- `execute` asks for more micro-operations before it does anything. -/
def State.asks (config : Config Cycle Mem) (state : State Mem) : Prop :=
  state.frontendStalledUntil ≤ state.now ∧ state.rob.entries.length < state.numInRob + 2 * config.dispatchWidth

instance (config : Config Cycle Mem) (state : State Mem) : Decidable (state.asks config) :=
  inferInstanceAs (Decidable (_ ∧ _))

/-- How `now` advances: over all cycles in which nothing happens, or with `ASSERT_SKIP` cycle by cycle. -/
inductive Advance where
  | skipping
  | stepping
deriving DecidableEq, Repr

def skipTo (config : Config Cycle Mem) (now : Nat) (nextEvent : SubsecondTime) : Nat :=
  if nextEvent ≠ ⊤ ∧ nextEvent > ((now + config.period : Nat) : SubsecondTime) then nextEvent.value - now
  else config.period

/-- `*cpiComponent += latency` -/
def charge (cpi : CpiComponent → Nat) (component : CpiComponent) (latency : Nat) : CpiComponent → Nat :=
  fun other => if other = component then cpi other + latency else cpi other

/-- The dispatch, issue and commit stages: the component of the front end, that of the cycle, and the next event. -/
def runStages (config : Config Cycle Mem) (state : State Mem) (cpiCurrentFrontEndStall : Option CpiComponent) :
    Except Fault (State Mem × Option CpiComponent × CpiComponent × SubsecondTime) := do
  let (state, cpiFrontEnd, component, nextDispatch) ← doDispatch config state cpiCurrentFrontEndStall
  let (state, nextIssue) ← doIssue config state
  let (state, nextCommit) := doCommit config state
  return (state, cpiFrontEnd, component, min nextDispatch (min nextIssue nextCommit))

def advanceBy (config : Config Cycle Mem) (advance : Advance) (now : Nat) (nextEvent : SubsecondTime) : Nat :=
  match advance with
  | .skipping => skipTo config now nextEvent
  | .stepping => config.period

def execute (config : Config Cycle Mem) (advance : Advance) (timer : Timer Mem) : Except Fault (Timer Mem) := do
  let (state, cpiFrontEnd, component, nextEvent) ← runStages config timer.state timer.cpiCurrentFrontEndStall
  let latency := advanceBy config advance state.now nextEvent
  return ⟨{ state with now := state.now + latency }, cpiFrontEnd, charge timer.cpi component latency⟩

/-! ## Runs -/

/-- The timer, and the micro-operations of the calls of `simulate` to come. -/
structure System (Mem : Type) where
  timer : Timer Mem
  supply : List (List DynamicMicroOp)

/-- Dispatched, issued and done times of the micro-operations of the window, after the traced ones. -/
def State.times (state : State Mem) : List UopTimes :=
  state.traced ++ (state.rob.entries.take state.numInRob).map (·.times ⊤)

/-- The constructor, and `synchronize` to the start time. -/
def State.initial (outstandingLoads outstandingStores start : Nat) (memory : Mem) : State Mem where
  rob := ⟨[], 0, fun _ => none, ⟨[], none⟩⟩
  numInRob := 0
  rsEntriesUsed := 0
  aluUsedUntil := fun _ => 0
  now := start
  frontendStalledUntil := (0 : Nat)
  inIcacheMiss := false
  lastStoreDone := 0
  loadQueue := .create outstandingLoads
  storeQueue := .create outstandingStores
  memory := memory
  traced := []
  instructionsExecuted := 0

def Timer.initial (outstandingLoads outstandingStores start : Nat) (memory : Mem) : Timer Mem :=
  ⟨State.initial outstandingLoads outstandingStores start memory, none, fun _ => 0⟩

/-- `simulate` is called again when `execute` asks for more. -/
def System.step (config : Config Cycle Mem) (advance : Advance) (system : System Mem) : Except Fault (System Mem) :=
  let state := system.timer.state
  if state.asks config then
    match system.supply with
    | [] => .error .finished
    | insts :: supply => do
        let rob ← insertMicroOps config state.rob insts
        return ⟨{ system.timer with state := { state with rob := rob } }, supply⟩
  else do
    return ⟨← execute config advance system.timer, system.supply⟩

def machine (config : Config Cycle Mem) (advance : Advance) (start : System Mem) : Machine (System Mem) Unit Fault where
  initial system := system = start
  step system _ := system.step config advance

end Sniper.Performance.RobTimer

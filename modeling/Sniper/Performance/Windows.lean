import Sniper.Performance.ContentionModel
import Sniper.Performance.IntervalContention
import Mathlib.Algebra.Ring.Nat

/-! `Windows`: the micro-operations to dispatch, and the old window of the last ones that were dispatched. -/

namespace Sniper.Performance.IntervalTimer

inductive UopSubtype where
  | fpAddsub
  | fpMuldiv
  | load
  | store
  | generic
  | branch
deriving DecidableEq, Repr

inductive CpContrType where
  | fpAddsub
  | fpMuldiv
  | loadL1
  | loadL2
  | loadL3
  | loadLx
  | store
  | generic
  | branch
deriving DecidableEq, Repr

def CpContrType.all : List CpContrType :=
  [.fpAddsub, .fpMuldiv, .loadL1, .loadL2, .loadL3, .loadLx, .store, .generic, .branch]

structure CoreSpecificInfo (Port : Type) where
  port : Port
  /-- `getBypassLatency`, in cycles. -/
  bypassLatency : Nat
deriving DecidableEq, Repr

structure Uop (Port : Type) extends DynamicMicroOp where
  subtype : UopSubtype
  interrupt : Bool
  forceLongLatencyLoad : Bool
  info : CoreSpecificInfo Port
deriving DecidableEq, Repr

inductive Dependent where
  | noDep
  | dataDep
  | indepMiss
deriving DecidableEq, Repr

/-- Times are in cycles. -/
structure WindowEntry (Port : Type) where
  uop : Uop Port
  execTime : Nat
  fetchTime : Nat
  cpContr : Nat
  icacheOverlap : Bool
  bpredOverlap : Bool
  dcacheOverlap : Bool
  dependent : Dependent
deriving DecidableEq, Repr

structure Config (Port Mem : Type) [DecidableEq Port] where
  dispatchWidth : Nat
  windowSize : Nat
  /-- It is an `int`. -/
  windowSize_lt : windowSize < 2 ^ 31
  branchMispredictionPenalty : Nat
  longLatencyCutoff : Nat
  doFunctionalUnitContention : Bool
  contention : IntervalContention Port
  /-- `memory_dependency_granularity` -/
  memoryGranularity : Nat
  /-- `lll_dependency_granularity` -/
  lllGranularity : Nat
  /-- In femtoseconds. -/
  period : Nat
  /-- `Core::accessMemory`: the latency, in femtoseconds, and where the access hit. -/
  accessMemory : Mem → Uop Port → (Nat × HitWhere) × Mem

structure Windows (Port : Type) where
  /-- Oldest first. -/
  oldWindow : List (WindowEntry Port)
  /-- Next one to dispatch first. -/
  window : List (WindowEntry Port)
  nextSequenceNumber : Nat
  registerDependencies : RegisterDependencies
  memoryDependencies : MemoryDependencies
  criticalPathHead : Nat
  criticalPathTail : Nat
  cpcontrByType : CpContrType → Nat
  cpcontrTotal : Nat
  /-- `m_count_byport` of the contention model. -/
  countByPort : Port → Nat

inductive Failure where
  | fault (fault : Fault)
  /-- "Window is full" -/
  | windowFull
  | windowEmpty
  /-- `assert(m_cpcontr_bytype[type] <= m_cpcontr_total)` -/
  | assertion
  | divisionByZero
  | outOfFuel
deriving DecidableEq, Repr

/-- The conversion of an unsigned value to `int`. -/
def toInt (value : Nat) : Int := (BitVec.ofNat 32 value).toInt

/-- The conversion of an `int` to `uint64_t`. -/
def toUInt64 (value : Int) : Nat := (BitVec.ofInt 64 value).toNat

variable {Port Mem : Type} [DecidableEq Port]

/-- `isLongLatencyLoad`, for a load. -/
def Uop.isLongLatencyLoad (config : Config Port Mem) (uop : Uop Port) : Bool :=
  uop.forceLongLatencyLoad || (config.longLatencyCutoff > 0 && uop.execLatency > config.longLatencyCutoff)

/-- `WindowEntry::initialize` -/
def WindowEntry.init (uop : Uop Port) : WindowEntry Port where
  uop := uop
  execTime := 0
  fetchTime := 0
  cpContr := 0
  icacheOverlap := false
  bpredOverlap := false
  dcacheOverlap := false
  dependent := .noDep

def WindowEntry.sequenceNumber (entry : WindowEntry Port) : Nat := entry.uop.sequenceNumber

def WindowEntry.port (entry : WindowEntry Port) : Port := entry.uop.info.port

def getCpContrType (entry : WindowEntry Port) : CpContrType :=
  match entry.uop.subtype with
  | .fpAddsub => .fpAddsub
  | .fpMuldiv => .fpMuldiv
  | .load =>
    match entry.uop.dCacheHitWhere with
    | .l1Own => .loadL1
    | .l2Own | .l1Sibling | .l2Sibling => .loadL2
    | .l3Own | .l3Sibling => .loadL3
    | _ => .loadLx
  | .store => .store
  | .generic => .generic
  | .branch => .branch

namespace Windows

/-- `Windows::clear` -/
def empty : Windows Port where
  oldWindow := []
  window := []
  nextSequenceNumber := 0
  registerDependencies := fun _ => none
  memoryDependencies := ⟨[], none⟩
  criticalPathHead := 0
  criticalPathTail := 0
  cpcontrByType := fun _ => 0
  cpcontrTotal := 0
  countByPort := fun _ => 0

def clearFunctionalUnitStats (windows : Windows Port) : Windows Port :=
  { windows with cpcontrByType := fun _ => 0, cpcontrTotal := 0, countByPort := fun _ => 0 }

def addFunctionalUnitStats (windows : Windows Port) (uop : WindowEntry Port) : Windows Port :=
  { windows with
    cpcontrByType := fun type =>
      if type = getCpContrType uop then windows.cpcontrByType type + uop.cpContr else windows.cpcontrByType type
    cpcontrTotal := windows.cpcontrTotal + uop.cpContr
    countByPort := fun port => if port = uop.port then windows.countByPort port + 1 else windows.countByPort port }

def removeFunctionalUnitStats (windows : Windows Port) (uop : WindowEntry Port) : Windows Port :=
  { windows with
    cpcontrByType := fun type =>
      if type = getCpContrType uop then windows.cpcontrByType type - uop.cpContr else windows.cpcontrByType type
    cpcontrTotal := windows.cpcontrTotal - uop.cpContr
    countByPort := fun port => if port = uop.port then windows.countByPort port - 1 else windows.countByPort port }

def wIsFull (config : Config Port Mem) (windows : Windows Port) : Bool := windows.window.length = config.windowSize

/-- Add the microOperation to the window and calculate its dependencies. -/
def add (config : Config Port Mem) (windows : Windows Port) (uop : Uop Port) : Except Failure (Windows Port) :=
  if windows.wIsFull config then .error .windowFull
  else
    let microOp := { uop.toDynamicMicroOp with sequenceNumber := windows.nextSequenceNumber }
    let lowestValidSequenceNumber := ((windows.oldWindow ++ windows.window).head?.map (·.sequenceNumber)).getD
      windows.nextSequenceNumber
    match windows.registerDependencies.setDependencies microOp lowestValidSequenceNumber with
    | .error fault => .error (.fault fault)
    | .ok (registerDependencies, microOp) =>
      match windows.memoryDependencies.setDependencies microOp lowestValidSequenceNumber with
      | .error fault => .error (.fault fault)
      | .ok (memoryDependencies, microOp) =>
        .ok { windows with
          window := windows.window ++ [.init { uop with toDynamicMicroOp := microOp }]
          nextSequenceNumber := windows.nextSequenceNumber + 1
          registerDependencies := registerDependencies
          memoryDependencies := memoryDependencies }

/-- The micro-operation that a dependency is on, if it is in the old window: they are numbered sequentially. -/
def getProducer (windows : Windows Port) (dependency : Nat) : Option (WindowEntry Port) :=
  windows.oldWindow.find? (·.sequenceNumber = dependency)

def getProducers (windows : Windows Port) (microOp : WindowEntry Port) : List (WindowEntry Port) :=
  microOp.uop.getDependencies.filterMap windows.getProducer

def getEffectiveCriticalPathLength (config : Config Port Mem) (windows : Windows Port) (criticalPathLength : Nat) : Nat :=
  if config.doFunctionalUnitContention then
    config.contention.getEffectiveCriticalPathLength windows.countByPort criticalPathLength
  else criticalPathLength

/-- The oldest one leaves the old window. -/
def removeOldest (windows : Windows Port) : Windows Port :=
  match windows.oldWindow with
  | [] => windows
  | oldest :: rest =>
    { windows.removeFunctionalUnitStats oldest with
      criticalPathHead := max windows.criticalPathHead oldest.execTime
      oldWindow := rest }

/-- The next one to dispatch, and those after it. -/
def dispatchInstruction (config : Config Port Mem) (windows : Windows Port) (microOp : WindowEntry Port)
    (rest : List (WindowEntry Port)) : Windows Port :=
  let windows := if windows.oldWindow.length = config.windowSize then windows.removeOldest else windows
  { windows.addFunctionalUnitStats microOp with oldWindow := windows.oldWindow ++ [microOp], window := rest }

def clearOldWindow (windows : Windows Port) (newCpHead : Nat) : Windows Port :=
  { windows.clearFunctionalUnitStats with
    criticalPathHead := newCpHead
    criticalPathTail := newCpHead
    oldWindow := [] }

def getCriticalPathLength (windows : Windows Port) : Int :=
  if ¬windows.criticalPathHead ≤ windows.criticalPathTail then 0
  else toInt (windows.criticalPathTail - windows.criticalPathHead)

def longLatencyOperationLatency (config : Config Port Mem) (windows : Windows Port) (uop : WindowEntry Port) : Nat :=
  if uop.execTime < windows.criticalPathTail then 0
  else if uop.execTime - windows.criticalPathTail < config.longLatencyCutoff then 0
  else 1

def updateCriticalPathTail (windows : Windows Port) (uop : WindowEntry Port) : Windows Port × WindowEntry Port :=
  if uop.execTime > windows.criticalPathTail then
    ({ windows with criticalPathTail := uop.execTime }, { uop with cpContr := uop.execTime - windows.criticalPathTail })
  else (windows, uop)

def getMinimalFlushLatency (windows : Windows Port) (width : Nat) : Nat := (windows.oldWindow.length + (width - 1)) / width

def getCpContrFraction (windows : Windows Port) (type : CpContrType) (effectiveCpLength : Nat) : Except Failure Nat :=
  if ¬windows.cpcontrByType type ≤ windows.cpcontrTotal then .error .assertion
  else if windows.cpcontrTotal > 0 then
    if effectiveCpLength = 0 then .error .divisionByZero
    else .ok (1000000 * windows.cpcontrByType type % 2 ^ 64 / effectiveCpLength)
  else .ok 0

/-- The times of the producers of a micro-operation with a path of some length to the branch. -/
def markProducers (length : Nat) : List (WindowEntry Port) → (Nat → Nat) → Nat → Nat
  | [], execTimeMap => execTimeMap
  | producer :: rest, execTimeMap =>
    markProducers length rest fun sequenceNumber =>
      if sequenceNumber = producer.sequenceNumber then
        max ((producer.uop.execLatency + length) % 2 ^ 32) (execTimeMap sequenceNumber)
      else execTimeMap sequenceNumber

/-- Find/mark producers of producers, in the micro-operations of the old window from the latest one on. -/
def resolveBranch (windows : Windows Port) : List (WindowEntry Port) → (Nat → Nat) → Nat
  | [], _ => 0
  | op :: older, execTimeMap =>
    let length := execTimeMap op.sequenceNumber
    if length = 0 then resolveBranch windows older execTimeMap
    else
      -- There is a path to the committed branch: check the dependencies
      max length (resolveBranch windows older (markProducers length (windows.getProducers op) execTimeMap))

def calculateBranchResolutionLatency (windows : Windows Port) (microOp : WindowEntry Port) : Nat :=
  windows.resolveBranch windows.oldWindow.reverse (markProducers 0 (windows.getProducers microOp) fun _ => 0)

end Windows

end Sniper.Performance.IntervalTimer

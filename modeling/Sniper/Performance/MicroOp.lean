/-! Micro-operations and the dependencies between them, by sequence number. -/

namespace Sniper.Performance

inductive Fault where
  /-- The circular queue of the ROB has no free entry. -/
  | robFull
  /-- "Sequence number outside of ROB" -/
  | outsideRob
  /-- "Expected sufficient uops for dispatching in pre-ROB buffer, but didn't find them" -/
  | noMicroOp
  /-- `dependenciesLength` reaches the size of the array. -/
  | tooManyDependencies
  /-- The circular queue of the stores has no free entry. -/
  | producersFull
  /-- The dependency to be removed is not listed. -/
  | missingDependency
  /-- More than the entries of `deps_to_remove` are to be removed. -/
  | tooManyRemovals
  /-- "DynamicMicroOp of the wrong type" -/
  | wrongType
  /-- "Store address cannot be ready later than the whole uop is" -/
  | storeAddressLate
  /-- There are no more micro-operations to simulate. -/
  | finished
deriving DecidableEq, Repr

inductive UopType where
  | invalid
  | load
  | execute
  | store
deriving DecidableEq, Repr

/-- `HitWhere::where_t` -/
inductive HitWhere where
  | l1i
  | l1Own
  | l2Own
  | l3Own
  | l4Own
  | miss
  | nucaCache
  | dramCache
  | dram
  | dramLocal
  | dramRemote
  | cacheRemote
  | sibling
  | l1Sibling
  | l2Sibling
  | l3Sibling
  | l4Sibling
  | unknown
  | predicateFalse
  | prefetchNoMapping
deriving DecidableEq, Repr

structure MicroOp where
  uopType : UopType
  sourceRegisters : List Nat
  /-- `none` is `DL_REG_INVALID`. -/
  addressRegisters : List (Option Nat)
  destinationRegisters : List Nat
  branch : Bool
  serializing : Bool
  membar : Bool
deriving DecidableEq, Repr

def MicroOp.isLoad (uop : MicroOp) : Bool := uop.uopType = .load

def MicroOp.isStore (uop : MicroOp) : Bool := uop.uopType = .store

def maximumNumberOfDependencies : Nat := 14

/-- `DynamicMicroOpNehalem::uop_port_t` -/
inductive NehalemPort where
  | port0
  | port1
  | port2
  | port34
  | port5
  | port05
  | port015
deriving DecidableEq, Repr

/-- `DynamicMicroOpBoomV1::uop_port_t` -/
inductive BoomV1Port where
  | port0
  | port1
  | port2
  | port012
deriving DecidableEq, Repr

/-- The port of a micro-operation, by the core model it was created for. -/
inductive CorePort where
  | nehalem (port : NehalemPort)
  | boomV1 (port : BoomV1Port)
deriving DecidableEq, Repr

inductive Alu where
  | none
  | trig
deriving DecidableEq, Repr

structure DynamicMicroOp where
  microOp : MicroOp
  sequenceNumber : Nat
  address : Nat
  squashed : Bool
  intraInstructionDependencies : Nat
  microOpTypeOffset : Nat
  dependencies : List Nat
  /-- In cycles. -/
  execLatency : Nat
  branchMispredicted : Bool
  dCacheHitWhere : HitWhere
  iCacheHitWhere : HitWhere
  /-- In cycles. -/
  iCacheLatency : Nat
  last : Bool
  port : CorePort
  alu : Alu
  /-- `getAluLatency` of the core model, in cycles. -/
  aluLatency : Nat
deriving DecidableEq, Repr

namespace DynamicMicroOp

def isLoad (uop : DynamicMicroOp) : Bool := uop.microOp.isLoad

def isStore (uop : DynamicMicroOp) : Bool := uop.microOp.isStore

def redirects (uop : DynamicMicroOp) : Bool := uop.microOp.branch && uop.branchMispredicted

def getDependenciesLength (uop : DynamicMicroOp) : Nat := uop.intraInstructionDependencies + uop.dependencies.length

/-- The results of `getDependency`, for all indices. -/
def getDependencies (uop : DynamicMicroOp) : List Nat :=
  (List.range uop.intraInstructionDependencies).map
      (uop.sequenceNumber - uop.microOpTypeOffset - uop.intraInstructionDependencies + ·) ++ uop.dependencies

def addDependency (uop : DynamicMicroOp) (sequenceNumber : Nat) : Except Fault DynamicMicroOp :=
  if sequenceNumber ∈ uop.dependencies then .ok uop
  else if uop.dependencies.length < maximumNumberOfDependencies then
    .ok { uop with dependencies := uop.dependencies ++ [sequenceNumber] }
  else .error .tooManyDependencies

def addDependencies (uop : DynamicMicroOp) : List Nat → Except Fault DynamicMicroOp
  | [] => .ok uop
  | sequenceNumber :: rest => do (← uop.addDependency sequenceNumber).addDependencies rest

/-- Moves the intra-instruction dependencies before the removed one to the regular list. -/
def removeIntra (uop : DynamicMicroOp) (sequenceNumber : Nat) : Nat → List Nat → Except Fault DynamicMicroOp
  | 0, _ => .error .missingDependency
  | intra + 1, dependencies =>
    let first := uop.sequenceNumber - uop.microOpTypeOffset - (intra + 1)
    if sequenceNumber = first then
      .ok { uop with intraInstructionDependencies := intra, dependencies := dependencies }
    else if dependencies.length + 1 < maximumNumberOfDependencies then
      uop.removeIntra sequenceNumber intra (dependencies ++ [first])
    else .error .tooManyDependencies

/-- Swaps the removed dependency with the last one. -/
def removeInter (uop : DynamicMicroOp) (sequenceNumber : Nat) : Except Fault DynamicMicroOp :=
  match uop.dependencies.getLast? with
  | none => .error .missingDependency
  | some last =>
    if last = sequenceNumber then .ok { uop with dependencies := uop.dependencies.dropLast }
    else if sequenceNumber ∈ uop.dependencies then
      .ok { uop with dependencies := (uop.dependencies.set (uop.dependencies.idxOf sequenceNumber) last).dropLast }
    else .error .missingDependency

def removeDependency (uop : DynamicMicroOp) (sequenceNumber : Nat) : Except Fault DynamicMicroOp :=
  if sequenceNumber ≥ uop.sequenceNumber - uop.microOpTypeOffset - uop.intraInstructionDependencies then
    uop.removeIntra sequenceNumber uop.intraInstructionDependencies uop.dependencies
  else uop.removeInter sequenceNumber

def removeDependencies (uop : DynamicMicroOp) : List Nat → Except Fault DynamicMicroOp
  | [] => .ok uop
  | sequenceNumber :: rest => do (← uop.removeDependency sequenceNumber).removeDependencies rest

end DynamicMicroOp

/-- The producer of each register; `none` is `INVALID_SEQNR`. -/
abbrev RegisterDependencies := Nat → Option Nat

namespace RegisterDependencies

def peekProducer (producers : RegisterDependencies) (register : Option Nat) (lowestValidSequenceNumber : Nat) : Option Nat :=
  match register with
  | none => none
  | some register => (producers register).filter (lowestValidSequenceNumber ≤ ·)

/-- The dependencies on the producers of the source registers. -/
def addSources (lowestValidSequenceNumber : Nat) :
    List Nat → RegisterDependencies → DynamicMicroOp → Except Fault (RegisterDependencies × DynamicMicroOp)
  | [], producers, uop => .ok (producers, uop)
  | register :: rest, producers, uop =>
    match producers register with
    | none => addSources lowestValidSequenceNumber rest producers uop
    | some producer =>
      if producer ≥ lowestValidSequenceNumber then do
        addSources lowestValidSequenceNumber rest producers (← uop.addDependency producer)
      else addSources lowestValidSequenceNumber rest (fun other => if other = register then none else producers other) uop

def setDependencies (producers : RegisterDependencies) (uop : DynamicMicroOp) (lowestValidSequenceNumber : Nat) :
    Except Fault (RegisterDependencies × DynamicMicroOp) := do
  let (producers, uop) ← addSources lowestValidSequenceNumber uop.microOp.sourceRegisters producers uop
  return (fun register => if register ∈ uop.microOp.destinationRegisters then some uop.sequenceNumber else producers register, uop)

end RegisterDependencies

/-- "Maximum size should be one ROB worth of instructions" -/
def producersSize : Nat := 1024

structure MemoryDependencies where
  /-- The sequence number and the address of each store, oldest first. -/
  producers : List (Nat × Nat)
  membar : Option Nat

namespace MemoryDependencies

def clean (memory : MemoryDependencies) (lowestValidSequenceNumber : Nat) : MemoryDependencies :=
  { memory with producers := memory.producers.dropWhile (·.1 < lowestValidSequenceNumber) }

/-- `add`, with the assertion of `CircularQueue::push`. -/
def add (memory : MemoryDependencies) (sequenceNumber address : Nat) : Except Fault MemoryDependencies :=
  if memory.producers.length = producersSize then .error .producersFull
  else .ok { memory with producers := memory.producers ++ [(sequenceNumber, address)] }

def find (memory : MemoryDependencies) (address : Nat) : Option Nat :=
  (memory.producers.reverse.find? (·.2 = address)).map (·.1)

def addMembar (memory : MemoryDependencies) (uop : DynamicMicroOp) (lowestValidSequenceNumber : Nat) :
    Except Fault DynamicMicroOp :=
  uop.addDependencies (memory.membar.filter (lowestValidSequenceNumber < ·)).toList

def setDependencies (memory : MemoryDependencies) (uop : DynamicMicroOp) (lowestValidSequenceNumber : Nat) :
    Except Fault (MemoryDependencies × DynamicMicroOp) := do
  let memory := memory.clean lowestValidSequenceNumber
  if uop.isLoad then
    let uop ← uop.addDependencies (memory.find uop.address).toList
    return (memory, ← memory.addMembar uop lowestValidSequenceNumber)
  else if uop.isStore then
    let memory ← memory.add uop.sequenceNumber uop.address
    return (memory, ← memory.addMembar uop lowestValidSequenceNumber)
  else if uop.microOp.membar then
    let uop ← memory.addMembar uop lowestValidSequenceNumber
    return ({ memory with membar := some uop.sequenceNumber }, uop)
  else
    return (memory, uop)

end MemoryDependencies

end Sniper.Performance

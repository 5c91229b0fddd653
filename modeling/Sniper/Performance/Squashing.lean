import Sniper.Library.Survivors
import Sniper.Performance.RobTimer

/-! `MicroOpPerformanceModel::handleInstruction`: the micro-operations of an instruction, from `InstructionDecoder::decode`
to the squashing of the loads and stores that touch a cache line again. -/

namespace Sniper.Performance.Squashing

inductive Fault where
  /-- "Did not get enough memory_info objects" -/
  | notEnoughMemoryInfo
  /-- "Expected memory %d info, got: %d." -/
  | unexpectedDirection
  /-- "Read operand count mismatch" and "Write operand count mismatch" -/
  | operandCount
  /-- "Expected load_index(%x) to be less than uops.size()(%d).", and for stores -/
  | outsideUops
  /-- "Expected uop %d to be a load.", and for stores -/
  | wrongType
  /-- `assert(num_reads_done == num_loads)` and `assert(num_writes_done == num_stores)` -/
  | operandMismatch
  /-- "intraInstructionDependancies (%d) should be <= (%d)" -/
  | intraInstructionDependencies
deriving DecidableEq, Repr

/-! ### InstructionDecoder -/

/-- A `MicroOp` with its place in the instruction. -/
structure DecodedMicroOp extends MicroOp where
  microOpTypeOffset : Nat
  intraInstructionDependencies : Nat
  first : Bool
  last : Bool
deriving DecidableEq, Repr

/-- What `decode` finds out about an instruction before it lists the micro-operations. -/
structure Instruction where
  numLoads : Nat
  numExecs : Nat
  numStores : Nat
  /-- "More than 1 exec uop" -/
  oneExec : numExecs ≤ 1
  /-- `getNumExecs` gives an execute to an instruction without loads and stores. -/
  someUop : 0 < numLoads + numExecs + numStores
  /-- The registers and the flags of each micro-operation. -/
  filled : Nat → MicroOp

namespace Instruction

variable (instruction : Instruction)

def totalMicroOps : Nat := instruction.numLoads + instruction.numExecs + instruction.numStores

def makeLoad (offset : Nat) (uop : MicroOp) : DecodedMicroOp :=
  { uop with uopType := .load, microOpTypeOffset := offset, intraInstructionDependencies := 0, first := false, last := false }

def makeExecute (offset numLoads : Nat) (uop : MicroOp) : DecodedMicroOp :=
  { uop with uopType := .execute, microOpTypeOffset := offset, intraInstructionDependencies := numLoads, first := false, last := false }

def makeStore (offset numExecute : Nat) (uop : MicroOp) : DecodedMicroOp :=
  { uop with uopType := .store, microOpTypeOffset := offset, intraInstructionDependencies := numExecute, first := false, last := false }

def microOp (index : Nat) : DecodedMicroOp :=
  let currentMicroOp :=
    if index < instruction.numLoads then makeLoad index (instruction.filled index)
    else if index < instruction.numLoads + instruction.numExecs then
      makeExecute (index - instruction.numLoads) instruction.numLoads (instruction.filled index)
    else makeStore (index - instruction.numLoads - instruction.numExecs) instruction.numExecs (instruction.filled index)
  { currentMicroOp with first := index = 0, last := index = instruction.totalMicroOps - 1 }

/-- The list that `decode` returns. -/
def decode : List DecodedMicroOp := (List.range instruction.totalMicroOps).map instruction.microOp

end Instruction

/-! ### DynamicMicroOp -/

/-- A micro-operation of the instruction that is handled. -/
structure CurrentUop extends DynamicMicroOp where
  /-- `m_uop` -/
  decoded : DecodedMicroOp
  first : Bool
  squashedCount : Nat
deriving DecidableEq, Repr

/-- What the core model says about a micro-operation. -/
structure CoreModel where
  getInstructionLatency : MicroOp → Nat
  getBypassLatency : MicroOp → Nat
  port : MicroOp → CorePort
  alu : MicroOp → Alu
  getAluLatency : MicroOp → Nat

/-- `CoreModel::createDynamicMicroOp` and the constructor of `DynamicMicroOp` -/
def CoreModel.createDynamicMicroOp (core : CoreModel) (uop : DecodedMicroOp) : CurrentUop where
  microOp := uop.toMicroOp
  sequenceNumber := 0
  address := 0
  squashed := false
  intraInstructionDependencies := uop.intraInstructionDependencies
  microOpTypeOffset := uop.microOpTypeOffset
  dependencies := []
  execLatency := core.getInstructionLatency uop.toMicroOp
  branchMispredicted := false
  dCacheHitWhere := .unknown
  iCacheHitWhere := .l1i
  iCacheLatency := 0
  last := uop.last
  port := core.port uop.toMicroOp
  alu := core.alu uop.toMicroOp
  aluLatency := core.getAluLatency uop.toMicroOp
  decoded := uop
  first := uop.first
  squashedCount := 0

namespace CurrentUop

def setSquashed (uop : CurrentUop) : CurrentUop := { uop with squashed := true }

def setFirst (uop : CurrentUop) : CurrentUop := { uop with first := true }

def setLast (uop : CurrentUop) : CurrentUop := { uop with last := true }

end CurrentUop

/-- `DynamicMicroOp::squash`, of the micro-operation at an index.  The loop for the last one starts from the end. -/
def squash (index : Nat) (array : List CurrentUop) : List CurrentUop :=
  let squashed := array.modify index CurrentUop.setSquashed
  let first := Survivors.markFirst (·.squashed) CurrentUop.setFirst squashed
  (Survivors.markFirst (·.squashed) CurrentUop.setLast first.reverse).reverse

/-! ### doSquashing -/

/-- The first loop of `doSquashing`: the offsets among the micro-operations of one type that are left, and how many have
been squashed. -/
def countSquashed : UopType → Nat → Nat → List CurrentUop → List CurrentUop
  | _, _, _, [] => []
  | uopType, microOpTypeOffset, squashedCount, uop :: rest =>
    if uop.squashed then
      { uop with squashedCount := squashedCount + 1 } :: countSquashed uopType microOpTypeOffset (squashedCount + 1) rest
    else
      let offset := if uop.decoded.uopType ≠ uopType then 0 else microOpTypeOffset
      { uop with microOpTypeOffset := offset, squashedCount := squashedCount } ::
        countSquashed uop.decoded.uopType (offset + 1) squashedCount rest

def squashedCountAt (uops : List CurrentUop) (index : Nat) : Nat := (uops[index]?.map (·.squashedCount)).getD 0

/-- The second loop of `doSquashing`, from an index on. -/
def recalculateDependencies (uops : List CurrentUop) : Nat → List CurrentUop → Except Fault (List CurrentUop)
  | _, [] => .ok []
  | i, uop :: rest => do
      let uop ←
        if uop.squashed || uop.intraInstructionDependencies = 0 then .ok uop
        else
          let intraDeps := uop.intraInstructionDependencies
          let iBase := i - uop.decoded.microOpTypeOffset
          if iBase ≥ intraDeps then
            .ok { uop with intraInstructionDependencies :=
              intraDeps - (squashedCountAt uops iBase - squashedCountAt uops (iBase - intraDeps)) }
          else .error .intraInstructionDependencies
      return uop :: (← recalculateDependencies uops (i + 1) rest)

/-- `MicroOpPerformanceModel::doSquashing`, from the first micro-operation on -/
def doSquashing (uops : List CurrentUop) : Except Fault (List CurrentUop) :=
  let uops := countSquashed .invalid 0 0 uops
  recalculateDependencies uops 0 uops

/-! ### handleInstruction -/

inductive OperandType where
  | reg
  | memory
  | immediate
deriving DecidableEq, Repr

inductive Direction where
  | read
  | write
deriving DecidableEq, Repr

structure Operand where
  operandType : OperandType
  direction : Direction
deriving DecidableEq, Repr

structure MemoryInfo where
  dir : Direction
  addr : UInt64
  latency : Nat
  hitWhere : HitWhere
deriving DecidableEq, Repr

structure Accesses where
  cacheLines : List UInt64
  numDone : Nat

structure Handling where
  uops : List CurrentUop
  reads : Accesses
  writes : Accesses
  memidx : Nat
  doSquashing : Bool

section handleInstruction

variable (core : CoreModel) (period : Nat)

/-- The latencies, the address and the place of an access. -/
def CurrentUop.setAccess (info : MemoryInfo) (uop : CurrentUop) : CurrentUop :=
  { uop with
    execLatency := RobTimer.divideRounded info.latency period + core.getBypassLatency uop.microOp
    address := info.addr.toNat
    dCacheHitWhere := info.hitWhere }

/-- A memory operand of one direction, whose micro-operations have a type and start at an index. -/
def access (uopType : UopType) (baseIndex : Option Nat) (info : MemoryInfo) (accesses : Accesses) (uops : List CurrentUop)
    (squashing : Bool) : Except Fault (Accesses × List CurrentUop × Bool) :=
  let cacheLine := info.addr &&& ~~~63
  match baseIndex with
  | none => .error .operandCount
  | some baseIndex =>
    let index := baseIndex + accesses.numDone
    match uops[index]? with
    | none => .error .outsideUops
    | some uop =>
      if uop.decoded.uopType ≠ uopType then .error .wrongType
      else
        let again := cacheLine ∈ accesses.cacheLines
        let squashed := if again then squash index uops else uops
        let updated := squashed.modify index (CurrentUop.setAccess core period info)
        .ok (⟨accesses.cacheLines ++ [cacheLine], accesses.numDone + 1⟩, updated, squashing || again)

variable (infos : List MemoryInfo) (loadBaseIndex storeBaseIndex : Option Nat)

def handleOperand (operand : Operand) (handling : Handling) : Except Fault Handling :=
  if operand.operandType = .memory then
    match infos[handling.memidx]? with
    | none => .error .notEnoughMemoryInfo
    | some info =>
      if info.dir ≠ operand.direction then .error .unexpectedDirection
      else
        match operand.direction with
        | .read => do
            let (reads, uops, squashing) ←
              access core period .load loadBaseIndex info handling.reads handling.uops handling.doSquashing
            return { handling with reads, uops, memidx := handling.memidx + 1, doSquashing := squashing }
        | .write => do
            let (writes, uops, squashing) ←
              access core period .store storeBaseIndex info handling.writes handling.uops handling.doSquashing
            return { handling with writes, uops, memidx := handling.memidx + 1, doSquashing := squashing }
  else .ok handling

def handleOperands : List Operand → Handling → Except Fault Handling
  | [], handling => .ok handling
  | operand :: rest, handling => do
      handleOperands rest (← handleOperand core period infos loadBaseIndex storeBaseIndex operand handling)

end handleInstruction

/-- The micro-operations that `handleInstruction` hands to `simulate`. -/
def handleInstruction (core : CoreModel) (period : Nat) (instruction : Instruction) (operands : List Operand)
    (infos : List MemoryInfo) : Except Fault (List CurrentUop) := do
  let uops := instruction.decode.map core.createDynamicMicroOp
  let numLoads := uops.countP fun uop => uop.decoded.uopType = .load
  let numStores := uops.countP fun uop => uop.decoded.uopType = .store
  let loadBaseIndex := uops.findIdx? fun uop => uop.decoded.uopType = .load
  let storeBaseIndex := uops.findIdx? fun uop => uop.decoded.uopType = .store
  let handling ← handleOperands core period infos loadBaseIndex storeBaseIndex operands ⟨uops, ⟨[], 0⟩, ⟨[], 0⟩, 0, false⟩
  let squashed ← if handling.doSquashing then doSquashing handling.uops else .ok handling.uops
  if handling.reads.numDone = numLoads ∧ handling.writes.numDone = numStores then return squashed
  else .error .operandMismatch

end Sniper.Performance.Squashing

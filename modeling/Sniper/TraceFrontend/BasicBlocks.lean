import Sniper.Library.Blocks
import Mathlib.Algebra.BigOperators.Group.List.Basic
import Mathlib.Algebra.Ring.Nat
import Mathlib.Data.BitVec

/-! `TraceThread::run`: the basic blocks that it reconstructs from the instructions of the trace, and counts. -/

namespace Sniper.TraceFrontend.BasicBlocks

abbrev IntPtr := BitVec 64

/-- What the reader says of an instruction, as far as basic blocks are concerned. -/
structure Instruction where
  addr : IntPtr
  size : BitVec 64
  isBranch : Bool
deriving DecidableEq, Repr

/-- One call of `Core::countInstructions` by the loop. -/
structure CountInstructions where
  core : Nat
  address : IntPtr
  count : BitVec 32
deriving DecidableEq, Repr

/-- `m_bbv_base`, `m_bbv_count`, `m_bbv_last` and `m_bbv_end`, with the calls so far. -/
structure TraceThread where
  bbvBase : IntPtr
  bbvCount : BitVec 64
  bbvLast : IntPtr
  bbvEnd : Bool
  counted : List CountInstructions
deriving DecidableEq, Repr

namespace TraceThread

def start : TraceThread := ⟨0, 0, 0, false, []⟩

def startsBlock (thread : TraceThread) (inst : Instruction) : Bool := thread.bbvEnd || thread.bbvLast != inst.addr

def newBlock (thread : TraceThread) (core : Nat) (inst : Instruction) : TraceThread :=
  { thread with
    counted := thread.counted ++ [⟨core, thread.bbvBase, thread.bbvCount.setWidth 32⟩]
    bbvBase := inst.addr
    bbvCount := 0 }

/-- An instruction while the thread is on some core. -/
def handle (thread : TraceThread) (core : Nat) (inst : Instruction) : TraceThread :=
  let thread := if thread.startsBlock inst = true then thread.newBlock core inst else thread
  { thread with bbvCount := thread.bbvCount + 1, bbvLast := inst.addr + inst.size, bbvEnd := inst.isBranch }

end TraceThread

/-- An iteration of the loop: the core that the thread is on, the instruction that is read ahead, and `m_stop`. -/
structure Turn where
  core : Nat
  nextInst : Instruction
  stop : Bool

/-- The loop of `run`, with the instruction that is handled next. -/
def TraceThread.run (thread : TraceThread) : Instruction → List Turn → TraceThread
  | _, [] => thread
  | inst, turn :: rest =>
    if turn.stop = true then thread.handle turn.core inst else (thread.handle turn.core inst).run turn.nextInst rest

/-- Where not even a first instruction is read, the loop is not entered. -/
def TraceThread.runTrace (first : Option Instruction) (turns : List Turn) : TraceThread :=
  match first with
  | none => start
  | some inst => start.run inst turns

/-- The instructions that the loop handles, with the core of each. The one that is read last is not handled. -/
def handledFrom : Instruction → List Turn → List (Nat × Instruction)
  | _, [] => []
  | inst, turn :: rest => (turn.core, inst) :: if turn.stop = true then [] else handledFrom turn.nextInst rest

def handled (first : Option Instruction) (turns : List Turn) : List (Nat × Instruction) :=
  match first with
  | none => []
  | some inst => handledFrom inst turns

/-! ## Basic blocks -/

/-- The next instruction is the one that follows in memory, and nothing has branched. -/
def fallsThrough (inst next : Instruction) : Bool := !inst.isBranch && inst.addr + inst.size == next.addr

def basicBlocks (instructions : List Instruction) : List (List Instruction) := instructions.splitBy fallsThrough

def blockCount (block : List Instruction) : IntPtr × Nat := ((block.head?.map Instruction.addr).getD 0, block.length)

def CountInstructions.pair (call : CountInstructions) : IntPtr × Nat := (call.address, call.count.toNat)

def totalCount (calls : List CountInstructions) : Nat := (calls.map fun call => call.count.toNat).sum

/-- Apart from an empty one at the start, the calls are one for each block, and their counts are those of all instructions. -/
def CountsOnce (calls : List CountInstructions) (instructions : List Instruction) : Prop :=
  (∃ initial, (initial = [] ∨ initial = [(0, 0)]) ∧
    calls.map CountInstructions.pair = initial ++ (basicBlocks instructions).map blockCount) ∧
  totalCount calls = instructions.length

variable {thread : TraceThread} {instructions : List Instruction} {core : Nat} {inst : Instruction}

theorem run_eq (thread : TraceThread) (inst : Instruction) (turns : List Turn) :
    thread.run inst turns = (handledFrom inst turns).foldl (fun thread step => thread.handle step.1 step.2) thread := by
  induction turns generalizing thread inst with
  | nil => rfl
  | cons turn rest ih =>
    rw [TraceThread.run, handledFrom, List.foldl_cons]
    cases turn.stop with
    | true => rfl
    | false => exact ih _ _

theorem runTrace_eq (first : Option Instruction) (turns : List Turn) :
    TraceThread.runTrace first turns =
      (handled first turns).foldl (fun thread step => thread.handle step.1 step.2) TraceThread.start := by
  cases first with
  | none => rfl
  | some inst => exact run_eq TraceThread.start inst turns

/-! ## What is counted so far -/

def passed (block : List Instruction) : IntPtr × Nat := ((blockCount block).1, (blockCount block).2 % 2 ^ 32)

/-- All blocks are counted but the last, which is the one that the thread is in. -/
structure InBlock (thread : TraceThread) (instructions : List Instruction) (closed : List (List Instruction))
    (front : List Instruction) (last : Instruction) : Prop where
  cut : basicBlocks instructions = closed ++ [front ++ [last]]
  base : thread.bbvBase = (blockCount (front ++ [last])).1
  count : thread.bbvCount = BitVec.ofNat 64 (front ++ [last]).length
  after : thread.bbvLast = last.addr + last.size
  ended : thread.bbvEnd = last.isBranch
  calls : ∃ initial, (initial = [] ∨ initial = [(0, 0)]) ∧ thread.counted.map CountInstructions.pair = initial ++ closed.map passed

theorem handle_first (core : Nat) (inst : Instruction) : InBlock (TraceThread.start.handle core inst) [inst] [] [] inst := by
  by_cases isZero : (0 : IntPtr) = inst.addr
  · have goesOn : TraceThread.start.startsBlock inst = false := by simp [TraceThread.startsBlock, TraceThread.start, ← isZero]
    rw [TraceThread.handle, goesOn, if_neg Bool.false_ne_true]
    exact ⟨rfl, isZero, rfl, rfl, rfl, [], .inl rfl, rfl⟩
  · have starts : TraceThread.start.startsBlock inst = true := by simpa [TraceThread.startsBlock, TraceThread.start] using isZero
    rw [TraceThread.handle, if_pos starts]
    exact ⟨rfl, rfl, rfl, rfl, rfl, [(0, 0)], .inr rfl, rfl⟩

namespace InBlock

variable {closed : List (List Instruction)} {front : List Instruction} {last : Instruction}

theorem startsBlock_eq (inBlock : InBlock thread instructions closed front last) (inst : Instruction) :
    thread.startsBlock inst = !fallsThrough last inst := by
  rw [TraceThread.startsBlock, inBlock.ended, inBlock.after, fallsThrough, Bool.not_and, Bool.not_not]
  rfl

theorem pair_closed (inBlock : InBlock thread instructions closed front last) :
    CountInstructions.pair ⟨core, thread.bbvBase, thread.bbvCount.setWidth 32⟩ = passed (front ++ [last]) := by
  rw [CountInstructions.pair, passed, inBlock.base, inBlock.count, BitVec.toNat_setWidth, BitVec.toNat_ofNat,
    Nat.mod_mod_of_dvd _ (by decide), blockCount]

theorem handle_extend (inBlock : InBlock thread instructions closed front last) (core : Nat)
    (joins : fallsThrough last inst = true) :
    InBlock (thread.handle core inst) (instructions ++ [inst]) closed (front ++ [last]) inst := by
  have goesOn : thread.startsBlock inst = false := by rw [inBlock.startsBlock_eq, joins, Bool.not_true]
  rw [TraceThread.handle, goesOn, if_neg Bool.false_ne_true]
  refine ⟨Blocks.splitBy_extend inBlock.cut joins, ?_, ?_, rfl, rfl, inBlock.calls⟩
  · rw [inBlock.base]
    simp [blockCount]
  · have longer : (front ++ [last] ++ [inst]).length = (front ++ [last]).length + 1 := List.length_append
    rw [longer, BitVec.ofNat_add, ← inBlock.count]
    rfl

theorem handle_close (inBlock : InBlock thread instructions closed front last) (core : Nat)
    (breaks : fallsThrough last inst = false) :
    InBlock (thread.handle core inst) (instructions ++ [inst]) (closed ++ [front ++ [last]]) [] inst := by
  have starts : thread.startsBlock inst = true := by rw [inBlock.startsBlock_eq, breaks, Bool.not_false]
  obtain ⟨initial, isInitial, counted⟩ := inBlock.calls
  rw [TraceThread.handle, if_pos starts]
  refine ⟨Blocks.splitBy_close inBlock.cut breaks, rfl, rfl, rfl, rfl, initial, isInitial, ?_⟩
  rw [TraceThread.newBlock, List.map_append, counted, List.map_append, List.append_assoc, List.map_singleton, List.map_singleton,
    inBlock.pair_closed]

theorem handle (inBlock : InBlock thread instructions closed front last) (core : Nat) (inst : Instruction) :
    ∃ closed front, InBlock (thread.handle core inst) (instructions ++ [inst]) closed front inst := by
  cases joins : fallsThrough last inst with
  | true => exact ⟨closed, front ++ [last], inBlock.handle_extend core joins⟩
  | false => exact ⟨closed ++ [front ++ [last]], [], inBlock.handle_close core joins⟩

end InBlock

theorem inBlock_run {steps : List (Nat × Instruction)} (some : steps ≠ []) :
    ∃ closed front last, InBlock (steps.foldl (fun thread step => thread.handle step.1 step.2) TraceThread.start)
      (steps.map Prod.snd) closed front last := by
  induction steps using List.reverseRecOn with
  | nil => exact absurd rfl some
  | append_singleton steps step ih =>
    rw [List.foldl_concat, List.map_append]
    cases steps with
    | nil => exact ⟨[], [], step.2, handle_first step.1 step.2⟩
    | cons first rest =>
      obtain ⟨closed, front, last, inBlock⟩ := ih (List.cons_ne_nil first rest)
      obtain ⟨closed, front, next⟩ := inBlock.handle step.1 step.2
      exact ⟨closed, front, step.2, next⟩

/-! ## Whole traces -/

/-- All blocks but the last are counted, in order, whatever the cores. -/
theorem counted_runTrace (first : Option Instruction) (turns : List Turn) :
    ∃ initial, (initial = [] ∨ initial = [(0, 0)]) ∧ (TraceThread.runTrace first turns).counted.map CountInstructions.pair =
      initial ++ (basicBlocks ((handled first turns).map Prod.snd)).dropLast.map passed := by
  rw [runTrace_eq]
  by_cases some : handled first turns = []
  · rw [some]
    exact ⟨[], .inl rfl, rfl⟩
  · obtain ⟨closed, front, last, inBlock⟩ := inBlock_run some
    rw [inBlock.cut, List.dropLast_concat]
    exact inBlock.calls

theorem totalCount_eq (calls : List CountInstructions) : totalCount calls = ((calls.map CountInstructions.pair).map Prod.snd).sum := by
  rw [totalCount, List.map_map]
  rfl

theorem sum_passed_le (blocks : List (List Instruction)) : ((blocks.map passed).map Prod.snd).sum ≤ blocks.flatten.length := by
  induction blocks with
  | nil => exact Nat.le_refl 0
  | cons block rest ih =>
    have own : (passed block).2 ≤ block.length := Nat.mod_le _ _
    rw [List.map_cons, List.map_cons, List.sum_cons, List.flatten_cons, List.length_append]
    exact Nat.add_le_add own ih

theorem totalCount_lt {first : Option Instruction} {turns : List Turn} (some : handled first turns ≠ []) :
    totalCount (TraceThread.runTrace first turns).counted < (handled first turns).length := by
  obtain ⟨closed, front, last, inBlock⟩ := inBlock_run some
  obtain ⟨initial, isInitial, counted⟩ := inBlock.calls
  have empty : (initial.map Prod.snd).sum = 0 := by
    obtain rfl | rfl := isInitial <;> rfl
  have flat := congrArg List.length (List.splitBy_eq_iff.mp inBlock.cut).1
  rw [List.length_map, List.flatten_append, List.length_append] at flat
  rw [runTrace_eq, totalCount_eq, counted, List.map_append, List.sum_append, empty, Nat.zero_add, flat]
  refine Nat.lt_of_le_of_lt (sum_passed_le closed) (Nat.lt_add_of_pos_right ?_)
  simp

theorem handled_eq_nil_iff (first : Option Instruction) (turns : List Turn) :
    handled first turns = [] ↔ first = none ∨ turns = [] := by
  cases first with
  | none => exact ⟨fun _ => .inl rfl, fun _ => rfl⟩
  | some inst =>
    cases turns with
    | nil => exact ⟨fun _ => .inr rfl, fun _ => rfl⟩
    | cons turn rest => simp [handled, handledFrom]

/-- The blocks and counts are right only where the loop is not entered. -/
theorem countsOnce_iff (first : Option Instruction) (turns : List Turn) :
    CountsOnce (TraceThread.runTrace first turns).counted ((handled first turns).map Prod.snd) ↔ first = none ∨ turns = [] := by
  rw [← handled_eq_nil_iff]
  constructor
  · intro once
    by_contra some
    have total := once.2
    rw [List.length_map] at total
    exact absurd total (Nat.ne_of_lt (totalCount_lt some))
  · intro none
    rw [runTrace_eq, none]
    exact ⟨⟨[], .inl rfl, rfl⟩, rfl⟩

/-- Of two instructions in a row, the first is handled but never counted. -/
theorem first_not_counted :
    ¬CountsOnce (TraceThread.runTrace (some ⟨0x400000, 4, false⟩) [⟨0, ⟨0x400004, 4, false⟩, false⟩]).counted
      ((handled (some ⟨0x400000, 4, false⟩) [⟨0, ⟨0x400004, 4, false⟩, false⟩]).map Prod.snd) := by
  rintro ⟨-, total⟩
  exact absurd total (by decide)

end Sniper.TraceFrontend.BasicBlocks

import Sniper.Performance.Squashing

/-! Which micro-operations of an instruction are squashed, and which of the others are marked as first and as last. -/

namespace Sniper.Performance.Squashing

open Survivors

/-! ### The micro-operations of an instruction -/

namespace Instruction

variable (instruction : Instruction) {index other : Nat}

/-- The first micro-operation of the type of another one. -/
def base (index : Nat) : Nat := index - (instruction.microOp index).microOpTypeOffset

/-- The micro-operations whose results one of them uses: the loads for the execute, and the execute for the stores. -/
def producers (index : Nat) : List Nat :=
  if index < instruction.numLoads then []
  else if index < instruction.numLoads + instruction.numExecs then List.range instruction.numLoads
  else (List.range instruction.numExecs).map (instruction.numLoads + ·)

theorem uopType_eq (index : Nat) : (instruction.microOp index).uopType =
    if index < instruction.numLoads then .load
    else if index < instruction.numLoads + instruction.numExecs then .execute else .store := by
  unfold microOp
  split
  · rfl
  · split <;> rfl

theorem isLoad_iff : (instruction.microOp index).uopType = .load ↔ index < instruction.numLoads := by
  rw [uopType_eq]
  split
  · simp [*]
  · split <;> simp [*]

theorem isStore_iff : (instruction.microOp index).uopType = .store ↔ instruction.numLoads + instruction.numExecs ≤ index := by
  rw [uopType_eq]
  split
  · simp only [reduceCtorEq, false_iff]
    omega
  · split
    · simp only [reduceCtorEq, false_iff]
      omega
    · simp only [true_iff]
      omega

theorem base_eq : instruction.base index =
    if index < instruction.numLoads then 0
    else if index < instruction.numLoads + instruction.numExecs then instruction.numLoads
    else instruction.numLoads + instruction.numExecs := by
  unfold base microOp
  split
  · simp [makeLoad]
  · split <;> simp only [makeExecute, makeStore] <;> omega

theorem intra_eq : (instruction.microOp index).intraInstructionDependencies =
    if index < instruction.numLoads then 0
    else if index < instruction.numLoads + instruction.numExecs then instruction.numLoads
    else instruction.numExecs := by
  unfold microOp
  split
  · rfl
  · split <;> rfl

theorem offset_le : (instruction.microOp index).microOpTypeOffset ≤ index := by
  unfold microOp
  split
  · exact Nat.le_refl index
  · split <;> simp only [makeExecute, makeStore] <;> omega

theorem base_le : instruction.base index ≤ index := Nat.sub_le _ _

theorem intra_le : (instruction.microOp index).intraInstructionDependencies ≤ instruction.base index := by
  rw [intra_eq, base_eq]
  split
  · exact Nat.le_refl 0
  · split <;> omega

theorem producers_eq : instruction.producers index =
    List.range' (instruction.base index - (instruction.microOp index).intraInstructionDependencies)
      (instruction.microOp index).intraInstructionDependencies := by
  rw [intra_eq, base_eq, producers]
  split
  · rfl
  · split
    · rw [Nat.sub_self, List.range_eq_range']
    · rw [Nat.add_sub_cancel, List.range'_eq_map_range]

theorem uopType_of_base_le (least : instruction.base index ≤ other) (most : other ≤ index) :
    (instruction.microOp other).uopType = (instruction.microOp index).uopType := by
  rw [base_eq] at least
  rw [uopType_eq, uopType_eq]
  split at least
  · rw [if_pos (by omega), if_pos (by omega)]
  · split at least
    · rw [if_neg (by omega), if_pos (by omega), if_neg (by omega), if_pos (by omega)]
    · rw [if_neg (by omega), if_neg (by omega), if_neg (by omega), if_neg (by omega)]

theorem uopType_of_lt_base (before : other < instruction.base index) :
    (instruction.microOp other).uopType ≠ (instruction.microOp index).uopType := by
  rw [base_eq] at before
  rw [uopType_eq, uopType_eq]
  split at before
  · omega
  · split at before
    · rw [if_pos before, if_neg (by omega), if_pos (by omega)]
      exact UopType.noConfusion
    · rw [if_neg (by omega : ¬index < instruction.numLoads), if_neg (by omega : ¬index < instruction.numLoads + instruction.numExecs)]
      split
      · exact UopType.noConfusion
      · exact UopType.noConfusion

/-- A micro-operation that may be squashed: a load or a store that is not the first one. -/
def MaySquash (index : Nat) : Prop :=
  0 < index ∧ index < instruction.numLoads ∨ instruction.numLoads + instruction.numExecs < index

theorem base_not_maySquash : ¬instruction.MaySquash (instruction.base index) := by
  rw [base_eq, MaySquash]
  split
  · omega
  · split <;> omega

theorem first_producer_not_maySquash :
    ¬instruction.MaySquash (instruction.base index - (instruction.microOp index).intraInstructionDependencies) := by
  rw [base_eq, intra_eq, MaySquash]
  split
  · omega
  · split <;> omega

theorem length_decode : instruction.decode.length = instruction.totalMicroOps := by
  simp [decode]

theorem getElem?_decode (inside : index < instruction.totalMicroOps) :
    instruction.decode[index]? = some (instruction.microOp index) := by
  simp [decode, inside]

theorem findIdx?_load : (instruction.decode.findIdx? fun uop => uop.uopType = .load) =
    if 0 < instruction.numLoads then some 0 else none := by
  split
  case isTrue some_ =>
    apply List.findIdx?_eq_some_iff_getElem.mpr
    have inside : 0 < instruction.decode.length := instruction.length_decode ▸ instruction.someUop
    refine ⟨inside, ?_, fun _ before => absurd before (Nat.not_lt_zero _)⟩
    simp [decode, isLoad_iff, some_]
  case isFalse none_ =>
    apply List.findIdx?_eq_none_iff.mpr
    intro uop member
    obtain ⟨index, _, rfl⟩ := List.mem_map.mp member
    simp only [isLoad_iff, decide_eq_false_iff_not]
    omega

theorem findIdx?_store : (instruction.decode.findIdx? fun uop => uop.uopType = .store) =
    if 0 < instruction.numStores then some (instruction.numLoads + instruction.numExecs) else none := by
  split
  case isTrue some_ =>
    apply List.findIdx?_eq_some_iff_getElem.mpr
    have inside : instruction.numLoads + instruction.numExecs < instruction.decode.length := by
      rw [length_decode, totalMicroOps]
      omega
    refine ⟨inside, ?_, fun index before => ?_⟩
    · simp [decode, isStore_iff]
    · simp [decode, isStore_iff, before]
  case isFalse none_ =>
    apply List.findIdx?_eq_none_iff.mpr
    intro uop member
    obtain ⟨index, inside, rfl⟩ := List.mem_map.mp member
    have less := List.mem_range.mp inside
    rw [totalMicroOps] at less
    simp only [isStore_iff, decide_eq_false_iff_not]
    omega

theorem countP_load : (instruction.decode.countP fun uop => uop.uopType = .load) = instruction.numLoads := by
  rw [decode, totalMicroOps, Nat.add_assoc, List.range_add, List.map_append, List.countP_append, List.countP_map, List.countP_map,
    List.countP_eq_length.mpr, List.countP_eq_zero.mpr, List.length_range, Nat.add_zero]
  · intro index member
    obtain ⟨offset, -, rfl⟩ := List.mem_map.mp member
    simp [isLoad_iff]
  · intro index inside
    simpa [isLoad_iff] using inside

theorem countP_store : (instruction.decode.countP fun uop => uop.uopType = .store) = instruction.numStores := by
  rw [decode, totalMicroOps, List.range_add, List.map_append, List.countP_append, List.countP_map, List.countP_map,
    List.countP_eq_zero.mpr, List.countP_eq_length.mpr, List.length_map, List.length_range, Nat.zero_add]
  · intro index member
    obtain ⟨offset, -, rfl⟩ := List.mem_map.mp member
    simp [isStore_iff]
  · intro index inside
    simpa [isStore_iff] using inside

end Instruction

/-! ### Squashing -/

section Squash

variable {instruction : Instruction} {uops others : List CurrentUop} {uop : CurrentUop} {index : Nat}

def static (uop : CurrentUop) : DecodedMicroOp × Nat × Nat × List Nat :=
  (uop.decoded, uop.microOpTypeOffset, uop.intraInstructionDependencies, uop.dependencies)

/-- The micro-operations of an instruction of which some have been squashed. -/
structure Shaped (instruction : Instruction) (uops : List CurrentUop) : Prop where
  static : uops.map static = instruction.decode.map fun uop => (uop, uop.microOpTypeOffset, uop.intraInstructionDependencies, [])
  squashed : ∀ index uop, uops[index]? = some uop → uop.squashed = true → instruction.MaySquash index
  first : Marked (·.squashed) (·.first) uops
  last : Marked (·.squashed) (·.last) uops.reverse

theorem Shaped.length (shaped : Shaped instruction uops) : uops.length = instruction.totalMicroOps := by
  have same := congrArg List.length shaped.static
  simpa [Instruction.length_decode] using same

theorem Shaped.getElem? (shaped : Shaped instruction uops) (found : uops[index]? = some uop) :
    index < instruction.totalMicroOps ∧ Squashing.static uop = (instruction.microOp index, (instruction.microOp index).microOpTypeOffset,
      (instruction.microOp index).intraInstructionDependencies, []) := by
  have inside : index < instruction.totalMicroOps := by
    obtain ⟨inside, _⟩ := List.getElem?_eq_some_iff.mp found
    exact shaped.length ▸ inside
  refine ⟨inside, ?_⟩
  have same := congrArg (·[index]?) shaped.static
  simpa [found, instruction.getElem?_decode inside] using same

def view (uop : CurrentUop) : (DecodedMicroOp × Nat × Nat × List Nat) × Bool × Bool × Bool :=
  (static uop, uop.squashed, uop.first, uop.last)

theorem Shaped.congr (shaped : Shaped instruction uops) (same : others.map view = uops.map view) : Shaped instruction others := by
  constructor
  · have statics := congrArg (List.map Prod.fst) same
    rw [List.map_map, List.map_map] at statics
    exact statics.trans shaped.static
  · intro index other found gone
    have seen := congrArg (·[index]?) same
    simp only [List.getElem?_map, found, Option.map_some] at seen
    obtain ⟨uop, before, isView⟩ := Option.map_eq_some_iff.mp seen.symm
    have flag : uop.squashed = other.squashed := congrArg (·.2.1) isView
    exact shaped.squashed index uop before (flag.trans gone)
  · apply shaped.first.congr
    have flags := congrArg (List.map fun seen => (seen.2.1, seen.2.2.1)) same
    rw [List.map_map, List.map_map] at flags
    exact flags
  · apply shaped.last.congr
    rw [List.map_reverse, List.map_reverse, List.reverse_inj]
    have flags := congrArg (List.map fun seen => (seen.2.1, seen.2.2.2)) same
    rw [List.map_map, List.map_map] at flags
    exact flags

theorem map_modify {β : Type} {read : CurrentUop → β} (change : CurrentUop → CurrentUop)
    (keeps : ∀ uop, read (change uop) = read uop) (index : Nat) (uops : List CurrentUop) : (uops.modify index change).map read = uops.map read := by
  apply List.ext_getElem?
  intro other
  rw [List.getElem?_map, List.getElem?_map, List.getElem?_modify]
  split
  · cases uops[other]? with
    | none => rfl
    | some uop => exact congrArg some (keeps uop)
  · exact congrArg (Option.map read) (id_map _)

theorem squash_map {β : Type} {read : CurrentUop → β} (squashed : ∀ uop, read uop.setSquashed = read uop)
    (first : ∀ uop, read uop.setFirst = read uop) (last : ∀ uop, read uop.setLast = read uop) (index : Nat) (uops : List CurrentUop) :
    (squash index uops).map read = uops.map read := by
  rw [squash, List.map_reverse, map_markFirst _ last, List.map_reverse, List.reverse_reverse, map_markFirst _ first, map_modify _ squashed]

theorem squash_squashed (index : Nat) (uops : List CurrentUop) :
    (squash index uops).map (·.squashed) = (uops.modify index CurrentUop.setSquashed).map (·.squashed) := by
  rw [squash, List.map_reverse, map_markFirst CurrentUop.setLast (fun _ => rfl), List.map_reverse, List.reverse_reverse,
    map_markFirst CurrentUop.setFirst fun _ => rfl]

theorem modify_dies {flag : CurrentUop → Bool} (keeps : ∀ uop, flag uop.setSquashed = flag uop) (index : Nat) (uops : List CurrentUop) :
    List.Forall₂ (fun before after => (before.squashed = true → after.squashed = true) ∧ flag after = flag before) uops
      (uops.modify index CurrentUop.setSquashed) := by
  induction uops generalizing index with
  | nil => cases index <;> exact .nil
  | cons uop rest ih =>
    cases index with
    | zero => exact .cons ⟨fun _ => rfl, keeps uop⟩ (List.forall₂_same.mpr fun _ _ => ⟨id, rfl⟩)
    | succ index => exact .cons ⟨id, rfl⟩ (ih index)

theorem Shaped.squash (shaped : Shaped instruction uops) (may : instruction.MaySquash index) :
    Shaped instruction (squash index uops) := by
  constructor
  · rw [squash_map (fun _ => rfl) (fun _ => rfl) fun _ => rfl]
    exact shaped.static
  · intro other uop found gone
    have flags := congrArg (·[other]?) (squash_squashed index uops)
    simp only [List.getElem?_map, found, Option.map_some, List.getElem?_modify, gone] at flags
    obtain ⟨after, changed, squashed⟩ := Option.map_eq_some_iff.mp flags.symm
    obtain ⟨before, held, rfl⟩ := Option.map_eq_some_iff.mp changed
    by_cases same : index = other
    · exact same ▸ may
    · simp only [same, if_false] at squashed
      exact shaped.squashed other before held squashed
  · have first : Marked (·.squashed) (·.first) (Survivors.markFirst (·.squashed) CurrentUop.setFirst
        (uops.modify index CurrentUop.setSquashed)) :=
      (shaped.first.loose (modify_dies (fun _ => rfl) index uops)).markFirst _ (fun _ => rfl) fun _ => rfl
    apply first.congr
    rw [Squashing.squash, List.map_reverse, map_markFirst CurrentUop.setLast fun _ => rfl, List.map_reverse, List.reverse_reverse]
  · rw [Squashing.squash, List.reverse_reverse]
    refine Loose.markFirst ?_ _ (fun _ => rfl) fun _ => rfl
    apply shaped.last.loose
    apply List.forall₂_reverse_iff.mpr
    have dies : List.Forall₂ (fun before (after : Bool × Bool) => (before.squashed = true → after.1 = true) ∧ after.2 = before.last) uops
        ((uops.modify index CurrentUop.setSquashed).map fun uop => (uop.squashed, uop.last)) :=
      List.forall₂_map_right_iff.mpr (modify_dies (fun _ => rfl) index uops)
    rw [← map_markFirst CurrentUop.setFirst fun _ => rfl] at dies
    exact List.forall₂_map_right_iff.mp dies

theorem shaped_created (core : CoreModel) (instruction : Instruction) :
    Shaped instruction (instruction.decode.map core.createDynamicMicroOp) := by
  have total : instruction.totalMicroOps - 1 + 1 = instruction.totalMicroOps := Nat.sub_add_cancel instruction.someUop
  constructor
  · rw [List.map_map]
    rfl
  · intro index uop found gone
    rw [List.getElem?_map] at found
    obtain ⟨decoded, -, rfl⟩ := Option.map_eq_some_iff.mp found
    cases gone
  · rw [Instruction.decode, List.map_map, ← total, List.range_succ_eq_map, List.map_cons, Marked]
    simp [CoreModel.createDynamicMicroOp, Instruction.microOp]
  · rw [Instruction.decode, List.map_map, ← List.map_reverse, ← total, List.range_succ, List.reverse_concat, List.map_cons, Marked]
    simp only [CoreModel.createDynamicMicroOp, Instruction.microOp, Function.comp_apply, Bool.false_eq_true, if_false, decide_true,
      List.forall_mem_map, List.mem_reverse, List.mem_range, decide_eq_false_iff_not, true_and]
    omega

end Squash

/-! ### The operands -/

section Operands

variable {instruction : Instruction} {core : CoreModel} {period : Nat} {infos : List MemoryInfo} {handling next : Handling}

/-- The first load and the first store, as `handleInstruction` finds them. -/
def loadBase (instruction : Instruction) : Option Nat := if 0 < instruction.numLoads then some 0 else none

def storeBase (instruction : Instruction) : Option Nat :=
  if 0 < instruction.numStores then some (instruction.numLoads + instruction.numExecs) else none

structure Handled (instruction : Instruction) (handling : Handling) : Prop where
  shaped : Shaped instruction handling.uops
  reads : handling.reads.cacheLines.length = handling.reads.numDone
  writes : handling.writes.cacheLines.length = handling.writes.numDone
  untouched : handling.doSquashing = false → ∀ uop ∈ handling.uops, uop.squashed = false

section Access

variable {uopType : UopType} {base : Option Nat} {info : MemoryInfo} {accesses accesses' : Accesses} {uops uops' : List CurrentUop}
  {squashing squashing' : Bool}

theorem access_eq_ok (accessed : access core period uopType base info accesses uops squashing = .ok (accesses', uops', squashing')) :
    ∃ first uop, base = some first ∧ uops[first + accesses.numDone]? = some uop ∧ uop.decoded.uopType = uopType ∧
      accesses' = ⟨accesses.cacheLines ++ [info.addr &&& ~~~63], accesses.numDone + 1⟩ ∧
      uops'.map view = (if info.addr &&& ~~~63 ∈ accesses.cacheLines then squash (first + accesses.numDone) uops else uops).map view ∧
      squashing' = (squashing || decide (info.addr &&& ~~~63 ∈ accesses.cacheLines)) := by
  cases base with
  | none => cases accessed
  | some first =>
    cases found : uops[first + accesses.numDone]? with
    | none => simp [access, found] at accessed
    | some uop =>
      by_cases typed : uop.decoded.uopType = uopType
      · simp only [access, found, typed, ne_eq, not_true, if_false, Except.ok.injEq, Prod.mk.injEq] at accessed
        obtain ⟨rfl, rfl, rfl⟩ := accessed
        exact ⟨first, uop, rfl, found, typed, rfl, map_modify (CurrentUop.setAccess core period info) (fun _ => rfl) _ _, rfl⟩
      · simp [access, found, typed] at accessed

theorem Shaped.access (shaped : Shaped instruction uops) (lines : accesses.cacheLines.length = accesses.numDone)
    (untouched : squashing = false → ∀ uop ∈ uops, uop.squashed = false)
    (based : ∀ first index, base = some first → first < index → index < instruction.totalMicroOps →
      (instruction.microOp index).uopType = uopType → instruction.MaySquash index)
    (accessed : access core period uopType base info accesses uops squashing = .ok (accesses', uops', squashing')) :
    Shaped instruction uops' ∧ accesses'.cacheLines.length = accesses'.numDone ∧
      (squashing' = false → ∀ uop ∈ uops', uop.squashed = false) := by
  obtain ⟨first, uop, isBase, found, typed, rfl, views, rfl⟩ := access_eq_ok accessed
  obtain ⟨inside, statics⟩ := shaped.getElem? found
  have isDecoded : uop.decoded = instruction.microOp (first + accesses.numDone) := congrArg Prod.fst statics
  by_cases again : info.addr &&& ~~~63 ∈ accesses.cacheLines
  · -- A line that is there is not the first one.
    have later : 0 < accesses.numDone := lines ▸ List.length_pos_of_mem again
    have may : instruction.MaySquash (first + accesses.numDone) :=
      based first _ isBase (by omega) inside (isDecoded ▸ typed)
    rw [if_pos again] at views
    refine ⟨(shaped.squash may).congr views, by simp [lines], ?_⟩
    simp [again]
  · rw [if_neg again] at views
    refine ⟨shaped.congr views, by simp [lines], ?_⟩
    intro quiet other member
    rw [Bool.or_eq_false_iff] at quiet
    have seen : view other ∈ uops.map view := views ▸ List.mem_map_of_mem member
    obtain ⟨before, held, same⟩ := List.mem_map.mp seen
    have flag : before.squashed = other.squashed := congrArg (·.2.1) same
    exact flag.symm.trans (untouched quiet.1 before held)

end Access

theorem loadBase_based (first index : Nat) : loadBase instruction = some first → first < index → index < instruction.totalMicroOps →
    (instruction.microOp index).uopType = .load → instruction.MaySquash index := by
  intro _ later _ typed
  exact .inl ⟨Nat.zero_lt_of_lt later, instruction.isLoad_iff.mp typed⟩

theorem storeBase_based (first index : Nat) : storeBase instruction = some first → first < index → index < instruction.totalMicroOps →
    (instruction.microOp index).uopType = .store → instruction.MaySquash index := by
  intro isBase later _ _
  unfold storeBase at isBase
  split at isBase
  · cases isBase
    exact .inr later
  · cases isBase

theorem Handled.operand (handled : Handled instruction handling) {operand : Operand}
    (ok : handleOperand core period infos (loadBase instruction) (storeBase instruction) operand handling = .ok next) :
    Handled instruction next := by
  unfold handleOperand at ok
  split at ok
  · split at ok
    · cases ok
    · split at ok
      · cases ok
      · split at ok
        · cases accessed : access core period .load (loadBase instruction) _ handling.reads handling.uops handling.doSquashing with
          | error fault =>
            rw [accessed] at ok
            cases ok
          | ok done =>
            rw [accessed] at ok
            cases ok
            obtain ⟨shaped, reads, untouched⟩ := handled.shaped.access handled.reads handled.untouched loadBase_based accessed
            exact ⟨shaped, reads, handled.writes, untouched⟩
        · cases accessed : access core period .store (storeBase instruction) _ handling.writes handling.uops handling.doSquashing with
          | error fault =>
            rw [accessed] at ok
            cases ok
          | ok done =>
            rw [accessed] at ok
            cases ok
            obtain ⟨shaped, writes, untouched⟩ := handled.shaped.access handled.writes handled.untouched storeBase_based accessed
            exact ⟨shaped, handled.reads, writes, untouched⟩
  · cases ok
    exact handled

theorem Handled.operands (handled : Handled instruction handling) (operands : List Operand)
    (ok : handleOperands core period infos (loadBase instruction) (storeBase instruction) operands handling = .ok next) :
    Handled instruction next := by
  induction operands generalizing handling with
  | nil =>
    cases ok
    exact handled
  | cons operand rest ih =>
    unfold handleOperands at ok
    cases first : handleOperand core period infos (loadBase instruction) (storeBase instruction) operand handling with
    | error fault =>
      rw [first] at ok
      cases ok
    | ok middle =>
      rw [first] at ok
      exact ih (handled.operand first) ok

/-! The loop over the operands fails only where the operands and the micro-operations do not match. -/

theorem access_ne_intra {uopType : UopType} {base : Option Nat} {info : MemoryInfo} {accesses : Accesses} {uops : List CurrentUop}
    {squashing : Bool} : access core period uopType base info accesses uops squashing ≠ .error .intraInstructionDependencies := by
  unfold access
  cases base with
  | none => exact fun same => nomatch same
  | some first =>
    dsimp only
    split
    · exact fun same => nomatch same
    · split <;> exact fun same => nomatch same

theorem handleOperand_ne_intra {operand : Operand} {loads stores : Option Nat} :
    handleOperand core period infos loads stores operand handling ≠ .error .intraInstructionDependencies := by
  intro failed
  unfold handleOperand at failed
  split at failed
  · split at failed
    · cases failed
    · split at failed
      · cases failed
      · split at failed
        · cases accessed : access core period .load loads _ handling.reads handling.uops handling.doSquashing with
          | error fault =>
            rw [accessed] at failed
            cases failed
            exact access_ne_intra accessed
          | ok done =>
            rw [accessed] at failed
            cases failed
        · cases accessed : access core period .store stores _ handling.writes handling.uops handling.doSquashing with
          | error fault =>
            rw [accessed] at failed
            cases failed
            exact access_ne_intra accessed
          | ok done =>
            rw [accessed] at failed
            cases failed
  · cases failed

theorem handleOperands_ne_intra {operands : List Operand} {loads stores : Option Nat} :
    handleOperands core period infos loads stores operands handling ≠ .error .intraInstructionDependencies := by
  induction operands generalizing handling with
  | nil => exact fun same => nomatch same
  | cons operand rest ih =>
    unfold handleOperands
    cases first : handleOperand core period infos loads stores operand handling with
    | error fault =>
      intro failed
      cases failed
      exact handleOperand_ne_intra first
    | ok middle => exact ih

def Operand.isRead (operand : Operand) : Bool := operand.operandType = .memory && operand.direction = .read

def Operand.isWrite (operand : Operand) : Bool := operand.operandType = .memory && operand.direction = .write

def directions (operands : List Operand) : List Direction :=
  (operands.filter fun operand => operand.operandType = .memory).map (·.direction)

theorem Shaped.access_ok (core : CoreModel) (period : Nat) {uopType : UopType} {first : Nat} (info : MemoryInfo) {accesses : Accesses}
    {uops : List CurrentUop} (squashing : Bool) (shaped : Shaped instruction uops) (inside : first + accesses.numDone < instruction.totalMicroOps)
    (typed : (instruction.microOp (first + accesses.numDone)).uopType = uopType) :
    ∃ done, Squashing.access core period uopType (some first) info accesses uops squashing = .ok done ∧
      done.1.numDone = accesses.numDone + 1 := by
  have within : first + accesses.numDone < uops.length := shaped.length ▸ inside
  have found : uops[first + accesses.numDone]? = some uops[first + accesses.numDone] := List.getElem?_eq_getElem within
  have isDecoded : uops[first + accesses.numDone].decoded = instruction.microOp (first + accesses.numDone) :=
    congrArg Prod.fst (shaped.getElem? found).2
  have isType : uops[first + accesses.numDone].decoded.uopType = uopType := isDecoded ▸ typed
  simp only [Squashing.access, found, isType, ne_eq, not_true, if_false]
  exact ⟨_, rfl, rfl⟩

theorem loadBase_ok {count : Nat} (less : count < instruction.numLoads) :
    loadBase instruction = some 0 ∧ 0 + count < instruction.totalMicroOps ∧ (instruction.microOp (0 + count)).uopType = .load := by
  refine ⟨if_pos (Nat.zero_lt_of_lt less), ?_, instruction.isLoad_iff.mpr (by omega)⟩
  unfold Instruction.totalMicroOps
  omega

theorem storeBase_ok {count : Nat} (less : count < instruction.numStores) :
    storeBase instruction = some (instruction.numLoads + instruction.numExecs) ∧
      instruction.numLoads + instruction.numExecs + count < instruction.totalMicroOps ∧
      (instruction.microOp (instruction.numLoads + instruction.numExecs + count)).uopType = .store :=
  ⟨if_pos (Nat.zero_lt_of_lt less), Nat.add_lt_add_left less _, instruction.isStore_iff.mpr (Nat.le_add_right _ _)⟩

theorem Handled.operand_ok (handled : Handled instruction handling) {operand : Operand} {rest : List Operand}
    (agrees : directions (operand :: rest) <+: (infos.drop handling.memidx).map (·.dir))
    (reads : handling.reads.numDone + (operand :: rest).countP Operand.isRead = instruction.numLoads)
    (writes : handling.writes.numDone + (operand :: rest).countP Operand.isWrite = instruction.numStores) :
    ∃ next, handleOperand core period infos (loadBase instruction) (storeBase instruction) operand handling = .ok next ∧
      directions rest <+: (infos.drop next.memidx).map (·.dir) ∧
      next.reads.numDone + rest.countP Operand.isRead = instruction.numLoads ∧
      next.writes.numDone + rest.countP Operand.isWrite = instruction.numStores := by
  rw [List.countP_cons] at reads writes
  by_cases memory : operand.operandType = .memory
  · have isDirections : directions (operand :: rest) = operand.direction :: directions rest := by
      simp [directions, memory]
    rw [isDirections] at agrees
    cases left : infos.drop handling.memidx with
    | nil => simp [left] at agrees
    | cons info tail =>
      rw [left, List.map_cons, List.cons_prefix_cons] at agrees
      have found : infos[handling.memidx]? = some info := by
        have first := congrArg (·[0]?) left
        simpa using first
      have behind : infos.drop (handling.memidx + 1) = tail := by
        rw [← List.tail_drop, left, List.tail_cons]
      cases direction : operand.direction with
      | read =>
        have isRead : operand.isRead = true := by simp [Operand.isRead, memory, direction]
        have isWrite : operand.isWrite = false := by simp [Operand.isWrite, direction]
        simp only [isRead, isWrite, if_true, Bool.false_eq_true, if_false, Nat.add_zero] at reads writes
        obtain ⟨isBase, inside, typed⟩ := loadBase_ok (show handling.reads.numDone < instruction.numLoads by omega)
        obtain ⟨⟨reads', uops', squashing'⟩, accessed, count⟩ :=
          handled.shaped.access_ok core period info handling.doSquashing inside typed
        have dir : info.dir = .read := agrees.1.symm.trans direction
        refine ⟨{ handling with reads := reads', uops := uops', memidx := handling.memidx + 1, doSquashing := squashing' },
          ?_, behind ▸ agrees.2, ?_, writes⟩
        · simp only [handleOperand, memory, found, dir, direction, isBase, accessed, ne_eq, not_true, if_true, if_false]
          rfl
        · simp only at count ⊢
          omega
      | write =>
        have isRead : operand.isRead = false := by simp [Operand.isRead, direction]
        have isWrite : operand.isWrite = true := by simp [Operand.isWrite, memory, direction]
        simp only [isRead, isWrite, if_true, Bool.false_eq_true, if_false, Nat.add_zero] at reads writes
        obtain ⟨isBase, inside, typed⟩ := storeBase_ok (show handling.writes.numDone < instruction.numStores by omega)
        obtain ⟨⟨writes', uops', squashing'⟩, accessed, count⟩ :=
          handled.shaped.access_ok core period info handling.doSquashing inside typed
        have dir : info.dir = .write := agrees.1.symm.trans direction
        refine ⟨{ handling with writes := writes', uops := uops', memidx := handling.memidx + 1, doSquashing := squashing' },
          ?_, behind ▸ agrees.2, reads, ?_⟩
        · simp only [handleOperand, memory, found, dir, direction, isBase, accessed, ne_eq, not_true, if_true, if_false]
          rfl
        · simp only at count ⊢
          omega
  · have isDirections : directions (operand :: rest) = directions rest := by
      simp [directions, memory]
    have isRead : operand.isRead = false := by simp [Operand.isRead, memory]
    have isWrite : operand.isWrite = false := by simp [Operand.isWrite, memory]
    simp only [isRead, isWrite, Bool.false_eq_true, if_false, Nat.add_zero] at reads writes
    exact ⟨handling, if_neg memory, isDirections ▸ agrees, reads, writes⟩

theorem Handled.operands_ok (handled : Handled instruction handling) {operands : List Operand}
    (agrees : directions operands <+: (infos.drop handling.memidx).map (·.dir))
    (reads : handling.reads.numDone + operands.countP Operand.isRead = instruction.numLoads)
    (writes : handling.writes.numDone + operands.countP Operand.isWrite = instruction.numStores) :
    ∃ next, handleOperands core period infos (loadBase instruction) (storeBase instruction) operands handling = .ok next ∧
      next.reads.numDone = instruction.numLoads ∧ next.writes.numDone = instruction.numStores := by
  induction operands generalizing handling with
  | nil => exact ⟨handling, rfl, by simpa using reads, by simpa using writes⟩
  | cons operand rest ih =>
    obtain ⟨middle, first, agrees, reads, writes⟩ := handled.operand_ok agrees reads writes
    obtain ⟨next, ok, done⟩ := ih (handled.operand first) agrees reads writes
    refine ⟨next, ?_, done⟩
    unfold handleOperands
    rw [first]
    exact ok

end Operands

end Sniper.Performance.Squashing

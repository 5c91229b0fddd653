import Sniper.Performance.SquashedUops

/-! The dependencies between the micro-operations of an instruction that are left after squashing. -/

namespace Sniper.Performance.Squashing

open Survivors

variable {instruction : Instruction} {uops result : List CurrentUop} {uop : CurrentUop} {index : Nat}

def live (uops : List CurrentUop) (index : Nat) : Bool := uops[index]?.any fun uop => !uop.squashed

def gone (uops : List CurrentUop) (index : Nat) : Bool := uops[index]?.any (·.squashed)

def liveOf (uopType : UopType) (uops : List CurrentUop) (index : Nat) : Bool :=
  uops[index]?.any fun uop => !uop.squashed && uop.decoded.uopType = uopType

def rank (uops : List CurrentUop) (index : Nat) : Nat := Nat.count (live uops ·) index

/-! ### Counting -/

theorem live_of_getElem? (found : uops[index]? = some uop) : live uops index = !uop.squashed := by
  rw [live, found, Option.any_some]

theorem live_congr {others : List CurrentUop} (same : others.map (·.squashed) = uops.map (·.squashed)) : live others = live uops := by
  funext index
  have flags := congrArg (·[index]?) same
  simp only [List.getElem?_map] at flags
  have any (list : List CurrentUop) : live list index = (list[index]?.map (·.squashed)).any (!·) := by
    rw [live, Option.any_map]
  rw [any, any, flags]

theorem gone_add_rank (inside : index ≤ uops.length) : Nat.count (gone uops ·) index + rank uops index = index := by
  induction index with
  | zero => simp [rank]
  | succ index ih =>
    have found : uops[index]? = some uops[index] := List.getElem?_eq_getElem inside
    have before := ih (Nat.le_of_succ_le inside)
    rw [rank] at before ⊢
    rw [Nat.count_succ, Nat.count_succ, live_of_getElem? found, gone, found]
    cases squashed : uops[index].squashed with
    | true =>
      simp [squashed]
      omega
    | false =>
      simp [squashed]
      omega

def stage : UopType → Nat
  | .invalid => 0
  | .load => 1
  | .execute => 2
  | .store => 3

theorem stage_injective {first second : UopType} (same : stage first = stage second) : first = second := by
  cases first <;> cases second <;> first | rfl | cases same

theorem stage_mono {first second : Nat} (before : first ≤ second) :
    stage (instruction.microOp first).uopType ≤ stage (instruction.microOp second).uopType := by
  have value (index : Nat) : stage (instruction.microOp index).uopType =
      if index < instruction.numLoads then 1 else if index < instruction.numLoads + instruction.numExecs then 2 else 3 := by
    rw [instruction.uopType_eq]
    split
    · rfl
    · split <;> rfl
  rw [value, value]
  repeat' split
  all_goals omega

theorem countSquashed_map {β : Type} {read : CurrentUop → β}
    (keeps : ∀ uop offset count, read { uop with microOpTypeOffset := offset, squashedCount := count } = read uop)
    (uopType : UopType) (offset count : Nat) (uops : List CurrentUop) :
    (countSquashed uopType offset count uops).map read = uops.map read := by
  induction uops generalizing uopType offset count with
  | nil => rfl
  | cons uop rest ih =>
    unfold countSquashed
    split
    · rw [List.map_cons, List.map_cons, ih]
      exact congrArg (· :: _) (keeps uop uop.microOpTypeOffset (count + 1))
    · rw [List.map_cons, List.map_cons, ih]
      exact congrArg (· :: _) (keeps uop _ count)

theorem countSquashed_getElem? (uopType : UopType) (offset count : Nat) (found : uops[index]? = some uop)
    (sorted : uops.Pairwise fun first second => stage first.decoded.uopType ≤ stage second.decoded.uopType)
    (least : ∀ uop ∈ uops, stage uopType ≤ stage uop.decoded.uopType) :
    ∃ counted, (countSquashed uopType offset count uops)[index]? = some counted ∧
      counted.squashedCount = count + Nat.count (gone uops ·) (index + 1) ∧
      (uop.squashed = false → counted.microOpTypeOffset =
        (if uop.decoded.uopType = uopType then offset else 0) + Nat.count (liveOf uop.decoded.uopType uops ·) index) := by
  induction uops generalizing uopType offset count index with
  | nil => cases found
  | cons head rest ih =>
    obtain ⟨behind, sorted⟩ := List.pairwise_cons.mp sorted
    unfold countSquashed
    cases index with
    | zero =>
      cases found
      have one : Nat.count (gone (uop :: rest) ·) 1 = if uop.squashed then 1 else 0 := Nat.count_one _
      rw [Nat.zero_add, one]
      split
      case isTrue squashed => exact ⟨_, rfl, rfl, fun survives => absurd squashed (Bool.eq_false_iff.mp survives)⟩
      case isFalse squashed => exact ⟨_, rfl, rfl, fun _ => by simp [ite_not]⟩
    | succ index =>
      have goneBefore : Nat.count (gone (head :: rest) ·) (index + 1 + 1) =
          Nat.count (gone rest ·) (index + 1) + if head.squashed then 1 else 0 := Nat.count_succ' _ _
      have liveBefore : Nat.count (liveOf uop.decoded.uopType (head :: rest) ·) (index + 1) =
          Nat.count (liveOf uop.decoded.uopType rest ·) index +
            if !head.squashed && head.decoded.uopType = uop.decoded.uopType then 1 else 0 := Nat.count_succ' _ _
      have member : uop ∈ rest := List.mem_of_getElem? found
      rw [goneBefore, liveBefore]
      split
      case isTrue squashed =>
        obtain ⟨counted, isCounted, count_, offset_⟩ :=
          ih _ _ _ found sorted fun other inside => least other (List.mem_cons_of_mem head inside)
        refine ⟨counted, isCounted, ?_, fun survives => ?_⟩
        · rw [count_]
          omega
        · rw [offset_ survives, squashed]
          rfl
      case isFalse squashed =>
        obtain ⟨counted, isCounted, count_, offset_⟩ := ih _ _ _ found sorted behind
        refine ⟨counted, isCounted, count_, fun survives => ?_⟩
        rw [offset_ survives]
        by_cases same : uop.decoded.uopType = head.decoded.uopType
        · simp only [same, squashed, ite_not, if_true, Bool.not_false, decide_true, Bool.and_true]
          omega
        · -- No micro-operation of an earlier type comes after this one.
          have apart : uop.decoded.uopType ≠ uopType := by
            intro before
            have first := least head List.mem_cons_self
            have second := behind uop member
            rw [before] at second
            exact same (before.trans (stage_injective (Nat.le_antisymm first second)))
          simp [same, apart, Ne.symm same]

/-! ### The second loop -/

def recalculated (uops : List CurrentUop) (index : Nat) (uop : CurrentUop) : CurrentUop :=
  if uop.squashed || uop.intraInstructionDependencies = 0 then uop
  else
    let iBase := index - uop.decoded.microOpTypeOffset
    { uop with intraInstructionDependencies := uop.intraInstructionDependencies -
        (squashedCountAt uops iBase - squashedCountAt uops (iBase - uop.intraInstructionDependencies)) }

theorem recalculateDependencies_eq_ok (counted : List CurrentUop) {first : Nat}
    (fits : ∀ index uop, uops[index]? = some uop →
      uop.intraInstructionDependencies ≤ first + index - uop.decoded.microOpTypeOffset) :
    recalculateDependencies counted first uops = .ok (uops.mapIdx fun index uop => recalculated counted (first + index) uop) := by
  induction uops generalizing first with
  | nil => rfl
  | cons uop rest ih =>
    have here : uop.intraInstructionDependencies ≤ first - uop.decoded.microOpTypeOffset := fits 0 uop rfl
    have behind : recalculateDependencies counted (first + 1) rest =
        .ok (rest.mapIdx fun index uop => recalculated counted (first + 1 + index) uop) := by
      apply ih
      intro index other found
      have fit := fits (index + 1) other found
      rwa [← Nat.add_assoc, Nat.add_right_comm] at fit
    have shift : (fun (index : Nat) uop => recalculated counted (first + 1 + index) uop) =
        fun index uop => recalculated counted (first + (index + 1)) uop := by
      funext index uop
      rw [Nat.add_assoc, Nat.add_comm 1]
    rw [recalculateDependencies, behind, List.mapIdx_cons, shift, recalculated]
    split
    · rfl
    · rw [if_pos here]
      rfl

/-! ### The instruction after squashing -/

/-- The offsets and the dependencies count what is left. -/
structure Counted (instruction : Instruction) (uops : List CurrentUop) : Prop where
  length : uops.length = instruction.totalMicroOps
  squashed : ∀ (index : Nat) (uop : CurrentUop), uops[index]? = some uop → uop.squashed = true → instruction.MaySquash index
  first : Marked (·.squashed) (·.first) uops
  last : Marked (·.squashed) (·.last) uops.reverse
  offset : ∀ (index : Nat) (uop : CurrentUop), uops[index]? = some uop → uop.squashed = false →
    uop.microOpTypeOffset = rank uops index - rank uops (instruction.base index)
  intra : ∀ (index : Nat) (uop : CurrentUop), uops[index]? = some uop → uop.squashed = false →
    uop.intraInstructionDependencies = rank uops (instruction.base index) -
      rank uops (instruction.base index - (instruction.microOp index).intraInstructionDependencies)
  dependencies : ∀ (index : Nat) (uop : CurrentUop), uops[index]? = some uop → uop.dependencies = []

theorem Shaped.counted (shaped : Shaped instruction uops) (untouched : ∀ uop ∈ uops, uop.squashed = false) :
    Counted instruction uops := by
  have all (index : Nat) (inside : index ≤ instruction.totalMicroOps) : rank uops index = index := by
    apply Nat.count_of_forall
    intro other before
    have within : other < uops.length := shaped.length ▸ Nat.lt_of_lt_of_le before inside
    have found : uops[other]? = some uops[other] := List.getElem?_eq_getElem within
    rw [live_of_getElem? found, untouched _ (List.getElem_mem _)]
    rfl
  have base_le (index : Nat) : instruction.base index ≤ index := instruction.base_le
  refine ⟨shaped.length, shaped.squashed, shaped.first, shaped.last, ?_, ?_, ?_⟩
  · intro index uop found _
    obtain ⟨inside, statics⟩ := shaped.getElem? found
    have offset : uop.microOpTypeOffset = (instruction.microOp index).microOpTypeOffset := congrArg (·.2.1) statics
    rw [offset, all index (Nat.le_of_lt inside), all _ (Nat.le_trans (base_le index) (Nat.le_of_lt inside)), Instruction.base,
      Nat.sub_sub_self instruction.offset_le]
  · intro index uop found _
    obtain ⟨inside, statics⟩ := shaped.getElem? found
    have intra : uop.intraInstructionDependencies = (instruction.microOp index).intraInstructionDependencies := congrArg (·.2.2.1) statics
    have before : (instruction.microOp index).intraInstructionDependencies ≤ instruction.base index := instruction.intra_le
    have least := base_le index
    rw [intra, all _ (by omega), all _ (by omega)]
    omega
  · intro index uop found
    exact congrArg (·.2.2.2) (shaped.getElem? found).2

theorem Shaped.count_liveOf (shaped : Shaped instruction uops) (inside : index < instruction.totalMicroOps) :
    Nat.count (liveOf (instruction.microOp index).uopType uops ·) index = rank uops index - rank uops (instruction.base index) := by
  have decoded (other : Nat) (before : other < index) :
      liveOf (instruction.microOp index).uopType uops other =
        (live uops other && (instruction.microOp other).uopType = (instruction.microOp index).uopType) := by
    have within : other < uops.length := shaped.length ▸ Nat.lt_trans before inside
    have found : uops[other]? = some uops[other] := List.getElem?_eq_getElem within
    have same : uops[other].decoded = instruction.microOp other := congrArg Prod.fst (shaped.getElem? found).2
    rw [liveOf, live, found, Option.any_some, Option.any_some, same]
  have least : instruction.base index ≤ index := instruction.base_le
  obtain ⟨count, isIndex⟩ := Nat.exists_eq_add_of_le least
  have none_ : Nat.count (liveOf (instruction.microOp index).uopType uops ·) (instruction.base index) = 0 := by
    apply Nat.count_of_forall_not
    intro other before
    rw [decoded other (by omega), decide_eq_false (instruction.uopType_of_lt_base before), Bool.and_false]
    exact Bool.false_ne_true
  have all : Nat.count (fun offset => liveOf (instruction.microOp index).uopType uops (instruction.base index + offset)) count =
      Nat.count (fun offset => live uops (instruction.base index + offset)) count := by
    have same (offset : Nat) (before : offset < count) :
        liveOf (instruction.microOp index).uopType uops (instruction.base index + offset) = live uops (instruction.base index + offset) := by
      rw [decoded _ (by omega), decide_eq_true (instruction.uopType_of_base_le (by omega) (by omega)), Bool.and_true]
    exact Nat.le_antisymm (Nat.count_mono_left fun offset before alive => same offset before ▸ alive)
      (Nat.count_mono_left fun offset before alive => (same offset before).symm ▸ alive)
  have first : Nat.count (liveOf (instruction.microOp index).uopType uops ·) index =
      Nat.count (liveOf (instruction.microOp index).uopType uops ·) (instruction.base index + count) := by
    rw [← isIndex]
  have second : rank uops index = rank uops (instruction.base index + count) := by
    rw [← isIndex]
  rw [first, second, Nat.count_add, none_, Nat.zero_add, all, rank, Nat.count_add, ← rank]
  omega

theorem map_mapIdx {β : Type} {read : CurrentUop → β} {change : Nat → CurrentUop → CurrentUop}
    (keeps : ∀ index uop, read (change index uop) = read uop) (uops : List CurrentUop) : (uops.mapIdx change).map read = uops.map read := by
  apply List.ext_getElem?
  intro index
  rw [List.getElem?_map, List.getElem?_map, List.getElem?_mapIdx]
  cases uops[index]? with
  | none => rfl
  | some uop => exact congrArg some (keeps index uop)

theorem recalculated_keeps {β : Type} (read : CurrentUop → β) (keeps : ∀ uop intra, read { uop with intraInstructionDependencies := intra } = read uop)
    (counted : List CurrentUop) (index : Nat) (uop : CurrentUop) : read (recalculated counted index uop) = read uop := by
  unfold recalculated
  split
  · rfl
  · exact keeps uop _

section doSquashing

/-- The micro-operations between the two loops of `doSquashing`. -/
def between (uops : List CurrentUop) : List CurrentUop := countSquashed .invalid 0 0 uops

theorem Shaped.between_getElem? (shaped : Shaped instruction uops) (found : uops[index]? = some uop) :
    ∃ counted, (between uops)[index]? = some counted ∧
      (counted.decoded, counted.squashed, counted.intraInstructionDependencies, counted.dependencies) =
        (instruction.microOp index, uop.squashed, (instruction.microOp index).intraInstructionDependencies, []) ∧
      counted.squashedCount = Nat.count (gone uops ·) (index + 1) ∧
      (uop.squashed = false → counted.microOpTypeOffset = rank uops index - rank uops (instruction.base index)) := by
  have sorted : uops.Pairwise fun first second => stage first.decoded.uopType ≤ stage second.decoded.uopType := by
    apply List.pairwise_iff_getElem.mpr
    intro first second insideFirst insideSecond before
    have isFirst : uops[first].decoded = instruction.microOp first :=
      congrArg Prod.fst (shaped.getElem? (List.getElem?_eq_getElem insideFirst)).2
    have isSecond : uops[second].decoded = instruction.microOp second :=
      congrArg Prod.fst (shaped.getElem? (List.getElem?_eq_getElem insideSecond)).2
    rw [isFirst, isSecond]
    exact stage_mono (Nat.le_of_lt before)
  obtain ⟨inside, statics⟩ := shaped.getElem? found
  obtain ⟨counted, isCounted, count, offset⟩ :=
    countSquashed_getElem? .invalid 0 0 found sorted fun _ _ => Nat.zero_le _
  have keeps : (between uops).map (fun uop => (uop.decoded, uop.squashed, uop.intraInstructionDependencies, uop.dependencies)) =
      uops.map fun uop => (uop.decoded, uop.squashed, uop.intraInstructionDependencies, uop.dependencies) :=
    countSquashed_map (fun _ _ _ => rfl) _ _ _ _
  have here := congrArg (·[index]?) keeps
  simp only [List.getElem?_map, found, between, isCounted, Option.map_some, Option.some.injEq] at here
  have isDecoded : uop.decoded = instruction.microOp index := congrArg Prod.fst statics
  have isIntra : uop.intraInstructionDependencies = (instruction.microOp index).intraInstructionDependencies :=
    congrArg (·.2.2.1) statics
  have isDependencies : uop.dependencies = [] := congrArg (·.2.2.2) statics
  refine ⟨counted, isCounted, ?_, ?_, fun survives => ?_⟩
  · rw [here, isDecoded, isIntra, isDependencies]
  · rw [count, Nat.zero_add]
  · have typed : uop.decoded.uopType ≠ .invalid := by
      rw [isDecoded, instruction.uopType_eq]
      split
      · exact UopType.noConfusion
      · split <;> exact UopType.noConfusion
    rw [offset survives, if_neg typed, Nat.zero_add, isDecoded, shaped.count_liveOf inside]

theorem Shaped.squashedCountAt (shaped : Shaped instruction uops) (inside : index < instruction.totalMicroOps)
    (stays : ¬instruction.MaySquash index) : squashedCountAt (between uops) index = index - rank uops index := by
  have within : index < uops.length := shaped.length ▸ inside
  have found : uops[index]? = some uops[index] := List.getElem?_eq_getElem within
  obtain ⟨counted, isCounted, _, count, _⟩ := shaped.between_getElem? found
  have survives : ¬gone uops index = true := by
    rw [gone, found]
    exact fun squashed => stays (shaped.squashed index _ found squashed)
  have sum := gone_add_rank (Nat.le_of_lt within)
  rw [Squashing.squashedCountAt, isCounted, Option.map_some, Option.getD_some, count, Nat.count_succ, if_neg survives]
  omega

theorem Shaped.of_between {counted : CurrentUop} (shaped : Shaped instruction uops) (found : (between uops)[index]? = some counted) :
    ∃ uop, uops[index]? = some uop ∧ index < instruction.totalMicroOps ∧
      (counted.decoded, counted.squashed, counted.intraInstructionDependencies, counted.dependencies) =
        (instruction.microOp index, uop.squashed, (instruction.microOp index).intraInstructionDependencies, []) ∧
      (uop.squashed = false → counted.microOpTypeOffset = rank uops index - rank uops (instruction.base index)) := by
  have length : (between uops).length = uops.length := by
    have same : (between uops).map (·.decoded) = uops.map (·.decoded) := countSquashed_map (fun _ _ _ => rfl) _ _ _ _
    have lengths := congrArg List.length same
    rwa [List.length_map, List.length_map] at lengths
  obtain ⟨inside, _⟩ := List.getElem?_eq_some_iff.mp found
  have within : index < uops.length := length ▸ inside
  obtain ⟨counted', isCounted, fields, _, offset⟩ := shaped.between_getElem? (List.getElem?_eq_getElem within)
  cases found.symm.trans isCounted
  exact ⟨_, List.getElem?_eq_getElem within, shaped.length ▸ within, fields, offset⟩

theorem rank_le (uops : List CurrentUop) (index : Nat) : rank uops index ≤ index := Nat.count_le _

theorem rank_add_le (uops : List CurrentUop) (index count : Nat) : rank uops (index + count) ≤ rank uops index + count := by
  rw [rank, rank, Nat.count_add]
  exact Nat.add_le_add_left (Nat.count_le _) _

theorem rank_mono (uops : List CurrentUop) {first second : Nat} (before : first ≤ second) : rank uops first ≤ rank uops second :=
  Nat.count_monotone _ before

theorem Shaped.left (shaped : Shaped instruction uops) (inside : index < instruction.totalMicroOps) :
    (instruction.microOp index).intraInstructionDependencies -
        (Squashing.squashedCountAt (between uops) (instruction.base index) -
          Squashing.squashedCountAt (between uops) (instruction.base index - (instruction.microOp index).intraInstructionDependencies)) =
      rank uops (instruction.base index) -
        rank uops (instruction.base index - (instruction.microOp index).intraInstructionDependencies) := by
  have least : instruction.base index ≤ index := instruction.base_le
  have producers : (instruction.microOp index).intraInstructionDependencies ≤ instruction.base index := instruction.intra_le
  have before := Nat.sub_add_cancel producers
  rw [shaped.squashedCountAt (by omega) instruction.base_not_maySquash,
    shaped.squashedCountAt (by omega) instruction.first_producer_not_maySquash]
  have most := rank_add_le uops (instruction.base index - (instruction.microOp index).intraInstructionDependencies)
    (instruction.microOp index).intraInstructionDependencies
  rw [before] at most
  have first := rank_le uops (instruction.base index)
  have second := rank_le uops (instruction.base index - (instruction.microOp index).intraInstructionDependencies)
  have grows := rank_mono uops (Nat.sub_le (instruction.base index) (instruction.microOp index).intraInstructionDependencies)
  omega

/-- The micro-operations after `doSquashing`. -/
def after (uops : List CurrentUop) : List CurrentUop := (between uops).mapIdx (recalculated (between uops))

theorem after_map {β : Type} (read : CurrentUop → β)
    (intra : ∀ uop intra, read { uop with intraInstructionDependencies := intra } = read uop)
    (offset : ∀ uop offset count, read { uop with microOpTypeOffset := offset, squashedCount := count } = read uop)
    (uops : List CurrentUop) : (after uops).map read = uops.map read :=
  (map_mapIdx (recalculated_keeps read intra _) _).trans (countSquashed_map offset _ _ _ _)

theorem rank_after (uops : List CurrentUop) : rank (after uops) = rank uops := by
  have flags : (after uops).map (·.squashed) = uops.map (·.squashed) := after_map _ (fun _ _ => rfl) (fun _ _ _ => rfl) uops
  funext index
  rw [rank, rank, live_congr flags]

theorem Shaped.doSquashing (shaped : Shaped instruction uops) : doSquashing uops = .ok (after uops) := by
  have fits (index : Nat) (counted : CurrentUop) (found : (between uops)[index]? = some counted) :
      counted.intraInstructionDependencies ≤ 0 + index - counted.decoded.microOpTypeOffset := by
    obtain ⟨uop, _, _, fields, _⟩ := shaped.of_between found
    have isDecoded : counted.decoded = instruction.microOp index := congrArg Prod.fst fields
    have isIntra : counted.intraInstructionDependencies = (instruction.microOp index).intraInstructionDependencies :=
      congrArg (·.2.2.1) fields
    rw [isIntra, isDecoded, Nat.zero_add]
    exact instruction.intra_le
  have recalculates := recalculateDependencies_eq_ok (between uops) fits
  simp only [Nat.zero_add] at recalculates
  exact recalculates

theorem Shaped.of_after (shaped : Shaped instruction uops) (found : (after uops)[index]? = some uop) :
    ∃ origin, uops[index]? = some origin ∧ uop.squashed = origin.squashed ∧ uop.dependencies = [] ∧
      (uop.squashed = false →
        uop.microOpTypeOffset = rank uops index - rank uops (instruction.base index) ∧
        uop.intraInstructionDependencies = rank uops (instruction.base index) -
          rank uops (instruction.base index - (instruction.microOp index).intraInstructionDependencies)) := by
  rw [after, List.getElem?_mapIdx] at found
  obtain ⟨counted, isCounted, rfl⟩ := Option.map_eq_some_iff.mp found
  obtain ⟨origin, isOrigin, inside, fields, offset⟩ := shaped.of_between isCounted
  have isDecoded : counted.decoded = instruction.microOp index := congrArg Prod.fst fields
  have isSquashed : counted.squashed = origin.squashed := congrArg (·.2.1) fields
  have isIntra : counted.intraInstructionDependencies = (instruction.microOp index).intraInstructionDependencies :=
    congrArg (·.2.2.1) fields
  have isDependencies : counted.dependencies = [] := congrArg (·.2.2.2) fields
  have squashed : (recalculated (between uops) index counted).squashed = counted.squashed :=
    recalculated_keeps (·.squashed) (fun _ _ => rfl) _ _ _
  have dependencies : (recalculated (between uops) index counted).dependencies = counted.dependencies :=
    recalculated_keeps (·.dependencies) (fun _ _ => rfl) _ _ _
  have offsets : (recalculated (between uops) index counted).microOpTypeOffset = counted.microOpTypeOffset :=
    recalculated_keeps (·.microOpTypeOffset) (fun _ _ => rfl) _ _ _
  refine ⟨origin, isOrigin, squashed.trans isSquashed, dependencies.trans isDependencies, fun survives => ⟨?_, ?_⟩⟩
  · rw [offsets, offset (isSquashed.symm.trans (squashed.symm.trans survives))]
  · rw [← shaped.left inside, recalculated, isDecoded, isIntra]
    split
    case isTrue none_ =>
      rw [squashed] at survives
      have zero : (instruction.microOp index).intraInstructionDependencies = 0 := by
        simpa [survives] using none_
      rw [isIntra, zero, Nat.zero_sub]
    case isFalse => rfl

theorem Shaped.after_counted (shaped : Shaped instruction uops) : Counted instruction (after uops) := by
  constructor
  · have same : (after uops).map (·.decoded) = uops.map (·.decoded) := after_map _ (fun _ _ => rfl) (fun _ _ _ => rfl) uops
    have lengths := congrArg List.length same
    rw [List.length_map, List.length_map] at lengths
    exact lengths.trans shaped.length
  · intro index uop found squashed
    obtain ⟨origin, isOrigin, same, _⟩ := shaped.of_after found
    exact shaped.squashed index origin isOrigin (same.symm.trans squashed)
  · exact shaped.first.congr (after_map _ (fun _ _ => rfl) (fun _ _ _ => rfl) uops)
  · apply shaped.last.congr
    have same := after_map (fun uop => (uop.squashed, uop.last)) (fun _ _ => rfl) (fun _ _ _ => rfl) uops
    rw [List.map_reverse, List.map_reverse, same]
  · intro index uop found survives
    obtain ⟨_, _, _, _, left⟩ := shaped.of_after found
    rw [rank_after]
    exact (left survives).1
  · intro index uop found survives
    obtain ⟨_, _, _, _, left⟩ := shaped.of_after found
    rw [rank_after]
    exact (left survives).2
  · intro index uop found
    obtain ⟨_, _, _, dependencies, _⟩ := shaped.of_after found
    exact dependencies

end doSquashing

/-! ### The numbers of the micro-operations -/

/-- The sequence numbers that `simulate` gives to the micro-operations that are left. -/
def numbered : Nat → List CurrentUop → List CurrentUop
  | _, [] => []
  | nextSequenceNumber, uop :: rest =>
    if uop.squashed then uop :: numbered nextSequenceNumber rest
    else { uop with sequenceNumber := nextSequenceNumber } :: numbered (nextSequenceNumber + 1) rest

def sequenceNumberAt (uops : List CurrentUop) (index : Nat) : Nat := (uops[index]?.map (·.sequenceNumber)).getD 0

theorem numbered_getElem? (nextSequenceNumber : Nat) (uops : List CurrentUop) (index : Nat) :
    (numbered nextSequenceNumber uops)[index]? = uops[index]?.map fun uop =>
      if uop.squashed then uop else { uop with sequenceNumber := nextSequenceNumber + rank uops index } := by
  induction uops generalizing nextSequenceNumber index with
  | nil => rfl
  | cons uop rest ih =>
    unfold numbered
    cases index with
    | zero => split <;> simp [rank, *]
    | succ index =>
      have before : rank (uop :: rest) (index + 1) = rank rest index + if !uop.squashed then 1 else 0 := Nat.count_succ' _ _
      rw [List.getElem?_cons_succ, before]
      split
      case isTrue squashed => simp [ih, squashed]
      case isFalse squashed => simp [ih, squashed, Nat.add_assoc, Nat.add_comm 1]

/-- The dependencies of each micro-operation that is left are its producers that are left. -/
structure KeepsDependencies (instruction : Instruction) (uops : List CurrentUop) : Prop where
  dependencies : ∀ (nextSequenceNumber index : Nat) (uop : CurrentUop), (numbered nextSequenceNumber uops)[index]? = some uop →
    uop.squashed = false → uop.getDependencies =
      ((instruction.producers index).filter (live uops)).map (sequenceNumberAt (numbered nextSequenceNumber uops))
  oneFirst : (uops.countP fun uop => !uop.squashed && uop.first) = 1
  oneLast : (uops.countP fun uop => !uop.squashed && uop.last) = 1

theorem Counted.keepsDependencies (counted : Counted instruction uops) : KeepsDependencies instruction uops := by
  have some_ : ∃ uop ∈ uops, uop.squashed = false := by
    have inside : 0 < uops.length := counted.length ▸ instruction.someUop
    refine ⟨uops[0], List.getElem_mem _, Bool.eq_false_iff.mpr fun squashed => ?_⟩
    have may := counted.squashed 0 _ (List.getElem?_eq_getElem inside) squashed
    unfold Instruction.MaySquash at may
    omega
  constructor
  · intro next index uop found survives
    rw [numbered_getElem?] at found
    obtain ⟨origin, isOrigin, isUop⟩ := Option.map_eq_some_iff.mp found
    have alive : origin.squashed = false := by
      apply Bool.eq_false_iff.mpr
      intro squashed
      rw [if_pos squashed] at isUop
      exact Bool.eq_false_iff.mp survives (isUop ▸ squashed)
    rw [if_neg (Bool.eq_false_iff.mp alive)] at isUop
    subst isUop
    have numbers (other : Nat) (member : other ∈ (instruction.producers index).filter (live uops)) :
        sequenceNumberAt (numbered next uops) other = next + rank uops other := by
      have lives := (List.mem_filter.mp member).2
      cases there : uops[other]? with
      | none => simp [live, there] at lives
      | some producer =>
        rw [live_of_getElem? there, Bool.not_eq_true'] at lives
        simp [sequenceNumberAt, numbered_getElem?, there, lives]
    have producers : (instruction.microOp index).intraInstructionDependencies ≤ instruction.base index := instruction.intra_le
    have base : rank uops (instruction.base index) ≤ rank uops index := rank_mono uops instruction.base_le
    have first := rank_mono uops (Nat.sub_le (instruction.base index) (instruction.microOp index).intraInstructionDependencies)
    have start : next + rank uops index - (rank uops index - rank uops (instruction.base index)) -
        (rank uops (instruction.base index) -
          rank uops (instruction.base index - (instruction.microOp index).intraInstructionDependencies)) =
        next + rank uops (instruction.base index - (instruction.microOp index).intraInstructionDependencies) := by
      omega
    have stretch := filter_map_count (live uops) next
      (instruction.base index - (instruction.microOp index).intraInstructionDependencies)
      (instruction.microOp index).intraInstructionDependencies
    rw [Nat.sub_add_cancel producers] at stretch
    rw [List.map_congr_left numbers, instruction.producers_eq]
    simp only [DynamicMicroOp.getDependencies, counted.offset index origin isOrigin alive, counted.intra index origin isOrigin alive,
      counted.dependencies index origin isOrigin, List.append_nil, start]
    exact List.range'_eq_map_range.symm.trans stretch.symm
  · exact counted.first.countP some_
  · rw [← List.countP_reverse]
    exact counted.last.countP (by simpa using some_)

/-! ### The whole instruction -/

section handleInstruction

variable {core : CoreModel} {period : Nat} {operands : List Operand} {infos : List MemoryInfo}

/-- The memory operands are the loads and the stores of the instruction, and each has been accessed. -/
structure Matches (instruction : Instruction) (operands : List Operand) (infos : List MemoryInfo) : Prop where
  loads : operands.countP Operand.isRead = instruction.numLoads
  stores : operands.countP Operand.isWrite = instruction.numStores
  accessed : directions operands <+: infos.map (·.dir)

theorem handleInstruction_eq (core : CoreModel) (period : Nat) (instruction : Instruction) (operands : List Operand)
    (infos : List MemoryInfo) : handleInstruction core period instruction operands infos = (do
      let handling ← handleOperands core period infos (loadBase instruction) (storeBase instruction) operands
        ⟨instruction.decode.map core.createDynamicMicroOp, ⟨[], 0⟩, ⟨[], 0⟩, 0, false⟩
      let squashed ← if handling.doSquashing then doSquashing handling.uops else .ok handling.uops
      if handling.reads.numDone = instruction.numLoads ∧ handling.writes.numDone = instruction.numStores then return squashed
      else .error .operandMismatch) := by
  have loads : ((instruction.decode.map core.createDynamicMicroOp).findIdx? fun uop => uop.decoded.uopType = .load) =
      loadBase instruction := (List.findIdx?_map ..).trans instruction.findIdx?_load
  have stores : ((instruction.decode.map core.createDynamicMicroOp).findIdx? fun uop => uop.decoded.uopType = .store) =
      storeBase instruction := (List.findIdx?_map ..).trans instruction.findIdx?_store
  have numLoads : ((instruction.decode.map core.createDynamicMicroOp).countP fun uop => uop.decoded.uopType = .load) =
      instruction.numLoads := List.countP_map.trans instruction.countP_load
  have numStores : ((instruction.decode.map core.createDynamicMicroOp).countP fun uop => uop.decoded.uopType = .store) =
      instruction.numStores := List.countP_map.trans instruction.countP_store
  simp only [handleInstruction, loads, stores, numLoads, numStores]

theorem handled_created (core : CoreModel) (instruction : Instruction) :
    Handled instruction ⟨instruction.decode.map core.createDynamicMicroOp, ⟨[], 0⟩, ⟨[], 0⟩, 0, false⟩ := by
  refine ⟨shaped_created core instruction, rfl, rfl, fun _ uop member => ?_⟩
  obtain ⟨decoded, _, rfl⟩ := List.mem_map.mp member
  rfl

theorem handleInstruction_of_ok {handling : Handling}
    (handles : handleOperands core period infos (loadBase instruction) (storeBase instruction) operands
      ⟨instruction.decode.map core.createDynamicMicroOp, ⟨[], 0⟩, ⟨[], 0⟩, 0, false⟩ = .ok handling) :
    ∃ uops, Counted instruction uops ∧ handleInstruction core period instruction operands infos =
      if handling.reads.numDone = instruction.numLoads ∧ handling.writes.numDone = instruction.numStores then .ok uops
      else .error .operandMismatch := by
  have handled := (handled_created core instruction).operands operands handles
  rw [handleInstruction_eq, handles]
  cases squashing : handling.doSquashing with
  | true =>
    refine ⟨after handling.uops, handled.shaped.after_counted, ?_⟩
    simp only [bind, Except.bind, squashing, if_true, handled.shaped.doSquashing]
    rfl
  | false =>
    refine ⟨handling.uops, handled.shaped.counted (handled.untouched squashing), ?_⟩
    simp only [bind, Except.bind, squashing, Bool.false_eq_true, if_false]
    rfl

theorem handleInstruction_of_error {fault : Fault}
    (handles : handleOperands core period infos (loadBase instruction) (storeBase instruction) operands
      ⟨instruction.decode.map core.createDynamicMicroOp, ⟨[], 0⟩, ⟨[], 0⟩, 0, false⟩ = .error fault) :
    handleInstruction core period instruction operands infos = .error fault := by
  rw [handleInstruction_eq, handles]
  rfl

/-- The assertion of `doSquashing` does not fail, what is simulated of an instruction keeps its dependencies, and an
instruction is simulated where its operands match its micro-operations. -/
theorem squashing_keepsDependencies (core : CoreModel) (period : Nat) (instruction : Instruction) (operands : List Operand)
    (infos : List MemoryInfo) :
    handleInstruction core period instruction operands infos ≠ .error .intraInstructionDependencies ∧
      (∀ uops, handleInstruction core period instruction operands infos = .ok uops → KeepsDependencies instruction uops) ∧
      (Matches instruction operands infos → ∃ uops, handleInstruction core period instruction operands infos = .ok uops) := by
  cases handles : handleOperands core period infos (loadBase instruction) (storeBase instruction) operands
      ⟨instruction.decode.map core.createDynamicMicroOp, ⟨[], 0⟩, ⟨[], 0⟩, 0, false⟩ with
  | error fault =>
    rw [handleInstruction_of_error handles]
    refine ⟨fun same => ?_, fun uops ok => (nomatch ok), fun matches_ => ?_⟩
    · cases same
      exact handleOperands_ne_intra handles
    · obtain ⟨handling, ok, _⟩ := (handled_created core instruction).operands_ok matches_.accessed
        ((Nat.zero_add _).trans matches_.loads) ((Nat.zero_add _).trans matches_.stores)
      cases handles.symm.trans ok
  | ok handling =>
    obtain ⟨uops, counted, ends⟩ := handleInstruction_of_ok handles
    rw [ends]
    refine ⟨fun failed => ?_, fun result ok => ?_, fun matches_ => ?_⟩
    · split at failed <;> cases failed
    · split at ok
      · cases ok
        exact counted.keepsDependencies
      · cases ok
    · obtain ⟨done, ok, loads, stores⟩ := (handled_created core instruction).operands_ok matches_.accessed
        ((Nat.zero_add _).trans matches_.loads) ((Nat.zero_add _).trans matches_.stores)
      cases handles.symm.trans ok
      exact ⟨uops, if_pos ⟨loads, stores⟩⟩

end handleInstruction

end Sniper.Performance.Squashing

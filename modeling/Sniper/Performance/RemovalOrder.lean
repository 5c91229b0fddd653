import Sniper.Performance.DependencyLists

/-! Dependencies can be removed in every order, whichever of the two lists they are in. -/

namespace Sniper.Performance.DynamicMicroOp

variable {uop next : DynamicMicroOp} {number intra : Nat} {dependencies : List Nat}

/-- The first producer of the same instruction. -/
def firstIntra (uop : DynamicMicroOp) : Nat := uop.sequenceNumber - uop.microOpTypeOffset - uop.intraInstructionDependencies

/-- `getDependency`; `none` where its assertion fails. -/
def getDependency (uop : DynamicMicroOp) (index : Nat) : Option Nat :=
  if index < uop.intraInstructionDependencies then
    some (uop.sequenceNumber - uop.microOpTypeOffset - uop.intraInstructionDependencies + index)
  else uop.dependencies[index - uop.intraInstructionDependencies]?

theorem getDependency_enumerates (uop : DynamicMicroOp) :
    (List.range uop.getDependenciesLength).map uop.getDependency = uop.getDependencies.map some := by
  apply List.ext_getElem?
  intro index
  rw [List.getElem?_map, List.getElem?_map]
  by_cases inside : index < uop.getDependenciesLength
  · rw [List.getElem?_range inside, Option.map_some, getDependency, getDependencies]
    have within : index < uop.intraInstructionDependencies + uop.dependencies.length := inside
    by_cases isIntra : index < uop.intraInstructionDependencies
    · rw [if_pos isIntra, List.getElem?_append_left (by simpa using isIntra), List.getElem?_map, List.getElem?_range isIntra]
      rfl
    · rw [if_neg isIntra, List.getElem?_append_right (by simpa using Nat.le_of_not_lt isIntra), List.length_map, List.length_range]
      have there : index - uop.intraInstructionDependencies < uop.dependencies.length := by omega
      rw [List.getElem?_eq_getElem there]
      rfl
  · have beyond : uop.getDependencies.length ≤ index := by
      simpa [getDependencies, getDependenciesLength] using inside
    rw [List.getElem?_eq_none (by simpa using inside), List.getElem?_eq_none beyond]
    rfl

theorem removeDependency_eq (number : Nat) (uop : DynamicMicroOp) : uop.removeDependency number =
    if uop.firstIntra ≤ number then uop.removeIntra number uop.intraInstructionDependencies uop.dependencies
    else uop.removeInter number := rfl

theorem removeIntra_succ : uop.removeIntra number (intra + 1) dependencies =
    if number = (uop.withLists (intra + 1) dependencies).firstIntra then .ok (uop.withLists intra dependencies)
    else if dependencies.length + 1 < maximumNumberOfDependencies then
      uop.removeIntra number intra (dependencies ++ [(uop.withLists (intra + 1) dependencies).firstIntra])
    else .error .tooManyDependencies := rfl

theorem length_getDependencies (uop : DynamicMicroOp) : uop.getDependencies.length = uop.getDependenciesLength := by
  simp [getDependencies, getDependenciesLength]

/-- A micro-operation of the stream with room for its dependencies, of which the regular ones are below the first producer of the
same instruction. -/
structure Removable (uop : DynamicMicroOp) : Prop where
  proper : uop.Proper
  below : ∀ dependency ∈ uop.dependencies, dependency < uop.firstIntra
  room : uop.getDependenciesLength < maximumNumberOfDependencies

/-- A producer of the same instruction is removed.  The ones before it stay below the bound, which moves behind it. -/
theorem removeIntra_ok (proper : (uop.withLists intra dependencies).Proper)
    (below : ∀ dependency ∈ dependencies, dependency < (uop.withLists intra dependencies).firstIntra)
    (room : intra + dependencies.length < maximumNumberOfDependencies)
    (isFrom : (uop.withLists intra dependencies).firstIntra ≤ number)
    (isBefore : number < (uop.withLists intra dependencies).firstIntra + intra) :
    ∃ next, uop.removeIntra number intra dependencies = .ok next ∧ ∀ dependency ∈ next.dependencies, dependency < next.firstIntra := by
  induction intra generalizing dependencies with
  | zero => exact absurd isBefore (Nat.not_lt.mpr isFrom)
  | succ intra ih =>
    have within : uop.microOpTypeOffset + (intra + 1) ≤ uop.sequenceNumber := proper (Nat.succ_pos intra)
    -- Without its first producer, the bound is one higher.
    have moves (others : List Nat) :
        (uop.withLists intra others).firstIntra = (uop.withLists (intra + 1) dependencies).firstIntra + 1 := by
      simp only [firstIntra, withLists]
      omega
    rw [removeIntra_succ]
    by_cases same : number = (uop.withLists (intra + 1) dependencies).firstIntra
    · refine ⟨uop.withLists intra dependencies, if_pos same, fun dependency member => ?_⟩
      rw [moves]
      exact Nat.lt_succ_of_lt (below dependency member)
    · have spills : dependencies.length + 1 < maximumNumberOfDependencies := by omega
      rw [if_neg same, if_pos spills]
      apply ih
      · exact fun _ => Nat.le_trans (Nat.add_le_add_left (Nat.le_succ intra) _) within
      · intro dependency member
        rw [moves]
        rcases List.mem_append.mp member with old | spilled
        · exact Nat.lt_succ_of_lt (below dependency old)
        · rw [List.mem_singleton.mp spilled]
          exact Nat.lt_succ_self _
      · rw [List.length_append, List.length_singleton]
        omega
      · rw [moves]
        omega
      · rw [moves]
        omega

theorem removeInter_ok (member : number ∈ uop.dependencies) : ∃ next, uop.removeInter number = .ok next := by
  rw [removeInter]
  cases isLast : uop.dependencies.getLast? with
  | none =>
    rw [List.getLast?_eq_none_iff.mp isLast] at member
    cases member
  | some last =>
    by_cases same : last = number
    · exact ⟨_, if_pos same⟩
    · exact ⟨_, (if_neg same).trans (if_pos member)⟩

namespace Removable

theorem firstIntra_le (member : number ∈ uop.getDependencies) (regular : number ∉ uop.dependencies) :
    uop.firstIntra ≤ number ∧ number < uop.firstIntra + uop.intraInstructionDependencies := by
  rcases List.mem_append.mp member with isIntra | isRegular
  · obtain ⟨index, inside, rfl⟩ := List.mem_map.mp isIntra
    exact ⟨Nat.le_add_right _ _, Nat.add_lt_add_left (List.mem_range.mp inside) _⟩
  · exact absurd isRegular regular

theorem remove (removable : uop.Removable) (member : number ∈ uop.getDependencies) :
    ∃ next, uop.removeDependency number = .ok next ∧ uop.Drops [number] next ∧ next.Removable := by
  suffices removed : ∃ next, uop.removeDependency number = .ok next ∧ ∀ dependency ∈ next.dependencies, dependency < next.firstIntra by
    obtain ⟨next, isNext, below⟩ := removed
    have drops : uop.Drops [number] next := (removeDependency_meets number uop).of_ok isNext
    refine ⟨next, isNext, drops, drops.proper removable.proper, below, ?_⟩
    have count := (drops.parts removable.proper).length_eq
    have room := removable.room
    rw [List.length_append, length_getDependencies, length_getDependencies] at count
    omega
  rw [removeDependency_eq]
  by_cases isFrom : uop.firstIntra ≤ number
  · rw [if_pos isFrom]
    have regular : number ∉ uop.dependencies := fun isRegular => absurd isFrom (Nat.not_le.mpr (removable.below number isRegular))
    exact removeIntra_ok removable.proper removable.below removable.room isFrom (firstIntra_le member regular).2
  · rw [if_neg isFrom]
    have isRegular : number ∈ uop.dependencies := by
      by_contra regular
      exact isFrom (firstIntra_le member regular).1
    obtain ⟨next, isNext⟩ := removeInter_ok isRegular
    obtain ⟨dependencies, rfl, parts⟩ := (removeInter_parts number uop).of_ok isNext
    exact ⟨_, isNext, fun dependency left => removable.below dependency (parts.mem_iff.mpr (List.mem_cons_of_mem _ left))⟩

theorem removeAll {removed : List Nat} (removable : uop.Removable) (listed : removed.Subperm uop.getDependencies) :
    ∃ now, uop.removeDependencies removed = .ok now ∧ uop.Drops removed now ∧ now.Removable := by
  induction removed generalizing uop with
  | nil => exact ⟨uop, rfl, (removeDependencies_meets [] uop).of_ok rfl, removable⟩
  | cons number rest ih =>
    obtain ⟨next, isNext, drops, removable'⟩ := removable.remove (listed.subset List.mem_cons_self)
    have left : rest.Subperm next.getDependencies := by
      have parts := (drops.parts removable.proper).subperm_left.mp listed
      exact (List.subperm_cons number).mp parts
    obtain ⟨now, isNow, drops', removable''⟩ := ih removable' left
    refine ⟨now, ?_, drops.trans drops', removable''⟩
    rw [removeDependencies, isNext]
    exact isNow

end Removable

/-- In whatever order listed dependencies are removed, no assertion fails, each removal takes one occurrence away, and
`getDependency` enumerates what is left. -/
theorem removals_exact (uop : DynamicMicroOp) (removable : uop.Removable) (removed : List Nat)
    (listed : removed.Subperm uop.getDependencies) :
    ∃ now, uop.removeDependencies removed = .ok now ∧ uop.getDependencies.Perm (removed ++ now.getDependencies) ∧
      (List.range now.getDependenciesLength).map now.getDependency = now.getDependencies.map some ∧
      ∀ number ∈ now.getDependencies, ∃ next, now.removeDependency number = .ok next ∧
        now.getDependencies.Perm (number :: next.getDependencies) := by
  obtain ⟨now, isNow, drops, removable'⟩ := removable.removeAll listed
  refine ⟨now, isNow, drops.parts removable.proper, getDependency_enumerates now, fun number member => ?_⟩
  obtain ⟨next, isNext, drops', -⟩ := removable'.remove member
  exact ⟨next, isNext, drops'.parts removable'.proper⟩

/-- A micro-operation that depends on three of its instruction and on two earlier ones. -/
def fiveProducers : DynamicMicroOp where
  microOp := ⟨.store, [], [], [], false, false, false⟩
  sequenceNumber := 9
  address := 0
  squashed := false
  intraInstructionDependencies := 3
  microOpTypeOffset := 1
  dependencies := [2, 4]
  execLatency := 1
  branchMispredicted := false
  dCacheHitWhere := .unknown
  iCacheHitWhere := .l1i
  iCacheLatency := 0
  last := true
  port := .nehalem .port015
  alu := .none
  aluLatency := 0

/-- The producer in the middle goes first, then one that was listed before it. -/
theorem removals_exact_fromTheMiddle : fiveProducers.getDependencies = [5, 6, 7, 2, 4] ∧
    ∃ now, fiveProducers.removeDependencies [6, 5, 2] = .ok now ∧ now.getDependencies.Perm [4, 7] := by
  refine ⟨rfl, ?_⟩
  have removable : fiveProducers.Removable := ⟨fun _ => by decide, by decide, by decide⟩
  obtain ⟨now, isNow, parts, -⟩ := removals_exact fiveProducers removable [6, 5, 2] (by decide)
  refine ⟨now, isNow, ?_⟩
  have whole : ([6, 5, 2] ++ [4, 7]).Perm fiveProducers.getDependencies := by decide
  exact ((List.perm_append_left_iff _).mp (whole.trans parts)).symm

end Sniper.Performance.DynamicMicroOp

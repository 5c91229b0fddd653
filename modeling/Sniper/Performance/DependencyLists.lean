import Sniper.Library.Outcome
import Sniper.Performance.MicroOp
import Mathlib.Data.List.Perm.Basic

/-! What is left of the dependencies of a micro-operation when some are removed. -/

namespace Sniper.Performance.DynamicMicroOp

variable {uop uop' : DynamicMicroOp} {number : Nat}

/-- The intra-instruction dependencies are on micro-operations of the stream. -/
def Proper (uop : DynamicMicroOp) : Prop :=
  0 < uop.intraInstructionDependencies → uop.microOpTypeOffset + uop.intraInstructionDependencies ≤ uop.sequenceNumber

def withLists (uop : DynamicMicroOp) (intra : Nat) (dependencies : List Nat) : DynamicMicroOp :=
  { uop with intraInstructionDependencies := intra, dependencies := dependencies }

/-- The micro-operation without some of its dependencies, each removed as often as it is listed. -/
structure Drops (uop : DynamicMicroOp) (numbers : List Nat) (uop' : DynamicMicroOp) : Prop where
  same : uop' = uop.withLists uop'.intraInstructionDependencies uop'.dependencies
  proper : uop.Proper → uop'.Proper
  parts : uop.Proper → uop.getDependencies.Perm (numbers ++ uop'.getDependencies)
  listed : ∀ other ∈ uop.dependencies, other ∉ numbers → other ∈ uop'.dependencies

theorem getDependencies_eq_nil : uop.getDependencies = [] ↔ uop.getDependenciesLength = 0 := by
  simp [getDependencies, getDependenciesLength, ← List.length_eq_zero_iff]

theorem Drops.microOp {numbers : List Nat} (drops : uop.Drops numbers uop') : uop'.microOp = uop.microOp := by
  rw [drops.same, withLists]

theorem Drops.sequenceNumber {numbers : List Nat} (drops : uop.Drops numbers uop') :
    uop'.sequenceNumber = uop.sequenceNumber := by
  rw [drops.same, withLists]

theorem Drops.kept {numbers : List Nat} {other : Nat} (drops : uop.Drops numbers uop') (proper : uop.Proper)
    (member : other ∈ uop.getDependencies) (stays : other ∉ numbers) : other ∈ uop'.getDependencies :=
  (List.mem_append.mp ((drops.parts proper).mem_iff.mp member)).resolve_left stays

theorem Drops.mem {numbers : List Nat} {other : Nat} (drops : uop.Drops numbers uop') (proper : uop.Proper)
    (member : other ∈ uop'.getDependencies) : other ∈ uop.getDependencies :=
  (drops.parts proper).mem_iff.mpr (List.mem_append_right _ member)

theorem Drops.count {numbers : List Nat} (drops : uop.Drops numbers uop') (proper : uop.Proper) (other : Nat) :
    uop.getDependencies.count other = numbers.count other + uop'.getDependencies.count other := by
  rw [(drops.parts proper).count_eq, List.count_append]

theorem Drops.trans {first second : List Nat} {uop'' : DynamicMicroOp} (drops : uop.Drops first uop')
    (more : uop'.Drops second uop'') : uop.Drops (first ++ second) uop'' := by
  refine ⟨?_, fun proper => more.proper (drops.proper proper), fun proper => ?_, fun other member stays => ?_⟩
  · rw [more.same, drops.same]
    rfl
  · rw [List.append_assoc]
    exact (drops.parts proper).trans ((more.parts (drops.proper proper)).append_left first)
  · rw [List.mem_append, not_or] at stays
    exact more.listed other (drops.listed other member stays.1) stays.2

theorem getDependencies_succ {intra : Nat} {dependencies : List Nat} (proper : (uop.withLists (intra + 1) dependencies).Proper) :
    (uop.withLists (intra + 1) dependencies).getDependencies =
      (uop.sequenceNumber - uop.microOpTypeOffset - (intra + 1)) :: (uop.withLists intra dependencies).getDependencies := by
  have within : uop.microOpTypeOffset + (intra + 1) ≤ uop.sequenceNumber := proper (Nat.succ_pos intra)
  have shifted : uop.sequenceNumber - uop.microOpTypeOffset - intra =
      uop.sequenceNumber - uop.microOpTypeOffset - (intra + 1) + 1 := by omega
  simp only [getDependencies, withLists]
  rw [List.range_succ_eq_map, List.map_cons, List.map_map, shifted, List.cons_append, Nat.add_zero]
  congr 2
  apply List.map_congr_left
  intro index _
  simp only [Function.comp_apply]
  omega

theorem removeIntra_meets (number intra : Nat) (dependencies : List Nat) :
    Meets (fun _ => True) (uop.removeIntra number intra dependencies) ((uop.withLists intra dependencies).Drops [number]) := by
  induction intra generalizing dependencies with
  | zero => trivial
  | succ intra ih =>
    have fewer (proper : (uop.withLists (intra + 1) dependencies).Proper) (others : List Nat) :
        (uop.withLists intra others).Proper := by
      have within : uop.microOpTypeOffset + (intra + 1) ≤ uop.sequenceNumber := proper (Nat.succ_pos intra)
      exact fun _ => Nat.le_trans (Nat.add_le_add_left (Nat.le_succ intra) _) within
    rw [removeIntra]
    refine Meets.ite (fun same => Meets.ok ⟨rfl, fun proper => fewer proper dependencies, fun proper => ?_, fun _ member _ => member⟩)
      fun _ => Meets.ite (fun _ => ?_) fun _ => trivial
    · rw [getDependencies_succ proper, ← same]
      exact List.Perm.refl _
    · refine (ih _).mono fun result drops => ⟨drops.same.trans rfl, fun proper => drops.proper (fewer proper _), fun proper => ?_,
        fun other member => drops.listed other (List.mem_append_left _ member)⟩
      rw [getDependencies_succ proper]
      refine List.Perm.trans ?_ (drops.parts (fewer proper _))
      simp only [getDependencies, withLists, ← List.append_assoc]
      exact (List.perm_append_singleton _ _).symm

theorem perm_replace {front : List Nat} {index : Nat} (last : Nat) (there : front[index]? = some number) :
    (front ++ [last]).Perm (number :: front.set index last) := by
  obtain ⟨within, isNumber⟩ := List.getElem?_eq_some_iff.mp there
  have placed : (front.set index last).Perm (last :: front.eraseIdx index) := List.set_perm_cons_eraseIdx within last
  have whole : (number :: front.eraseIdx index).Perm front := isNumber ▸ List.getElem_cons_eraseIdx_perm within
  calc (front ++ [last]).Perm (last :: front) := List.perm_append_singleton last front
    List.Perm _ (last :: number :: front.eraseIdx index) := whole.symm.cons last
    List.Perm _ (number :: last :: front.eraseIdx index) := List.Perm.swap number last _
    List.Perm _ (number :: front.set index last) := placed.symm.cons number

theorem drops_list {dependencies : List Nat} (parts : uop.dependencies.Perm (number :: dependencies)) :
    uop.Drops [number] (uop.withLists uop.intraInstructionDependencies dependencies) := by
  refine ⟨rfl, id, fun _ => ?_, fun other member stays => ?_⟩
  · simp only [getDependencies, withLists, List.singleton_append]
    exact (parts.append_left _).trans List.perm_middle
  · exact List.mem_of_ne_of_mem (List.ne_of_not_mem_cons stays) (parts.mem_iff.mp member)

theorem removeInter_parts (number : Nat) (uop : DynamicMicroOp) :
    Meets (fun _ => True) (uop.removeInter number) fun next => ∃ dependencies,
      next = uop.withLists uop.intraInstructionDependencies dependencies ∧ uop.dependencies.Perm (number :: dependencies) := by
  rw [removeInter]
  cases isLast : uop.dependencies.getLast? with
  | none => trivial
  | some last =>
    obtain ⟨front, parts⟩ := List.getLast?_eq_some_iff.mp isLast
    refine Meets.ite (fun same => Meets.ok ⟨_, rfl, ?_⟩) fun different =>
      Meets.ite (fun member => Meets.ok ⟨_, rfl, ?_⟩) fun _ => trivial
    · rw [parts, List.dropLast_concat, same]
      exact List.perm_append_singleton number front
    · have inFront : number ∈ front := by
        rw [parts] at member
        exact (List.mem_append.mp member).resolve_right fun atEnd => different (List.mem_singleton.mp atEnd).symm
      rw [parts, List.idxOf_append_of_mem inFront, List.set_append_left _ _ (List.idxOf_lt_length_of_mem inFront),
        List.dropLast_concat]
      exact perm_replace last (List.getElem?_idxOf inFront)

theorem removeInter_meets (number : Nat) (uop : DynamicMicroOp) :
    Meets (fun _ => True) (uop.removeInter number) (uop.Drops [number]) := by
  refine (removeInter_parts number uop).mono fun next left => ?_
  obtain ⟨dependencies, rfl, parts⟩ := left
  exact drops_list parts

theorem removeDependency_meets (number : Nat) (uop : DynamicMicroOp) :
    Meets (fun _ => True) (uop.removeDependency number) (uop.Drops [number]) := by
  rw [removeDependency]
  exact Meets.ite (fun _ => removeIntra_meets number _ _) fun _ => uop.removeInter_meets number

theorem removeDependencies_meets (numbers : List Nat) (uop : DynamicMicroOp) :
    Meets (fun _ => True) (uop.removeDependencies numbers) (uop.Drops numbers) := by
  induction numbers generalizing uop with
  | nil => exact Meets.ok ⟨rfl, id, fun _ => List.Perm.refl _, fun _ member _ => member⟩
  | cons number numbers ih =>
    rw [removeDependencies]
    exact Meets.bind (uop.removeDependency_meets number) fun first drops => (ih first).mono fun last more => drops.trans more

end Sniper.Performance.DynamicMicroOp

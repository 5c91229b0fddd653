import Sniper.Performance.RobStages
import Mathlib.Algebra.Order.Group.Nat
import Mathlib.Data.List.TakeWhile

/-! The array of dependencies to remove when a micro-operation enters a ROB: `RobTimer::simulate` and
`RobSmtTimer::setDependencies`. -/

namespace Sniper.Performance.RobTimer

/-- `deps_to_remove` and `num_dtr`: all that was written, each value with its index. -/
structure DepsToRemove where
  writes : List (Nat × Nat)
  numDtr : Nat
deriving DecidableEq, Repr

namespace DepsToRemove

def empty : DepsToRemove := ⟨[], 0⟩

/-- `deps_to_remove[num_dtr++] = dependency` -/
def push (removes : DepsToRemove) (dependency : Nat) : DepsToRemove :=
  ⟨removes.writes ++ [(removes.numDtr, dependency)], removes.numDtr + 1⟩

/-- `sizeof(deps_to_remove)`, of 64-bit numbers. -/
def sizeofDepsToRemove : Nat := depsToRemoveSize * 8

/-- `sizeof(8)`, of an `int`. -/
def sizeofEight : Nat := 4

/-- "Have to remove more dependencies than I expected" is not raised. -/
def asserted (removes : DepsToRemove) : Bool := removes.numDtr < sizeofDepsToRemove / sizeofEight

/-- Only entries of the array are written, and a number of them that does not fit is rejected. -/
structure InBounds (removes : DepsToRemove) : Prop where
  writes : ∀ write ∈ removes.writes, write.1 < depsToRemoveSize
  rejects : depsToRemoveSize < removes.numDtr → removes.asserted = false

end DepsToRemove

structure Enlisting where
  entries : List RobEntry
  removes : DepsToRemove
  readyMax : SubsecondTime

/-- The loop that adds a micro-operation to the dependants of its producers, and the assertion that stops it. A dependency that
passes the test is done without a look at its entry. -/
def enlist (isDone : Nat → Bool) (sequenceNumber : Nat) : List Nat → Enlisting → Enlisting × Option Fault
  | [], loop => (loop, none)
  | dependency :: rest, loop =>
    if isDone dependency then enlist isDone sequenceNumber rest { loop with removes := loop.removes.push dependency }
    else
      match findEntryBySequenceNumber loop.entries dependency with
      | .error fault => (loop, some fault)
      | .ok prodEntry =>
        if prodEntry.done ≠ ⊤ then
          enlist isDone sequenceNumber rest
            { loop with removes := loop.removes.push dependency, readyMax := max loop.readyMax prodEntry.done }
        else
          match updateEntry loop.entries dependency fun producer =>
              { producer with dependants := producer.dependants ++ [sequenceNumber] } with
          | .error fault => (loop, some fault)
          | .ok entries => enlist isDone sequenceNumber rest { loop with entries := entries }

/-- The loop of `RobTimer::simulate`. -/
def simulateRemoves (entries : List RobEntry) (uop : DynamicMicroOp) : DepsToRemove :=
  (enlist (fun _ => false) uop.sequenceNumber uop.getDependencies ⟨entries, .empty, (0 : Nat)⟩).1.removes

/-- The loop of `RobSmtTimer::setDependencies`: "this will be an intra-instruction dependency", where it is before the window. -/
def smtRemoves (lowestValidSequenceNumber : Nat) (entries : List RobEntry) (uop : DynamicMicroOp) : DepsToRemove :=
  (enlist (· < lowestValidSequenceNumber) uop.sequenceNumber uop.getDependencies ⟨entries, .empty, (0 : Nat)⟩).1.removes

section Loop

variable {isDone : Nat → Bool} {sequenceNumber number : Nat} {entries entries' : List RobEntry} {loop : Enlisting}
  {removes : DepsToRemove}

/-- The dependency is looked up without an assertion that fails. -/
def isFound (isDone : Nat → Bool) (entries : List RobEntry) (dependency : Nat) : Bool :=
  isDone dependency || (findEntryBySequenceNumber entries dependency).isOk

def hasIssued (isDone : Nat → Bool) (entries : List RobEntry) (dependency : Nat) : Bool :=
  isDone dependency || (findEntryBySequenceNumber entries dependency).toOption.any fun prodEntry => prodEntry.done ≠ ⊤

/-- The dependencies on producers that have issued, up to the first one that is not in the ROB. -/
def issuedDependencies (isDone : Nat → Bool) (entries : List RobEntry) (dependencies : List Nat) : Nat :=
  (dependencies.takeWhile (isFound isDone entries)).countP (hasIssued isDone entries)

theorem findPosition_of_bare (same : entries'.map RobEntry.bare = entries.map RobEntry.bare) (number : Nat) :
    findPosition entries' number = findPosition entries number := by
  have at_ (position : Nat) : entries'[position]?.map RobEntry.bare = entries[position]?.map RobEntry.bare := by
    rw [← List.getElem?_map, ← List.getElem?_map, same]
  have first := at_ 0
  cases entries with
  | nil => rw [List.map_eq_nil_iff.mp same]
  | cons front rest =>
    cases entries' with
    | nil => cases same
    | cons front' rest' =>
      have isFront : front'.bare = front.bare := Option.some.inj first
      have sameFront : front'.uop.sequenceNumber = front.uop.sequenceNumber := by rw [RobEntry.uop_of_bare isFront]
      have there := at_ (number - front.uop.sequenceNumber)
      rw [findPosition, findPosition, sameFront]
      cases found : (front :: rest)[number - front.uop.sequenceNumber]? with
      | none =>
        rw [found] at there
        rw [Option.map_eq_none_iff.mp there]
      | some entry =>
        rw [found] at there
        obtain ⟨entry', found', isBare⟩ := Option.map_eq_some_iff.mp there
        rw [found']
        simp only [RobEntry.uop_of_bare isBare]

theorem find_of_bare (same : entries'.map RobEntry.bare = entries.map RobEntry.bare) (number : Nat) :
    (∃ fault, findEntryBySequenceNumber entries' number = .error fault ∧ findEntryBySequenceNumber entries number = .error fault) ∨
    ∃ entry' entry, findEntryBySequenceNumber entries' number = .ok entry' ∧ findEntryBySequenceNumber entries number = .ok entry ∧
      entry'.bare = entry.bare := by
  rw [findEntryBySequenceNumber, findEntryBySequenceNumber, findPosition_of_bare same]
  cases findPosition entries number with
  | error fault => exact .inl ⟨fault, rfl, rfl⟩
  | ok position =>
    have there : entries'[position]?.map RobEntry.bare = entries[position]?.map RobEntry.bare := by
      rw [← List.getElem?_map, ← List.getElem?_map, same]
    simp only [bind, Except.bind]
    cases found : entries[position]? with
    | none =>
      rw [found] at there
      rw [Option.map_eq_none_iff.mp there]
      exact .inl ⟨_, rfl, rfl⟩
    | some entry =>
      rw [found] at there
      obtain ⟨entry', found', isBare⟩ := Option.map_eq_some_iff.mp there
      rw [found']
      exact .inr ⟨entry', entry, rfl, rfl, isBare⟩

theorem issuedDependencies_of_bare (same : entries'.map RobEntry.bare = entries.map RobEntry.bare) (dependencies : List Nat) :
    issuedDependencies isDone entries' dependencies = issuedDependencies isDone entries dependencies := by
  have found : isFound isDone entries' = isFound isDone entries := by
    funext number
    rw [isFound, isFound]
    obtain ⟨fault, looked', looked⟩ | ⟨entry', entry, looked', looked, -⟩ := find_of_bare same number
    · rw [looked', looked]
    · rw [looked', looked]
      rfl
  have issued : hasIssued isDone entries' = hasIssued isDone entries := by
    funext number
    rw [hasIssued, hasIssued]
    obtain ⟨fault, looked', looked⟩ | ⟨entry', entry, looked', looked, isBare⟩ := find_of_bare same number
    · rw [looked', looked]
    · rw [looked', looked]
      simp only [Except.toOption, Option.any, RobEntry.done_of_bare isBare]
  rw [issuedDependencies, issuedDependencies, found, issued]

theorem issuedDependencies_issued {rest : List Nat} (found : isFound isDone entries number = true)
    (issued : hasIssued isDone entries number = true) :
    issuedDependencies isDone entries (number :: rest) = issuedDependencies isDone entries rest + 1 := by
  rw [issuedDependencies, List.takeWhile_cons_of_pos found, List.countP_cons_of_pos issued, issuedDependencies]

theorem issuedDependencies_waits {rest : List Nat} (found : isFound isDone entries number = true)
    (waits : ¬hasIssued isDone entries number = true) :
    issuedDependencies isDone entries (number :: rest) = issuedDependencies isDone entries rest := by
  rw [issuedDependencies, List.takeWhile_cons_of_pos found, List.countP_cons_of_neg waits, issuedDependencies]

theorem issuedDependencies_missing {rest : List Nat} (missing : ¬isFound isDone entries number = true) :
    issuedDependencies isDone entries (number :: rest) = 0 := by
  rw [issuedDependencies, List.takeWhile_cons_of_neg missing, List.countP_nil]

def Counted (removes : DepsToRemove) : Prop := removes.writes.map Prod.fst = List.range removes.numDtr

theorem Counted.push (counted : Counted removes) (dependency : Nat) : Counted (removes.push dependency) := by
  rw [Counted, DepsToRemove.push, List.map_append, counted, List.range_succ]
  rfl

theorem updateEntry_of_find {entry : RobEntry} {update : RobEntry → RobEntry}
    (found : findEntryBySequenceNumber entries number = .ok entry) (bare : ∀ entry, (update entry).bare = entry.bare) :
    ∃ entries', updateEntry entries number update = .ok entries' ∧ entries'.map RobEntry.bare = entries.map RobEntry.bare := by
  rw [findEntryBySequenceNumber] at found
  cases position : findPosition entries number with
  | error fault =>
    rw [position] at found
    cases found
  | ok index =>
    have updated : updateEntry entries number update = .ok (entries.modify index update) := by
      rw [updateEntry, position]
      rfl
    exact ⟨_, updated, (updateEntry_bare entries number bare).of_ok updated⟩

theorem enlist_counts (isDone : Nat → Bool) (sequenceNumber : Nat) (dependencies : List Nat) (loop : Enlisting)
    (counted : Counted loop.removes) :
    Counted (enlist isDone sequenceNumber dependencies loop).1.removes ∧
    (enlist isDone sequenceNumber dependencies loop).1.removes.numDtr =
      loop.removes.numDtr + issuedDependencies isDone loop.entries dependencies := by
  induction dependencies generalizing loop with
  | nil => exact ⟨counted, rfl⟩
  | cons dependency rest ih =>
    rw [enlist]
    cases done : isDone dependency with
    | true =>
      have found : isFound isDone loop.entries dependency = true := by rw [isFound, done, Bool.true_or]
      have issued : hasIssued isDone loop.entries dependency = true := by rw [hasIssued, done, Bool.true_or]
      obtain ⟨kept, count⟩ := ih { loop with removes := loop.removes.push dependency } (counted.push dependency)
      rw [if_pos rfl, issuedDependencies_issued found issued, Nat.add_comm _ 1, ← Nat.add_assoc]
      exact ⟨kept, count⟩
    | false =>
      rw [if_neg Bool.false_ne_true]
      cases looked : findEntryBySequenceNumber loop.entries dependency with
      | error fault =>
        have missing : ¬isFound isDone loop.entries dependency = true := by
          rw [isFound, done, looked]
          exact Bool.false_ne_true
        rw [issuedDependencies_missing missing]
        exact ⟨counted, rfl⟩
      | ok prodEntry =>
        have found : isFound isDone loop.entries dependency = true := by
          rw [isFound, done, looked]
          rfl
        have issued : hasIssued isDone loop.entries dependency = decide (prodEntry.done ≠ ⊤) := by
          rw [hasIssued, done, looked]
          rfl
        simp only
        by_cases isIssued : prodEntry.done ≠ ⊤
        · obtain ⟨kept, count⟩ := ih { loop with
            removes := loop.removes.push dependency, readyMax := max loop.readyMax prodEntry.done } (counted.push dependency)
          rw [if_pos isIssued, issuedDependencies_issued found (issued.trans (decide_eq_true isIssued)), Nat.add_comm _ 1,
            ← Nat.add_assoc]
          exact ⟨kept, count⟩
        · have waits : ¬hasIssued isDone loop.entries dependency = true := by
            rw [issued]
            exact fun isTrue => isIssued (of_decide_eq_true isTrue)
          rw [if_neg isIssued, issuedDependencies_waits found waits]
          obtain ⟨entries', updated, bare⟩ : ∃ entries', updateEntry loop.entries dependency (fun producer =>
              { producer with dependants := producer.dependants ++ [sequenceNumber] }) = .ok entries' ∧
              entries'.map RobEntry.bare = loop.entries.map RobEntry.bare := updateEntry_of_find looked fun _ => rfl
          obtain ⟨kept, count⟩ := ih { loop with entries := entries' } counted
          rw [updated]
          exact ⟨kept, count.trans (by rw [issuedDependencies_of_bare bare])⟩

theorem inBounds_iff (counted : Counted removes) : removes.InBounds ↔ removes.numDtr ≤ depsToRemoveSize := by
  constructor
  · intro bounds
    have written : ∀ index ∈ List.range removes.numDtr, index < depsToRemoveSize := by
      rw [← counted]
      intro index member
      obtain ⟨write, there, rfl⟩ := List.mem_map.mp member
      exact bounds.writes write there
    by_contra beyond
    exact Nat.lt_irrefl _ (written depsToRemoveSize (List.mem_range.mpr (Nat.lt_of_not_le beyond)))
  · intro few
    refine ⟨fun write member => ?_, fun beyond => absurd few (Nat.not_le_of_lt beyond)⟩
    have index : write.1 ∈ List.range removes.numDtr := counted ▸ List.mem_map_of_mem member
    exact Nat.lt_of_lt_of_le (List.mem_range.mp index) few

/-- What `insertMicroOp` removes is what the loop writes. -/
theorem addToProducers_writes (dependencies : List Nat) (loop : Enlisting) {result : List RobEntry × List Nat × SubsecondTime}
    (added : addToProducers sequenceNumber dependencies loop.entries = .ok result) :
    (enlist (fun _ => false) sequenceNumber dependencies loop).1.removes.writes.map Prod.snd =
      loop.removes.writes.map Prod.snd ++ result.2.1 := by
  induction dependencies generalizing loop result with
  | nil =>
    cases added
    exact (List.append_nil _).symm
  | cons dependency rest ih =>
    rw [enlist, if_neg Bool.false_ne_true]
    rw [addToProducers] at added
    cases looked : findEntryBySequenceNumber loop.entries dependency with
    | error fault =>
      rw [looked] at added
      cases added
    | ok prodEntry =>
      rw [looked] at added
      simp only [bind, Except.bind] at added ⊢
      by_cases issued : prodEntry.done ≠ ⊤
      · rw [if_pos issued] at added ⊢
        cases later : addToProducers sequenceNumber rest loop.entries with
        | error fault =>
          rw [later] at added
          cases added
        | ok last =>
          rw [later] at added
          cases added
          rw [ih { loop with removes := loop.removes.push dependency, readyMax := max loop.readyMax prodEntry.done } later]
          simp [DepsToRemove.push]
      · rw [if_neg issued] at added ⊢
        cases updated : updateEntry loop.entries dependency fun producer =>
            { producer with dependants := producer.dependants ++ [sequenceNumber] } with
        | error fault =>
          rw [updated] at added
          cases added
        | ok entries' =>
          rw [updated] at added
          exact ih { loop with entries := entries' } added

/-- The array is long enough, and the assertion would tell, if and only if at most eight producers have issued, or left the
window of an SMT thread, up to a dependency that is not in the ROB. -/
theorem removes_inBounds_iff (entries : List RobEntry) (uop : DynamicMicroOp) :
    ((simulateRemoves entries uop).InBounds ↔ issuedDependencies (fun _ => false) entries uop.getDependencies ≤ 8) ∧
    ∀ lowestValidSequenceNumber, (smtRemoves lowestValidSequenceNumber entries uop).InBounds ↔
      issuedDependencies (· < lowestValidSequenceNumber) entries uop.getDependencies ≤ 8 := by
  have loop (isDone : Nat → Bool) :
      (enlist isDone uop.sequenceNumber uop.getDependencies ⟨entries, .empty, (0 : Nat)⟩).1.removes.InBounds ↔
        issuedDependencies isDone entries uop.getDependencies ≤ 8 := by
    obtain ⟨counted, count⟩ := enlist_counts isDone uop.sequenceNumber uop.getDependencies ⟨entries, .empty, (0 : Nat)⟩ rfl
    rw [inBounds_iff counted, count]
    show 0 + _ ≤ 8 ↔ _
    rw [Nat.zero_add]
  exact ⟨loop _, fun low => loop _⟩

/-- A micro-operation of a stream without memory accesses. -/
def worker (sequenceNumber : Nat) (dependencies : List Nat) : DynamicMicroOp where
  microOp := ⟨.execute, [], [], [], false, false, false⟩
  sequenceNumber := sequenceNumber
  address := 0
  squashed := false
  intraInstructionDependencies := 0
  microOpTypeOffset := 0
  dependencies := dependencies
  execLatency := 20
  branchMispredicted := false
  dCacheHitWhere := .unknown
  iCacheHitWhere := .l1i
  iCacheLatency := 0
  last := true
  port := .nehalem .port015
  alu := .none
  aluLatency := 0

/-- The ninth producer that has issued is written behind the array, and the assertion passes. -/
theorem ninthProducer_outOfBounds : ¬ ∀ entries uop, uop.getDependencies.length ≤ maximumNumberOfDependencies →
    (simulateRemoves entries uop).InBounds ∧ ∀ lowestValidSequenceNumber, (smtRemoves lowestValidSequenceNumber entries uop).InBounds := by
  intro always
  have bounds := (always ((List.range 9).map fun number => { RobEntry.init (worker number []) with done := (21 : Nat) })
    (worker 9 (List.range 9)) (by decide)).1
  have rejected := bounds.rejects (by decide)
  exact absurd rejected (by decide)

end Loop

end Sniper.Performance.RobTimer

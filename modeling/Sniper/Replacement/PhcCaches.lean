import Sniper.Replacement.RecencyOrder
import Sniper.Replacement.TrackedSet

/-! Caches with `CacheSetPHC`.  All their sets share the table `m_state`. -/

namespace Sniper.Replacement

open Recency

/-- What happened to a line since it was inserted. -/
structure PhcLine where
  eip : Nat
  writeBacks : Nat
  readHits : Nat
deriving DecidableEq, Repr

def phcTracking (associativity : Nat) : Tracking (CacheSetPHC associativity 1) PhcLine where
  inserted _ _ call := ⟨call.eip, 0, 0⟩
  readHit line := { line with readHits := line.readHits + 1 }
  writtenBack line := { line with writeBacks := line.writeBacks + 1 }

abbrev PhcSet (associativity : Nat) := TrackedSet (phcTracking associativity)

variable {associativity : Nat} {set : Contents} {call : Call} {fields after : Phc} {index : Nat}

def PhcSet.load (now : PhcSet associativity) (state : Nat → Nat) : PhcSet associativity :=
  { now with set := { now.set with fields := { now.set.fields with state } } }

/-- Sets by the number of their cache and their index, with the table that they share. -/
structure PhcCaches (associativity : Nat) where
  sets : Nat × Nat → PhcSet associativity
  state : Nat → Nat

def phcCaches (associativity : Nat) : Machine (PhcCaches associativity) ((Nat × Nat) × SetLabel) Fault where
  initial start := (∀ id, (∀ way, (start.sets id).set.blocks way = .invalid) ∧
    (CacheSetPHC associativity 1).constructed (start.sets id).set.fields ∧ (start.sets id).uses = [] ∧
      (start.sets id).lines = fun _ => none) ∧ start.state = fun _ => 0
  step now label := do
    let next ← (PhcSet.load (now.sets label.1) now.state).step label.1.2 label.2
    Except.ok ⟨Function.update now.sets label.1 next, next.set.fields.state⟩

/-! ### The policy -/

theorem attemptLoop_once {select : (Nat → Nat) → Except Fault Nat} {inLower : Nat → Bool} {lruBits bits : Nat → Nat}
    {found : Option Nat} (looped : attemptLoop associativity select inLower 1 lruBits = .ok (bits, found)) :
    ∃ index < associativity, select lruBits = .ok index ∧ found = some index ∧ bits = moveToMRU associativity index lruBits := by
  cases selected : select lruBits with
  | error reason => simp [attemptLoop, selected, bind, Except.bind] at looped
  | ok index =>
    simp only [attemptLoop, selected, bind, Except.bind] at looped
    split at looped
    case isTrue small =>
      simp only [Nat.lt_irrefl, false_and, if_false, Except.ok.injEq, Prod.mk.injEq] at looped
      exact ⟨index, small, rfl, looped.2.symm, looped.1.symm⟩
    case isFalse => cases looped

theorem Phc.proper_lt {proper : Option Nat} {eip : Nat}
    (searched : (if fields.isCold eip then .ok ((Phc.sttRam associativity).find? fun way => (set way).isNone)
      else Phc.searchInvalid associativity Phc.sramWays set : Except Fault (Option Nat)) = .ok proper)
    (isProper : proper = some index) : index < associativity := by
  subst isProper
  split at searched
  case isTrue =>
    have member := List.mem_of_find?_eq_some (Except.ok.inj searched)
    exact List.mem_range.mp (List.mem_of_mem_filter member)
  case isFalse =>
    simp only [Phc.searchInvalid] at searched
    split at searched
    case h_1 way invalid =>
      cases searched
      exact Nat.lt_of_lt_of_le (firstInvalid_lt invalid) (Nat.min_le_right _ _)
    case h_2 => split at searched <;> cases searched

theorem phc_replaced (replaced : (CacheSetPHC associativity 1).getReplacementIndex set call fields = .ok (after, index)) :
    index < associativity ∧ after.lruBits = moveToMRU associativity index fields.lruBits ∧
      (Phc.isSampler call.setIndex = true → after.ti = (fields.train index call.eip).ti ∧
        after.cost = (fields.train index call.eip).cost ∧ after.state = (fields.train index call.eip).state) ∧
      (Phc.isSampler call.setIndex = false → after.state = fields.state) := by
  simp only [CacheSetPHC] at replaced
  split at replaced
  case isTrue sampler =>
    suffices trained : index < associativity ∧ after.lruBits = moveToMRU associativity index fields.lruBits ∧
        after.ti = (fields.train index call.eip).ti ∧ after.cost = (fields.train index call.eip).cost ∧
          after.state = (fields.train index call.eip).state from
      ⟨trained.1, trained.2.1, fun _ => trained.2.2, fun other => absurd (sampler.symm.trans other) Bool.noConfusion⟩
    simp only [Phc.replaceSampler] at replaced
    split at replaced
    case h_1 way invalid =>
      cases replaced
      exact ⟨firstInvalid_lt invalid, rfl, rfl, rfl, rfl⟩
    case h_2 =>
      cases looped : attemptLoop associativity (Phc.selectIn associativity (List.range Phc.sramWays) set)
          call.isInLowerLevelCache 1 fields.lruBits with
      | error reason => simp [looped, bind, Except.bind] at replaced
      | ok result =>
        obtain ⟨way, small, _, found, moved⟩ := attemptLoop_once looped
        simp only [looped, bind, Except.bind, found] at replaced
        cases replaced
        exact ⟨small, moved, rfl, rfl, rfl⟩
  case isFalse other =>
    suffices same : index < associativity ∧ after.lruBits = moveToMRU associativity index fields.lruBits ∧
        after.state = fields.state from
      ⟨same.1, same.2.1, fun sampler => absurd sampler other, fun _ => same.2.2⟩
    simp only [Phc.replaceOther, bind, Except.bind] at replaced
    split at replaced
    case h_1 => cases replaced
    case h_2 proper searched =>
      split at replaced
      case h_1 way invalid =>
        cases replaced
        refine ⟨?_, rfl, rfl⟩
        obtain isProper | ⟨_, isInvalid⟩ := Option.or_eq_some_iff.mp invalid
        · exact Phc.proper_lt searched isProper
        · exact firstInvalid_lt isInvalid
      case h_2 =>
        split at replaced
        case h_1 => cases replaced
        case h_2 result looped =>
          obtain ⟨way, small, _, found, moved⟩ := attemptLoop_once looped
          simp only [found] at replaced
          cases replaced
          exact ⟨small, moved, rfl⟩

theorem phc_updated {accessedIndex writeFlag setIndex : Nat}
    (updated : (CacheSetPHC associativity 1).updateReplacementIndex accessedIndex writeFlag setIndex fields = .ok after) :
    after.lruBits = moveToMRU associativity accessedIndex fields.lruBits ∧ after.ti = fields.ti ∧ after.state = fields.state ∧
      (Phc.isSampler setIndex = true → writeFlag = 0 →
        after.cost = Function.update fields.cost accessedIndex ((fields.cost accessedIndex + 255) % 256)) := by
  simp only [CacheSetPHC, increment] at updated
  split at updated
  case isTrue =>
    cases updated
    refine ⟨rfl, rfl, rfl, ?_⟩
    intro sampler read
    simp [sampler, read]
  case isFalse => cases updated

/-! ### What holds in every run -/

section Runs

variable {now next : PhcCaches associativity} {label : (Nat × Nat) × SetLabel}

theorem phcCaches_step (stepped : (phcCaches associativity).step now label = .ok next) :
    ∃ set, (PhcSet.load (now.sets label.1) now.state).step label.1.2 label.2 = .ok set ∧
      next.sets = Function.update now.sets label.1 set ∧ next.state = set.set.fields.state := by
  cases result : (PhcSet.load (now.sets label.1) now.state).step label.1.2 label.2 with
  | error reason => simp [phcCaches, result, bind, Except.bind] at stepped
  | ok set =>
    simp only [phcCaches, result] at stepped
    cases stepped
    exact ⟨set, rfl, rfl, rfl⟩

theorem PhcSet.step_state {before after : PhcSet associativity} {setIndex : Nat} {label : SetLabel}
    (stepped : before.step setIndex label = .ok after) :
    after.set.fields.state = before.set.fields.state ∨
      ∃ (index : Nat) (eip : Nat), after.set.fields.state = (Phc.train before.set.fields index eip).state := by
  obtain ⟨tag, call, index, _, inserts⟩ | ⟨way, hits⟩ | quiet := TrackedSet.step_cases stepped
  · obtain ⟨_, _, trains, trainsNot⟩ := phc_replaced inserts.replaced
    cases sampler : Phc.isSampler setIndex with
    | true => exact .inr ⟨index, call.eip, (trains sampler).2.2⟩
    | false => exact .inl (trainsNot sampler)
  · exact .inl (phc_updated hits.updated).2.2.1
  · exact .inl (congrArg Phc.state quiet.fields)

theorem Phc.train_state_le {eip : Nat} (bounded : ∀ entry, fields.state entry ≤ 3) (entry : Nat) :
    (fields.train index eip).state entry ≤ 3 := by
  have own := bounded (fields.ti index)
  have other := bounded entry
  simp only [Phc.train]
  split
  · rw [Function.update_apply]
    split <;> omega
  · split
    · rw [Function.update_apply]
      split <;> omega
    · exact other

theorem phcCaches_state_le (reached : (phcCaches associativity).Reachable now) (entry : Nat) : now.state entry ≤ 3 := by
  refine reached.invariant (fun now => ∀ entry, now.state entry ≤ 3) ?_ ?_ entry
  · intro start starts entry
    rw [starts.2]
    exact Nat.zero_le 3
  · intro before label after holds _ stepped entry
    obtain ⟨set, stepped, _, state⟩ := phcCaches_step stepped
    rw [state]
    obtain same | ⟨index, eip, trained⟩ := PhcSet.step_state stepped
    · exact same ▸ holds entry
    · exact trained ▸ Phc.train_state_le holds entry

end Runs

end Sniper.Replacement

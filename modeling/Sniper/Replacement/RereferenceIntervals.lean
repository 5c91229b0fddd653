import Sniper.Replacement.Search
import Mathlib.Data.Finset.Card
import Mathlib.Data.Nat.ModEq

/-! The search of `CacheSetSRRIP` for a way, in which a rejected block costs one turn. -/

namespace Sniper.Replacement

namespace Srrip

variable {associativity rripMax numAttempts : Nat} {inLower : Nat → Bool} {fields after : Srrip}

/-! ### The search up to the choice -/

section Search

variable (associativity rripMax numAttempts) (isInLowerLevelCache : Nat → Bool)

/-- The inner loop: the fields where it stops, and whether it stops because it chooses the way at the pointer. -/
def search : (turns : Nat) → Srrip → Srrip × Bool
  | 0, fields => (fields, false)
  | turns + 1, fields =>
    let index := fields.replacementPointer
    if rripMax ≤ fields.rripBits index then
      if fields.attempt + 1 < numAttempts ∧ isInLowerLevelCache index then
        search turns { fields with rripBits := Function.update fields.rripBits index 0, attempt := fields.attempt + 1 }
      else (fields, true)
    else search turns { fields with replacementPointer := advance associativity index }

/-- The fields where the outer loop chooses the way at the pointer. -/
def searchRounds : (left : Nat) → Srrip → Option Srrip
  | 0, _ => none
  | left + 1, fields =>
    match search associativity rripMax numAttempts isInLowerLevelCache associativity fields with
    | (chosen, true) => some chosen
    | (after, false) => searchRounds left (age associativity rripMax after)

/-- The way at the pointer is chosen. -/
def take (fields : Srrip) : Srrip :=
  { fields with
    rripBits := Function.update fields.rripBits fields.replacementPointer (rripInsert rripMax)
    replacementPointer := advance associativity fields.replacementPointer }

theorem scan_search (turns : Nat) (fields : Srrip) :
    scan associativity rripMax numAttempts isInLowerLevelCache turns fields =
      match search associativity rripMax numAttempts isInLowerLevelCache turns fields with
      | (chosen, true) => (take associativity rripMax chosen, some chosen.replacementPointer)
      | (after, false) => (after, none) := by
  induction turns generalizing fields with
  | zero => rfl
  | succ turns ih =>
    rw [scan, search]
    simp only [ih]
    split
    · split <;> rfl
    · rfl

theorem rounds_search (left : Nat) (fields : Srrip) :
    rounds associativity rripMax numAttempts isInLowerLevelCache left fields =
      (searchRounds associativity rripMax numAttempts isInLowerLevelCache left fields).map fun chosen =>
        (take associativity rripMax chosen, chosen.replacementPointer) := by
  induction left generalizing fields with
  | zero => rfl
  | succ left ih =>
    rw [rounds, searchRounds, scan_search]
    cases stopped : search associativity rripMax numAttempts isInLowerLevelCache associativity fields with
    | mk after chooses =>
      cases chooses with
      | true => rfl
      | false => exact ih (age associativity rripMax after)

end Search

theorem search_stops {turns : Nat}
    (stopped : search associativity rripMax numAttempts inLower turns fields = (after, true)) :
    rripMax ≤ after.rripBits after.replacementPointer := by
  induction turns generalizing fields with
  | zero => cases stopped
  | succ turns ih =>
    rw [search] at stopped
    split at stopped
    case isTrue top =>
      split at stopped
      · exact ih stopped
      · cases stopped
        exact top
    case isFalse => exact ih stopped

theorem searchRounds_invariant (invariant : Srrip → Prop)
    (passes : ∀ fields, invariant fields →
      invariant { fields with replacementPointer := advance associativity fields.replacementPointer })
    (rejects : ∀ fields, invariant fields →
      invariant { fields with
        rripBits := Function.update fields.rripBits fields.replacementPointer 0, attempt := fields.attempt + 1 })
    (ages : ∀ fields, invariant fields → invariant (age associativity rripMax fields))
    {left : Nat} {chosen : Srrip} (starts : invariant fields)
    (found : searchRounds associativity rripMax numAttempts inLower left fields = some chosen) :
    invariant chosen ∧ rripMax ≤ chosen.rripBits chosen.replacementPointer := by
  have searched : ∀ turns fields, invariant fields →
      invariant (search associativity rripMax numAttempts inLower turns fields).1 := by
    intro turns
    induction turns with
    | zero => exact fun fields holds => holds
    | succ turns ih =>
      intro fields holds
      rw [search]
      split
      case isTrue =>
        split
        case isTrue => exact ih _ (rejects fields holds)
        case isFalse => exact holds
      case isFalse => exact ih _ (passes fields holds)
  induction left generalizing fields with
  | zero => cases found
  | succ left ih =>
    rw [searchRounds] at found
    have holds := searched associativity fields starts
    cases stopped : search associativity rripMax numAttempts inLower associativity fields with
    | mk after chooses =>
      rw [stopped] at found holds
      cases chooses with
      | true =>
        cases found
        exact ⟨holds, search_stops stopped⟩
      | false => exact ih (ages after holds) found

/-! ### Low counters -/

def lowCount (associativity bound : Nat) (bits : Nat → Nat) : Nat :=
  ((Finset.range associativity).filter fun way => bits way < bound).card

theorem lowCount_zero (bits : Nat → Nat) : lowCount associativity 0 bits = 0 := by
  simp [lowCount]

theorem lowCount_update (bound way : Nat) (bits : Nat → Nat) :
    lowCount associativity bound (Function.update bits way 0) ≤ lowCount associativity bound bits + 1 := by
  refine le_trans (Finset.card_le_card ?_) (Finset.card_insert_le way _)
  intro other member
  rw [Finset.mem_filter] at member
  rw [Finset.mem_insert, Finset.mem_filter]
  by_cases same : other = way
  · exact .inl same
  · rw [Function.update_of_ne same] at member
    exact .inr member

theorem lowCount_age {bound : Nat} (less : bound < rripMax) :
    lowCount associativity (bound + 1) (age associativity rripMax fields).rripBits =
      lowCount associativity bound fields.rripBits := by
  unfold lowCount
  congr 1
  refine Finset.filter_congr fun way member => ?_
  have small := Finset.mem_range.mp member
  simp only [age, small, true_and]
  split <;> omega

theorem passes_le_lowCount {bits : Nat → Nat} {pointer passes bound : Nat} (positive : 0 < associativity)
    (round : passes ≤ associativity) (low : ∀ i < passes, bits ((pointer + i) % associativity) < bound) :
    passes ≤ lowCount associativity bound bits := by
  have counted : (Finset.range passes).card ≤ lowCount associativity bound bits := by
    refine Finset.card_le_card_of_injOn (fun i => (pointer + i) % associativity) ?_ ?_
    · intro i member
      have less := Finset.mem_range.mp (Finset.mem_coe.mp member)
      exact Finset.mem_coe.mpr (Finset.mem_filter.mpr ⟨Finset.mem_range.mpr (Nat.mod_lt _ positive), low i less⟩)
    · intro i first j second same
      have firstLess := Finset.mem_range.mp (Finset.mem_coe.mp first)
      have secondLess := Finset.mem_range.mp (Finset.mem_coe.mp second)
      have congruent : i ≡ j [MOD associativity] := Nat.ModEq.add_left_cancel' pointer same
      exact congruent.eq_of_lt_of_lt (by omega) (by omega)
  rwa [Finset.card_range] at counted

/-! ### Rounds that choose no way -/

/-- What an inner loop leaves that passes over some ways, rejects some and chooses none. -/
structure Fails (associativity rripMax numAttempts turns passes rejections : Nat) (fields after : Srrip) : Prop where
  spent : turns = passes + rejections
  attempt : after.attempt = fields.attempt + rejections
  bounded : fields.attempt ≤ numAttempts - 1 → after.attempt ≤ numAttempts - 1
  pointer : fields.replacementPointer < associativity → after.replacementPointer < associativity
  passed : fields.replacementPointer < associativity →
    ∀ i < passes, after.rripBits ((fields.replacementPointer + i) % associativity) < rripMax
  falls : ∀ way, after.rripBits way ≤ fields.rripBits way
  low : ∀ bound, lowCount associativity bound after.rripBits ≤ lowCount associativity bound fields.rripBits + rejections
  same : rejections = 0 → after.rripBits = fields.rripBits

theorem advance_eq (fits : associativity ≤ 256) (positive : 0 < associativity) (pointer : Nat) :
    advance associativity pointer = (pointer + 1) % associativity :=
  Nat.mod_eq_of_lt ((Nat.mod_lt _ positive).trans_le fits)

theorem search_fails {turns : Nat} (positive : 0 < associativity) (fits : associativity ≤ 256)
    (failed : search associativity rripMax numAttempts inLower turns fields = (after, false)) :
    ∃ passes rejections, Fails associativity rripMax numAttempts turns passes rejections fields after := by
  induction turns generalizing fields with
  | zero =>
    cases failed
    exact ⟨0, 0, rfl, rfl, id, id, fun _ i less => absurd less (Nat.not_lt_zero i), fun _ => Nat.le.refl,
      fun _ => Nat.le.refl, fun _ => rfl⟩
  | succ turns ih =>
    rw [search] at failed
    split at failed
    case isTrue top =>
      split at failed
      case isTrue rejected =>
        obtain ⟨passes, rejections, fails⟩ := ih failed
        refine ⟨passes, rejections + 1, ?_, ?_, ?_, fails.pointer, fails.passed, ?_, ?_, ?_⟩
        · rw [fails.spent]
          rfl
        · rw [fails.attempt]
          exact Nat.add_right_comm _ _ _
        · intro _
          exact fails.bounded (Nat.le_sub_one_of_lt rejected.1)
        · intro way
          refine (fails.falls way).trans ?_
          by_cases same : way = fields.replacementPointer
          · subst same
            simp
          · simp [Function.update_of_ne same]
        · intro bound
          refine (fails.low bound).trans ?_
          rw [Nat.add_comm rejections, ← Nat.add_assoc]
          exact Nat.add_le_add_right (lowCount_update bound fields.replacementPointer fields.rripBits) rejections
        · intro none_
          cases none_
      case isFalse => cases failed
    case isFalse below =>
      obtain ⟨passes, rejections, fails⟩ := ih failed
      refine ⟨passes + 1, rejections, ?_, fails.attempt, fails.bounded, ?_, ?_, fails.falls, fails.low, fails.same⟩
      · rw [fails.spent]
        exact Nat.add_right_comm _ _ _
      · intro _
        exact fails.pointer (advance_lt positive)
      · intro inside i less
        cases i with
        | zero =>
          rw [Nat.add_zero, Nat.mod_eq_of_lt inside]
          exact (fails.falls _).trans_lt (Nat.lt_of_not_le below)
        | succ i =>
          have later := fails.passed (advance_lt positive) i (Nat.lt_of_succ_lt_succ less)
          rw [advance_eq fits positive, Nat.mod_add_mod, Nat.add_right_comm] at later
          exact later

/-- What holds before a round in which a way is still to be chosen.  A way whose counter has not grown with the rounds was
rejected after the first one. -/
structure Searching (associativity rripMax numAttempts : Nat) (bits : Nat → Nat) (round : Nat) (fields : Srrip) : Prop where
  pointer : fields.replacementPointer < associativity
  bounded : fields.attempt ≤ numAttempts - 1
  low : lowCount associativity round fields.rripBits ≤ fields.attempt
  ages : fields.attempt = 0 → ∀ way < associativity, fields.rripBits way = bits way + round ∧ bits way + round ≤ rripMax

section Rounds

variable {bits : Nat → Nat} {round passes rejections : Nat}

theorem Searching.next (searching : Searching associativity rripMax numAttempts bits round fields) (less : round < rripMax)
    (fails : Fails associativity rripMax numAttempts associativity passes rejections fields after) :
    Searching associativity rripMax numAttempts bits (round + 1) (age associativity rripMax after) := by
  refine ⟨fails.pointer searching.pointer, fails.bounded searching.bounded, ?_, ?_⟩
  · rw [lowCount_age less]
    have counted := fails.low round
    have before := searching.low
    have attempts := fails.attempt
    exact counted.trans (show _ ≤ after.attempt by omega)
  · intro none_ way small
    have none_ : after.attempt = 0 := none_
    have attempts := fails.attempt
    have noRejection : rejections = 0 := by omega
    obtain ⟨grown, _⟩ := searching.ages (by omega) way small
    have kept := congrFun (fails.same noRejection) way
    -- All ways were passed over, so their counters are still below the maximum.
    have below : after.rripBits way < rripMax := by
      have inside := searching.pointer
      have visited := fails.passed inside ((way + associativity - fields.replacementPointer) % associativity) (by
        have spent := fails.spent
        have some_ := Nat.mod_lt (way + associativity - fields.replacementPointer) (Nat.zero_lt_of_lt small)
        omega)
      rw [pointer_arrives inside small] at visited
      exact visited
    simp only [age, small, below, and_self, if_true]
    omega

theorem Searching.last (positive : 0 < associativity)
    (searching : Searching associativity rripMax numAttempts bits rripMax fields)
    (fails : Fails associativity rripMax numAttempts associativity passes rejections fields after) :
    associativity + fields.attempt ≤ 2 * (numAttempts - 1) := by
  have spent := fails.spent
  have passed := passes_le_lowCount positive (by omega) (fails.passed searching.pointer)
  have counted := fails.low rripMax
  have before := searching.low
  have attempts := fails.attempt
  have bounded := fails.bounded searching.bounded
  omega

theorem searchRounds_none {left : Nat} (positive : 0 < associativity) (fits : associativity ≤ 256)
    (searching : Searching associativity rripMax numAttempts bits round fields) (ends : round + left = rripMax)
    (failed : searchRounds associativity rripMax numAttempts inLower (left + 1) fields = none) :
    associativity ≤ 2 * (numAttempts - 1) ∧
      (associativity = 2 * (numAttempts - 1) → ∀ way < associativity, bits way = 0) := by
  induction left generalizing fields round with
  | zero =>
    rw [searchRounds] at failed
    cases stopped : search associativity rripMax numAttempts inLower associativity fields with
    | mk after chooses =>
      rw [stopped] at failed
      cases chooses with
      | true => cases failed
      | false =>
        obtain ⟨passes, rejections, fails⟩ := search_fails positive fits stopped
        have isLast : round = rripMax := ends
        subst isLast
        have half := searching.last positive fails
        refine ⟨by omega, fun tight way small => ?_⟩
        have grown := (searching.ages (by omega) way small).2
        omega
  | succ left ih =>
    rw [searchRounds] at failed
    cases stopped : search associativity rripMax numAttempts inLower associativity fields with
    | mk after chooses =>
      rw [stopped] at failed
      cases chooses with
      | true => cases failed
      | false =>
        obtain ⟨passes, rejections, fails⟩ := search_fails positive fits stopped
        exact ih (searching.next (by omega) fails) (by omega) failed

end Rounds

end Srrip

end Sniper.Replacement

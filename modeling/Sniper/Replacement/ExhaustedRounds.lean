import Sniper.Replacement.RejectedAttempts

/-! Runs of `CacheSetSRRIP` whose last call runs out of rounds. -/

namespace Sniper.Replacement

namespace Srrip

variable {associativity : Nat} (rripMax numAttempts : Nat) (inLower : Nat → Bool) (fields : Srrip)

/-! ### Turns of the inner loop -/

theorem search_skips (passes turns : Nat) (fits : associativity ≤ 256) (inside : fields.replacementPointer < associativity)
    (low : ∀ i < passes, fields.rripBits ((fields.replacementPointer + i) % associativity) < rripMax) :
    search associativity rripMax numAttempts inLower (passes + turns) fields =
      search associativity rripMax numAttempts inLower turns
        { fields with replacementPointer := (fields.replacementPointer + passes) % associativity } := by
  have positive : 0 < associativity := Nat.zero_lt_of_lt inside
  induction passes generalizing fields with
  | zero => rw [Nat.zero_add, Nat.add_zero, Nat.mod_eq_of_lt inside]
  | succ passes ih =>
    have first := low 0 (Nat.succ_pos _)
    rw [Nat.add_zero, Nat.mod_eq_of_lt inside] at first
    rw [Nat.add_right_comm, search]
    simp only [Nat.not_le.mpr first, if_false]
    rw [ih _ (advance_lt positive)]
    · simp only [advance_eq fits positive, Nat.mod_add_mod, Nat.add_assoc, Nat.add_comm 1]
    · intro i less
      have later := low (i + 1) (Nat.succ_lt_succ less)
      simpa only [advance_eq fits positive, Nat.mod_add_mod, Nat.add_assoc, Nat.add_comm 1] using later

theorem search_rejects (count turns : Nat) (fits : associativity ≤ 256) (some_ : 0 < rripMax)
    (start : fields.replacementPointer < associativity) (inside : fields.replacementPointer + count ≤ associativity)
    (top : ∀ way, fields.replacementPointer ≤ way → way < fields.replacementPointer + count →
      rripMax ≤ fields.rripBits way ∧ inLower way = true)
    (remaining : count = 0 ∨ fields.attempt + count < numAttempts) :
    ∃ after, search associativity rripMax numAttempts inLower (2 * count + turns) fields =
        search associativity rripMax numAttempts inLower turns after ∧
      after.replacementPointer = (fields.replacementPointer + count) % associativity ∧
      after.attempt = fields.attempt + count ∧
      ∀ way, after.rripBits way =
        if fields.replacementPointer ≤ way ∧ way < fields.replacementPointer + count then 0 else fields.rripBits way := by
  induction count generalizing turns with
  | zero =>
    refine ⟨fields, by rw [Nat.mul_zero, Nat.zero_add], (Nat.mod_eq_of_lt start).symm, rfl, fun way => ?_⟩
    rw [if_neg (by omega)]
  | succ count ih =>
    obtain ⟨before, searched, pointer, attempt, bits⟩ := ih (turns + 2) (by omega)
      (fun way above below => top way above (by omega)) (by omega)
    have isWay : fields.replacementPointer + count < associativity := by omega
    rw [Nat.mod_eq_of_lt isWay] at pointer
    obtain ⟨high, rejected⟩ := top (fields.replacementPointer + count) (Nat.le_add_right _ _) (by omega)
    have unchanged := bits (fields.replacementPointer + count)
    rw [if_neg (by omega)] at unchanged
    let zeroed : Srrip := ⟨Function.update before.rripBits before.replacementPointer 0, before.replacementPointer,
      before.attempt + 1⟩
    have rejects : search associativity rripMax numAttempts inLower (turns + 2) before =
        search associativity rripMax numAttempts inLower (turns + 1) zeroed := by
      have again : before.attempt + 1 < numAttempts ∧ inLower before.replacementPointer = true := by
        rw [pointer]
        exact ⟨by omega, rejected⟩
      have reaches : rripMax ≤ before.rripBits before.replacementPointer := by
        rw [pointer, unchanged]
        exact high
      rw [search]
      simp only [reaches, again, and_self, if_true]
      rfl
    have passes : search associativity rripMax numAttempts inLower (turns + 1) zeroed =
        search associativity rripMax numAttempts inLower turns
          { zeroed with replacementPointer := advance associativity before.replacementPointer } := by
      have low : ¬rripMax ≤ zeroed.rripBits zeroed.replacementPointer := by
        show ¬rripMax ≤ Function.update before.rripBits before.replacementPointer 0 before.replacementPointer
        rw [Function.update_self]
        omega
      rw [search]
      simp only [low, if_false]
      rfl
    refine ⟨{ zeroed with replacementPointer := advance associativity before.replacementPointer }, ?_, ?_, ?_, ?_⟩
    · rw [show 2 * (count + 1) + turns = 2 * count + (turns + 2) by omega, searched, rejects, passes]
    · rw [← Nat.add_assoc, ← pointer]
      exact advance_eq fits (Nat.zero_lt_of_lt start) _
    · show before.attempt + 1 = fields.attempt + (count + 1)
      omega
    · intro way
      show Function.update before.rripBits before.replacementPointer 0 way = _
      by_cases same : way = before.replacementPointer
      · subst same
        rw [Function.update_self, if_pos (by omega)]
      · rw [Function.update_of_ne same, bits way]
        split_ifs <;> omega

theorem search_reaches {way : Nat} (distance turns : Nat) (fits : associativity ≤ 256)
    (inside : fields.replacementPointer < associativity) (near : distance < associativity) (arrives : (fields.replacementPointer + distance) % associativity = way)
    (low : ∀ other < associativity, other ≠ way → fields.rripBits other < rripMax) :
    search associativity rripMax numAttempts inLower (distance + turns) fields =
      search associativity rripMax numAttempts inLower turns { fields with replacementPointer := way } := by
  subst arrives
  refine search_skips _ _ _ _ _ _ fits inside fun i less => low _ (Nat.mod_lt _ (Nat.zero_lt_of_lt inside)) ?_
  intro same
  have congruent : i ≡ distance [MOD associativity] := Nat.ModEq.add_left_cancel' _ same
  have equal := congruent.eq_of_lt_of_lt (less.trans near) near
  omega

variable {rripMax numAttempts inLower fields}

theorem search_takes {turns : Nat} (top : rripMax ≤ fields.rripBits fields.replacementPointer)
    (accepted : inLower fields.replacementPointer = false) :
    search associativity rripMax numAttempts inLower (turns + 1) fields = (fields, true) := by
  rw [search]
  simp [top, accepted]

theorem search_exhausts {turns : Nat} (some_ : 0 < rripMax) (rejects : ∀ way, inLower way = true)
    (few : turns ≤ 2 * (numAttempts - 1 - fields.attempt)) :
    (search associativity rripMax numAttempts inLower turns fields).2 = false := by
  induction turns using Nat.strong_induction_on generalizing fields with
  | h turns ih =>
    cases turns with
    | zero => rfl
    | succ turns =>
      rw [search]
      by_cases top : rripMax ≤ fields.rripBits fields.replacementPointer
      · have again : fields.attempt + 1 < numAttempts ∧ inLower fields.replacementPointer = true :=
          ⟨by omega, rejects _⟩
        simp only [top, again, and_self, if_true]
        cases turns with
        | zero => rfl
        | succ turns =>
          rw [search]
          have low : ¬rripMax ≤ 0 := by omega
          simp only [Function.update_self, low, if_false]
          exact ih turns (by omega) (show turns ≤ 2 * (numAttempts - 1 - (fields.attempt + 1)) by omega)
      · simp only [top, if_false]
        exact ih turns (Nat.lt_succ_self _) (show turns ≤ 2 * (numAttempts - 1 - fields.attempt) by omega)

/-! ### Rounds -/

theorem searchRounds_fails {left : Nat} {after : Srrip}
    (failed : search associativity rripMax numAttempts inLower associativity fields = (after, false)) :
    searchRounds associativity rripMax numAttempts inLower (left + 1) fields =
      searchRounds associativity rripMax numAttempts inLower left (age associativity rripMax after) := by
  rw [searchRounds, failed]

theorem searchRounds_takes {left : Nat} {chosen : Srrip} (more : 0 < left)
    (found : search associativity rripMax numAttempts inLower associativity fields = (chosen, true)) :
    searchRounds associativity rripMax numAttempts inLower left fields = some chosen := by
  cases left with
  | zero => cases more
  | succ left => rw [searchRounds, found]

theorem searchRounds_exhausts (failed : (search associativity rripMax numAttempts inLower associativity fields).2 = false) :
    searchRounds associativity rripMax numAttempts inLower 1 fields = none := by
  cases stopped : search associativity rripMax numAttempts inLower associativity fields with
  | mk after chooses =>
    rw [stopped] at failed
    subst failed
    exact searchRounds_fails stopped

theorem age_grows {way : Nat} (small : way < associativity) (low : fields.rripBits way < rripMax) :
    (age associativity rripMax fields).rripBits way = fields.rripBits way + 1 :=
  if_pos ⟨small, low⟩

theorem searchRounds_skips (rripMax numAttempts : Nat) (inLower : Nat → Bool) (fields : Srrip) (rounds left : Nat) (fits : associativity ≤ 256)
    (inside : fields.replacementPointer < associativity) (low : ∀ way < associativity, fields.rripBits way + rounds ≤ rripMax) :
    ∃ after, searchRounds associativity rripMax numAttempts inLower (rounds + left) fields =
        searchRounds associativity rripMax numAttempts inLower left after ∧
      after.replacementPointer = fields.replacementPointer ∧ after.attempt = fields.attempt ∧
      ∀ way < associativity, after.rripBits way = fields.rripBits way + rounds := by
  induction rounds generalizing fields with
  | zero => exact ⟨fields, by rw [Nat.zero_add], rfl, rfl, fun _ _ => rfl⟩
  | succ rounds ih =>
    have positive : 0 < associativity := Nat.zero_lt_of_lt inside
    have below : ∀ way < associativity, fields.rripBits way < rripMax := by
      intro way small
      have bound := low way small
      omega
    have skipped : search associativity rripMax numAttempts inLower associativity fields = (fields, false) := by
      have passed := search_skips rripMax numAttempts inLower fields associativity 0 fits inside fun i _ =>
        below _ (Nat.mod_lt _ positive)
      rw [Nat.add_zero, Nat.add_mod_right, Nat.mod_eq_of_lt inside] at passed
      exact passed
    obtain ⟨after, searched, pointer, attempt, bits⟩ := ih (age associativity rripMax fields) inside (by
      intro way small
      have bound := low way small
      rw [age_grows small (below way small)]
      omega)
    refine ⟨after, ?_, pointer, attempt, fun way small => ?_⟩
    · rw [Nat.add_right_comm, searchRounds_fails skipped, searched]
    · rw [bits way small, age_grows small (below way small)]
      omega

end Srrip

open Srrip

section Runs

variable {associativity rripMax numAttempts : Nat} {fields : Srrip}

/-- The first lines of a set are there. -/
def filled (count : Nat) : Contents := fun way => if way < count then some .shared else none

theorem filled_valid {way count : Nat} (small : way < count) :
    (filled count way).isSome ∧ isValidReplacement (filled count) way = true := by
  simp [filled, isValidReplacement, small]

theorem filled_full : firstInvalid associativity (filled associativity) = none :=
  firstInvalid_eq_none fun _ small => (filled_valid small).1

/-! ### States that runs reach -/

theorem srrip_filled (associativity rripMax numAttempts : Nat) :
    (CacheSetSRRIP associativity rripMax numAttempts).machine.Reachable
      (filled associativity, Srrip.mk (fun _ => rripInsert rripMax) 0 0) := by
  have fills : ∀ count ≤ associativity, (CacheSetSRRIP associativity rripMax numAttempts).machine.Reachable
      (filled count, Srrip.mk (fun _ => rripInsert rripMax) 0 0) := by
    intro count
    induction count with
    | zero => exact fun _ => Policy.reachable_start rfl
    | succ count ih =>
      intro small
      have next : firstInvalid associativity (filled count) = some count := by
        refine firstInvalid_eq_some small (by simp [filled]) fun way less => ?_
        exact (filled_valid less).1
      have inserted : Function.update (filled count) count (some .shared) = filled (count + 1) := by
        funext way
        by_cases same : way = count
        · subst same
          simp [filled]
        · rw [Function.update_of_ne same]
          simp only [filled, show way < count + 1 ↔ way < count by omega]
      have stepped : (CacheSetSRRIP associativity rripMax numAttempts).step
          (filled count, Srrip.mk (fun _ => rripInsert rripMax) 0 0) (.insert plainCall .shared) =
            .ok (filled (count + 1), Srrip.mk (fun _ => rripInsert rripMax) 0 0) := by
        simp [Policy.step, CacheSetSRRIP, next, inserted, bind, Except.bind]
      exact .step (.insert plainCall .shared) (ih (by omega)) trivial stepped
  exact fills associativity Nat.le.refl

theorem srrip_accessed {way : Nat} (small : way < associativity) (low : fields.rripBits way < associativity)
    (reached : (CacheSetSRRIP associativity rripMax numAttempts).machine.Reachable (filled associativity, fields)) :
    (CacheSetSRRIP associativity rripMax numAttempts).machine.Reachable
      (filled associativity, { fields with rripBits := Function.update fields.rripBits way 0 }) := by
  obtain ⟨level, isLevel⟩ : ∃ level, fields.rripBits way = level := ⟨_, rfl⟩
  induction level generalizing fields with
  | zero =>
    rw [← isLevel, Function.update_eq_self]
    exact reached
  | succ level ih =>
    let after : Srrip := { fields with rripBits := Function.update fields.rripBits way level }
    have stepped : (CacheSetSRRIP associativity rripMax numAttempts).step (filled associativity, fields) (.access way 0 0) =
        .ok (filled associativity, after) := by
      have isThere : way < (CacheSetSRRIP associativity rripMax numAttempts).associativity ∧ (filled associativity way).isSome :=
        ⟨small, (filled_valid small).1⟩
      simp only [Policy.step, isThere, and_self, if_true]
      simp [CacheSetSRRIP, increment, isLevel ▸ low, isLevel, bind, Except.bind, after]
    have bits : after.rripBits way = level := Function.update_self _ _ _
    have final := ih (show after.rripBits way < associativity by omega) (.step (.access way 0 0) reached trivial stepped) bits
    simpa only [after, Function.update_idem] using final

theorem srrip_lowered (kept : Nat) (low : ∀ way < associativity, way ≠ kept → fields.rripBits way < associativity)
    (reached : (CacheSetSRRIP associativity rripMax numAttempts).machine.Reachable (filled associativity, fields)) :
    ∃ bits : Nat → Nat, (CacheSetSRRIP associativity rripMax numAttempts).machine.Reachable
        (filled associativity, { fields with rripBits := bits }) ∧
      (∀ way < associativity, way ≠ kept → bits way = 0) ∧ bits kept = fields.rripBits kept := by
  have lowers : ∀ count ≤ associativity, ∃ bits : Nat → Nat,
      (CacheSetSRRIP associativity rripMax numAttempts).machine.Reachable
        (filled associativity, { fields with rripBits := bits }) ∧
      ∀ way, bits way = if way < count ∧ way ≠ kept then 0 else fields.rripBits way := by
    intro count
    induction count with
    | zero => exact fun _ => ⟨fields.rripBits, reached, fun way => by rw [if_neg (by omega)]⟩
    | succ count ih =>
      intro small
      obtain ⟨bits, before, lowered⟩ := ih (by omega)
      by_cases same : count = kept
      · refine ⟨bits, before, fun way => ?_⟩
        rw [lowered way]
        split_ifs <;> omega
      · have unchanged := lowered count
        rw [if_neg (by omega)] at unchanged
        have isLow := low count small same
        refine ⟨Function.update bits count 0, srrip_accessed small (unchanged.trans_lt isLow) before, fun way => ?_⟩
        by_cases isCount : way = count
        · subst isCount
          rw [Function.update_self, if_pos ⟨Nat.lt_succ_self _, same⟩]
        · rw [Function.update_of_ne isCount, lowered way]
          split_ifs <;> omega
  obtain ⟨bits, final, lowered⟩ := lowers associativity Nat.le.refl
  refine ⟨bits, final, ?_, ?_⟩
  · intro way small apart
    rw [lowered way, if_pos ⟨small, apart⟩]
  · rw [lowered kept, if_neg (by simp)]

theorem srrip_inserted {call : Call} {chosen : Srrip} (inside : chosen.replacementPointer < associativity)
    (found : srripSearch associativity rripMax numAttempts call fields = some chosen)
    (reached : (CacheSetSRRIP associativity rripMax numAttempts).machine.Reachable (filled associativity, fields)) :
    (CacheSetSRRIP associativity rripMax numAttempts).machine.Reachable
      (filled associativity, take associativity rripMax chosen) := by
  have returned := srrip_full filled_full found (filled_valid inside).2
  have same : Function.update (filled associativity) chosen.replacementPointer (some .shared) = filled associativity := by
    rw [Function.update_eq_self_iff]
    simp [filled, inside]
  have stepped : (CacheSetSRRIP associativity rripMax numAttempts).step (filled associativity, fields) (.insert call .shared) =
      .ok (filled associativity, take associativity rripMax chosen) := by
    simp [Policy.step, returned, same, bind, Except.bind]
  exact .step (.insert call .shared) reached trivial stepped

/-! ### Runs that run out of rounds -/

def rejectingCall : Call := { plainCall with isInLowerLevelCache := fun _ => true }

theorem not_srripReturns {contents : Contents} (call : Call)
    (reached : (CacheSetSRRIP associativity rripMax numAttempts).machine.Reachable (contents, fields))
    (full : ∀ way < associativity, (contents way).isSome ∧ isValidReplacement contents way = true)
    (failed : srripSearch associativity rripMax numAttempts call fields = none) :
    ¬SrripReturns associativity rripMax numAttempts := by
  intro returns
  obtain ⟨chosen, found, _⟩ := (returns contents fields reached).2 full call
  cases failed.symm.trans found

/-- With few counter values all counters can be 0.  They are at the maximum in the last round only, and half of its turns
are attempts. -/
theorem srrip_exhausted_low (positive : 0 < associativity) (fits : associativity ≤ 256) (some_ : 0 < rripMax)
    (byte : rripMax < 256) (small : rripMax ≤ associativity) (many : associativity ≤ 2 * (numAttempts - 1)) :
    ¬SrripReturns associativity rripMax numAttempts := by
  have inserted := rripInsert_eq some_ byte
  obtain ⟨bits, reached, zero, _⟩ := srrip_lowered associativity (fun way isWay _ => by
    show rripInsert rripMax < associativity
    omega) (srrip_filled associativity rripMax numAttempts)
  refine not_srripReturns rejectingCall reached (fun way isWay => filled_valid isWay) ?_
  obtain ⟨last, searched, _, attempt, _⟩ := searchRounds_skips rripMax numAttempts
    rejectingCall.isInLowerLevelCache ⟨bits, 0, 0⟩ rripMax 1 fits positive (by
      intro way isWay
      have low := zero way isWay (by omega)
      show bits way + rripMax ≤ rripMax
      omega)
  refine searched.trans (searchRounds_exhausts (search_exhausts some_ (fun _ => rfl) ?_))
  have attempt : last.attempt = 0 := attempt
  omega

def rejectingBefore (way : Nat) : Call := { plainCall with isInLowerLevelCache := fun other => other < way }

theorem srrip_first_call {way : Nat} (fits : associativity ≤ 256) (byte : rripMax < 256) (large : 1 < rripMax)
    (half : 2 * way < associativity) (attempts : way < numAttempts) :
    ∃ after, (CacheSetSRRIP associativity rripMax numAttempts).machine.Reachable (filled associativity, after) ∧
      after.replacementPointer = advance associativity way ∧ after.rripBits way = rripMax - 1 ∧
      ∀ other < associativity, other ≠ way → after.rripBits other = if other < way then 0 else rripMax := by
  have inserted := rripInsert_eq (Nat.zero_lt_of_lt large) byte
  obtain ⟨first, skipped, pointer, attempt, bits⟩ := searchRounds_skips rripMax numAttempts
    (rejectingBefore way).isInLowerLevelCache ⟨fun _ => rripInsert rripMax, 0, 0⟩ 1 rripMax fits
    (show 0 < associativity by omega) (fun _ _ => show rripInsert rripMax + 1 ≤ rripMax by omega)
  have pointer : first.replacementPointer = 0 := pointer
  have attempt : first.attempt = 0 := attempt
  have top : ∀ other < associativity, first.rripBits other = rripMax := by
    intro other small
    rw [bits other small]
    show rripInsert rripMax + 1 = rripMax
    omega
  obtain ⟨chosen, searched, isWay, _, zeroed⟩ := search_rejects rripMax numAttempts
    (rejectingBefore way).isInLowerLevelCache first way (associativity - 2 * way - 1 + 1) fits (by omega) (by omega) (by omega)
    (by
      intro other _ less
      exact ⟨(top other (by omega)).ge, decide_eq_true (show other < way by omega)⟩)
    (by omega)
  rw [pointer, Nat.zero_add, Nat.mod_eq_of_lt (by omega)] at isWay
  have unchanged : chosen.rripBits way = rripMax := by
    rw [zeroed way, if_neg (by omega)]
    exact top way (by omega)
  have stops : search associativity rripMax numAttempts (rejectingBefore way).isInLowerLevelCache associativity first =
      (chosen, true) := by
    rw [show 2 * way + (associativity - 2 * way - 1 + 1) = associativity by omega] at searched
    refine searched.trans (search_takes ?_ ?_)
    · rw [isWay, unchanged]
    · rw [isWay]
      exact decide_eq_false (Nat.lt_irrefl way)
  have found : srripSearch associativity rripMax numAttempts (rejectingBefore way) ⟨fun _ => rripInsert rripMax, 0, 0⟩ =
      some chosen := by
    rw [Nat.add_comm] at skipped
    exact skipped.trans (searchRounds_takes (Nat.zero_lt_of_lt large) stops)
  refine ⟨_, srrip_inserted (by omega) found (srrip_filled ..), ?_, ?_, ?_⟩
  · show advance associativity chosen.replacementPointer = _
    rw [isWay]
  · show Function.update chosen.rripBits chosen.replacementPointer (rripInsert rripMax) way = _
    rw [isWay, Function.update_self, inserted]
  · intro other small apart
    show Function.update chosen.rripBits chosen.replacementPointer (rripInsert rripMax) other = _
    rw [isWay, Function.update_of_ne apart, zeroed other, top other small]
    split_ifs <;> omega

def rejectingBehind (way : Nat) : Call := { plainCall with isInLowerLevelCache := fun other => way < other }

/-- The first round of the next call rejects all ways behind the one that was taken.  Only that way ages to the maximum. -/
theorem search_rejects_behind {way : Nat} {first : Srrip} (fits : associativity ≤ 256) (large : 1 < rripMax)
    (isWay : way < associativity) (half : associativity ≤ 2 * way + 2) (attempts : associativity - 1 - way < numAttempts)
    (pointer : first.replacementPointer = advance associativity way) (recent : first.rripBits way = rripMax - 1)
    (others : ∀ other < associativity, other ≠ way → first.rripBits other = if other < way then 0 else rripMax) :
    ∃ after, search associativity rripMax numAttempts (rejectingBehind way).isInLowerLevelCache associativity
        { first with attempt := 0 } = (after, false) ∧
      (age associativity rripMax after).replacementPointer < associativity ∧
      ∀ other < associativity, (age associativity rripMax after).rripBits other = if other = way then rripMax else 1 := by
  have positive : 0 < associativity := Nat.zero_lt_of_lt isWay
  have inside : first.replacementPointer < associativity := pointer ▸ advance_lt positive
  have behind : first.replacementPointer = way + 1 ∨ associativity - 1 - way = 0 := by
    by_cases isLast : way + 1 < associativity
    · left
      rw [pointer, advance_eq fits positive, Nat.mod_eq_of_lt isLast]
    · right
      omega
  obtain ⟨rejected, searched, endPointer, _, zeroed⟩ := search_rejects rripMax numAttempts
    (rejectingBehind way).isInLowerLevelCache { first with attempt := 0 }
    (associativity - 1 - way) (associativity - 2 * (associativity - 1 - way) + 0) fits (by omega) inside
    (by
      show first.replacementPointer + (associativity - 1 - way) ≤ associativity
      omega)
    (by
      intro other above below
      have above : first.replacementPointer ≤ other := above
      have below : other < first.replacementPointer + (associativity - 1 - way) := below
      refine ⟨?_, decide_eq_true (show way < other by omega)⟩
      show rripMax ≤ first.rripBits other
      rw [others other (by omega) (by omega), if_neg (by omega)])
    (by
      show associativity - 1 - way = 0 ∨ 0 + (associativity - 1 - way) < numAttempts
      omega)
  have endInside : rejected.replacementPointer < associativity := by
    rw [endPointer]
    exact Nat.mod_lt _ positive
  have bits : ∀ other < associativity, rejected.rripBits other = if other = way then rripMax - 1 else 0 := by
    intro other small
    rw [zeroed other]
    show (if first.replacementPointer ≤ other ∧ other < first.replacementPointer + (associativity - 1 - way) then 0
      else first.rripBits other) = _
    by_cases same : other = way
    · subst same
      rw [if_neg (by omega), if_pos rfl, recent]
    · rw [if_neg same, others other small same]
      split_ifs <;> omega
  have low : ∀ other < associativity, rejected.rripBits other < rripMax := by
    intro other small
    rw [bits other small]
    split <;> omega
  have fails := searched.trans (search_skips _ _ _ _ _ _ fits endInside fun _ _ => low _ (Nat.mod_lt _ positive))
  rw [show 2 * (associativity - 1 - way) + (associativity - 2 * (associativity - 1 - way) + 0) = associativity by omega] at fails
  refine ⟨_, fails, Nat.mod_lt _ positive, fun other small => ?_⟩
  refine (age_grows small (low other small)).trans ?_
  show rejected.rripBits other + 1 = _
  rw [bits other small]
  split <;> omega

/-- A round in which only one way is at the maximum takes it, if the lower levels do not have its block. -/
theorem search_takes_only {way : Nat} {second : Srrip} (fits : associativity ≤ 256) (large : 1 < rripMax)
    (isWay : way < associativity) (inside : second.replacementPointer < associativity) (absent : inLower way = false)
    (bits : ∀ other < associativity, second.rripBits other = if other = way then rripMax else 1) :
    search associativity rripMax numAttempts inLower associativity second = ({ second with replacementPointer := way }, true) := by
  have near := Nat.mod_lt (way + associativity - second.replacementPointer) (Nat.zero_lt_of_lt isWay)
  have reaches := search_reaches rripMax numAttempts inLower second _
    (associativity - (way + associativity - second.replacementPointer) % associativity - 1 + 1) fits inside near
    (pointer_arrives inside isWay) (by
      intro other small apart
      rw [bits other small, if_neg apart]
      exact large)
  rw [show (way + associativity - second.replacementPointer) % associativity +
    (associativity - (way + associativity - second.replacementPointer) % associativity - 1 + 1) = associativity by omega] at reaches
  have top : second.rripBits way = rripMax := (bits way isWay).trans (if_pos rfl)
  exact reaches.trans (search_takes top.ge absent)

/-- The next call rejects the other ways and takes the same way again, after a round in which the pointer comes to it. -/
theorem srrip_second_call {way : Nat} {first : Srrip} (fits : associativity ≤ 256) (byte : rripMax < 256)
    (large : 1 < rripMax) (isWay : way < associativity) (half : associativity ≤ 2 * way + 2)
    (attempts : associativity - 1 - way < numAttempts)
    (reached : (CacheSetSRRIP associativity rripMax numAttempts).machine.Reachable (filled associativity, first))
    (pointer : first.replacementPointer = advance associativity way) (recent : first.rripBits way = rripMax - 1)
    (others : ∀ other < associativity, other ≠ way → first.rripBits other = if other < way then 0 else rripMax) :
    ∃ after, (CacheSetSRRIP associativity rripMax numAttempts).machine.Reachable (filled associativity, after) ∧
      after.replacementPointer = advance associativity way ∧ after.rripBits way = rripMax - 1 ∧
      ∀ other < associativity, other ≠ way → after.rripBits other = 1 := by
  have inserted := rripInsert_eq (Nat.zero_lt_of_lt large) byte
  obtain ⟨rejected, fails, inside, aged⟩ := search_rejects_behind fits large isWay half attempts pointer recent others
  have stops : search associativity rripMax numAttempts (rejectingBehind way).isInLowerLevelCache associativity
      (age associativity rripMax rejected) =
        ({ age associativity rripMax rejected with replacementPointer := way }, true) :=
    search_takes_only fits large isWay inside (decide_eq_false (Nat.lt_irrefl way)) aged
  have found : srripSearch associativity rripMax numAttempts (rejectingBehind way) first = some _ :=
    (searchRounds_fails fails).trans (searchRounds_takes (Nat.zero_lt_of_lt large) stops)
  refine ⟨_, srrip_inserted isWay found reached, rfl, ?_, ?_⟩
  · show Function.update (age associativity rripMax rejected).rripBits way (rripInsert rripMax) way = _
    rw [Function.update_self, inserted]
  · intro other small apart
    show Function.update (age associativity rripMax rejected).rripBits way (rripInsert rripMax) other = _
    rw [Function.update_of_ne apart]
    exact (aged other small).trans (if_neg apart)

theorem srrip_one_high (numAttempts : Nat) (positive : 0 < associativity) (fits : associativity ≤ 256) (byte : rripMax < 256)
    (large : associativity < rripMax) (many : associativity < 2 * (numAttempts - 1)) :
    ∃ way < associativity, ∃ fields : Srrip,
      (CacheSetSRRIP associativity rripMax numAttempts).machine.Reachable (filled associativity, fields) ∧
      fields.replacementPointer = advance associativity way ∧ fields.rripBits way = rripMax - 1 ∧
      ∀ other < associativity, other ≠ way → fields.rripBits other = 0 := by
  let way := (associativity - 1) / 2
  have isWay : way < associativity := by omega
  have attempts : way < numAttempts := by omega
  obtain ⟨first, firstReached, firstPointer, firstWay, firstOthers⟩ :=
    srrip_first_call fits byte (by omega) (show 2 * way < associativity by omega) attempts
  obtain ⟨second, reached, pointer, secondWay, secondOthers⟩ := srrip_second_call fits byte (by omega) isWay (by omega)
    (by omega) firstReached firstPointer firstWay firstOthers
  have low : ∀ other < associativity, other ≠ way → second.rripBits other < associativity := by
    intro other small apart
    rw [secondOthers other small apart]
    omega
  obtain ⟨bits, lowered, zero, kept⟩ := srrip_lowered way low reached
  exact ⟨way, isWay, _, lowered, pointer, kept.trans secondWay, zero⟩

/-- A round in which only the way before the pointer is at the maximum comes to it last, and rejects it. -/
theorem search_rejects_only {way : Nat} {second : Srrip} (fits : associativity ≤ 256) (isWay : way < associativity)
    (large : 1 < rripMax) (some_ : 1 < numAttempts) (pointer : second.replacementPointer = (way + 1) % associativity)
    (attempt : second.attempt = 0) (top : second.rripBits way = rripMax)
    (one : ∀ other < associativity, other ≠ way → second.rripBits other = 1) :
    search associativity rripMax numAttempts rejectingCall.isInLowerLevelCache associativity second =
      (⟨Function.update second.rripBits way 0, way, 1⟩, false) := by
  have positive : 0 < associativity := Nat.zero_lt_of_lt isWay
  have arrives : (second.replacementPointer + (associativity - 1)) % associativity = way := by
    rw [pointer, Nat.mod_add_mod, show way + 1 + (associativity - 1) = way + associativity by omega,
      Nat.add_mod_right, Nat.mod_eq_of_lt isWay]
  have inside : second.replacementPointer < associativity := by
    rw [pointer]
    exact Nat.mod_lt _ positive
  have reaches := search_reaches rripMax numAttempts rejectingCall.isInLowerLevelCache second (associativity - 1) 1 fits
    inside (by omega) arrives (by
      intro other small apart
      rw [one other small apart]
      omega)
  rw [show associativity - 1 + 1 = associativity by omega] at reaches
  refine reaches.trans ?_
  rw [search]
  have again : 0 + 1 < numAttempts ∧ rejectingCall.isInLowerLevelCache way = true := ⟨by omega, rfl⟩
  simp only [top, attempt, again, Nat.le_refl, and_self, if_true]
  rfl

theorem rejected_aged {way : Nat} {bits : Nat → Nat} (large : 2 ≤ rripMax)
    (one : ∀ other < associativity, other ≠ way → bits other = 1) {attempt : Nat} :
    ∀ other < associativity, (age associativity rripMax ⟨Function.update bits way 0, way, attempt⟩).rripBits other =
      if other = way then 1 else 2 := by
  intro other small
  have value : (Srrip.mk (Function.update bits way 0) way attempt).rripBits other = if other = way then 0 else 1 := by
    show Function.update bits way 0 other = _
    by_cases same : other = way
    · rw [same, Function.update_self, if_pos rfl]
    · rw [Function.update_of_ne same, if_neg same, one other small same]
  rw [age_grows small (by rw [value]; split <;> omega), value]
  split <;> rfl

/-- A round in which the way at the pointer is low passes over it, so fewer attempts than ways are left to reject. -/
theorem search_passes_low {last : Srrip} (positive : 0 < associativity) (low : ¬rripMax ≤ last.rripBits last.replacementPointer)
    (few : associativity ≤ 2 * (numAttempts - 1 - last.attempt) + 1) :
    (search associativity rripMax numAttempts rejectingCall.isInLowerLevelCache associativity last).2 = false := by
  obtain ⟨turns, isSucc⟩ := Nat.exists_eq_succ_of_ne_zero positive.ne'
  have passes : search associativity rripMax numAttempts rejectingCall.isInLowerLevelCache (turns + 1) last =
      search associativity rripMax numAttempts rejectingCall.isInLowerLevelCache turns
        { last with replacementPointer := advance associativity last.replacementPointer } := by
    rw [search]
    simp only [low, if_false]
  rw [show associativity = turns + 1 from isSucc] at passes ⊢
  rw [passes]
  refine search_exhausts (Nat.zero_lt_of_lt (Nat.lt_of_not_le low)) (fun _ => rfl) ?_
  show turns ≤ 2 * (numAttempts - 1 - last.attempt)
  omega

theorem srripSearch_one_high {way : Nat} (fits : associativity ≤ 256) (isWay : way < associativity)
    (large : associativity < rripMax) (many : associativity < 2 * (numAttempts - 1))
    (pointer : fields.replacementPointer = advance associativity way) (recent : fields.rripBits way = rripMax - 1)
    (others : ∀ other < associativity, other ≠ way → fields.rripBits other = 0) :
    srripSearch associativity rripMax numAttempts rejectingCall fields = none := by
  have positive : 0 < associativity := Nat.zero_lt_of_lt isWay
  have inside : fields.replacementPointer < associativity := pointer ▸ advance_lt positive
  have low : ∀ other < associativity, fields.rripBits other + 1 ≤ rripMax := by
    intro other small
    by_cases same : other = way
    · rw [same]
      omega
    · rw [others other small same]
      omega
  -- After the first round only this way is at the maximum, and the pointer is behind it.
  obtain ⟨second, skipped, secondPointer, secondAttempt, secondBits⟩ := searchRounds_skips rripMax numAttempts
    rejectingCall.isInLowerLevelCache { fields with attempt := 0 } 1 rripMax fits inside low
  have secondPointer : second.replacementPointer = (way + 1) % associativity :=
    (secondPointer.trans pointer).trans (advance_eq fits positive way)
  have secondAttempt : second.attempt = 0 := secondAttempt
  have top : second.rripBits way = rripMax := by
    rw [secondBits way isWay]
    show fields.rripBits way + 1 = rripMax
    omega
  have one : ∀ other < associativity, other ≠ way → second.rripBits other = 1 := by
    intro other small apart
    rw [secondBits other small]
    show fields.rripBits other + 1 = 1
    rw [others other small apart]
  have rejects : search associativity rripMax numAttempts rejectingCall.isInLowerLevelCache associativity second =
      (⟨Function.update second.rripBits way 0, way, 1⟩, false) :=
    search_rejects_only fits isWay (by omega) (by omega) secondPointer secondAttempt top one
  have aged : ∀ other < associativity,
      (age associativity rripMax ⟨Function.update second.rripBits way 0, way, 1⟩).rripBits other = if other = way then 1 else 2 :=
    rejected_aged (by omega) one
  -- The way is still low in the last round, so one turn passes over it.
  obtain ⟨last, skippedAgain, lastPointer, lastAttempt, lastBits⟩ := searchRounds_skips rripMax numAttempts
    rejectingCall.isInLowerLevelCache (age associativity rripMax ⟨Function.update second.rripBits way 0, way, 1⟩)
    (rripMax - 2) 1 fits isWay (by
      intro other small
      rw [aged other small]
      split <;> omega)
  have lastPointer : last.replacementPointer = way := lastPointer
  have lastAttempt : last.attempt = 1 := lastAttempt
  have lastLow : ¬rripMax ≤ last.rripBits last.replacementPointer := by
    rw [lastPointer, lastBits way isWay, aged way isWay, if_pos rfl]
    omega
  have fails : (search associativity rripMax numAttempts rejectingCall.isInLowerLevelCache associativity last).2 = false :=
    search_passes_low positive lastLow (by rw [lastAttempt]; omega)
  rw [Nat.add_comm] at skipped
  refine skipped.trans ?_
  obtain ⟨rounds, isMax⟩ : ∃ rounds, rripMax = rounds + 2 := ⟨rripMax - 2, by omega⟩
  subst isMax
  exact (searchRounds_fails rejects).trans (skippedAgain.trans (searchRounds_exhausts fails))

theorem srripReturns_iff (positive : 0 < associativity) (fits : associativity ≤ 256) (byte : rripMax < 256) :
    SrripReturns associativity rripMax numAttempts ↔
      rripMax ≠ 0 ∧ (2 * (numAttempts - 1) < associativity ∨
        associativity < rripMax ∧ 2 * (numAttempts - 1) = associativity) := by
  constructor
  · intro returns
    have some_ : rripMax ≠ 0 := by
      intro zero
      subst zero
      have bounded := (returns (fun _ => none) (Srrip.mk (fun _ => rripInsert 0) 0 0) (Policy.reachable_start rfl)).1 0 positive
      exact absurd bounded (by decide)
    refine ⟨some_, ?_⟩
    by_contra many
    by_cases large : associativity < rripMax
    · have attempts : associativity < 2 * (numAttempts - 1) := by omega
      obtain ⟨way, isWay, fields, reached, pointer, recent, others⟩ :=
        srrip_one_high numAttempts positive fits byte large attempts
      exact not_srripReturns rejectingCall reached (fun way small => filled_valid small)
        (srripSearch_one_high fits isWay large attempts pointer recent others) returns
    · exact srrip_exhausted_low positive fits (by omega) byte (by omega) (by omega) returns
  · intro enough
    exact srrip_returns positive fits (Nat.pos_of_ne_zero enough.1) byte enough.2

end Runs

/-! ### The policy that a configuration names -/

namespace Config

theorem rripMax_ne_zero (config : Config) : config.rripMax ≠ 0 ↔ config.srripBits % 256 ≠ 0 := by
  unfold rripMax
  by_cases few : config.srripBits % 256 < 8
  · have table : ∀ bits < 8, (2 ^ bits - 1) % 256 ≠ 0 ↔ bits ≠ 0 := by decide
    exact table _ few
  · have split : 2 ^ (config.srripBits % 256) = 256 * 2 ^ (config.srripBits % 256 - 8) := by
      rw [show 256 = 2 ^ 8 by rfl, ← Nat.pow_add]
      congr 1
      omega
    have some_ : 0 < 2 ^ (config.srripBits % 256 - 8) := Nat.pow_pos (by decide)
    omega

/-- A call in a full set always returns a way with the highest counter if and only if the counters have bits, and either the
attempts with the turns they cost do not fill a round, or they just do and there are more counter values than ways. -/
theorem srrip_returns_iff (config : Config) (isSrrip : config.policy = .srrip ∨ config.policy = .srripQbs)
    (positive : 1 ≤ config.associativity) (fits : config.associativity ≤ 256) :
    config.createCacheSet = CacheSetSRRIP config.associativity config.rripMax config.getNumQBSAttempts ∧
    (SrripReturns config.associativity config.rripMax config.getNumQBSAttempts ↔
      config.srripBits % 256 ≠ 0 ∧
        (2 * (config.getNumQBSAttempts - 1) < config.associativity ∨
          config.associativity < config.rripMax ∧ 2 * (config.getNumQBSAttempts - 1) = config.associativity)) := by
  constructor
  · obtain ⟨policy, associativity, qbsAttempts, srripBits⟩ := config
    cases isSrrip with
    | inl srrip =>
      cases srrip
      rfl
    | inr srripQbs =>
      cases srripQbs
      rfl
  · rw [← rripMax_ne_zero]
    exact srripReturns_iff positive fits (Nat.mod_lt _ (by decide))

/-- Sixteen ways, four attempts and counters of two bits. -/
theorem srripQbs_sixteen_ways_return : SrripReturns 16 3 4 :=
  (srrip_returns_iff (.mk .srripQbs 16 4 2) (.inr rfl) (by decide) (by decide)).2.mpr (by decide)

def insertsThenReads : List Label :=
  (List.range 4).map (fun _ => .insert plainCall .shared) ++
    (List.range 4).flatMap fun way => [.access way 0 0, .access way 0 0]

/-- With four ways, three attempts and counters of two bits, a call whose blocks are all rejected then finds no way. -/
theorem srripQbs_four_ways_fail :
    ∃ contents fields, (CacheSetSRRIP 4 3 3).machine.Reachable (contents, fields) ∧
      (∀ way < 4, (contents way).isSome ∧ isValidReplacement contents way = true) ∧
      (Config.mk .srripQbs 4 3 2).createCacheSet.getReplacementIndex contents rejectingCall fields =
        .error .findingReplacementIndex := by
  have starts : (CacheSetSRRIP 4 3 3).machine.Reachable ((fun _ => none), Srrip.mk (fun _ => rripInsert 3) 0 0) :=
    Policy.reachable_start rfl
  have ran : (CacheSetSRRIP 4 3 3).machine.run ((fun _ => none), Srrip.mk (fun _ => rripInsert 3) 0 0) insertsThenReads =
    .ok _ := rfl
  exact ⟨_, _, starts.run ran, by decide, rfl⟩

end Config

end Sniper.Replacement

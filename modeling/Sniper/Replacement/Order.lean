import Sniper.Replacement.Recency

/-! When the policies that order the ways by their last use replace a block that may be replaced. -/

namespace Sniper.Replacement

variable {associativity numAttempts : Nat} {set : Contents} {call : Call} {lruBits : Nat → Nat}

/-- A call for a set of index 0 whose blocks no lower level has. -/
def plainCall : Call := { isInLowerLevelCache := fun _ => false, l3HitFlag := 0, eip := 0, setIndex := 0 }

theorem moveToMRU_self (way : Nat) : moveToMRU associativity way lruBits way = 0 := if_pos rfl

theorem findLru_eq_zero {ways : List Nat} {candidate : Nat → Bool}
    (none : ∀ way ∈ ways, candidate way = true → lruBits way = 0) : findLru ways candidate lruBits = 0 := by
  refine congrArg Prod.fst (?_ : _ = ((0 : Nat), (0 : Nat)))
  induction ways with
  | nil => rfl
  | cons way rest ih =>
    have first : ¬(0 < lruBits way ∧ candidate way = true) := by
      rintro ⟨positive, accepted⟩
      have zero := none way List.mem_cons_self accepted
      omega
    rw [List.foldl_cons]
    simp only [first, if_false]
    exact ih fun other member => none other (List.mem_cons_of_mem _ member)

theorem findLru_one (candidate : Nat → Bool) : findLru (List.range 1) candidate lruBits = 0 := by
  simp only [findLru, List.range_one, List.foldl_cons, List.foldl_nil]
  split <;> rfl

theorem attemptLoop_first {select : (Nat → Nat) → Except Fault Nat} {inLower : Nat → Bool} {index rest : Nat}
    (selected : select lruBits = .ok index) (small : index < associativity) (accepted : inLower index = false) :
    attemptLoop associativity select inLower (rest + 1) lruBits =
      .ok (moveToMRU associativity index lruBits, some index) := by
  simp [attemptLoop, selected, small, accepted, bind, Except.bind]

theorem attemptLoop_constant {select : (Nat → Nat) → Except Fault Nat} {index : Nat}
    (selected : ∀ lruBits, select lruBits = .ok index) (small : index < associativity) (inLower : Nat → Bool)
    (rest : Nat) (lruBits : Nat → Nat) :
    ∃ after, attemptLoop associativity select inLower (rest + 1) lruBits = .ok (after, some index) := by
  induction rest generalizing lruBits with
  | zero => exact ⟨_, by simp [attemptLoop, selected, small, bind, Except.bind]; rfl⟩
  | succ rest ih =>
    rw [attemptLoop]
    simp only [selected, bind, Except.bind, small, if_true]
    split
    · exact ih _
    · exact ⟨_, rfl⟩

/-! ### The LRU policies -/

theorem replaceLru_fills {way : Nat} (invalid : firstInvalid associativity set = some way) :
    replaceLru associativity numAttempts set call lruBits = .ok (moveToMRU associativity way lruBits, way) := by
  simp only [replaceLru, invalid]

theorem replaceLru_onlyWay (positive : 0 < associativity) {way : Nat} (lastUsed : lruBits way = 0) (rest : Nat) :
    replaceLru associativity (rest + 1) (onlyWay way) plainCall lruBits =
      .ok (moveToMRU associativity 0 lruBits, 0) := by
  have index : findLru (List.range associativity) (isValidReplacement (onlyWay way)) lruBits = 0 := by
    refine findLru_eq_zero fun other _ valid => ?_
    rw [(onlyWay_valid other).mp valid, lastUsed]
  simp only [replaceLru, onlyWay_firstInvalid]
  rw [attemptLoop_first (by rw [index]) positive rfl]
  rfl

theorem replaceLru_one (full : ∀ way < 1, (set way).isSome) (rest : Nat) (call : Call) (lruBits : Nat → Nat) :
    ∃ after, replaceLru 1 (rest + 1) set call lruBits = .ok (after, 0) := by
  have selected (lruBits : Nat → Nat) :
      (Except.ok (findLru (List.range 1) (isValidReplacement set) lruBits) : Except Fault Nat) = .ok 0 := by
    rw [findLru_one]
  obtain ⟨after, looped⟩ := attemptLoop_constant selected Nat.one_pos call.isInLowerLevelCache rest lruBits
  refine ⟨after, ?_⟩
  simp only [replaceLru, firstInvalid_eq_none full]
  rw [looped]
  rfl

/-- A policy that, when the only block that may be replaced was the last one used, chooses another way. -/
theorem Policy.AlwaysReplaces.lt_two {policy : Policy} (always : policy.AlwaysReplaces)
    (start : policy.State) (constructed : policy.constructed start) (lastUsed : policy.State → Nat → Prop)
    (fills : ∀ set state way, firstInvalid policy.associativity set = some way →
      ∃ after, policy.getReplacementIndex set plainCall state = .ok (after, way) ∧ lastUsed after way)
    (drops : ∀ state, lastUsed state 1 → ∀ after,
      policy.getReplacementIndex (onlyWay 1) plainCall state ≠ .ok (after, 1)) : policy.associativity < 2 := by
  by_contra two
  obtain ⟨contents, state, reached, used⟩ :=
    policy.reach_second_way lastUsed constructed (Nat.le_of_not_lt two) plainCall fills
  obtain ⟨after, result⟩ := always.only reached (Nat.lt_of_succ_le (Nat.le_of_not_lt two)) plainCall
  exact drops state used after result

theorem Policy.alwaysReplaces_one {policy : Policy} (one : policy.associativity = 1)
    (returns : ∀ set call state, (∀ way < 1, (set way).isSome) → isValidReplacement set 0 = true →
      ∃ after, policy.getReplacementIndex set call state = .ok (after, 0)) : policy.AlwaysReplaces := by
  rintro contents state _ set full ⟨way, small, valid⟩ call
  rw [one] at full small
  have zero : way = 0 := by omega
  subst zero
  obtain ⟨after, result⟩ := returns set call state full valid
  exact ⟨after, 0, result, by omega, valid⟩

theorem Policy.reachable_start {policy : Policy} {start : policy.State} (constructed : policy.constructed start) :
    policy.machine.Reachable ((fun _ => none), start) := .initial ⟨rfl, constructed⟩

theorem lru_alwaysReplaces (positive : 0 < associativity) :
    (CacheSetLRU associativity numAttempts).AlwaysReplaces ↔ associativity = 1 ∧ numAttempts ≠ 0 := by
  constructor
  · intro always
    have attempts : numAttempts ≠ 0 := by
      intro zero
      subst zero
      obtain ⟨after, result⟩ := always.only (Policy.reachable_start rfl) positive plainCall
      simp [CacheSetLRU, replaceLru, onlyWay_firstInvalid, attemptLoop, bind, Except.bind] at result
    obtain ⟨rest, isSucc⟩ := Nat.exists_eq_succ_of_ne_zero attempts
    subst isSucc
    have small : associativity < 2 := by
      refine always.lt_two initialLruBits rfl (fun lruBits way => lruBits way = 0) ?_ ?_
      · intro set lruBits way invalid
        exact ⟨_, replaceLru_fills invalid, moveToMRU_self way⟩
      · intro lruBits used after result
        have dropped := (replaceLru_onlyWay positive used rest).symm.trans result
        cases dropped
    exact ⟨by omega, attempts⟩
  · rintro ⟨one, attempts⟩
    subst one
    obtain ⟨rest, isSucc⟩ := Nat.exists_eq_succ_of_ne_zero attempts
    subst isSucc
    exact Policy.alwaysReplaces_one rfl fun set call lruBits full _ => replaceLru_one full rest call lruBits

theorem lruNew_alwaysReplaces (positive : 0 < associativity) :
    (CacheSetLRUNEW associativity 1).AlwaysReplaces ↔ associativity = 1 := by
  constructor
  · intro always
    have small : associativity < 2 := by
      refine always.lt_two initialLruBits rfl (fun lruBits way => lruBits way = 0) ?_ ?_
      · intro set lruBits way invalid
        exact ⟨_, replaceLru_fills invalid, moveToMRU_self way⟩
      · intro lruBits used after result
        have dropped := (replaceLru_onlyWay positive used 0).symm.trans result
        cases dropped
    omega
  · intro one
    subst one
    exact Policy.alwaysReplaces_one rfl fun set call lruBits full _ => replaceLru_one full 0 call lruBits

theorem lruL2_alwaysReplaces (positive : 0 < associativity) :
    (CacheSetLRUL2 associativity 1).AlwaysReplaces ↔ associativity = 1 := by
  constructor
  · intro always
    have small : associativity < 2 := by
      refine always.lt_two (LoopBits.mk initialLruBits (fun _ => 0) 0) ⟨rfl, rfl⟩
        (fun fields way => fields.lruBits way = 0) ?_ ?_
      · intro set fields way invalid
        refine ⟨{ fields.takeWay plainCall way with lruBits := moveToMRU associativity way fields.lruBits }, ?_,
          moveToMRU_self way⟩
        have filled : replaceLru associativity 1 set plainCall fields.lruBits = _ := replaceLru_fills invalid
        simp only [CacheSetLRUL2, filled]
        rfl
      · intro fields used after result
        simp only [CacheSetLRUL2, replaceLru_onlyWay positive used 0] at result
        cases result
    omega
  · intro one
    subst one
    refine Policy.alwaysReplaces_one rfl fun set call fields full _ => ?_
    obtain ⟨lruBits, result⟩ := replaceLru_one full 0 call fields.lruBits
    refine ⟨{ fields.takeWay call 0 with lruBits }, ?_⟩
    simp only [CacheSetLRUL2, result]
    rfl

/-! ### Loop blocks -/

theorem lruL3_alwaysReplaces (positive : 0 < associativity) :
    (CacheSetLRUL3 associativity 1).AlwaysReplaces ↔ associativity = 1 := by
  constructor
  · intro always
    have small : associativity < 2 := by
      refine always.lt_two (LoopBits.mk initialLruBits (fun _ => 0) 0) ⟨rfl, rfl⟩
        (fun fields way => fields.lruBits way = 0) ?_ ?_
      · intro set fields way (invalid : firstInvalid associativity set = some way)
        simp only [CacheSetLRUL3, invalid]
        exact ⟨_, rfl, moveToMRU_self way⟩
      · intro fields used after result
        have index : findLru (List.range associativity)
            (fun way => isValidReplacement (onlyWay 1) way && fields.loopBit way == 0) fields.lruBits = 0 := by
          refine findLru_eq_zero fun other _ accepted => ?_
          rw [Bool.and_eq_true] at accepted
          rw [(onlyWay_valid other).mp accepted.1, used]
        simp only [CacheSetLRUL3, onlyWay_firstInvalid] at result
        rw [attemptLoop_first (by rw [index]) positive rfl] at result
        cases result
    omega
  · intro one
    subst one
    refine Policy.alwaysReplaces_one rfl fun set call fields full _ => ?_
    have selected (lruBits : Nat → Nat) : (Except.ok (findLru (List.range 1)
        (fun way => isValidReplacement set way && fields.loopBit way == 0) lruBits) : Except Fault Nat) = .ok 0 := by
      rw [findLru_one]
    obtain ⟨after, looped⟩ := attemptLoop_constant selected Nat.one_pos call.isInLowerLevelCache 0 fields.lruBits
    refine ⟨{ fields with lruBits := after }, ?_⟩
    simp only [CacheSetLRUL3, firstInvalid_eq_none full]
    rw [looped]
    rfl

/-! ### Partitions -/

theorem phc_alwaysReplaces (positive : 0 < associativity) :
    ¬(CacheSetPHC associativity 1).AlwaysReplaces := by
  intro always
  let start : Phc := ⟨initialLruBits, fun _ => 0, fun _ => 0, fun _ => 0⟩
  by_cases four : 4 ≤ associativity
  · have small : associativity < 2 := by
      refine always.lt_two start ⟨rfl, rfl, rfl⟩ (fun fields way => fields.lruBits way = 0) ?_ ?_
      · intro set fields way (invalid : firstInvalid associativity set = some way)
        simp only [CacheSetPHC, Phc.isSampler, plainCall, Phc.replaceSampler, invalid]
        exact ⟨_, rfl, moveToMRU_self way⟩
      · intro fields used after result
        have inside : (List.range Phc.sramWays).all (· < associativity) = true := by
          simp only [List.all_eq_true, List.mem_range, decide_eq_true_eq, Phc.sramWays]
          omega
        have index : findLru (List.range Phc.sramWays) (isValidReplacement (onlyWay 1)) fields.lruBits = 0 := by
          refine findLru_eq_zero fun other _ valid => ?_
          rw [(onlyWay_valid other).mp valid, used]
        have selected : Phc.selectIn associativity (List.range Phc.sramWays) (onlyWay 1) fields.lruBits = .ok 0 := by
          rw [Phc.selectIn, inside, index]
          rfl
        simp only [CacheSetPHC, Phc.isSampler, plainCall, Phc.replaceSampler, onlyWay_firstInvalid] at result
        rw [attemptLoop_first selected positive rfl] at result
        cases result
    omega
  · have outside : (List.range Phc.sramWays).all (· < associativity) = false := by
      rw [List.all_eq_false]
      exact ⟨3, by decide, by simp; omega⟩
    have built : (CacheSetPHC associativity 1).constructed start := ⟨rfl, rfl, rfl⟩
    obtain ⟨after, result⟩ := always.only (Policy.reachable_start built) positive plainCall
    simp [CacheSetPHC, Phc.isSampler, plainCall, Phc.replaceSampler, onlyWay_firstInvalid, attemptLoop,
      Phc.selectIn, outside, bind, Except.bind] at result

/-! ### The last one used -/

theorem moveToMRU_lt {way accessedIndex : Nat} (bound : ∀ way < associativity, lruBits way < associativity)
    (small : way < associativity) (accessed : accessedIndex < associativity) :
    moveToMRU associativity accessedIndex lruBits way < associativity := by
  have own := bound way small
  have other := bound accessedIndex accessed
  unfold moveToMRU
  split
  · omega
  · split <;> omega

theorem mru_result {after : Nat → Nat} {index : Nat}
    (result : (CacheSetMRU associativity).getReplacementIndex set call lruBits = .ok (after, index)) :
    index < associativity ∧ after = moveToMRU associativity index lruBits := by
  simp only [CacheSetMRU] at result
  split at result
  case h_1 way invalid =>
    cases result
    exact ⟨firstInvalid_lt invalid, rfl⟩
  case h_2 =>
    split at result
    case h_1 way found =>
      cases result
      obtain ⟨target, _, isWay⟩ := List.exists_of_findSome?_eq_some found
      exact ⟨List.mem_range.mp (List.mem_of_find?_eq_some isWay), rfl⟩
    case h_2 => cases result

theorem mru_alwaysReplaces : (CacheSetMRU associativity).AlwaysReplaces := by
  rintro contents lruBits reached set full ⟨way, small, valid⟩ call
  have bound : ∀ way < associativity, lruBits way < associativity := by
    refine Policy.invariant (CacheSetMRU associativity)
      (fun lruBits => ∀ way < associativity, lruBits way < associativity) ?_ ?_ ?_ (fun _ _ _ => id) reached
    · intro start starts way small
      rw [starts, initialLruBits]
      exact Nat.lt_of_le_of_lt (Nat.mod_le _ _) small
    · intro set call lruBits after index result holds way small
      obtain ⟨isWay, moved⟩ := mru_result result
      rw [moved]
      exact moveToMRU_lt holds small isWay
    · intro accessed isWay writeFlag setIndex lruBits after result holds way small
      cases result
      exact moveToMRU_lt holds small isWay
  have some : ∃ index, (List.range associativity).findSome? (fun target =>
      (List.range associativity).find? fun way => lruBits way == target && isValidReplacement set way) = some index := by
    refine Option.isSome_iff_exists.mp (List.findSome?_isSome_iff.mpr ⟨lruBits way, ?_, ?_⟩)
    · exact List.mem_range.mpr (bound way small)
    · exact List.find?_isSome.mpr ⟨way, List.mem_range.mpr small, by simp [valid]⟩
  obtain ⟨index, found⟩ := some
  obtain ⟨target, _, isIndex⟩ := List.exists_of_findSome?_eq_some found
  refine ⟨moveToMRU associativity index lruBits, index, ?_, List.mem_range.mp (List.mem_of_find?_eq_some isIndex), ?_⟩
  · have none : firstInvalid associativity set = Option.none := firstInvalid_eq_none full
    simp only [CacheSetMRU, none, found]
  · have accepted := List.find?_some isIndex
    rw [Bool.and_eq_true] at accepted
    exact accepted.2

end Sniper.Replacement

import Sniper.Replacement.StackDistance

/-! `CacheSetLRU` with more ways than bits of type `UInt8` can order: the bits of the ways used least recently are all 255, and the
first of these ways goes, not the last one in order. -/

namespace Sniper.Replacement

variable {associativity filled aged way : Nat} {tags : Nat → Nat}

/-! ### The bits of a run -/

/-- The bits once so many ways were filled, from the first one on. -/
def filledBits (associativity filled way : Nat) : Nat :=
  if way < associativity then min (if way < filled then filled - 1 - way else max (way % 256) (filled - 1)) 255 else way % 256

theorem filledBits_zero : filledBits associativity 0 = initialLruBits := by
  funext way
  simp only [filledBits, initialLruBits, Nat.not_lt_zero, if_false]
  split <;> omega

theorem moveToMRU_filled (small : filled < associativity) :
    moveToMRU associativity filled (filledBits associativity filled) = filledBits associativity (filled + 1) := by
  funext way
  by_cases isWay : way < associativity
  · simp only [moveToMRU, filledBits, isWay, small, if_true, true_and, Nat.lt_irrefl, if_false, Nat.add_sub_cancel]
    split_ifs <;> omega
  · have other : way ≠ filled := by omega
    simp [moveToMRU, filledBits, isWay, other]

/-- The bits once way 0 and then the ways from 2 on were used, up to some way: way 1 is the last one in order, and way 0 the one
before the ways that were not used again. -/
def agedBits (associativity aged way : Nat) : Nat :=
  if way < associativity then
    min (if way = 1 then associativity - 1 else if way = 0 then aged - 1 else if way ≤ aged then aged - way
      else associativity - 1 - way + aged) 255
  else way % 256

theorem moveToMRU_largest {lruBits : Nat → Nat} {index : Nat} (largest : lruBits index = 255) (isWay : way < associativity)
    (other : way ≠ index) : moveToMRU associativity index lruBits way = if lruBits way < 255 then lruBits way + 1 else lruBits way := by
  simp only [moveToMRU, if_neg other, isWay, true_and, largest]

theorem moveToMRU_first (many : 256 < associativity) :
    moveToMRU associativity 0 (filledBits associativity associativity) = agedBits associativity 1 := by
  have positive : 0 < associativity := Nat.zero_lt_of_lt many
  have largest : filledBits associativity associativity 0 = 255 := by
    simp only [filledBits, positive, if_true]
    omega
  funext way
  by_cases first : way = 0
  · subst first
    simp [moveToMRU, agedBits, positive]
  · by_cases isWay : way < associativity
    · rw [moveToMRU_largest largest isWay first]
      simp only [filledBits, agedBits, isWay, if_true, first, if_false]
      split_ifs <;> omega
    · simp [moveToMRU, filledBits, agedBits, isWay, first]

theorem moveToMRU_aged (many : 256 < associativity) (some_ : 0 < aged) (small : aged + 1 < associativity) :
    moveToMRU associativity (aged + 1) (agedBits associativity aged) = agedBits associativity (aged + 1) := by
  have notFirst : aged + 1 ≠ 1 := by omega
  have beyond : ¬aged + 1 ≤ aged := Nat.not_succ_le_self aged
  have largest : agedBits associativity aged (aged + 1) = 255 := by
    simp only [agedBits, small, if_true, notFirst, Nat.succ_ne_zero, beyond, if_false]
    omega
  funext way
  by_cases used : way = aged + 1
  · subst used
    simp [moveToMRU, agedBits, small, Nat.ne_of_gt some_]
  · by_cases isWay : way < associativity
    · rw [moveToMRU_largest largest isWay used]
      simp only [agedBits, isWay, if_true]
      split_ifs <;> omega
    · simp [moveToMRU, agedBits, isWay, used]

/-! ### The lines of a run -/

/-- Different tags that blocks can have, one for each way and one more. -/
structure Fresh (associativity : Nat) (tags : Nat → Nat) : Prop where
  valid : ∀ {way}, way ≤ associativity → tags way ≠ invalidTag
  injective : ∀ {way other}, way ≤ associativity → other ≤ associativity → tags way = tags other → way = other

def filledBlocks (tags : Nat → Nat) (filled way : Nat) : CacheBlockInfo :=
  if way < filled then ⟨tags way, .invalid⟩ else .invalid

section Lines

variable {lines : CacheSet (CacheSetLRU associativity 1)}

theorem find_filled (fresh : Fresh associativity tags) (blocks : lines.blocks = filledBlocks tags filled) (few : filled ≤ associativity)
    (there : way < filled) : lines.find (tags way) = some way := by
  have isWay : way < associativity := Nat.lt_of_lt_of_le there few
  have tag : (lines.blocks way).tag = tags way := by rw [blocks, filledBlocks, if_pos there]
  cases found : lines.find (tags way) with
  | none => exact absurd tag (find_none found isWay)
  | some other =>
    obtain ⟨small, same⟩ := find_some found
    have small : other < associativity := small
    rw [blocks, filledBlocks] at same
    split at same
    case isTrue => rw [fresh.injective (Nat.le_of_lt small) (Nat.le_of_lt isWay) same]
    case isFalse => exact absurd same.symm (fresh.valid (Nat.le_of_lt isWay))

theorem find_missing (fresh : Fresh associativity tags) (blocks : lines.blocks = filledBlocks tags filled) (few : filled ≤ way)
    (isTag : way ≤ associativity) : lines.find (tags way) = none := by
  cases found : lines.find (tags way) with
  | none => rfl
  | some other =>
    obtain ⟨small, same⟩ := find_some found
    have small : other < associativity := small
    rw [blocks, filledBlocks] at same
    split at same
    case isTrue there =>
      have isWay := fresh.injective (Nat.le_of_lt small) isTag same
      omega
    case isFalse => exact absurd same.symm (fresh.valid isTag)

theorem contents_filled (fresh : Fresh associativity tags) (blocks : lines.blocks = filledBlocks tags filled) (few : filled ≤ associativity)
    (there : way < filled) : lines.contents way = some .invalid := by
  have isTag := fresh.valid (Nat.le_of_lt (Nat.lt_of_lt_of_le there few))
  simp [CacheSet.contents, CacheBlockInfo.isValid, blocks, filledBlocks, there, isTag]

theorem findLru_first {lruBits : Nat → Nat} {candidate : Nat → Bool} (positive : 0 < associativity) (accepted : candidate 0 = true)
    (some_ : 0 < lruBits 0) (largest : ∀ way < associativity, lruBits way ≤ lruBits 0) :
    findLru (List.range associativity) candidate lruBits = 0 := by
  obtain ⟨rest, isRest⟩ := Nat.exists_eq_succ_of_ne_zero (Nat.ne_of_gt positive)
  have first : searchStep candidate lruBits (0, 0) 0 = (0, lruBits 0) := if_pos ⟨some_, accepted⟩
  rw [findLru_eq, isRest, List.range_succ_eq_map, List.foldl_cons, first]
  obtain ⟨same, -⟩ | ⟨more, found⟩ := search_loop ((List.range rest).map Nat.succ) candidate lruBits (0, lruBits 0)
  · rw [same]
  · obtain ⟨way, inRest, isWay⟩ := List.mem_map.mp found.mem
    have small := List.mem_range.mp inRest
    have below : lruBits way.succ ≤ lruBits 0 := largest way.succ (by omega)
    rw [← isWay] at more
    exact absurd more (Nat.not_lt.mpr below)

theorem chooses_filled (fresh : Fresh associativity tags) (blocks : lines.blocks = filledBlocks tags filled) (small : filled < associativity)
    (call : Call) : (CacheSetLRU associativity 1).getReplacementIndex lines.contents call lines.fields =
      .ok (moveToMRU associativity filled lines.fields, filled) := by
  apply replaceLru_fills
  apply firstInvalid_eq_some small
  · simp [CacheSet.contents, CacheBlockInfo.isValid, blocks, filledBlocks, CacheBlockInfo.invalid]
  · intro other before
    rw [contents_filled fresh blocks (Nat.le_of_lt small) before]
    rfl

theorem chooses_first (fresh : Fresh associativity tags) (many : 256 < associativity)
    (blocks : lines.blocks = filledBlocks tags associativity) (bits : lines.fields = agedBits associativity (associativity - 1))
    (call : Call) : (CacheSetLRU associativity 1).getReplacementIndex lines.contents call lines.fields =
      .ok (moveToMRU associativity 0 lines.fields, 0) := by
  have positive : 0 < associativity := Nat.zero_lt_of_lt many
  have full : firstInvalid associativity lines.contents = none := by
    apply firstInvalid_eq_none
    intro way isWay
    rw [contents_filled fresh blocks (Nat.le_refl _) isWay]
    rfl
  have first : agedBits associativity (associativity - 1) 0 = 255 := by
    rw [agedBits, if_pos positive, if_neg (by decide), if_pos rfl]
    omega
  apply replaceLru_full full _ positive
  rw [bits]
  apply findLru_first positive
  · simp [isValidReplacement, contents_filled fresh blocks (Nat.le_refl _) positive]
  · omega
  · intro way isWay
    rw [first]
    simp only [agedBits, isWay, if_true]
    omega

end Lines

/-! ### Steps of the run -/

section Steps

variable {splitTag : Nat → Nat} {setIndex : Nat} {bits : Nat → Nat} {now : Cache (CacheSetLRU associativity 1) × List Nat}

structure Filled (tags : Nat → Nat) (setIndex filled : Nat) (bits : Nat → Nat) (now : Cache (CacheSetLRU associativity 1) × List Nat) :
    Prop where
  blocks : (now.1.sets setIndex).blocks = filledBlocks tags filled
  bits : (now.1.sets setIndex).fields = bits

namespace Filled

theorem fill (filledUp : Filled tags setIndex filled bits now) (fresh : Fresh associativity tags) (inSet : splitTag (tags filled) = setIndex)
    (small : filled < associativity) (accessType : AccessType) (call : Call) :
    ∃ next, (accesses (CacheSetLRU associativity 1) splitTag).step now
        (.access ⟨tags filled, fresh.valid (Nat.le_of_lt small)⟩ accessType call) = .ok next ∧
      Filled tags setIndex (filled + 1) (moveToMRU associativity filled bits) next ∧ next.2 = tags filled :: now.2 := by
  subst inSet
  have missing := find_missing fresh filledUp.blocks (Nat.le_refl _) (Nat.le_of_lt small)
  have chosen := chooses_filled fresh filledUp.blocks small { call with setIndex := splitTag (tags filled) }
  refine ⟨_, accesses_fill missing chosen accessType, ⟨?_, ?_⟩, rfl⟩
  · have written : Function.update (filledBlocks tags filled) filled ⟨tags filled, .invalid⟩ = filledBlocks tags (filled + 1) := by
      funext way
      by_cases same : way = filled
      · subst same
        simp [filledBlocks]
      · have before : way < filled + 1 ↔ way < filled := by omega
        simp [filledBlocks, same, before]
    simp only [Cache.setSet, Function.update_self, CacheSet.setBlock, afterUse, filledUp.blocks]
    exact written
  · simp only [Cache.setSet, Function.update_self, CacheSet.setBlock, afterUse]
    exact congrArg (moveToMRU associativity filled) filledUp.bits

theorem use (filledUp : Filled tags setIndex associativity bits now) (fresh : Fresh associativity tags) (inSet : splitTag (tags way) = setIndex)
    (small : way < associativity) (inside : bits way < associativity) (accessType : AccessType) (call : Call) :
    ∃ next, (accesses (CacheSetLRU associativity 1) splitTag).step now
        (.access ⟨tags way, fresh.valid (Nat.le_of_lt small)⟩ accessType call) = .ok next ∧
      Filled tags setIndex associativity (moveToMRU associativity way bits) next ∧ next.2 = tags way :: now.2 := by
  subst inSet
  have found := find_filled fresh filledUp.blocks (Nat.le_refl _) small
  refine ⟨_, accesses_hit found (by rw [filledUp.bits]; exact inside) accessType call, ⟨?_, ?_⟩, rfl⟩
  · simp only [Cache.setSet, Function.update_self, afterUse, filledUp.blocks]
  · simp only [Cache.setSet, Function.update_self, afterUse]
    exact congrArg (moveToMRU associativity way) filledUp.bits

/-- Another tag takes way 0, so that its tag is gone. -/
theorem replace (filledUp : Filled tags setIndex associativity (agedBits associativity (associativity - 1)) now) (fresh : Fresh associativity tags)
    (many : 256 < associativity) (inSet : splitTag (tags associativity) = setIndex) (accessType : AccessType) (call : Call) :
    ∃ next, (accesses (CacheSetLRU associativity 1) splitTag).step now
        (.access ⟨tags associativity, fresh.valid (Nat.le_refl _)⟩ accessType call) = .ok next ∧
      (next.1.sets setIndex).find (tags 0) = none ∧ next.2 = tags associativity :: now.2 := by
  subst inSet
  have missing := find_missing fresh filledUp.blocks (Nat.le_refl _) (Nat.le_refl _)
  have chosen := chooses_first fresh many filledUp.blocks filledUp.bits { call with setIndex := splitTag (tags associativity) }
  refine ⟨_, accesses_fill missing chosen accessType, ?_, rfl⟩
  simp only [Cache.setSet, Function.update_self]
  cases found : CacheSet.find _ (tags 0) with
  | none => rfl
  | some way =>
    obtain ⟨small, same⟩ := find_some found
    have small : way < associativity := small
    by_cases first : way = 0
    · subst first
      simp only [CacheSet.setBlock, Function.update_self] at same
      have isLast := fresh.injective (Nat.le_refl _) (Nat.zero_le _) same
      omega
    · simp only [CacheSet.setBlock, afterUse, Function.update_of_ne first, filledUp.blocks, filledBlocks, small, if_true] at same
      exact absurd (fresh.injective (Nat.le_of_lt small) (Nat.zero_le _) same) first

end Filled

end Steps

end Sniper.Replacement

import Sniper.Replacement.LoopBitL2
import Sniper.Replacement.Order
import Mathlib.Data.Nat.Bitwise

/-! How `insertCacheBlock` of an L2 with `CacheSetLRUL2` tells an L3 with `CacheSetLRUL3` the loop bit of the line that leaves.

Blocks have `2 ^ logBlocksize` bytes in both caches, and each cache has its own function for the set of an address. -/

namespace Sniper.Replacement

def tagToAddress (logBlocksize tag : Nat) : Nat := (tag <<< logBlocksize) % 2 ^ 64

/-- The tag of `CacheBase::splitAddress`. -/
def addressTag (logBlocksize address : Nat) : Nat := address >>> logBlocksize

def Cache.updateLoopBitCache {policy : Policy} (logBlocksize : Nat) (setIndex : Nat → Nat) (cache : Cache policy)
    (address loopbit : Nat) : Cache policy :=
  cache.setSet (setIndex address) ((cache.sets (setIndex address)).updateLoopBitSet (addressTag logBlocksize address) loopbit)

/-- `CacheCntlr::writeCacheBlock` of a block that is not being evicted. -/
def Cache.writeCacheBlock {policy : Policy} (logBlocksize : Nat) (setIndex : Nat → Nat) (cache : Cache policy) (address : Nat) :
    Except Fault (Cache policy) :=
  match (cache.sets (setIndex address)).find (addressTag logBlocksize address) with
  | some way => do
      let set ← (cache.sets (setIndex address)).writeLine way false (setIndex address)
      Except.ok (cache.setSet (setIndex address) set)
  | none => .ok cache

/-- What L2 and L3 are, and how they find the set of an address. -/
structure LoopLevels where
  logBlocksize : Nat
  associativityL2 : Nat
  associativityL3 : Nat
  setIndexL2 : Nat → Nat
  setIndexL3 : Nat → Nat

namespace LoopLevels

abbrev L2 (levels : LoopLevels) := Cache (CacheSetLRUL2 levels.associativityL2 1)

abbrev L3 (levels : LoopLevels) := Cache (CacheSetLRUL3 levels.associativityL3 1)

/-- `CacheCntlr::insertCacheBlock` of L2, with what it does to L3.  Without an eviction the record of the evicted block keeps
the tag of its constructor. -/
def insertCacheBlock (levels : LoopLevels) (l2 : levels.L2) (l3 : levels.L3) (address : Nat) (cstate : CState) (call : Call) :
    Except Fault (levels.L2 × levels.L3) := do
  let setIndex := levels.setIndexL2 address
  let block : CacheBlockInfo := ⟨addressTag levels.logBlocksize address, cstate⟩
  let (set, evicted) ← (l2.sets setIndex).insert2 block { call with setIndex }
  let evictAddress := tagToAddress levels.logBlocksize ((evicted.map CacheBlockInfo.tag).getD invalidTag)
  let l3 := l3.updateLoopBitCache levels.logBlocksize levels.setIndexL3 evictAddress (LoopBits.writeback set.fields)
  let l3 ← if evicted.map CacheBlockInfo.cstate = some .modified
    then l3.writeCacheBlock levels.logBlocksize levels.setIndexL3 evictAddress
    else .ok l3
  Except.ok (l2.setSet setIndex set, l3)

end LoopLevels

/-! ### Tags and addresses -/

section Addresses

variable {logBlocksize tag : Nat}

theorem addressTag_tagToAddress (small : logBlocksize < 64) (fits : tag < 2 ^ (64 - logBlocksize) - 1) :
    addressTag logBlocksize (tagToAddress logBlocksize tag) = tag := by
  have split : 2 ^ (64 - logBlocksize) * 2 ^ logBlocksize = 2 ^ 64 := by
    rw [← Nat.pow_add, Nat.sub_add_cancel (Nat.le_of_lt small)]
  have bound : tag * 2 ^ logBlocksize < 2 ^ 64 := by
    rw [← split]
    exact Nat.mul_lt_mul_of_pos_right (by omega) (Nat.two_pow_pos _)
  rw [addressTag, tagToAddress, Nat.shiftLeft_eq, Nat.mod_eq_of_lt bound, Nat.shiftRight_eq_div_pow,
    Nat.mul_div_cancel _ (Nat.two_pow_pos _)]

theorem addressTag_invalid (small : logBlocksize < 64) :
    addressTag logBlocksize (tagToAddress logBlocksize invalidTag) = 2 ^ (64 - logBlocksize) - 1 := by
  have split : 2 ^ (64 - logBlocksize) * 2 ^ logBlocksize = 2 ^ 64 := by
    rw [← Nat.pow_add, Nat.sub_add_cancel (Nat.le_of_lt small)]
  have positive := Nat.two_pow_pos logBlocksize
  have above := Nat.two_pow_pos (64 - logBlocksize)
  have last : invalidTag * 2 ^ logBlocksize =
      (2 ^ (64 - logBlocksize) - 1) * 2 ^ logBlocksize + 2 ^ 64 * (2 ^ logBlocksize - 1) := by
    have below : 2 ^ logBlocksize ≤ 2 ^ 64 := Nat.pow_le_pow_right (by decide) (Nat.le_of_lt small)
    rw [invalidTag, Nat.sub_mul, Nat.sub_mul, Nat.mul_sub, split]
    omega
  have bound : (2 ^ (64 - logBlocksize) - 1) * 2 ^ logBlocksize < 2 ^ 64 := by
    rw [← split]
    exact Nat.mul_lt_mul_of_pos_right (by omega) positive
  rw [addressTag, tagToAddress, Nat.shiftLeft_eq, last, Nat.add_mul_mod_self_left, Nat.mod_eq_of_lt bound,
    Nat.shiftRight_eq_div_pow, Nat.mul_div_cancel _ positive]

end Addresses

/-! ### What L3 hears -/

section Updates

theorem setSet_same {policy : Policy} (cache : Cache policy) (setIndex : Nat) :
    cache.setSet setIndex (cache.sets setIndex) = cache := by
  rw [Cache.setSet, Function.update_eq_self]

theorem writeCacheBlock_same {policy : Policy} (logBlocksize : Nat) (setIndex : Nat → Nat) (cache : Cache policy)
    (address : Nat) : cache.writeCacheBlock logBlocksize setIndex address = .ok cache := by
  unfold Cache.writeCacheBlock
  split
  · exact congrArg Except.ok (setSet_same cache (setIndex address))
  · rfl

variable {associativity : Nat} (cache : Cache (CacheSetLRUL3 associativity 1)) (logBlocksize : Nat)
  (setIndex : Nat → Nat) (address loopbit : Nat)

theorem updateLoopBitCache_sets (index : Nat) :
    (cache.updateLoopBitCache logBlocksize setIndex address loopbit).sets index =
      if index = setIndex address then (cache.sets index).updateLoopBitSet (addressTag logBlocksize address) loopbit
      else cache.sets index := by
  simp only [Cache.updateLoopBitCache, Cache.setSet, Function.update_apply]
  split
  case isTrue same => rw [same]
  case isFalse => rfl

variable (set : CacheSet (CacheSetLRUL3 associativity 1)) (tag : Nat)

theorem updateLoopBitSet_frame : (set.updateLoopBitSet tag loopbit).blocks = set.blocks ∧
    (set.updateLoopBitSet tag loopbit).fields.lruBits = set.fields.lruBits := by
  unfold CacheSet.updateLoopBitSet
  split <;> exact ⟨rfl, rfl⟩

theorem updateLoopBitSet_loopBit (way : Nat) :
    (set.updateLoopBitSet tag loopbit).fields.loopBit way =
      if set.find tag = some way then loopbit else set.fields.loopBit way := by
  unfold CacheSet.updateLoopBitSet
  cases found : set.find tag with
  | none => rw [if_neg (Option.some_ne_none way).symm]
  | some index =>
    by_cases same : way = index
    · subst same
      rw [if_pos rfl]
      exact Function.update_self _ _ _
    · rw [if_neg fun isWay => same (Option.some.inj isWay).symm]
      exact Function.update_of_ne same _ _

theorem updateLoopBitCache_frame (index : Nat) :
    ((cache.updateLoopBitCache logBlocksize setIndex address loopbit).sets index).blocks = (cache.sets index).blocks ∧
      ((cache.updateLoopBitCache logBlocksize setIndex address loopbit).sets index).fields.lruBits =
        (cache.sets index).fields.lruBits := by
  rw [updateLoopBitCache_sets]
  split
  · exact updateLoopBitSet_frame _ _ _
  · exact ⟨rfl, rfl⟩

theorem updateLoopBitCache_loopBit (index way : Nat) :
    ((cache.updateLoopBitCache logBlocksize setIndex address loopbit).sets index).fields.loopBit way =
      if index = setIndex address ∧ (cache.sets index).find (addressTag logBlocksize address) = some way then loopbit
      else (cache.sets index).fields.loopBit way := by
  rw [updateLoopBitCache_sets]
  by_cases same : index = setIndex address
  · simp only [same, if_true, true_and]
    exact updateLoopBitSet_loopBit _ _ _ _
  · simp only [same, if_false, false_and]

end Updates

/-! ### The frame -/

section Frame

variable {levels : LoopLevels}

/-- The tags of the blocks that are valid, for addresses below the last block. -/
def TagsBelowLast {policy : Policy} (logBlocksize : Nat) (cache : Cache policy) : Prop :=
  ∀ index way, ((cache.sets index).blocks way).isValid = true →
    ((cache.sets index).blocks way).tag < 2 ^ (64 - logBlocksize) - 1

theorem no_last_tag {policy : Policy} {logBlocksize : Nat} {cache : Cache policy} (bytes : 1 ≤ logBlocksize)
    (small : logBlocksize < 64) (below : TagsBelowLast logBlocksize cache) (index way : Nat) :
    ((cache.sets index).blocks way).tag ≠ 2 ^ (64 - logBlocksize) - 1 := by
  intro last
  have fewer : 2 ^ (64 - logBlocksize) < 2 ^ 64 := Nat.pow_lt_pow_right (by decide) (by omega)
  have positive := Nat.two_pow_pos (64 - logBlocksize)
  have valid : ((cache.sets index).blocks way).isValid = true := by
    rw [CacheBlockInfo.isValid, decide_eq_true_eq, last, invalidTag]
    omega
  have fits := below index way valid
  omega

/-- What is promised of L3 when L2 gives up the block of a way: tags and recency stay, and the only loop bit that may change is
that of a valid block that is evicted, which becomes its loop bit in L2. -/
structure LoopBitFrame (levels : LoopLevels) (victims : CacheSet (CacheSetLRUL2 levels.associativityL2 1)) (way : Nat)
    (l3 after : levels.L3) : Prop where
  blocks : ∀ index, (after.sets index).blocks = (l3.sets index).blocks
  lruBits : ∀ index, (after.sets index).fields.lruBits = (l3.sets index).fields.lruBits
  kept : (victims.blocks way).isValid = false →
    ∀ index other, (after.sets index).fields.loopBit other = (l3.sets index).fields.loopBit other
  told : (victims.blocks way).isValid = true → ∀ index other, (after.sets index).fields.loopBit other =
    if index = levels.setIndexL3 (tagToAddress levels.logBlocksize (victims.blocks way).tag) ∧
        (l3.sets index).find (victims.blocks way).tag = some other then victims.fields.loopBit way
    else (l3.sets index).fields.loopBit other

theorem insertCacheBlock_l3 {l2 l2After : levels.L2} {l3 l3After : levels.L3} {address : Nat} {cstate : CState} {call : Call}
    (inserted : levels.insertCacheBlock l2 l3 address cstate call = .ok (l2After, l3After)) :
    ∃ (fields : LoopBits) (way : Nat), (CacheSetLRUL2 levels.associativityL2 1).getReplacementIndex
        (l2.sets (levels.setIndexL2 address)).contents { call with setIndex := levels.setIndexL2 address }
        (l2.sets (levels.setIndexL2 address)).fields = .ok (fields, way) ∧
      l3After = l3.updateLoopBitCache levels.logBlocksize levels.setIndexL3
        (tagToAddress levels.logBlocksize
          (if ((l2.sets (levels.setIndexL2 address)).blocks way).isValid then
            ((l2.sets (levels.setIndexL2 address)).blocks way).tag else invalidTag))
        ((l2.sets (levels.setIndexL2 address)).fields.loopBit way) := by
  cases replaced : (CacheSetLRUL2 levels.associativityL2 1).getReplacementIndex (l2.sets (levels.setIndexL2 address)).contents
      { call with setIndex := levels.setIndexL2 address } (l2.sets (levels.setIndexL2 address)).fields with
  | error reason => simp [LoopLevels.insertCacheBlock, CacheSet.insert2, replaced, bind, Except.bind] at inserted
  | ok result =>
    obtain ⟨fields, way⟩ := result
    obtain ⟨_, sent⟩ := lruL2_replaced replaced
    refine ⟨fields, way, rfl, ?_⟩
    simp only [LoopLevels.insertCacheBlock, CacheSet.insert2, replaced, bind, Except.bind, writeCacheBlock_same, ite_self]
      at inserted
    cases inserted
    cases ((l2.sets (levels.setIndexL2 address)).blocks way).isValid with
    | true => exact congrArg _ sent
    | false => exact congrArg _ sent

/-- An insertion keeps the promise if and only if blocks have more than one byte, or a valid block is evicted, or no block of L3
that is not valid is told another loop bit. -/
theorem insertCacheBlock_frame (levels : LoopLevels) (small : levels.logBlocksize < 64) (l2 l2After : levels.L2)
    (l3 l3After : levels.L3) (belowL2 : TagsBelowLast levels.logBlocksize l2) (belowL3 : TagsBelowLast levels.logBlocksize l3)
    (address : Nat) (cstate : CState) (call : Call)
    (inserted : levels.insertCacheBlock l2 l3 address cstate call = .ok (l2After, l3After)) :
    ∃ (fields : LoopBits) (way : Nat), (CacheSetLRUL2 levels.associativityL2 1).getReplacementIndex
        (l2.sets (levels.setIndexL2 address)).contents { call with setIndex := levels.setIndexL2 address }
        (l2.sets (levels.setIndexL2 address)).fields = .ok (fields, way) ∧
      (LoopBitFrame levels (l2.sets (levels.setIndexL2 address)) way l3 l3After ↔
        1 ≤ levels.logBlocksize ∨ ((l2.sets (levels.setIndexL2 address)).blocks way).isValid = true ∨
          ∀ other, (l3.sets (levels.setIndexL3 invalidTag)).find invalidTag = some other →
            (l3.sets (levels.setIndexL3 invalidTag)).fields.loopBit other =
              (l2.sets (levels.setIndexL2 address)).fields.loopBit way) := by
  obtain ⟨fields, way, replaced, isAfter⟩ := insertCacheBlock_l3 inserted
  have belowVictims := belowL2 (levels.setIndexL2 address)
  refine ⟨fields, way, replaced, ?_⟩
  generalize l2.sets (levels.setIndexL2 address) = victims at belowVictims isAfter ⊢
  subst isAfter
  cases valid : (victims.blocks way).isValid with
  | true =>
    have fits := belowVictims way valid
    simp only [if_true, true_or, or_true, iff_true]
    refine ⟨fun index => (updateLoopBitCache_frame ..).1, fun index => (updateLoopBitCache_frame ..).2, ?_, ?_⟩
    · intro invalid
      cases valid.symm.trans invalid
    · intro _ index other
      rw [updateLoopBitCache_loopBit, addressTag_tagToAddress small fits]
  | false =>
    simp only [Bool.false_eq_true, if_false, false_or]
    have kept_iff : LoopBitFrame levels victims way l3 (l3.updateLoopBitCache levels.logBlocksize levels.setIndexL3
          (tagToAddress levels.logBlocksize invalidTag) (victims.fields.loopBit way)) ↔
        ∀ other, (l3.sets (levels.setIndexL3 (tagToAddress levels.logBlocksize invalidTag))).find
            (addressTag levels.logBlocksize (tagToAddress levels.logBlocksize invalidTag)) = some other →
          (l3.sets (levels.setIndexL3 (tagToAddress levels.logBlocksize invalidTag))).fields.loopBit other =
            victims.fields.loopBit way := by
      constructor
      · intro frame other found
        have same := frame.kept valid (levels.setIndexL3 (tagToAddress levels.logBlocksize invalidTag)) other
        rw [updateLoopBitCache_loopBit, if_pos ⟨rfl, found⟩] at same
        exact same.symm
      · intro agree
        refine ⟨fun index => (updateLoopBitCache_frame ..).1, fun index => (updateLoopBitCache_frame ..).2, ?_, ?_⟩
        · intro _ index other
          rw [updateLoopBitCache_loopBit]
          split
          case isTrue found =>
            obtain ⟨isIndex, found⟩ := found
            subst isIndex
            exact (agree other found).symm
          case isFalse => rfl
        · intro isValid
          cases valid.symm.trans isValid
    rw [kept_iff]
    by_cases bytes : 1 ≤ levels.logBlocksize
    · simp only [bytes, true_or, iff_true]
      intro other found
      rw [addressTag_invalid small] at found
      exact absurd (find_some found).2 (no_last_tag bytes small belowL3 _ other)
    · have one : levels.logBlocksize = 0 := by omega
      have address : tagToAddress levels.logBlocksize invalidTag = invalidTag := by
        rw [one]
        decide
      have tag : addressTag levels.logBlocksize invalidTag = invalidTag := by
        rw [one]
        decide
      rw [address, tag, or_iff_right bytes]

/-- Sets without blocks and with no loop bit. -/
def noBlocks (policy : Policy) (fields : policy.State) : Cache policy := ⟨fun _ => ⟨fun _ => .invalid, fields⟩⟩

/-- The first way of the first set has the line 5. -/
def lineFive (policy : Policy) (fields : policy.State) : Cache policy :=
  ⟨fun index => ⟨fun way => if index = 0 ∧ way = 0 then ⟨5, .shared⟩ else .invalid, fields⟩⟩

theorem lineFive_below {policy : Policy} (fields : policy.State) : TagsBelowLast 6 (lineFive policy fields) := by
  intro index way valid
  dsimp only [lineFive] at valid ⊢
  split at valid
  case isTrue first =>
    rw [if_pos first]
    decide
  case isFalse => cases valid

/-- L2 evicts a loop block that L3 has, with 64 bytes in a block. -/
theorem evicted_line_frame :
    ∃ after, (LoopLevels.mk 6 1 1 (fun _ => 0) (fun _ => 0)).insertCacheBlock
        (lineFive (CacheSetLRUL2 1 1) (LoopBits.mk initialLruBits (fun _ => 1) 0))
        (lineFive (CacheSetLRUL3 1 1) (LoopBits.mk initialLruBits (fun _ => 0) 0)) 64 .shared plainCall = .ok after ∧
      (((lineFive (CacheSetLRUL2 1 1) (LoopBits.mk initialLruBits (fun _ => 1) 0)).sets 0).blocks 0).isValid = true ∧
      LoopBits.loopBit (after.2.sets 0).fields 0 = 1 ∧
      LoopBitFrame (LoopLevels.mk 6 1 1 (fun _ => 0) (fun _ => 0))
        ((lineFive (CacheSetLRUL2 1 1) (LoopBits.mk initialLruBits (fun _ => 1) 0)).sets 0) 0
        (lineFive (CacheSetLRUL3 1 1) (LoopBits.mk initialLruBits (fun _ => 0) 0)) after.2 := by
  obtain ⟨_, way, replaced, frame⟩ := insertCacheBlock_frame (LoopLevels.mk 6 1 1 (fun _ => 0) (fun _ => 0)) (by decide)
    (lineFive (CacheSetLRUL2 1 1) (LoopBits.mk initialLruBits (fun _ => 1) 0)) _
    (lineFive (CacheSetLRUL3 1 1) (LoopBits.mk initialLruBits (fun _ => 0) 0)) _ (lineFive_below _) (lineFive_below _) 64 .shared
    plainCall rfl
  cases replaced
  exact ⟨_, rfl, rfl, rfl, frame.mpr (.inl (by decide))⟩

/-- With one byte in a block, a line of L2 that got its loop bit and was invalidated leaves the bit to an L3 block that was
never valid. -/
theorem one_byte_block_touches_invalid :
    ∃ (contents : Contents) (fields : LoopBits), (CacheSetLRUL2 1 1).machine.Reachable (contents, fields) ∧
      contents 0 = none ∧
      ∃ after, (LoopLevels.mk 0 1 1 (fun _ => 0) (fun _ => 0)).insertCacheBlock (noBlocks (CacheSetLRUL2 1 1) fields)
          (noBlocks (CacheSetLRUL3 1 1) (LoopBits.mk initialLruBits (fun _ => 0) 0)) 7 .shared plainCall = .ok after ∧
        LoopBits.loopBit (after.2.sets 0).fields 0 = 1 := by
  have starts : (CacheSetLRUL2 1 1).machine.Reachable ((fun _ => none), LoopBits.mk initialLruBits (fun _ => 0) 0) :=
    Policy.reachable_start ⟨rfl, rfl⟩
  have ran : (CacheSetLRUL2 1 1).machine.run ((fun _ => none), LoopBits.mk initialLruBits (fun _ => 0) 0)
    [.insert ⟨fun _ => false, 1, 0, 0⟩ .shared, .invalidate 0] = .ok _ := rfl
  exact ⟨_, _, starts.run ran, rfl, _, rfl, rfl⟩

end Frame

end Sniper.Replacement

import Sniper.Cache.HomeLookup

/-! The set of a line depends on its tag alone, and the address that `tagToAddress` gives is one of the line. -/

namespace Sniper.CacheBase

variable {numSets cacheBlockSize block address other : Nat} {hash : AddressHash} {ahl : Option AddressHomeLookup} {cache : State}

/-- The tag of `splitAddress`. -/
def State.tag (cache : State) (address : Nat) : Nat := shiftRight address cache.logBlocksize

def State.tagToAddress (cache : State) (tag : Nat) : Nat := tag <<< (cache.logBlocksize % 64) % 2 ^ 64

/-- Addresses with one tag are split in one way, and the address that is made from a tag is split into that tag and into
the set of the tag's line. -/
structure State.SelectsByTag (cache : State) (bits : Nat) : Prop where
  same : ∀ a < 2 ^ 64, ∀ b < 2 ^ 64, cache.tag a = cache.tag b →
    ∃ tag setIndex, cache.splitAddress a = .ok (tag, setIndex) ∧ cache.splitAddress b = .ok (tag, setIndex)
  back : ∀ tag < 2 ^ (64 - bits), ∃ setIndex, cache.splitAddress (cache.tagToAddress tag) = .ok (tag, setIndex) ∧
    ∀ a < 2 ^ 64, cache.tag a = tag → cache.splitAddress a = .ok (tag, setIndex)

/-! ## What the constructor leaves -/

theorem create_logBlocksize (blockPos : 0 < cacheBlockSize) (blockSmall : cacheBlockSize < 2 ^ 32)
    (created : create numSets cacheBlockSize hash ahl = .ok cache) :
    cache.logBlocksize = cacheBlockSize.log2 ∧ cacheBlockSize.log2 < 32 ∧ cache.ahl = ahl := by
  have logSmall : cacheBlockSize.log2 < 32 := (Nat.log2_lt (Nat.ne_of_gt blockPos)).mpr blockSmall
  unfold create at created
  rw [floorLog2_eq blockSmall blockPos] at created
  split at created
  case isTrue =>
    cases created
    refine ⟨?_, logSmall, rfl⟩
    unfold toUInt32
    dsimp only
    omega
  case isFalse => cases created

theorem create_hash (created : create numSets cacheBlockSize hash ahl = .ok cache) :
    cache.numSets = numSets ∧ cache.hash = hash ∧ (hash = .mask → 0 < numSets) := by
  unfold create at created
  split at created
  case isTrue admitted =>
    cases created
    refine ⟨rfl, rfl, fun isMask => ?_⟩
    have isPower := admitted.resolve_right fun other => other isMask
    rw [isPower]
    exact Nat.two_pow_pos _
  case isFalse => cases created

/-! ## Residues -/

theorem modulo_ok_iff {value modulus : Nat} : (∃ index, modulo value modulus = .ok index) ↔ modulus ≠ 0 := by
  unfold modulo
  split <;> simp_all

def State.Divides (cache : State) : Prop :=
  (cache.numSets = 0 → cache.hash = .merMod) ∧ (cache.numSets = 1 → cache.hash ≠ .merMod)

theorem hashBlock_ok_iff (small : cache.numSets < 2 ^ 32) (masked : cache.hash = .mask → 0 < cache.numSets) :
    (∃ index, cache.hashBlock block = .ok index) ↔ cache.Divides := by
  unfold State.Divides State.hashBlock
  cases isHash : cache.hash with
  | mask =>
    have pos := masked isHash
    simp only [Except.ok.injEq, exists_eq', reduceCtorEq, ne_eq, not_false_eq_true, implies_true, and_true, true_iff]
    omega
  | mod | rng1Mod | rng2Mod =>
    simp only [modulo_ok_iff, reduceCtorEq, ne_eq, not_false_eq_true, implies_true, and_true, imp_false]
  | primeDis | xorMod =>
    by_cases none : cache.numSets = 0
    · simp [modulo, none, bind, Except.bind]
    · simp [modulo, none, bind, Except.bind, pure, Except.pure]
  | merMod =>
    simp only [modulo_ok_iff, decrement, ne_eq, not_true_eq_false, implies_true, true_and, imp_false]
    omega

/-! ## Tags and lines -/

theorem blockNum_of_tag (aligned : ∀ lookup ∈ cache.ahl, cache.logBlocksize ≤ lookup.ahlParam) (wide : cache.logBlocksize < 64)
    (same : cache.tag address = cache.tag other) : cache.blockNum address = cache.blockNum other := by
  unfold State.blockNum State.linearAddress
  unfold State.tag at same
  cases isAhl : cache.ahl with
  | none => exact same
  | some lookup =>
    have inBlock := aligned lookup isAhl
    unfold shiftRight at same ⊢
    rw [Nat.mod_eq_of_lt wide] at same ⊢
    dsimp only
    rw [AddressHomeLookup.getLinearAddress_line inBlock, AddressHomeLookup.getLinearAddress_line inBlock, same]

theorem tag_tagToAddress {tag : Nat} (wide : cache.logBlocksize < 64) (inSpace : tag < 2 ^ (64 - cache.logBlocksize)) :
    cache.tagToAddress tag < 2 ^ 64 ∧ cache.tag (cache.tagToAddress tag) = tag := by
  have fits : tag <<< cache.logBlocksize < 2 ^ 64 := by
    rw [Nat.shiftLeft_eq]
    calc tag * 2 ^ cache.logBlocksize < 2 ^ (64 - cache.logBlocksize) * 2 ^ cache.logBlocksize :=
          Nat.mul_lt_mul_of_pos_right inSpace (Nat.two_pow_pos _)
      _ = 2 ^ 64 := by rw [← Nat.pow_add, Nat.sub_add_cancel (Nat.le_of_lt wide)]
  unfold State.tag State.tagToAddress shiftRight
  rw [Nat.mod_eq_of_lt wide, Nat.mod_eq_of_lt fits, Nat.shiftLeft_shiftRight]
  exact ⟨fits, rfl⟩

theorem splitAddress_of_tag (aligned : ∀ lookup ∈ cache.ahl, cache.logBlocksize ≤ lookup.ahlParam) (wide : cache.logBlocksize < 64)
    (same : cache.tag address = cache.tag other) : cache.splitAddress address = cache.splitAddress other := by
  unfold State.splitAddress
  rw [blockNum_of_tag aligned wide same]
  unfold State.tag at same
  rw [same]

theorem splitAddress_ok {index : Nat} (hashed : cache.hashBlock (cache.blockNum address) = .ok index) :
    cache.splitAddress address = .ok (cache.tag address, index % 2 ^ 32) := by
  simp only [State.splitAddress, hashed, bind, Except.bind, pure, Except.pure, State.tag]

/-- The set is a function of the tag, and the addresses of lines are found again, for each cache that makes no modulo by zero. -/
theorem selectsByTag_iff (small : numSets < 2 ^ 32) (blockPos : 0 < cacheBlockSize) (blockSmall : cacheBlockSize < 2 ^ 32)
    (aligned : ∀ lookup ∈ ahl, cacheBlockSize.log2 ≤ lookup.ahlParam)
    (created : create numSets cacheBlockSize hash ahl = .ok cache) :
    cache.SelectsByTag cacheBlockSize.log2 ↔ (numSets = 0 → hash = .merMod) ∧ (numSets = 1 → hash ≠ .merMod) := by
  obtain ⟨isLog, logSmall, isAhl⟩ := create_logBlocksize blockPos blockSmall created
  obtain ⟨isSets, isHash, masked⟩ := create_hash created
  rw [← isAhl, ← isLog] at aligned
  rw [← isLog] at logSmall ⊢
  rw [← isSets, ← isHash] at masked ⊢
  rw [← isSets] at small
  have wide : cache.logBlocksize < 64 := Nat.lt_trans logSmall (by decide)
  have divides (block : Nat) := @hashBlock_ok_iff block cache small masked
  constructor
  · intro selects
    obtain ⟨tag, setIndex, split, -⟩ := selects.same 0 (by decide) 0 (by decide) rfl
    apply (divides (cache.blockNum 0)).mp
    cases hashed : cache.hashBlock (cache.blockNum 0) with
    | error reason => simp [State.splitAddress, hashed, bind, Except.bind] at split
    | ok index => exact ⟨index, rfl⟩
  · intro condition
    constructor
    · intro a _ b _ same
      obtain ⟨index, hashed⟩ := (divides (cache.blockNum a)).mpr condition
      have split := splitAddress_ok hashed
      exact ⟨_, _, split, (splitAddress_of_tag aligned wide same).symm.trans split⟩
    · intro tag inSpace
      obtain ⟨-, isTag⟩ := tag_tagToAddress wide inSpace
      obtain ⟨index, hashed⟩ := (divides (cache.blockNum (cache.tagToAddress tag))).mpr condition
      have split := splitAddress_ok hashed
      rw [isTag] at split
      exact ⟨_, split, fun a _ has => (splitAddress_of_tag aligned wide (has.trans isTag.symm)).trans split⟩

/-- One set: the modulus of `HASH_MER_MOD` is zero. -/
theorem selectsByTag_oneSet : ¬∀ (numSets cacheBlockSize : Nat) (hash : AddressHash) (ahl : Option AddressHomeLookup) (cache : State),
    0 < numSets → numSets < 2 ^ 32 → 0 < cacheBlockSize → cacheBlockSize < 2 ^ 32 →
      (∀ lookup ∈ ahl, cacheBlockSize.log2 ≤ lookup.ahlParam) → create numSets cacheBlockSize hash ahl = .ok cache →
        cache.SelectsByTag cacheBlockSize.log2 := by
  intro all
  have selects := all 1 64 .merMod none ⟨1, 6, 0, .merMod, none⟩ (by decide) (by decide) (by decide) (by decide) (by simp) rfl
  obtain ⟨tag, setIndex, split, -⟩ := selects.same 0 (by decide) 0 (by decide) rfl
  have fails : State.splitAddress ⟨1, 6, 0, .merMod, none⟩ 0 = .error .moduloByZero := rfl
  rw [fails] at split
  cases split

theorem selectsByTag_iff_threeSets : State.SelectsByTag ⟨3, 6, 1, .merMod, none⟩ 6 := by
  have created : create 3 64 .merMod none = .ok ⟨3, 6, 1, .merMod, none⟩ := rfl
  have isLog : Nat.log2 64 = 6 := by decide
  have condition := (selectsByTag_iff (by decide) (by decide) (by decide) (by simp) created).mpr ⟨by decide, by decide⟩
  rwa [isLog] at condition

end Sniper.CacheBase

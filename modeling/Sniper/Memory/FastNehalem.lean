import Sniper.Cache.AddressHash
import Sniper.Library.LeastSearch
import Sniper.Library.Recency
import Sniper.Replacement.Policy

/-! The caches of `fast_nehalem`, whose sets count their accesses to find the line used last. -/

namespace Sniper.FastNehalem

open LeastSearch Recency
open Replacement (Fault)

/-- `Core::mem_op_t` -/
inductive MemOp where
  | read
  | readEx
  | write
deriving DecidableEq, Repr

def uint64Max : Nat := 2 ^ 64 - 1

structure CacheSet where
  tags : Nat → Nat
  lru : Nat → Nat
  lruMax : Nat

namespace CacheSet

def zero : CacheSet := ⟨fun _ => 0, fun _ => 0, 0⟩

/-- `++m_lru_max` -/
def tick (set : CacheSet) : Nat := (set.lruMax + 1) % 2 ^ 64

def idxMin (associativity : Nat) (set : CacheSet) : Nat :=
  ((List.range associativity).foldl (fun (idxMin, lruMin) idx =>
    if set.lru idx < lruMin then (idx, set.lru idx) else (idxMin, lruMin)) (0, uint64Max)).1

/-- `find`, with whether the tag is there. -/
def find (associativity : Nat) (set : CacheSet) (tag : Nat) : Except Fault (CacheSet × Bool) :=
  match (List.range associativity).find? (set.tags · = tag) with
  | some idx => .ok (⟨set.tags, Function.update set.lru idx set.tick, set.tick⟩, true)
  | none =>
    let idxMin := set.idxMin associativity
    if idxMin < associativity then
      .ok (⟨Function.update set.tags idxMin tag, Function.update set.lru idxMin set.tick, set.tick⟩, false)
    else .error .outOfBounds

end CacheSet

structure Cache where
  sets : Nat → CacheSet
  loads : Nat
  stores : Nat
  loadMisses : Nat
  storeMisses : Nat

def numSets (associativity sizeKb : Nat) : Nat := sizeKb * 1024 % 2 ^ 32 / 64 / associativity

def setsMask (associativity sizeKb : Nat) : Nat := numSets associativity sizeKb - 1

/-- "Number of sets must be power of 2" is not raised. -/
def Constructs (associativity sizeKb : Nat) : Prop :=
  2 ^ (CacheBase.floorLog2 (numSets associativity sizeKb)).toNat = numSets associativity sizeKb

instance (associativity sizeKb : Nat) : Decidable (Constructs associativity sizeKb) :=
  inferInstanceAs (Decidable (_ = _))

def setOf (associativity sizeKb tag : Nat) : Nat := tag &&& setsMask associativity sizeKb

namespace Cache

def create : Cache := ⟨fun _ => .zero, 0, 0, 0, 0⟩

def countAccess (cache : Cache) (memOpType : MemOp) : Cache :=
  if memOpType = .write then { cache with stores := (cache.stores + 1) % 2 ^ 64 }
  else { cache with loads := (cache.loads + 1) % 2 ^ 64 }

def countMiss (cache : Cache) (memOpType : MemOp) : Cache :=
  if memOpType = .write then { cache with storeMisses := (cache.storeMisses + 1) % 2 ^ 64 }
  else { cache with loadMisses := (cache.loadMisses + 1) % 2 ^ 64 }

/-- `access`, with whether the tag is found.  Otherwise the next level is accessed. -/
def access (associativity sizeKb : Nat) (cache : Cache) (memOpType : MemOp) (tag : Nat) : Except Fault (Cache × Bool) := do
  let cache := cache.countAccess memOpType
  let setIndex := setOf associativity sizeKb tag
  let (set, found) ← (cache.sets setIndex).find associativity tag
  let cache := { cache with sets := Function.update cache.sets setIndex set }
  if found then return (cache, true) else return (cache.countMiss memOpType, false)

end Cache

/-! ### One access to a set -/

variable {associativity sizeKb tag way : Nat} {set : CacheSet} {past ways : List Nat}

namespace CacheSet

def use (set : CacheSet) (way tag : Nat) : CacheSet :=
  ⟨Function.update set.tags way tag, Function.update set.lru way set.tick, set.tick⟩

def held (set : CacheSet) (way : Nat) : Option Nat := if set.tags way = 0 then none else some (set.tags way)

theorem held_eq_some (isTag : tag ≠ 0) : set.held way = some tag ↔ set.tags way = tag := by
  rw [held]
  split
  case isTrue empty =>
    rw [empty]
    exact ⟨nofun, fun same => absurd same.symm isTag⟩
  case isFalse => rw [Option.some.injEq]

theorem held_use (isTag : tag ≠ 0) : (set.use way tag).held = Function.update set.held way (some tag) := by
  funext other
  by_cases same : other = way
  · subst same
    simp [held, use, isTag]
  · simp [held, use, same]

theorem idxMin_eq : set.idxMin associativity =
    (search (0, uint64Max) ((List.range associativity).map fun way => (way, set.lru way))).1 := by
  rw [← foldl_eq_search]
  rfl

/-- The way that is replaced is one with the least count, if the counts are below the largest number. -/
theorem idxMin_least (positive : 0 < associativity) (small : ∀ way < associativity, set.lru way < uint64Max) :
    set.idxMin associativity < associativity ∧ ∀ way < associativity, set.lru (set.idxMin associativity) ≤ set.lru way := by
  rw [idxMin_eq]
  obtain ⟨-, above⟩ | ⟨-, least⟩ := search_cases (0, uint64Max) ((List.range associativity).map fun way => (way, set.lru way))
  · have first := above (0, set.lru 0) (List.mem_map_of_mem (List.mem_range.mpr positive))
    exact absurd (small 0 positive) (Nat.not_lt.mpr first)
  · obtain ⟨way, isWay, found⟩ := List.mem_map.mp least.mem
    rw [← found] at least ⊢
    exact ⟨List.mem_range.mp isWay, fun other isOther => least.le _ (List.mem_map_of_mem (List.mem_range.mpr isOther))⟩

theorem idxMin_lt (positive : 0 < associativity) : set.idxMin associativity < associativity := by
  rw [idxMin_eq]
  obtain ⟨same, -⟩ | ⟨-, least⟩ := search_cases (0, uint64Max) ((List.range associativity).map fun way => (way, set.lru way))
  · rw [same]
    exact positive
  · obtain ⟨way, isWay, found⟩ := List.mem_map.mp least.mem
    rw [← found]
    exact List.mem_range.mp isWay

theorem find_cases (positive : 0 < associativity) (set : CacheSet) (tag : Nat) :
    (∃ way < associativity, set.tags way = tag ∧ set.find associativity tag = .ok (set.use way tag, true)) ∨
      (∀ way < associativity, set.tags way ≠ tag) ∧
        set.find associativity tag = .ok (set.use (set.idxMin associativity) tag, false) := by
  rw [find]
  cases found : (List.range associativity).find? (set.tags · = tag) with
  | some way =>
    left
    have isWay : way < associativity := List.mem_range.mp (List.mem_of_find?_eq_some found)
    have same : set.tags way = tag := by simpa using List.find?_some found
    refine ⟨way, isWay, same, ?_⟩
    rw [use, ← same, Function.update_eq_self]
  | none =>
    right
    refine ⟨?_, if_pos (idxMin_lt positive)⟩
    intro way isWay
    simpa using List.find?_eq_none.mp found way (List.mem_range.mpr isWay)

end CacheSet

/-! ### What a set keeps -/

/-- The ways hold the tags that were accessed last, and their counts are in the order of their last use. -/
structure KeepsSet (associativity : Nat) (set : CacheSet) (past ways : List Nat) : Prop where
  kept : Kept associativity set.held ways past
  mem : ∀ {way}, way ∈ ways ↔ way < associativity
  newest : ways.Pairwise fun newer older => set.lru older < set.lru newer ∨ set.lru older = 0
  unused : ∀ way, set.lru way = 0 ↔ set.tags way = 0
  counts : ∀ way, set.lru way ≤ past.length
  lruMax : set.lruMax = past.length

namespace KeepsSet

theorem start (associativity : Nat) : KeepsSet associativity .zero [] (List.range associativity) where
  kept := .start List.nodup_range List.length_range fun _ _ => rfl
  mem := List.mem_range
  newest := List.pairwise_of_forall fun _ _ => .inr rfl
  unused _ := Iff.rfl
  counts _ := Nat.le_refl 0
  lruMax := rfl

theorem find_iff (keeps : KeepsSet associativity set past ways) (positive : 0 < associativity) (isTag : tag ≠ 0) :
    (∃ after, set.find associativity tag = .ok (after, true)) ↔ tag ∈ past ∧ distance tag past < associativity := by
  rw [← keeps.kept.mem]
  obtain ⟨way, small, same, found⟩ | ⟨missing, found⟩ := set.find_cases positive tag
  · rw [found]
    exact ⟨fun _ => ⟨way, keeps.mem.mpr small, (CacheSet.held_eq_some isTag).mpr same⟩, fun _ => ⟨_, rfl⟩⟩
  · rw [found]
    constructor
    · intro ⟨after, hit⟩
      cases hit
    · intro ⟨way, member, holds⟩
      exact absurd ((CacheSet.held_eq_some isTag).mp holds) (missing way (keeps.mem.mp member))

/-- The way with the least count is one that was not used, or the last one in order when all were used. -/
theorem victim (keeps : KeepsSet associativity set past ways) (positive : 0 < associativity) (fits : past.length + 1 < 2 ^ 64) :
    set.held (set.idxMin associativity) = none ∨
      ∃ front, ways = front ++ [set.idxMin associativity] ∧ ∀ other ∈ ways, (set.held other).isSome := by
  have small : ∀ way < associativity, set.lru way < uint64Max := by
    intro way _
    have count := keeps.counts way
    rw [uint64Max]
    omega
  obtain ⟨isWay, least⟩ := CacheSet.idxMin_least positive small
  by_cases empty : set.lru (set.idxMin associativity) = 0
  · exact .inl (if_pos ((keeps.unused _).mp empty))
  · right
    have used : ∀ other ∈ ways, set.lru other ≠ 0 := by
      intro other member zero
      have above := least other (keeps.mem.mp member)
      omega
    have nonempty : ways ≠ [] := List.ne_nil_of_mem (keeps.mem.mpr isWay)
    obtain ⟨front, last, isLast⟩ := (List.eq_nil_or_concat ways).resolve_left nonempty
    rw [List.concat_eq_append] at isLast
    have lastWay : last ∈ ways := isLast ▸ List.mem_append_right _ (List.mem_singleton.mpr rfl)
    have same : set.idxMin associativity = last := by
      have member : set.idxMin associativity ∈ front ++ [last] := isLast ▸ keeps.mem.mpr isWay
      rcases List.mem_append.mp member with inFront | atEnd
      · have ordered := keeps.newest
        rw [isLast, List.pairwise_append] at ordered
        rcases ordered.2.2 _ inFront last (List.mem_singleton.mpr rfl) with less | zero
        · have above := least last (keeps.mem.mp lastWay)
          omega
        · exact absurd zero (used last lastWay)
      · exact List.mem_singleton.mp atEnd
    refine ⟨front, same ▸ isLast, fun other member => ?_⟩
    rw [CacheSet.held, if_neg (mt (keeps.unused other).mpr (used other member))]
    rfl

theorem use (keeps : KeepsSet associativity set past ways) (fits : past.length + 1 < 2 ^ 64) (isTag : tag ≠ 0)
    (small : way < associativity) (kept : Kept associativity (Function.update set.held way (some tag)) (touch way ways) (tag :: past)) :
    KeepsSet associativity (set.use way tag) (tag :: past) (touch way ways) := by
  have tick : set.tick = past.length + 1 := by rw [CacheSet.tick, keeps.lruMax, Nat.mod_eq_of_lt fits]
  have isWay : way ∈ ways := keeps.mem.mpr small
  refine ⟨CacheSet.held_use isTag ▸ kept, ?_, ?_, ?_, ?_, tick⟩
  · intro other
    rw [(touch_perm isWay).mem_iff]
    exact keeps.mem
  · have others : ∀ other ∈ ways.erase way, (set.use way tag).lru other = set.lru other :=
      fun other member => Function.update_of_ne (keeps.kept.nodup.mem_erase_iff.mp member).1 ..
    rw [touch, List.pairwise_cons]
    constructor
    · intro other member
      left
      have count := keeps.counts other
      have newest : (set.use way tag).lru way = past.length + 1 := (Function.update_self ..).trans tick
      rw [others other member, newest]
      omega
    · refine (keeps.newest.sublist List.erase_sublist).imp_of_mem fun newer older ordered => ?_
      rw [others _ newer, others _ older]
      exact ordered
  · intro other
    by_cases same : other = way
    · subst same
      simp [CacheSet.use, tick, isTag]
    · simpa [CacheSet.use, same] using keeps.unused other
  · intro other
    by_cases same : other = way
    · subst same
      simp [CacheSet.use, tick]
    · have count := keeps.counts other
      simp only [CacheSet.use, Function.update_of_ne same, List.length_cons]
      omega

theorem find (keeps : KeepsSet associativity set past ways) (positive : 0 < associativity) (fits : past.length + 1 < 2 ^ 64)
    (isTag : tag ≠ 0) : ∃ after hit ways, set.find associativity tag = .ok (after, hit) ∧
      KeepsSet associativity after (tag :: past) ways := by
  obtain ⟨way, small, same, found⟩ | ⟨missing, found⟩ := set.find_cases positive tag
  · have holds : set.held way = some tag := (CacheSet.held_eq_some isTag).mpr same
    have kept := keeps.kept.hit (keeps.mem.mpr small) holds
    rw [← Function.update_eq_self way set.held, holds] at kept
    exact ⟨_, _, _, found, keeps.use fits isTag small kept⟩
  · have small : set.idxMin associativity < associativity := CacheSet.idxMin_lt positive
    have absent : ∀ other ∈ ways, set.held other ≠ some tag := by
      intro other member holds
      exact missing other (keeps.mem.mp member) ((CacheSet.held_eq_some isTag).mp holds)
    have kept := keeps.kept.fill (keeps.mem.mpr small) absent (keeps.victim positive fits)
    exact ⟨_, _, _, found, keeps.use fits isTag small kept⟩

end KeepsSet

/-! ### All sets -/

variable {cache : Cache} {memOpType : MemOp} {hit : Bool}

def KeepsSets (associativity sizeKb : Nat) (cache : Cache) (past : List Nat) : Prop :=
  ∀ setIndex, ∃ ways, KeepsSet associativity (cache.sets setIndex) (past.filter (setOf associativity sizeKb · = setIndex)) ways

namespace Cache

theorem countAccess_sets : (cache.countAccess memOpType).sets = cache.sets := by
  unfold countAccess
  split <;> rfl

theorem countMiss_sets : (cache.countMiss memOpType).sets = cache.sets := by
  unfold countMiss
  split <;> rfl

theorem access_of_find (found : (cache.sets (setOf associativity sizeKb tag)).find associativity tag = .ok (set, hit))
    (memOpType : MemOp) :
    ∃ after, cache.access associativity sizeKb memOpType tag = .ok (after, hit) ∧
      after.sets = Function.update cache.sets (setOf associativity sizeKb tag) set := by
  cases hit with
  | true =>
    refine ⟨{ cache.countAccess memOpType with
      sets := Function.update (cache.countAccess memOpType).sets (setOf associativity sizeKb tag) set }, ?_, ?_⟩
    · simp only [access, countAccess_sets, found, bind, Except.bind, if_true]
      rfl
    · rw [countAccess_sets]
  | false =>
    refine ⟨({ cache.countAccess memOpType with
      sets := Function.update (cache.countAccess memOpType).sets (setOf associativity sizeKb tag) set } : Cache).countMiss memOpType,
      ?_, ?_⟩
    · simp only [access, countAccess_sets, found, bind, Except.bind, Bool.false_eq_true, if_false]
      rfl
    · rw [countMiss_sets, countAccess_sets]

theorem access_ok (positive : 0 < associativity) (cache : Cache) (memOpType : MemOp) (tag : Nat) :
    ∃ result, cache.access associativity sizeKb memOpType tag = .ok result := by
  obtain ⟨way, -, -, found⟩ | ⟨-, found⟩ := (cache.sets (setOf associativity sizeKb tag)).find_cases positive tag
  · obtain ⟨after, accessed, -⟩ := access_of_find found memOpType
    exact ⟨_, accessed⟩
  · obtain ⟨after, accessed, -⟩ := access_of_find found memOpType
    exact ⟨_, accessed⟩

end Cache

namespace KeepsSets

theorem start (associativity sizeKb : Nat) : KeepsSets associativity sizeKb .create [] :=
  fun _ => ⟨List.range associativity, .start associativity⟩

/-- An access finds its tag as long as few other tags of the set were accessed since. -/
theorem hits_iff (keeps : KeepsSets associativity sizeKb cache past) (positive : 0 < associativity) (isTag : tag ≠ 0) (memOpType : MemOp) :
    (∃ after, cache.access associativity sizeKb memOpType tag = .ok (after, true)) ↔
      tag ∈ past ∧ distance tag (past.filter (setOf associativity sizeKb · = setOf associativity sizeKb tag)) < associativity := by
  obtain ⟨ways, kept⟩ := keeps (setOf associativity sizeKb tag)
  have inPast : tag ∈ past ↔ tag ∈ past.filter (setOf associativity sizeKb · = setOf associativity sizeKb tag) := by simp
  rw [inPast, ← kept.find_iff positive isTag]
  constructor
  · intro ⟨after, accessed⟩
    obtain ⟨way, -, -, found⟩ | ⟨-, found⟩ := (cache.sets (setOf associativity sizeKb tag)).find_cases positive tag
    · exact ⟨_, found⟩
    · obtain ⟨other, missed, -⟩ := Cache.access_of_find found memOpType
      cases missed.symm.trans accessed
  · intro ⟨set, found⟩
    obtain ⟨after, accessed, -⟩ := Cache.access_of_find found memOpType
    exact ⟨after, accessed⟩

theorem access (keeps : KeepsSets associativity sizeKb cache past) (positive : 0 < associativity) (isTag : tag ≠ 0)
    (fits : (past.filter (setOf associativity sizeKb · = setOf associativity sizeKb tag)).length + 1 < 2 ^ 64) (memOpType : MemOp) :
    ∃ after hit, cache.access associativity sizeKb memOpType tag = .ok (after, hit) ∧
      KeepsSets associativity sizeKb after (tag :: past) := by
  obtain ⟨ways, kept⟩ := keeps (setOf associativity sizeKb tag)
  obtain ⟨set, hit, ways', found, kept'⟩ := kept.find positive fits isTag
  obtain ⟨after, accessed, sets⟩ := Cache.access_of_find found memOpType
  refine ⟨after, hit, accessed, ?_⟩
  intro setIndex
  rw [sets]
  by_cases same : setOf associativity sizeKb tag = setIndex
  · subst same
    rw [List.filter_cons_of_pos (by simp), Function.update_self]
    exact ⟨ways', kept'⟩
  · rw [List.filter_cons_of_neg (by simpa using same), Function.update_of_ne (Ne.symm same)]
    exact keeps setIndex

end KeepsSets

end Sniper.FastNehalem

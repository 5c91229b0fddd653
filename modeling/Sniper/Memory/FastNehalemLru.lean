import Sniper.Memory.FastNehalem
import Sniper.Replacement.SaturatedBits

/-! A cache of `fast_nehalem` next to a cache with the policy `lru`, for the same accesses. -/

namespace Sniper.FastNehalem

open Recency
open Replacement (Fault Tag Call AccessType CacheSetLRU accesses accesses_past keepsAll_reach noUpgrade)

variable {associativity sizeKb : Nat}

/-! ### Both caches -/

/-- How a cache without fast paths is accessed. -/
def MemOp.accessType (memOpType : MemOp) : AccessType := if memOpType = .write then .store else .load

structure Access where
  memOpType : MemOp
  tag : Tag
  call : Call

/-- A fast cache, and one with the policy `lru` together with the tags that were accessed, the last one first. -/
structure Twins (associativity : Nat) where
  fast : Cache
  lru : Replacement.Cache (CacheSetLRU associativity 1) × List Nat

/-- Both caches take the same accesses; `lru` inserts a line on each miss. -/
def twins (associativity sizeKb : Nat) : Machine (Twins associativity) Access Fault where
  initial start := start.fast = .create ∧
    (accesses (CacheSetLRU associativity 1) (setOf associativity sizeKb)).initial start.lru
  step now access := do
    let (fast, _) ← now.fast.access associativity sizeKb access.memOpType access.tag
    let lru ← (accesses (CacheSetLRU associativity 1) (setOf associativity sizeKb)).step now.lru
      (.access access.tag access.memOpType.accessType access.call)
    return ⟨fast, lru⟩

namespace Twins

/-- Both caches without lines. -/
def empty (associativity : Nat) : Twins associativity := ⟨.create, ⟨fun _ => ⟨fun _ => .invalid, Replacement.initialLruBits⟩⟩, []⟩

theorem empty_initial (associativity sizeKb : Nat) : (twins associativity sizeKb).initial (.empty associativity) :=
  ⟨rfl, fun _ => ⟨fun _ => rfl, rfl⟩, rfl⟩

/-- The tags of a set that were accessed, the last one first. -/
def pastOf (sizeKb : Nat) (now : Twins associativity) (setIndex : Nat) : List Nat :=
  now.lru.2.filter (setOf associativity sizeKb · = setIndex)

/-- The tag is not zero, and the count of its set does not overflow. -/
def Allowed (sizeKb : Nat) (now : Twins associativity) (access : Access) : Prop :=
  access.tag.val ≠ 0 ∧ (now.pastOf sizeKb (setOf associativity sizeKb access.tag)).length + 1 < 2 ^ 64

def FastHits (sizeKb : Nat) (now : Twins associativity) (memOpType : MemOp) (tag : Tag) : Prop :=
  ∃ after, now.fast.access associativity sizeKb memOpType tag = .ok (after, true)

/-- The cache with the policy `lru` finds the tag. -/
def LruHits (sizeKb : Nat) (now : Twins associativity) (memOpType : MemOp) (tag : Tag) : Prop :=
  ∃ after way, now.lru.1.accessSingleLine (setOf associativity sizeKb) tag memOpType.accessType true = .ok (after, some way)

/-- The fast cache finds the tags after whose last access fewer other tags of the set were accessed than there are ways, and these
are the ones that `lru` finds. -/
def Agree (sizeKb : Nat) (now : Twins associativity) : Prop :=
  ∀ memOpType (tag : Tag), tag.val ≠ 0 →
    (now.FastHits sizeKb memOpType tag ↔
      tag.val ∈ now.lru.2 ∧ distance tag.val (now.pastOf sizeKb (setOf associativity sizeKb tag)) < associativity) ∧
    (now.FastHits sizeKb memOpType tag ↔ now.LruHits sizeKb memOpType tag)

end Twins

/-! ### Runs of both caches -/

theorem Constructs.numSets_pos (constructs : Constructs associativity sizeKb) : 0 < numSets associativity sizeKb :=
  Eq.subst constructs (Nat.two_pow_pos _)

theorem Constructs.positive (constructs : Constructs associativity sizeKb) : 0 < associativity := by
  apply Nat.pos_of_ne_zero
  intro none_
  have sets := constructs.numSets_pos
  rw [none_, numSets, Nat.div_zero] at sets
  exact Nat.lt_irrefl 0 sets

section Steps

variable {now next : Twins associativity} {access : Access}

theorem twins_step {fast : Cache} {hit : Bool} {lru : Replacement.Cache (CacheSetLRU associativity 1) × List Nat}
    (onFast : now.fast.access associativity sizeKb access.memOpType access.tag = .ok (fast, hit))
    (onLru : (accesses (CacheSetLRU associativity 1) (setOf associativity sizeKb)).step now.lru
      (.access access.tag access.memOpType.accessType access.call) = .ok lru) :
    (twins associativity sizeKb).step now access = .ok ⟨fast, lru⟩ := by
  simp only [twins, onFast, onLru, bind, Except.bind]
  rfl

theorem twins_step_cases (stepped : (twins associativity sizeKb).step now access = .ok next) :
    (∃ hit, now.fast.access associativity sizeKb access.memOpType access.tag = .ok (next.fast, hit)) ∧
      (accesses (CacheSetLRU associativity 1) (setOf associativity sizeKb)).step now.lru
        (.access access.tag access.memOpType.accessType access.call) = .ok next.lru := by
  simp only [twins, bind, Except.bind] at stepped
  split at stepped
  case h_1 => cases stepped
  case h_2 result onFast =>
    split at stepped
    case h_1 => cases stepped
    case h_2 lru onLru =>
      cases stepped
      exact ⟨⟨result.2, onFast⟩, onLru⟩

end Steps

namespace Twins

variable {now next : Twins associativity}

theorem keepsSets (positive : 0 < associativity) (reached : (twins associativity sizeKb).Reach (Allowed sizeKb) now) :
    KeepsSets associativity sizeKb now.fast now.lru.2 := by
  refine reached.invariant (fun now => KeepsSets associativity sizeKb now.fast now.lru.2) ?_ ?_
  · intro start starts
    rw [starts.1, starts.2.2]
    exact .start associativity sizeKb
  · intro before access after keeps allowed stepped
    obtain ⟨⟨hit, onFast⟩, onLru⟩ := twins_step_cases stepped
    obtain ⟨fast, hit', accessed, kept⟩ := keeps.access positive allowed.1 allowed.2 access.memOpType
    cases accessed.symm.trans onFast
    rw [accesses_past onLru]
    exact kept

theorem lru_reach (reached : (twins associativity sizeKb).Reach (Allowed sizeKb) now) :
    (accesses (CacheSetLRU associativity 1) (setOf associativity sizeKb)).Reach noUpgrade now.lru := by
  induction reached with
  | initial starts => exact .initial starts.2
  | step access _ _ stepped ih =>
    apply Machine.Reach.step _ ih _ (twins_step_cases stepped).2
    intro tag upgrades
    cases upgrades

theorem agree (positive : 0 < associativity) (fits : associativity ≤ 256)
    (reached : (twins associativity sizeKb).Reach (Allowed sizeKb) now) : now.Agree sizeKb := by
  intro memOpType tag isTag
  have fastHits := (keepsSets positive reached).hits_iff positive isTag memOpType
  have lruHits := (keepsAll_reach fits (lru_reach reached)).hits_iff tag memOpType.accessType
  exact ⟨fastHits, fastHits.trans lruHits.symm⟩

theorem step_ok (positive : 0 < associativity) (fits : associativity ≤ 256)
    (reached : (twins associativity sizeKb).Reach (Allowed sizeKb) now) (access : Access) :
    ∃ next, (twins associativity sizeKb).step now access = .ok next := by
  obtain ⟨⟨fast, hit⟩, onFast⟩ := now.fast.access_ok positive access.memOpType access.tag
  obtain ⟨lru, onLru, -⟩ :=
    (keepsAll_reach fits (lru_reach reached)).access positive access.tag access.memOpType.accessType access.call
  exact ⟨_, twins_step onFast onLru⟩

/-! ### A run with more ways than the bits of `lru` can order -/

/-- The tags of the run are in the first set. -/
def runTag (associativity sizeKb way : Nat) : Nat := (way + 1) * numSets associativity sizeKb

theorem runTag_ne_zero (constructs : Constructs associativity sizeKb) (way : Nat) : runTag associativity sizeKb way ≠ 0 :=
  Nat.mul_ne_zero (Nat.succ_ne_zero way) (Nat.ne_of_gt constructs.numSets_pos)

theorem setOf_runTag (constructs : Constructs associativity sizeKb) (way : Nat) :
    setOf associativity sizeKb (runTag associativity sizeKb way) = 0 := by
  have power : 2 ^ _ = numSets associativity sizeKb := constructs
  rw [setOf, setsMask, runTag, ← power, Nat.and_two_pow_sub_one_eq_mod]
  exact Nat.mul_mod_left ..

theorem sets_mul_ways_lt : numSets associativity sizeKb * associativity < 2 ^ 26 := by
  apply Nat.lt_of_le_of_lt (Nat.div_mul_le_self ..)
  omega

theorem ways_lt (constructs : Constructs associativity sizeKb) : associativity < 2 ^ 26 :=
  Nat.lt_of_le_of_lt (Nat.le_mul_of_pos_left associativity constructs.numSets_pos) sets_mul_ways_lt

theorem runTag_fresh (constructs : Constructs associativity sizeKb) :
    Replacement.Fresh associativity (runTag associativity sizeKb) where
  valid {way} isWay := by
    have most : runTag associativity sizeKb way ≤ (associativity + 1) * numSets associativity sizeKb :=
      Nat.mul_le_mul_right _ (Nat.succ_le_succ isWay)
    have lines : numSets associativity sizeKb * associativity < 2 ^ 26 := sets_mul_ways_lt
    have sets : numSets associativity sizeKb ≤ numSets associativity sizeKb * associativity :=
      Nat.le_mul_of_pos_right _ constructs.positive
    rw [Nat.add_mul, Nat.one_mul, Nat.mul_comm associativity] at most
    rw [Replacement.invalidTag]
    omega
  injective _ _ same := Nat.succ_injective (Nat.eq_of_mul_eq_mul_right constructs.numSets_pos same)

/-- A run that used some ways of the first set, the last one first. -/
structure Uses (sizeKb filled : Nat) (bits : Nat → Nat) (ways : List Nat) (now : Twins associativity) : Prop where
  reached : (twins associativity sizeKb).Reach (Allowed sizeKb) now
  filledUp : Replacement.Filled (runTag associativity sizeKb) 0 filled bits now.lru
  past : now.lru.2 = ways.map (runTag associativity sizeKb)

section Run

variable {filled way : Nat} {bits : Nat → Nat} {ways : List Nat}

theorem filter_runTag (constructs : Constructs associativity sizeKb) :
    (ways.map (runTag associativity sizeKb)).filter (setOf associativity sizeKb · = 0) = ways.map (runTag associativity sizeKb) := by
  rw [List.filter_eq_self]
  intro tag member
  obtain ⟨way, -, isTag⟩ := List.mem_map.mp member
  rw [← isTag, setOf_runTag constructs]
  rfl

theorem Uses.reach_read (uses : Uses sizeKb filled bits ways now) (constructs : Constructs associativity sizeKb)
    (few : ways.length ≤ 2 * associativity) {tag : Tag} (isTag : tag.val = runTag associativity sizeKb way)
    {lru : Replacement.Cache (CacheSetLRU associativity 1) × List Nat}
    (onLru : (accesses (CacheSetLRU associativity 1) (setOf associativity sizeKb)).step now.lru
      (.access tag .load Replacement.plainCall) = .ok lru) :
    ∃ next, (twins associativity sizeKb).Reach (Allowed sizeKb) next ∧ next.lru = lru := by
  obtain ⟨⟨fast, hit⟩, onFast⟩ := now.fast.access_ok constructs.positive .read tag
  have allowed : Allowed sizeKb now ⟨.read, tag, Replacement.plainCall⟩ := by
    have small := ways_lt constructs
    rw [Allowed, isTag, setOf_runTag constructs, pastOf, uses.past, filter_runTag constructs, List.length_map]
    exact ⟨runTag_ne_zero constructs way, by omega⟩
  exact ⟨⟨fast, lru⟩, .step _ uses.reached allowed (twins_step onFast onLru), rfl⟩

theorem fills (constructs : Constructs associativity sizeKb) (few : filled ≤ associativity) :
    ∃ now : Twins associativity,
      Uses sizeKb filled (Replacement.filledBits associativity filled) (List.range filled).reverse now := by
  induction filled with
  | zero =>
    have noLines : Replacement.filledBlocks (runTag associativity sizeKb) 0 = fun _ => .invalid := by
      funext way
      exact if_neg (Nat.not_lt_zero way)
    exact ⟨_, .initial (empty_initial ..), ⟨noLines.symm, Replacement.filledBits_zero.symm⟩, rfl⟩
  | succ filled ih =>
    obtain ⟨now, uses⟩ := ih (Nat.le_of_succ_le few)
    obtain ⟨lru, onLru, filledUp, past⟩ := uses.filledUp.fill (runTag_fresh constructs) (setOf_runTag constructs filled) few
      .load Replacement.plainCall
    have short : (List.range filled).reverse.length ≤ 2 * associativity := by
      rw [List.length_reverse, List.length_range]
      omega
    obtain ⟨next, reached, rfl⟩ := uses.reach_read constructs short rfl onLru
    rw [Replacement.moveToMRU_filled few] at filledUp
    refine ⟨next, reached, filledUp, ?_⟩
    rw [past, uses.past, List.range_succ, List.reverse_append]
    rfl

/-- The ways that a run uses after the first one: all ways, then way 0 and the ways from 2 on. -/
def agedWays (associativity count : Nat) : List Nat := (List.range' 2 count).reverse ++ 0 :: (List.range associativity).reverse

theorem agedWays_few {count : Nat} (few : count + 1 < associativity) : (agedWays associativity count).length ≤ 2 * associativity := by
  simp [agedWays]
  omega

theorem Uses.again (uses : Uses sizeKb associativity bits ways now) (constructs : Constructs associativity sizeKb)
    (few : ways.length ≤ 2 * associativity) (small : way < associativity) (inside : bits way < associativity) :
    ∃ next : Twins associativity, Uses sizeKb associativity (Replacement.moveToMRU associativity way bits) (way :: ways) next := by
  obtain ⟨lru, onLru, filledUp, past⟩ := uses.filledUp.use (runTag_fresh constructs) (setOf_runTag constructs way) small inside
    .load Replacement.plainCall
  obtain ⟨next, reached, rfl⟩ := uses.reach_read constructs few rfl onLru
  exact ⟨next, reached, filledUp, by rw [past, uses.past, List.map_cons]⟩

theorem ages (constructs : Constructs associativity sizeKb) (many : 256 < associativity) {count : Nat} (few : count + 1 < associativity) :
    ∃ now : Twins associativity,
      Uses sizeKb associativity (Replacement.agedBits associativity (count + 1)) (agedWays associativity count) now := by
  induction count with
  | zero =>
    obtain ⟨now, uses⟩ := fills constructs (Nat.le_refl associativity)
    have short : (List.range associativity).reverse.length ≤ 2 * associativity := by
      rw [List.length_reverse, List.length_range]
      omega
    have inside : Replacement.filledBits associativity associativity 0 < associativity := by
      rw [Replacement.filledBits, if_pos constructs.positive]
      omega
    rw [← Replacement.moveToMRU_first many]
    exact uses.again constructs short constructs.positive inside
  | succ count ih =>
    obtain ⟨now, uses⟩ := ih (Nat.lt_of_succ_lt few)
    have inside : Replacement.agedBits associativity (count + 1) (count + 2) < associativity := by
      rw [Replacement.agedBits, if_pos few]
      omega
    have ways : agedWays associativity (count + 1) = (count + 2) :: agedWays associativity count := by
      rw [agedWays, List.range'_1_concat, List.reverse_append, Nat.add_comm 2 count]
      rfl
    rw [ways, ← Replacement.moveToMRU_aged many (Nat.succ_pos count) few]
    exact uses.again constructs (agedWays_few (Nat.lt_of_succ_lt few)) few inside

theorem differ (constructs : Constructs associativity sizeKb) (many : 256 < associativity) :
    ∃ now, (twins associativity sizeKb).Reach (Allowed sizeKb) now ∧
      now.lru.2 = (associativity :: agedWays associativity (associativity - 2)).map (runTag associativity sizeKb) ∧
      ∀ memOpType (tag : Tag), tag.val = runTag associativity sizeKb 0 →
        now.FastHits sizeKb memOpType tag ∧ ¬now.LruHits sizeKb memOpType tag := by
  have fresh := runTag_fresh constructs
  have few : associativity - 2 + 1 < associativity := by omega
  have aged : associativity - 2 + 1 = associativity - 1 := by omega
  obtain ⟨now, uses⟩ := ages constructs many few
  rw [aged] at uses
  obtain ⟨lru, onLru, gone, past⟩ := uses.filledUp.replace fresh many (setOf_runTag constructs associativity)
    .load Replacement.plainCall
  obtain ⟨next, reached, rfl⟩ := uses.reach_read constructs (agedWays_few few) rfl onLru
  rw [uses.past, ← List.map_cons] at past
  refine ⟨next, reached, past, ?_⟩
  intro memOpType tag isTag
  have notZero : tag.val ≠ 0 := isTag ▸ runTag_ne_zero constructs 0
  constructor
  · have since : (associativity :: agedWays associativity (associativity - 2)).map (runTag associativity sizeKb) =
        (associativity :: (List.range' 2 (associativity - 2)).reverse).map (runTag associativity sizeKb) ++
          runTag associativity sizeKb 0 :: (List.range associativity).reverse.map (runTag associativity sizeKb) := by
      rw [agedWays, ← List.cons_append, List.map_append]
      rfl
    refine ((keepsSets constructs.positive reached).hits_iff constructs.positive notZero memOpType).mpr ?_
    rw [isTag, setOf_runTag constructs, past, filter_runTag constructs, since]
    refine ⟨List.mem_append_right _ List.mem_cons_self, Nat.lt_of_le_of_lt distance_append_le ?_⟩
    rw [List.length_map, List.length_cons, List.length_reverse, List.length_range']
    exact few
  · intro hits
    obtain ⟨after, way, accessed⟩ := hits
    have there := Replacement.find_of_accessed accessed
    rw [isTag, setOf_runTag constructs, gone] at there
    cases there

end Run

/-- Both caches agree in every run if and only if the bits of `lru` can order the ways, and then no access fails. -/
theorem hitsAgree_iff (constructs : Constructs associativity sizeKb) :
    ((∀ now, (twins associativity sizeKb).Reach (Allowed sizeKb) now → now.Agree sizeKb) ↔ associativity ≤ 256) ∧
      (associativity ≤ 256 → ∀ now, (twins associativity sizeKb).Reach (Allowed sizeKb) now → ∀ access,
        ∃ next, (twins associativity sizeKb).step now access = .ok next) := by
  have positive := constructs.positive
  refine ⟨⟨?_, fun fits now reached => agree positive fits reached⟩, fun fits now reached => step_ok positive fits reached⟩
  intro agrees
  by_contra many
  have fresh := runTag_fresh constructs
  obtain ⟨now, reached, -, differs⟩ := differ constructs (Nat.lt_of_not_le many)
  obtain ⟨hits, misses⟩ := differs .read ⟨runTag associativity sizeKb 0, fresh.valid (Nat.zero_le _)⟩ rfl
  have same := agrees now reached .read ⟨_, fresh.valid (Nat.zero_le _)⟩ (runTag_ne_zero constructs 0)
  exact misses (same.2.mp hits)

/-- The caches of 32 KB with 8 ways agree after a set has been filled and its first line used again. -/
theorem agree_dataCache : ∃ now : Twins 8, (twins 8 32).Reach (Allowed 32) now ∧
    now.lru.2 = (0 :: (List.range 8).reverse).map (runTag 8 32) ∧ now.Agree 32 := by
  have constructs : Constructs 8 32 := by decide
  obtain ⟨full, uses⟩ := fills constructs (Nat.le_refl 8)
  obtain ⟨now, again⟩ := uses.again constructs (by decide) (by decide : 0 < 8) (by decide)
  exact ⟨now, again.reached, again.past, (hitsAgree_iff constructs).1.mpr (by decide) now again.reached⟩

/-- The fully associative caches of 32 KB differ on the tag 1 after the tags 1 to 512, then 1 and 3 to 512 again, and 513. -/
theorem differ_fullyAssociative : ∃ now : Twins 512, (twins 512 32).Reach (Allowed 32) now ∧
    now.lru.2 = (512 :: agedWays 512 510).map (runTag 512 32) ∧
    now.FastHits 32 .read ⟨1, by decide⟩ ∧ ¬now.LruHits 32 .read ⟨1, by decide⟩ := by
  have constructs : Constructs 512 32 := by decide
  obtain ⟨now, reached, past, differs⟩ := differ constructs (by decide)
  exact ⟨now, reached, past, differs .read ⟨1, by decide⟩ rfl⟩

end Twins

end Sniper.FastNehalem

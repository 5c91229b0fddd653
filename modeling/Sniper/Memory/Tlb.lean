import Sniper.Library.Runs
import Sniper.Replacement.CacheSet
import Sniper.Replacement.RecencyOrder
import Mathlib.Algebra.Ring.Nat

/-! `TLB`: a cache of pages, and a second one that takes the pages which the first one evicts. -/

namespace Sniper.Tlb

open Replacement

/-- The arguments of the constructor that its assertions and those of `CacheBase` let pass. -/
structure Config where
  numEntries : Nat
  associativity : Nat
  positive : 0 < associativity
  /-- "num_entries(%d) must be a multiple of the associativity(%d)" -/
  multiple : numEntries / associativity * associativity = numEntries
  /-- "Caches of non-power of 2 size need funky hash function" -/
  powerOfTwo : ∃ bits, numEntries / associativity = 2 ^ bits

namespace Config

def numSets (config : Config) : Nat := config.numEntries / config.associativity

def setIndex (config : Config) (page : Nat) : Nat := page &&& (config.numSets - 1)

end Config

/-- `SIM_PAGE_SHIFT` -/
def pageShift : Nat := 12

/-- The tag that `splitAddress` finds. -/
def splitAddress (address : UInt64) : Nat := address.toNat >>> pageShift

def tagToAddress (tag : Nat) : UInt64 := UInt64.ofNat (tag <<< pageShift)

/-- A TLB without its next level. -/
structure Level (config : Config) where
  cache : Replacement.Cache (CacheSetLRU config.associativity 1)
  access : Nat
  miss : Nat

/-- A TLB and its next level, which has none. -/
structure Tlbs (first second : Config) where
  level : Level first
  nextLevel : Level second

namespace Level

variable {config : Config}

def create (config : Config) : Level config := ⟨⟨fun _ => ⟨fun _ => .invalid, initialLruBits⟩⟩, 0, 0⟩

def lines (level : Level config) (page : Nat) : CacheSet (CacheSetLRU config.associativity 1) :=
  level.cache.sets (config.setIndex page)

/-- What `lookup` does in the cache and the counters of a TLB. -/
def probe (level : Level config) (address : UInt64) : Except Fault (Level config × Bool) := do
  let (cache, hit) ← level.cache.accessSingleLine config.setIndex (splitAddress address) .load true
  Except.ok ({ level with cache, access := level.access + 1, miss := level.miss + if hit.isSome then 0 else 1 }, hit.isSome)

/-- The arguments that `allocate` gives to the replacement policy. -/
def call : Call := ⟨fun _ => false, 0, 0, 0⟩

/-- What `allocate` does in the cache of a TLB, and the address that is evicted. -/
def insert (level : Level config) (address : UInt64) : Except Fault (Level config × Option UInt64) := do
  let (cache, evicted) ← level.cache.insertSingleLine config.setIndex (splitAddress address) call
  Except.ok ({ level with cache }, evicted.map fun block => tagToAddress block.tag)

/-- The way that an insertion replaces. -/
def replaced (level : Level config) (page : Nat) : Option Nat :=
  match (CacheSetLRU config.associativity 1).getReplacementIndex (level.lines page).contents
      { call with setIndex := config.setIndex page } (level.lines page).fields with
  | .ok (_, way) => some way
  | .error _ => none

def blocks (level : Level config) (setIndex way : Nat) : CacheBlockInfo := (level.cache.sets setIndex).blocks way

def Unique (level : Level config) : Prop :=
  ∀ setIndex, ∀ way < config.associativity, ∀ other < config.associativity, (level.blocks setIndex way).isValid = true →
    (level.blocks setIndex way).tag = (level.blocks setIndex other).tag → way = other

end Level

variable {first second : Config}

def create (first second : Config) : Tlbs first second := ⟨.create first, .create second⟩

def allocate (tlbs : Tlbs first second) (address : UInt64) : Except Fault (Tlbs first second) := do
  let (level, evicted) ← tlbs.level.insert address
  match evicted with
  | some evictAddr => do
      -- Use next level as a victim cache
      let (nextLevel, _) ← tlbs.nextLevel.insert evictAddr
      Except.ok ⟨level, nextLevel⟩
  | none => .ok ⟨level, tlbs.nextLevel⟩

def lookup (tlbs : Tlbs first second) (address : UInt64) (allocateOnMiss : Bool) : Except Fault (Tlbs first second × Bool) := do
  let (level, hit) ← tlbs.level.probe address
  if hit then Except.ok (⟨level, tlbs.nextLevel⟩, true)
  else do
    let (nextLevel, hit) ← tlbs.nextLevel.probe address
    if allocateOnMiss then do
      let tlbs ← allocate ⟨level, nextLevel⟩ address
      Except.ok (tlbs, hit)
    else Except.ok (⟨level, nextLevel⟩, hit)

/-- A lookup that allocates on a miss, in a run of them: it does not fail (`lookup_cases`). -/
def step (tlbs : Tlbs first second) (address : UInt64) : Tlbs first second :=
  match lookup tlbs address true with
  | .ok (after, _) => after
  | .error _ => tlbs

/-! ### What the functions of a level do -/

namespace Level

variable {config : Config} {level : Level config} {page way : Nat}

def find (level : Level config) (page : Nat) : Option Nat := (level.lines page).find page

/-- A level after a probe. -/
def probed (level : Level config) (page : Nat) : Level config :=
  match level.find page with
  | none => { level with access := level.access + 1, miss := level.miss + 1 }
  | some way =>
    { level with
      cache := level.cache.setSet (config.setIndex page)
        { level.lines page with fields := moveToMRU config.associativity way (level.lines page).fields }
      access := level.access + 1 }

theorem probe_eq (level : Level config) (address : UInt64) :
    level.probe address = .ok (level.probed (splitAddress address), (level.find (splitAddress address)).isSome) := by
  rw [probe, probed, Replacement.Cache.accessSingleLine]
  cases found : level.find (splitAddress address) with
  | none =>
    rw [find, lines] at found
    simp only [found]
    rfl
  | some way =>
    rw [find, lines] at found
    simp only [found]
    rfl

theorem blocks_probed (level : Level config) (page : Nat) : (level.probed page).blocks = level.blocks := by
  rw [probed]
  cases level.find page with
  | none => rfl
  | some way =>
    funext setIndex way
    simp only [blocks, Replacement.Cache.setSet]
    by_cases here : setIndex = config.setIndex page
    · rw [here, Function.update_self]
      rfl
    · rw [Function.update_of_ne here]

theorem exists_replaced (level : Level config) (page : Nat) : ∃ fields way,
    (CacheSetLRU config.associativity 1).getReplacementIndex (level.lines page).contents
      { call with setIndex := config.setIndex page } (level.lines page).fields = .ok (fields, way) ∧
    level.replaced page = some way ∧ way < config.associativity := by
  obtain ⟨fields, way, replaces, small⟩ : ∃ fields way, replaceLru config.associativity 1 (level.lines page).contents
      { call with setIndex := config.setIndex page } (level.lines page).fields = .ok (fields, way) ∧ way < config.associativity := by
    cases invalid : firstInvalid config.associativity (level.lines page).contents with
    | some way =>
      refine ⟨moveToMRU config.associativity way (level.lines page).fields, way, ?_, firstInvalid_lt invalid⟩
      simp only [replaceLru, invalid]
    | none =>
      have small : findLru (List.range config.associativity) (isValidReplacement (level.lines page).contents)
          (level.lines page).fields < config.associativity := by
        obtain ⟨zero, -⟩ | largest := findLru_cases (List.range config.associativity)
          (isValidReplacement (level.lines page).contents) (level.lines page).fields
        · exact zero ▸ config.positive
        · exact List.mem_range.mp largest.mem
      exact ⟨_, _, replaceLru_full invalid rfl small, small⟩
  refine ⟨fields, way, replaces, ?_, small⟩
  have chosen : (CacheSetLRU config.associativity 1).getReplacementIndex (level.lines page).contents
      { call with setIndex := config.setIndex page } (level.lines page).fields = .ok (fields, way) := replaces
  rw [replaced, chosen]

def evicted (level : Level config) (page way : Nat) : Option UInt64 :=
  if (level.blocks (config.setIndex page) way).isValid then some (tagToAddress (level.blocks (config.setIndex page) way).tag)
  else none

/-- A level after an insertion in a way. -/
def filled (level : Level config) (page way : Nat) (fields : Nat → Nat) : Level config :=
  { level with
    cache := level.cache.setSet (config.setIndex page)
      (CacheSet.setBlock { level.lines page with fields := fields } way ⟨page, .invalid⟩) }

theorem blocks_filled (level : Level config) (page way : Nat) (fields : Nat → Nat) (setIndex other : Nat) :
    (level.filled page way fields).blocks setIndex other =
      if setIndex = config.setIndex page ∧ other = way then ⟨page, .invalid⟩ else level.blocks setIndex other := by
  simp only [blocks, filled, Replacement.Cache.setSet, CacheSet.setBlock]
  by_cases here : setIndex = config.setIndex page
  · rw [here, Function.update_self]
    by_cases same : other = way
    · simp [same]
    · simp [same, lines]
  · simp [here]

theorem insert_spec (level : Level config) (address : UInt64) : ∃ fields way,
    level.replaced (splitAddress address) = some way ∧ way < config.associativity ∧
    level.insert address = .ok (level.filled (splitAddress address) way fields, level.evicted (splitAddress address) way) := by
  obtain ⟨fields, way, replaces, chosen, small⟩ := level.exists_replaced (splitAddress address)
  refine ⟨fields, way, chosen, small, ?_⟩
  rw [lines] at replaces
  rw [insert, Replacement.Cache.insertSingleLine]
  simp only [CacheSet.insert2]
  rw [replaces, evicted]
  by_cases valid : (level.blocks (config.setIndex (splitAddress address)) way).isValid = true
  · rw [if_pos valid]
    rw [blocks] at valid
    simp only [bind, Except.bind, if_pos valid]
    rfl
  · rw [if_neg valid]
    rw [blocks] at valid
    simp only [bind, Except.bind, if_neg valid]
    rfl

theorem splitAddress_isTag (address : UInt64) : splitAddress address ≠ invalidTag := by
  have bound := address.toNat_lt
  rw [splitAddress, invalidTag, pageShift, Nat.shiftRight_eq_div_pow]
  omega

theorem unique_filled_iff (unique : level.Unique) (isTag : page ≠ invalidTag) (small : way < config.associativity)
    (fields : Nat → Nat) :
    (level.filled page way fields).Unique ↔
      ∀ other < config.associativity, (level.blocks (config.setIndex page) other).tag = page → other = way := by
  constructor
  · intro after other inside same
    by_contra different
    have alone := after (config.setIndex page) way small other inside
    simp only [blocks_filled, true_and, if_true, if_neg different] at alone
    exact different (alone (by simpa [CacheBlockInfo.isValid] using isTag) same.symm).symm
  · intro absent setIndex one inside other otherInside valid same
    rw [blocks_filled] at valid same
    rw [blocks_filled] at same
    by_cases here : setIndex = config.setIndex page
    · subst here
      simp only [true_and] at valid same
      by_cases new : one = way
      · by_cases otherNew : other = way
        · rw [new, otherNew]
        · rw [if_pos new, if_neg otherNew] at same
          exact absurd (absent other otherInside same.symm) otherNew
      · rw [if_neg new] at valid same
        by_cases otherNew : other = way
        · rw [if_pos otherNew] at same
          exact absurd (absent one inside same) new
        · rw [if_neg otherNew] at same
          exact unique _ one inside other otherInside valid same
    · rw [if_neg fun both => here both.1] at valid same
      rw [if_neg fun both => here both.1] at same
      exact unique setIndex one inside other otherInside valid same

theorem unique_probed (page : Nat) : (level.probed page).Unique ↔ level.Unique := by
  simp only [Unique, blocks_probed]

theorem unique_create (config : Config) : (Level.create config).Unique := by
  intro setIndex way _ other _ valid _
  cases (valid : CacheBlockInfo.invalid.isValid = true)

end Level

/-! ### Lookups -/

section Lookups

variable {tlbs : Tlbs first second} {address : UInt64}

/-- What a lookup does on a miss: the first level takes the page, and the second one takes the page that it evicts. -/
inductive Misses (tlbs after : Tlbs first second) (page : Nat) : Prop where
  | fill (way : Nat) (fields : Nat → Nat) (small : way < first.associativity) (chosen : tlbs.level.replaced page = some way)
      (free : tlbs.level.evicted page way = none)
      (same : after = ⟨(tlbs.level.probed page).filled page way fields, tlbs.nextLevel.probed page⟩)
  | push (way nextWay : Nat) (fields nextFields : Nat → Nat) (victim : UInt64) (small : way < first.associativity)
      (chosen : tlbs.level.replaced page = some way) (evicts : tlbs.level.evicted page way = some victim)
      (nextSmall : nextWay < second.associativity)
      (nextChosen : (tlbs.nextLevel.probed page).replaced (splitAddress victim) = some nextWay)
      (same : after = ⟨(tlbs.level.probed page).filled page way fields,
        (tlbs.nextLevel.probed page).filled (splitAddress victim) nextWay nextFields⟩)

theorem allocate_cases (tlbs : Tlbs first second) (address : UInt64) (missed : tlbs.level.find (splitAddress address) = none) :
    ∃ after, allocate ⟨tlbs.level.probed (splitAddress address), tlbs.nextLevel.probed (splitAddress address)⟩ address = .ok after ∧
      Misses tlbs after (splitAddress address) := by
  have sameLevel : (tlbs.level.probed (splitAddress address)).replaced (splitAddress address) =
      tlbs.level.replaced (splitAddress address) := by
    rw [Level.probed, missed]
    rfl
  have sameEvicted (way : Nat) : (tlbs.level.probed (splitAddress address)).evicted (splitAddress address) way =
      tlbs.level.evicted (splitAddress address) way := by
    rw [Level.probed, missed]
    rfl
  obtain ⟨fields, way, chosen, small, inserted⟩ := (tlbs.level.probed (splitAddress address)).insert_spec address
  rw [sameLevel] at chosen
  rw [sameEvicted] at inserted
  rw [allocate]
  simp only [inserted, bind, Except.bind]
  cases evicts : tlbs.level.evicted (splitAddress address) way with
  | none => exact ⟨_, rfl, .fill way fields small chosen evicts rfl⟩
  | some victim =>
    obtain ⟨nextFields, nextWay, nextChosen, nextSmall, pushed⟩ :=
      (tlbs.nextLevel.probed (splitAddress address)).insert_spec victim
    simp only [pushed]
    exact ⟨_, rfl, .push way nextWay fields nextFields victim small chosen evicts nextSmall nextChosen rfl⟩

theorem lookup_cases (tlbs : Tlbs first second) (address : UInt64) :
    (∃ way, tlbs.level.find (splitAddress address) = some way ∧
      lookup tlbs address true = .ok (⟨tlbs.level.probed (splitAddress address), tlbs.nextLevel⟩, true)) ∨
    tlbs.level.find (splitAddress address) = none ∧ ∃ after hit,
      lookup tlbs address true = .ok (after, hit) ∧ Misses tlbs after (splitAddress address) := by
  rw [lookup]
  simp only [Level.probe_eq, bind, Except.bind]
  cases found : tlbs.level.find (splitAddress address) with
  | some way => exact .inl ⟨way, rfl, rfl⟩
  | none =>
    obtain ⟨after, allocated, misses⟩ := allocate_cases tlbs address found
    simp only [allocated]
    exact .inr ⟨trivial, after, _, rfl, misses⟩

/-- A page that the first level evicts is in no way of its set in the second level, but for the way that takes it. -/
def PushesAbsent (tlbs : Tlbs first second) (address : UInt64) : Prop :=
  tlbs.level.find (splitAddress address) = none →
    ∀ way victim, tlbs.level.replaced (splitAddress address) = some way →
      tlbs.level.evicted (splitAddress address) way = some victim →
      ∀ nextWay, (tlbs.nextLevel.probed (splitAddress address)).replaced (splitAddress victim) = some nextWay →
        ∀ other < second.associativity,
          (tlbs.nextLevel.blocks (second.setIndex (splitAddress victim)) other).tag = splitAddress victim → other = nextWay

/-- No two valid lines of a set of either level have the same tag. -/
structure AllUnique (tlbs : Tlbs first second) : Prop where
  level : tlbs.level.Unique
  nextLevel : tlbs.nextLevel.Unique

theorem unique_level (unique : tlbs.level.Unique) {way : Nat} (missed : tlbs.level.find (splitAddress address) = none)
    (small : way < first.associativity) (fields : Nat → Nat) :
    ((tlbs.level.probed (splitAddress address)).filled (splitAddress address) way fields).Unique := by
  rw [Level.unique_filled_iff ((Level.unique_probed _).mpr unique) (Level.splitAddress_isTag address) small]
  intro other inside same
  rw [Level.blocks_probed] at same
  exact absurd same (find_none missed inside)

theorem unique_step_iff (unique : AllUnique tlbs) : AllUnique (step tlbs address) ↔ PushesAbsent tlbs address := by
  rw [step]
  obtain ⟨way, found, looked⟩ | ⟨missed, after, hit, looked, misses⟩ := lookup_cases tlbs address
  · rw [looked]
    refine ⟨fun _ missed => ?_, fun _ => ⟨(Level.unique_probed _).mpr unique.level, unique.nextLevel⟩⟩
    rw [found] at missed
    cases missed
  · rw [looked]
    dsimp only
    cases misses with
    | fill way fields small chosen free same =>
      subst same
      refine ⟨fun _ _ other victim otherChosen evicts => ?_, fun _ =>
        ⟨unique_level unique.level missed small fields, (Level.unique_probed _).mpr unique.nextLevel⟩⟩
      rw [chosen, Option.some.injEq] at otherChosen
      rw [← otherChosen, free] at evicts
      cases evicts
    | push way nextWay fields nextFields victim small chosen evicts nextSmall nextChosen same =>
      subst same
      have pushed := Level.unique_filled_iff ((Level.unique_probed (splitAddress address)).mpr unique.nextLevel)
        (Level.splitAddress_isTag victim) nextSmall nextFields
      rw [Level.blocks_probed] at pushed
      constructor
      · intro after _ other otherVictim otherChosen otherEvicts otherWay otherNext
        rw [chosen, Option.some.injEq] at otherChosen
        rw [← otherChosen, evicts, Option.some.injEq] at otherEvicts
        subst otherEvicts
        rw [nextChosen, Option.some.injEq] at otherNext
        subst otherNext
        exact pushed.mp after.nextLevel
      · intro absent
        exact ⟨unique_level unique.level missed small fields, pushed.mpr (absent missed way victim chosen evicts nextWay nextChosen)⟩

/-- In every state of a run of lookups both levels have every page at most once if and only if no lookup pushes a page
down that is there already. -/
theorem unique_iff_pushesAbsent (first second : Config) (addresses : List UInt64) :
    AllStates step AllUnique (create first second) addresses ↔ AllSteps step PushesAbsent (create first second) addresses :=
  allStates_iff_of_exact (fun _ _ => unique_step_iff) ⟨Level.unique_create first, Level.unique_create second⟩

/-- The first level never has a page twice. -/
theorem level_unique (first second : Config) (addresses : List UInt64) :
    AllStates step (fun tlbs : Tlbs first second => tlbs.level.Unique) (create first second) addresses := by
  have starts : (create first second).level.Unique := Level.unique_create first
  refine allStates_of_preserved (fun (tlbs : Tlbs first second) address (unique : tlbs.level.Unique) => ?_) starts addresses
  rw [step]
  obtain ⟨_, _, looked⟩ | ⟨missed, after, hit, looked, misses⟩ := lookup_cases tlbs address
  · rw [looked]
    exact (Level.unique_probed _).mpr unique
  · rw [looked]
    cases misses with
    | fill way fields small _ _ same => exact same ▸ unique_level unique missed small fields
    | push way _ fields _ _ small _ _ _ _ same => exact same ▸ unique_level unique missed small fields

/-- A TLB of one set, with one way and as many more as are given. -/
def oneSet (more : Nat) : Config where
  numEntries := more + 1
  associativity := more + 1
  positive := Nat.succ_pos more
  multiple := by rw [Nat.div_self (Nat.succ_pos more), Nat.one_mul]
  powerOfTwo := ⟨0, Nat.div_self (Nat.succ_pos more)⟩

def oneEntry : Config := oneSet 0

def fourWays : Config := oneSet 3

def twoPages : List UInt64 := [0x1000, 0x2000, 0x1000, 0x2000]

/-- Two pages in turn: the second one hits in the second level, and pushes the first one down once more. -/
theorem twoPages_duplicate :
    (twoPages.foldl step (create oneEntry fourWays)).nextLevel.blocks 0 0 = ⟨1, .invalid⟩ ∧
    (twoPages.foldl step (create oneEntry fourWays)).nextLevel.blocks 0 2 = ⟨1, .invalid⟩ ∧
    ¬AllStates step AllUnique (create oneEntry fourWays) twoPages := by
  refine ⟨by decide +kernel, by decide +kernel, ?_⟩
  rintro ⟨-, -, -, -, unique⟩
  have same := unique.nextLevel 0 0 (by decide) 2 (by decide) (by decide +kernel) (by decide +kernel)
  cases same

end Lookups

end Sniper.Tlb

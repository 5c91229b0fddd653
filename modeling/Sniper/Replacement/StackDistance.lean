import Sniper.Replacement.CacheSet
import Sniper.Replacement.Order
import Sniper.Replacement.RecencyOrder

/-! `CacheSetLRU` with one attempt keeps the blocks that were accessed last. -/

namespace Sniper.Replacement

open Recency

variable {associativity : Nat} {set : Contents} {call : Call} {lruBits after : Nat → Nat} {index : Nat}

/-! ### Accesses -/

/-- What happens to a cache without invalidations. -/
inductive CacheLabel where
  /-- `accessSingleLine` with an update of the replacement policy and, on a miss, `insertSingleLine`. -/
  | access (tag : Tag) (accessType : AccessType) (call : Call)
  | setCState (tag : Tag) (cstate : CState)

/-- A cache with the tags that were accessed, the last one first. -/
def accesses (policy : Policy) (splitTag : Nat → Nat) : Machine (Cache policy × List Nat) CacheLabel Fault where
  initial start := (∀ setIndex, (∀ way, (start.1.sets setIndex).blocks way = .invalid) ∧
    policy.constructed (start.1.sets setIndex).fields) ∧ start.2 = []
  step now
    | .access tag accessType call => do
        let (cache, hit) ← now.1.accessSingleLine splitTag tag accessType true
        if hit.isSome then Except.ok (cache, tag.val :: now.2)
        else do
          let (cache, _) ← cache.insertSingleLine splitTag tag call
          Except.ok (cache, tag.val :: now.2)
    | .setCState tag cstate => .ok (now.1.setCState splitTag tag cstate, now.2)

def noUpgrade {policy : Policy} (_ : Cache policy × List Nat) (label : CacheLabel) : Prop :=
  ∀ tag, label ≠ .setCState tag .sharedUpgrading

section Sets

variable {policy : Policy} {lines : CacheSet policy} {tag way : Nat} {block : CacheBlockInfo}

def validTag (lines : CacheSet policy) (way : Nat) : Option Nat :=
  if (lines.blocks way).isValid then some (lines.blocks way).tag else none

theorem validTag_eq_some : validTag lines way = some tag ↔ (lines.blocks way).tag = tag ∧ tag ≠ invalidTag := by
  simp only [validTag, CacheBlockInfo.isValid, decide_eq_true_eq]
  split
  case isTrue valid =>
    rw [Option.some.injEq]
    exact ⟨fun same => ⟨same, same ▸ valid⟩, And.left⟩
  case isFalse invalid =>
    constructor
    · intro impossible
      cases impossible
    · intro holds
      exact absurd (holds.1 ▸ holds.2) invalid

theorem validTag_setBlock (valid : block.isValid) :
    validTag (lines.setBlock way block) = Function.update (validTag lines) way (some block.tag) := by
  funext other
  by_cases same : other = way
  · subst same
    simp [validTag, CacheSet.setBlock, valid]
  · simp [validTag, CacheSet.setBlock, same]

end Sets

/-! ### What a set keeps -/

section Keeps

variable {lines : CacheSet (CacheSetLRU associativity 1)} {past items : List Nat} {tag : Nat}

/-- A set keeps the tags that were accessed last, in the order of its ways. -/
structure Keeps (lines : CacheSet (CacheSetLRU associativity 1)) (past items : List Nat) : Prop where
  ordered : Ordered associativity lines.fields items
  tags : items.filterMap (validTag lines) = (order [] past).take associativity
  settled : ∀ way < associativity, (lines.blocks way).cstate ≠ .sharedUpgrading

def afterUse (lines : CacheSet (CacheSetLRU associativity 1)) (way : Nat) : CacheSet (CacheSetLRU associativity 1) :=
  ⟨lines.blocks, moveToMRU associativity way lines.fields⟩

namespace Keeps

theorem kept (keeps : Keeps lines past items) : Kept associativity (validTag lines) items past :=
  ⟨keeps.ordered.nodup, keeps.ordered.length, keeps.tags⟩

theorem find_isSome (keeps : Keeps lines past items) (isTag : tag ≠ invalidTag) :
    (lines.find tag).isSome ↔ tag ∈ past ∧ distance tag past < associativity := by
  rw [← keeps.kept.mem]
  constructor
  · intro found
    obtain ⟨way, found⟩ := Option.isSome_iff_exists.mp found
    obtain ⟨small, same⟩ := find_some found
    exact ⟨way, keeps.ordered.mem.mpr small, validTag_eq_some.mpr ⟨same, isTag⟩⟩
  · intro member
    obtain ⟨way, inItems, holds⟩ := member
    cases found : lines.find tag with
    | some way => rfl
    | none => exact absurd (validTag_eq_some.mp holds).1 (find_none found (keeps.ordered.mem.mp inItems))

theorem hit (keeps : Keeps lines past items) (isTag : tag ≠ invalidTag) {way : Nat} (found : lines.find tag = some way) :
    Keeps (afterUse lines way) (tag :: past) (touch way items) := by
  obtain ⟨small, same⟩ := find_some found
  have holds : validTag lines way = some tag := validTag_eq_some.mpr ⟨same, isTag⟩
  exact ⟨keeps.ordered.moveToMRU small, (keeps.kept.hit (keeps.ordered.mem.mpr small) holds).items, keeps.settled⟩

theorem fill (keeps : Keeps lines past items) (isTag : tag ≠ invalidTag) (missing : lines.find tag = none) {way : Nat}
    (small : way < associativity)
    (victim : validTag lines way = none ∨ ∃ front, items = front ++ [way] ∧ ∀ other < associativity, (lines.blocks other).isValid) :
    Keeps ((afterUse lines way).setBlock way ⟨tag, .invalid⟩) (tag :: past) (touch way items) := by
  refine ⟨keeps.ordered.moveToMRU small, ?_, ?_⟩
  · have absent : ∀ other ∈ items, validTag lines other ≠ some tag := by
      intro other inItems holds
      exact find_none missing (keeps.ordered.mem.mp inItems) (validTag_eq_some.mp holds).1
    have leaves : validTag lines way = none ∨ ∃ front, items = front ++ [way] ∧ ∀ other ∈ items, (validTag lines other).isSome := by
      refine victim.imp_right fun last => ?_
      obtain ⟨front, isLast, full⟩ := last
      refine ⟨front, isLast, fun other inItems => ?_⟩
      rw [validTag, if_pos (full other (keeps.ordered.mem.mp inItems))]
      rfl
    have tagKept : (⟨tag, .invalid⟩ : CacheBlockInfo).isValid := by simpa [CacheBlockInfo.isValid] using isTag
    rw [validTag_setBlock tagKept]
    exact (keeps.kept.fill (keeps.ordered.mem.mpr small) absent leaves).items
  · intro other isOther
    by_cases same : other = way
    · subst same
      simp [CacheSet.setBlock]
    · simp only [CacheSet.setBlock, Function.update_of_ne same]
      exact keeps.settled other isOther

theorem setCState (keeps : Keeps lines past items) {way : Nat} {cstate : CState} (settles : cstate ≠ .sharedUpgrading) :
    Keeps (lines.setBlock way { lines.blocks way with cstate }) past items := by
  refine ⟨keeps.ordered, ?_, ?_⟩
  · have same : validTag (lines.setBlock way { lines.blocks way with cstate }) = validTag lines := by
      funext other
      by_cases isWay : other = way
      · subst isWay
        simp [validTag, CacheSet.setBlock, CacheBlockInfo.isValid]
      · simp [validTag, CacheSet.setBlock, isWay]
    rw [same]
    exact keeps.tags
  · intro other isOther
    by_cases isWay : other = way
    · subst isWay
      simpa [CacheSet.setBlock] using settles
    · simp only [CacheSet.setBlock, Function.update_of_ne isWay]
      exact keeps.settled other isOther

end Keeps

end Keeps

/-! ### Runs -/

section Runs

variable {splitTag : Nat → Nat} {now next : Cache (CacheSetLRU associativity 1) × List Nat}

theorem Keeps.chooses {lines : CacheSet (CacheSetLRU associativity 1)} {past items : List Nat} (keeps : Keeps lines past items)
    (positive : 0 < associativity) (call : Call) :
    ∃ way < associativity, (CacheSetLRU associativity 1).getReplacementIndex lines.contents call lines.fields =
        .ok (moveToMRU associativity way lines.fields, way) ∧
      (validTag lines way = none ∨ ∃ front, items = front ++ [way] ∧ ∀ other < associativity, (lines.blocks other).isValid) := by
  cases found : firstInvalid associativity lines.contents with
  | some way =>
    refine ⟨way, firstInvalid_lt found, replaceLru_fills found, .inl ?_⟩
    have isNone := List.find?_some found
    by_cases valid : (lines.blocks way).isValid
    · simp [CacheSet.contents, valid] at isNone
    · exact if_neg valid
  | none =>
    have full : ∀ other < associativity, (lines.blocks other).isValid := by
      intro other small
      have isSome := List.find?_eq_none.mp found other (List.mem_range.mpr small)
      by_contra invalid
      simp [CacheSet.contents, invalid] at isSome
    have nonempty : items ≠ [] := by
      intro empty
      have length := keeps.ordered.length
      rw [empty, List.length_nil] at length
      omega
    obtain ⟨front, last, isLast⟩ := (List.eq_nil_or_concat items).resolve_left nonempty
    rw [List.concat_eq_append] at isLast
    have small : last < associativity :=
      keeps.ordered.mem.mp (isLast ▸ List.mem_append_right _ (List.mem_singleton.mpr rfl))
    have replaceable : ∀ other < associativity, isValidReplacement lines.contents other = true := by
      intro other isWay
      simp [isValidReplacement, CacheSet.contents, full other isWay, keeps.settled other isWay]
    have index := Ordered.findLru_last (isLast ▸ keeps.ordered) replaceable
    exact ⟨last, small, replaceLru_full found index small, .inr ⟨front, isLast, full⟩⟩

def KeepsAll (splitTag : Nat → Nat) (now : Cache (CacheSetLRU associativity 1) × List Nat) : Prop :=
  ∀ setIndex, ∃ items, Keeps (now.1.sets setIndex) (now.2.filter (splitTag · = setIndex)) items

theorem KeepsAll.setSet (keeps : KeepsAll splitTag now) {tag : Nat} {lines : CacheSet (CacheSetLRU associativity 1)} {items : List Nat}
    (kept : Keeps lines (tag :: now.2.filter (splitTag · = splitTag tag)) items) :
    KeepsAll splitTag (now.1.setSet (splitTag tag) lines, tag :: now.2) := by
  intro setIndex
  by_cases same : splitTag tag = setIndex
  · subst same
    refine ⟨items, ?_⟩
    rw [List.filter_cons_of_pos (by simp)]
    simpa [Cache.setSet] using kept
  · obtain ⟨others, keptOthers⟩ := keeps setIndex
    refine ⟨others, ?_⟩
    rw [List.filter_cons_of_neg (by simpa using same)]
    simpa [Cache.setSet, Function.update_of_ne (Ne.symm same)] using keptOthers

theorem accesses_past {policy : Policy} {before after : Cache policy × List Nat} {tag : Tag} {accessType : AccessType} {call : Call}
    (stepped : (accesses policy splitTag).step before (.access tag accessType call) = .ok after) : after.2 = tag.val :: before.2 := by
  simp only [accesses, bind, Except.bind] at stepped
  split at stepped
  case h_1 => cases stepped
  case h_2 result _ =>
    split at stepped
    case isTrue => cases stepped; rfl
    case isFalse =>
      split at stepped
      case h_1 => cases stepped
      case h_2 => cases stepped; rfl

theorem find_of_accessed {policy : Policy} {cache after : Cache policy} {tag : Tag} {accessType : AccessType} {way : Nat}
    (accessed : cache.accessSingleLine splitTag tag accessType true = .ok (after, some way)) :
    ((cache.sets (splitTag tag)).find tag).isSome := by
  cases found : (cache.sets (splitTag tag)).find tag with
  | some way => rfl
  | none =>
    simp only [Cache.accessSingleLine, found] at accessed
    cases accessed

theorem accesses_hit {tag : Tag} {way : Nat} (found : (now.1.sets (splitTag tag)).find tag = some way)
    (inside : (now.1.sets (splitTag tag)).fields way < associativity) (accessType : AccessType) (call : Call) :
    (accesses (CacheSetLRU associativity 1) splitTag).step now (.access tag accessType call) =
      .ok (now.1.setSet (splitTag tag) (afterUse (now.1.sets (splitTag tag)) way), tag.val :: now.2) := by
  have updated (writeFlag : Nat) : (CacheSetLRU associativity 1).updateReplacementIndex way writeFlag (splitTag tag) _ = _ :=
    lru_update_ok inside writeFlag (splitTag tag)
  cases accessType <;> simp [accesses, Cache.accessSingleLine, found, CacheSet.readLine, CacheSet.writeLine, CacheSet.useLine,
    updated, bind, Except.bind, afterUse]

theorem accesses_fill {tag : Tag} {way : Nat} {call : Call} (missing : (now.1.sets (splitTag tag)).find tag = none)
    (chosen : (CacheSetLRU associativity 1).getReplacementIndex (now.1.sets (splitTag tag)).contents
      { call with setIndex := splitTag tag } (now.1.sets (splitTag tag)).fields =
        .ok (moveToMRU associativity way (now.1.sets (splitTag tag)).fields, way)) (accessType : AccessType) :
    (accesses (CacheSetLRU associativity 1) splitTag).step now (.access tag accessType call) =
      .ok (now.1.setSet (splitTag tag) ((afterUse (now.1.sets (splitTag tag)) way).setBlock way ⟨tag, .invalid⟩), tag.val :: now.2) := by
  simp [accesses, Cache.accessSingleLine, missing, Cache.insertSingleLine, CacheSet.insert2, chosen, bind, Except.bind, afterUse]

theorem KeepsAll.access (keeps : KeepsAll splitTag now) (positive : 0 < associativity) (tag : Tag) (accessType : AccessType)
    (call : Call) :
    ∃ next, (accesses (CacheSetLRU associativity 1) splitTag).step now (.access tag accessType call) = .ok next ∧
      KeepsAll splitTag next := by
  obtain ⟨items, kept⟩ := keeps (splitTag tag)
  cases found : (now.1.sets (splitTag tag)).find tag with
  | some way =>
    obtain ⟨small, _⟩ := find_some found
    exact ⟨_, accesses_hit found (kept.ordered.bits_lt small) accessType call, keeps.setSet (kept.hit tag.2 found)⟩
  | none =>
    obtain ⟨way, small, chosen, victim⟩ := kept.chooses positive { call with setIndex := splitTag tag }
    exact ⟨_, accesses_fill found chosen accessType, keeps.setSet (kept.fill tag.2 found small victim)⟩

/-- An access finds its line as long as few other tags of the set were accessed since. -/
theorem KeepsAll.hits_iff (keeps : KeepsAll splitTag now) (tag : Tag) (accessType : AccessType) :
    (∃ after way, now.1.accessSingleLine splitTag tag accessType true = .ok (after, some way)) ↔
      tag.val ∈ now.2 ∧ distance tag.val (now.2.filter (splitTag · = splitTag tag)) < associativity := by
  obtain ⟨items, kept⟩ := keeps (splitTag tag)
  have inPast : tag.val ∈ now.2 ↔ tag.val ∈ now.2.filter (splitTag · = splitTag tag) := by simp
  rw [inPast, ← kept.find_isSome tag.2]
  constructor
  · intro hit
    obtain ⟨after, way, accessed⟩ := hit
    exact find_of_accessed accessed
  · intro found
    obtain ⟨way, found⟩ := Option.isSome_iff_exists.mp found
    obtain ⟨small, _⟩ := find_some found
    have updated (writeFlag : Nat) : (CacheSetLRU associativity 1).updateReplacementIndex way writeFlag (splitTag tag) _ = _ :=
      lru_update_ok (kept.ordered.bits_lt small) writeFlag (splitTag tag)
    cases accessType <;> simp [Cache.accessSingleLine, found, CacheSet.readLine, CacheSet.writeLine, CacheSet.useLine, updated,
      bind, Except.bind]

theorem keepsAll_reach (fits : associativity ≤ 256)
    (reached : (accesses (CacheSetLRU associativity 1) splitTag).Reach noUpgrade now) : KeepsAll splitTag now := by
  refine reached.invariant (KeepsAll splitTag) ?_ ?_
  · intro start starts setIndex
    obtain ⟨blocks, bits⟩ := starts.1 setIndex
    have bits : (start.1.sets setIndex).fields = initialLruBits := bits
    refine ⟨List.range associativity, ?_, ?_, ?_⟩
    · rw [bits]
      exact .initial fits
    · rw [starts.2, List.filter_nil, order_nil, List.take_nil, List.filterMap_eq_nil_iff]
      intro way _
      rw [validTag, blocks way]
      rfl
    · intro way _
      rw [blocks way]
      decide
  · intro before label next keeps allowed stepped
    cases label with
    | access tag accessType call =>
      cases Nat.eq_zero_or_pos associativity with
      | inl none_ =>
        -- A cache without ways finds no line and takes no line.
        subst none_
        have missing : (before.1.sets (splitTag tag)).find tag = none := rfl
        have chosen : ∀ set call lruBits,
            (CacheSetLRU 0 1).getReplacementIndex set call lruBits = .error .findingLruBits := fun _ _ _ => rfl
        simp [accesses, Cache.accessSingleLine, missing, Cache.insertSingleLine, CacheSet.insert2, chosen, bind,
          Except.bind] at stepped
      | inr positive =>
        obtain ⟨after, accessed, kept⟩ := keeps.access positive tag accessType call
        cases accessed.symm.trans stepped
        exact kept
    | setCState tag cstate =>
      cases stepped
      have settles : cstate ≠ .sharedUpgrading := fun upgrades => allowed tag (upgrades ▸ rfl)
      intro setIndex
      obtain ⟨items, kept⟩ := keeps setIndex
      refine ⟨items, ?_⟩
      simp only [Cache.setCState]
      split
      · by_cases same : setIndex = splitTag tag
        · subst same
          simpa [Cache.setSet] using kept.setCState settles
        · simpa [Cache.setSet, Function.update_of_ne same] using kept
      · exact kept

/-- The bits are a permutation of the ways and put them in the order of their last use.  An access finds its line if and only
if fewer other tags of the set than there are ways were accessed since the last access to the tag. -/
theorem lru_keeps_lastUsed (fits : associativity ≤ 256) (splitTag : Nat → Nat) :
    (∀ contents (lruBits : Nat → Nat) uses, (CacheSetLRU associativity 1).recorded.Reachable ((contents, lruBits), uses) →
      ((List.range associativity).map lruBits).Perm (List.range associativity) ∧
        ∀ way < associativity, ∀ other < associativity, way ≠ other →
          (lruBits way < lruBits other ↔
            uses.idxOf way < uses.idxOf other ∨ way ∉ uses ∧ other ∉ uses ∧ way < other)) ∧
      ∀ cache past, (accesses (CacheSetLRU associativity 1) splitTag).Reach noUpgrade (cache, past) →
        ∀ (tag : Tag) (accessType : AccessType),
          ((∃ after way, cache.accessSingleLine splitTag tag accessType true = .ok (after, some way)) ↔
            tag.val ∈ past ∧ distance tag.val (past.filter (splitTag · = splitTag tag)) < associativity) ∧
          (0 < associativity → ∀ call, ∃ next,
            (accesses (CacheSetLRU associativity 1) splitTag).step (cache, past) (.access tag accessType call) = .ok next) := by
  constructor
  · intro contents lruBits uses reached
    have holds := lru_movesUsed.recorded_ordered fits reached
    have ordered : Ordered associativity lruBits (order (List.range associativity) uses) := holds.1
    have inside : ∀ used ∈ uses, used < associativity := holds.2
    refine ⟨ordered.bits_perm, ?_⟩
    intro way isWay other isOther apart
    have inBase : ∀ used ∈ uses, used ∈ List.range associativity := fun used member => List.mem_range.mpr (inside used member)
    have places := idxOf_order inBase apart
    have initial := Ordered.initial fits
    rw [ordered.bits way isWay, ordered.bits other isOther]
    rw [← initial.bits way isWay, ← initial.bits other isOther] at places
    simpa [initialLruBits, Nat.mod_eq_of_lt (Nat.lt_of_lt_of_le isWay fits), Nat.mod_eq_of_lt (Nat.lt_of_lt_of_le isOther fits)]
      using places
  · intro cache past reached tag accessType
    have keeps := keepsAll_reach fits reached
    refine ⟨keeps.hits_iff tag accessType, fun positive call => ?_⟩
    obtain ⟨next, accessed, _⟩ := keeps.access positive tag accessType call
    exact ⟨next, accessed⟩

/-- Of two ways, a block is kept for one access to another one, and not for two. -/
theorem lru_two_ways_keep : ∃ cache past, (accesses (CacheSetLRU 2 1) (fun _ => 0)).Reach noUpgrade (cache, past) ∧
    (¬∃ after way, cache.accessSingleLine (fun _ => 0) 7 .load true = .ok (after, some way)) ∧
    ∃ after way, cache.accessSingleLine (fun _ => 0) 8 .load true = .ok (after, some way) := by
  let access (tag : Tag) : CacheLabel := .access tag .load plainCall
  have start : (accesses (CacheSetLRU 2 1) (fun _ => 0)).Reach noUpgrade (⟨fun _ => ⟨fun _ => .invalid, initialLruBits⟩⟩, []) :=
    .initial ⟨fun _ => ⟨fun _ => rfl, rfl⟩, rfl⟩
  have ran : (accesses (CacheSetLRU 2 1) (fun _ => 0)).run (⟨fun _ => ⟨fun _ => .invalid, initialLruBits⟩⟩, [])
      [access ⟨7, by decide⟩, access ⟨8, by decide⟩, access ⟨9, by decide⟩] = .ok _ := rfl
  have reached := start.run (by simp [access, noUpgrade]) ran
  have keeps := (lru_keeps_lastUsed (by decide) (fun _ => 0)).2 _ _ reached
  refine ⟨_, _, reached, ?_, ?_⟩
  · rw [(keeps ⟨7, by decide⟩ .load).1]
    decide
  · rw [(keeps ⟨8, by decide⟩ .load).1]
    decide

end Runs

end Sniper.Replacement

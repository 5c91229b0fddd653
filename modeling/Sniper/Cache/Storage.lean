import Sniper.Cache.State
import Mathlib.Logic.Function.Basic
import Mathlib.Data.List.FinRange

/-! The sets and ways of a cache.

A set finds a line by its tag and knows nothing else about it.  A tag is the whole
address of the line, so the set follows from the tag.  Which way a new line takes is
left to the caller: it is the answer of the replacement policy. -/

namespace Sniper

structure Geometry (Addr : Type) where
  sets : Nat
  associativity : Nat
  setIndex : Addr → Fin sets

/-- `CacheBlockInfo` of a valid block, with the data of the line. -/
structure Block (Addr V : Type) where
  tag : Addr
  cstate : CState
  data : V
deriving DecidableEq

/-- The blocks of every set.  A way whose block is not valid (its tag is `~0`) holds `none`. -/
structure Cache {Addr : Type} (geometry : Geometry Addr) (V : Type) where
  blocks : Fin geometry.sets → Fin geometry.associativity → Option (Block Addr V)

namespace Cache

variable {Addr V : Type} [DecidableEq Addr] {geometry : Geometry Addr} {cache : Cache geometry V}
  {address other : Addr} {block : Block Addr V}

def empty (geometry : Geometry Addr) (V : Type) : Cache geometry V := ⟨fun _ _ => none⟩

/-- `CacheSet::find`: the ways are searched from the last one. -/
def find (cache : Cache geometry V) (address : Addr) : Option (Fin geometry.associativity) :=
  (List.finRange geometry.associativity).reverse.find? fun way =>
    (cache.blocks (geometry.setIndex address) way).any fun block => block.tag = address

def peekSingleLine (cache : Cache geometry V) (address : Addr) : Option (Block Addr V) :=
  (cache.find address).bind (cache.blocks (geometry.setIndex address))

def setBlock (cache : Cache geometry V) (set : Fin geometry.sets) (way : Fin geometry.associativity)
    (block : Option (Block Addr V)) : Cache geometry V :=
  ⟨Function.update cache.blocks set (Function.update (cache.blocks set) way block)⟩

/-- Changes the block of the address, if there is one. -/
def change (cache : Cache geometry V) (address : Addr)
    (update : Block Addr V → Option (Block Addr V)) : Cache geometry V :=
  match cache.find address with
  | none => cache
  | some way =>
    cache.setBlock (geometry.setIndex address) way
      ((cache.blocks (geometry.setIndex address) way).bind update)

/-- `CacheBlockInfo::setCState` on the block of the address. -/
def setCState (cache : Cache geometry V) (address : Addr) (cstate : CState) : Cache geometry V :=
  cache.change address fun block => some { block with cstate }

def invalidateSingleLine (cache : Cache geometry V) (address : Addr) : Cache geometry V :=
  cache.change address fun _ => none

/-- `Cache::accessSingleLine` with `Cache::STORE`. -/
def storeSingleLine (cache : Cache geometry V) (address : Addr) (data : V) : Cache geometry V :=
  cache.change address fun block => some { block with data }

/-- `Cache::insertSingleLine` into the given way: the cache and the evicted block, if there is one.
The new block is not yet in any coherence state. -/
def insertSingleLine (cache : Cache geometry V) (address : Addr) (data : V)
    (way : Fin geometry.associativity) : Cache geometry V × Option (Block Addr V) :=
  (cache.setBlock (geometry.setIndex address) way (some { tag := address, cstate := .invalid, data }),
    cache.blocks (geometry.setIndex address) way)

/-- `CacheCntlr::getCacheState`. -/
def cstate (cache : Cache geometry V) (address : Addr) : CState :=
  match cache.peekSingleLine address with
  | none => .invalid
  | some block => block.cstate

/-- Every block is in the set of its tag, and no two blocks of a set have one tag. -/
structure WellFormed (cache : Cache geometry V) : Prop where
  placed : ∀ {set way block}, cache.blocks set way = some block → geometry.setIndex block.tag = set
  unique : ∀ {set way way' block block'}, cache.blocks set way = some block →
    cache.blocks set way' = some block' → block.tag = block'.tag → way = way'

omit [DecidableEq Addr] in
theorem empty_wellFormed : (empty geometry V).WellFormed := ⟨by rintro _ _ _ ⟨⟩, by rintro _ _ _ _ _ ⟨⟩⟩

theorem empty_peek : (empty geometry V).peekSingleLine address = none := by
  cases found : (empty geometry V).find address <;> simp [peekSingleLine, empty]

omit [DecidableEq Addr] in
theorem blocks_setBlock {set : Fin geometry.sets} {way : Fin geometry.associativity}
    {stored : Option (Block Addr V)} (set' : Fin geometry.sets) (way' : Fin geometry.associativity) :
    (cache.setBlock set way stored).blocks set' way' =
      if set' = set ∧ way' = way then stored else cache.blocks set' way' := by
  unfold setBlock
  by_cases sameSet : set' = set
  · subst sameSet
    by_cases sameWay : way' = way <;> simp [sameWay]
  · simp [sameSet]

theorem find_eq_some {way : Fin geometry.associativity} (found : cache.find address = some way) :
    ∃ block, cache.blocks (geometry.setIndex address) way = some block ∧ block.tag = address := by
  have matched := List.find?_some found
  simpa [Option.any_eq_true] using matched

theorem find_eq_none (missing : cache.find address = none) {way : Fin geometry.associativity}
    (stored : cache.blocks (geometry.setIndex address) way = some block) : block.tag ≠ address := by
  have unmatched := List.find?_eq_none.mp missing way (by simp)
  simpa [stored] using unmatched

namespace WellFormed

theorem find_of_stored (wellFormed : cache.WellFormed) {way : Fin geometry.associativity}
    (stored : cache.blocks (geometry.setIndex block.tag) way = some block) :
    cache.find block.tag = some way := by
  cases found : cache.find block.tag with
  | none => exact absurd rfl (find_eq_none found stored)
  | some way' =>
    obtain ⟨block', stored', same⟩ := find_eq_some found
    rw [wellFormed.unique stored' stored same]

theorem peek_eq_some (wellFormed : cache.WellFormed) :
    cache.peekSingleLine address = some block ↔
      block.tag = address ∧ ∃ way, cache.blocks (geometry.setIndex address) way = some block := by
  constructor
  · intro peeked
    cases found : cache.find address with
    | none => simp [peekSingleLine, found] at peeked
    | some way =>
      obtain ⟨block', stored, same⟩ := find_eq_some found
      have peeked : cache.blocks (geometry.setIndex address) way = some block := by
        simpa [peekSingleLine, found] using peeked
      rw [stored, Option.some.injEq] at peeked
      exact ⟨peeked ▸ same, way, peeked ▸ stored⟩
  · rintro ⟨same, way, stored⟩
    subst same
    simp [peekSingleLine, wellFormed.find_of_stored stored, stored]

omit [DecidableEq Addr] in
theorem setBlock (wellFormed : cache.WellFormed) {set : Fin geometry.sets}
    {way : Fin geometry.associativity} {stored : Option (Block Addr V)}
    (placed : ∀ block, stored = some block → geometry.setIndex block.tag = set)
    (fresh : ∀ block way' block', stored = some block → way' ≠ way → cache.blocks set way' = some block' →
      block'.tag ≠ block.tag) : (cache.setBlock set way stored).WellFormed := by
  constructor
  · intro set' way' block held
    rw [blocks_setBlock] at held
    split at held
    case isTrue same => exact same.1 ▸ placed block held
    case isFalse => exact wellFormed.placed held
  · intro set' way' way'' block block' held held' same
    rw [blocks_setBlock] at held held'
    by_cases here : set' = set ∧ way' = way <;> by_cases here' : set' = set ∧ way'' = way
    · exact here.2.trans here'.2.symm
    · rw [if_pos here] at held
      rw [if_neg here', here.1] at held'
      exact absurd same.symm (fresh block way'' block' held (fun eq => here' ⟨here.1, eq⟩) held')
    · rw [if_pos here'] at held'
      rw [if_neg here, here'.1] at held
      exact absurd same (fresh block' way' block held' (fun eq => here ⟨here'.1, eq⟩) held)
    · rw [if_neg here] at held
      rw [if_neg here'] at held'
      exact wellFormed.unique held held' same

theorem peek_setBlock (wellFormed : cache.WellFormed) {set : Fin geometry.sets}
    {way : Fin geometry.associativity} {stored : Option (Block Addr V)}
    (after : (cache.setBlock set way stored).WellFormed)
    (before : ∀ block, cache.blocks set way = some block → block.tag ≠ other)
    (now : ∀ block, stored = some block → block.tag ≠ other) :
    (cache.setBlock set way stored).peekSingleLine other = cache.peekSingleLine other := by
  refine Option.ext fun block => ?_
  rw [after.peek_eq_some, wellFormed.peek_eq_some]
  refine and_congr_right fun same => exists_congr fun way' => ?_
  rw [blocks_setBlock]
  split
  case isTrue here =>
    rw [here.1, here.2]
    exact ⟨fun held => absurd same (now block held), fun held => absurd same (before block held)⟩
  case isFalse => rfl

theorem change (wellFormed : cache.WellFormed) {update : Block Addr V → Option (Block Addr V)}
    (tagged : ∀ block block', update block = some block' → block'.tag = block.tag) :
    (cache.change address update).WellFormed := by
  unfold Cache.change
  cases found : cache.find address with
  | none => exact wellFormed
  | some way =>
    obtain ⟨block, stored, same⟩ := find_eq_some found
    refine wellFormed.setBlock ?_ ?_
    · intro block' updated
      rw [stored] at updated
      rw [tagged block block' updated, same]
    · intro block' way' other updated apart held
      rw [stored] at updated
      rw [tagged block block' updated]
      exact fun eq => apart (wellFormed.unique held stored eq)

theorem peek_change (wellFormed : cache.WellFormed) {update : Block Addr V → Option (Block Addr V)}
    (tagged : ∀ block block', update block = some block' → block'.tag = block.tag) (other : Addr) :
    (cache.change address update).peekSingleLine other =
      if other = address then (cache.peekSingleLine address).bind update else cache.peekSingleLine other := by
  have after : (cache.change address update).WellFormed := wellFormed.change tagged
  unfold Cache.change at after ⊢
  cases found : cache.find address with
  | none =>
    by_cases same : other = address
    · simp [same, peekSingleLine, found]
    · rw [if_neg same]
  | some way =>
    obtain ⟨block, stored, same⟩ := find_eq_some found
    simp only [found, stored, Option.bind_some] at after ⊢
    split
    case isTrue equal =>
      subst equal
      have peeked : cache.peekSingleLine other = some block := by simp [peekSingleLine, found, stored]
      rw [peeked, Option.bind_some]
      refine Option.ext fun block' => ?_
      rw [after.peek_eq_some]
      constructor
      · rintro ⟨sameTag, way', held⟩
        rw [blocks_setBlock] at held
        split at held
        case isTrue => exact held
        case isFalse elsewhere =>
          exact absurd ⟨rfl, wellFormed.unique held stored (sameTag.trans same.symm)⟩ elsewhere
      · intro updated
        exact ⟨(tagged block block' updated).trans same, way, by simp [blocks_setBlock, updated]⟩
    case isFalse apart =>
      refine wellFormed.peek_setBlock after ?_ ?_
      · intro block' held
        rw [stored, Option.some.injEq] at held
        rw [← held, same]
        exact Ne.symm apart
      · intro block' updated
        rw [tagged block block' updated, same]
        exact Ne.symm apart

theorem insertSingleLine (wellFormed : cache.WellFormed) (absent : cache.peekSingleLine address = none)
    {data : V} {way : Fin geometry.associativity} :
    (cache.insertSingleLine address data way).1.WellFormed := by
  refine wellFormed.setBlock ?_ ?_
  · intro block stored
    cases stored
    rfl
  · intro block way' block' stored _ held same
    cases stored
    have found : cache.peekSingleLine address = some block' := wellFormed.peek_eq_some.mpr ⟨same, way', held⟩
    rw [absent] at found
    cases found

theorem evicted (wellFormed : cache.WellFormed) (absent : cache.peekSingleLine address = none)
    {data : V} {way : Fin geometry.associativity}
    (evicted : (cache.insertSingleLine address data way).2 = some block) :
    cache.peekSingleLine block.tag = some block ∧ block.tag ≠ address := by
  have stored : cache.blocks (geometry.setIndex address) way = some block := evicted
  have placed := wellFormed.placed stored
  have found : cache.peekSingleLine block.tag = some block :=
    wellFormed.peek_eq_some.mpr ⟨rfl, way, placed.symm ▸ stored⟩
  refine ⟨found, fun same => ?_⟩
  rw [same, absent] at found
  cases found

theorem peek_insertSingleLine (wellFormed : cache.WellFormed) (absent : cache.peekSingleLine address = none)
    {data : V} {way : Fin geometry.associativity} (other : Addr) :
    (cache.insertSingleLine address data way).1.peekSingleLine other =
      if other = address then some { tag := address, cstate := .invalid, data }
      else if (cache.insertSingleLine address data way).2.map Block.tag = some other then none
      else cache.peekSingleLine other := by
  have after : (cache.insertSingleLine address data way).1.WellFormed := wellFormed.insertSingleLine absent
  split
  case isTrue same =>
    subst same
    exact after.peek_eq_some.mpr ⟨rfl, way, by simp [Cache.insertSingleLine, blocks_setBlock]⟩
  case isFalse apart =>
    split
    case isTrue evicted =>
      obtain ⟨block, stored, same⟩ := Option.map_eq_some_iff.mp evicted
      have placed := wellFormed.placed stored
      rw [same] at placed
      refine Option.eq_none_iff_forall_ne_some.mpr fun block' found => ?_
      obtain ⟨sameTag, way', held⟩ := after.peek_eq_some.mp found
      rw [Cache.insertSingleLine, blocks_setBlock] at held
      split at held
      case isTrue =>
        cases held
        exact apart sameTag.symm
      case isFalse elsewhere =>
        rw [placed] at held elsewhere
        exact elsewhere ⟨rfl, wellFormed.unique held stored (sameTag.trans same.symm)⟩
    case isFalse kept =>
      refine wellFormed.peek_setBlock after ?_ ?_
      · intro block stored same
        exact kept (by simp [Cache.insertSingleLine, stored, same])
      · intro block stored same
        cases stored
        exact apart same.symm

theorem setCState (wellFormed : cache.WellFormed) {cstate : CState} :
    (cache.setCState address cstate).WellFormed :=
  wellFormed.change fun _ _ updated => by cases updated; rfl

theorem invalidateSingleLine (wellFormed : cache.WellFormed) :
    (cache.invalidateSingleLine address).WellFormed :=
  wellFormed.change (by rintro _ _ ⟨⟩)

theorem storeSingleLine (wellFormed : cache.WellFormed) {data : V} :
    (cache.storeSingleLine address data).WellFormed :=
  wellFormed.change fun _ _ updated => by cases updated; rfl

theorem peek_storeSingleLine (wellFormed : cache.WellFormed) {data : V} (other : Addr) :
    (cache.storeSingleLine address data).peekSingleLine other =
      if other = address then (cache.peekSingleLine address).map ({ · with data })
      else cache.peekSingleLine other := by
  rw [Cache.storeSingleLine, wellFormed.peek_change fun _ _ updated => by cases updated; rfl]
  split
  · exact Option.map_eq_bind.symm
  · rfl

theorem peek_setCState (wellFormed : cache.WellFormed) {cstate : CState} (other : Addr) :
    (cache.setCState address cstate).peekSingleLine other =
      if other = address then (cache.peekSingleLine address).map ({ · with cstate })
      else cache.peekSingleLine other := by
  rw [Cache.setCState, wellFormed.peek_change fun _ _ updated => by cases updated; rfl]
  split
  · exact Option.map_eq_bind.symm
  · rfl

theorem peek_invalidateSingleLine (wellFormed : cache.WellFormed) (other : Addr) :
    (cache.invalidateSingleLine address).peekSingleLine other =
      if other = address then none else cache.peekSingleLine other := by
  have tagged : ∀ block block' : Block Addr V, none = some block' → block'.tag = block.tag := by rintro _ _ ⟨⟩
  rw [Cache.invalidateSingleLine, wellFormed.peek_change tagged]
  cases cache.peekSingleLine address <;> rfl

end WellFormed

/-- A well-formed cache none of whose blocks is in state `INVALID`. -/
structure Sound (cache : Cache geometry V) : Prop extends cache.WellFormed where
  live : ∀ {address block}, cache.peekSingleLine address = some block → block.cstate ≠ .invalid

theorem empty_sound : (empty geometry V).Sound where
  toWellFormed := empty_wellFormed
  live := by simp [empty_peek]

namespace Sound

theorem cstate_eq_invalid (sound : cache.Sound) :
    cache.cstate address = .invalid ↔ cache.peekSingleLine address = none := by
  unfold cstate
  cases peeked : cache.peekSingleLine address with
  | none => simp
  | some block => simpa using sound.live peeked

theorem setCState (sound : cache.Sound) {cstate : CState} (valid : cstate ≠ .invalid) :
    (cache.setCState address cstate).Sound where
  toWellFormed := sound.toWellFormed.setCState
  live := by
    intro other block peeked
    rw [sound.peek_setCState] at peeked
    split at peeked
    case isTrue =>
      obtain ⟨before, _, rfl⟩ := Option.map_eq_some_iff.mp peeked
      exact valid
    case isFalse => exact sound.live peeked

theorem cstate_setCState (sound : cache.Sound) {cstate : CState} (other : Addr) :
    (cache.setCState address cstate).cstate other =
      if other = address then (cache.cstate address).become cstate else cache.cstate other := by
  unfold Cache.cstate
  rw [sound.peek_setCState]
  by_cases same : other = address
  · rw [if_pos same, if_pos same]
    cases peeked : cache.peekSingleLine address with
    | none => rfl
    | some block => simp [CState.become, sound.live peeked]
  · rw [if_neg same, if_neg same]

theorem invalidateSingleLine (sound : cache.Sound) : (cache.invalidateSingleLine address).Sound where
  toWellFormed := sound.toWellFormed.invalidateSingleLine
  live := by
    intro other block peeked
    rw [sound.peek_invalidateSingleLine] at peeked
    split at peeked
    case isTrue => cases peeked
    case isFalse => exact sound.live peeked

theorem cstate_invalidateSingleLine (sound : cache.Sound) (other : Addr) :
    (cache.invalidateSingleLine address).cstate other =
      if other = address then .invalid else cache.cstate other := by
  unfold Cache.cstate
  rw [sound.peek_invalidateSingleLine]
  by_cases same : other = address
  · rw [if_pos same, if_pos same]
  · rw [if_neg same, if_neg same]

theorem insertSingleLine (sound : cache.Sound) (absent : cache.peekSingleLine address = none)
    {data : V} {way : Fin geometry.associativity} {cstate : CState} (valid : cstate ≠ .invalid) :
    ((cache.insertSingleLine address data way).1.setCState address cstate).Sound where
  toWellFormed := (sound.toWellFormed.insertSingleLine absent).setCState
  live := by
    intro other block peeked
    rw [(sound.toWellFormed.insertSingleLine absent).peek_setCState,
      sound.peek_insertSingleLine absent, sound.peek_insertSingleLine absent] at peeked
    split at peeked
    case isTrue =>
      rw [if_pos rfl] at peeked
      cases peeked
      exact valid
    case isFalse apart =>
      split at peeked
      case isTrue => cases peeked
      case isFalse => exact sound.live peeked

theorem cstate_insertSingleLine (sound : cache.Sound) (absent : cache.peekSingleLine address = none)
    {data : V} {way : Fin geometry.associativity} {cstate : CState} (other : Addr) :
    ((cache.insertSingleLine address data way).1.setCState address cstate).cstate other =
      if other = address then cstate
      else if (cache.insertSingleLine address data way).2.map Block.tag = some other then .invalid
      else cache.cstate other := by
  unfold Cache.cstate
  rw [(sound.toWellFormed.insertSingleLine absent).peek_setCState,
    sound.peek_insertSingleLine absent, sound.peek_insertSingleLine absent]
  by_cases same : other = address
  · rw [if_pos same, if_pos same, if_pos rfl]
    rfl
  · rw [if_neg same, if_neg same, if_neg same]
    by_cases gone : (cache.insertSingleLine address data way).2.map Block.tag = some other
    · rw [if_pos gone, if_pos gone]
    · rw [if_neg gone, if_neg gone]

end Sound

end Cache

end Sniper

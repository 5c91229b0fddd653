import Mathlib.Algebra.Ring.Nat
import Mathlib.Logic.Function.Basic

/-! `GhbPrefetcher`: a circular buffer of the differences between addresses, and the lists that link what came after equal
differences. -/

namespace Sniper.Ghb

/-- `INVALID_DELTA`: `INT64_MAX`. -/
def invalidDelta : UInt64 := 0x7FFFFFFFFFFFFFFF

/-- `INVALID_INDEX`: `UINT32_MAX`. -/
def invalidIndex : Nat := 2 ^ 32 - 1

def invalidAddress : UInt64 := 0xFFFFFFFFFFFFFFFF

structure Config where
  prefetchWidth : Nat
  prefetchDepth : Nat
  ghbSize : Nat
  tableSize : Nat
  ghbSize_ge : 2 ≤ ghbSize
  ghbSize_lt : ghbSize < 2 ^ 32
  tableSize_pos : 1 ≤ tableSize

structure GhbEntry where
  /-- Index of the next entry belonging to the same list. -/
  nextIndex : Nat
  /-- Difference between last address and current address. -/
  delta : UInt64
  generation : Nat
deriving DecidableEq, Repr

def GhbEntry.initial : GhbEntry := ⟨invalidIndex, invalidDelta, 0⟩

structure TableEntry where
  ghbIndex : Nat
  delta : UInt64
  generation : Nat
deriving DecidableEq, Repr

def TableEntry.initial : TableEntry := ⟨invalidIndex, invalidDelta, 0⟩

structure GhbPrefetcher (config : Config) where
  lastAddress : UInt64
  ghbHead : Nat
  generation : Nat
  ghb : Nat → GhbEntry
  /-- Next table position to be overwritten. -/
  tableHead : Nat
  ghbTable : Nat → TableEntry

namespace GhbPrefetcher

variable {config : Config}

def create (config : Config) : GhbPrefetcher config :=
  ⟨invalidAddress, 0, 0, fun _ => .initial, 0, fun _ => .initial⟩

/-- The loop that looks for a difference in the table, with `left` positions to look at. -/
def search (table : Nat → TableEntry) (delta : UInt64) : (left i : Nat) → Nat
  | 0, i => i
  | left + 1, i => if (table i).delta ≠ invalidDelta ∧ (table i).delta ≠ delta then search table delta left (i + 1) else i

/-- The position of a difference in the table, or where the search for it ends. -/
def position (prefetcher : GhbPrefetcher config) (delta : UInt64) : Nat := search prefetcher.ghbTable delta config.tableSize 0

def Found (prefetcher : GhbPrefetcher config) (delta : UInt64) : Prop :=
  prefetcher.position delta ≠ config.tableSize ∧ (prefetcher.ghbTable (prefetcher.position delta)).delta = delta

instance (prefetcher : GhbPrefetcher config) (delta : UInt64) : Decidable (prefetcher.Found delta) :=
  inferInstanceAs (Decidable (_ ∧ _))

/-- The table position still points to the current generation of the buffer. -/
def Current (prefetcher : GhbPrefetcher config) (i : Nat) : Prop :=
  (prefetcher.ghbTable i).generation = (prefetcher.ghb (prefetcher.ghbTable i).ghbIndex).generation

instance (prefetcher : GhbPrefetcher config) (i : Nat) : Decidable (prefetcher.Current i) :=
  inferInstanceAs (Decidable (_ = _))

/-- The inner loop: the addresses at the given number of steps on, starting from `depth`. -/
def depthLoop (prefetcher : GhbPrefetcher config) (ghbIndex : Nat) :
    (left depth : Nat) → (newAddress : UInt64) → (prefetchList : List UInt64) → List UInt64
  | 0, _, _, prefetchList => prefetchList
  | left + 1, depth, newAddress, prefetchList =>
    let delta := (prefetcher.ghb ((ghbIndex + depth) % 2 ^ 32 % config.ghbSize)).delta
    if delta = invalidDelta then prefetchList
    else
      let newAddress := newAddress + delta
      -- add address to the list if it wasn't in there already
      depthLoop prefetcher ghbIndex left (depth + 1) newAddress
        (if newAddress ∈ prefetchList then prefetchList else prefetchList ++ [newAddress])

/-- The index that the width loop goes on with. -/
def follow (prefetcher : GhbPrefetcher config) (ghbIndex : Nat) : Nat :=
  let nextIndex := (prefetcher.ghb ghbIndex).nextIndex
  -- if we circle the GHB, OR we were already larger than the head pointer, AND the nextIndex has been overwritten
  if (nextIndex > ghbIndex ∨ ghbIndex > prefetcher.ghbHead) ∧ nextIndex < prefetcher.ghbHead then invalidIndex else nextIndex

/-- The width loop, with `left` more rounds. -/
def widthLoop (prefetcher : GhbPrefetcher config) (currentAddress : UInt64) :
    (left ghbIndex : Nat) → (prefetchList : List UInt64) → List UInt64
  | 0, _, prefetchList => prefetchList
  | left + 1, ghbIndex, prefetchList =>
    if ghbIndex = invalidIndex then prefetchList
    else
      widthLoop prefetcher currentAddress left (prefetcher.follow ghbIndex)
        (prefetcher.depthLoop ghbIndex config.prefetchDepth 0 currentAddress prefetchList)

def prefetchList (prefetcher : GhbPrefetcher config) (currentAddress delta : UInt64) : List UInt64 :=
  if prefetcher.Found delta ∧ prefetcher.Current (prefetcher.position delta) then
    prefetcher.widthLoop currentAddress config.prefetchWidth (prefetcher.ghbTable (prefetcher.position delta)).ghbIndex []
  else []

def prevHead (prefetcher : GhbPrefetcher config) : Nat :=
  if prefetcher.ghbHead > 0 then prefetcher.ghbHead - 1 else config.ghbSize - 1

/-- The last difference. -/
def prevDelta (prefetcher : GhbPrefetcher config) : UInt64 := (prefetcher.ghb prefetcher.prevHead).delta

/-- The buffer with a new entry at the head, without its link. -/
def store (prefetcher : GhbPrefetcher config) (delta : UInt64) : GhbPrefetcher config :=
  { prefetcher with
    ghb := Function.update prefetcher.ghb prefetcher.ghbHead ⟨invalidIndex, delta, prefetcher.generation⟩ }

/-- The new entry is entered in the table under the difference before it, and linked to the one that the table had. -/
def enter (prefetcher : GhbPrefetcher config) : GhbPrefetcher config :=
  let prevDelta := prefetcher.prevDelta
  if prevDelta ≠ invalidDelta then
    let i := prefetcher.position prevDelta
    if prefetcher.Found prevDelta then
      let nextIndex := if prefetcher.Current i then (prefetcher.ghbTable i).ghbIndex else invalidIndex
      { prefetcher with
        ghb := Function.update prefetcher.ghb prefetcher.ghbHead { prefetcher.ghb prefetcher.ghbHead with nextIndex }
        ghbTable := Function.update prefetcher.ghbTable i
          { prefetcher.ghbTable i with ghbIndex := prefetcher.ghbHead, generation := prefetcher.generation } }
    else
      { prefetcher with
        ghbTable := Function.update prefetcher.ghbTable prefetcher.tableHead
          ⟨prefetcher.ghbHead, prevDelta, prefetcher.generation⟩
        tableHead := (prefetcher.tableHead + 1) % config.tableSize }
  else prefetcher

/-- The head goes on to the next entry. -/
def advance (prefetcher : GhbPrefetcher config) : GhbPrefetcher config :=
  if prefetcher.ghbHead + 1 = config.ghbSize then
    { prefetcher with ghbHead := 0, generation := (prefetcher.generation + 1) % 4 }
  else { prefetcher with ghbHead := prefetcher.ghbHead + 1 }

def add (prefetcher : GhbPrefetcher config) (delta : UInt64) : GhbPrefetcher config := (prefetcher.store delta).enter.advance

def getNextAddress (prefetcher : GhbPrefetcher config) (currentAddress : UInt64) : List UInt64 × GhbPrefetcher config :=
  -- deal with prefetcher initialization
  if prefetcher.lastAddress = invalidAddress then ([], { prefetcher with lastAddress := currentAddress })
  else
    let delta := currentAddress - prefetcher.lastAddress
    let list := prefetcher.prefetchList currentAddress delta
    (list, { prefetcher with lastAddress := currentAddress }.add delta)

/-! ### The indexes that are visited -/

/-- The values of `ghbIndex` in the rounds of the width loop. -/
def visited (prefetcher : GhbPrefetcher config) : (left ghbIndex : Nat) → List Nat
  | 0, _ => []
  | left + 1, ghbIndex =>
    if ghbIndex = invalidIndex then [] else ghbIndex :: visited prefetcher left (prefetcher.follow ghbIndex)

/-- The indexes that are visited while a difference is looked up. -/
def visits (prefetcher : GhbPrefetcher config) (delta : UInt64) : List Nat :=
  if prefetcher.Found delta ∧ prefetcher.Current (prefetcher.position delta) then
    prefetcher.visited config.prefetchWidth (prefetcher.ghbTable (prefetcher.position delta)).ghbIndex
  else []

/-! ### The search of the table -/

section Search

variable {table : Nat → TableEntry} {delta : UInt64}

theorem search_le (table : Nat → TableEntry) (delta : UInt64) (left i : Nat) : search table delta left i ≤ i + left := by
  induction left generalizing i with
  | zero => exact Nat.le_refl _
  | succ left ih =>
    rw [search]
    split
    · have further := ih (i + 1)
      omega
    · omega

theorem position_le (prefetcher : GhbPrefetcher config) (delta : UInt64) : prefetcher.position delta ≤ config.tableSize := by
  have most := search_le prefetcher.ghbTable delta config.tableSize 0
  rwa [Nat.zero_add] at most

theorem Found.position_lt {prefetcher : GhbPrefetcher config} (found : prefetcher.Found delta) :
    prefetcher.position delta < config.tableSize :=
  Nat.lt_of_le_of_ne (prefetcher.position_le delta) found.1

end Search

/-! ### What a difference that is added changes -/

section Add

variable {prefetcher : GhbPrefetcher config} {delta : UInt64}

theorem prevHead_ne (prefetcher : GhbPrefetcher config) : prefetcher.prevHead ≠ prefetcher.ghbHead := by
  have two := config.ghbSize_ge
  rw [prevHead]
  split <;> omega

theorem store_head (prefetcher : GhbPrefetcher config) (delta : UInt64) :
    (prefetcher.store delta).ghb prefetcher.ghbHead = ⟨invalidIndex, delta, prefetcher.generation⟩ :=
  Function.update_self _ _ _

theorem store_other {index : Nat} (delta : UInt64) (elsewhere : index ≠ prefetcher.ghbHead) :
    (prefetcher.store delta).ghb index = prefetcher.ghb index :=
  Function.update_of_ne elsewhere _ _

theorem prevDelta_store (prefetcher : GhbPrefetcher config) (delta : UInt64) :
    (prefetcher.store delta).prevDelta = prefetcher.prevDelta := by
  exact congrArg GhbEntry.delta (store_other delta prefetcher.prevHead_ne)

def entered (prefetcher : GhbPrefetcher config) : Nat :=
  if prefetcher.Found prefetcher.prevDelta then prefetcher.position prefetcher.prevDelta else prefetcher.tableHead

/-- The entry at the head has been entered in the table, with a link or with none. -/
structure Enters (prefetcher after : GhbPrefetcher config) (nextIndex : Nat) : Prop where
  ghb : after.ghb = Function.update prefetcher.ghb prefetcher.ghbHead { prefetcher.ghb prefetcher.ghbHead with nextIndex }
  table : after.ghbTable = if prefetcher.prevDelta ≠ invalidDelta then
    Function.update prefetcher.ghbTable prefetcher.entered ⟨prefetcher.ghbHead, prefetcher.prevDelta, prefetcher.generation⟩
    else prefetcher.ghbTable
  tableHead : after.tableHead = prefetcher.tableHead ∨ after.tableHead = (prefetcher.tableHead + 1) % config.tableSize
  head : after.ghbHead = prefetcher.ghbHead
  generation : after.generation = prefetcher.generation
  link : nextIndex ≠ invalidIndex → prefetcher.prevDelta ≠ invalidDelta ∧ prefetcher.Found prefetcher.prevDelta ∧
    prefetcher.Current prefetcher.entered ∧ nextIndex = (prefetcher.ghbTable prefetcher.entered).ghbIndex

theorem enter_found (valid : prefetcher.prevDelta ≠ invalidDelta) (found : prefetcher.Found prefetcher.prevDelta) :
    prefetcher.enter = { prefetcher with
      ghb := Function.update prefetcher.ghb prefetcher.ghbHead { prefetcher.ghb prefetcher.ghbHead with
        nextIndex := if prefetcher.Current (prefetcher.position prefetcher.prevDelta) then
          (prefetcher.ghbTable (prefetcher.position prefetcher.prevDelta)).ghbIndex else invalidIndex }
      ghbTable := Function.update prefetcher.ghbTable (prefetcher.position prefetcher.prevDelta)
        { prefetcher.ghbTable (prefetcher.position prefetcher.prevDelta) with
          ghbIndex := prefetcher.ghbHead, generation := prefetcher.generation } } := by
  rw [enter]
  simp only [if_pos valid, if_pos found]

theorem enter_missing (valid : prefetcher.prevDelta ≠ invalidDelta) (missing : ¬prefetcher.Found prefetcher.prevDelta) :
    prefetcher.enter = { prefetcher with
      ghbTable := Function.update prefetcher.ghbTable prefetcher.tableHead
        ⟨prefetcher.ghbHead, prefetcher.prevDelta, prefetcher.generation⟩
      tableHead := (prefetcher.tableHead + 1) % config.tableSize } := by
  rw [enter]
  simp only [if_pos valid, if_neg missing]

theorem enter_none (none : ¬prefetcher.prevDelta ≠ invalidDelta) : prefetcher.enter = prefetcher := by
  rw [enter]
  simp only [if_neg none]

theorem enter_spec (unlinked : (prefetcher.ghb prefetcher.ghbHead).nextIndex = invalidIndex) :
    ∃ nextIndex, Enters prefetcher prefetcher.enter nextIndex := by
  have same : Function.update prefetcher.ghb prefetcher.ghbHead
      { prefetcher.ghb prefetcher.ghbHead with nextIndex := invalidIndex } = prefetcher.ghb := by
    rw [← unlinked]
    exact Function.update_eq_self _ _
  by_cases valid : prefetcher.prevDelta ≠ invalidDelta
  · by_cases found : prefetcher.Found prefetcher.prevDelta
    · have entered : prefetcher.entered = prefetcher.position prefetcher.prevDelta := if_pos found
      rw [enter_found valid found]
      refine ⟨_, rfl, ?_, .inl rfl, rfl, rfl, fun linked => ?_⟩
      · rw [if_pos valid, entered]
        simp only [found.2]
      · rw [entered]
        split at linked
        case isTrue current => exact ⟨valid, found, current, if_pos current⟩
        case isFalse => exact absurd rfl linked
    · have entered : prefetcher.entered = prefetcher.tableHead := if_neg found
      rw [enter_missing valid found]
      refine ⟨invalidIndex, same.symm, ?_, .inr rfl, rfl, rfl, fun linked => absurd rfl linked⟩
      rw [if_pos valid, entered]
  · rw [enter_none valid]
    exact ⟨invalidIndex, same.symm, (if_neg valid).symm, .inl rfl, rfl, rfl, fun linked => absurd rfl linked⟩

structure Adds (prefetcher after : GhbPrefetcher config) (delta : UInt64) (nextIndex : Nat) : Prop where
  ghb : after.ghb = Function.update prefetcher.ghb prefetcher.ghbHead ⟨nextIndex, delta, prefetcher.generation⟩
  table : after.ghbTable = if prefetcher.prevDelta ≠ invalidDelta then
    Function.update prefetcher.ghbTable prefetcher.entered ⟨prefetcher.ghbHead, prefetcher.prevDelta, prefetcher.generation⟩
    else prefetcher.ghbTable
  tableHead : after.tableHead = prefetcher.tableHead ∨ after.tableHead = (prefetcher.tableHead + 1) % config.tableSize
  head : after.ghbHead = if prefetcher.ghbHead + 1 = config.ghbSize then 0 else prefetcher.ghbHead + 1
  generation : after.generation =
    if prefetcher.ghbHead + 1 = config.ghbSize then (prefetcher.generation + 1) % 4 else prefetcher.generation
  link : nextIndex ≠ invalidIndex → prefetcher.prevDelta ≠ invalidDelta ∧ prefetcher.Found prefetcher.prevDelta ∧
    nextIndex = (prefetcher.ghbTable prefetcher.entered).ghbIndex ∧
    (prefetcher.ghbTable prefetcher.entered).generation = ((prefetcher.store delta).ghb nextIndex).generation

theorem advance_spec (prefetcher : GhbPrefetcher config) :
    prefetcher.advance.ghb = prefetcher.ghb ∧ prefetcher.advance.ghbTable = prefetcher.ghbTable ∧
    prefetcher.advance.tableHead = prefetcher.tableHead ∧
    prefetcher.advance.ghbHead = (if prefetcher.ghbHead + 1 = config.ghbSize then 0 else prefetcher.ghbHead + 1) ∧
    prefetcher.advance.generation =
      (if prefetcher.ghbHead + 1 = config.ghbSize then (prefetcher.generation + 1) % 4 else prefetcher.generation) := by
  rw [advance]
  split <;> exact ⟨rfl, rfl, rfl, rfl, rfl⟩

theorem add_spec (prefetcher : GhbPrefetcher config) (delta : UInt64) :
    ∃ nextIndex, Adds prefetcher (prefetcher.add delta) delta nextIndex := by
  have stored := prefetcher.store_head delta
  have prev := prefetcher.prevDelta_store delta
  have entered : (prefetcher.store delta).entered = prefetcher.entered := by
    rw [GhbPrefetcher.entered, prev]
    rfl
  obtain ⟨ghb, table, tableHead, head, generation⟩ := (prefetcher.store delta).enter.advance_spec
  obtain ⟨nextIndex, enters⟩ := enter_spec (congrArg GhbEntry.nextIndex stored)
  refine ⟨nextIndex, ?_, ?_, ?_, ?_, ?_, fun linked => ?_⟩
  · rw [add, ghb, enters.ghb]
    show Function.update (Function.update prefetcher.ghb prefetcher.ghbHead _) prefetcher.ghbHead
      { (prefetcher.store delta).ghb prefetcher.ghbHead with nextIndex } = _
    rw [Function.update_idem, stored]
  · rw [add, table, enters.table, prev, entered]
    rfl
  · rw [add, tableHead]
    exact enters.tableHead
  · rw [add, head, enters.head]
    rfl
  · rw [add, generation, enters.head, enters.generation]
    rfl
  · obtain ⟨valid, found, current, same⟩ := enters.link linked
    rw [prev] at valid found
    rw [entered] at current same
    exact ⟨valid, found, same, same.symm ▸ current⟩

theorem Adds.ghb_head {after : GhbPrefetcher config} {nextIndex : Nat} (adds : prefetcher.Adds after delta nextIndex) :
    after.ghb prefetcher.ghbHead = ⟨nextIndex, delta, prefetcher.generation⟩ := by
  rw [adds.ghb, Function.update_self]

theorem Adds.ghb_other {after : GhbPrefetcher config} {nextIndex index : Nat} (adds : prefetcher.Adds after delta nextIndex)
    (elsewhere : index ≠ prefetcher.ghbHead) : after.ghb index = prefetcher.ghb index := by
  rw [adds.ghb, Function.update_of_ne elsewhere]

end Add

end GhbPrefetcher

end Sniper.Ghb

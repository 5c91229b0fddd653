import Sniper.Library.Machine
import Sniper.Library.OrderedMap
import Mathlib.Algebra.Ring.Nat
import Mathlib.Logic.Function.Basic

/-! `MemoryTracker`: which allocation site owns an address.

The map of the ranges has the first address past a range as its key.  An `AllocationSite` is known by the call stack
it is created for.  Addresses are below `2 ^ 64`. -/

namespace Sniper.System.MemoryTracker

/-- `CallStack`, with the callers of the functions that have been entered. -/
abbrev CallStack := List Nat

/-- `AllocationSite`, without the accesses to its data. -/
structure AllocationSite where
  numAllocations : Nat
  totalSize : Nat

structure Allocation where
  size : Nat
  site : CallStack
deriving DecidableEq

structure State where
  allocations : OrderedMap Nat Allocation
  allocationSites : CallStack → Option AllocationSite

/-- A call of `logMalloc`, with the call stack of the thread. -/
structure Malloc where
  stack : CallStack
  address : Nat
  size : Nat
deriving DecidableEq

/-- `& ~63` -/
def lineOf (address : Nat) : Nat := address / 64 * 64

def Malloc.lower (call : Malloc) : Nat := lineOf call.address

/-- The first address of the first cache line that no longer belongs to the allocation. -/
def Malloc.upper (call : Malloc) : Nat := lineOf ((call.address + call.size + 63) % 2 ^ 64)

/-- `first - second.size` of an entry of the map. -/
def start (entry : Nat × Allocation) : Nat := (entry.1 + 2 ^ 64 - entry.2.size) % 2 ^ 64

/-- The part of a range past the new one, which starts inside it. -/
def keepUpper (upper : Nat) (previous : Nat × Allocation) (allocations : OrderedMap Nat Allocation) :
    OrderedMap Nat Allocation :=
  if previous.1 > upper then allocations.insert previous.1 ⟨previous.1 - upper, previous.2.site⟩
  else allocations.erase previous.1

/-- The part of a range before the new one, which starts inside it. -/
def keepLower (lower : Nat) (previous : Nat × Allocation) (allocations : OrderedMap Nat Allocation) :
    OrderedMap Nat Allocation :=
  if start previous < lower then allocations.insert lower ⟨lower - start previous, previous.2.site⟩ else allocations

/-- The range in which the new one starts is cut. -/
def cutPrevious (call : Malloc) (allocations : OrderedMap Nat Allocation) : OrderedMap Nat Allocation :=
  match allocations.upperBound call.lower with
  | none => allocations
  | some previous =>
    if call.lower ≥ start previous then
      keepUpper call.upper previous (keepLower call.lower previous allocations)
    else allocations

def logMalloc (state : State) (call : Malloc) : State :=
  let site := (state.allocationSites call.stack).getD ⟨0, 0⟩
  { allocations := (cutPrevious call state.allocations).insert call.upper ⟨call.upper - call.lower, call.stack⟩
    allocationSites := Function.update state.allocationSites call.stack
      (some ⟨site.numAllocations + 1, (site.totalSize + call.size) % 2 ^ 64⟩) }

/-- The site of the first range that ends past the address, if it starts before. -/
def findOwner (allocations : OrderedMap Nat Allocation) (address : Nat) : Option CallStack :=
  match allocations.upperBound address with
  | none => none
  | some upper => if address ≥ start upper then some upper.2.site else none

def ceGetOwner (state : State) (address : Nat) : Option CallStack := findOwner state.allocations address

/-! ## Runs -/

def Malloc.Valid (call : Malloc) : Prop := 0 < call.size ∧ call.address + call.size + 63 < 2 ^ 64

/-- The site of the last allocation with lines that contain the address, of the calls so far, the last one first. -/
def lastOwner : List Malloc → Nat → Option CallStack
  | [], _ => none
  | call :: before, address =>
    if call.lower ≤ address ∧ address < call.upper then some call.stack else lastOwner before address

def machine : Machine (State × List Malloc) Malloc Empty where
  initial system := system = (⟨.empty, fun _ => none⟩, [])
  step system call := .ok (logMalloc system.1 call, call :: system.2)

/-- No range that an earlier allocation has left lies inside the new one, apart from the one that is cut, and none ends
where the new one starts if another one still reaches over its end. -/
structure Fits (allocations : OrderedMap Nat Allocation) (call : Malloc) : Prop where
  inside : ∀ entry ∈ allocations, call.lower < entry.1 → entry.1 < call.upper →
    allocations.upperBound call.lower = some entry ∧ start entry ≤ call.lower
  before : ∀ previous, allocations.upperBound call.lower = some previous → start previous < call.lower →
    ∀ entry ∈ allocations, entry.1 ≠ call.lower

/-! ## The calls keep the owners -/

def Proper (allocations : OrderedMap Nat Allocation) : Prop :=
  ∀ entry ∈ allocations, entry.2.size ≤ entry.1 ∧ entry.1 < 2 ^ 64

variable {allocations : OrderedMap Nat Allocation} {call : Malloc} {address : Nat} {previous : Nat × Allocation}

theorem start_eq {entry : Nat × Allocation} (size : entry.2.size ≤ entry.1) (small : entry.1 < 2 ^ 64) :
    start entry = entry.1 - entry.2.size := by
  unfold start
  omega

theorem start_remainder {from_ upper : Nat} {site : CallStack} (order : from_ ≤ upper) (small : upper < 2 ^ 64) :
    start (upper, ⟨upper - from_, site⟩) = from_ := by
  rw [start_eq (Nat.sub_le _ _) small]
  dsimp only
  omega

theorem Malloc.Valid.lower_lt_upper (valid : call.Valid) : call.lower < call.upper ∧ call.upper < 2 ^ 64 := by
  obtain ⟨pos, fits⟩ := valid
  unfold Malloc.lower Malloc.upper lineOf
  omega

theorem findOwner_of_some {first : Nat} (found : allocations.upperBound address = some previous)
    (starts : start previous = first) :
    findOwner allocations address = if address ≥ first then some previous.2.site else none := by
  unfold findOwner
  rw [found, ← starts]

theorem findOwner_of_same {allocations' : OrderedMap Nat Allocation} {last size : Nat}
    (found' : allocations'.upperBound address = some (last, ⟨size, previous.2.site⟩))
    (found : allocations.upperBound address = some previous) (starts : start (last, ⟨size, previous.2.site⟩) = start previous) :
    findOwner allocations' address = findOwner allocations address := by
  rw [findOwner_of_some found' starts, findOwner_of_some found rfl]

theorem findOwner_congr {allocations' : OrderedMap Nat Allocation}
    (same : allocations'.upperBound address = allocations.upperBound address) :
    findOwner allocations' address = findOwner allocations address := by
  unfold findOwner
  rw [same]

theorem mem_keepLower {lower : Nat} {entry : Nat × Allocation} :
    entry ∈ keepLower lower previous allocations ↔
      start previous < lower ∧ entry = (lower, ⟨lower - start previous, previous.2.site⟩) ∨
        entry ∈ allocations ∧ (start previous < lower → entry.1 ≠ lower) := by
  unfold keepLower
  split
  case isTrue remains => simp [remains]
  case isFalse starts => simp [starts]

theorem mem_keepUpper {upper : Nat} {entry : Nat × Allocation} :
    entry ∈ keepUpper upper previous allocations ↔
      upper < previous.1 ∧ entry = (previous.1, ⟨previous.1 - upper, previous.2.site⟩) ∨
        entry ∈ allocations ∧ entry.1 ≠ previous.1 := by
  unfold keepUpper
  split
  case isTrue remains => simp [remains]
  case isFalse ends => simp [ends]

theorem mem_cutPrevious {entry : Nat × Allocation} (fits : Fits allocations call)
    (found : allocations.upperBound call.lower = some previous) (contains : start previous ≤ call.lower) :
    entry ∈ cutPrevious call allocations ↔
      call.upper < previous.1 ∧ entry = (previous.1, ⟨previous.1 - call.upper, previous.2.site⟩) ∨
        start previous < call.lower ∧ entry = (call.lower, ⟨call.lower - start previous, previous.2.site⟩) ∨
          entry ∈ allocations ∧ entry.1 ≠ previous.1 := by
  unfold cutPrevious
  rw [found]
  dsimp only
  rw [if_pos contains, mem_keepUpper, mem_keepLower]
  have lower := OrderedMap.upperBound_lt found
  have nothing (remains : start previous < call.lower) (member : entry ∈ allocations) : entry.1 ≠ call.lower :=
    fits.before previous found remains entry member
  constructor
  · intro member
    obtain right | ⟨⟨remains, rfl⟩ | ⟨held, -⟩, other⟩ := member
    · exact .inl right
    · exact .inr (.inl ⟨remains, rfl⟩)
    · exact .inr (.inr ⟨held, other⟩)
  · intro member
    obtain right | ⟨remains, rfl⟩ | ⟨held, other⟩ := member
    · exact .inl right
    · exact .inr ⟨.inl ⟨remains, rfl⟩, Nat.ne_of_lt lower⟩
    · exact .inr ⟨.inr ⟨held, fun remains => nothing remains held⟩, other⟩

theorem cutPrevious_of_apart (apart : ∀ previous, allocations.upperBound call.lower = some previous → call.lower < start previous) :
    cutPrevious call allocations = allocations := by
  unfold cutPrevious
  cases found : allocations.upperBound call.lower with
  | none => rfl
  | some previous => exact if_neg (Nat.not_le.mpr (apart previous found))

theorem cut_cases (call : Malloc) (allocations : OrderedMap Nat Allocation) :
    (∀ previous, allocations.upperBound call.lower = some previous → call.lower < start previous) ∨
      ∃ previous, allocations.upperBound call.lower = some previous ∧ start previous ≤ call.lower := by
  by_cases contains : ∃ previous, allocations.upperBound call.lower = some previous ∧ start previous ≤ call.lower
  · exact .inr contains
  · refine .inl fun previous found => Nat.lt_of_not_le fun starts => ?_
    exact contains ⟨previous, found, starts⟩

theorem cutPrevious_inside (fits : Fits allocations call) {entry : Nat × Allocation}
    (member : entry ∈ cutPrevious call allocations) (above : call.lower < entry.1) : call.upper ≤ entry.1 := by
  apply Nat.le_of_not_lt
  intro below
  obtain apart | ⟨previous, found, contains⟩ := cut_cases call allocations
  · rw [cutPrevious_of_apart apart] at member
    obtain ⟨found, contains⟩ := fits.inside entry member above below
    exact absurd (apart entry found) (Nat.not_lt.mpr contains)
  · obtain ⟨beyond, rfl⟩ | ⟨-, rfl⟩ | ⟨held, other⟩ := (mem_cutPrevious fits found contains).mp member
    · exact absurd below (Nat.lt_asymm beyond)
    · exact absurd above (Nat.lt_irrefl _)
    · have same := (fits.inside entry held above below).1
      rw [found] at same
      cases same
      exact other rfl

def added (call : Malloc) (allocations : OrderedMap Nat Allocation) : OrderedMap Nat Allocation :=
  (cutPrevious call allocations).insert call.upper ⟨call.upper - call.lower, call.stack⟩

theorem findOwner_inside (fits : Fits allocations call) (valid : call.Valid) (above : call.lower ≤ address)
    (below : address < call.upper) : findOwner (added call allocations) address = some call.stack := by
  have order := valid.lower_lt_upper
  have found : (added call allocations).upperBound address = some (call.upper, ⟨call.upper - call.lower, call.stack⟩) := by
    apply OrderedMap.upperBound_eq_some
    · exact OrderedMap.mem_insert.mpr (.inl rfl)
    · exact below
    · intro entry member greater
      obtain rfl | ⟨held, -⟩ := OrderedMap.mem_insert.mp member
      · exact Nat.le_refl _
      · exact cutPrevious_inside fits held (by omega)
  rw [findOwner_of_some found (start_remainder (Nat.le_of_lt order.1) order.2), if_pos above]

theorem findOwner_past (fits : Fits allocations call) (proper : Proper allocations) (past : call.upper ≤ address) (valid : call.Valid) :
    findOwner (added call allocations) address = findOwner allocations address := by
  have order := valid.lower_lt_upper
  have cut : findOwner (added call allocations) address = findOwner (cutPrevious call allocations) address := by
    apply findOwner_congr
    apply OrderedMap.upperBound_congr
    intro entry greater
    have other : entry.1 ≠ call.upper := by omega
    rw [added, OrderedMap.mem_insert]
    constructor
    · intro member
      obtain rfl | ⟨held, -⟩ := member
      · exact absurd rfl other
      · exact held
    · exact fun held => .inr ⟨held, other⟩
  rw [cut]
  obtain apart | ⟨previous, found, contains⟩ := cut_cases call allocations
  · rw [cutPrevious_of_apart apart]
  · have lower := OrderedMap.upperBound_lt found
    by_cases beyond : address < previous.1
    · have right : (cutPrevious call allocations).upperBound address =
          some (previous.1, ⟨previous.1 - call.upper, previous.2.site⟩) := by
        apply OrderedMap.upperBound_eq_some
        · exact (mem_cutPrevious fits found contains).mpr (.inl ⟨by omega, rfl⟩)
        · exact beyond
        · intro entry member greater
          obtain ⟨-, rfl⟩ | ⟨-, rfl⟩ | ⟨held, -⟩ := (mem_cutPrevious fits found contains).mp member
          · exact Nat.le_refl _
          · dsimp only at greater
            omega
          · have least := OrderedMap.upperBound_least found held (by omega)
            exact least
      have before : allocations.upperBound address = some previous := by
        apply OrderedMap.upperBound_eq_some (OrderedMap.upperBound_mem found) beyond
        intro entry member greater
        exact OrderedMap.upperBound_least found member (by omega)
      have small := (proper previous (OrderedMap.upperBound_mem found)).2
      rw [findOwner_of_some right (start_remainder (by omega) small), findOwner_of_some before rfl, if_pos past,
        if_pos (by omega)]
    · apply findOwner_congr
      apply OrderedMap.upperBound_congr
      intro entry greater
      have other : entry.1 ≠ previous.1 := by omega
      rw [mem_cutPrevious fits found contains]
      constructor
      · intro member
        obtain ⟨-, rfl⟩ | ⟨-, rfl⟩ | ⟨held, -⟩ := member
        · exact absurd rfl other
        · dsimp only at greater
          omega
        · exact held
      · exact fun held => .inr (.inr ⟨held, other⟩)

theorem under_cases (call : Malloc) (allocations : OrderedMap Nat Allocation) (address : Nat) :
    (∃ entry, allocations.upperBound address = some entry ∧ entry.1 ≤ call.lower) ∨
      ∀ entry ∈ allocations, address < entry.1 → call.lower < entry.1 := by
  by_cases early : ∃ entry, allocations.upperBound address = some entry ∧ entry.1 ≤ call.lower
  · exact .inl early
  · refine .inr fun entry member greater => Nat.lt_of_not_le fun ends => ?_
    cases found : allocations.upperBound address with
    | none =>
      have nothing := List.find?_eq_none.mp found entry member
      exact absurd greater (by simpa using nothing)
    | some first =>
      exact early ⟨first, found, Nat.le_trans (OrderedMap.upperBound_least found member greater) ends⟩

theorem findOwner_added_none (fits : Fits allocations call) (valid : call.Valid) (under : address < call.lower)
    (nothing : ∀ entry ∈ cutPrevious call allocations, address < entry.1 → call.lower < entry.1) :
    findOwner (added call allocations) address = none := by
  have order := valid.lower_lt_upper
  have found : (added call allocations).upperBound address = some (call.upper, ⟨call.upper - call.lower, call.stack⟩) := by
    apply OrderedMap.upperBound_eq_some
    · exact OrderedMap.mem_insert.mpr (.inl rfl)
    · exact Nat.lt_trans under order.1
    · intro entry member greater
      obtain rfl | ⟨held, -⟩ := OrderedMap.mem_insert.mp member
      · exact Nat.le_refl _
      · exact cutPrevious_inside fits held (nothing entry held greater)
  rw [findOwner_of_some found (start_remainder (Nat.le_of_lt order.1) order.2), if_neg (Nat.not_le.mpr under)]

theorem added_upperBound (valid : call.Valid) {entry : Nat × Allocation} (greater : address < entry.1) (ends : entry.1 ≤ call.lower)
    (member : entry ∈ cutPrevious call allocations)
    (least : ∀ other ∈ cutPrevious call allocations, address < other.1 → entry.1 ≤ other.1) :
    (added call allocations).upperBound address = some entry := by
  have order := valid.lower_lt_upper
  apply OrderedMap.upperBound_eq_some
  · exact OrderedMap.mem_insert.mpr (.inr ⟨member, by omega⟩)
  · exact greater
  · intro other held past
    obtain rfl | ⟨kept, -⟩ := OrderedMap.mem_insert.mp held
    · exact Nat.le_of_lt (Nat.lt_of_le_of_lt ends order.1)
    · exact least other kept past

theorem findOwner_under_apart (fits : Fits allocations call) (valid : call.Valid) (under : address < call.lower)
    (apart : ∀ previous, allocations.upperBound call.lower = some previous → call.lower < start previous) :
    findOwner (added call allocations) address = findOwner allocations address := by
  have same := cutPrevious_of_apart apart
  obtain ⟨entry, first, ends⟩ | nothing := under_cases call allocations address
  · have member : entry ∈ cutPrevious call allocations := by
      rw [same]
      exact OrderedMap.upperBound_mem first
    apply findOwner_congr
    rw [added_upperBound valid (OrderedMap.upperBound_lt first) ends member ?_, first]
    rw [same]
    exact fun other held greater => OrderedMap.upperBound_least first held greater
  · rw [findOwner_added_none fits valid under (by rw [same]; exact nothing)]
    cases first : allocations.upperBound address with
    | none => simp [findOwner, first]
    | some entry =>
      have above := nothing entry (OrderedMap.upperBound_mem first) (OrderedMap.upperBound_lt first)
      have found : allocations.upperBound call.lower = some entry := by
        apply OrderedMap.upperBound_eq_some (OrderedMap.upperBound_mem first) above
        intro other held greater
        exact OrderedMap.upperBound_least first held (by omega)
      have starts := Nat.lt_trans under (apart entry found)
      rw [findOwner_of_some first rfl, if_neg (Nat.not_le.mpr starts)]

theorem findOwner_under_cut (fits : Fits allocations call) (valid : call.Valid) (under : address < call.lower)
    (found : allocations.upperBound call.lower = some previous) (contains : start previous ≤ call.lower) :
    findOwner (added call allocations) address = findOwner allocations address := by
  have lower := OrderedMap.upperBound_lt found
  obtain ⟨entry, first, ends⟩ | nothing := under_cases call allocations address
  · have member := OrderedMap.upperBound_mem first
    have other : entry.1 ≠ previous.1 := by omega
    have kept : entry ∈ cutPrevious call allocations := (mem_cutPrevious fits found contains).mpr (.inr (.inr ⟨member, other⟩))
    apply findOwner_congr
    rw [added_upperBound valid (OrderedMap.upperBound_lt first) ends kept ?_, first]
    intro other held greater
    obtain ⟨-, rfl⟩ | ⟨-, rfl⟩ | ⟨held, -⟩ := (mem_cutPrevious fits found contains).mp held
    · exact Nat.le_of_lt (Nat.lt_of_le_of_lt ends lower)
    · exact ends
    · exact OrderedMap.upperBound_least first held greater
  · have first : allocations.upperBound address = some previous := by
      apply OrderedMap.upperBound_eq_some (OrderedMap.upperBound_mem found) (Nat.lt_trans under lower)
      intro entry member greater
      exact OrderedMap.upperBound_least found member (nothing entry member greater)
    by_cases remains : start previous < call.lower
    · have left : (call.lower, ⟨call.lower - start previous, previous.2.site⟩) ∈ cutPrevious call allocations :=
        (mem_cutPrevious fits found contains).mpr (.inr (.inl ⟨remains, rfl⟩))
      have order := valid.lower_lt_upper
      have stays : (added call allocations).upperBound address =
          some (call.lower, ⟨call.lower - start previous, previous.2.site⟩) := by
        apply added_upperBound valid under (Nat.le_refl _) left
        intro other held greater
        obtain ⟨-, rfl⟩ | ⟨-, rfl⟩ | ⟨held, -⟩ := (mem_cutPrevious fits found contains).mp held
        · exact Nat.le_of_lt lower
        · exact Nat.le_refl _
        · exact Nat.le_of_lt (nothing other held greater)
      have starts : start (call.lower, ⟨call.lower - start previous, previous.2.site⟩) = start previous :=
        start_remainder contains (Nat.lt_trans order.1 order.2)
      exact findOwner_of_same stays first starts
    · have starts : start previous = call.lower := Nat.le_antisymm contains (Nat.le_of_not_lt remains)
      rw [findOwner_of_some first starts, if_neg (Nat.not_le.mpr under)]
      apply findOwner_added_none fits valid under
      intro other held greater
      obtain ⟨-, rfl⟩ | ⟨less, -⟩ | ⟨held, -⟩ := (mem_cutPrevious fits found contains).mp held
      · exact lower
      · exact absurd less remains
      · exact nothing other held greater

theorem findOwner_under (fits : Fits allocations call) (valid : call.Valid) (under : address < call.lower) :
    findOwner (added call allocations) address = findOwner allocations address := by
  obtain apart | ⟨previous, found, contains⟩ := cut_cases call allocations
  · exact findOwner_under_apart fits valid under apart
  · exact findOwner_under_cut fits valid under found contains

theorem added_proper (fits : Fits allocations call) (proper : Proper allocations) (valid : call.Valid) :
    Proper (added call allocations) := by
  have order := valid.lower_lt_upper
  have cut : Proper (cutPrevious call allocations) := by
    obtain apart | ⟨previous, found, contains⟩ := cut_cases call allocations
    · rw [cutPrevious_of_apart apart]
      exact proper
    · have small := proper previous (OrderedMap.upperBound_mem found)
      intro entry member
      obtain ⟨-, rfl⟩ | ⟨-, rfl⟩ | ⟨held, -⟩ := (mem_cutPrevious fits found contains).mp member
      · exact ⟨Nat.sub_le _ _, small.2⟩
      · exact ⟨Nat.sub_le _ _, by dsimp only; omega⟩
      · exact proper entry held
  intro entry member
  obtain rfl | ⟨held, -⟩ := OrderedMap.mem_insert.mp member
  · exact ⟨Nat.sub_le _ _, order.2⟩
  · exact cut entry held

theorem ceGetOwner_logMalloc {state : State} (fits : Fits state.allocations call) (proper : Proper state.allocations)
    (valid : call.Valid) :
    ceGetOwner (logMalloc state call) address =
      if call.lower ≤ address ∧ address < call.upper then some call.stack else ceGetOwner state address := by
  change findOwner (added call state.allocations) address = _
  by_cases inside : call.lower ≤ address ∧ address < call.upper
  · rw [if_pos inside]
    exact findOwner_inside fits valid inside.1 inside.2
  · rw [if_neg inside]
    by_cases under : address < call.lower
    · exact findOwner_under fits valid under
    · exact findOwner_past fits proper (by omega) valid

/-- In runs of calls that fit, each address has the owner of the last allocation that contains it. -/
theorem owner_is_last {state : State} {calls : List Malloc}
    (reached : machine.Reach (fun system call => call.Valid ∧ Fits system.1.allocations call) (state, calls)) (address : Nat) :
    ceGetOwner state address = lastOwner calls address := by
  have holds : Proper state.allocations ∧ ∀ address, ceGetOwner state address = lastOwner calls address := by
    refine reached.invariant (fun system => Proper system.1.allocations ∧
      ∀ address, ceGetOwner system.1 address = lastOwner system.2 address) ?_ ?_
    · intro system starts
      rw [show system = _ from starts]
      exact ⟨fun entry member => absurd member OrderedMap.not_mem_empty, fun address => rfl⟩
    · intro system call next holds allowed stepped
      obtain ⟨proper, owners⟩ := holds
      obtain ⟨valid, fits⟩ := allowed
      cases stepped
      refine ⟨added_proper fits proper valid, fun address => ?_⟩
      rw [ceGetOwner_logMalloc fits proper valid, lastOwner, owners]
  exact holds.2 address

/-- A new range inside an earlier one. -/
theorem owner_is_last_inside :
    ceGetOwner (logMalloc (logMalloc ⟨.empty, fun _ => none⟩ ⟨[1], 0, 192⟩) ⟨[2], 64, 64⟩) 128 =
      lastOwner [⟨[2], 64, 64⟩, ⟨[1], 0, 192⟩] 128 := by
  refine owner_is_last (.step ⟨[2], 64, 64⟩ (.step ⟨[1], 0, 192⟩ (.initial rfl) ⟨?_, ?_⟩ rfl) ⟨?_, ?_⟩ rfl) 128
  · exact ⟨by decide, by decide⟩
  · constructor
    · exact fun entry member => absurd member OrderedMap.not_mem_empty
    · exact fun previous _ _ entry member => absurd member OrderedMap.not_mem_empty
  · exact ⟨by decide, by decide⟩
  · have ranges entry (member : entry ∈ added ⟨[1], 0, 192⟩ .empty) : entry = (192, ⟨192, [1]⟩) :=
      List.mem_singleton.mp member
    constructor
    · intro entry member _ below
      cases ranges entry member
      exact absurd below (by decide)
    · intro previous _ _ entry member
      cases ranges entry member
      decide

/-- A range in the middle of a new one hides its start. -/
theorem owner_lost_around :
    ¬ ∀ state calls, machine.Reach (fun _ call => call.Valid) (state, calls) →
      ∀ address, ceGetOwner state address = lastOwner calls address := by
  intro right
  have first : (⟨[1], 64, 64⟩ : Malloc).Valid := ⟨by decide, by decide⟩
  have second : (⟨[2], 0, 192⟩ : Malloc).Valid := ⟨by decide, by decide⟩
  have owner := right _ _ (.step ⟨[2], 0, 192⟩ (.step ⟨[1], 64, 64⟩ (.initial rfl) first rfl) second rfl) 0
  have none_ : ceGetOwner (logMalloc (logMalloc ⟨.empty, fun _ => none⟩ ⟨[1], 64, 64⟩) ⟨[2], 0, 192⟩) 0 = none := by decide
  rw [none_] at owner
  exact absurd owner (by decide)

end Sniper.System.MemoryTracker

import Sniper.Library.Laps
import Sniper.Performance.CriticalPath

/-! The circular array of `Windows`: the old window, and behind it the window.

Positions, lengths and sequence numbers do not overflow.  Of a micro-operation only the sequence number plays a part. -/

namespace Sniper.Performance.IntervalTimer

namespace DoubleWindow

structure Entry (α : Type) where
  sequenceNumber : Nat
  microOp : α
deriving DecidableEq, Repr

inductive Fault where
  /-- "Window is full" -/
  | windowFull
  /-- "Index is out of bounds" -/
  | outOfBounds
  /-- The entry has not had a micro-operation. -/
  | noMicroOp
  /-- "Getting an instruction that is not in the window" -/
  | notInWindow
  | outOfFuel
deriving DecidableEq, Repr

end DoubleWindow

open DoubleWindow

structure DoubleWindow (α : Type) where
  windowSize : Nat
  doubleWindow : Nat → Option (Entry α)
  nextSequenceNumber : Nat
  windowHeadOldWindowTail : Nat
  windowTail : Nat
  oldWindowHead : Nat
  windowLength : Nat
  oldWindowLength : Nat

namespace DoubleWindow

variable {α : Type}

/-- The constructor, with `clear`. -/
def create (windowSize : Nat) : DoubleWindow α := ⟨windowSize, fun _ => none, 0, 0, 0, 0, 0, 0⟩

def doubleWindowSize (ring : DoubleWindow α) : Nat := 2 * ring.windowSize

def wIsFull (ring : DoubleWindow α) : Bool := ring.windowLength = ring.windowSize

def wIsEmpty (ring : DoubleWindow α) : Bool := ring.windowLength = 0

def incrementIndex (ring : DoubleWindow α) (index : Nat) : Nat := (index + 1) % ring.doubleWindowSize

def windowIndex (ring : DoubleWindow α) (index : Int) : Int :=
  (index.tmod ring.doubleWindowSize + ring.doubleWindowSize).tmod ring.doubleWindowSize

def getInstructionByIndex (ring : DoubleWindow α) (index : Int) : Except Fault (Entry α) :=
  if 0 ≤ index ∧ index < ring.doubleWindowSize then
    match ring.doubleWindow index.toNat with
    | none => .error .noMicroOp
    | some entry => .ok entry
  else .error .outOfBounds

/-- Also the lowest sequence number that the micro-operation may depend on. -/
def add (ring : DoubleWindow α) (microOp : α) : Except Fault (DoubleWindow α × Nat) := do
  if ring.wIsFull then throw .windowFull
  let ring := { ring with
    doubleWindow := Function.update ring.doubleWindow ring.windowTail (some ⟨ring.nextSequenceNumber, microOp⟩)
    windowTail := ring.incrementIndex ring.windowTail
    windowLength := ring.windowLength + 1
    nextSequenceNumber := ring.nextSequenceNumber + 1 }
  let oldest ← ring.getInstructionByIndex ring.oldWindowHead
  return (ring, oldest.sequenceNumber)

/-- A micro-operation has its index for good, so that of the window's head is where the head is. -/
def getInstruction (ring : DoubleWindow α) (sequenceNumber : Nat) : Except Fault (Entry α) := do
  let windowHead ← ring.getInstructionByIndex ring.windowHeadOldWindowTail
  -- the difference of 64-bit numbers, as an int
  let distance := toInt (((windowHead.sequenceNumber : Int) - sequenceNumber) % 2 ^ 64).toNat
  let ret ← ring.getInstructionByIndex (ring.windowIndex (ring.windowHeadOldWindowTail - distance))
  if ret.sequenceNumber = sequenceNumber then return ret
  throw .notInWindow

def dispatchInstruction (ring : DoubleWindow α) : DoubleWindow α :=
  let ring := if ring.oldWindowLength = ring.windowSize then
      { ring with oldWindowHead := ring.incrementIndex ring.oldWindowHead, oldWindowLength := ring.oldWindowLength - 1 }
    else ring
  { ring with
    windowHeadOldWindowTail := ring.incrementIndex ring.windowHeadOldWindowTail
    windowLength := ring.windowLength - 1
    oldWindowLength := ring.oldWindowLength + 1 }

def clearOldWindow (ring : DoubleWindow α) : DoubleWindow α :=
  { ring with oldWindowLength := 0, oldWindowHead := ring.windowHeadOldWindowTail }

/-- What an iterator visits until it is at its stop. -/
def visited (ring : DoubleWindow α) (stop : Nat) : Nat → Nat → Except Fault (List (Entry α))
  | 0, _ => .error .outOfFuel
  | fuel + 1, index => do
      if index = stop then return []
      let entry ← ring.getInstructionByIndex index
      return entry :: (← ring.visited stop fuel (ring.incrementIndex index))

def getWindowIterator (ring : DoubleWindow α) (fuel : Nat) : Except Fault (List (Entry α)) :=
  ring.visited ring.windowTail fuel ring.windowHeadOldWindowTail

def getOldWindowIterator (ring : DoubleWindow α) (fuel : Nat) : Except Fault (List (Entry α)) :=
  ring.visited ring.windowHeadOldWindowTail fuel ring.oldWindowHead

end DoubleWindow

/-! ### Two queues -/

/-- The micro-operations that are in the old window and in the window, the oldest first. -/
structure TwoWindows (α : Type) where
  oldWindow : List (Entry α)
  window : List (Entry α)
  added : Nat

namespace TwoWindows

variable {α : Type}

def empty : TwoWindows α := ⟨[], [], 0⟩

def live (windows : TwoWindows α) : List (Entry α) := windows.oldWindow ++ windows.window

def add (windows : TwoWindows α) (microOp : α) : TwoWindows α :=
  { windows with window := windows.window ++ [⟨windows.added, microOp⟩], added := windows.added + 1 }

/-- The old window keeps the last ones that were dispatched. -/
def dispatch (windowSize : Nat) (windows : TwoWindows α) : TwoWindows α :=
  { windows with
    oldWindow := (if windows.oldWindow.length = windowSize then windows.oldWindow.tail else windows.oldWindow) ++ windows.window.take 1
    window := windows.window.drop 1 }

def clearOld (windows : TwoWindows α) : TwoWindows α := { windows with oldWindow := [] }

end TwoWindows

namespace DoubleWindow

variable {α : Type} {ring : DoubleWindow α} {windows : TwoWindows α} {windowSize : Nat}

/-- The runs in which no micro-operation is dispatched from an empty window, and what is in the windows by their ends. -/
inductive Runs (windowSize : Nat) : DoubleWindow α → TwoWindows α → Prop where
  | create : Runs windowSize (.create windowSize) .empty
  | add (ring next : DoubleWindow α) (windows : TwoWindows α) (microOp : α) (lowest : Nat) : Runs windowSize ring windows →
      ring.add microOp = .ok (next, lowest) → Runs windowSize next (windows.add microOp)
  | dispatch (ring : DoubleWindow α) (windows : TwoWindows α) : Runs windowSize ring windows → ring.wIsEmpty = false →
      Runs windowSize ring.dispatchInstruction (windows.dispatch windowSize)
  | clear (ring : DoubleWindow α) (windows : TwoWindows α) : Runs windowSize ring windows →
      Runs windowSize ring.clearOldWindow windows.clearOld

/-- The micro-operations in the windows are the last ones that were added, each at the place of its number. -/
structure Stores (windowSize : Nat) (ring : DoubleWindow α) (windows : TwoWindows α) : Prop where
  size : ring.windowSize = windowSize
  added : ring.nextSequenceNumber = windows.added
  windowLength : ring.windowLength = windows.window.length
  oldWindowLength : ring.oldWindowLength = windows.oldWindow.length
  oldWindow : windows.oldWindow.length ≤ windowSize
  window : windows.window.length ≤ windowSize
  enough : windows.live.length ≤ windows.added
  numbered : ∀ (index : Nat) (entry : Entry α), windows.live[index]? = some entry →
    entry.sequenceNumber + windows.live.length = windows.added + index
  tail : ring.windowTail = windows.added % (2 * windowSize)
  head : ring.windowHeadOldWindowTail = (windows.added - windows.window.length) % (2 * windowSize)
  oldHead : ring.oldWindowHead = (windows.added - windows.live.length) % (2 * windowSize)
  held : ∀ entry ∈ windows.live, ring.doubleWindow (entry.sequenceNumber % (2 * windowSize)) = some entry

theorem stores_create (windowSize : Nat) : Stores windowSize (.create windowSize) (.empty : TwoWindows α) where
  size := rfl
  added := rfl
  windowLength := rfl
  oldWindowLength := rfl
  oldWindow := Nat.zero_le _
  window := Nat.zero_le _
  enough := Nat.le_refl _
  numbered := fun _ _ there => by cases there
  tail := (Nat.zero_mod _).symm
  head := (Nat.zero_mod _).symm
  oldHead := (Nat.zero_mod _).symm
  held := fun _ member => absurd member List.not_mem_nil

namespace Stores

theorem length_live (windows : TwoWindows α) : windows.live.length = windows.oldWindow.length + windows.window.length :=
  List.length_append

theorem number (stores : Stores windowSize ring windows) {entry : Entry α} (member : entry ∈ windows.live) :
    entry.sequenceNumber < windows.added ∧ windows.added ≤ entry.sequenceNumber + windows.live.length := by
  obtain ⟨index, there⟩ := List.getElem?_of_mem member
  have inside := (List.getElem?_eq_some_iff.mp there).1
  have number := stores.numbered index entry there
  omega

theorem getInstructionByIndex (stores : Stores windowSize ring windows) {entry : Entry α} (member : entry ∈ windows.live) :
    ring.getInstructionByIndex ((entry.sequenceNumber % (2 * windowSize) : Nat) : Int) = .ok entry := by
  have some_ : 0 < 2 * windowSize := by
    have inside := List.length_pos_of_mem member
    have oldWindow := stores.oldWindow
    have window := stores.window
    rw [length_live] at inside
    omega
  have below := Nat.mod_lt entry.sequenceNumber some_
  have bounds : (0 : Int) ≤ (entry.sequenceNumber % (2 * windowSize) : Nat) ∧
      ((entry.sequenceNumber % (2 * windowSize) : Nat) : Int) < ring.doubleWindowSize := by
    rw [doubleWindowSize, stores.size]
    omega
  rw [DoubleWindow.getInstructionByIndex, if_pos bounds, Int.toNat_natCast, stores.held entry member]

theorem live_add (windows : TwoWindows α) (microOp : α) :
    (windows.add microOp).live = windows.live ++ [⟨windows.added, microOp⟩] := by
  rw [TwoWindows.live, TwoWindows.live, TwoWindows.add, List.append_assoc]

theorem add (stores : Stores windowSize ring windows) (room : windows.window.length < windowSize) (microOp : α) :
    Stores windowSize { ring with
      doubleWindow := Function.update ring.doubleWindow ring.windowTail (some ⟨ring.nextSequenceNumber, microOp⟩)
      windowTail := ring.incrementIndex ring.windowTail
      windowLength := ring.windowLength + 1
      nextSequenceNumber := ring.nextSequenceNumber + 1 } (windows.add microOp) := by
  have oldWindow := stores.oldWindow
  have enough := stores.enough
  have length := length_live windows
  have live := live_add windows microOp
  have liveLength : (windows.add microOp).live.length = windows.live.length + 1 := by simp [live]
  have windowLength : (windows.add microOp).window.length = windows.window.length + 1 := by simp [TwoWindows.add]
  constructor
  case size => exact stores.size
  case added => exact congrArg (· + 1) stores.added
  case windowLength =>
    rw [windowLength]
    exact congrArg (· + 1) stores.windowLength
  case oldWindowLength => exact stores.oldWindowLength
  case oldWindow => exact oldWindow
  case window =>
    rw [windowLength]
    exact room
  case enough =>
    rw [liveLength]
    exact Nat.succ_le_succ enough
  case numbered =>
    intro index entry there
    rw [liveLength]
    change _ = windows.added + 1 + index
    rw [live, List.getElem?_append] at there
    split at there
    case isTrue earlier =>
      have number := stores.numbered index entry there
      omega
    case isFalse later =>
      rw [List.getElem?_singleton] at there
      split at there
      case isFalse => cases there
      case isTrue last =>
        cases there
        dsimp only
        omega
  case tail =>
    change ring.incrementIndex ring.windowTail = (windows.added + 1) % (2 * windowSize)
    rw [incrementIndex, doubleWindowSize, stores.size, stores.tail, Nat.mod_add_mod]
  case head =>
    rw [windowLength]
    change ring.windowHeadOldWindowTail = (windows.added + 1 - (windows.window.length + 1)) % (2 * windowSize)
    rw [Nat.add_sub_add_right, stores.head]
  case oldHead =>
    rw [liveLength]
    change ring.oldWindowHead = (windows.added + 1 - (windows.live.length + 1)) % (2 * windowSize)
    rw [Nat.add_sub_add_right, stores.oldHead]
  case held =>
    intro entry member
    rw [live] at member
    dsimp only
    rw [stores.tail, stores.added]
    cases List.mem_append.mp member with
    | inl earlier =>
      obtain ⟨before, after⟩ := stores.number earlier
      have elsewhere : entry.sequenceNumber % (2 * windowSize) ≠ windows.added % (2 * windowSize) :=
        fun same => Holds.not_between same before (by omega)
      rw [Function.update_of_ne elsewhere]
      exact stores.held entry earlier
    | inr last =>
      cases List.mem_singleton.mp last
      exact Function.update_self ..

theorem add_eq (stores : Stores windowSize ring windows) (room : windows.window.length < windowSize) (microOp : α) :
    ring.add microOp = .ok ({ ring with
      doubleWindow := Function.update ring.doubleWindow ring.windowTail (some ⟨ring.nextSequenceNumber, microOp⟩)
      windowTail := ring.incrementIndex ring.windowTail
      windowLength := ring.windowLength + 1
      nextSequenceNumber := ring.nextSequenceNumber + 1 }, windows.added - windows.live.length) := by
  have notFull : ring.wIsFull = false := by
    rw [wIsFull, stores.windowLength, stores.size]
    exact decide_eq_false (Nat.ne_of_lt room)
  have next := stores.add room microOp
  have some_ : 0 < (windows.add microOp).live.length := by simp [live_add]
  have length : (windows.add microOp).live.length = windows.live.length + 1 := by simp [live_add]
  have there := List.getElem?_eq_getElem some_
  have oldest := next.getInstructionByIndex (List.mem_of_getElem? there)
  have number := next.numbered 0 _ there
  have added : (windows.add microOp).added = windows.added + 1 := rfl
  have first : ((windows.add microOp).live[0]).sequenceNumber = windows.added - windows.live.length := by omega
  rw [first, ← stores.oldHead] at oldest
  rw [DoubleWindow.add, notFull]
  simp only [Bool.false_eq_true, if_false, bind, Except.bind, pure, Except.pure]
  rw [oldest]
  simp only [first]

theorem leave (stores : Stores windowSize ring windows) (some_ : windows.oldWindow ≠ []) :
    Stores windowSize { ring with oldWindowHead := ring.incrementIndex ring.oldWindowHead, oldWindowLength := ring.oldWindowLength - 1 }
      { windows with oldWindow := windows.oldWindow.tail } := by
  obtain ⟨oldest, rest, isOld⟩ := List.exists_cons_of_ne_nil some_
  have enough := stores.enough
  have oldWindow := stores.oldWindow
  have live : windows.live = oldest :: (rest ++ windows.window) := by rw [TwoWindows.live, isOld, List.cons_append]
  have live' : ({ windows with oldWindow := windows.oldWindow.tail } : TwoWindows α).live = rest ++ windows.window := by
    rw [TwoWindows.live, isOld, List.tail_cons]
  have length : windows.live.length = (rest ++ windows.window).length + 1 := by rw [live, List.length_cons]
  constructor
  case size => exact stores.size
  case added => exact stores.added
  case windowLength => exact stores.windowLength
  case oldWindowLength =>
    rw [isOld, List.tail_cons]
    change ring.oldWindowLength - 1 = rest.length
    rw [stores.oldWindowLength, isOld, List.length_cons, Nat.add_sub_cancel]
  case oldWindow =>
    rw [isOld, List.length_cons] at oldWindow
    rw [isOld, List.tail_cons]
    exact Nat.le_of_succ_le oldWindow
  case window => exact stores.window
  case enough =>
    rw [live']
    dsimp only
    omega
  case numbered =>
    intro index entry there
    rw [live'] at there ⊢
    have number := stores.numbered (index + 1) entry (by rw [live, List.getElem?_cons_succ, there])
    dsimp only
    omega
  case tail => exact stores.tail
  case head => exact stores.head
  case oldHead =>
    rw [live']
    change ring.incrementIndex ring.oldWindowHead = (windows.added - (rest ++ windows.window).length) % (2 * windowSize)
    rw [incrementIndex, doubleWindowSize, stores.size, stores.oldHead, Nat.mod_add_mod]
    congr 1
    omega
  case held =>
    rw [live']
    exact fun entry member => stores.held entry (live ▸ List.mem_cons_of_mem _ member)

theorem move (stores : Stores windowSize ring windows) (some_ : windows.window ≠ []) (room : windows.oldWindow.length < windowSize) :
    Stores windowSize { ring with
      windowHeadOldWindowTail := ring.incrementIndex ring.windowHeadOldWindowTail
      windowLength := ring.windowLength - 1
      oldWindowLength := ring.oldWindowLength + 1 }
      { windows with oldWindow := windows.oldWindow ++ windows.window.take 1, window := windows.window.drop 1 } := by
  obtain ⟨first, rest, isWindow⟩ := List.exists_cons_of_ne_nil some_
  have enough := stores.enough
  have window := stores.window
  have length := length_live windows
  have live : ({ windows with oldWindow := windows.oldWindow ++ windows.window.take 1, window := windows.window.drop 1 } :
      TwoWindows α).live = windows.live := by
    rw [TwoWindows.live, TwoWindows.live, List.append_assoc, List.take_append_drop]
  have fewer : (windows.window.drop 1).length + 1 = windows.window.length := by rw [isWindow, List.drop_one, List.tail_cons, List.length_cons]
  have more : (windows.oldWindow ++ windows.window.take 1).length = windows.oldWindow.length + 1 := by simp [isWindow]
  constructor
  case size => exact stores.size
  case added => exact stores.added
  case windowLength =>
    have windowLength := stores.windowLength
    dsimp only
    omega
  case oldWindowLength =>
    rw [more]
    exact congrArg (· + 1) stores.oldWindowLength
  case oldWindow =>
    rw [more]
    exact room
  case window =>
    dsimp only
    omega
  case enough =>
    rw [live]
    exact enough
  case numbered =>
    rw [live]
    exact stores.numbered
  case tail => exact stores.tail
  case head =>
    dsimp only
    rw [incrementIndex, doubleWindowSize, stores.size, stores.head, Nat.mod_add_mod]
    congr 1
    omega
  case oldHead =>
    rw [live]
    exact stores.oldHead
  case held =>
    rw [live]
    exact stores.held

theorem dispatch (stores : Stores windowSize ring windows) (some_ : windows.window ≠ []) :
    Stores windowSize ring.dispatchInstruction (windows.dispatch windowSize) := by
  have oldWindow := stores.oldWindow
  have same : ring.oldWindowLength = ring.windowSize ↔ windows.oldWindow.length = windowSize := by
    rw [stores.oldWindowLength, stores.size]
  by_cases full : windows.oldWindow.length = windowSize
  · have inWindow := List.length_pos_iff.mpr some_
    have window := stores.window
    have old : windows.oldWindow ≠ [] := List.length_pos_iff.mp (by omega)
    have left := stores.leave old
    have room : windows.oldWindow.tail.length < windowSize := by
      rw [List.length_tail]
      omega
    simp only [dispatchInstruction, if_pos (same.mpr full), TwoWindows.dispatch, if_pos full]
    exact left.move some_ room
  · simp only [dispatchInstruction, if_neg (fun isFull => full (same.mp isFull)), TwoWindows.dispatch, if_neg full]
    exact stores.move some_ (Nat.lt_of_le_of_ne oldWindow full)

theorem clear (stores : Stores windowSize ring windows) : Stores windowSize ring.clearOldWindow windows.clearOld := by
  have length := length_live windows
  have live : windows.clearOld.live = windows.window := rfl
  have enough := stores.enough
  constructor
  case size => exact stores.size
  case added => exact stores.added
  case windowLength => exact stores.windowLength
  case oldWindowLength => rfl
  case oldWindow => exact Nat.zero_le _
  case window => exact stores.window
  case enough =>
    rw [live]
    change windows.window.length ≤ windows.added
    omega
  case numbered =>
    intro index entry there
    rw [live] at there ⊢
    have found : windows.live[windows.oldWindow.length + index]? = some entry := by
      rw [TwoWindows.live, List.getElem?_append_right (Nat.le_add_right _ _), Nat.add_sub_cancel_left, there]
    have number := stores.numbered _ entry found
    change _ = windows.added + index
    omega
  case tail => exact stores.tail
  case head => exact stores.head
  case oldHead => exact stores.head
  case held => exact fun entry member => stores.held entry (List.mem_append_right _ member)

theorem toInt_difference {difference : Int} (above : -2 ^ 31 ≤ difference) (below : difference < 2 ^ 31) :
    toInt (difference % 2 ^ 64).toNat = difference := by
  have same : ((difference % 2 ^ 64).toNat : Int) = difference % 2 ^ 64 := Int.toNat_of_nonneg (Int.emod_nonneg _ (by decide))
  rw [toInt_eq]
  split <;> omega

theorem windowIndex_eq (ring : DoubleWindow α) (some_ : 0 < ring.doubleWindowSize) (index : Int) :
    ring.windowIndex index = index % ring.doubleWindowSize := by
  have positive : (0 : Int) < ring.doubleWindowSize := by exact_mod_cast some_
  have least := Int.emod_nonneg index (Int.ne_of_gt positive)
  rw [windowIndex, Int.tmod_eq_emod_of_nonneg]
  · rw [Int.add_emod_right, Int.tmod_eq_emod]
    split
    case isTrue => rw [Int.natCast_zero, Int.sub_zero, Int.emod_emod]
    case isFalse => rw [Int.natAbs_natCast, Int.sub_emod_right, Int.emod_emod]
  · rw [Int.tmod_eq_emod]
    split
    case isTrue => omega
    case isFalse =>
      rw [Int.natAbs_natCast]
      omega

theorem windowHead (stores : Stores windowSize ring windows) {first : Entry α} (isFirst : windows.window.head? = some first) :
    first ∈ windows.live ∧ first.sequenceNumber + windows.window.length = windows.added := by
  obtain ⟨rest, isWindow⟩ := List.head?_eq_some_iff.mp isFirst
  have length := length_live windows
  have there : windows.live[windows.oldWindow.length]? = some first := by
    rw [TwoWindows.live, isWindow, List.getElem?_append_right (Nat.le_refl _), Nat.sub_self]
    rfl
  have number := stores.numbered _ first there
  exact ⟨List.mem_of_getElem? there, by omega⟩

theorem getInstruction (stores : Stores windowSize ring windows) (isInt : windowSize < 2 ^ 31) (some_ : windows.window ≠ [])
    {entry : Entry α} (member : entry ∈ windows.live) : ring.getInstruction entry.sequenceNumber = .ok entry := by
  obtain ⟨first, rest, isWindow⟩ := List.exists_cons_of_ne_nil some_
  obtain ⟨isLive, number⟩ := stores.windowHead (by rw [isWindow]; rfl : windows.window.head? = some first)
  obtain ⟨before, after⟩ := stores.number member
  have oldWindow := stores.oldWindow
  have window := stores.window
  have length := length_live windows
  have inWindow := List.length_pos_iff.mpr some_
  have head : ring.windowHeadOldWindowTail = first.sequenceNumber % (2 * windowSize) := by
    rw [stores.head, ← number, Nat.add_sub_cancel]
  have size : ring.doubleWindowSize = 2 * windowSize := by rw [doubleWindowSize, stores.size]
  have distance : toInt (((first.sequenceNumber : Int) - entry.sequenceNumber) % 2 ^ 64).toNat =
      (first.sequenceNumber : Int) - entry.sequenceNumber := toInt_difference (by omega) (by omega)
  have place : ((first.sequenceNumber % (2 * windowSize) : Nat) - ((first.sequenceNumber : Int) - entry.sequenceNumber)) %
      (2 * windowSize : Nat) = (entry.sequenceNumber % (2 * windowSize) : Nat) := by
    have quotient := Int.mul_ediv_add_emod first.sequenceNumber (2 * windowSize : Nat)
    rw [Int.natCast_emod, Int.natCast_emod, ← Int.sub_mul_emod_self_left entry.sequenceNumber (2 * windowSize : Nat)
      (first.sequenceNumber / (2 * windowSize : Nat))]
    congr 1
    omega
  rw [DoubleWindow.getInstruction, head, stores.getInstructionByIndex isLive]
  simp only [bind, Except.bind, distance]
  rw [windowIndex_eq ring (by omega), size, place, stores.getInstructionByIndex member]
  simp only [if_true, pure, Except.pure]

theorem visited {stop start : Nat} {entries : List (Entry α)} (stores : Stores windowSize ring windows)
    (live : ∀ entry ∈ entries, entry ∈ windows.live) (short : entries ≠ [] → entries.length < 2 * windowSize)
    (numbered : ∀ (index : Nat) (entry : Entry α), entries[index]? = some entry → entry.sequenceNumber = start + index)
    (isStop : stop = (start + entries.length) % (2 * windowSize)) :
    ring.visited stop (entries.length + 1) (start % (2 * windowSize)) = .ok entries := by
  induction entries generalizing start with
  | nil =>
    rw [List.length_nil, Nat.add_zero] at isStop
    rw [DoubleWindow.visited, if_pos isStop.symm]
    rfl
  | cons entry rest ih =>
    have short := short (List.cons_ne_nil entry rest)
    rw [List.length_cons] at short isStop
    have here : entry.sequenceNumber = start := numbered 0 entry rfl
    have notYet : ¬start % (2 * windowSize) = stop := by
      rw [isStop]
      exact fun same => Holds.not_between same (by omega) (by omega)
    have next := ih (fun other member => live other (List.mem_cons_of_mem _ member)) (fun _ => by omega)
      (fun index other there => by
        have number := numbered (index + 1) other there
        omega)
      (by rw [isStop, Nat.add_assoc start 1, Nat.add_comm 1] : stop = (start + 1 + rest.length) % (2 * windowSize))
    have found := stores.getInstructionByIndex (live entry List.mem_cons_self)
    rw [here] at found
    have increment : ring.incrementIndex (start % (2 * windowSize)) = (start + 1) % (2 * windowSize) := by
      rw [incrementIndex, doubleWindowSize, stores.size, Nat.mod_add_mod]
    rw [List.length_cons, DoubleWindow.visited, if_neg notYet, found]
    simp only [bind, Except.bind, increment, next, pure, Except.pure]

theorem windowIterator (stores : Stores windowSize ring windows) :
    ring.getWindowIterator (windows.window.length + 1) = .ok windows.window := by
  have window := stores.window
  have enough := stores.enough
  have length := length_live windows
  rw [getWindowIterator, stores.head]
  refine stores.visited (fun _ member => List.mem_append_right _ member) (fun some_ => ?_) (fun index entry there => ?_) ?_
  · have inWindow := List.length_pos_iff.mpr some_
    omega
  · have found : windows.live[windows.oldWindow.length + index]? = some entry := by
      rw [TwoWindows.live, List.getElem?_append_right (Nat.le_add_right _ _), Nat.add_sub_cancel_left, there]
    have number := stores.numbered _ entry found
    omega
  · rw [Nat.sub_add_cancel (by omega), stores.tail]

theorem oldWindowIterator (stores : Stores windowSize ring windows) :
    ring.getOldWindowIterator (windows.oldWindow.length + 1) = .ok windows.oldWindow := by
  have oldWindow := stores.oldWindow
  have enough := stores.enough
  have length := length_live windows
  rw [getOldWindowIterator, stores.oldHead]
  refine stores.visited (fun _ member => List.mem_append_left _ member) (fun some_ => ?_) (fun index entry there => ?_) ?_
  · have inOld := List.length_pos_iff.mpr some_
    omega
  · have inside := (List.getElem?_eq_some_iff.mp there).1
    have found : windows.live[index]? = some entry := by
      rw [TwoWindows.live, List.getElem?_append_left inside, there]
    have number := stores.numbered _ entry found
    omega
  · rw [stores.head]
    congr 1
    omega

end Stores

/-! ### Runs -/

theorem Runs.stores (runs : Runs windowSize ring windows) : Stores windowSize ring windows := by
  induction runs with
  | create => exact stores_create windowSize
  | add ring next windows microOp lowest _ added ih =>
    have room : windows.window.length < windowSize := by
      refine Nat.lt_of_le_of_ne ih.window fun full => ?_
      have isFull : ring.wIsFull = true := decide_eq_true (by rw [ih.windowLength, ih.size, full])
      rw [DoubleWindow.add, isFull] at added
      cases added
    rw [ih.add_eq room] at added
    cases added
    exact ih.add room microOp
  | dispatch ring windows _ some_ ih =>
    refine ih.dispatch fun nothing => ?_
    have empty := of_decide_eq_false some_
    rw [ih.windowLength, nothing] at empty
    exact empty rfl
  | clear ring windows _ ih => exact ih.clear

structure Right (ring : DoubleWindow α) (windows : TwoWindows α) : Prop where
  windowLength : ring.windowLength = windows.window.length
  oldWindowLength : ring.oldWindowLength = windows.oldWindow.length
  fits : ring.oldWindowLength + ring.windowLength ≤ ring.doubleWindowSize
  found : ring.wIsEmpty = false → ∀ entry ∈ windows.live, ring.getInstruction entry.sequenceNumber = .ok entry
  windowIterator : ∃ fuel, ring.getWindowIterator fuel = .ok windows.window
  oldWindowIterator : ∃ fuel, ring.getOldWindowIterator fuel = .ok windows.oldWindow
  /-- Sequence numbers are consecutive. -/
  numbered : ∀ (index : Nat) (entry : Entry α), windows.live[index]? = some entry →
    entry.sequenceNumber + windows.live.length = ring.nextSequenceNumber + index

/-- In every run the array holds the windows; sizes of windows are ints. -/
theorem ring_right (windowSize : Nat) (isInt : windowSize < 2 ^ 31) (ring : DoubleWindow α) (windows : TwoWindows α)
    (runs : Runs windowSize ring windows) : Right ring windows := by
  have stores := runs.stores
  have oldWindow := stores.oldWindow
  have window := stores.window
  refine ⟨stores.windowLength, stores.oldWindowLength, ?_, fun some_ entry member => ?_, ⟨_, stores.windowIterator⟩,
    ⟨_, stores.oldWindowIterator⟩, ?_⟩
  · rw [stores.oldWindowLength, stores.windowLength, doubleWindowSize, stores.size]
    omega
  · refine stores.getInstruction isInt (fun nothing => ?_) member
    have empty := of_decide_eq_false some_
    rw [stores.windowLength, nothing] at empty
    exact empty rfl
  · rw [stores.added]
    exact stores.numbered

/-- A window of two micro-operations, of which the first one has been dispatched. -/
theorem ring_right_dispatched : ∃ (ring : DoubleWindow Char) (windows : TwoWindows Char),
    windows.oldWindow = [⟨0, 'a'⟩] ∧ windows.window = [⟨1, 'b'⟩] ∧ Right ring windows := by
  have start : Runs 2 (.create 2) (.empty : TwoWindows Char) := .create
  have first := Runs.add _ _ _ 'a' 0 start rfl
  have second := Runs.add _ _ _ 'b' 0 first rfl
  have dispatched := Runs.dispatch _ _ second rfl
  exact ⟨_, _, rfl, rfl, ring_right 2 (by decide) _ _ dispatched⟩

end DoubleWindow

end Sniper.Performance.IntervalTimer

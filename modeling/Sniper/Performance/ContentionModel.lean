import Mathlib.Algebra.Ring.Nat

/-! `ContentionModel`: slots in service until a time, each for a tag. -/

namespace Sniper.Performance

structure ContentionModel where
  /-- `m_time`: when each slot becomes free, and its tag. -/
  time : List (Nat × Nat)
  tLast : Nat
deriving DecidableEq, Repr

namespace ContentionModel

def create (numOutstanding : Nat) : ContentionModel := ⟨List.replicate numOutstanding (0, 0), 0⟩

/-- The tag that `hasFreeSlot` takes by default. -/
def noTag : Nat := 2 ^ 64 - 1

def hasFreeSlot (queue : ContentionModel) (tStart : Nat) (tag : Nat) : Bool :=
  queue.time.any fun slot => slot.1 ≤ tStart || slot.2 = tag

/-- The first free slot from `index` on, or else the one that becomes free first, given the best one before. -/
def findUnit (tStart : Nat) : List (Nat × Nat) → (index unit unitTime : Nat) → Nat
  | [], _, unit, _ => unit
  | slot :: rest, index, unit, unitTime =>
    if slot.1 ≤ tStart then index
    else if slot.1 < unitTime then findUnit tStart rest (index + 1) index slot.1
    else findUnit tStart rest (index + 1) unit unitTime

def getCompletionTime (queue : ContentionModel) (tStart tDelay tag : Nat) : Nat × ContentionModel :=
  match queue.time with
  | [] => (tStart + tDelay, queue)
  | first :: _ =>
    if tStart = 0 then (tDelay, queue)
    else if tStart < queue.tLast then (tStart + tDelay, queue)
    else
      let unit := findUnit tStart queue.time 0 0 first.1
      let tBegin := max tStart (queue.time.getD unit (0, 0)).1
      (tBegin + tDelay, ⟨queue.time.set unit (tBegin + tDelay, tag), tStart⟩)

/-- The loop of `getStartTime`: no unit if one is free now, or else the one that becomes free first. -/
def peekUnit (tStart : Nat) : List (Nat × Nat) → (index unit unitTime : Nat) → Option Nat
  | [], _, unit, _ => some unit
  | slot :: rest, index, unit, unitTime =>
    if slot.1 ≤ tStart then none
    else if slot.1 < unitTime then peekUnit tStart rest (index + 1) index slot.1
    else peekUnit tStart rest (index + 1) unit unitTime

def getStartTime (queue : ContentionModel) (tStart : Nat) : Nat :=
  match queue.time with
  | [] => tStart
  | first :: _ =>
    if tStart < queue.tLast then tStart
    else match peekUnit tStart queue.time 0 0 first.1 with
      | none => tStart
      | some unit => if tStart < (queue.time.getD unit (0, 0)).1 then (queue.time.getD unit (0, 0)).1 else tStart

def maxTime : Nat := 2 ^ 64 - 1

def getTagCompletionTime (queue : ContentionModel) (tag : Nat) : Nat :=
  match queue.time.find? fun slot => slot.2 = tag with
  | some slot => slot.1
  | none => maxTime

/-- No slot is free before all of them are, from `tStart` on. -/
def getBarrierCompletionTime (queue : ContentionModel) (tStart tDelay tag : Nat) : Nat × ContentionModel :=
  match queue.time with
  | [] => (tStart + tDelay, queue)
  | slots =>
    let maxTime := slots.foldl (fun maxTime slot => if slot.1 > maxTime then slot.1 else maxTime) tStart
    (maxTime + tDelay, { queue with time := slots.map fun _ => (maxTime + tDelay, tag) })

/-! ### The search for a unit -/

section Search

variable {tStart unit : Nat} {slots : List (Nat × Nat)}

def freeAt (slots : List (Nat × Nat)) (unit : Nat) : Nat := (slots.getD unit (0, 0)).1

/-- What the search finds: the first unit that is free now, or the one that becomes free first if none is. -/
inductive Chosen (tStart : Nat) (slots : List (Nat × Nat)) (unit : Nat) : Prop where
  | free (inside : unit < slots.length) (now : freeAt slots unit ≤ tStart) (first : ∀ other < unit, tStart < freeAt slots other)
  | busy (inside : unit < slots.length) (later : ∀ other < slots.length, tStart < freeAt slots other)
      (first : ∀ other < slots.length, freeAt slots unit ≤ freeAt slots other)

theorem Chosen.inside (chosen : Chosen tStart slots unit) : unit < slots.length := by
  cases chosen <;> assumption

/-- The loop has passed `index` units, none of them free, and `unit` is the best one of them. -/
structure Passed (tStart : Nat) (slots : List (Nat × Nat)) (index unit : Nat) : Prop where
  inside : unit < slots.length
  later : ∀ other < index, tStart < freeAt slots other
  first : ∀ other < index, freeAt slots unit ≤ freeAt slots other

theorem Passed.next {index : Nat} (passed : Passed tStart slots index unit) (inside : index < slots.length)
    (busy : tStart < freeAt slots index) :
    Passed tStart slots (index + 1) (if freeAt slots index < freeAt slots unit then index else unit) := by
  refine ⟨?_, ?_, ?_⟩
  · split
    · exact inside
    · exact passed.inside
  · intro other before
    rcases Nat.lt_succ_iff_lt_or_eq.mp before with earlier | rfl
    · exact passed.later other earlier
    · exact busy
  · intro other before
    rcases Nat.lt_succ_iff_lt_or_eq.mp before with earlier | rfl
    · have best := passed.first other earlier
      split <;> omega
    · split <;> omega

theorem freeAt_split {before rest : List (Nat × Nat)} {slot : Nat × Nat} (split : slots = before ++ slot :: rest) :
    before.length < slots.length ∧ freeAt slots before.length = slot.1 := by
  subst split
  simp [freeAt]

theorem findUnit_from {before rest : List (Nat × Nat)} (split : slots = before ++ rest)
    (passed : Passed tStart slots before.length unit) :
    Chosen tStart slots (findUnit tStart rest before.length unit (freeAt slots unit)) := by
  induction rest generalizing before unit with
  | nil =>
    rw [List.append_nil] at split
    exact .busy passed.inside (fun other below => passed.later other (split ▸ below)) fun other below =>
      passed.first other (split ▸ below)
  | cons slot rest ih =>
    obtain ⟨inside, time⟩ := freeAt_split split
    rw [findUnit, ← time]
    split
    case isTrue free => exact .free inside free passed.later
    case isFalse busy =>
      have next := passed.next inside (Nat.lt_of_not_le busy)
      have length : (before ++ [slot]).length = before.length + 1 := by simp
      have further := ih (split.trans (List.append_cons before slot rest)) (length ▸ next)
      rw [length] at further
      split
      case isTrue sooner => simpa only [if_pos sooner] using further
      case isFalse later => simpa only [if_neg later] using further

theorem findUnit_chosen {first : Nat × Nat} {rest : List (Nat × Nat)} (split : slots = first :: rest) :
    Chosen tStart slots (findUnit tStart slots 0 0 first.1) := by
  have start : freeAt slots 0 = first.1 := by simp [freeAt, split]
  have passed : Passed tStart slots 0 0 :=
    ⟨by simp [split], fun other before => absurd before (Nat.not_lt_zero _), fun other before => absurd before (Nat.not_lt_zero _)⟩
  rw [← start]
  exact findUnit_from (List.nil_append _).symm passed

/-- The loop of `getStartTime` finds no unit if and only if one is free, and else the unit of `getCompletionTime`. -/
theorem peekUnit_eq (rest : List (Nat × Nat)) (index unit unitTime : Nat) :
    peekUnit tStart rest index unit unitTime =
      if ∃ slot ∈ rest, slot.1 ≤ tStart then none else some (findUnit tStart rest index unit unitTime) := by
  induction rest generalizing index unit unitTime with
  | nil => simp [peekUnit, findUnit]
  | cons slot rest ih =>
    rw [peekUnit, findUnit]
    by_cases free : slot.1 ≤ tStart
    · simp [free]
    · have others : (∃ item ∈ slot :: rest, item.1 ≤ tStart) ↔ ∃ item ∈ rest, item.1 ≤ tStart := by simp [free]
      rw [if_neg free, if_neg free, ih, ih, if_congr others rfl rfl]
      by_cases sooner : slot.1 < unitTime
      · simp only [if_pos sooner]
      · simp only [if_neg sooner]

end Search

end ContentionModel

end Sniper.Performance

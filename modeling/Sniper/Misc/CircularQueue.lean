import Sniper.Library.CircularArray
import Mathlib.Algebra.Ring.Nat

/-! `CircularQueue`: a bounded queue in a circular array with one slot to spare. -/

namespace Sniper

namespace CircularQueue

inductive Fault where
  | full
  | empty
  | outside
  | divisionByZero
deriving DecidableEq, Repr

/-- What is done to a queue.  References are used at once: for the value that they refer to, the new one. -/
inductive Operation (α : Type) where
  | push (t : α)
  | pushCircular (t : α)
  | pop
  | next (use : α → α)
  | front (use : α → α)
  | back (use : α → α)
  | element (idx : Nat) (use : α → α)
  | iterate
  | size
  | empty
  | full

inductive Answer (α : Type) where
  | done
  | value (value : α)
  | values (values : List α)
  | number (number : Nat)
  | flag (flag : Bool)
deriving DecidableEq, Repr

end CircularQueue

open CircularQueue

/-- Numbers have 32 bits. -/
structure CircularQueue (α : Type) where
  /-- `m_size` -/
  slots : Nat
  /-- next element to be inserted here -/
  first : Nat
  /-- last element is here -/
  last : Nat
  queue : Nat → α

namespace CircularQueue

variable {α : Type} {capacity : Nat} {queue : CircularQueue α}

def create (size : Nat) (fresh : Nat → α) : CircularQueue α := ⟨(size + 1) % 2 ^ 32, 0, 0, fresh⟩

/-- The remainder of a sum modulo `m_size`. -/
def place (queue : CircularQueue α) (sum : Nat) : Except Fault Nat :=
  if queue.slots = 0 then .error .divisionByZero else .ok (sum % 2 ^ 32 % queue.slots)

def full (queue : CircularQueue α) : Except Fault Bool := do
  let next ← queue.place (queue.first + 1)
  return next = queue.last

def empty (queue : CircularQueue α) : Bool := queue.first = queue.last

def size (queue : CircularQueue α) : Except Fault Nat := queue.place (queue.first + queue.slots + 2 ^ 32 - queue.last)

def refer (queue : CircularQueue α) (idx : Nat) (use : α → α) : α × CircularQueue α :=
  (queue.queue idx, { queue with queue := Function.update queue.queue idx (use (queue.queue idx)) })

def next (queue : CircularQueue α) (use : α → α) : Except Fault (α × CircularQueue α) := do
  if ← queue.full then throw .full
  let first ← queue.place (queue.first + 1)
  return { queue with first }.refer queue.first use

def push (queue : CircularQueue α) (t : α) : Except Fault (CircularQueue α) := do
  let (_, queue) ← queue.next fun _ => t
  return queue

def pop (queue : CircularQueue α) : Except Fault (α × CircularQueue α) := do
  if queue.empty then throw .empty
  let last ← queue.place (queue.last + 1)
  return (queue.queue queue.last, { queue with last })

def pushCircular (queue : CircularQueue α) (t : α) : Except Fault (CircularQueue α) := do
  if ← queue.full then
    let (_, queue) ← queue.pop
    queue.push t
  else queue.push t

def front (queue : CircularQueue α) (use : α → α) : Except Fault (α × CircularQueue α) := do
  if queue.empty then throw .empty
  return queue.refer queue.last use

def back (queue : CircularQueue α) (use : α → α) : Except Fault (α × CircularQueue α) := do
  if queue.empty then throw .empty
  let idx ← queue.place (queue.first + queue.slots - 1)
  return queue.refer idx use

/-- `at` -/
def element (queue : CircularQueue α) (idx : Nat) (use : α → α) : Except Fault (α × CircularQueue α) := do
  if (← queue.size) ≤ idx then throw .outside
  let slot ← queue.place (queue.last + idx)
  return queue.refer slot use

/-- An iterator that has so many elements to go, up to the end. -/
def iterateFrom (queue : CircularQueue α) : Nat → Nat → Except Fault (List α)
  | 0, _ => return []
  | left + 1, idx => do
      let (value, _) ← queue.element idx id
      return value :: (← queue.iterateFrom left (idx + 1))

/-- The values from `begin` to `end`. -/
def iterate (queue : CircularQueue α) : Except Fault (List α) := do
  queue.iterateFrom (← queue.size) 0

def perform (queue : CircularQueue α) : Operation α → Except Fault (Answer α × CircularQueue α)
  | .push t => return (.done, ← queue.push t)
  | .pushCircular t => return (.done, ← queue.pushCircular t)
  | .pop => return (← queue.pop).map .value id
  | .next use => return (← queue.next use).map .value id
  | .front use => return (← queue.front use).map .value id
  | .back use => return (← queue.back use).map .value id
  | .element idx use => return (← queue.element idx use).map .value id
  | .iterate => return (.values (← queue.iterate), queue)
  | .size => return (.number (← queue.size), queue)
  | .empty => return (.flag queue.empty, queue)
  | .full => return (.flag (← queue.full), queue)

/-- The answers to a sequence of operations, up to the one that fails. -/
def answers : List (Operation α) → CircularQueue α → List (Except Fault (Answer α))
  | [], _ => []
  | operation :: rest, queue =>
    match queue.perform operation with
    | .ok (answer, next) => .ok answer :: answers rest next
    | .error fault => [.error fault]

end CircularQueue

/-! ### The bounded queue -/

/-- A list of at most so many elements, the oldest first. -/
structure Fifo (α : Type) (capacity : Nat) where
  contents : List α
  bounded : contents.length ≤ capacity

namespace Fifo

variable {α : Type} {capacity : Nat}

def nil : Fifo α capacity := ⟨[], Nat.zero_le _⟩

def append (fifo : Fifo α capacity) (t : α) (room : fifo.contents.length ≠ capacity) : Fifo α capacity where
  contents := fifo.contents ++ [t]
  bounded := by
    have bounded := fifo.bounded
    rw [List.length_append, List.length_singleton]
    omega

def tail (fifo : Fifo α capacity) : Fifo α capacity where
  contents := fifo.contents.tail
  bounded := Nat.le_trans (by simp) fifo.bounded

@[simp] theorem append_contents (fifo : Fifo α capacity) (t : α) (room : fifo.contents.length ≠ capacity) :
    (fifo.append t room).contents = fifo.contents ++ [t] := rfl

@[simp] theorem tail_contents (fifo : Fifo α capacity) : fifo.tail.contents = fifo.contents.tail := rfl

/-- An element is used. -/
def use (fifo : Fifo α capacity) (idx : Nat) (fault : Fault) (use : α → α) : Except Fault (Answer α × Fifo α capacity) :=
  match fifo.contents[idx]? with
  | none => .error fault
  | some value => .ok (.value value, ⟨fifo.contents.set idx (use value), by simpa using fifo.bounded⟩)

/-- What `next` finds in the slot that it hands out, is not told. -/
def perform (fifo : Fifo α capacity) (stale : α) : Operation α → Except Fault (Answer α × Fifo α capacity)
  | .push t => if room : fifo.contents.length ≠ capacity then .ok (.done, fifo.append t room) else .error .full
  | .pushCircular t =>
    if room : fifo.contents.length ≠ capacity then .ok (.done, fifo.append t room)
    else if room : fifo.tail.contents.length ≠ capacity then .ok (.done, fifo.tail.append t room)
    else .error .empty
  | .pop =>
    match fifo.contents.head? with
    | none => .error .empty
    | some oldest => .ok (.value oldest, fifo.tail)
  | .next use => if room : fifo.contents.length ≠ capacity then .ok (.value stale, fifo.append (use stale) room) else .error .full
  | .front use => fifo.use 0 .empty use
  | .back use => fifo.use (fifo.contents.length - 1) .empty use
  | .element idx use => fifo.use idx .outside use
  | .iterate => .ok (.values fifo.contents, fifo)
  | .size => .ok (.number fifo.contents.length, fifo)
  | .empty => .ok (.flag fifo.contents.isEmpty, fifo)
  | .full => .ok (.flag (fifo.contents.length = capacity), fifo)

def answers : (Nat → α) → List (Operation α) → Fifo α capacity → List (Except Fault (Answer α))
  | _, [], _ => []
  | stale, operation :: rest, fifo =>
    match fifo.perform (stale 0) operation with
    | .ok (answer, next) => .ok answer :: answers (fun index => stale (index + 1)) rest next
    | .error fault => [.error fault]

end Fifo

namespace CircularQueue

variable {α : Type} {capacity : Nat} {queue : CircularQueue α}

/-- Every sequence of operations is answered as a bounded queue answers it. -/
def Refines (α : Type) (capacity : Nat) : Prop :=
  ∀ (fresh : Nat → α) (operations : List (Operation α)), ∃ stale : Nat → α,
    answers operations (create capacity fresh) = Fifo.answers stale operations (.nil : Fifo α capacity)

/-! ### The representation -/

open CircularArray

/-- The elements of a bounded queue are in the slots from the last one on. -/
structure Represents (queue : CircularQueue α) (fifo : Fifo α capacity) : Prop where
  slots : queue.slots = capacity + 1
  last : queue.last < queue.slots
  first : queue.first = (queue.last + fifo.contents.length) % queue.slots
  held : stretch queue.queue queue.slots queue.last fifo.contents.length = fifo.contents

theorem mod_two_laps {number size : Nat} (near : number < 2 * size) : number % size = if number < size then number else number - size := by
  split
  case isTrue first => exact Nat.mod_eq_of_lt first
  case isFalse second => rw [Nat.mod_eq_sub_mod (Nat.le_of_not_lt second), Nat.mod_eq_of_lt (by omega)]

theorem place_eq {sum : Nat} (some_ : queue.slots ≠ 0) (small : sum < 2 ^ 32) : queue.place sum = .ok (sum % queue.slots) := by
  rw [place, if_neg some_, Nat.mod_eq_of_lt small]

namespace Represents

variable {fifo : Fifo α capacity} {idx : Nat}

theorem create (small : capacity < 2 ^ 31) (fresh : Nat → α) : Represents (.create capacity fresh) (.nil : Fifo α capacity) := by
  have slots : (CircularQueue.create capacity fresh).slots = capacity + 1 := Nat.mod_eq_of_lt (by omega)
  refine ⟨slots, slots ▸ Nat.succ_pos capacity, ?_, rfl⟩
  exact (Nat.zero_mod _).symm

theorem some_ (represents : Represents queue fifo) : queue.slots ≠ 0 := by
  have slots := represents.slots
  omega

theorem first_cases (represents : Represents queue fifo) :
    queue.first = if queue.last + fifo.contents.length < queue.slots then queue.last + fifo.contents.length
      else queue.last + fifo.contents.length - queue.slots := by
  have bounded := fifo.bounded
  have slots := represents.slots
  have last := represents.last
  rw [represents.first, mod_two_laps (by omega)]

theorem first_lt (represents : Represents queue fifo) : queue.first < queue.slots := by
  rw [represents.first]
  exact Nat.mod_lt _ (Nat.pos_of_ne_zero represents.some_)

theorem full (represents : Represents queue fifo) (small : capacity < 2 ^ 31) :
    queue.full = .ok (decide (fifo.contents.length = capacity)) := by
  have bounded := fifo.bounded
  have slots := represents.slots
  have last := represents.last
  have first := represents.first_cases
  have below := represents.first_lt
  rw [CircularQueue.full, place_eq represents.some_ (by omega), mod_two_laps (by omega)]
  refine congrArg Except.ok (decide_eq_decide.mpr ?_)
  split at first <;> split <;> omega

theorem empty (represents : Represents queue fifo) : queue.empty = fifo.contents.isEmpty := by
  have bounded := fifo.bounded
  have slots := represents.slots
  have last := represents.last
  have first := represents.first_cases
  rw [CircularQueue.empty, Bool.eq_iff_iff, decide_eq_true_eq, List.isEmpty_iff, ← List.length_eq_zero_iff]
  split at first <;> omega

theorem size (represents : Represents queue fifo) (small : capacity < 2 ^ 31) : queue.size = .ok fifo.contents.length := by
  have bounded := fifo.bounded
  have slots := represents.slots
  have last := represents.last
  have first := represents.first_cases
  have below := represents.first_lt
  have sum : (queue.first + queue.slots + 2 ^ 32 - queue.last) % 2 ^ 32 = queue.first + queue.slots - queue.last := by omega
  rw [CircularQueue.size, place, if_neg represents.some_, sum, mod_two_laps (by omega)]
  refine congrArg Except.ok ?_
  split at first <;> split <;> omega

/-! What the operations do to the elements. -/

theorem append (represents : Represents queue fifo) (room : fifo.contents.length ≠ capacity) (t : α) :
    Represents { queue with
      first := (queue.first + 1) % queue.slots
      queue := Function.update queue.queue queue.first t } (fifo.append t room) := by
  have bounded := fifo.bounded
  have slots := represents.slots
  refine ⟨slots, represents.last, ?_, ?_⟩
  · rw [Fifo.append_contents, represents.first, Nat.mod_add_mod, List.length_append, List.length_singleton, Nat.add_assoc]
  · rw [Fifo.append_contents, List.length_append, List.length_singleton, represents.first, stretch_push (by omega), represents.held]

theorem tail (represents : Represents queue fifo) {oldest : α} (there : fifo.contents.head? = some oldest) :
    queue.queue queue.last = oldest ∧ Represents { queue with last := (queue.last + 1) % queue.slots } fifo.tail := by
  obtain ⟨rest, isRest⟩ := List.head?_eq_some_iff.mp there
  have held := represents.held
  rw [isRest, List.length_cons, stretch_cons, Nat.mod_eq_of_lt represents.last, List.cons.injEq] at held
  have tail : fifo.tail.contents = rest := by rw [Fifo.tail_contents, isRest, List.tail_cons]
  refine ⟨held.1, represents.slots, Nat.mod_lt _ (Nat.pos_of_ne_zero represents.some_), ?_, ?_⟩
  · rw [tail, Nat.mod_add_mod, represents.first, isRest, List.length_cons]
    congr 1
    omega
  · rw [tail, stretch_mod]
    exact held.2

theorem refer (represents : Represents queue fifo) {value : α} (there : fifo.contents[idx]? = some value) (use : α → α)
    (bounded : (fifo.contents.set idx (use value)).length ≤ capacity) :
    (queue.refer ((queue.last + idx) % queue.slots) use).1 = value ∧
      Represents (queue.refer ((queue.last + idx) % queue.slots) use).2 (⟨fifo.contents.set idx (use value), bounded⟩ : Fifo α capacity) := by
  have inside := (List.getElem?_eq_some_iff.mp there).1
  have fits := fifo.bounded
  have slots := represents.slots
  have held : queue.queue ((queue.last + idx) % queue.slots) = value := by
    rw [← represents.held, getElem?_stretch inside, Option.some.injEq] at there
    exact there
  refine ⟨held, slots, represents.last, ?_, ?_⟩
  · rw [List.length_set]
    exact represents.first
  · dsimp only [CircularQueue.refer]
    rw [List.length_set, stretch_update inside (by omega), represents.held, held]

/-! What the operations say. -/

theorem next (represents : Represents queue fifo) (small : capacity < 2 ^ 31) (use : α → α) :
    queue.next use = if fifo.contents.length = capacity then .error .full
      else .ok (queue.queue queue.first, { queue with
        first := (queue.first + 1) % queue.slots
        queue := Function.update queue.queue queue.first (use (queue.queue queue.first)) }) := by
  have below := represents.first_lt
  have slots := represents.slots
  rw [CircularQueue.next, represents.full small, place_eq represents.some_ (by omega)]
  by_cases atCapacity : fifo.contents.length = capacity
  · simp [atCapacity, bind, Except.bind, throw, throwThe, MonadExceptOf.throw]
  · simp [atCapacity, bind, Except.bind, pure, Except.pure, CircularQueue.refer]

theorem push (represents : Represents queue fifo) (small : capacity < 2 ^ 31) (t : α) :
    queue.push t = if fifo.contents.length = capacity then .error .full
      else .ok { queue with
        first := (queue.first + 1) % queue.slots
        queue := Function.update queue.queue queue.first t } := by
  rw [CircularQueue.push, represents.next small]
  split
  case isTrue => rfl
  case isFalse => rfl

theorem pop (represents : Represents queue fifo) (small : capacity < 2 ^ 31) :
    queue.pop = if fifo.contents.isEmpty then .error .empty
      else .ok (queue.queue queue.last, { queue with last := (queue.last + 1) % queue.slots }) := by
  have last := represents.last
  have slots := represents.slots
  rw [CircularQueue.pop, represents.empty, place_eq represents.some_ (by omega)]
  split
  case isTrue => rfl
  case isFalse => rfl

theorem element (represents : Represents queue fifo) (small : capacity < 2 ^ 31) (use : α → α) :
    queue.element idx use = if fifo.contents.length ≤ idx then .error .outside
      else .ok (queue.refer ((queue.last + idx) % queue.slots) use) := by
  have bounded := fifo.bounded
  have last := represents.last
  have slots := represents.slots
  rw [CircularQueue.element, represents.size small]
  by_cases inside : fifo.contents.length ≤ idx
  · rw [if_pos inside]
    simp [inside, bind, Except.bind, throw, throwThe, MonadExceptOf.throw]
  · rw [if_neg inside, place_eq represents.some_ (by omega)]
    simp [inside, bind, Except.bind, pure, Except.pure]

theorem front (represents : Represents queue fifo) (use : α → α) :
    queue.front use = if fifo.contents.isEmpty then .error .empty else .ok (queue.refer ((queue.last + 0) % queue.slots) use) := by
  rw [CircularQueue.front, represents.empty, Nat.add_zero, Nat.mod_eq_of_lt represents.last]
  split
  case isTrue => rfl
  case isFalse => rfl

theorem back (represents : Represents queue fifo) (small : capacity < 2 ^ 31) (use : α → α) :
    queue.back use = if fifo.contents.isEmpty then .error .empty
      else .ok (queue.refer ((queue.last + (fifo.contents.length - 1)) % queue.slots) use) := by
  have bounded := fifo.bounded
  have slots := represents.slots
  have last := represents.last
  have first := represents.first_cases
  have below := represents.first_lt
  rw [CircularQueue.back, represents.empty, place_eq represents.some_ (by omega)]
  by_cases none_ : fifo.contents.isEmpty = true
  · rw [if_pos none_, if_pos none_]
    rfl
  · have some_ : 0 < fifo.contents.length := List.length_pos_iff.mpr fun empty => none_ (List.isEmpty_iff.mpr empty)
    have same : (queue.first + queue.slots - 1) % queue.slots = (queue.last + (fifo.contents.length - 1)) % queue.slots := by
      rw [mod_two_laps (by omega), mod_two_laps (by omega)]
      split at first <;> split <;> split <;> omega
    rw [if_neg none_, if_neg none_, ← same]
    rfl

theorem iterateFrom (represents : Represents queue fifo) (small : capacity < 2 ^ 31) (left : Nat)
    (rest : idx + left = fifo.contents.length) : queue.iterateFrom left idx = .ok (fifo.contents.drop idx) := by
  induction left generalizing idx with
  | zero =>
    rw [List.drop_eq_nil_of_le (by omega)]
    rfl
  | succ left ih =>
    have inside : idx < fifo.contents.length := by omega
    have there := List.getElem?_eq_getElem inside
    have value := (represents.refer there id (by simpa using fifo.bounded)).1
    rw [CircularQueue.iterateFrom, represents.element small, if_neg (Nat.not_le_of_lt inside), List.drop_eq_getElem_cons inside]
    have later : queue.iterateFrom left (idx + 1) = .ok (fifo.contents.drop (idx + 1)) := ih (by omega)
    simp only [bind, Except.bind, later, value, pure, Except.pure]

theorem iterate (represents : Represents queue fifo) (small : capacity < 2 ^ 31) : queue.iterate = .ok fifo.contents := by
  rw [CircularQueue.iterate, represents.size small]
  exact represents.iterateFrom small fifo.contents.length (Nat.zero_add _)

end Represents

/-! ### Simulation -/

/-- The same answer, with queues that agree again, or the same fault. -/
def Agree : Except Fault (Answer α × CircularQueue α) → Except Fault (Answer α × Fifo α capacity) → Prop
  | .ok (answer, queue), .ok (answer', fifo) => answer = answer' ∧ Represents queue fifo
  | .error fault, .error fault' => fault = fault'
  | _, _ => False

namespace Represents

variable {fifo : Fifo α capacity} {idx : Nat}

theorem use (represents : Represents queue fifo) (idx : Nat) (fault : Fault) (use : α → α) {outside : Prop} [Decidable outside]
    (isOutside : outside ↔ fifo.contents.length ≤ idx) :
    Agree ((if outside then .error fault else .ok (queue.refer ((queue.last + idx) % queue.slots) use)) >>=
      fun used => pure (used.map .value id)) (fifo.use idx fault use) := by
  rw [Fifo.use.eq_def]
  cases there : fifo.contents[idx]? with
  | none =>
    rw [if_pos (isOutside.mpr (List.getElem?_eq_none_iff.mp there))]
    rfl
  | some value =>
    obtain ⟨same, represents'⟩ := represents.refer there use (by simpa using fifo.bounded)
    have inside := (List.getElem?_eq_some_iff.mp there).1
    rw [if_neg (fun isOut => Nat.not_le_of_lt inside (isOutside.mp isOut))]
    exact ⟨congrArg Answer.value same, represents'⟩

theorem pushCircular (represents : Represents queue fifo) (small : capacity < 2 ^ 31) (t : α) :
    Agree (queue.perform (.pushCircular t)) (fifo.perform (queue.queue queue.first) (.pushCircular t)) := by
  rw [CircularQueue.perform, CircularQueue.pushCircular, represents.full small, Fifo.perform]
  by_cases atCapacity : fifo.contents.length = capacity
  · rw [dif_neg (not_not_intro atCapacity)]
    simp only [bind, Except.bind, atCapacity, decide_true, if_true, represents.pop small]
    cases there : fifo.contents.head? with
    | none =>
      have nothing := List.head?_eq_none_iff.mp there
      rw [if_pos (List.isEmpty_iff.mpr nothing), dif_neg]
      · rfl
      · rw [nothing] at atCapacity
        rw [Fifo.tail_contents, nothing]
        exact not_not_intro atCapacity
    | some oldest =>
      obtain ⟨-, tail⟩ := represents.tail there
      obtain ⟨rest, isRest⟩ := List.head?_eq_some_iff.mp there
      have room : fifo.tail.contents.length ≠ capacity := by
        rw [isRest, List.length_cons] at atCapacity
        rw [Fifo.tail_contents, isRest, List.tail_cons]
        omega
      rw [if_neg (by simp [isRest]), dif_pos room]
      simp only [tail.push small, if_neg room]
      exact ⟨rfl, tail.append room t⟩
  · rw [dif_pos atCapacity]
    simp only [bind, Except.bind, atCapacity, decide_false, Bool.false_eq_true, if_false, represents.push small]
    exact ⟨rfl, represents.append atCapacity t⟩

theorem perform (represents : Represents queue fifo) (small : capacity < 2 ^ 31) (operation : Operation α) :
    Agree (queue.perform operation) (fifo.perform (queue.queue queue.first) operation) := by
  cases operation with
  | push t =>
    rw [CircularQueue.perform, represents.push small, Fifo.perform]
    by_cases atCapacity : fifo.contents.length = capacity
    · rw [if_pos atCapacity, dif_neg (not_not_intro atCapacity)]
      rfl
    · rw [if_neg atCapacity, dif_pos atCapacity]
      exact ⟨rfl, represents.append atCapacity t⟩
  | next use =>
    rw [CircularQueue.perform, represents.next small, Fifo.perform]
    by_cases atCapacity : fifo.contents.length = capacity
    · rw [if_pos atCapacity, dif_neg (not_not_intro atCapacity)]
      rfl
    · rw [if_neg atCapacity, dif_pos atCapacity]
      exact ⟨rfl, represents.append atCapacity _⟩
  | pop =>
    rw [CircularQueue.perform, represents.pop small, Fifo.perform]
    cases there : fifo.contents.head? with
    | none =>
      rw [if_pos (List.isEmpty_iff.mpr (List.head?_eq_none_iff.mp there))]
      rfl
    | some oldest =>
      obtain ⟨same, represents'⟩ := represents.tail there
      obtain ⟨rest, isRest⟩ := List.head?_eq_some_iff.mp there
      rw [if_neg (by simp [isRest]), same]
      exact ⟨rfl, represents'⟩
  | pushCircular t => exact represents.pushCircular small t
  | front use =>
    rw [CircularQueue.perform, represents.front]
    exact represents.use 0 .empty use (show fifo.contents.isEmpty = true ↔ _ by simp)
  | back use =>
    rw [CircularQueue.perform, represents.back small]
    have nothing : fifo.contents.isEmpty = true ↔ fifo.contents.length ≤ fifo.contents.length - 1 := by
      rw [List.isEmpty_iff, ← List.length_eq_zero_iff]
      omega
    exact represents.use (fifo.contents.length - 1) .empty use nothing
  | element idx use =>
    rw [CircularQueue.perform, represents.element small]
    exact represents.use idx .outside use Iff.rfl
  | iterate =>
    rw [CircularQueue.perform, represents.iterate small]
    exact ⟨rfl, represents⟩
  | size =>
    rw [CircularQueue.perform, represents.size small]
    exact ⟨rfl, represents⟩
  | empty =>
    rw [CircularQueue.perform, represents.empty]
    exact ⟨rfl, represents⟩
  | full =>
    rw [CircularQueue.perform, represents.full small]
    exact ⟨rfl, represents⟩

end Represents

/-! ### Sequences of operations -/

theorem Represents.answers [Inhabited α] {fifo : Fifo α capacity} (represents : Represents queue fifo) (small : capacity < 2 ^ 31)
    (operations : List (Operation α)) : ∃ stale, answers operations queue = Fifo.answers stale operations fifo := by
  induction operations generalizing queue fifo with
  | nil => exact ⟨fun _ => default, rfl⟩
  | cons operation rest ih =>
    have agree := represents.perform small operation
    cases performed : queue.perform operation with
    | error fault =>
      cases expected : fifo.perform (queue.queue queue.first) operation with
      | ok result =>
        rw [performed, expected] at agree
        exact agree.elim
      | error fault' =>
        rw [performed, expected] at agree
        refine ⟨fun _ => queue.queue queue.first, ?_⟩
        simp only [CircularQueue.answers, Fifo.answers, performed, expected]
        rw [show fault = fault' from agree]
    | ok result =>
      cases expected : fifo.perform (queue.queue queue.first) operation with
      | error fault =>
        rw [performed, expected] at agree
        exact agree.elim
      | ok result' =>
        rw [performed, expected] at agree
        obtain ⟨stale, later⟩ := ih agree.2
        let told (index : Nat) : α := if index = 0 then queue.queue queue.first else stale (index - 1)
        have first : told 0 = queue.queue queue.first := if_pos rfl
        have others : (fun index => told (index + 1)) = stale := rfl
        refine ⟨told, ?_⟩
        simp only [CircularQueue.answers, Fifo.answers, performed, first, expected, agree.1, others, later]

theorem answers_pushes (queue : CircularQueue α) (count : Nat) (t : α) (rest : List (Operation α)) (last : queue.last = 0)
    (small : queue.slots < 2 ^ 32) (room : queue.first + count < queue.slots) :
    ∃ slots, answers (List.replicate count (.push t) ++ rest) queue =
      List.replicate count (.ok .done) ++ answers rest { queue with first := queue.first + count, queue := slots } := by
  induction count generalizing queue with
  | zero => exact ⟨queue.queue, rfl⟩
  | succ count ih =>
    have place : queue.place (queue.first + 1) = .ok (queue.first + 1) := by
      rw [place_eq (by omega) (by omega), Nat.mod_eq_of_lt (by omega)]
    have pushed : queue.perform (.push t) =
        .ok (.done, { queue with first := queue.first + 1, queue := Function.update queue.queue queue.first t }) := by
      have notFull : decide (queue.first + 1 = queue.last) = false := decide_eq_false (by omega)
      simp only [perform, push, next, full, place, bind, Except.bind, pure, Except.pure, notFull, refer]
      rfl
    obtain ⟨slots, later⟩ := ih { queue with first := queue.first + 1, queue := Function.update queue.queue queue.first t }
      last small (by dsimp only; omega)
    refine ⟨slots, ?_⟩
    rw [List.replicate_succ, List.cons_append, answers, pushed]
    dsimp only
    rw [later, List.replicate_succ, List.cons_append, Nat.add_assoc, Nat.add_comm 1 count]

end CircularQueue

namespace Fifo

variable {α : Type} {capacity : Nat}

theorem answers_pushes (fifo : Fifo α capacity) (count : Nat) (stale : Nat → α) (t : α) (rest : List (Operation α))
    (room : fifo.contents.length + count ≤ capacity) :
    ∃ (stale' : Nat → α) (fifo' : Fifo α capacity), fifo'.contents.length = fifo.contents.length + count ∧
      Fifo.answers stale (List.replicate count (.push t) ++ rest) fifo =
        List.replicate count (.ok .done) ++ Fifo.answers stale' rest fifo' := by
  induction count generalizing fifo stale with
  | zero => exact ⟨stale, fifo, rfl, rfl⟩
  | succ count ih =>
    have notFull : fifo.contents.length ≠ capacity := by omega
    obtain ⟨stale', fifo', length, later⟩ := ih (fifo.append t notFull) (fun index => stale (index + 1)) (by
      rw [append_contents, List.length_append, List.length_singleton]
      omega)
    refine ⟨stale', fifo', ?_, ?_⟩
    · rw [length, append_contents, List.length_append, List.length_singleton]
      omega
    · rw [List.replicate_succ, List.cons_append, Fifo.answers, perform, dif_pos notFull]
      dsimp only
      rw [later, List.replicate_succ, List.cons_append]

end Fifo

namespace CircularQueue

theorem not_refines {α : Type} [Inhabited α] {capacity : Nat} (large : 2 ^ 31 ≤ capacity) (isUInt32 : capacity < 2 ^ 32) :
    ¬Refines α capacity := by
  intro refines
  by_cases noSlot : capacity + 1 = 2 ^ 32
  · obtain ⟨stale, same⟩ := refines (fun _ => default) [.size]
    have fails : answers [.size] (create capacity fun _ => (default : α)) = [.error .divisionByZero] := by
      have slots : (create capacity fun _ => (default : α)).slots = 0 := by rw [create, noSlot, Nat.mod_self]
      simp only [answers, perform, size, place, slots, if_true, bind, Except.bind]
    rw [fails] at same
    cases same
  · have slots : (create capacity fun _ => (default : α)).slots = capacity + 1 := Nat.mod_eq_of_lt (by omega)
    obtain ⟨stale, same⟩ := refines (fun _ => default) (List.replicate (2 ^ 32 - (capacity + 1)) (.push default) ++ [.size])
    obtain ⟨array, pushed⟩ := answers_pushes (create capacity fun _ => default) (2 ^ 32 - (capacity + 1)) (default : α) [.size] rfl
      (by omega) (show 0 + (2 ^ 32 - (capacity + 1)) < _ by omega)
    obtain ⟨stale', fifo, length, expected⟩ := Fifo.answers_pushes (.nil : Fifo α capacity) (2 ^ 32 - (capacity + 1)) stale default
      [.size] (show 0 + (2 ^ 32 - (capacity + 1)) ≤ capacity by omega)
    rw [pushed, expected] at same
    have differ := List.append_cancel_left same
    have isZero (slots' : Nat → α) : size { create capacity fun _ => (default : α) with
        first := (create capacity fun _ => (default : α)).first + (2 ^ 32 - (capacity + 1)), queue := slots' } = .ok 0 := by
      have sum : (0 + (2 ^ 32 - (capacity + 1)) + (capacity + 1) + 2 ^ 32 - 0) % 2 ^ 32 = 0 := by omega
      rw [size, place, if_neg (show ¬(create capacity fun _ => (default : α)).slots = 0 by omega)]
      dsimp only
      rw [slots]
      change Except.ok ((0 + (2 ^ 32 - (capacity + 1)) + (capacity + 1) + 2 ^ 32 - 0) % 2 ^ 32 % (capacity + 1)) = _
      rw [sum, Nat.zero_mod]
    have count : fifo.contents.length = 2 ^ 32 - (capacity + 1) := length.trans (Nat.zero_add _)
    simp only [answers, perform, isZero, bind, Except.bind, pure, Except.pure, Fifo.answers, Fifo.perform, count] at differ
    injection differ with first
    injection first with answer
    injection answer with number
    omega

/-- Bounded queues of fewer than 2^31 elements are implemented, and no others. -/
theorem refines_iff (α : Type) [Inhabited α] (capacity : UInt32) : Refines α capacity.toNat ↔ capacity.toNat < 2 ^ 31 := by
  constructor
  · intro refines
    by_contra large
    exact not_refines (Nat.le_of_not_lt large) capacity.toNat_lt refines
  · intro small fresh operations
    exact (Represents.create small fresh).answers small operations

/-- A queue for 2^32 - 2 elements is empty with one. -/
theorem large_queue_empty : ¬ ∀ capacity : UInt32, Refines Nat capacity.toNat := by
  intro refines
  obtain ⟨stale, same⟩ := refines 4294967294 (fun _ => 0) [.push 7, .size]
  have zero : answers [.push 7, .size] (create 4294967294 fun _ => 0) = [.ok .done, .ok (.number 0)] := by rfl
  have one : Fifo.answers stale [.push 7, .size] (.nil : Fifo Nat 4294967294) = [.ok .done, .ok (.number 1)] := by rfl
  have differ := (zero.symm.trans same).trans one
  cases differ

end CircularQueue

end Sniper

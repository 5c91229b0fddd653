import Sniper.System.FutexMoves
import Mathlib.Logic.Function.Iterate

/-! The futex queues over whole runs: no waiter is lost and none is woken twice. -/

namespace Sniper.System.Futex

open WaitQueue (Located Sleeping)

inductive Place (Address : Type) where
  | futex (address : Address)
  | sleeping
deriving DecidableEq, Repr

variable {Thread Address Uaddr : Type}

def queue (state : State Thread Address) : Place Address → List Thread
  | .futex address => (state.waiting address).map Waiter.thread
  | .sleeping => state.sleeping.map Waiter.thread

theorem find?_split {wanted : Waiter Thread → Bool} {list : List (Waiter Thread)} {waiter : Waiter Thread}
    (found : list.find? wanted = some waiter) :
    ∃ front back, list = front ++ waiter :: back ∧ list.eraseP wanted = front ++ back := by
  obtain ⟨holds, front, back, split, before⟩ := List.find?_eq_some_iff_append.mp found
  refine ⟨front, back, split, ?_⟩
  have refused : ∀ other ∈ front, ¬wanted other = true := fun other member => by simpa using before other member
  rw [split, List.eraseP_append_right _ refused, List.eraseP_cons_of_pos holds]

theorem filter_eraseP (wanted : Waiter Thread → Bool) (list : List (Waiter Thread)) :
    (list.eraseP wanted).filter wanted = (list.filter wanted).tail := by
  induction list with
  | nil => rfl
  | cons waiter rest ih =>
    cases wants : wanted waiter with
    | true => simp [wants]
    | false => simp [wants, ih]

section Locations

variable [DecidableEq Thread] [DecidableEq Address] {state : State Thread Address}
variable {location : Thread → Option (Place Address)} {thread : Thread} {address : Address}

structure Invariant (state : State Thread Address) (location : Thread → Option (Place Address)) : Prop where
  located : Located (queue state) location
  sleeping : Sleeping state.stalled state.stalls (fun thread => state.resumed.count thread) location

omit [DecidableEq Thread] in
theorem queue_waiting (address : Address) (waiters : List (Waiter Thread)) :
    queue { state with waiting := Function.update state.waiting address waiters } =
      Function.update (queue state) (.futex address) (waiters.map Waiter.thread) := by
  funext place
  cases place with
  | futex other =>
    by_cases same : other = address
    · subst same
      simp [queue]
    · simp [queue, same]
  | sleeping => rfl

omit [DecidableEq Thread] in
theorem queue_sleeping (waiters : List (Waiter Thread)) :
    queue { state with sleeping := waiters } =
      Function.update (queue state) .sleeping (waiters.map Waiter.thread) := by
  funext place
  cases place with
  | futex other => simp [queue]
  | sleeping => simp [queue]

omit [DecidableEq Address] in
theorem count_resumed (resumed : List Thread) (thread : Thread) :
    (fun other => (resumed ++ [thread]).count other) =
      Function.update (fun other => resumed.count other) thread (resumed.count thread + 1) := by
  funext other
  by_cases same : other = thread
  · subst same
    simp
  · have different : thread ≠ other := fun equal => same equal.symm
    simp [same, different]

theorem Invariant.findFutex (holds : Invariant state location) (address : Address) :
    Invariant (findFutex address state) location := by
  unfold Futex.findFutex
  split
  case isTrue => exact holds
  case isFalse => exact ⟨holds.located, holds.sleeping⟩

theorem Invariant.enqueueWaiter (holds : Invariant state location) (address : Address) {waiter : Waiter Thread}
    (awake : state.stalled waiter.thread = false) :
    Invariant (enqueueWaiter address waiter state) (Function.update location waiter.thread (some (.futex address))) := by
  have pushed := holds.located.push (.futex address) (holds.sleeping.nowhere awake)
  have joined : queue state (.futex address) ++ [waiter.thread] =
      (state.waiting address ++ [waiter]).map Waiter.thread := by
    rw [List.map_append]
    rfl
  rw [joined, ← queue_waiting] at pushed
  exact ⟨pushed, holds.sleeping.stall awake (.futex address)⟩

theorem Invariant.resumeThread {other : State Thread Address}
    (located : Located (queue other) (Function.update location thread none))
    (sleeping : Sleeping other.stalled other.stalls (fun thread => other.resumed.count thread) location)
    (waits : location thread ≠ none) : Invariant (resumeThread thread other) (Function.update location thread none) := by
  refine ⟨located, ?_⟩
  have woken := sleeping.resume waits
  rw [← count_resumed] at woken
  exact woken

theorem Invariant.wakeFirst (holds : Invariant state location) {wanted : Waiter Thread → Bool} {next : State Thread Address}
    (woken : wakeFirst wanted address state = some next) : ∃ location, Invariant next location := by
  unfold Futex.wakeFirst at woken
  split at woken
  case h_1 => cases woken
  case h_2 waiter found =>
    cases woken
    obtain ⟨front, back, split, erased⟩ := find?_split found
    have here : queue state (.futex address) = front.map Waiter.thread ++ waiter.thread :: back.map Waiter.thread := by
      simp [queue, split]
    have waits : location waiter.thread ≠ none := by
      have member : waiter.thread ∈ queue state (.futex address) := by simp [here]
      rw [holds.located.mem_iff] at member
      simp [member]
    have removed := holds.located.remove here
    rw [← List.map_append, ← erased, ← queue_waiting] at removed
    exact ⟨_, Invariant.resumeThread removed holds.sleeping waits⟩

theorem Invariant.wakeSleeping (holds : Invariant state location) (time : Nat) :
    ∃ location, Invariant (wakeSleeping time state) location := by
  unfold Futex.wakeSleeping
  split
  case h_1 => exact ⟨location, holds⟩
  case h_2 waiter found =>
    obtain ⟨front, back, split, erased⟩ := find?_split found
    have here : queue state .sleeping = front.map Waiter.thread ++ waiter.thread :: back.map Waiter.thread := by
      simp [queue, split]
    have waits : location waiter.thread ≠ none := by
      have member : waiter.thread ∈ queue state .sleeping := by simp [here]
      rw [holds.located.mem_iff] at member
      simp [member]
    have removed := holds.located.remove here
    rw [← List.map_append, ← erased, ← queue_sleeping] at removed
    exact ⟨_, Invariant.resumeThread removed holds.sleeping waits⟩

theorem Invariant.requeueWaiter (holds : Invariant state location) (address address2 : Address) :
    ∃ location, Invariant (requeueWaiter address address2 state) location := by
  unfold Futex.requeueWaiter
  split
  case h_1 => exact ⟨location, holds⟩
  case h_2 waiter rest first =>
    have front : queue state (.futex address) = waiter.thread :: rest.map Waiter.thread := by simp [queue, first]
    have waits : location waiter.thread ≠ none := by
      have member : waiter.thread ∈ queue state (.futex address) := by simp [front]
      rw [holds.located.mem_iff] at member
      simp [member]
    have popped := holds.located.pop front
    rw [← queue_waiting] at popped
    have nowhere : Function.update location waiter.thread none waiter.thread = none := by simp
    have pushed := popped.push (.futex address2) nowhere
    have joined : queue { state with waiting := Function.update state.waiting address rest } (.futex address2) ++
        [waiter.thread] = (Function.update state.waiting address rest address2 ++ [waiter]).map Waiter.thread := by
      rw [List.map_append]
      rfl
    rw [joined, ← queue_waiting] at pushed
    exact ⟨_, pushed, holds.sleeping.move waits (.futex address2)⟩

theorem Invariant.handleSleepCall (holds : Invariant state location) (awake : state.stalled thread = false) (wakeTime : Nat) :
    Invariant (handleSleepCall thread wakeTime state) (Function.update location thread (some .sleeping)) := by
  have pushed := holds.located.push .sleeping (holds.sleeping.nowhere awake)
  have joined : queue state .sleeping ++ [thread] =
      (state.sleeping ++ [(⟨thread, 0, wakeTime⟩ : Waiter Thread)]).map Waiter.thread := by
    rw [List.map_append]
    rfl
  rw [joined, ← queue_sleeping] at pushed
  exact ⟨pushed, holds.sleeping.stall awake .sleeping⟩

theorem Invariant.move {next : State Thread Address} (holds : Invariant state location) (move : Move state next) :
    ∃ location, Invariant next location := by
  cases move with
  | find address => exact ⟨location, holds.findFutex address⟩
  | enqueue awake _ => exact ⟨_, holds.enqueueWaiter _ awake⟩
  | wake woken => exact holds.wakeFirst woken
  | requeue address _ => exact holds.requeueWaiter address _
  | wakeSleeping time => exact holds.wakeSleeping time
  | sleep wakeTime awake => exact ⟨_, holds.handleSleepCall awake wakeTime⟩

theorem Invariant.step [DecidableEq Uaddr] {va2pa : Thread → Uaddr → Address} {label : Label Thread Address Uaddr}
    {next : State Thread Address} (holds : Invariant state location) (stepped : (machine va2pa).step state label = .ok next) :
    ∃ location, Invariant next location :=
  @Moves.keep _ _ _ _ _ _ (fun state => ∃ location, Invariant state location) (fun move ⟨_, holds⟩ => holds.move move)
    (Moves.step stepped) ⟨location, holds⟩

theorem Invariant.of_reachable [DecidableEq Uaddr] {va2pa : Thread → Uaddr → Address} (reached : (machine va2pa).Reachable state) :
    ∃ location, Invariant state location := by
  refine Machine.Reach.invariant (fun state => ∃ location, Invariant state location) ?_ ?_ reached
  · rintro state rfl
    refine ⟨fun _ => none, ?_, fun _ => rfl, fun _ => rfl⟩
    intro thread place
    cases place <;> rfl
  · rintro state label next ⟨location, holds⟩ _ stepped
    exact holds.step stepped

end Locations

section Order

variable [DecidableEq Thread] [DecidableEq Address]

/-- The waiters that a wakeup of so many takes: the first of those whose masks match. -/
def woken (mask : BitVec 32) (count : Nat) (list : List (Waiter Thread)) : List (Waiter Thread) :=
  (list.filter (Waiter.matches mask)).take count

def left (mask : BitVec 32) (count : Nat) (list : List (Waiter Thread)) : List (Waiter Thread) :=
  (fun list => list.eraseP (Waiter.matches mask))^[(woken mask count list).length] list

omit [DecidableEq Thread] in
theorem left_sublist (mask : BitVec 32) (count : Nat) (list : List (Waiter Thread)) : (left mask count list).Sublist list := by
  unfold left
  generalize (woken mask count list).length = turns
  induction turns generalizing list with
  | zero => exact List.Sublist.refl list
  | succ turns ih => exact (ih _).trans List.eraseP_sublist

omit [DecidableEq Thread] in
theorem findFutex_waiting (address : Address) (state : State Thread Address) :
    (findFutex address state).waiting = state.waiting ∧ (findFutex address state).resumed = state.resumed := by
  unfold findFutex
  split <;> exact ⟨rfl, rfl⟩

section Succ

variable {mask : BitVec 32} {count : Nat} {list : List (Waiter Thread)} {waiter : Waiter Thread}

omit [DecidableEq Thread] in
theorem woken_succ (found : list.find? (Waiter.matches mask) = some waiter) :
    woken mask (count + 1) list = waiter :: woken mask count (list.eraseP (Waiter.matches mask)) := by
  have front : (list.filter (Waiter.matches mask)).head? = some waiter := List.head?_filter.trans found
  obtain ⟨rest, split⟩ := List.head?_eq_some_iff.mp front
  have first : list.filter (Waiter.matches mask) = waiter :: (list.eraseP (Waiter.matches mask)).filter (Waiter.matches mask) := by
    rw [filter_eraseP, split, List.tail_cons]
  simp [woken, first]

omit [DecidableEq Thread] in
theorem left_succ (found : list.find? (Waiter.matches mask) = some waiter) :
    left mask (count + 1) list = left mask count (list.eraseP (Waiter.matches mask)) := by
  simp only [left, woken_succ found, List.length_cons, Function.iterate_succ, Function.comp]

omit [DecidableEq Thread] in
theorem woken_none (nobody : list.find? (Waiter.matches mask) = none) :
    woken mask count list = [] ∧ left mask count list = list := by
  have empty : list.filter (Waiter.matches mask) = [] :=
    List.head?_eq_none_iff.mp (List.head?_filter.trans nobody)
  simp [woken, left, empty]

end Succ

theorem wakeUpTo_spec (mask : BitVec 32) (address : Address) (count : Nat) (state : State Thread Address) :
    (wakeUpTo mask address count state).2 = (woken mask count (state.waiting address)).length ∧
    (wakeUpTo mask address count state).1.resumed =
      state.resumed ++ (woken mask count (state.waiting address)).map Waiter.thread ∧
    (wakeUpTo mask address count state).1.waiting =
      Function.update state.waiting address (left mask count (state.waiting address)) := by
  induction count generalizing state with
  | zero => simp [wakeUpTo, woken, left]
  | succ count ih =>
    cases found : (state.waiting address).find? (Waiter.matches mask) with
    | none =>
      obtain ⟨nobody, same⟩ := @woken_none _ mask (count + 1) _ found
      simp [wakeUpTo, dequeueWaiter, wakeFirst, found, nobody, same]
    | some waiter =>
      have taken := @woken_succ _ mask count _ _ found
      have behind := @left_succ _ mask count _ _ found
      obtain ⟨counted, resumed, waiting⟩ := ih (resumeThread waiter.thread { state with
        waiting := Function.update state.waiting address ((state.waiting address).eraseP (Waiter.matches mask)) })
      simp only [resumeThread, Function.update_self, Function.update_idem] at counted resumed waiting
      simp only [wakeUpTo, dequeueWaiter, wakeFirst, found, resumeThread, taken]
      refine ⟨by rw [counted]; rfl, by rw [resumed]; simp, ?_⟩
      rw [waiting, behind]

omit [DecidableEq Thread] in
theorem requeueWithin_spec {address address2 : Address} (different : address ≠ address2) (turns : Nat)
    (state : State Thread Address) (enough : (state.waiting address).length ≤ turns) :
    (requeueWithin address address2 turns state).waiting address = [] ∧
    (requeueWithin address address2 turns state).waiting address2 = state.waiting address2 ++ state.waiting address ∧
    (requeueWithin address address2 turns state).resumed = state.resumed := by
  have other : address2 ≠ address := fun equal => different equal.symm
  induction turns generalizing state with
  | zero =>
    have empty := List.length_eq_zero_iff.mp (Nat.le_zero.mp enough)
    simp [requeueWithin, empty]
  | succ turns ih =>
    unfold requeueWithin
    split
    case isTrue empty => simp [List.isEmpty_iff.mp empty]
    case isFalse occupied =>
      cases first : state.waiting address with
      | nil => simp [first] at occupied
      | cons waiter rest =>
        have moved : requeueWaiter address address2 state =
            { state with
              waiting :=
                Function.update (Function.update state.waiting address rest) address2
                  (state.waiting address2 ++ [waiter]) } := by
          simp [requeueWaiter, first, other]
        rw [first] at enough
        have shorter : ((requeueWaiter address address2 state).waiting address).length ≤ turns := by
          rw [moved]
          simpa [different] using enough
        obtain ⟨emptied, appended, resumed⟩ := ih (requeueWaiter address address2 state) shorter
        refine ⟨emptied, ?_, ?_⟩
        · rw [appended, moved]
          simp [different]
        · rw [resumed, moved]

end Order

section Runs

variable [DecidableEq Thread] [DecidableEq Address] [DecidableEq Uaddr] {state : State Thread Address}

/-- What holds of the futexes in every state of every run. -/
structure Right (state : State Thread Address) : Prop where
  /-- A thread that sleeps is in exactly one queue, once. -/
  waiting : ∀ thread, state.stalled thread = true →
    ∃ place, (queue state place).count thread = 1 ∧ ∀ other, other ≠ place → thread ∉ queue state other
  running : ∀ thread, state.stalled thread = false → ∀ place, thread ∉ queue state place
  /-- Each wait is ended by one resumption, unless it still goes on. -/
  resumed : ∀ thread, state.stalls thread = state.resumed.count thread + (state.stalled thread).toNat
  wake : ∀ address nrWake mask next count, futexWake address nrWake mask state = (next, count) →
    count ≤ nrWake.toNat ∧ count = (woken mask nrWake.toNat (state.waiting address)).length ∧
    next.resumed = state.resumed ++ (woken mask nrWake.toNat (state.waiting address)).map Waiter.thread ∧
    next.waiting = Function.update state.waiting address (left mask nrWake.toNat (state.waiting address))
  wakeOp : ∀ address address2 nrWake nrWake2 op oldval next count,
    futexWakeOp address address2 nrWake nrWake2 op oldval state = .ok (next, count) →
    count ≤ nrWake.toNat + nrWake2.toNat ∧ ∃ threads, threads.length = count ∧ next.resumed = state.resumed ++ threads
  requeue : ∀ address val address2 val3 actVal next count, address ≠ address2 →
    futexCmpRequeue address val address2 val3 actVal state = .ok (next, some count) →
    count = (woken matchAny val.toNat (state.waiting address)).length ∧
    next.resumed = state.resumed ++ (woken matchAny val.toNat (state.waiting address)).map Waiter.thread ∧
    next.waiting address = [] ∧
    next.waiting address2 = state.waiting address2 ++ left matchAny val.toNat (state.waiting address) ∧
    (left matchAny val.toNat (state.waiting address)).Sublist (state.waiting address)

omit [DecidableEq Thread] [DecidableEq Address] in
theorem length_woken (mask : BitVec 32) (count : Nat) (list : List (Waiter Thread)) : (woken mask count list).length ≤ count :=
  List.length_take_le count _

theorem futexWakeOp_counts {address address2 : Address} {nrWake nrWake2 : Int} {op oldval : BitVec 32}
    {next : State Thread Address} {count : Nat}
    (performed : futexWakeOp address address2 nrWake nrWake2 op oldval state = .ok (next, count)) :
    count ≤ nrWake.toNat + nrWake2.toNat ∧ ∃ threads, threads.length = count ∧ next.resumed = state.resumed ++ threads := by
  have start := findFutex_waiting address2 (findFutex address state)
  have earlier := findFutex_waiting address state
  obtain ⟨counted, resumed, -⟩ := wakeUpTo_spec matchAny address nrWake.toNat (findFutex address2 (findFutex address state))
  rw [start.2, earlier.2] at resumed
  have few := length_woken matchAny nrWake.toNat ((findFutex address2 (findFutex address state)).waiting address)
  unfold futexWakeOp at performed
  split at performed
  case h_1 => cases performed
  case h_2 opRet done =>
    dsimp only at performed
    split at performed
    case isTrue =>
      cases performed
      generalize wakeUpTo matchAny address nrWake.toNat (findFutex address2 (findFutex address state)) = first at *
      obtain ⟨counted2, resumed2, -⟩ := wakeUpTo_spec matchAny address2 nrWake2.toNat first.1
      have few2 := length_woken matchAny nrWake2.toNat (first.1.waiting address2)
      refine ⟨by omega, _, ?_, by rw [resumed2, resumed, List.append_assoc]⟩
      rw [List.length_append, List.length_map, List.length_map]
      omega
    case isFalse =>
      cases performed
      exact ⟨by omega, _, by rw [List.length_map, counted], resumed⟩

theorem futexCmpRequeue_moves {address address2 : Address} {val : Int} {val3 actVal : BitVec 32}
    {next : State Thread Address} {count : Nat} (different : address ≠ address2)
    (requeued : futexCmpRequeue address val address2 val3 actVal state = .ok (next, some count)) :
    count = (woken matchAny val.toNat (state.waiting address)).length ∧
    next.resumed = state.resumed ++ (woken matchAny val.toNat (state.waiting address)).map Waiter.thread ∧
    next.waiting address = [] ∧
    next.waiting address2 = state.waiting address2 ++ left matchAny val.toNat (state.waiting address) := by
  have start := findFutex_waiting address state
  obtain ⟨counted, resumed, waiting⟩ := wakeUpTo_spec matchAny address val.toNat (findFutex address state)
  rw [start.1] at counted resumed waiting
  rw [start.2] at resumed
  unfold futexCmpRequeue at requeued
  dsimp only at requeued
  split at requeued
  case isTrue => cases requeued
  case isFalse =>
    split at requeued
    case isTrue => cases requeued
    case isFalse =>
      cases requeued
      generalize wakeUpTo matchAny address val.toNat (findFutex address state) = first at *
      have known := findFutex_waiting address2 first.1
      obtain ⟨emptied, appended, kept⟩ := requeueWithin_spec different _ (findFutex address2 first.1) (Nat.le_refl _)
      have there : (findFutex address2 first.1).waiting address2 = state.waiting address2 := by
        rw [known.1, waiting, Function.update_of_ne (Ne.symm different)]
      have here : (findFutex address2 first.1).waiting address = left matchAny val.toNat (state.waiting address) := by
        rw [known.1, waiting, Function.update_self]
      exact ⟨counted, by rw [kept, known.2, resumed], emptied, by rw [appended, there, here]⟩

theorem futex_right {va2pa : Thread → Uaddr → Address} (reached : (machine va2pa).Reachable state) : Right state := by
  obtain ⟨location, holds⟩ := Invariant.of_reachable reached
  constructor
  case waiting => exact fun thread asleep => holds.located.waiting holds.sleeping asleep
  case running => exact fun thread awake place => holds.located.running holds.sleeping awake place
  case resumed => exact holds.sleeping.ledger
  case wake =>
    intro address nrWake mask next count performed
    have start := findFutex_waiting address state
    obtain ⟨counted, resumed, waiting⟩ := wakeUpTo_spec mask address nrWake.toNat (findFutex address state)
    rw [futexWake] at performed
    rw [performed, start.1] at counted resumed waiting
    rw [start.2] at resumed
    refine ⟨?_, counted, resumed, waiting⟩
    rw [show count = _ from counted]
    exact length_woken mask nrWake.toNat (state.waiting address)
  case wakeOp => exact fun _ _ _ _ _ _ _ _ performed => futexWakeOp_counts performed
  case requeue =>
    intro address val address2 val3 actVal next count different requeued
    obtain ⟨counted, resumed, emptied, appended⟩ := futexCmpRequeue_moves different requeued
    exact ⟨counted, resumed, emptied, appended, left_sublist matchAny val.toNat (state.waiting address)⟩

end Runs

/-- Three threads wait on one futex, one is woken, one of the others is timed out after a requeue. -/
theorem futex_right_requeued :
    ∃ state : State Nat Nat, (machine fun (_ : Nat) (uaddr : Nat) => uaddr).Reachable state ∧
      state.resumed = [0, 2] ∧ state.stalled 1 = true ∧ Right state := by
  obtain ⟨state, ran, resumed, asleep⟩ : ∃ state : State Nat Nat, (machine fun (_ : Nat) (uaddr : Nat) => uaddr).run start
      [.call 0 (.wait 8 1 1 matchAny 100), .call 1 (.wait 8 1 1 matchAny 300), .call 2 (.wait 8 1 1 matchAny 200),
        .call 3 (.cmpRequeue 8 1 16 1 1), .periodic 250 [16, 8]] = .ok state ∧
      state.resumed = [0, 2] ∧ state.stalled 1 = true := ⟨_, rfl, rfl, rfl⟩
  have starts : (machine fun (_ : Nat) (uaddr : Nat) => uaddr).initial start := rfl
  have reached := Machine.Reachable.run (.initial starts) ran
  exact ⟨state, reached, resumed, asleep, futex_right reached⟩

end Sniper.System.Futex

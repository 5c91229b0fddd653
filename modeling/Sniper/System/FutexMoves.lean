import Sniper.System.Futex
import Sniper.Library.Outcome
import Mathlib.Logic.Relation

/-! What one step of the futexes can do: every call and every periodic visit is a sequence of a few moves. -/

namespace Sniper.System.Futex

variable {Thread Address Uaddr : Type} [DecidableEq Thread] [DecidableEq Address]

inductive Move : State Thread Address → State Thread Address → Prop where
  | find {state : State Thread Address} (address : Address) : Move state (findFutex address state)
  | enqueue {state : State Thread Address} {address : Address} {waiter : Waiter Thread} :
      state.stalled waiter.thread = false → address ∈ state.known → Move state (enqueueWaiter address waiter state)
  | wake {state next : State Thread Address} {wanted : Waiter Thread → Bool} {address : Address} :
      wakeFirst wanted address state = some next → Move state next
  | requeue {state : State Thread Address} (address : Address) {address2 : Address} :
      address2 ∈ state.known → Move state (requeueWaiter address address2 state)
  | wakeSleeping {state : State Thread Address} (time : Nat) : Move state (wakeSleeping time state)
  | sleep {state : State Thread Address} {thread : Thread} (wakeTime : Nat) :
      state.stalled thread = false → Move state (handleSleepCall thread wakeTime state)

def Moves : State Thread Address → State Thread Address → Prop := Relation.ReflTransGen Move

variable {state next : State Thread Address} {thread : Thread} {address address2 : Address}

namespace Moves

theorem refl (state : State Thread Address) : Moves state state := Relation.ReflTransGen.refl

theorem single (move : Move state next) : Moves state next := Relation.ReflTransGen.single move

theorem trans {last : State Thread Address} (first : Moves state next) (second : Moves next last) : Moves state last :=
  Relation.ReflTransGen.trans first second

theorem keep {holds : State Thread Address → Prop} (kept : ∀ {state next}, Move state next → holds state → holds next)
    (moves : Moves state next) (before : holds state) : holds next := by
  induction moves with
  | refl => exact before
  | tail _ move ih => exact kept move ih

theorem find (address : Address) (state : State Thread Address) : Moves state (findFutex address state) :=
  single (.find address)

end Moves

omit [DecidableEq Thread] in
theorem mem_known_findFutex (address : Address) (state : State Thread Address) : address ∈ (findFutex address state).known := by
  unfold findFutex
  split
  case isTrue known => exact known
  case isFalse => simp

theorem Moves.wakeUpTo (mask : BitVec 32) (address : Address) (count : Nat) (state : State Thread Address) :
    Moves state (wakeUpTo mask address count state).1 := by
  induction count generalizing state with
  | zero => exact .refl state
  | succ count ih =>
    unfold Futex.wakeUpTo
    split
    case h_1 => exact .refl state
    case h_2 next woken => exact (Moves.single (.wake woken)).trans (ih next)

theorem Moves.requeueWithin (turns : Nat) (known : address2 ∈ state.known) :
    Moves state (requeueWithin address address2 turns state) := by
  induction turns generalizing state with
  | zero => exact .refl state
  | succ turns ih =>
    have still : address2 ∈ (requeueWaiter address address2 state).known := by
      unfold requeueWaiter
      split <;> exact known
    unfold Futex.requeueWithin
    split
    case isTrue => exact .refl state
    case isFalse => exact (Moves.single (.requeue address known)).trans (ih still)

theorem Moves.futexWait {val actVal mask : BitVec 32} {timeout : Nat} (awake : state.stalled thread = false) :
    Moves state (futexWait thread address val actVal mask timeout state) := by
  have found := Moves.find address state
  have still : (findFutex address state).stalled thread = false := by
    unfold findFutex
    split <;> exact awake
  unfold Futex.futexWait
  dsimp only
  split
  case isTrue => exact found
  case isFalse => exact found.trans (.single (.enqueue still (mem_known_findFutex address state)))

theorem Moves.futexWakeOp {nrWake nrWake2 : Int} {op oldval : BitVec 32} {result : State Thread Address × Nat}
    (woken : futexWakeOp address address2 nrWake nrWake2 op oldval state = .ok result) : Moves state result.1 := by
  have found := (Moves.find address state).trans (Moves.find address2 _)
  have first := found.trans (Moves.wakeUpTo matchAny address nrWake.toNat _)
  unfold Futex.futexWakeOp at woken
  split at woken
  case h_1 => cases woken
  case h_2 =>
    dsimp only at woken
    split at woken
    case isTrue =>
      cases woken
      exact first.trans (Moves.wakeUpTo matchAny address2 nrWake2.toNat _)
    case isFalse =>
      cases woken
      exact first

theorem Moves.futexCmpRequeue {val : Int} {val3 actVal : BitVec 32} {result : State Thread Address × Option Nat}
    (requeued : futexCmpRequeue address val address2 val3 actVal state = .ok result) : Moves state result.1 := by
  have found := Moves.find address state
  unfold Futex.futexCmpRequeue at requeued
  dsimp only at requeued
  split at requeued
  case isTrue =>
    cases requeued
    exact found
  case isFalse =>
    split at requeued
    case isTrue => cases requeued
    case isFalse =>
      cases requeued
      have first := (found.trans (Moves.wakeUpTo matchAny address val.toNat _)).trans (Moves.find address2 _)
      exact first.trans (Moves.requeueWithin _ (mem_known_findFutex address2 _))

theorem Moves.foldl_wakeTimedOut (time : Nat) (order : List Address) (state : State Thread Address) :
    Moves state (order.foldl (wakeTimedOut time) state) := by
  induction order generalizing state with
  | nil => exact .refl state
  | cons address rest ih =>
    refine Moves.trans ?_ (ih (wakeTimedOut time state address))
    unfold wakeTimedOut
    cases woken : wakeFirst (Waiter.timedOut time) address state with
    | none => exact .refl state
    | some next => exact .single (.wake woken)

theorem Moves.futexPeriodic {time : Nat} {order : List Address} (woken : futexPeriodic time order state = .ok next) :
    Moves state next := by
  unfold Futex.futexPeriodic at woken
  split at woken
  case isFalse => cases woken
  case isTrue =>
    cases woken
    exact (Moves.single (.wakeSleeping time)).trans (Moves.foldl_wakeTimedOut time order _)

variable [DecidableEq Uaddr] {va2pa : Thread → Uaddr → Address}

theorem Moves.perform (awake : state.stalled thread = false) {call : Call Uaddr}
    (performed : perform va2pa thread state call = .ok next) : Moves state next := by
  cases call with
  | wait uaddr val actVal mask timeout =>
    cases performed
    exact Moves.futexWait awake
  | wake uaddr nrWake mask =>
    cases performed
    exact (Moves.find (va2pa thread uaddr) state).trans (Moves.wakeUpTo mask _ nrWake.toNat _)
  | wakeOp uaddr uaddr2 nrWake nrWake2 op oldval =>
    obtain ⟨_, woken, rfl⟩ := map_eq_ok performed
    exact Moves.futexWakeOp woken
  | cmpRequeue uaddr val uaddr2 val3 actVal =>
    simp only [Futex.perform] at performed
    split at performed
    case isTrue => cases performed
    case isFalse =>
      obtain ⟨_, requeued, rfl⟩ := map_eq_ok performed
      exact Moves.futexCmpRequeue requeued
  | sleep wakeTime =>
    cases performed
    exact .single (.sleep wakeTime awake)

theorem Moves.step {label : Label Thread Address Uaddr} (stepped : (machine va2pa).step state label = .ok next) :
    Moves state next := by
  cases label with
  | call thread call =>
    simp only [machine] at stepped
    split at stepped
    case isTrue => cases stepped
    case isFalse awake => exact Moves.perform (by simpa using awake) stepped
  | periodic time order => exact Moves.futexPeriodic stepped

end Sniper.System.Futex

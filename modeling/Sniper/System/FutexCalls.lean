import Sniper.System.FutexQueues
import Mathlib.Algebra.Ring.Int.Defs
import Mathlib.Algebra.Ring.Nat

/-! `handleFutexCall`: the commands of the futex system call, and what `FUTEX_WAKE_BITSET` makes of its mask.

Times are in femtoseconds, in 64 bits. -/

namespace Sniper.System.Futex

/-! ## The system call -/

def futexWaitCommand : BitVec 32 := 0
def futexWakeCommand : BitVec 32 := 1
def futexCmpRequeueCommand : BitVec 32 := 4
def futexWakeOpCommand : BitVec 32 := 5
def futexWaitBitset : BitVec 32 := 9
def futexWakeBitset : BitVec 32 := 10

/-- `FUTEX_PRIVATE_FLAG` -/
def privateFlag : BitVec 32 := 128

/-- `FUTEX_CMD_MASK`: all but `FUTEX_PRIVATE_FLAG` and `FUTEX_CLOCK_REALTIME`. -/
def cmdMask : BitVec 32 := ~~~(128 ||| 256)

/-- `SubsecondTime::MaxTime()` -/
def maxTime : Nat := 2 ^ 64 - 1

/-- `struct timespec`, of seconds and nanoseconds. -/
structure Timespec where
  tvSec : Int
  tvNsec : Int
deriving DecidableEq, Repr

/-- The conversion of a signed number to `uint64_t`. -/
def toUInt64 (value : Int) : Nat := (value % 2 ^ 64).toNat

/-- `SEC(tv_sec - getOSEmuTimeStart()) + NS(tv_nsec)` -/
def timeoutVal (osEmuTimeStart : Int) (timeout : Timespec) : Nat :=
  (toUInt64 (timeout.tvSec - osEmuTimeStart) * 10 ^ 15 % 2 ^ 64 + toUInt64 timeout.tvNsec * 10 ^ 6 % 2 ^ 64) % 2 ^ 64

/-- `timeout_time`; `none` stands for a null pointer. -/
def timeoutTime (osEmuTimeStart : Int) (cmd : BitVec 32) (currTime : Nat) : Option Timespec → Nat
  | none => maxTime
  | some timeout =>
    if cmd = futexWaitBitset then timeoutVal osEmuTimeStart timeout
    else (currTime + timeoutVal osEmuTimeStart timeout) % 2 ^ 64

/-- `futex_args_t`, with the timeout that stands at its address. -/
structure FutexArgs (Uaddr : Type) where
  uaddr : Uaddr
  op : BitVec 32
  val : BitVec 32
  timeout : Option Timespec
  val2 : BitVec 32
  uaddr2 : Uaddr
  val3 : BitVec 32

def FutexArgs.cmd (args : FutexArgs Uaddr) : BitVec 32 := args.op &&& cmdMask &&& ~~~privateFlag

inductive Result where
  /-- The caller gets its result when it is woken up. -/
  | waits
  | wokenUp (count : Nat)
  /-- `-EWOULDBLOCK` -/
  | wouldBlock
  /-- `-EAGAIN` -/
  | again
deriving DecidableEq, Repr

variable {Thread Address Uaddr : Type} [DecidableEq Thread] [DecidableEq Address] [DecidableEq Uaddr]

/-- `memory` is what `accessMemory` reads. -/
def handleFutexCall (va2pa : Thread → Uaddr → Address) (osEmuTimeStart : Int) (memory : Uaddr → BitVec 32) (thread : Thread)
    (args : FutexArgs Uaddr) (currTime : Nat) (state : State Thread Address) : Except Fault (State Thread Address × Result) :=
  let cmd := args.cmd
  let actVal := memory args.uaddr
  let address := va2pa thread args.uaddr
  if cmd = futexWaitCommand ∨ cmd = futexWaitBitset then
    let mask := if cmd = futexWaitBitset then args.val3 else matchAny
    let timeout := timeoutTime osEmuTimeStart cmd currTime args.timeout
    .ok (futexWait thread address args.val actVal mask timeout state, if args.val ≠ actVal then .wouldBlock else .waits)
  else if cmd = futexWakeCommand ∨ cmd = futexWakeBitset then
    -- The source compares with the command that waits.
    let mask := if cmd = futexWaitBitset then args.val3 else matchAny
    let (next, count) := futexWake address args.val.toInt mask state
    .ok (next, .wokenUp count)
  else if cmd = futexWakeOpCommand then
    (futexWakeOp address (va2pa thread args.uaddr2) args.val.toInt args.val2.toInt args.val3 (memory args.uaddr2) state).map
      fun (next, count) => (next, .wokenUp count)
  else if cmd = futexCmpRequeueCommand then
    if args.uaddr = args.uaddr2 then .error .sameAddress
    else (futexCmpRequeue address args.val.toInt (va2pa thread args.uaddr2) args.val3 actVal state).map
      fun (next, count) => (next, (count.map .wokenUp).getD .again)
  else .error .unhandledCommand

variable {va2pa : Thread → Uaddr → Address} {osEmuTimeStart : Int} {memory : Uaddr → BitVec 32} {thread : Thread}
variable {args : FutexArgs Uaddr} {currTime : Nat} {state next : State Thread Address} {result : Result}

theorem handleFutexCall_wait (isWait : args.cmd = futexWaitCommand ∨ args.cmd = futexWaitBitset) :
    handleFutexCall va2pa osEmuTimeStart memory thread args currTime state =
      .ok (futexWait thread (va2pa thread args.uaddr) args.val (memory args.uaddr)
          (if args.cmd = futexWaitBitset then args.val3 else matchAny)
          (timeoutTime osEmuTimeStart args.cmd currTime args.timeout) state,
        if args.val ≠ memory args.uaddr then .wouldBlock else .waits) :=
  if_pos isWait

theorem handleFutexCall_wake (isWake : args.cmd = futexWakeCommand ∨ args.cmd = futexWakeBitset) :
    handleFutexCall va2pa osEmuTimeStart memory thread args currTime state =
      .ok ((futexWake (va2pa thread args.uaddr) args.val.toInt matchAny state).1,
        .wokenUp (futexWake (va2pa thread args.uaddr) args.val.toInt matchAny state).2) := by
  have notWait : ¬(args.cmd = futexWaitCommand ∨ args.cmd = futexWaitBitset) := by
    rintro (same | same) <;> rw [same] at isWake <;> exact absurd isWake (by decide)
  have notBitset : args.cmd ≠ futexWaitBitset := fun same => notWait (.inr same)
  unfold handleFutexCall
  dsimp only
  rw [if_neg notWait, if_pos isWake, if_neg notBitset]

/-! ## `FUTEX_WAKE_BITSET` -/

section Masks

variable {mask : BitVec 32} {count : Nat} {list : List (Waiter Thread)} {waiter : Waiter Thread}

omit [DecidableEq Thread] in
theorem matches_matchAny (fits : waiter.matches mask = true) : waiter.matches matchAny = true := by
  unfold Waiter.matches at fits ⊢
  simp only [bne_iff_ne, ne_eq, matchAny, BitVec.allOnes_and] at fits ⊢
  intro none
  rw [none] at fits
  exact fits BitVec.and_zero

omit [DecidableEq Thread] in
theorem perm_woken_left (mask : BitVec 32) (count : Nat) (list : List (Waiter Thread)) :
    (woken mask count list ++ left mask count list).Perm list := by
  induction count generalizing list with
  | zero => exact List.Perm.refl list
  | succ count ih =>
    cases found : list.find? (Waiter.matches mask) with
    | none =>
      obtain ⟨nobody, same⟩ := @woken_none _ mask (count + 1) _ found
      rw [nobody, same]
      exact List.Perm.refl list
    | some waiter =>
      obtain ⟨front, back, split, erased⟩ := find?_split found
      rw [woken_succ found, left_succ found, List.cons_append]
      have rest := (ih (list.eraseP (Waiter.matches mask))).cons waiter
      rw [erased] at rest ⊢
      rw [split]
      exact rest.trans List.perm_middle.symm

omit [DecidableEq Thread] in
theorem woken_of_all (all : ∀ waiter ∈ woken matchAny count list, waiter.matches mask = true) :
    woken mask count list = woken matchAny count list ∧ left mask count list = left matchAny count list := by
  induction count generalizing list with
  | zero => exact ⟨rfl, rfl⟩
  | succ count ih =>
    cases found : list.find? (Waiter.matches matchAny) with
    | none =>
      have nobody : list.find? (Waiter.matches mask) = none := by
        rw [List.find?_eq_none] at found ⊢
        exact fun waiter member fits => found waiter member (matches_matchAny fits)
      obtain ⟨empty, same⟩ := @woken_none _ mask (count + 1) _ nobody
      obtain ⟨emptyAny, sameAny⟩ := @woken_none _ matchAny (count + 1) _ found
      exact ⟨empty.trans emptyAny.symm, same.trans sameAny.symm⟩
    | some waiter =>
      rw [woken_succ found] at all
      have fits := all waiter List.mem_cons_self
      obtain ⟨-, front, back, split, before⟩ := List.find?_eq_some_iff_append.mp found
      have refusedAny : ∀ other ∈ front, ¬other.matches matchAny = true := fun other member => by simpa using before other member
      have refused : ∀ other ∈ front, ¬other.matches mask = true :=
        fun other member matched => refusedAny other member (matches_matchAny matched)
      have foundMask : list.find? (Waiter.matches mask) = some waiter :=
        List.find?_eq_some_iff_append.mpr ⟨fits, front, back, split, fun other member => by simpa using refused other member⟩
      have erased : list.eraseP (Waiter.matches mask) = list.eraseP (Waiter.matches matchAny) := by
        rw [split, List.eraseP_append_right _ refused, List.eraseP_append_right _ refusedAny,
          List.eraseP_cons_of_pos fits, List.eraseP_cons_of_pos (matches_matchAny fits)]
      obtain ⟨sameWoken, sameLeft⟩ := ih fun other member => all other (List.mem_cons_of_mem _ member)
      rw [woken_succ found, woken_succ foundMask, left_succ found, left_succ foundMask, erased]
      exact ⟨congrArg _ sameWoken, sameLeft⟩

end Masks

/-- The first waiters in the queue whose masks match are resumed and counted, and the others stay in order. -/
structure WakesSelected (address : Address) (count : Nat) (mask : BitVec 32) (state next : State Thread Address) (result : Result) :
    Prop where
  resumed : next.resumed = state.resumed ++ (woken mask count (state.waiting address)).map Waiter.thread
  waiting : next.waiting = Function.update state.waiting address (left mask count (state.waiting address))
  returned : result = .wokenUp (woken mask count (state.waiting address)).length

theorem futexWake_selects (address : Address) (nrWake : Int) (mask : BitVec 32) (state : State Thread Address) :
    WakesSelected address nrWake.toNat mask state (futexWake address nrWake mask state).1
      (.wokenUp (futexWake address nrWake mask state).2) := by
  have start := findFutex_waiting address state
  obtain ⟨counted, resumed, waiting⟩ := wakeUpTo_spec mask address nrWake.toNat (findFutex address state)
  rw [start.1] at counted resumed waiting
  rw [start.2] at resumed
  exact ⟨resumed, waiting, congrArg Result.wokenUp counted⟩

/-- `FUTEX_WAKE_BITSET` keeps to its mask exactly when the waiters that it would wake without one match it. -/
theorem wakeBitset_selects_iff (isWake : args.cmd = futexWakeBitset) :
    (∃ next result, handleFutexCall va2pa osEmuTimeStart memory thread args currTime state = .ok (next, result) ∧
      WakesSelected (va2pa thread args.uaddr) args.val.toInt.toNat args.val3 state next result) ↔
      ∀ waiter ∈ woken matchAny args.val.toInt.toNat (state.waiting (va2pa thread args.uaddr)), waiter.matches args.val3 = true := by
  rw [handleFutexCall_wake (.inr isWake)]
  obtain ⟨resumed, waiting, returned⟩ := futexWake_selects (va2pa thread args.uaddr) args.val.toInt matchAny state
  constructor
  · rintro ⟨next, result, handled, selects⟩ waiter member
    cases handled
    have sameLeft : left args.val3 args.val.toInt.toNat (state.waiting (va2pa thread args.uaddr)) =
        left matchAny args.val.toInt.toNat (state.waiting (va2pa thread args.uaddr)) := by
      have there := congrFun (selects.waiting.symm.trans waiting) (va2pa thread args.uaddr)
      rwa [Function.update_self, Function.update_self] at there
    have selected := perm_woken_left args.val3 args.val.toInt.toNat (state.waiting (va2pa thread args.uaddr))
    rw [sameLeft] at selected
    have sameWoken := (List.perm_append_right_iff _).mp
      ((perm_woken_left matchAny args.val.toInt.toNat (state.waiting (va2pa thread args.uaddr))).trans selected.symm)
    exact (List.mem_filter.mp (List.mem_of_mem_take (sameWoken.mem_iff.mp member))).2
  · intro all
    obtain ⟨sameWoken, sameLeft⟩ := woken_of_all all
    refine ⟨_, _, rfl, ?_⟩
    constructor
    case resumed => rw [resumed, sameWoken]
    case waiting => rw [waiting, sameLeft]
    case returned => rw [returned, sameWoken]

/-- A waiter with mask 1 is woken up by a call with mask 2. -/
theorem wakeBitset_ignores_mask : ¬∀ (args : FutexArgs Nat) (state : State Nat Nat), args.cmd = futexWakeBitset →
    ∃ next result, handleFutexCall (fun (_ : Nat) (uaddr : Nat) => uaddr) 0 (fun _ => 0) 1 args 0 state = .ok (next, result) ∧
      WakesSelected args.uaddr args.val.toInt.toNat args.val3 state next result := by
  intro all
  obtain ⟨next, result, handled, selects⟩ := all ⟨8, futexWakeBitset, 1, none, 0, 0, 2⟩
    (enqueueWaiter 8 ⟨0, 1, maxTime⟩ Futex.start) (by decide)
  have resumed := selects.resumed
  have handled' : handleFutexCall (fun (_ : Nat) (uaddr : Nat) => uaddr) 0 (fun _ => 0) 1 ⟨8, futexWakeBitset, 1, none, 0, 0, 2⟩ 0
      (enqueueWaiter 8 ⟨0, 1, maxTime⟩ Futex.start) =
        .ok ((futexWake 8 1 matchAny (enqueueWaiter 8 ⟨0, 1, maxTime⟩ Futex.start)).1, .wokenUp 1) := rfl
  rw [handled'] at handled
  cases handled
  exact absurd resumed (by decide)

theorem wakeBitset_selects_iff_twoWaiters :
    ∃ next result, handleFutexCall (fun (_ : Nat) (uaddr : Nat) => uaddr) 0 (fun _ => 0) 2
        ⟨8, futexWakeBitset ||| privateFlag, 1, none, 0, 0, 3⟩ 0
        (enqueueWaiter 8 ⟨1, 4, maxTime⟩ (enqueueWaiter 8 ⟨0, 1, maxTime⟩ Futex.start)) = .ok (next, result) ∧
      WakesSelected 8 1 3 (enqueueWaiter 8 ⟨1, 4, maxTime⟩ (enqueueWaiter 8 ⟨0, 1, maxTime⟩ Futex.start)) next result :=
  (wakeBitset_selects_iff (by decide)).mpr (by decide)

end Sniper.System.Futex

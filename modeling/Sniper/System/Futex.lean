import Sniper.Library.Machine
import Sniper.Library.WaitQueue

/-! The futexes of `SyscallServer`.

`stalls` and `resumed` are not in the source: they count for each thread how
often it was put to sleep, and list the threads in the order of their wakeups. -/

namespace Sniper.System.Futex

structure Waiter (Thread : Type) where
  thread : Thread
  mask : BitVec 32
  timeout : Nat
deriving DecidableEq, Repr

structure State (Thread Address : Type) where
  /-- The queues in `m_futexes`. -/
  waiting : Address → List (Waiter Thread)
  /-- The keys of `m_futexes`. -/
  known : List Address
  sleeping : List (Waiter Thread)
  stalled : Thread → Bool
  stalls : Thread → Nat
  resumed : List Thread

inductive Fault where
  /-- "op = 0x%x" -/
  | unhandledCommand
  /-- "futexWakeOp: unknown op = %d" -/
  | unknownOp
  /-- "futexWakeOp: unknown cmp = %d" -/
  | unknownCmp
  /-- "FUTEX_CMP_REQUEUE: uaddr == uaddr2 == %p" -/
  | sameAddress
  /-- The waiters are put back into the queue they come from, for ever. -/
  | endless
  /-- A stalled thread makes no calls. -/
  | blocked
  /-- The order is not one of an iteration over `m_futexes`. -/
  | order
deriving DecidableEq, Repr

/-- `FUTEX_BITSET_MATCH_ANY` -/
def matchAny : BitVec 32 := BitVec.allOnes 32

def Waiter.matches (mask : BitVec 32) (waiter : Waiter Thread) : Bool := mask &&& waiter.mask != 0

def Waiter.timedOut (time : Nat) (waiter : Waiter Thread) : Bool := waiter.timeout ≤ time

variable {Thread Address Uaddr : Type} [DecidableEq Thread] [DecidableEq Address]

/-- `findFutexByUaddr` makes the futex known. -/
def findFutex (address : Address) (state : State Thread Address) : State Thread Address :=
  if address ∈ state.known then state else { state with known := state.known ++ [address] }

def stallThread (thread : Thread) (state : State Thread Address) : State Thread Address :=
  { state with
    stalled := Function.update state.stalled thread true
    stalls := Function.update state.stalls thread (state.stalls thread + 1) }

def resumeThread (thread : Thread) (state : State Thread Address) : State Thread Address :=
  { state with
    stalled := Function.update state.stalled thread false
    resumed := state.resumed ++ [thread] }

def enqueueWaiter (address : Address) (waiter : Waiter Thread) (state : State Thread Address) : State Thread Address :=
  stallThread waiter.thread
    { state with waiting := Function.update state.waiting address (state.waiting address ++ [waiter]) }

/-- The first waiter of a futex that is wanted is erased and resumed. -/
def wakeFirst (wanted : Waiter Thread → Bool) (address : Address) (state : State Thread Address) :
    Option (State Thread Address) :=
  match (state.waiting address).find? wanted with
  | none => none
  | some waiter =>
    some (resumeThread waiter.thread
      { state with waiting := Function.update state.waiting address ((state.waiting address).eraseP wanted) })

/-- `SimFutex::dequeueWaiter`; `none` stands for `INVALID_THREAD_ID`. -/
def dequeueWaiter (mask : BitVec 32) (address : Address) (state : State Thread Address) : Option (State Thread Address) :=
  wakeFirst (Waiter.matches mask) address state

/-- A loop that wakes at most so many waiters, with `num_procs_woken_up`. -/
def wakeUpTo (mask : BitVec 32) (address : Address) : Nat → State Thread Address → State Thread Address × Nat
  | 0, state => (state, 0)
  | count + 1, state =>
    match dequeueWaiter mask address state with
    | none => (state, 0)
    | some next =>
      let (last, woken) := wakeUpTo mask address count next
      (last, woken + 1)

/-- `futexWait`; without a wait, the result is `-EWOULDBLOCK`. -/
def futexWait (thread : Thread) (address : Address) (val actVal : BitVec 32) (mask : BitVec 32) (timeout : Nat)
    (state : State Thread Address) : State Thread Address :=
  let state := findFutex address state
  if val ≠ actVal then state else enqueueWaiter address ⟨thread, mask, timeout⟩ state

def futexWake (address : Address) (nrWake : Int) (mask : BitVec 32) (state : State Thread Address) :
    State Thread Address × Nat :=
  wakeUpTo mask address nrWake.toNat (findFutex address state)

/-- `futexDoOp` on the value in memory: the value written back and the result of the comparison. -/
def futexDoOp (encodedOp oldval : BitVec 32) : Except Fault (BitVec 32 × Bool) :=
  let op := (encodedOp >>> 28 &&& 7).toNat
  let cmp := (encodedOp >>> 24 &&& 15).toNat
  let oparg := (encodedOp <<< 8).sshiftRight 20
  let cmparg := (encodedOp <<< 20).sshiftRight 20
  let oparg := if encodedOp.msb then 1#32 <<< (oparg.toNat % 32) else oparg
  let newval : Except Fault (BitVec 32) :=
    match op with
    | 0 => .ok oparg
    | 1 => .ok (oldval + oparg)
    | 2 => .ok (oldval ||| oparg)
    | 3 => .ok (oldval &&& ~~~oparg)
    | 4 => .ok (oldval ^^^ oparg)
    | _ => .error .unknownOp
  match newval with
  | .error fault => .error fault
  | .ok newval =>
    match cmp with
    | 0 => .ok (newval, oldval == cmparg)
    | 1 => .ok (newval, oldval != cmparg)
    | 2 => .ok (newval, oldval.slt cmparg)
    | 3 => .ok (newval, oldval.sle cmparg)
    | 4 => .ok (newval, cmparg.slt oldval)
    | 5 => .ok (newval, cmparg.sle oldval)
    | _ => .error .unknownCmp

def futexWakeOp (address address2 : Address) (nrWake nrWake2 : Int) (op oldval : BitVec 32)
    (state : State Thread Address) : Except Fault (State Thread Address × Nat) :=
  match futexDoOp op oldval with
  | .error fault => .error fault
  | .ok (_, opRet) =>
    let (first, woken) := wakeUpTo matchAny address nrWake.toNat (findFutex address2 (findFutex address state))
    if opRet then
      let (second, woken2) := wakeUpTo matchAny address2 nrWake2.toNat first
      .ok (second, woken + woken2)
    else .ok (first, woken)

def requeueWaiter (address address2 : Address) (state : State Thread Address) : State Thread Address :=
  match state.waiting address with
  | [] => state
  | waiter :: rest =>
    let popped := Function.update state.waiting address rest
    { state with waiting := Function.update popped address2 (popped address2 ++ [waiter]) }

/-- The loop of `futexCmpRequeue`, for as many turns as there are waiters. -/
def requeueWithin (address address2 : Address) : Nat → State Thread Address → State Thread Address
  | 0, state => state
  | turns + 1, state =>
    if (state.waiting address).isEmpty then state
    else requeueWithin address address2 turns (requeueWaiter address address2 state)

/-- `futexCmpRequeue`; `none` stands for `-EAGAIN`. -/
def futexCmpRequeue (address : Address) (val : Int) (address2 : Address) (val3 actVal : BitVec 32)
    (state : State Thread Address) : Except Fault (State Thread Address × Option Nat) :=
  let state := findFutex address state
  if val3 ≠ actVal then .ok (state, none)
  else
    let (first, woken) := wakeUpTo matchAny address val.toNat state
    let first := findFutex address2 first
    if address = address2 ∧ first.waiting address ≠ [] then .error .endless
    else .ok (requeueWithin address address2 (first.waiting address).length first, some woken)

def wakeTimedOut (time : Nat) (state : State Thread Address) (address : Address) : State Thread Address :=
  (wakeFirst (Waiter.timedOut time) address state).getD state

/-- The first part of `futexPeriodic`. -/
def wakeSleeping (time : Nat) (state : State Thread Address) : State Thread Address :=
  match state.sleeping.find? (Waiter.timedOut time) with
  | none => state
  | some waiter => resumeThread waiter.thread { state with sleeping := state.sleeping.eraseP (Waiter.timedOut time) }

/-- `futexPeriodic`, which visits the futexes in some order. -/
def futexPeriodic (time : Nat) (order : List Address) (state : State Thread Address) : Except Fault (State Thread Address) :=
  if order.isPerm state.known then .ok (order.foldl (wakeTimedOut time) (wakeSleeping time state)) else .error .order

def handleSleepCall (thread : Thread) (wakeTime : Nat) (state : State Thread Address) : State Thread Address :=
  stallThread thread { state with sleeping := state.sleeping ++ [⟨thread, 0, wakeTime⟩] }

inductive Call (Uaddr : Type) where
  | wait (uaddr : Uaddr) (val actVal mask : BitVec 32) (timeout : Nat)
  | wake (uaddr : Uaddr) (nrWake : Int) (mask : BitVec 32)
  | wakeOp (uaddr uaddr2 : Uaddr) (nrWake nrWake2 : Int) (op oldval : BitVec 32)
  | cmpRequeue (uaddr : Uaddr) (val : Int) (uaddr2 : Uaddr) (val3 actVal : BitVec 32)
  | sleep (wakeTime : Nat)

inductive Label (Thread Address Uaddr : Type) where
  | call (thread : Thread) (call : Call Uaddr)
  | periodic (time : Nat) (order : List Address)

variable [DecidableEq Uaddr]

/-- A call of a thread; `va2pa` translates its addresses. -/
def perform (va2pa : Thread → Uaddr → Address) (thread : Thread) (state : State Thread Address) :
    Call Uaddr → Except Fault (State Thread Address)
  | .wait uaddr val actVal mask timeout => .ok (futexWait thread (va2pa thread uaddr) val actVal mask timeout state)
  | .wake uaddr nrWake mask => .ok (futexWake (va2pa thread uaddr) nrWake mask state).1
  | .wakeOp uaddr uaddr2 nrWake nrWake2 op oldval =>
    (futexWakeOp (va2pa thread uaddr) (va2pa thread uaddr2) nrWake nrWake2 op oldval state).map Prod.fst
  | .cmpRequeue uaddr val uaddr2 val3 actVal =>
    if uaddr = uaddr2 then .error .sameAddress
    else (futexCmpRequeue (va2pa thread uaddr) val (va2pa thread uaddr2) val3 actVal state).map Prod.fst
  | .sleep wakeTime => .ok (handleSleepCall thread wakeTime state)

def start : State Thread Address := ⟨fun _ => [], [], [], fun _ => false, fun _ => 0, []⟩

def machine (va2pa : Thread → Uaddr → Address) : Machine (State Thread Address) (Label Thread Address Uaddr) Fault where
  initial state := state = start
  step state
    | .call thread call => if state.stalled thread then .error .blocked else perform va2pa thread state call
    | .periodic time order => futexPeriodic time order state

end Sniper.System.Futex

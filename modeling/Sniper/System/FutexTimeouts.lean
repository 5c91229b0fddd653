import Sniper.System.FutexCalls
import Mathlib.Data.List.Nodup

/-! When the waiters of the futexes time out. -/

namespace Sniper.System.Futex

variable {Thread Address Uaddr : Type} [DecidableEq Thread] [DecidableEq Address]
variable {state middle next : State Thread Address} {waiter : Waiter Thread} {address : Address} {time : Nat}

/-! ## A waiter stays until it is resumed -/

def Waits (waiter : Waiter Thread) (state : State Thread Address) : Prop := ∃ address, waiter ∈ state.waiting address

/-- If the thread is not resumed, the waiter stays. -/
structure Keeps (waiter : Waiter Thread) (state next : State Thread Address) : Prop where
  resumes : state.resumed.count waiter.thread ≤ next.resumed.count waiter.thread
  stays : next.resumed.count waiter.thread = state.resumed.count waiter.thread → Waits waiter state → Waits waiter next

namespace Keeps

omit [DecidableEq Address] in
theorem refl (waiter : Waiter Thread) (state : State Thread Address) : Keeps waiter state state :=
  ⟨Nat.le_refl _, fun _ waits => waits⟩

omit [DecidableEq Address] in
theorem trans (first : Keeps waiter state middle) (second : Keeps waiter middle next) : Keeps waiter state next := by
  refine ⟨Nat.le_trans first.resumes second.resumes, fun same waits => ?_⟩
  have between := first.resumes
  have after := second.resumes
  exact second.stays (by omega) (first.stays (by omega) waits)

theorem enqueueWaiter (waiter other : Waiter Thread) (address : Address) (state : State Thread Address) :
    Keeps waiter state (enqueueWaiter address other state) := by
  refine ⟨Nat.le_refl _, fun _ waits => ?_⟩
  obtain ⟨place, member⟩ := waits
  refine ⟨place, ?_⟩
  by_cases same : place = address
  · subst same
    simp [Futex.enqueueWaiter, stallThread, member]
  · simpa [Futex.enqueueWaiter, stallThread, same] using member

theorem wakeFirst {wanted : Waiter Thread → Bool} (woken : wakeFirst wanted address state = some next) :
    Keeps waiter state next := by
  unfold Futex.wakeFirst at woken
  split at woken
  case h_1 => cases woken
  case h_2 taken found =>
    cases woken
    refine ⟨by simp [resumeThread, List.count_append], fun same waits => ?_⟩
    obtain ⟨place, member⟩ := waits
    refine ⟨place, ?_⟩
    by_cases here : place = address
    · subst here
      obtain ⟨front, back, split, erased⟩ := find?_split found
      have notTaken : waiter ≠ taken := by
        intro equal
        subst equal
        simp [resumeThread] at same
      rw [split] at member
      simp only [resumeThread, Function.update_self, erased]
      simpa [notTaken] using member
    · simpa [resumeThread, here] using member

theorem requeueWaiter (waiter : Waiter Thread) (address address2 : Address) (state : State Thread Address) :
    Keeps waiter state (requeueWaiter address address2 state) := by
  unfold Futex.requeueWaiter
  split
  case h_1 => exact refl waiter state
  case h_2 moved rest first =>
    refine ⟨Nat.le_refl _, fun _ waits => ?_⟩
    obtain ⟨place, member⟩ := waits
    by_cases isMoved : waiter = moved
    · exact ⟨address2, by simp [isMoved]⟩
    · refine ⟨place, ?_⟩
      have behind : waiter ∈ Function.update state.waiting address rest place := by
        by_cases here : place = address
        · subst here
          rw [first] at member
          simpa [isMoved] using member
        · simpa [here] using member
      by_cases there : place = address2
      · subst there
        simp [behind]
      · simpa [there] using behind

theorem move (move : Move state next) : Keeps waiter state next := by
  cases move with
  | find address =>
    obtain ⟨waiting, resumed⟩ := findFutex_waiting address state
    have stays : Waits waiter state → Waits waiter (findFutex address state) := by
      unfold Waits
      rw [waiting]
      exact id
    exact ⟨Nat.le_of_eq (by rw [resumed]), fun _ => stays⟩
  | enqueue => exact enqueueWaiter waiter _ _ state
  | wake woken => exact wakeFirst woken
  | requeue address => exact requeueWaiter waiter address _ state
  | wakeSleeping time =>
    unfold wakeSleeping
    split
    case h_1 => exact refl waiter state
    case h_2 => exact ⟨by simp [resumeThread, List.count_append], fun _ waits => waits⟩
  | sleep => exact ⟨Nat.le_refl _, fun _ waits => waits⟩

variable [DecidableEq Uaddr] {va2pa : Thread → Uaddr → Address}

theorem run {labels : List (Label Thread Address Uaddr)} (ran : (machine va2pa).run state labels = .ok next) :
    Keeps waiter state next :=
  Machine.run_invariant (Keeps waiter state)
    (fun _ _ _ kept stepped => (Moves.step stepped).keep (fun step kept => kept.trans (move step)) kept) (refl waiter state) ran

end Keeps

/-! ## The futexes that are visited -/

structure Known (state : State Thread Address) : Prop where
  nodup : state.known.Nodup
  covers : ∀ address, state.waiting address ≠ [] → address ∈ state.known

omit [DecidableEq Thread] [DecidableEq Address] in
theorem Known.of_occupied (known : Known state) (same : next.known = state.known)
    (occupied : ∀ address, next.waiting address ≠ [] → state.waiting address ≠ [] ∨ address ∈ state.known) : Known next := by
  refine ⟨same ▸ known.nodup, fun address waits => ?_⟩
  rw [same]
  exact (occupied address waits).elim (known.covers address) id

omit [DecidableEq Thread] in
theorem Known.find (known : Known state) (address : Address) : Known (findFutex address state) := by
  unfold findFutex
  split
  case isTrue => exact known
  case isFalse new =>
    constructor
    · exact List.nodup_append.mpr ⟨known.nodup, List.nodup_cons.mpr ⟨List.not_mem_nil, List.nodup_nil⟩, fun other member _ last same => by
        rw [same, List.mem_singleton.mp last] at member
        exact new member⟩
    · exact fun other waits => List.mem_append_left _ (known.covers other waits)

theorem Known.move (known : Known state) (move : Move state next) : Known next := by
  cases move with
  | find address => exact known.find address
  | @enqueue address _ _ isKnown =>
    refine known.of_occupied rfl fun other waits => ?_
    by_cases same : other = address
    · exact .inr (same ▸ isKnown)
    · left
      simpa [enqueueWaiter, stallThread, same] using waits
  | @wake _ wanted address woken =>
    unfold wakeFirst at woken
    split at woken
    case h_1 => cases woken
    case h_2 =>
      cases woken
      refine known.of_occupied rfl fun other waits => .inl fun empty => waits ?_
      by_cases same : other = address
      · subst same
        simp [resumeThread, empty]
      · simp [resumeThread, same, empty]
  | @requeue address address2 isKnown =>
    unfold requeueWaiter
    split
    case h_1 => exact known
    case h_2 moved rest first =>
      refine known.of_occupied rfl fun other waits => ?_
      by_cases there : other = address2
      · exact .inr (there ▸ isKnown)
      · left
        intro empty
        by_cases here : other = address
        · rw [here, first] at empty
          cases empty
        · simp [there, here, empty] at waits
  | wakeSleeping time =>
    unfold wakeSleeping
    split
    case h_1 => exact known
    case h_2 => exact ⟨known.nodup, known.covers⟩
  | sleep => exact ⟨known.nodup, known.covers⟩

theorem Known.of_reachable [DecidableEq Uaddr] {va2pa : Thread → Uaddr → Address} (reached : (machine va2pa).Reachable state) :
    Known state := by
  refine Machine.Reach.invariant Known ?_ ?_ reached
  · rintro state rfl
    exact ⟨List.nodup_nil, fun address waits => absurd rfl waits⟩
  · intro state label next known _ stepped
    exact (Moves.step stepped).keep (fun move known => known.move move) known

/-! ## The periodic visit -/

theorem wakeTimedOut_waiting (time : Nat) (state : State Thread Address) (address : Address) :
    (wakeTimedOut time state address).waiting =
      Function.update state.waiting address ((state.waiting address).eraseP (Waiter.timedOut time)) := by
  unfold wakeTimedOut wakeFirst
  split
  case h_1 nobody =>
    rw [List.eraseP_of_forall_not (List.find?_eq_none.mp nobody), Function.update_eq_self]
    rfl
  case h_2 => rfl

theorem foldl_wakeTimedOut_waiting (time : Nat) {order : List Address} (distinct : order.Nodup) (state : State Thread Address)
    (address : Address) :
    (order.foldl (wakeTimedOut time) state).waiting address =
      if address ∈ order then (state.waiting address).eraseP (Waiter.timedOut time) else state.waiting address := by
  induction order generalizing state with
  | nil => rfl
  | cons first rest ih =>
    obtain ⟨new, distinct⟩ := List.nodup_cons.mp distinct
    have after := ih distinct (wakeTimedOut time state first)
    rw [wakeTimedOut_waiting] at after
    refine after.trans ?_
    by_cases same : address = first
    · subst same
      simp [new]
    · simp [same]

theorem foldl_wakeTimedOut_sleeping (time : Nat) (order : List Address) (state : State Thread Address) :
    (order.foldl (wakeTimedOut time) state).sleeping = state.sleeping := by
  induction order generalizing state with
  | nil => rfl
  | cons first rest ih =>
    refine (ih (wakeTimedOut time state first)).trans ?_
    unfold wakeTimedOut wakeFirst
    split <;> rfl

theorem futexPeriodic_waiting {order : List Address} (known : Known state) (woken : futexPeriodic time order state = .ok next) :
    (∀ address, next.waiting address = (state.waiting address).eraseP (Waiter.timedOut time)) ∧
      next.sleeping.Sublist state.sleeping := by
  unfold futexPeriodic at woken
  split at woken
  case isFalse => cases woken
  case isTrue isOrder =>
    cases woken
    have perm := List.isPerm_iff.mp isOrder
    have slept : (wakeSleeping time state).waiting = state.waiting ∧ (wakeSleeping time state).sleeping.Sublist state.sleeping := by
      unfold wakeSleeping
      split
      case h_1 => exact ⟨rfl, List.Sublist.refl _⟩
      case h_2 => exact ⟨rfl, List.eraseP_sublist⟩
    have visited := foldl_wakeTimedOut_waiting time (perm.nodup_iff.mpr known.nodup) (wakeSleeping time state)
    rw [slept.1] at visited
    rw [foldl_wakeTimedOut_sleeping]
    refine ⟨fun address => ?_, slept.2⟩
    · rw [visited address]
      split
      case isTrue => rfl
      case isFalse unvisited =>
        have empty : state.waiting address = [] := by
          by_contra waits
          exact unvisited (perm.mem_iff.mpr (known.covers address waits))
        rw [empty, List.eraseP_nil]

def IsFirst (time : Nat) (waiter : Waiter Thread) (queue : List (Waiter Thread)) : Prop :=
  ∃ front back, queue = front ++ waiter :: back ∧ ∀ other ∈ front, time < other.timeout

omit [DecidableEq Thread] in
theorem isFirst_of_erased {queue : List (Waiter Thread)} (member : waiter ∈ queue)
    (erased : waiter ∉ queue.eraseP (Waiter.timedOut time)) : waiter.timeout ≤ time ∧ IsFirst time waiter queue := by
  cases found : queue.find? (Waiter.timedOut time) with
  | none =>
    rw [List.eraseP_of_forall_not (List.find?_eq_none.mp found)] at erased
    exact absurd member erased
  | some taken =>
    obtain ⟨due, front, back, split, before⟩ := List.find?_eq_some_iff_append.mp found
    have refused : ∀ other ∈ front, ¬other.timedOut time = true := fun other within => by simpa using before other within
    rw [split, List.eraseP_append_right _ refused, List.eraseP_cons_of_pos due] at erased
    rw [split] at member
    have isTaken : waiter = taken := by
      simp only [List.mem_append, List.mem_cons, not_or] at member erased
      tauto
    subst isTaken
    refine ⟨by simpa [Waiter.timedOut] using due, front, back, split, fun other within => ?_⟩
    simpa [Waiter.timedOut] using before other within

theorem Invariant.waiter_unique {location : Thread → Option (Place Address)} (holds : Invariant state location)
    {other : Waiter Thread} {place : Address} (first : waiter ∈ state.waiting address) (second : other ∈ state.waiting place)
    (same : other.thread = waiter.thread) : other = waiter ∧ place = address := by
  have here : waiter.thread ∈ queue state (.futex address) := List.mem_map_of_mem first
  have there : other.thread ∈ queue state (.futex place) := List.mem_map_of_mem second
  rw [holds.located.mem_iff] at here there
  rw [same, here] at there
  cases there
  have distinct : (queue state (.futex address)).Nodup := by
    rw [List.nodup_iff_count_le_one]
    intro thread
    rw [holds.located]
    split <;> decide
  exact ⟨List.inj_on_of_nodup_map distinct second first same, rfl⟩

/-- The periodic visit resumes a waiter exactly when its time has come and that of none before it in its queue has. -/
theorem futexPeriodic_resumes_iff {location : Thread → Option (Place Address)} {order : List Address}
    (holds : Invariant state location) (known : Known state) (member : waiter ∈ state.waiting address)
    (woken : futexPeriodic time order state = .ok next) :
    next.stalled waiter.thread = false ↔ waiter.timeout ≤ time ∧ IsFirst time waiter (state.waiting address) := by
  obtain ⟨location', holds'⟩ := @Moves.keep _ _ _ _ _ _ (fun state => ∃ location, Invariant state location)
    (fun move ⟨_, holds⟩ => holds.move move) (Moves.futexPeriodic woken) ⟨location, holds⟩
  obtain ⟨waiting, sleeping⟩ := futexPeriodic_waiting known woken
  have here : location waiter.thread = some (.futex address) :=
    holds.located.mem_iff.mp (List.mem_map_of_mem member)
  constructor
  · intro awake
    apply isFirst_of_erased member
    intro stays
    rw [← waiting] at stays
    exact holds'.located.running holds'.sleeping awake (.futex address) (List.mem_map_of_mem stays)
  · rintro ⟨due, front, back, split, before⟩
    have refused : ∀ other ∈ front, ¬other.timedOut time = true := fun other within => by
      have later := before other within
      simp only [Waiter.timedOut, decide_eq_true_eq]
      omega
    have once : (queue state (.futex address)).count waiter.thread = 1 := by
      rw [holds.located, if_pos here]
    have nowhere (place : Place Address) : waiter.thread ∉ queue next place := by
      intro still
      have old : waiter.thread ∈ queue state place := by
        cases place with
        | futex other =>
          simp only [queue, waiting] at still
          exact (List.eraseP_sublist.map Waiter.thread).subset still
        | sleeping => exact (sleeping.map Waiter.thread).subset still
      have same : place = .futex address := by
        rw [holds.located.mem_iff, here] at old
        exact (Option.some.inj old).symm
      subst same
      simp only [queue, waiting, split, List.eraseP_append_right _ refused, List.eraseP_cons_of_pos,
        show waiter.timedOut time = true by simpa [Waiter.timedOut] using due] at still
      simp only [queue, split, List.map_append, List.map_cons, List.count_append, List.count_cons_self] at once
      rw [List.map_append, ← List.count_pos_iff, List.count_append] at still
      omega
    rw [holds'.sleeping.located]
    cases isPlace : location' waiter.thread with
    | none => rfl
    | some place => exact absurd (holds'.located.mem_iff.mpr isPlace) (nowhere place)

/-! ## The deadline of a call -/

/-- What `timeout_time` is to be: absolute times count from the start of the emulated time, relative ones from now. -/
def deadline (osEmuTimeStart : Int) (cmd : BitVec 32) (currTime : Nat) (timeout : Timespec) : Int :=
  if cmd = futexWaitBitset then (timeout.tvSec - osEmuTimeStart) * 10 ^ 15 + timeout.tvNsec * 10 ^ 6
  else currTime + (timeout.tvSec * 10 ^ 15 + timeout.tvNsec * 10 ^ 6)

theorem timeoutVal_mod (osEmuTimeStart : Int) (timeout : Timespec) :
    (timeoutVal osEmuTimeStart timeout : Int) =
      ((timeout.tvSec - osEmuTimeStart) * 10 ^ 15 + timeout.tvNsec * 10 ^ 6) % 2 ^ 64 := by
  unfold timeoutVal toUInt64
  omega

/-- Nothing wraps: the deadline fits into 64 bits, and relative times are not measured from another start. -/
theorem timeoutTime_eq {osEmuTimeStart : Int} {cmd : BitVec 32} {currTime : Nat} {timeout : Timespec}
    (epoch : cmd ≠ futexWaitBitset → osEmuTimeStart = 0) (nonneg : 0 ≤ deadline osEmuTimeStart cmd currTime timeout)
    (below : deadline osEmuTimeStart cmd currTime timeout < 2 ^ 64) :
    (timeoutTime osEmuTimeStart cmd currTime (some timeout) : Int) = deadline osEmuTimeStart cmd currTime timeout := by
  have val := timeoutVal_mod osEmuTimeStart timeout
  unfold deadline at *
  unfold timeoutTime
  dsimp only
  split
  case isTrue absolute =>
    rw [if_pos absolute] at nonneg below
    omega
  case isFalse relative =>
    have zero := epoch relative
    subst zero
    rw [if_neg relative] at nonneg below
    omega

/-! ## Runs -/

section Runs

variable [DecidableEq Uaddr] {va2pa : Thread → Uaddr → Address} {osEmuTimeStart : Int} {memory : Uaddr → BitVec 32}
variable {thread : Thread} {args : FutexArgs Uaddr} {currTime : Nat} {timeout : Timespec}

/-- In every run in which the thread has not been resumed yet, a periodic visit resumes it exactly then. -/
def TimesOutWhen (va2pa : Thread → Uaddr → Address) (thread : Thread) (start : State Thread Address)
    (due : State Thread Address → Nat → Prop) : Prop :=
  ∀ before state time order next, (machine va2pa).run start before = .ok state →
    state.resumed.count thread = start.resumed.count thread →
      (machine va2pa).step state (.periodic time order) = .ok next → (next.stalled thread = false ↔ due state time)

/-- The thread waits in some queue, and no waiter before it there has timed out. -/
def NoneBefore (thread : Thread) (state : State Thread Address) (time : Nat) : Prop :=
  ∃ address waiter, waiter.thread = thread ∧ IsFirst time waiter (state.waiting address)

theorem timesOutWhen_of_waits (reached : (machine va2pa).Reachable state) (waits : Waits waiter state) :
    TimesOutWhen va2pa waiter.thread state fun state time => waiter.timeout ≤ time ∧ NoneBefore waiter.thread state time := by
  intro before current time order next ran notYet stepped
  have reachedHere := Machine.Reachable.run reached ran
  obtain ⟨location, holds⟩ := Invariant.of_reachable reachedHere
  obtain ⟨address, member⟩ := (Keeps.run ran).stays notYet waits
  rw [futexPeriodic_resumes_iff holds (Known.of_reachable reachedHere) member stepped]
  constructor
  · exact fun ⟨due, first⟩ => ⟨due, address, waiter, rfl, first⟩
  · rintro ⟨due, place, found, sameThread, first⟩
    have foundMember : found ∈ current.waiting place := by
      obtain ⟨front, back, split, -⟩ := first
      simp [split]
    obtain ⟨rfl, rfl⟩ := holds.waiter_unique member foundMember sameThread
    exact ⟨due, first⟩

/-- The time-out is that of the deadline, unless a waiter before this one in the queue has timed out as well, as a periodic
visit resumes one waiter of each futex. -/
theorem handleFutexCall_timesOut (reached : (machine va2pa).Reachable state) (awake : state.stalled thread = false)
    (isWait : args.cmd = futexWaitCommand ∨ args.cmd = futexWaitBitset) (hasTimeout : args.timeout = some timeout)
    (epoch : args.cmd = futexWaitCommand → osEmuTimeStart = 0) (nonneg : 0 ≤ deadline osEmuTimeStart args.cmd currTime timeout)
    (below : deadline osEmuTimeStart args.cmd currTime timeout < 2 ^ 64)
    (called : handleFutexCall va2pa osEmuTimeStart memory thread args currTime state = .ok (next, .waits)) :
    TimesOutWhen va2pa thread next fun state time =>
      deadline osEmuTimeStart args.cmd currTime timeout ≤ time ∧ NoneBefore thread state time := by
  rw [handleFutexCall_wait isWait, hasTimeout] at called
  have isTime := timeoutTime_eq (fun relative => epoch (isWait.resolve_right relative)) nonneg below
  generalize timeoutTime osEmuTimeStart args.cmd currTime (some timeout) = time at called isTime
  generalize (if args.cmd = futexWaitBitset then args.val3 else matchAny) = mask at called
  have equal : args.val = memory args.uaddr := by
    by_contra different
    simp [different] at called
  simp only [Except.ok.injEq, Prod.mk.injEq] at called
  obtain ⟨rfl, -⟩ := called
  have ran : (machine va2pa).run state [.call thread (.wait args.uaddr args.val (memory args.uaddr) mask time)] =
      .ok (futexWait thread (va2pa thread args.uaddr) args.val (memory args.uaddr) mask time state) := by
    simp [Machine.run, machine, awake, perform]
  have reachedNext := Machine.Reachable.run reached ran
  have waits : Waits ⟨thread, mask, time⟩
      (futexWait thread (va2pa thread args.uaddr) args.val (memory args.uaddr) mask time state) := by
    refine ⟨va2pa thread args.uaddr, ?_⟩
    simp [futexWait, equal, enqueueWaiter, stallThread]
  rw [← isTime]
  have timesOut := timesOutWhen_of_waits reachedNext waits
  simpa only [Int.ofNat_le] using timesOut

end Runs

/-- The emulated time starts at one second, and a thread waits until the second one. -/
theorem handleFutexCall_timesOut_absolute : ∃ next : State Nat Nat,
    handleFutexCall (fun (_ : Nat) (uaddr : Nat) => uaddr) 1 (fun _ => 0) 0 ⟨8, futexWaitBitset, 0, some ⟨2, 0⟩, 0, 0, 1⟩ 0 Futex.start =
      .ok (next, .waits) ∧
    TimesOutWhen (fun (_ : Nat) (uaddr : Nat) => uaddr) 0 next fun state time =>
      deadline 1 (FutexArgs.cmd (⟨8, futexWaitBitset, 0, some ⟨2, 0⟩, 0, 0, 1⟩ : FutexArgs Nat)) 0 ⟨2, 0⟩ ≤ time ∧
        NoneBefore 0 state time := by
  have starts : (machine fun (_ : Nat) (uaddr : Nat) => uaddr).Reachable Futex.start := .initial rfl
  have called : handleFutexCall (fun (_ : Nat) (uaddr : Nat) => uaddr) 1 (fun _ => 0) 0
      ⟨8, futexWaitBitset, 0, some ⟨2, 0⟩, 0, 0, 1⟩ 0 Futex.start =
        .ok (futexWait 0 8 0 0 1 (10 ^ 15) Futex.start, .waits) := rfl
  exact ⟨_, called, handleFutexCall_timesOut starts rfl (by decide) rfl (by decide) (by decide) (by decide) called⟩

/-- Two threads wait for a nanosecond on one futex, and a periodic visit resumes the first of them. And where the emulated time
starts at one second, a thread that waits for two seconds is resumed after one. -/
theorem handleFutexCall_timesOut_otherwise :
    (¬∀ (args : FutexArgs Nat) (timeout : Timespec) (currTime thread : Nat) (state next : State Nat Nat),
      (machine fun (_ : Nat) (uaddr : Nat) => uaddr).Reachable state → state.stalled thread = false →
        args.cmd = futexWaitCommand ∨ args.cmd = futexWaitBitset → args.timeout = some timeout →
          0 ≤ deadline 0 args.cmd currTime timeout → deadline 0 args.cmd currTime timeout < 2 ^ 63 →
            handleFutexCall (fun (_ : Nat) (uaddr : Nat) => uaddr) 0 (fun _ => 0) thread args currTime state = .ok (next, .waits) →
              TimesOutWhen (fun (_ : Nat) (uaddr : Nat) => uaddr) thread next fun _ time =>
                deadline 0 args.cmd currTime timeout ≤ time) ∧
    ∃ next resumed : State Nat Nat,
      handleFutexCall (fun (_ : Nat) (uaddr : Nat) => uaddr) 1 (fun _ => 0) 0 ⟨8, futexWaitCommand, 0, some ⟨2, 0⟩, 0, 0, 0⟩ 0
          Futex.start = .ok (next, .waits) ∧
        (machine fun (_ : Nat) (uaddr : Nat) => uaddr).step next (.periodic (10 ^ 15) [8]) = .ok resumed ∧
          next.stalled 0 = true ∧ resumed.stalled 0 = false := by
  refine ⟨fun all => ?_, _, _, rfl, rfl, rfl, rfl⟩
  have starts : (machine fun (_ : Nat) (uaddr : Nat) => uaddr).Reachable Futex.start := .initial rfl
  have first : (machine fun (_ : Nat) (uaddr : Nat) => uaddr).run Futex.start [.call 0 (.wait 8 0 0 matchAny (10 ^ 6))] =
      .ok (futexWait 0 8 0 0 matchAny (10 ^ 6) Futex.start) := rfl
  have timesOut := all ⟨8, futexWaitCommand, 0, some ⟨0, 1⟩, 0, 0, 0⟩ ⟨0, 1⟩ 0 1 _ _ (Machine.Reachable.run starts first) rfl (by decide)
    rfl (by decide) (by decide) rfl
  have resumes := (timesOut [] _ (2 * 10 ^ 6) [8] _ rfl rfl rfl).mpr (by decide)
  exact absurd resumes (by decide)

end Sniper.System.Futex

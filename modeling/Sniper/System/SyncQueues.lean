import Sniper.System.SyncServer

/-! The queues of the mutexes and condition variables over whole runs. -/

namespace Sniper.System.SyncServer

open WaitQueue (Located Sleeping)

inductive Place (Mutex Cond : Type) where
  | mutex (mutex : Mutex)
  | cond (cond : Cond)
deriving DecidableEq, Repr

variable {Thread Mutex Cond : Type}

def queue (state : State Thread Mutex Cond) : Place Mutex Cond → List Thread
  | .mutex mutex => (getMutex state mutex).waiting
  | .cond cond => (state.conds cond).map CondWaiter.thread

structure Invariant [DecidableEq Thread] [DecidableEq Mutex] [DecidableEq Cond] (state : State Thread Mutex Cond)
    (location : Thread → Option (Place Mutex Cond)) : Prop where
  located : Located (queue state) location
  sleeping : Sleeping state.stalled state.stalls state.resumes location
  owned : ∀ mutex, (getMutex state mutex).waiting ≠ [] → (getMutex state mutex).owner ≠ none
  fifo : ∀ mutex, state.arrivals mutex = state.grants mutex ++ (getMutex state mutex).waiting

section Queues

variable [DecidableEq Mutex] [DecidableEq Cond] {state : State Thread Mutex Cond}

omit [DecidableEq Cond] in
@[simp] theorem getMutex_setMutex (mutex other : Mutex) (value : SimMutex Thread) :
    getMutex (setMutex mutex value state) other = if other = mutex then value else getMutex state other := by
  by_cases same : other = mutex
  · subst same
    simp [getMutex, setMutex]
  · simp [getMutex, setMutex, same]

theorem queue_setMutex (mutex : Mutex) (value : SimMutex Thread) :
    queue (setMutex mutex value state) = Function.update (queue state) (.mutex mutex) value.waiting := by
  funext place
  cases place with
  | mutex other =>
    by_cases same : other = mutex
    · subst same
      simp [queue]
    · simp [queue, same]
  | cond cond => rfl

theorem queue_conds (cond : Cond) (waiters : List (CondWaiter Thread Mutex)) :
    queue { state with conds := Function.update state.conds cond waiters } =
      Function.update (queue state) (.cond cond) (waiters.map CondWaiter.thread) := by
  funext place
  cases place with
  | mutex mutex => rfl
  | cond other =>
    by_cases same : other = cond
    · subst same
      simp [queue]
    · simp [queue, same]

theorem enqueue_located [DecidableEq Thread] {location : Thread → Option (Place Mutex Cond)} {thread : Thread}
    (located : Located (queue state) location) (nowhere : location thread = none) (mutex : Mutex) :
    Located (queue (enqueue thread mutex state)) (Function.update location thread (some (.mutex mutex))) := by
  have pushed := located.push (.mutex mutex) nowhere
  have same : queue (enqueue thread mutex state) =
      Function.update (queue state) (.mutex mutex) (queue state (.mutex mutex) ++ [thread]) :=
    queue_setMutex mutex { getMutex state mutex with waiting := (getMutex state mutex).waiting ++ [thread] }
  rw [same]
  exact pushed

omit [DecidableEq Cond] in
theorem getMutex_enqueue (thread : Thread) (mutex other : Mutex) :
    getMutex (enqueue thread mutex state) other =
      if other = mutex then { getMutex state mutex with waiting := (getMutex state mutex).waiting ++ [thread] }
      else getMutex state other :=
  getMutex_setMutex mutex other _

omit [DecidableEq Cond] in
theorem enqueue_owned (owned : ∀ mutex, (getMutex state mutex).waiting ≠ [] → (getMutex state mutex).owner ≠ none)
    {mutex : Mutex} (taken : (getMutex state mutex).owner ≠ none) (thread : Thread) (other : Mutex) :
    (getMutex (enqueue thread mutex state) other).waiting ≠ [] →
      (getMutex (enqueue thread mutex state) other).owner ≠ none := by
  rw [getMutex_enqueue]
  split
  case isTrue => exact fun _ => taken
  case isFalse => exact owned other

omit [DecidableEq Cond] in
theorem enqueue_fifo (fifo : ∀ mutex, state.arrivals mutex = state.grants mutex ++ (getMutex state mutex).waiting)
    (thread : Thread) (mutex other : Mutex) :
    (enqueue thread mutex state).arrivals other =
      (enqueue thread mutex state).grants other ++ (getMutex (enqueue thread mutex state) other).waiting := by
  have before := fifo other
  rw [getMutex_enqueue]
  by_cases same : other = mutex
  · subst same
    simp [enqueue, setMutex, before]
  · simpa [enqueue, setMutex, same] using before

theorem queue_own (mutex : Mutex) (owner : Option Thread) :
    queue (setMutex mutex { getMutex state mutex with owner := owner } state) = queue state := by
  rw [queue_setMutex]
  exact Function.update_eq_self (Place.mutex mutex) (queue state)

omit [DecidableEq Cond] in
theorem own_owned (owned : ∀ mutex, (getMutex state mutex).waiting ≠ [] → (getMutex state mutex).owner ≠ none)
    (mutex : Mutex) (owner : Thread) (other : Mutex) :
    (getMutex (setMutex mutex { getMutex state mutex with owner := some owner } state) other).waiting ≠ [] →
      (getMutex (setMutex mutex { getMutex state mutex with owner := some owner } state) other).owner ≠ none := by
  rw [getMutex_setMutex]
  split
  case isTrue => simp
  case isFalse => exact owned other

omit [DecidableEq Cond] in
theorem own_waiting (mutex : Mutex) (owner : Option Thread) (other : Mutex) :
    (getMutex (setMutex mutex { getMutex state mutex with owner := owner } state) other).waiting =
      (getMutex state other).waiting := by
  rw [getMutex_setMutex]
  split
  case isTrue same => rw [same]
  case isFalse => rfl

end Queues

section Steps

variable [DecidableEq Thread] [DecidableEq Mutex] [DecidableEq Cond] {state : State Thread Mutex Cond}
variable {location : Thread → Option (Place Mutex Cond)} {thread : Thread} {mutex : Mutex} {cond : Cond}

theorem Invariant.lock (holds : Invariant state location) (awake : state.stalled thread = false) :
    ∃ location, Invariant (lock thread mutex state) location := by
  unfold SyncServer.lock
  split
  case h_1 free =>
    refine ⟨location, ?_, ?_, ?_, ?_⟩
    · rw [queue_own]
      exact holds.located
    · exact holds.sleeping
    · exact own_owned holds.owned mutex thread
    · intro other
      rw [own_waiting]
      exact holds.fifo other
  case h_2 owner taken =>
    refine ⟨Function.update location thread (some (.mutex mutex)), ?_, ?_, ?_, ?_⟩
    · exact enqueue_located holds.located (holds.sleeping.nowhere awake) mutex
    · exact holds.sleeping.stall awake (.mutex mutex)
    · exact enqueue_owned holds.owned (by simp [taken]) thread
    · exact enqueue_fifo holds.fifo thread mutex

theorem Invariant.handOver (holds : Invariant state location) {waiter : Thread} {rest : List Thread}
    (first : (getMutex state mutex).waiting = waiter :: rest) :
    Invariant
      { resumeThread waiter (setMutex mutex ⟨some waiter, rest⟩ state) with
        grants := Function.update state.grants mutex (state.grants mutex ++ [waiter]) }
      (Function.update location waiter none) := by
  have here : location waiter = some (.mutex mutex) := by
    rw [← holds.located.mem_iff]
    simp [queue, first]
  constructor
  case located =>
    have front : queue state (.mutex mutex) = waiter :: rest := first
    have popped := holds.located.pop front
    rw [← queue_setMutex mutex ⟨some waiter, rest⟩] at popped
    exact popped
  case sleeping =>
    have waits : location waiter ≠ none := by simp [here]
    exact holds.sleeping.resume waits
  case owned =>
    intro other
    have known : (getMutex (setMutex mutex ⟨some waiter, rest⟩ state) other).waiting ≠ [] →
        (getMutex (setMutex mutex ⟨some waiter, rest⟩ state) other).owner ≠ none := by
      rw [getMutex_setMutex]
      split
      case isTrue => simp
      case isFalse => exact holds.owned other
    exact known
  case fifo =>
    intro other
    have before := holds.fifo other
    have after : state.arrivals other = Function.update state.grants mutex (state.grants mutex ++ [waiter]) other ++
        (getMutex (setMutex mutex ⟨some waiter, rest⟩ state) other).waiting := by
      rw [getMutex_setMutex]
      by_cases same : other = mutex
      · subst same
        rw [first] at before
        simpa using before
      · simpa [same] using before
    exact after

theorem Invariant.free (holds : Invariant state location) (nobody : (getMutex state mutex).waiting = []) :
    Invariant (setMutex mutex ⟨none, []⟩ state) location := by
  have same : (⟨none, []⟩ : SimMutex Thread) = { getMutex state mutex with owner := none } := by
    simp [nobody]
  constructor
  case located =>
    rw [same, queue_own]
    exact holds.located
  case sleeping => exact holds.sleeping
  case owned =>
    intro other
    rw [getMutex_setMutex]
    split
    case isTrue => simp
    case isFalse => exact holds.owned other
  case fifo =>
    intro other
    rw [same, own_waiting]
    exact holds.fifo other

theorem Invariant.unlock (holds : Invariant state location) (awake : state.stalled thread = false)
    {next : State Thread Mutex Cond} (unlocked : unlock thread mutex state = .ok next) :
    (∃ location, Invariant next location) ∧ next.stalled thread = false ∧ next.conds = state.conds := by
  unfold SyncServer.unlock at unlocked
  split at unlocked
  case isTrue =>
    split at unlocked
    case h_1 nobody =>
      cases unlocked
      exact ⟨⟨location, holds.free nobody⟩, awake, rfl⟩
    case h_2 waiter rest first =>
      cases unlocked
      refine ⟨⟨_, holds.handOver first⟩, ?_, rfl⟩
      by_cases same : thread = waiter
      · simp [resumeThread, same]
      · simp only [resumeThread, Function.update_of_ne same]
        exact awake
  case isFalse => cases unlocked

theorem Invariant.condWait (holds : Invariant state location) (awake : state.stalled thread = false)
    {next : State Thread Mutex Cond} (waited : condWait thread cond mutex state = .ok next) :
    ∃ location, Invariant next location := by
  unfold SyncServer.condWait at waited
  split at waited
  case h_1 => cases waited
  case h_2 after unlocked =>
    cases waited
    obtain ⟨⟨location, kept⟩, still, -⟩ := holds.unlock awake unlocked
    have pushed := kept.located.push (.cond cond) (kept.sleeping.nowhere still)
    have joined : queue after (.cond cond) ++ [thread] =
        (after.conds cond ++ [(⟨thread, mutex⟩ : CondWaiter Thread Mutex)]).map CondWaiter.thread := by
      rw [List.map_append]
      rfl
    rw [joined, ← queue_conds] at pushed
    exact ⟨_, pushed, kept.sleeping.stall still (.cond cond), kept.owned, kept.fifo⟩

theorem Invariant.lockAsync (located : Located (queue state) (Function.update location thread none))
    (sleeping : Sleeping state.stalled state.stalls state.resumes location) (waits : location thread ≠ none)
    (owned : ∀ mutex, (getMutex state mutex).waiting ≠ [] → (getMutex state mutex).owner ≠ none)
    (fifo : ∀ mutex, state.arrivals mutex = state.grants mutex ++ (getMutex state mutex).waiting) :
    ∃ location, Invariant (lockAsync thread mutex state) location := by
  unfold SyncServer.lockAsync
  split
  case h_1 free =>
    refine ⟨Function.update location thread none, ?_, ?_, own_owned owned mutex thread, ?_⟩
    · rw [← queue_own mutex (some thread)] at located
      exact located
    · exact sleeping.resume waits
    · intro other
      exact (fifo other).trans (congrArg _ (own_waiting mutex (some thread) other).symm)
  case h_2 owner taken =>
    refine ⟨Function.update (Function.update location thread none) thread (some (.mutex mutex)), ?_, ?_, ?_, ?_⟩
    · exact enqueue_located located (by simp) mutex
    · exact sleeping.move waits (.mutex mutex)
    · exact enqueue_owned owned (by simp [taken]) thread
    · exact enqueue_fifo fifo thread mutex

theorem Invariant.condSignal (holds : Invariant state location) (cond : Cond) :
    ∃ location, Invariant (condSignal cond state) location := by
  unfold SyncServer.condSignal
  split
  case h_1 => exact ⟨location, holds⟩
  case h_2 woken rest first =>
    have front : queue state (.cond cond) = woken.thread :: rest.map CondWaiter.thread := by
      simp [queue, first]
    have waits : location woken.thread ≠ none := by
      have member : woken.thread ∈ queue state (.cond cond) := by simp [front]
      rw [holds.located.mem_iff] at member
      simp [member]
    have popped := holds.located.pop front
    rw [← queue_conds cond rest] at popped
    exact Invariant.lockAsync popped holds.sleeping waits holds.owned holds.fifo

/-- What every signal keeps, a broadcast keeps. -/
theorem broadcastWithin_preserves {P : State Thread Mutex Cond → Prop} (signals : ∀ state, P state → P (condSignal cond state))
    (turns : Nat) (holds : P state) : P (broadcastWithin cond turns state) := by
  induction turns generalizing state with
  | zero => exact holds
  | succ turns ih =>
    unfold broadcastWithin
    split
    case isTrue => exact holds
    case isFalse => exact ih (signals state holds)

theorem Invariant.broadcastWithin (turns : Nat) (holds : Invariant state location) (cond : Cond) :
    ∃ location, Invariant (broadcastWithin cond turns state) location := by
  refine broadcastWithin_preserves (P := fun state => ∃ location, Invariant state location) ?_ turns ⟨location, holds⟩
  rintro state ⟨location, holds⟩
  exact holds.condSignal cond

theorem Invariant.perform (holds : Invariant state location) (awake : state.stalled thread = false)
    {operation : Operation Mutex Cond} {next : State Thread Mutex Cond}
    (performed : perform thread state operation = .ok next) : ∃ location, Invariant next location := by
  cases operation with
  | lock mutex =>
    cases performed
    exact holds.lock awake
  | tryLock mutex =>
    cases performed
    unfold mutexLock
    split
    case isTrue => exact ⟨location, holds⟩
    case isFalse => exact holds.lock awake
  | unlock mutex =>
    simp only [SyncServer.perform, mutexUnlock] at performed
    split at performed
    case isTrue => exact (holds.unlock awake performed).1
    case isFalse => cases performed
  | condWait cond mutex => exact holds.condWait awake performed
  | condSignal cond =>
    cases performed
    exact holds.condSignal cond
  | condBroadcast cond =>
    cases performed
    exact holds.broadcastWithin _ cond

/-! ### Who owns a mutex -/

/-- The thread gets a free mutex, or joins the queue of one that is taken and sleeps. -/
def Locks (state next : State Thread Mutex Cond) (thread : Thread) (mutex : Mutex) : Prop :=
  if (getMutex state mutex).owner = none then
    getMutex next mutex = { getMutex state mutex with owner := some thread } ∧ next.stalled thread = state.stalled thread
  else
    getMutex next mutex = { getMutex state mutex with waiting := (getMutex state mutex).waiting ++ [thread] } ∧
      next.stalled thread = true

/-- The first waiter gets the mutex and is woken up; a mutex without waiters is free. -/
def HandsOver (state next : State Thread Mutex Cond) (mutex : Mutex) : Prop :=
  match (getMutex state mutex).waiting with
  | [] => getMutex next mutex = ⟨none, []⟩
  | waiter :: rest =>
    getMutex next mutex = ⟨some waiter, rest⟩ ∧ next.stalled waiter = false ∧
      next.resumes waiter = state.resumes waiter + 1

omit [DecidableEq Cond] in
theorem lock_locks (thread : Thread) (mutex : Mutex) (state : State Thread Mutex Cond) :
    Locks state (lock thread mutex state) thread mutex := by
  unfold Locks lock
  cases owner : (getMutex state mutex).owner with
  | none =>
    rw [if_pos rfl]
    exact ⟨(getMutex_setMutex mutex mutex _).trans (if_pos rfl), rfl⟩
  | some other =>
    rw [if_neg (by simp)]
    exact ⟨(getMutex_enqueue thread mutex mutex).trans (if_pos rfl), Function.update_self ..⟩

omit [DecidableEq Cond] in
theorem unlock_handsOver (owns : (getMutex state mutex).owner = some thread) :
    ∃ next, unlock thread mutex state = .ok next ∧ HandsOver state next mutex := by
  unfold unlock HandsOver
  rw [if_pos owns]
  cases (getMutex state mutex).waiting with
  | nil => exact ⟨_, rfl, (getMutex_setMutex mutex mutex _).trans (if_pos rfl)⟩
  | cons waiter rest =>
    exact ⟨_, rfl, (getMutex_setMutex mutex mutex _).trans (if_pos rfl), Function.update_self .., Function.update_self ..⟩

omit [DecidableEq Cond] in
theorem mutexUnlock_handsOver (owns : (getMutex state mutex).owner = some thread) :
    ∃ next, mutexUnlock thread mutex state = .ok next ∧ HandsOver state next mutex := by
  have known : (state.mutexes mutex).isSome := by
    rw [Option.isSome_iff_ne_none]
    intro missing
    simp [getMutex, missing] at owns
  rw [mutexUnlock, if_pos known]
  exact unlock_handsOver owns

/-- Only the thread that waits falls asleep, and it is not the one that is woken up. -/
theorem Invariant.condWait_handsOver (holds : Invariant state location) (awake : state.stalled thread = false) (cond : Cond)
    (owns : (getMutex state mutex).owner = some thread) :
    ∃ next, SyncServer.condWait thread cond mutex state = .ok next ∧ HandsOver state next mutex := by
  obtain ⟨after, unlocked, hands⟩ := unlock_handsOver owns
  refine ⟨stallThread thread { after with conds := Function.update after.conds cond (after.conds cond ++ [⟨thread, mutex⟩]) },
    by rw [SyncServer.condWait, unlocked], ?_⟩
  unfold HandsOver at hands ⊢
  cases waiting : (getMutex state mutex).waiting with
  | nil =>
    rw [waiting] at hands
    exact hands
  | cons waiter rest =>
    rw [waiting] at hands
    have different : waiter ≠ thread := by
      rintro rfl
      have absent := holds.located.running holds.sleeping awake (.mutex mutex)
      exact absent (by simp [queue, waiting])
    exact ⟨hands.1, (Function.update_of_ne different _ _).trans hands.2.1, hands.2.2⟩

omit [DecidableEq Cond] in
theorem lock_keeps {owner : Thread} {other : Mutex} (owns : (getMutex state other).owner = some owner) (thread : Thread)
    (mutex : Mutex) : (getMutex (lock thread mutex state) other).owner = some owner := by
  unfold lock
  split
  case h_1 free =>
    have different : other ≠ mutex := by
      rintro rfl
      cases owns.symm.trans free
    exact (congrArg SimMutex.owner ((getMutex_setMutex mutex other _).trans (if_neg different))).trans owns
  case h_2 =>
    have same : getMutex (stallThread thread (enqueue thread mutex state)) other = getMutex (enqueue thread mutex state) other := rfl
    rw [same, getMutex_enqueue]
    split
    case isTrue here => exact here ▸ owns
    case isFalse => exact owns

omit [DecidableEq Cond] in
theorem lockAsync_keeps {owner : Thread} {other : Mutex} (owns : (getMutex state other).owner = some owner) (thread : Thread)
    (mutex : Mutex) : (getMutex (lockAsync thread mutex state) other).owner = some owner := by
  have same : getMutex (lockAsync thread mutex state) other = getMutex (lock thread mutex state) other := by
    unfold lockAsync lock
    split <;> rfl
  rw [same]
  exact lock_keeps owns thread mutex

theorem condSignal_keeps {owner : Thread} {other : Mutex} (owns : (getMutex state other).owner = some owner) (cond : Cond) :
    (getMutex (condSignal cond state) other).owner = some owner := by
  unfold condSignal
  split
  case h_1 => exact owns
  case h_2 woken rest first =>
    have same : (getMutex { state with conds := Function.update state.conds cond rest } other).owner = some owner := owns
    exact lockAsync_keeps same _ _

theorem broadcastWithin_keeps {owner : Thread} {other : Mutex} (turns : Nat)
    (owns : (getMutex state other).owner = some owner) (cond : Cond) :
    (getMutex (broadcastWithin cond turns state) other).owner = some owner := by
  exact broadcastWithin_preserves (P := fun state => (getMutex state other).owner = some owner)
    (fun _ owns => condSignal_keeps owns cond) turns owns

omit [DecidableEq Cond] in
theorem unlock_keeps {owner : Thread} {other : Mutex} {next : State Thread Mutex Cond}
    (owns : (getMutex state other).owner = some owner) (unlocked : unlock thread mutex state = .ok next) :
    (getMutex next other).owner = some owner ∨ thread = owner ∧ mutex = other := by
  unfold unlock at unlocked
  split at unlocked
  case isTrue mine =>
    by_cases same : other = mutex
    · subst same
      exact .inr ⟨Option.some.inj (mine.symm.trans owns), rfl⟩
    · left
      split at unlocked
      all_goals
        cases unlocked
        exact (congrArg SimMutex.owner ((getMutex_setMutex mutex other _).trans (if_neg same))).trans owns
  case isFalse => cases unlocked

/-- A mutex leaves its owner only when the owner unlocks it or waits on a condition variable with it. -/
theorem perform_keeps {owner : Thread} {other : Mutex} {operation : Operation Mutex Cond} {next : State Thread Mutex Cond}
    (owns : (getMutex state other).owner = some owner) (performed : perform thread state operation = .ok next) :
    (getMutex next other).owner = some owner ∨
      thread = owner ∧ (operation = .unlock other ∨ ∃ cond, operation = .condWait cond other) := by
  cases operation with
  | lock mutex =>
    cases performed
    exact .inl (lock_keeps owns thread mutex)
  | tryLock mutex =>
    cases performed
    left
    unfold mutexLock
    split
    case isTrue => exact owns
    case isFalse => exact lock_keeps owns thread mutex
  | unlock mutex =>
    simp only [perform, mutexUnlock] at performed
    split at performed
    case isTrue =>
      refine (unlock_keeps owns performed).imp_right fun mine => ⟨mine.1, .inl ?_⟩
      rw [mine.2]
    case isFalse => cases performed
  | condWait cond mutex =>
    simp only [perform, condWait] at performed
    split at performed
    case h_1 => cases performed
    case h_2 after unlocked =>
      cases performed
      refine (unlock_keeps owns unlocked).imp_right fun mine => ⟨mine.1, .inr ⟨cond, ?_⟩⟩
      rw [mine.2]
  | condSignal cond =>
    cases performed
    exact .inl (condSignal_keeps owns cond)
  | condBroadcast cond =>
    cases performed
    exact .inl (broadcastWithin_keeps _ owns cond)

def Answered (state : State Thread Mutex Cond) (waiter : CondWaiter Thread Mutex) : Prop :=
  (getMutex state waiter.mutex).owner = some waiter.thread ∧ state.stalled waiter.thread = false ∨
    waiter.thread ∈ (getMutex state waiter.mutex).waiting

omit [DecidableEq Cond] in
theorem lockAsync_conds (thread : Thread) (mutex : Mutex) (state : State Thread Mutex Cond) :
    (lockAsync thread mutex state).conds = state.conds := by
  unfold lockAsync
  split <;> rfl

omit [DecidableEq Cond] in
theorem lockAsync_answers (thread : Thread) (mutex : Mutex) (state : State Thread Mutex Cond) :
    Answered (lockAsync thread mutex state) ⟨thread, mutex⟩ := by
  unfold lockAsync
  split
  case h_1 free =>
    left
    have owns : (getMutex (setMutex mutex { getMutex state mutex with owner := some thread } state) mutex).owner =
        some thread := by
      simp
    exact ⟨owns, by simp [resumeThread]⟩
  case h_2 =>
    right
    simp [getMutex_enqueue]

omit [DecidableEq Cond] in
theorem Answered.lockAsync {waiter : CondWaiter Thread Mutex} (answered : Answered state waiter) (thread : Thread)
    (mutex : Mutex) : Answered (lockAsync thread mutex state) waiter := by
  unfold SyncServer.lockAsync
  split
  case h_1 free =>
    cases answered with
    | inl owns =>
      left
      have other : waiter.mutex ≠ mutex := by
        intro same
        rw [same, free] at owns
        cases owns.1
      have still : (getMutex (setMutex mutex { getMutex state mutex with owner := some thread } state) waiter.mutex).owner =
          some waiter.thread := by
        rw [getMutex_setMutex, if_neg other]
        exact owns.1
      refine ⟨still, ?_⟩
      by_cases same : waiter.thread = thread
      · simp [resumeThread, same]
      · simp only [resumeThread, Function.update_of_ne same]
        exact owns.2
    | inr waits =>
      right
      rw [← own_waiting mutex (some thread)] at waits
      exact waits
  case h_2 =>
    unfold Answered
    rw [getMutex_enqueue]
    split
    case isTrue same =>
      rw [Answered, same] at answered
      cases answered with
      | inl owns => exact .inl owns
      | inr waits => exact .inr (List.mem_append_left _ waits)
    case isFalse => exact answered

theorem condSignal_conds (cond : Cond) (state : State Thread Mutex Cond) :
    (condSignal cond state).conds = Function.update state.conds cond (state.conds cond).tail := by
  unfold condSignal
  split
  case h_1 empty =>
    rw [empty, List.tail_nil, ← empty]
    exact (Function.update_eq_self cond state.conds).symm
  case h_2 woken rest first =>
    rw [lockAsync_conds, first]
    rfl

theorem condSignal_answers {waiter : CondWaiter Thread Mutex} (waits : waiter ∈ state.conds cond) :
    waiter ∈ (condSignal cond state).conds cond ∨ Answered (condSignal cond state) waiter := by
  rw [condSignal_conds, Function.update_self]
  unfold condSignal
  split
  case h_1 empty => simp [empty] at waits
  case h_2 woken rest first =>
    rw [first] at waits
    cases waits with
    | head => exact .inr (lockAsync_answers _ _ _)
    | tail _ later => exact .inl (by rw [first]; exact later)

theorem Answered.condSignal {waiter : CondWaiter Thread Mutex} (answered : Answered state waiter) (cond : Cond) :
    Answered (condSignal cond state) waiter := by
  unfold SyncServer.condSignal
  split
  case h_1 => exact answered
  case h_2 woken rest first =>
    have unchanged : Answered { state with conds := Function.update state.conds cond rest } waiter := answered
    exact unchanged.lockAsync woken.thread woken.mutex

theorem Answered.broadcastWithin {waiter : CondWaiter Thread Mutex} (turns : Nat) (answered : Answered state waiter)
    (cond : Cond) : Answered (broadcastWithin cond turns state) waiter := by
  exact broadcastWithin_preserves (P := fun state => Answered state waiter) (fun _ answered => answered.condSignal cond) turns
    answered

theorem broadcastWithin_other {turns : Nat} {other : Cond} (different : other ≠ cond) :
    (broadcastWithin cond turns state).conds other = state.conds other := by
  induction turns generalizing state with
  | zero => rfl
  | succ turns ih =>
    unfold broadcastWithin
    split
    case isTrue => rfl
    case isFalse => rw [ih, condSignal_conds, Function.update_of_ne different]

theorem broadcastWithin_answers {turns : Nat} {waiter : CondWaiter Thread Mutex}
    (enough : (state.conds cond).length ≤ turns) (waits : waiter ∈ state.conds cond) :
    Answered (broadcastWithin cond turns state) waiter := by
  induction turns generalizing state with
  | zero =>
    rw [List.length_eq_zero_iff.mp (Nat.le_zero.mp enough)] at waits
    cases waits
  | succ turns ih =>
    unfold broadcastWithin
    split
    case isTrue empty =>
      rw [List.isEmpty_iff.mp empty] at waits
      cases waits
    case isFalse =>
      have shorter : ((condSignal cond state).conds cond).length ≤ turns := by
        rw [condSignal_conds, Function.update_self, List.length_tail]
        omega
      cases condSignal_answers waits with
      | inl later => exact ih shorter later
      | inr answered => exact answered.broadcastWithin turns cond

theorem broadcastWithin_empty {turns : Nat} (enough : (state.conds cond).length ≤ turns) :
    (broadcastWithin cond turns state).conds cond = [] := by
  induction turns generalizing state with
  | zero => exact List.length_eq_zero_iff.mp (Nat.le_zero.mp enough)
  | succ turns ih =>
    unfold broadcastWithin
    split
    case isTrue empty => exact List.isEmpty_iff.mp empty
    case isFalse =>
      apply ih
      rw [condSignal_conds, Function.update_self, List.length_tail]
      omega

theorem perform_answers {operation : Operation Mutex Cond} {next : State Thread Mutex Cond}
    (holds : Invariant state location) (awake : state.stalled thread = false)
    (performed : perform thread state operation = .ok next) {waiter : CondWaiter Thread Mutex}
    (waits : waiter ∈ state.conds cond) : waiter ∈ next.conds cond ∨ Answered next waiter := by
  have locked (mutex : Mutex) : (lock thread mutex state).conds = state.conds := by
    unfold lock
    split <;> rfl
  cases operation with
  | lock mutex =>
    cases performed
    exact .inl (by rw [mutexLock, if_neg (by simp), locked]; exact waits)
  | tryLock mutex =>
    cases performed
    left
    unfold mutexLock
    split
    case isTrue => exact waits
    case isFalse => rw [locked]; exact waits
  | unlock mutex =>
    simp only [perform, mutexUnlock] at performed
    split at performed
    case isTrue =>
      left
      rw [(holds.unlock awake performed).2.2]
      exact waits
    case isFalse => cases performed
  | condWait other mutex =>
    simp only [perform, condWait] at performed
    split at performed
    case h_1 => cases performed
    case h_2 after unlocked =>
      cases performed
      left
      have same := (holds.unlock awake unlocked).2.2
      by_cases here : cond = other
      · subst here
        simp only [stallThread, Function.update_self, same]
        exact List.mem_append_left _ waits
      · simp only [stallThread, Function.update_of_ne here, same]
        exact waits
  | condSignal other =>
    cases performed
    by_cases here : cond = other
    · subst here
      exact condSignal_answers waits
    · left
      rw [condSignal_conds, Function.update_of_ne here]
      exact waits
  | condBroadcast other =>
    cases performed
    by_cases here : cond = other
    · subst here
      exact .inr (broadcastWithin_answers (Nat.le_refl _) waits)
    · left
      rw [condBroadcast, broadcastWithin_other here]
      exact waits

theorem Invariant.of_reachable (reached : (machine Thread Mutex Cond).Reachable state) :
    ∃ location, Invariant state location := by
  refine Machine.Reach.invariant (fun state => ∃ location, Invariant state location) ?_ ?_ reached
  · rintro state rfl
    refine ⟨fun _ => none, ?_, ⟨fun _ => rfl, fun _ => rfl⟩, ?_, fun _ => rfl⟩
    · intro thread place
      cases place <;> rfl
    · intro mutex waits
      exact absurd rfl waits
  · rintro state ⟨thread, operation⟩ next ⟨location, holds⟩ _ stepped
    simp only [machine] at stepped
    split at stepped
    case isTrue => cases stepped
    case isFalse awake => exact holds.perform (by simpa using awake) stepped

/-- What holds of the mutexes and condition variables in every state of every run. -/
structure Right (state : State Thread Mutex Cond) : Prop where
  /-- A thread that waits is in exactly one queue, once. -/
  waiting : ∀ thread, state.stalled thread = true →
    ∃ place, (queue state place).count thread = 1 ∧ ∀ other, other ≠ place → thread ∉ queue state other
  running : ∀ thread, state.stalled thread = false → ∀ place, thread ∉ queue state place
  owned : ∀ mutex, (getMutex state mutex).waiting ≠ [] → (getMutex state mutex).owner ≠ none
  locked : ∀ thread mutex next, (machine Thread Mutex Cond).step state (thread, .lock mutex) = .ok next →
    Locks state next thread mutex
  /-- `trylock` gives up when another thread has the mutex. -/
  tryLocked : ∀ thread mutex next, (machine Thread Mutex Cond).step state (thread, .tryLock mutex) = .ok next →
    if isLocked state thread mutex then next = state else Locks state next thread mutex
  /-- The owner hands the mutex over, by an unlock or a wait. -/
  released : ∀ thread mutex, state.stalled thread = false → (getMutex state mutex).owner = some thread →
    ∀ operation, operation = .unlock mutex ∨ (∃ cond, operation = .condWait cond mutex) →
    ∃ next, (machine Thread Mutex Cond).step state (thread, operation) = .ok next ∧ HandsOver state next mutex
  kept : ∀ label next, (machine Thread Mutex Cond).step state label = .ok next → ∀ mutex owner,
    (getMutex state mutex).owner = some owner → (getMutex next mutex).owner = some owner ∨
      label.1 = owner ∧ (label.2 = .unlock mutex ∨ ∃ cond, label.2 = .condWait cond mutex)
  /-- The waiters get the mutex in the order of their arrival. -/
  fifo : ∀ mutex, state.arrivals mutex = state.grants mutex ++ (getMutex state mutex).waiting
  /-- Each wait is ended by one wakeup, unless it still goes on. -/
  wakeups : ∀ thread, state.stalls thread = state.resumes thread + (state.stalled thread).toNat
  signalled : ∀ thread cond next, (machine Thread Mutex Cond).step state (thread, .condSignal cond) = .ok next →
    next.conds cond = (state.conds cond).tail
  broadcast : ∀ thread cond next, (machine Thread Mutex Cond).step state (thread, .condBroadcast cond) = .ok next →
    next.conds cond = []
  answered : ∀ label next, (machine Thread Mutex Cond).step state label = .ok next → ∀ cond waiter,
    waiter ∈ state.conds cond → waiter ∈ next.conds cond ∨ Answered next waiter

theorem sync_right (reached : (machine Thread Mutex Cond).Reachable state) : Right state := by
  obtain ⟨location, holds⟩ := Invariant.of_reachable reached
  have step_ok {thread : Thread} {operation : Operation Mutex Cond} {next : State Thread Mutex Cond}
      (stepped : (machine Thread Mutex Cond).step state (thread, operation) = .ok next) :
      state.stalled thread = false ∧ perform thread state operation = .ok next := by
    simp only [machine] at stepped
    split at stepped
    case isTrue => cases stepped
    case isFalse awake => exact ⟨by simpa using awake, stepped⟩
  constructor
  case waiting => exact fun thread asleep => holds.located.waiting holds.sleeping asleep
  case running => exact fun thread awake place => holds.located.running holds.sleeping awake place
  case owned => exact holds.owned
  case locked =>
    intro thread mutex next stepped
    cases (step_ok stepped).2
    rw [mutexLock, Bool.false_and, if_neg Bool.false_ne_true]
    exact lock_locks thread mutex state
  case tryLocked =>
    intro thread mutex next stepped
    cases (step_ok stepped).2
    rw [mutexLock, Bool.true_and]
    split
    case isTrue => rfl
    case isFalse => exact lock_locks thread mutex state
  case released =>
    intro thread mutex awake owns operation releases
    have stepped (operation : Operation Mutex Cond) :
        (machine Thread Mutex Cond).step state (thread, operation) = perform thread state operation :=
      if_neg (by simp [awake])
    rw [stepped]
    rcases releases with isUnlock | ⟨cond, isWait⟩
    · exact isUnlock ▸ mutexUnlock_handsOver owns
    · exact isWait ▸ holds.condWait_handsOver awake cond owns
  case kept =>
    rintro ⟨thread, operation⟩ next stepped mutex owner owns
    exact perform_keeps owns (step_ok stepped).2
  case fifo => exact holds.fifo
  case wakeups => exact holds.sleeping.ledger
  case signalled =>
    intro thread cond next stepped
    cases (step_ok stepped).2
    rw [condSignal_conds, Function.update_self]
  case broadcast =>
    intro thread cond next stepped
    cases (step_ok stepped).2
    exact broadcastWithin_empty (Nat.le_refl _)
  case answered =>
    rintro ⟨thread, operation⟩ next stepped cond waiter waits
    obtain ⟨awake, performed⟩ := step_ok stepped
    exact perform_answers holds awake performed waits

end Steps

/-- Two threads wait on a condition variable, one after the other, and a third one wakes both. -/
theorem sync_right_signalled :
    ∃ state : State Nat Nat Nat, (machine Nat Nat Nat).Reachable state ∧ (getMutex state 0).owner = some 0 ∧
      state.stalled 1 = true ∧ Right state := by
  obtain ⟨state, ran, owner, asleep⟩ : ∃ state : State Nat Nat Nat, (machine Nat Nat Nat).run
      ⟨fun _ => none, fun _ => [], fun _ => false, fun _ => [], fun _ => [], fun _ => 0, fun _ => 0⟩
      [(0, .lock 0), (0, .condWait 0 0), (1, .lock 0), (1, .condWait 0 0), (2, .lock 0), (2, .condBroadcast 0),
        (2, .unlock 0)] = .ok state ∧ (getMutex state 0).owner = some 0 ∧ state.stalled 1 = true := ⟨_, rfl, rfl, rfl⟩
  have starts : (machine Nat Nat Nat).initial
      ⟨fun _ => none, fun _ => [], fun _ => false, fun _ => [], fun _ => [], fun _ => 0, fun _ => 0⟩ := rfl
  have reached := Machine.Reachable.run (.initial starts) ran
  exact ⟨state, reached, owner, asleep, sync_right reached⟩

end Sniper.System.SyncServer

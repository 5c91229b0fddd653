import Sniper.System.SyncQueues

/-! `SyncServer::mutexLock` with `tryLock`: `isLocked` lets the owner pass, but `lock` puts it to sleep. -/

namespace Sniper.System.SyncServer

variable {Thread Mutex Cond : Type} [DecidableEq Thread] [DecidableEq Mutex] [DecidableEq Cond]
variable {state : State Thread Mutex Cond} {caller : Thread} {mutex : Mutex}

/-- `mutexLock` with the success that it reports. -/
def mutexLockReturn (thread : Thread) (mutex : Mutex) (tryLock : Bool) (state : State Thread Mutex Cond) :
    State Thread Mutex Cond × Bool :=
  if tryLock && isLocked state thread mutex then (state, false) else (lock thread mutex state, true)

omit [DecidableEq Cond] in
/-- The caller goes on running and has joined no queue, and it is told whether it has become the owner. -/
structure TryReturns (caller : Thread) (mutex : Mutex) (state : State Thread Mutex Cond)
    (returned : State Thread Mutex Cond × Bool) : Prop where
  running : returned.1.stalled caller = false ∧ returned.1.stalls caller = state.stalls caller
  queues : queue returned.1 = queue state
  outside : ∀ place, caller ∉ queue returned.1 place
  success : returned.2 = true ↔ (getMutex state mutex).owner ≠ some caller ∧ (getMutex returned.1 mutex).owner = some caller

theorem tryReturns_free (awake : state.stalled caller = false) (outside : ∀ place, caller ∉ queue state place)
    (free : (getMutex state mutex).owner = none) : TryReturns caller mutex state (mutexLockReturn caller mutex true state) := by
  have taken : mutexLockReturn caller mutex true state =
      (setMutex mutex { getMutex state mutex with owner := some caller } state, true) := by
    simp [mutexLockReturn, isLocked, lock, free]
  rw [taken]
  constructor
  case running => exact ⟨awake, rfl⟩
  case queues => exact queue_own mutex (some caller)
  case outside =>
    rw [queue_own]
    exact outside
  case success => simp [free]

omit [DecidableEq Cond] in
theorem tryReturns_other {owner : Thread} (awake : state.stalled caller = false) (outside : ∀ place, caller ∉ queue state place)
    (owned : (getMutex state mutex).owner = some owner) (other : owner ≠ caller) :
    TryReturns caller mutex state (mutexLockReturn caller mutex true state) := by
  have refused : mutexLockReturn caller mutex true state = (state, false) := by
    simp [mutexLockReturn, isLocked, owned, other]
  rw [refused]
  exact ⟨⟨awake, rfl⟩, rfl, outside, by simp⟩

omit [DecidableEq Cond] in
theorem mutexLockReturn_owner (owned : (getMutex state mutex).owner = some caller) :
    mutexLockReturn caller mutex true state = (stallThread caller (enqueue caller mutex state), true) := by
  simp [mutexLockReturn, isLocked, lock, owned]

theorem mutexLockReturn_returns_iff (reached : (machine Thread Mutex Cond).Reachable state) (awake : state.stalled caller = false)
    (mutex : Mutex) :
    TryReturns caller mutex state (mutexLockReturn caller mutex true state) ↔ (getMutex state mutex).owner ≠ some caller := by
  obtain ⟨location, holds⟩ := Invariant.of_reachable reached
  have outside (place : Place Mutex Cond) : caller ∉ queue state place := holds.located.running holds.sleeping awake place
  constructor
  · intro returns owned
    have running := returns.running.1
    rw [mutexLockReturn_owner owned] at running
    simp [stallThread] at running
  · intro notOwner
    cases owned : (getMutex state mutex).owner with
    | none => exact tryReturns_free awake outside owned
    | some owner =>
      have other : owner ≠ caller := by
        intro same
        rw [owned, same] at notOwner
        exact notOwner rfl
      exact tryReturns_other awake outside owned other

/-- Thread 1 has the mutex and thread 2 waits for it when thread 0 tries. -/
theorem mutexLockReturn_returns_iff_waiter : ∃ state : State Nat Nat Nat, (machine Nat Nat Nat).Reachable state ∧
    (getMutex state 0).owner = some 1 ∧ (getMutex state 0).waiting = [2] ∧
      TryReturns 0 0 state (mutexLockReturn 0 0 true state) := by
  obtain ⟨state, ran, awake, owner, waits⟩ : ∃ state : State Nat Nat Nat, (machine Nat Nat Nat).run
      ⟨fun _ => none, fun _ => [], fun _ => false, fun _ => [], fun _ => [], fun _ => 0, fun _ => 0⟩
        [(1, .lock 0), (2, .lock 0)] = .ok state ∧ state.stalled 0 = false ∧ (getMutex state 0).owner = some 1 ∧
        (getMutex state 0).waiting = [2] := ⟨_, rfl, rfl, rfl, rfl⟩
  have reached : (machine Nat Nat Nat).Reachable state := .run (.initial rfl) ran
  exact ⟨state, reached, owner, waits, (mutexLockReturn_returns_iff reached awake 0).mpr (by simp [owner])⟩

/-- A thread locks a mutex and tries it again. -/
theorem mutexLockReturn_stalls_owner : ¬∀ (state : State Nat Nat Nat) (caller mutex : Nat), (machine Nat Nat Nat).Reachable state →
    state.stalled caller = false → TryReturns caller mutex state (mutexLockReturn caller mutex true state) := by
  intro all
  obtain ⟨state, ran, awake, asleep⟩ : ∃ state : State Nat Nat Nat, (machine Nat Nat Nat).run
      ⟨fun _ => none, fun _ => [], fun _ => false, fun _ => [], fun _ => [], fun _ => 0, fun _ => 0⟩ [(0, .lock 0)] = .ok state ∧
        state.stalled 0 = false ∧ (mutexLockReturn 0 0 true state).1.stalled 0 = true := ⟨_, rfl, rfl, rfl⟩
  have starts : (machine Nat Nat Nat).initial
      ⟨fun _ => none, fun _ => [], fun _ => false, fun _ => [], fun _ => [], fun _ => 0, fun _ => 0⟩ := rfl
  have reached := Machine.Reachable.run (.initial starts) ran
  have running := (all state 0 0 reached awake).running.1
  rw [asleep] at running
  cases running

end Sniper.System.SyncServer

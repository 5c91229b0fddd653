import Mathlib.Logic.Function.Basic
import Mathlib.Logic.Relation
import Sniper.Library.Machine
import Sniper.Library.Outcome

/-! `_SetLock`: the mutexes of one cache set, one for each core that shares the cache.

A shared access takes the mutex of its core, an exclusive one takes all of them in order.
`upgrade` gives up the mutex of its core first, so that two threads that upgrade at the same
time do not wait for each other. -/

namespace Sniper.SetLock

/-- Where a thread is in a call, or what it has acquired between two calls. -/
inductive Control where
  | outside
  | acquireShared
  | shared
  | acquireExclusive (it : Nat)
  | exclusive
  | releaseExclusive (it : Nat)
  | downgrade (i : Nat)
deriving DecidableEq, Repr

inductive Fault where
  | assertion
  | outOfRange
  /-- A mutex is unlocked by a thread that does not own it. -/
  | notOwner
deriving DecidableEq, Repr

inductive Stop where
  | disabled
  | fault (fault : Fault)
deriving DecidableEq, Repr

structure State (size : Nat) (Thread : Type) where
  /-- The owners of the mutexes of `m_locks`. -/
  locks : Fin size → Option Thread
  control : Thread → Control

/-- The calls of a thread, and the next operation on a mutex in its call. -/
inductive Label (Thread : Type) where
  | acquireExclusive (thread : Thread)
  | releaseExclusive (thread : Thread)
  | acquireShared (thread : Thread)
  | releaseShared (thread : Thread)
  | upgrade (thread : Thread)
  | downgrade (thread : Thread)
  | proceed (thread : Thread)

variable {size : Nat} {Thread : Type} [DecidableEq Thread]

namespace State

def goTo (state : State size Thread) (thread : Thread) (control : Control) : State size Thread :=
  { state with control := Function.update state.control thread control }

/-- `PersetLock::acquire` of `m_locks.at(index)`: the thread is blocked while the mutex is taken. -/
def acquire (state : State size Thread) (thread : Thread) (index : Nat) : Except Stop (State size Thread) :=
  if bound : index < size then
    if state.locks ⟨index, bound⟩ = none then
      .ok { state with locks := Function.update state.locks ⟨index, bound⟩ (some thread) }
    else .error .disabled
  else .error (.fault .outOfRange)

def release (state : State size Thread) (thread : Thread) (index : Nat) : Except Stop (State size Thread) :=
  if bound : index < size then
    if state.locks ⟨index, bound⟩ = some thread then
      .ok { state with locks := Function.update state.locks ⟨index, bound⟩ none }
    else .error (.fault .notOwner)
  else .error (.fault .outOfRange)

/-- The next operation of the thread's call; a loop goes on with the next mutex. -/
def proceed (m_core_offset : Nat) (core_id : Thread → Nat) (state : State size Thread) (thread : Thread) :
    Except Stop (State size Thread) :=
  match state.control thread with
  | .outside | .shared | .exclusive => .error .disabled
  | .acquireShared =>
    if m_core_offset ≤ core_id thread ∧ core_id thread < m_core_offset + size then do
      let state ← state.acquire thread (core_id thread - m_core_offset)
      return state.goTo thread .shared
    else .error (.fault .assertion)
  | .acquireExclusive it =>
    if it < size then do
      let state ← state.acquire thread it
      return state.goTo thread (.acquireExclusive (it + 1))
    else .ok (state.goTo thread .exclusive)
  | .releaseExclusive it =>
    if it < size then do
      let state ← state.release thread it
      return state.goTo thread (.releaseExclusive (it + 1))
    else .ok (state.goTo thread .outside)
  | .downgrade i =>
    if i < size then
      if i ≠ core_id thread - m_core_offset then do
        let state ← state.release thread i
        return state.goTo thread (.downgrade (i + 1))
      else .ok (state.goTo thread (.downgrade (i + 1)))
    else .ok (state.goTo thread .shared)

/-- A thread releases, upgrades and downgrades what it has acquired. -/
def step (m_core_offset : Nat) (core_id : Thread → Nat) (state : State size Thread) :
    Label Thread → Except Stop (State size Thread)
  | .acquireExclusive thread =>
    if state.control thread = .outside then .ok (state.goTo thread (.acquireExclusive 0)) else .error .disabled
  | .releaseExclusive thread =>
    if state.control thread = .exclusive then .ok (state.goTo thread (.releaseExclusive 0)) else .error .disabled
  | .acquireShared thread =>
    if state.control thread = .outside then .ok (state.goTo thread .acquireShared) else .error .disabled
  | .releaseShared thread =>
    if state.control thread = .shared then do
      let state ← state.release thread (core_id thread - m_core_offset)
      return state.goTo thread .outside
    else .error .disabled
  | .upgrade thread =>
    if state.control thread = .shared then do
      let state ← state.release thread (core_id thread - m_core_offset)
      return state.goTo thread (.acquireExclusive 0)
    else .error .disabled
  | .downgrade thread =>
    if state.control thread = .exclusive then .ok (state.goTo thread (.downgrade 0)) else .error .disabled
  | .proceed thread => state.proceed m_core_offset core_id thread

end State

def machine (size m_core_offset : Nat) {Thread : Type} [DecidableEq Thread] (core_id : Thread → Nat) :
    Machine (State size Thread) (Label Thread) Stop where
  initial state := state = { locks := fun _ => none, control := fun _ => .outside }
  step := State.step m_core_offset core_id

/-! ### Who owns which mutex -/

/-- The mutexes that a thread owns; `own` is the one of its core. -/
def Control.Holds (own : Nat) : Control → Nat → Prop
  | .outside, _ | .acquireShared, _ => False
  | .shared, index => index = own
  | .acquireExclusive it, index => index < it
  | .exclusive, _ => True
  | .releaseExclusive it, index => it ≤ index
  | .downgrade i, index => i ≤ index ∨ index = own

section Invariant

variable {m_core_offset : Nat} {core_id : Thread → Nat} {state next : State size Thread} {thread other : Thread}
  {control : Control} {index : Nat} {label : Label Thread}

def Accounted (m_core_offset : Nat) (core_id : Thread → Nat) (state : State size Thread) : Prop :=
  ∀ (index : Fin size) (thread : Thread), state.locks index = some thread ↔
    (state.control thread).Holds (core_id thread - m_core_offset) index

theorem Accounted.goTo (accounted : Accounted m_core_offset core_id state)
    (same : ∀ index < size, control.Holds (core_id thread - m_core_offset) index ↔
      (state.control thread).Holds (core_id thread - m_core_offset) index) :
    Accounted m_core_offset core_id (state.goTo thread control) := by
  intro index other
  change state.locks index = some other ↔ (Function.update state.control thread control other).Holds _ _
  rw [accounted index other]
  by_cases isThread : other = thread
  · subst isThread
    rw [Function.update_self]
    exact (same index index.isLt).symm
  · rw [Function.update_of_ne isThread]

theorem Accounted.acquire (accounted : Accounted m_core_offset core_id state) (bound : index < size)
    (more : ∀ at' < size, control.Holds (core_id thread - m_core_offset) at' ↔
      at' = index ∨ (state.control thread).Holds (core_id thread - m_core_offset) at') :
    Meets (· = .disabled) (state.acquire thread index) fun next =>
      Accounted m_core_offset core_id (next.goTo thread control) := by
  unfold State.acquire
  rw [dif_pos bound]
  refine .ite (fun free => .ok fun at' other => ?_) fun _ => .error rfl
  change Function.update state.locks ⟨index, bound⟩ (some thread) at' = some other ↔
    (Function.update state.control thread control other).Holds _ _
  have before := accounted at' other
  by_cases isThread : other = thread
  · subst isThread
    rw [Function.update_self, more at' at'.isLt, ← before]
    by_cases same : at' = ⟨index, bound⟩
    · simp [same]
    · rw [Function.update_of_ne same]
      simp [Fin.ext_iff.not.mp same]
  · rw [Function.update_of_ne isThread, ← before]
    by_cases same : at' = ⟨index, bound⟩
    · subst same
      rw [Function.update_self, free]
      simp [Ne.symm isThread]
    · rw [Function.update_of_ne same]

theorem Accounted.release (accounted : Accounted m_core_offset core_id state) (bound : index < size)
    (holds : (state.control thread).Holds (core_id thread - m_core_offset) index)
    (less : ∀ at' < size, control.Holds (core_id thread - m_core_offset) at' ↔
      at' ≠ index ∧ (state.control thread).Holds (core_id thread - m_core_offset) at') :
    Meets (fun _ => False) (state.release thread index) fun next =>
      Accounted m_core_offset core_id (next.goTo thread control) := by
  have owned := (accounted ⟨index, bound⟩ thread).mpr holds
  unfold State.release
  rw [dif_pos bound, if_pos owned]
  refine .ok fun at' other => ?_
  change Function.update state.locks ⟨index, bound⟩ none at' = some other ↔
    (Function.update state.control thread control other).Holds _ _
  have before := accounted at' other
  by_cases isThread : other = thread
  · subst isThread
    rw [Function.update_self, less at' at'.isLt, ← before]
    by_cases same : at' = ⟨index, bound⟩
    · simp [same]
    · rw [Function.update_of_ne same]
      simp [Fin.ext_iff.not.mp same]
  · rw [Function.update_of_ne isThread, ← before]
    by_cases same : at' = ⟨index, bound⟩
    · subst same
      rw [Function.update_self, owned]
      simp [Ne.symm isThread]
    · rw [Function.update_of_ne same]

def Shares (size m_core_offset : Nat) (core_id : Thread → Nat) : Prop :=
  ∀ thread, m_core_offset ≤ core_id thread ∧ core_id thread < m_core_offset + size

/-- Positions at which the next operation is no acquisition. -/
def Control.Releases : Control → Prop
  | .releaseExclusive _ | .downgrade _ => True
  | _ => False

theorem Accounted.proceed_releases (accounted : Accounted m_core_offset core_id state)
    (releases : (state.control thread).Releases) :
    Meets (fun _ => False) (state.proceed m_core_offset core_id thread) (Accounted m_core_offset core_id) := by
  unfold State.proceed
  cases position : state.control thread with
  | releaseExclusive it =>
    refine .ite (fun inside => ?_) fun done => .ok (accounted.goTo fun index bound => ?_)
    · refine .bind (accounted.release inside ?_ fun index _ => ?_) fun _ kept => kept
      · rw [position]
        exact Nat.le_refl it
      · rw [position]
        simp only [Control.Holds]
        omega
    · rw [position]
      simp only [Control.Holds, false_iff]
      omega
  | downgrade i =>
    refine .ite (fun inside => .ite (fun other => ?_) fun own => .ok (accounted.goTo fun index bound => ?_))
      fun done => .ok (accounted.goTo fun index bound => ?_)
    · refine .bind (accounted.release inside ?_ fun index _ => ?_) fun _ kept => kept
      · rw [position]
        exact .inl (Nat.le_refl i)
      · rw [position]
        simp only [Control.Holds]
        omega
    · rw [position]
      simp only [Control.Holds]
      omega
    · rw [position]
      simp only [Control.Holds]
      omega
  | outside | acquireShared | shared | acquireExclusive | exclusive =>
    rw [position] at releases
    exact releases.elim

theorem Accounted.proceed (shares : Shares size m_core_offset core_id) (accounted : Accounted m_core_offset core_id state) :
    Meets (· = .disabled) (state.proceed m_core_offset core_id thread) (Accounted m_core_offset core_id) := by
  by_cases releases : (state.control thread).Releases
  · exact (accounted.proceed_releases releases).widen fun _ => False.elim
  unfold State.proceed
  cases position : state.control thread with
  | outside | shared | exclusive => exact .error rfl
  | acquireShared =>
    have member := shares thread
    simp only [if_pos member]
    refine .bind (accounted.acquire (by omega) fun index bound => ?_) fun _ kept => kept
    rw [position]
    simp only [Control.Holds, or_false]
  | acquireExclusive it =>
    refine .ite (fun inside => ?_) fun done => .ok (accounted.goTo fun index bound => ?_)
    · refine .bind (accounted.acquire inside fun index bound => ?_) fun _ kept => kept
      rw [position]
      simp only [Control.Holds]
      omega
    · rw [position]
      simp only [Control.Holds, true_iff]
      omega
  | releaseExclusive | downgrade =>
    rw [position] at releases
    exact absurd trivial releases

theorem Accounted.step (shares : Shares size m_core_offset core_id) (accounted : Accounted m_core_offset core_id state)
    (label : Label Thread) : Meets (· = .disabled) (state.step m_core_offset core_id label) (Accounted m_core_offset core_id) := by
  have calls {thread : Thread} {before after : Control}
      (same : ∀ index < size, after.Holds (core_id thread - m_core_offset) index ↔
        before.Holds (core_id thread - m_core_offset) index) :
      Meets (· = Stop.disabled) (if state.control thread = before then .ok (state.goTo thread after) else .error .disabled)
        (Accounted m_core_offset core_id) :=
    .ite (fun position => .ok (accounted.goTo (position ▸ same))) fun _ => .error rfl
  have leaves {thread : Thread} {after : Control}
      (none_ : ∀ index < size, ¬ after.Holds (core_id thread - m_core_offset) index) (position : state.control thread = .shared) :
      Meets (· = .disabled) (state.release thread (core_id thread - m_core_offset)) fun next =>
        Accounted m_core_offset core_id (next.goTo thread after) := by
    have member := shares thread
    refine .widen (accounted.release (by omega) ?_ fun index bound => ?_) fun _ => False.elim
    · rw [position]
      rfl
    · rw [position]
      exact ⟨fun held => absurd held (none_ index bound), fun other => absurd other.2 other.1⟩
  cases label with
  | acquireExclusive thread => exact calls fun index _ => by simp [Control.Holds]
  | releaseExclusive thread => exact calls fun index _ => by simp [Control.Holds]
  | acquireShared thread => exact calls fun index _ => by simp [Control.Holds]
  | downgrade thread => exact calls fun index _ => by simp [Control.Holds]
  | releaseShared thread =>
    refine .ite (fun position => ?_) fun _ => .error rfl
    exact .bind (leaves (by simp [Control.Holds]) position) fun _ kept => kept
  | upgrade thread =>
    refine .ite (fun position => ?_) fun _ => .error rfl
    exact .bind (leaves (by simp [Control.Holds]) position) fun _ kept => kept
  | proceed thread => exact accounted.proceed shares

theorem accounted_reachable (shares : Shares size m_core_offset core_id)
    (reached : (machine size m_core_offset core_id).Reachable state) : Accounted m_core_offset core_id state := by
  refine reached.invariant (Accounted m_core_offset core_id) ?_ fun state label next accounted _ stepped => ?_
  · rintro _ rfl index thread
    simp [Control.Holds]
  · exact (accounted.step shares label).of_ok stepped

/-- A thread with exclusive access is alone, shared accesses are of different cores, and no
mutex is released by a thread that does not own it. -/
theorem exclusive_access_is_alone (size m_core_offset : Nat) (Thread : Type) [DecidableEq Thread] (core_id : Thread → Nat)
    (shares : ∀ thread, m_core_offset ≤ core_id thread ∧ core_id thread < m_core_offset + size) (state : State size Thread)
    (reached : (machine size m_core_offset core_id).Reachable state) :
    (∀ thread other, thread ≠ other → state.control thread = .exclusive →
      state.control other ≠ .shared ∧ state.control other ≠ .exclusive) ∧
    (∀ thread other, thread ≠ other → state.control thread = .shared → state.control other = .shared →
      core_id thread ≠ core_id other) ∧
    ∀ label fault, (machine size m_core_offset core_id).step state label ≠ .error (.fault fault) := by
  have accounted := accounted_reachable shares reached
  have apart {thread other : Thread} (different : thread ≠ other)
      (mine : (state.control thread).Holds (core_id thread - m_core_offset) (core_id other - m_core_offset))
      (its : (state.control other).Holds (core_id other - m_core_offset) (core_id other - m_core_offset)) : False := by
    have member := shares other
    have bound : core_id other - m_core_offset < size := by omega
    have owner := (accounted ⟨_, bound⟩ thread).mpr mine
    rw [(accounted ⟨_, bound⟩ other).mpr its] at owner
    exact different (Option.some.inj owner).symm
  refine ⟨fun thread other different exclusive => ⟨fun shared => ?_, fun exclusive' => ?_⟩, ?_, fun label fault failed => ?_⟩
  · exact apart different (by rw [exclusive]; trivial) (by rw [shared]; rfl)
  · exact apart different (by rw [exclusive]; trivial) (by rw [exclusive']; trivial)
  · intro thread other different shared shared' same
    exact apart different (by rw [shared, same]; rfl) (by rw [shared']; rfl)
  · cases (accounted.step shares label).of_error failed

/-- A thread that has shared access upgrades it. -/
theorem exclusive_access_is_alone_upgraded : ∃ state : State 2 (Fin 2),
    (machine 2 4 fun thread : Fin 2 => 4 + thread.val).Reachable state ∧ state.control 0 = .exclusive ∧
      state.control 1 ≠ .shared ∧ state.control 1 ≠ .exclusive := by
  have reached : ∃ state, (machine 2 4 fun thread : Fin 2 => 4 + thread.val).run
      { locks := fun _ => none, control := fun _ => .outside }
      [.acquireShared 0, .proceed 0, .upgrade 0, .proceed 0, .acquireShared 1, .proceed 0, .proceed 0] = .ok state ∧
      state.control 0 = .exclusive := ⟨_, rfl, rfl⟩
  obtain ⟨state, ran, exclusive⟩ := reached
  have reached : (machine 2 4 fun thread : Fin 2 => 4 + thread.val).Reachable state := .run (.initial rfl) ran
  exact ⟨state, reached, exclusive,
    (exclusive_access_is_alone 2 4 (Fin 2) _ (by decide) state reached).1 0 1 (by decide) exclusive⟩

/-! ### No two threads wait for each other -/

/-- The mutex that a thread is about to acquire. -/
def Control.Wants (own : Nat) : Control → Nat → Prop
  | .acquireShared, index => index = own
  | .acquireExclusive it, index => index = it
  | _, _ => False

def State.WaitsFor (m_core_offset : Nat) (core_id : Thread → Nat) (state : State size Thread) (thread other : Thread) : Prop :=
  ∃ index : Fin size, (state.control thread).Wants (core_id thread - m_core_offset) index ∧ state.locks index = some other

def State.Unblocked (m_core_offset : Nat) (core_id : Thread → Nat) (state : State size Thread) (thread : Thread) : Prop :=
  (∃ next, state.proceed m_core_offset core_id thread = .ok next) ∨ state.control thread = .shared ∨
    state.control thread = .exclusive

theorem Accounted.unblocked_of_releases (accounted : Accounted m_core_offset core_id state)
    (releases : (state.control thread).Releases) : state.Unblocked m_core_offset core_id thread := by
  obtain ⟨next, ran, _⟩ := (accounted.proceed_releases releases).ends fun _ => id
  exact .inl ⟨next, ran⟩

omit [DecidableEq Thread] in
theorem State.acquire_ok_or_taken (state : State size Thread) (thread : Thread) (bound : index < size) :
    (∃ next, state.acquire thread index = .ok next) ∨ ∃ owner, state.locks ⟨index, bound⟩ = some owner := by
  cases taken : state.locks ⟨index, bound⟩ with
  | none => exact .inl ⟨_, by rw [State.acquire, dif_pos bound, if_pos taken]⟩
  | some owner => exact .inr ⟨owner, rfl⟩

/-- The threads that wait for each other lead to one that is not held up. -/
def State.Leads (m_core_offset : Nat) (core_id : Thread → Nat) (state : State size Thread) (thread : Thread) : Prop :=
  ∃ last, Relation.ReflTransGen (state.WaitsFor m_core_offset core_id) thread last ∧
    state.Unblocked m_core_offset core_id last

/-- A thread that waits for another one is led on by it, if the other one is not itself in `acquire_exclusive`. -/
theorem Accounted.leads_of_taken (accounted : Accounted m_core_offset core_id state) (bound : index < size)
    (wants : (state.control thread).Wants (core_id thread - m_core_offset) index)
    (taken : state.locks ⟨index, bound⟩ = some other)
    (ahead : ∀ it, state.control other = .acquireExclusive it → index < it → state.Leads m_core_offset core_id other) :
    state.Leads m_core_offset core_id thread := by
  have waits : state.WaitsFor m_core_offset core_id thread other := ⟨⟨index, bound⟩, wants, taken⟩
  have holds := (accounted ⟨index, bound⟩ other).mp taken
  cases position : state.control other with
  | outside | acquireShared =>
    rw [position] at holds
    exact holds.elim
  | shared => exact ⟨other, .single waits, .inr (.inl position)⟩
  | exclusive => exact ⟨other, .single waits, .inr (.inr position)⟩
  | releaseExclusive | downgrade =>
    exact ⟨other, .single waits, accounted.unblocked_of_releases (by rw [position]; trivial)⟩
  | acquireExclusive it =>
    rw [position] at holds
    obtain ⟨last, chain, free⟩ := ahead it position holds
    exact ⟨last, .head waits chain, free⟩

/-- The mutexes are acquired in order, so a thread in `acquire_exclusive` waits only for threads that are further. -/
theorem Accounted.leads_of_acquireExclusive (accounted : Accounted m_core_offset core_id state) {it : Nat}
    (position : state.control thread = .acquireExclusive it) : state.Leads m_core_offset core_id thread := by
  generalize left : size - it = remaining
  induction remaining using Nat.strongRecOn generalizing thread it with
  | ind remaining ih =>
    by_cases inside : it < size
    · rcases state.acquire_ok_or_taken thread inside with ⟨next, acquired⟩ | ⟨owner, taken⟩
      · refine ⟨thread, .refl, .inl ⟨next.goTo thread (.acquireExclusive (it + 1)), ?_⟩⟩
        simp only [State.proceed, position, if_pos inside, acquired]
        rfl
      · refine accounted.leads_of_taken inside (by rw [position]; rfl) taken fun further position' ahead => ?_
        exact ih (size - further) (by omega) position' rfl
    · refine ⟨thread, .refl, .inl ⟨state.goTo thread .exclusive, ?_⟩⟩
      simp only [State.proceed, position, if_neg inside]

theorem Accounted.leads (shares : Shares size m_core_offset core_id) (accounted : Accounted m_core_offset core_id state)
    (calling : state.control thread ≠ .outside) : state.Leads m_core_offset core_id thread := by
  cases position : state.control thread with
  | outside => exact absurd position calling
  | shared => exact ⟨thread, .refl, .inr (.inl position)⟩
  | exclusive => exact ⟨thread, .refl, .inr (.inr position)⟩
  | releaseExclusive | downgrade => exact ⟨thread, .refl, accounted.unblocked_of_releases (by rw [position]; trivial)⟩
  | acquireExclusive it => exact accounted.leads_of_acquireExclusive position
  | acquireShared =>
    have member := shares thread
    have bound : core_id thread - m_core_offset < size := by omega
    rcases state.acquire_ok_or_taken thread bound with ⟨next, acquired⟩ | ⟨owner, taken⟩
    · refine ⟨thread, .refl, .inl ⟨next.goTo thread .shared, ?_⟩⟩
      simp only [State.proceed, position, if_pos member, acquired]
      rfl
    · refine accounted.leads_of_taken bound (by rw [position]; rfl) taken fun it position' _ => ?_
      exact accounted.leads_of_acquireExclusive position'

end Invariant

/-- Whoever is in a call is not held up for good by others in calls: it can go on, or the
threads that it waits for lead to one that can, or to one that has its access and is to release it. -/
theorem no_deadlock (size m_core_offset : Nat) (Thread : Type) [DecidableEq Thread] (core_id : Thread → Nat)
    (shares : ∀ thread, m_core_offset ≤ core_id thread ∧ core_id thread < m_core_offset + size) (state : State size Thread)
    (reached : (machine size m_core_offset core_id).Reachable state) (thread : Thread)
    (calling : state.control thread ≠ .outside) :
    ∃ last, Relation.ReflTransGen (state.WaitsFor m_core_offset core_id) thread last ∧
      ((∃ next, (machine size m_core_offset core_id).step state (.proceed last) = .ok next) ∨
        state.control last = .shared ∨ state.control last = .exclusive) :=
  (accounted_reachable shares reached).leads shares calling

/-- Two cores upgrade at the same time: one waits for the other, which can go on. -/
theorem no_deadlock_two_upgrades : ∃ state : State 2 (Fin 2),
    (machine 2 4 fun thread : Fin 2 => 4 + thread.val).Reachable state ∧
      state.control 0 = .acquireExclusive 1 ∧ state.control 1 = .acquireExclusive 0 ∧
      state.WaitsFor 4 (fun thread => 4 + thread.val) 1 0 ∧
      ∃ last, Relation.ReflTransGen (state.WaitsFor 4 fun thread => 4 + thread.val) 1 last ∧
        ((∃ next, (machine 2 4 fun thread : Fin 2 => 4 + thread.val).step state (.proceed last) = .ok next) ∨
          state.control last = .shared ∨ state.control last = .exclusive) := by
  have reached : ∃ state, (machine 2 4 fun thread : Fin 2 => 4 + thread.val).run
      { locks := fun _ => none, control := fun _ => .outside }
      [.acquireShared 0, .proceed 0, .acquireShared 1, .proceed 1, .upgrade 0, .upgrade 1, .proceed 0] = .ok state ∧
      state.control 0 = .acquireExclusive 1 ∧ state.control 1 = .acquireExclusive 0 ∧ state.locks 0 = some 0 :=
    ⟨_, rfl, rfl, rfl, rfl⟩
  obtain ⟨state, ran, first, second, taken⟩ := reached
  have reached : (machine 2 4 fun thread : Fin 2 => 4 + thread.val).Reachable state := .run (.initial rfl) ran
  refine ⟨state, reached, first, second, ⟨0, by rw [second]; rfl, taken⟩, ?_⟩
  exact no_deadlock 2 4 (Fin 2) _ (by decide) state reached 1 (by rw [second]; rintro ⟨⟩)

end Sniper.SetLock

import Sniper.Scheduler.Sequential

/-! The sets of `SchedulerSequential`, and what holds of the threads of each. -/

namespace Sniper.Scheduler.Sequential

def firstOf (seqs : List Int) (set : Nat) : Int := (seqs.take set).sum

def setOf (seqs : List Int) (thread : Nat) : Option Nat :=
  (List.range seqs.length).find? fun set => decide ((thread : Int) < firstOf seqs (set + 1))

variable {cores : Nat} {seqs : List Int} {set thread other : Nat}

theorem firstOf_succ {seq : Int} (there : seqs[set]? = some seq) : firstOf seqs (set + 1) = firstOf seqs set + seq := by
  rw [firstOf, firstOf, List.take_add_one, there, List.sum_append]
  simp

theorem setOf_eq_some : setOf seqs thread = some set ↔
    set < seqs.length ∧ (thread : Int) < firstOf seqs (set + 1) ∧ ∀ earlier < set, firstOf seqs (earlier + 1) ≤ thread := by
  rw [setOf, List.find?_range_eq_some]
  simp only [decide_eq_true_eq, List.mem_range, Bool.not_eq_true', decide_eq_false_iff_not, not_lt]
  tauto

theorem setOf_between {between : Nat} (first : setOf seqs thread = some set) (second : setOf seqs other = some set)
    (lower : thread ≤ between) (upper : between ≤ other) : setOf seqs between = some set := by
  obtain ⟨inside, -, passed⟩ := setOf_eq_some.mp first
  obtain ⟨-, below, -⟩ := setOf_eq_some.mp second
  refine setOf_eq_some.mpr ⟨inside, by omega, fun earlier before => ?_⟩
  have reached := passed earlier before
  omega

/-! ## The constructor -/

section Constructor

variable {list : List (Fin cores)} {set : Nat}

theorem firstThreads_enough (nextThread : Fin cores → Int) (consecutive : list.map Fin.val = List.range' set list.length)
    (fits : set + list.length ≤ seqs.length) :
    ∃ result, firstThreads seqs list (firstOf seqs set) nextThread = .ok result ∧
      ∀ core, result core = if core ∈ list then firstOf seqs core else nextThread core := by
  induction list generalizing set nextThread with
  | nil => exact ⟨nextThread, rfl, fun core => by simp⟩
  | cons core rest ih =>
    rw [List.map_cons, List.length_cons, List.range'_succ, List.cons.injEq] at consecutive
    obtain ⟨isFirst, later⟩ := consecutive
    rw [List.length_cons] at fits
    have inside : set < seqs.length := by omega
    have there : seqs[core.val]? = some seqs[set] := by rw [isFirst, List.getElem?_eq_getElem inside]
    obtain ⟨result, filled, values⟩ := ih (Function.update nextThread core (firstOf seqs set)) later (by omega)
    refine ⟨result, ?_, fun other => ?_⟩
    · rw [firstThreads, there]
      rw [firstOf_succ (List.getElem?_eq_getElem inside)] at filled
      exact filled
    · rw [values other]
      by_cases same : other = core
      · rw [same, Function.update_self, isFirst, ite_self, if_pos List.mem_cons_self]
      · simp only [Function.update_of_ne same, List.mem_cons, same, false_or]

theorem firstThreads_few (nextThread : Fin cores → Int) (consecutive : list.map Fin.val = List.range' set list.length)
    (starts : set ≤ seqs.length) (few : seqs.length < set + list.length) (nextTte : Int) :
    firstThreads seqs list nextTte nextThread = .error .outsideSeqs := by
  induction list generalizing set nextTte nextThread with
  | nil => exact absurd few (Nat.not_lt.mpr starts)
  | cons core rest ih =>
    rw [List.map_cons, List.length_cons, List.range'_succ, List.cons.injEq] at consecutive
    obtain ⟨isFirst, later⟩ := consecutive
    rw [List.length_cons] at few
    rw [firstThreads, isFirst]
    cases there : seqs[set]? with
    | none => rfl
    | some seq =>
      have inside := (List.getElem?_eq_some_iff.mp there).1
      exact ih _ later inside (by omega) _

theorem consecutive_finRange (cores : Nat) :
    (List.finRange cores).map Fin.val = List.range' 0 (List.finRange cores).length := by
  rw [List.map_coe_finRange_eq_range, List.length_finRange, List.range_eq_range']

theorem create_few {sequence : List Char} (few : (parseSequence sequence).length < cores) :
    create cores sequence = .error .outsideSeqs := by
  have fails := firstThreads_few (fun _ : Fin cores => 0) (consecutive_finRange cores) (Nat.zero_le _)
    (show (parseSequence sequence).length < 0 + (List.finRange cores).length by simpa using few) 0
  simp only [create, if_neg (Nat.not_lt.mpr (Nat.le_of_lt few)), fails]

theorem create_enough {sequence : List Char} (same : (parseSequence sequence).length = cores) :
    create cores sequence = .ok
      { base := emptyState, coreWaitingThreads := fun _ => [], seqs := parseSequence sequence, currentPinballSet := 0,
        nextThreadToExecute := fun core => firstOf (parseSequence sequence) core } := by
  obtain ⟨result, filled, values⟩ := firstThreads_enough (fun _ : Fin cores => 0) (consecutive_finRange cores)
    (show 0 + (List.finRange cores).length ≤ (parseSequence sequence).length by simp [same])
  have isFirst : result = fun core => firstOf (parseSequence sequence) core.val := by
    funext core
    rw [values, if_pos (List.mem_finRange core)]
  have start : firstOf (parseSequence sequence) 0 = 0 := rfl
  rw [start] at filled
  simp only [create, same, Nat.lt_irrefl, if_false, filled, isFirst]

end Constructor

/-! ## Runs in order -/

def Started (state : State cores) (thread : Nat) : Prop :=
  thread < state.base.numThreads ∧ state.base.status thread ≠ .initializing

def Exited (state : State cores) (thread : Nat) : Prop := thread < state.base.numThreads ∧ state.base.status thread = .idle

structure Scheduled (state : State cores) (core : Fin cores) (thread : Nat) : Prop where
  runnable : state.base.threadsRunnable thread = true
  running : state.base.coreThreadRunning core = some thread
  placed : state.base.threadCore thread = some core

/-- One after the other, the threads of a set are on its core, and each is followed by the next one as soon as that can run. -/
structure InOrder (seqs : List Int) (state : State cores) : Prop where
  own : ∀ thread core, state.base.threadCore thread = some core → setOf seqs thread = some core.val
  alone : ∀ thread other core, state.base.threadCore thread = some core → state.base.threadCore other = some core → thread = other
  ordered : ∀ thread core, state.base.threadCore thread = some core →
    ∀ earlier < thread, setOf seqs earlier = some core.val → Exited state earlier
  handed : ∀ thread (core : Fin cores), setOf seqs thread = some core.val → setOf seqs (thread + 1) = some core.val →
    Exited state thread → Started state (thread + 1) → Exited state (thread + 1) ∨ Scheduled state core (thread + 1)

/-- A thread starts once, after it has been created, and exits once, on a core. -/
def Orderly (state : State cores) : Label → Prop
  | .create => True
  | .start thread => thread < state.base.numThreads ∧ state.base.status thread = .initializing
  | .exit thread _ => thread < state.base.numThreads ∧ state.base.status thread = .running ∧ state.base.threadCore thread ≠ none

/-- A set has threads left where one is created, the flag of a thread that starts is within reach of one enlargement, and where
a thread exits the next one of its set has started. -/
def HandsOver (seqs : List Int) (state : State cores) : Label → Prop
  | .create => ∃ seq, state.seqs[state.currentPinballSet]? = some seq ∧ 0 < seq
  | .start thread => thread < state.base.runnableSize + 16
  | .exit thread _ => setOf seqs (thread + 1) = setOf seqs thread → Started state (thread + 1)

/-! ## The invariant -/

structure Away (state : State cores) (thread : Nat) : Prop where
  nowhere : state.base.threadCore thread = none
  waits : state.base.threadsRunnable thread = false

/-- No thread of the core's set has been created. -/
structure Unused (seqs : List Int) (state : State cores) (core : Fin cores) : Prop where
  free : state.base.coreThreadRunning core = none
  none_created : ∀ thread, setOf seqs thread = some core.val → state.base.numThreads ≤ thread
  empty : state.coreWaitingThreads core = []
  nextThread : state.nextThreadToExecute core = firstOf seqs core

/-- The thread that a core has, before its start, while it runs, or after its exit as the last one of its set. -/
inductive Current (seqs : List Int) (state : State cores) (core : Fin cores) (thread : Nat) : Prop where
  | initializing (status : state.base.status thread = .initializing) (nextThread : state.nextThreadToExecute core = thread)
      (waits : state.base.threadsRunnable thread = false) (placed : state.base.threadCore thread = some core)
  | running (status : state.base.status thread = .running) (nextThread : state.nextThreadToExecute core = thread + 1)
      (scheduled : Scheduled state core thread)
  | last (status : state.base.status thread = .idle) (isLast : setOf seqs (thread + 1) ≠ some core.val) (away : Away state thread)

structure Busy (seqs : List Int) (state : State cores) (core : Fin cores) (thread : Nat) : Prop where
  running : state.base.coreThreadRunning core = some thread
  created : thread < state.base.numThreads
  own : setOf seqs thread = some core.val
  earlier : ∀ before < thread, setOf seqs before = some core.val → Away state before ∧ state.base.status before = .idle
  later : ∀ after, thread < after → after < state.base.numThreads → setOf seqs after = some core.val →
    Away state after ∧ (state.base.status after = .initializing ∨ state.base.status after = .stalled true)
  waiting : ∀ other, other ∈ state.coreWaitingThreads core ↔
    thread < other ∧ setOf seqs other = some core.val ∧ Started state other
  nodup : (state.coreWaitingThreads core).Nodup
  current : Current seqs state core thread

def Served (seqs : List Int) (state : State cores) (core : Fin cores) : Prop :=
  Unused seqs state core ∨ ∃ thread, Busy seqs state core thread

/-- What has been taken from the numbers of the sets. -/
structure Cursor (seqs : List Int) (state : State cores) : Prop where
  length : state.seqs.length = seqs.length
  passed : ∀ set ≤ state.currentPinballSet, firstOf seqs set ≤ firstOf seqs state.currentPinballSet
  reached : firstOf seqs state.currentPinballSet ≤ state.base.numThreads
  left : ∀ seq, state.seqs[state.currentPinballSet]? = some seq →
    firstOf seqs (state.currentPinballSet + 1) = state.base.numThreads + seq
  ahead : ∀ set, state.currentPinballSet < set → state.seqs[set]? = seqs[set]?

structure Sizes (state : Scheduler.State cores) : Prop where
  info : 16 ∣ state.infoSize
  runnable : 16 ∣ state.runnableSize
  created : state.numThreads ≤ state.infoSize
  empty : state.numThreads = 0 → state.runnableSize = 16
  enough : 0 < state.numThreads → state.runnableSize ≤ state.infoSize
  started : ∀ thread < state.numThreads, state.status thread ≠ .initializing → thread < state.runnableSize

structure Invariant (seqs : List Int) (state : State cores) : Prop where
  cursor : Cursor seqs state
  sizes : Sizes state.base
  pinned : ∀ thread < state.base.numThreads, ∃ core : Fin cores, setOf seqs thread = some core.val ∧
    (state.base.threadInfo thread).coreAffinity = fun other => decide (other = core)
  fresh : ∀ thread, state.base.numThreads ≤ thread →
    state.base.threadInfo thread = .new ∧ Away state thread
  inverse : ∀ core thread, state.base.coreThreadRunning core = some thread ↔
    (state.base.threadInfo thread).coreRunning = some core
  served : ∀ core, Served seqs state core

variable {state next : State cores} {core : Fin cores}

theorem Busy.same_thread (busy : Busy seqs state core thread) (own : setOf seqs other = some core.val)
    (created : other < state.base.numThreads) (notAway : ¬Away state other) : other = thread := by
  obtain before | same | after := Nat.lt_trichotomy other thread
  · exact absurd (busy.earlier other before own).1 notAway
  · exact same
  · exact absurd (busy.later other after created own).1 notAway

theorem Current.placed_on {home : Fin cores} (current : Current seqs state core thread)
    (placed : state.base.threadCore thread = some home) : home = core := by
  cases current with
  | initializing _ _ _ here => exact Option.some.inj (placed.symm.trans here)
  | running _ _ scheduled => exact Option.some.inj (placed.symm.trans scheduled.placed)
  | last _ _ away => exact absurd (away.nowhere.symm.trans placed) (by simp)

namespace Invariant

variable (invariant : Invariant seqs state)
include invariant

theorem created_of_not_away (notAway : ¬Away state thread) : thread < state.base.numThreads :=
  Nat.lt_of_not_le fun fresh => notAway (invariant.fresh thread fresh).2

theorem busy_of_created (own : setOf seqs thread = some core.val) (created : thread < state.base.numThreads) :
    ∃ first, Busy seqs state core first := by
  obtain unused | busy := invariant.served core
  · exact absurd created (Nat.not_lt.mpr (unused.none_created thread own))
  · exact busy

theorem busy_of_placed (placed : state.base.threadCore thread = some core) : Busy seqs state core thread := by
  have notAway : ¬Away state thread := fun away => absurd (away.nowhere.symm.trans placed) (by simp)
  have created := invariant.created_of_not_away notAway
  obtain ⟨home, own, -⟩ := invariant.pinned thread created
  obtain ⟨first, busy⟩ := invariant.busy_of_created own created
  have same := busy.same_thread own created notAway
  subst same
  have isHome := busy.current.placed_on placed
  subst isHome
  exact busy

theorem busy_of_running (running : state.base.coreThreadRunning core = some thread) : Busy seqs state core thread := by
  obtain unused | ⟨first, busy⟩ := invariant.served core
  · exact absurd (unused.free.symm.trans running) (by simp)
  · have same := Option.some.inj (busy.running.symm.trans running)
    exact same ▸ busy

theorem inOrder : InOrder seqs state where
  own _ _ placed := (invariant.busy_of_placed placed).own
  alone thread other core placed placed' := by
    have first := (invariant.busy_of_placed placed).running
    have second := (invariant.busy_of_placed placed').running
    exact Option.some.inj (first.symm.trans second)
  ordered thread core placed earlier before own := by
    have busy := invariant.busy_of_placed placed
    exact ⟨Nat.lt_trans before busy.created, (busy.earlier earlier before own).2⟩
  handed thread core own ownNext exited started := by
    obtain ⟨current, busy⟩ := invariant.busy_of_created own exited.1
    obtain before | same | after := Nat.lt_trichotomy thread current
    · obtain earlier | now := Nat.lt_or_eq_of_le before
      · exact .inl ⟨started.1, (busy.earlier _ earlier ownNext).2⟩
      · subst now
        cases busy.current with
        | initializing status => exact absurd status started.2
        | running _ _ scheduled => exact .inr scheduled
        | last status => exact .inl ⟨started.1, status⟩
    · subst same
      cases busy.current with
      | initializing status => exact absurd (exited.2.symm.trans status) (by simp)
      | running status => exact absurd (exited.2.symm.trans status) (by simp)
      | last _ isLast => exact absurd ownNext isLast
    · obtain ⟨-, status | status⟩ := busy.later thread after exited.1 own
      · exact absurd (exited.2.symm.trans status) (by simp)
      · exact absurd (exited.2.symm.trans status) (by simp)

end Invariant

/-! ## What a step leaves as it is -/

/-- The queue and the threads of a core are the same after a step. -/
structure SameOn (seqs : List Int) (core : Fin cores) (state next : State cores) : Prop where
  running : next.base.coreThreadRunning core = state.base.coreThreadRunning core
  waiting : next.coreWaitingThreads core = state.coreWaitingThreads core
  nextThread : next.nextThreadToExecute core = state.nextThreadToExecute core
  created : ∀ thread, setOf seqs thread = some core.val → (thread < next.base.numThreads ↔ thread < state.base.numThreads)
  status : ∀ thread, setOf seqs thread = some core.val → next.base.status thread = state.base.status thread
  placed : ∀ thread, setOf seqs thread = some core.val → next.base.threadCore thread = state.base.threadCore thread
  runnable : ∀ thread, setOf seqs thread = some core.val → next.base.threadsRunnable thread = state.base.threadsRunnable thread

namespace SameOn

variable (same : SameOn seqs core state next)
include same

theorem away (own : setOf seqs thread = some core.val) (away : Away state thread) : Away next thread :=
  ⟨(same.placed thread own).trans away.nowhere, (same.runnable thread own).trans away.waits⟩

theorem started_iff (own : setOf seqs thread = some core.val) : Started next thread ↔ Started state thread := by
  rw [Started, Started, same.created thread own, same.status thread own]

theorem current (own : setOf seqs thread = some core.val) (current : Current seqs state core thread) :
    Current seqs next core thread := by
  have status := same.status thread own
  have placed := same.placed thread own
  have runnable := same.runnable thread own
  cases current with
  | initializing isStatus nextThread waits here =>
    exact .initializing (status.trans isStatus) (same.nextThread.trans nextThread) (runnable.trans waits) (placed.trans here)
  | running isStatus nextThread scheduled =>
    exact .running (status.trans isStatus) (same.nextThread.trans nextThread)
      ⟨runnable.trans scheduled.runnable, same.running.trans scheduled.running, placed.trans scheduled.placed⟩
  | last isStatus isLast gone => exact .last (status.trans isStatus) isLast (same.away own gone)

theorem busy (busy : Busy seqs state core thread) : Busy seqs next core thread where
  running := same.running.trans busy.running
  created := (same.created thread busy.own).mpr busy.created
  own := busy.own
  earlier before lower own := by
    obtain ⟨gone, idle⟩ := busy.earlier before lower own
    exact ⟨same.away own gone, (same.status before own).trans idle⟩
  later after upper created own := by
    obtain ⟨gone, status⟩ := busy.later after upper ((same.created after own).mp created) own
    rw [same.status after own]
    exact ⟨same.away own gone, status⟩
  waiting other := by
    rw [same.waiting, busy.waiting other]
    exact and_congr_right fun _ => and_congr_right fun own => (same.started_iff own).symm
  nodup := same.waiting ▸ busy.nodup
  current := same.current busy.own busy.current

theorem served (served : Served seqs state core) : Served seqs next core := by
  obtain unused | ⟨thread, busy⟩ := served
  · refine .inl ⟨same.running.trans unused.free, ?_, same.waiting.trans unused.empty, same.nextThread.trans unused.nextThread⟩
    intro thread own
    have none_created := unused.none_created thread own
    have created := same.created thread own
    omega
  · exact .inr ⟨thread, same.busy busy⟩

end SameOn

theorem affinityCore_of_pinned {info : ThreadInfo cores} (pinned : info.coreAffinity = fun other => decide (other = core)) :
    affinityCore info = some core := by
  rw [affinityCore]
  cases found : (List.finRange cores).find? info.coreAffinity with
  | some other =>
    have allowed := List.find?_some found
    rw [pinned, decide_eq_true_eq] at allowed
    rw [allowed]
  | none =>
    have refused := List.find?_eq_none.mp found core (List.mem_finRange core)
    exact absurd (by rw [pinned]; exact decide_eq_true rfl) refused

theorem ne_of_setOf {set' : Nat} (own : setOf seqs thread = some set) (own' : setOf seqs other = some set') (apart : set' ≠ set) :
    other ≠ thread := by
  rintro rfl
  exact apart (Option.some.inj (own'.symm.trans own))

end Sniper.Scheduler.Sequential

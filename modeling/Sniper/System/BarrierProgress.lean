import Sniper.System.BarrierSyncServer

/-! Progress and safety of the barrier.

A core that was thrown out of the barrier keeps the time it came with.  As long
as no such time is at or behind the barrier when the server works in detailed
mode, the barrier is only reached when some core waits for it, and its loop
ends.  The loop is only entered when all cores of the last one have been woken. -/

namespace Sniper.System.BarrierSyncServer

open Performance (addTime)

variable {cores : Nat} {Thread : Type}

def InRange (config : Config) (time : Nat) : Prop := time + config.barrierInterval < 2 ^ 64

instance (config : Config) (time : Nat) : Decidable (InRange config time) := Nat.decLt _ _

/-- The server is in the loop of `barrierRelease` because the barrier was reached. -/
def InLoop (state : State cores Thread) : Prop := ∃ caller, state.phase = .releasing caller false

/-- No core outside the barrier has a time that reaches the barrier. -/
def Fresh (state : State cores Thread) : Prop :=
  ∀ core, state.barrierAcquire core = false → state.localClock core < state.nextBarrierTime

/-- The state in which a call asks whether the barrier is reached, if it gets there. -/
def asks [DecidableEq Thread] (state : State cores Thread) : Label cores Thread → Option (State cores Thread)
  | .synchronize core time =>
    if state.disable || state.barrierAcquire (masterCore state core) ||
        decide (time < state.nextBarrierTime ∧ ¬state.fastforward) then none
    else (getThread (state.threads.occupant core)).map fun thread =>
      enter (masterCore state core) thread time (doRelease 1 state)
  | .threadExit thread threads | .threadStall thread threads =>
    if state.disable then none else some (releaseThread thread { state with threads := threads })
  | _ => none

/-- Where the call finds the barrier reached, the cores of the last one have all been woken. -/
def Restarted [DecidableEq Thread] (state : State cores Thread) (label : Label cores Thread) : Prop :=
  ∀ asked, asks state label = some asked → isBarrierReached asked = true → asked.toRelease = []

/-- What a step must not do: leave a stale time behind in detailed mode, throw
all cores out of the barrier in the middle of its loop, reach the barrier while
some core has not been woken, or pass the end of the time. -/
def Sound [DecidableEq Thread] (config : Config) (state : State cores Thread) : Label cores Thread → Prop
  | .synchronize core time =>
    InRange config time ∧ InRange config state.nextBarrierTime ∧ Restarted state (.synchronize core time)
  | .threadExit thread threads => InRange config state.nextBarrierTime ∧ Restarted state (.threadExit thread threads)
  | .threadStall thread threads => InRange config state.nextBarrierTime ∧ Restarted state (.threadStall thread threads)
  | .advance => InRange config state.nextBarrierTime ∧ state.toRelease = []
  | .threadMigrate _ _ | .threadResume _ | .setGroup _ _ | .setDisable true => True
  | .iterate _ => ¬InLoop state → InRange config state.nextBarrierTime
  | .release =>
    state.disable = false → ¬InLoop state ∧
      (state.fastforward = false → ∀ core, state.localClock core < state.nextBarrierTime)
  | .setDisable false => state.disable = true → ¬InLoop state ∧ (state.fastforward = false → Fresh state)
  | .setFastForward fastforward next =>
    (∀ time ∈ next, InRange config time) ∧
      (fastforward = false → state.disable = false → ∀ core, state.barrierAcquire core = false →
        state.localClock core < raise state.nextBarrierTime next)

structure Invariant (config : Config) (state : State cores Thread) : Prop where
  fresh : state.fastforward = false → state.disable = false → Fresh state
  inRange : ∀ core, InRange config (state.localClock core)
  globalTime : state.globalTime ≤ state.nextBarrierTime
  ledger : ∀ core, state.entries core =
    state.wakeups core + state.toRelease.count core + (state.barrierAcquire core).toNat
  loopTime : InLoop state → InRange config state.nextBarrierTime
  loopWaits : InLoop state → state.disable = false → ∃ core, state.barrierAcquire core = true

theorem isBarrierReachedFrom_waits {state : State cores Thread} {list : List (Fin cores)} {flag : Bool}
    (fresh : state.fastforward = false → Fresh state)
    (reached : isBarrierReachedFrom state list flag = true) :
    flag = true ∨ ∃ core, state.barrierAcquire core = true := by
  induction list generalizing flag with
  | nil => exact .inl reached
  | cons core rest ih =>
    cases waits : state.barrierAcquire core with
    | true => exact .inr ⟨core, waits⟩
    | false =>
      cases mode : state.fastforward with
      | true =>
        simp only [isBarrierReachedFrom, mode, waits, if_true, Bool.false_eq_true, if_false] at reached
        split at reached
        case isTrue running => cases reached
        case isFalse idle => exact ih reached
      | false =>
        have behind := fresh mode core waits
        simp only [isBarrierReachedFrom, mode, Bool.false_eq_true, if_false, behind, if_true] at reached
        split at reached
        case isTrue member => exact ih reached
        case isFalse master =>
          split at reached
          case isTrue running => cases reached
          case isFalse idle => exact ih reached

theorem isBarrierReached_waits {state : State cores Thread} (fresh : state.fastforward = false → Fresh state)
    (reached : isBarrierReached state = true) : ∃ core, state.barrierAcquire core = true := by
  cases isBarrierReachedFrom_waits fresh reached with
  | inl impossible => cases impossible
  | inr waits => exact waits

theorem le_skipTo (clock : Fin cores → Nat) (next : Nat) (list : List (Fin cores)) :
    next ≤ skipTo clock next list := by
  induction list generalizing next with
  | nil => exact Nat.le_refl next
  | cons core rest ih =>
    refine Nat.le_trans ?_ (ih (if next < clock core then clock core else next))
    split <;> omega

theorem skipTo_inRange {config : Config} {clock : Fin cores → Nat} {next : Nat} (list : List (Fin cores))
    (clocks : ∀ core, InRange config (clock core)) (inRange : InRange config next) :
    InRange config (skipTo clock next list) := by
  induction list generalizing next with
  | nil => exact inRange
  | cons core rest ih =>
    apply ih
    split
    case isTrue behind => exact clocks core
    case isFalse ahead => exact inRange

theorem raise_le (next : Nat) (time : Option Nat) : next ≤ raise next time := by
  cases time with
  | none => exact Nat.le_refl next
  | some time => exact Nat.le_max_left next time

theorem raise_inRange {config : Config} {next : Nat} {time : Option Nat} (inRange : InRange config next)
    (times : ∀ value ∈ time, InRange config value) : InRange config (raise next time) := by
  cases time with
  | none => exact inRange
  | some time =>
    have later := times time rfl
    unfold InRange at *
    simp only [raise]
    omega

theorem addTime_inRange {config : Config} {time : Nat} (inRange : InRange config time) :
    addTime time config.barrierInterval = time + config.barrierInterval :=
  Nat.mod_eq_of_lt inRange

theorem doRelease_ledger (count : Nat) (state : State cores Thread) (core : Fin cores) :
    (doRelease count state).wakeups core + (doRelease count state).toRelease.count core =
      state.wakeups core + state.toRelease.count core := by
  have parts : (state.toRelease.take count).count core + (state.toRelease.drop count).count core =
      state.toRelease.count core := by
    rw [← List.count_append, List.take_append_drop]
  simp only [doRelease]
  omega

theorem Invariant.doRelease {config : Config} {state : State cores Thread} (holds : Invariant config state) (count : Nat) :
    Invariant config (doRelease count state) where
  fresh := holds.fresh
  inRange := holds.inRange
  globalTime := holds.globalTime
  ledger core := by
    rw [doRelease_ledger]
    exact holds.ledger core
  loopTime := holds.loopTime
  loopWaits := holds.loopWaits

theorem Invariant.threads {config : Config} {state : State cores Thread} (holds : Invariant config state)
    (threads : Threads cores Thread) : Invariant config { state with threads := threads } where
  fresh := holds.fresh
  inRange := holds.inRange
  globalTime := holds.globalTime
  ledger := holds.ledger
  loopTime := holds.loopTime
  loopWaits := holds.loopWaits

theorem Invariant.abortBarrier {config : Config} {state : State cores Thread} (holds : Invariant config state)
    (fresh : state.fastforward = false → state.disable = false → ∀ core, state.localClock core < state.nextBarrierTime)
    (outside : state.disable = false → ¬InLoop state) : Invariant config (abortBarrier state) where
  fresh mode enabled core _ := fresh mode enabled core
  inRange := holds.inRange
  globalTime := holds.globalTime
  ledger core := by
    have before := holds.ledger core
    simp only [BarrierSyncServer.abortBarrier, Bool.toNat_false]
    omega
  loopTime := holds.loopTime
  loopWaits inLoop enabled := absurd inLoop (outside enabled)

section Steps

variable {config : Config} {state next : State cores Thread}

theorem Invariant.enter (holds : Invariant config state) (idle : state.phase = .idle) {core : Fin cores} (thread : Thread)
    {time : Nat} (free : state.barrierAcquire core = false) (inRange : InRange config time) :
    Invariant config (enter core thread time state) := by
  have outside : ¬InLoop (BarrierSyncServer.enter core thread time state) := by
    rintro ⟨caller, phase⟩
    rw [show (BarrierSyncServer.enter core thread time state).phase = state.phase from rfl, idle] at phase
    cases phase
  constructor
  case fresh =>
    intro mode enabled other free
    by_cases same : other = core
    · subst other
      simp [BarrierSyncServer.enter] at free
    · simp only [BarrierSyncServer.enter, Function.update_of_ne same] at free ⊢
      exact holds.fresh mode enabled other free
  case inRange =>
    intro other
    by_cases same : other = core
    · subst other
      simpa [BarrierSyncServer.enter] using inRange
    · simpa only [BarrierSyncServer.enter, Function.update_of_ne same] using holds.inRange other
  case globalTime => exact holds.globalTime
  case ledger =>
    intro other
    have before := holds.ledger other
    by_cases same : other = core
    · subst other
      simp only [BarrierSyncServer.enter, Function.update_self, free, Bool.toNat_false, Bool.toNat_true] at before ⊢
      omega
    · simpa only [BarrierSyncServer.enter, Function.update_of_ne same] using before
  case loopTime => exact fun inLoop => absurd inLoop outside
  case loopWaits => exact fun inLoop => absurd inLoop outside

theorem barrierRelease_cases (config : Config) {caller : Option Thread} {continues : Bool}
    (released : barrierRelease caller continues state = .ok next) :
    ∃ time, state.nextBarrierTime ≤ time ∧
      ((∀ core, InRange config (state.localClock core)) → InRange config state.nextBarrierTime → InRange config time) ∧
      next = { state with nextBarrierTime := time, globalTime := time, phase := .releasing caller continues } := by
  unfold barrierRelease at released
  split at released
  case isTrue restarted =>
    cases released
    refine ⟨_, ?_, ?_, rfl⟩
    · split
      case isTrue fast => exact le_skipTo _ _ _
      case isFalse detailed => exact Nat.le_refl _
    · intro clocks inRange
      split
      case isTrue fast => exact skipTo_inRange _ clocks inRange
      case isFalse detailed => exact inRange
  case isFalse => cases released

theorem Invariant.barrierRelease (holds : Invariant config state) (inRange : InRange config state.nextBarrierTime)
    {caller : Option Thread} {continues : Bool}
    (waits : continues = false → ∃ core, state.barrierAcquire core = true)
    (released : barrierRelease caller continues state = .ok next) : Invariant config next := by
  obtain ⟨time, later, bounded, rfl⟩ := barrierRelease_cases config released
  constructor
  case fresh =>
    intro mode enabled core free
    exact Nat.lt_of_lt_of_le (holds.fresh mode enabled core free) later
  case inRange => exact holds.inRange
  case globalTime => exact Nat.le_refl time
  case ledger => exact holds.ledger
  case loopTime => exact fun _ => bounded holds.inRange inRange
  case loopWaits =>
    rintro ⟨_, phase⟩ _
    cases phase
    exact waits rfl

variable [DecidableEq Thread]

theorem Invariant.releaseThread (holds : Invariant config state) (thread : Thread) :
    Invariant config (releaseThread thread state) := by
  apply Invariant.doRelease
  constructor
  case fresh =>
    intro mode enabled core outside
    have free : state.barrierAcquire core = false := outside
    have behind := holds.fresh mode enabled core free
    simpa only [free, Bool.false_eq_true, false_and, if_false] using behind
  case inRange =>
    intro core
    have clock := holds.inRange core
    unfold InRange at *
    dsimp only
    split <;> omega
  case globalTime => exact holds.globalTime
  case ledger => exact holds.ledger
  case loopTime => exact holds.loopTime
  case loopWaits => exact holds.loopWaits

theorem iterate_cases {shuffle : Shuffle cores} {caller : Option Thread} {continues : Bool}
    (iterated : iterate config shuffle caller continues state = .ok next) :
    ((continues = true ∨ state.disable = true) ∧ next = { state with phase := .idle }) ∨
    state.disable = false ∧ ∃ time, time = addTime state.nextBarrierTime config.barrierInterval ∧
      ((∃ core, resumes state time core = true) ∧ next = finish config shuffle caller time state ∨
        (∀ core, resumes state time core = false) ∧ next = { state with nextBarrierTime := time, globalTime := time }) := by
  unfold iterate at iterated
  split at iterated
  case isTrue running =>
    cases iterated
    exact .inl ⟨.inl (Bool.and_eq_true_iff.mp running).1, rfl⟩
  case isFalse =>
    split at iterated
    case isTrue => cases iterated
    case isFalse =>
      split at iterated
      case isTrue disabled =>
        cases iterated
        exact .inl ⟨.inr disabled, rfl⟩
      case isFalse enabled =>
        refine .inr ⟨by simpa using enabled, _, rfl, ?_⟩
        dsimp only at iterated
        split at iterated
        case isTrue found =>
          cases iterated
          exact .inl ⟨by simpa using found, rfl⟩
        case isFalse nobody =>
          cases iterated
          exact .inr ⟨by simpa using nobody, rfl⟩

theorem finish_ledger (shuffle : Shuffle cores) (caller : Option Thread) (time : Nat) (core : Fin cores) :
    (finish config shuffle caller time state).wakeups core + (finish config shuffle caller time state).toRelease.count core =
      state.wakeups core + state.toRelease.count core + (resumes state time core).toNat := by
  have distinct : (((List.finRange cores).filter (resumes state time)).filter fun core => state.coreThread core ≠ caller).Nodup :=
    ((List.nodup_finRange cores).filter _).filter _
  unfold finish
  rw [doRelease_ledger]
  simp only [(shuffle.perm _).count_eq, List.count_append, List.count_reverse, distinct.count, List.mem_filter,
    List.mem_finRange, true_and]
  cases released : resumes state time core <;> by_cases own : state.coreThread core = caller <;>
    simp [own] <;> omega

theorem Invariant.finish (holds : Invariant config state) (shuffle : Shuffle cores) (caller : Option Thread) {time : Nat}
    (later : state.nextBarrierTime ≤ time) : Invariant config (finish config shuffle caller time state) := by
  constructor
  case fresh =>
    intro mode enabled core free
    have parts : (state.barrierAcquire core && !resumes state time core) = false := free
    cases waits : state.barrierAcquire core with
    | false => exact Nat.lt_of_lt_of_le (holds.fresh mode enabled core waits) later
    | true =>
      have released : state.localClock core < time := by simpa [waits, resumes] using parts
      exact released
  case inRange => exact holds.inRange
  case globalTime => exact Nat.le_trans holds.globalTime later
  case ledger =>
    intro core
    have before := holds.ledger core
    rw [finish_ledger]
    have after : ((BarrierSyncServer.finish config shuffle caller time state).barrierAcquire core).toNat +
        (resumes state time core).toNat = (state.barrierAcquire core).toNat := by
      simp only [BarrierSyncServer.finish, BarrierSyncServer.doRelease, resumes]
      cases state.barrierAcquire core <;> cases decide (state.localClock core < time) <;> rfl
    have entries : (BarrierSyncServer.finish config shuffle caller time state).entries = state.entries := rfl
    rw [entries]
    omega
  case loopTime => rintro ⟨_, ⟨⟩⟩
  case loopWaits => rintro ⟨_, ⟨⟩⟩

omit [DecidableEq Thread] in
theorem le_localClock {time : Nat} {core : Fin cores} (waits : state.barrierAcquire core = true)
    (stays : resumes state time core = false) : time ≤ state.localClock core := by
  simpa [resumes, waits] using stays

theorem Invariant.iterate (holds : Invariant config state) {shuffle : Shuffle cores} {caller : Option Thread}
    {continues : Bool} (bounded : InRange config state.nextBarrierTime)
    (iterated : iterate config shuffle caller continues state = .ok next) :
    Invariant config next := by
  obtain ⟨-, rfl⟩ | ⟨enabled, time, reaches, ⟨-, rfl⟩ | ⟨nobody, rfl⟩⟩ := iterate_cases iterated
  · constructor
    case fresh => exact holds.fresh
    case inRange => exact holds.inRange
    case globalTime => exact holds.globalTime
    case ledger => exact holds.ledger
    case loopTime => rintro ⟨_, ⟨⟩⟩
    case loopWaits => rintro ⟨_, ⟨⟩⟩
  · rw [addTime_inRange bounded] at reaches
    exact holds.finish shuffle caller (by omega)
  · rw [addTime_inRange bounded] at reaches
    constructor
    case fresh =>
      intro mode enabled core free
      have behind := holds.fresh mode enabled core free
      dsimp only
      omega
    case inRange => exact holds.inRange
    case globalTime => exact Nat.le_refl time
    case ledger => exact holds.ledger
    case loopTime =>
      intro inLoop
      obtain ⟨core, waits⟩ := holds.loopWaits inLoop enabled
      have behind := le_localClock waits (nobody core)
      have clock := holds.inRange core
      unfold InRange at *
      dsimp only
      omega
    case loopWaits => exact holds.loopWaits

omit [DecidableEq Thread] in
theorem signal_cases (signalled : signal state = .ok next) :
    next = state ∨
    state.disable = false ∧ isBarrierReached state = true ∧ barrierRelease none false state = .ok next := by
  unfold signal at signalled
  split at signalled
  case isTrue => cases signalled; exact .inl rfl
  case isFalse enabled =>
    split at signalled
    case isTrue reached => exact .inr ⟨by simpa using enabled, reached, signalled⟩
    case isFalse => cases signalled; exact .inl rfl

omit [DecidableEq Thread] in
theorem synchronize_cases {core : Fin cores} {time : Nat} (synchronized : synchronize core time state = .ok next) :
    next = state ∨
    ∃ master thread entered, state.barrierAcquire master = false ∧ entered = enter master thread time (doRelease 1 state) ∧
      (next = entered ∨ barrierRelease (some thread) false entered = .ok next) := by
  unfold synchronize at synchronized
  split at synchronized
  case isTrue => cases synchronized; exact .inl rfl
  case isFalse =>
    split at synchronized
    case h_1 => cases synchronized
    case h_2 thread here =>
      dsimp only at synchronized
      split at synchronized
      case isTrue => cases synchronized
      case isFalse free =>
        split at synchronized
        case isTrue => cases synchronized; exact .inl rfl
        case isFalse =>
          refine .inr ⟨masterCore state core, thread, _, by simpa using free, rfl, ?_⟩
          split at synchronized
          case isTrue reached => exact .inr synchronized
          case isFalse => cases synchronized; exact .inl rfl

omit [DecidableEq Thread] in
theorem Invariant.signal (holds : Invariant config state) (inRange : InRange config state.nextBarrierTime)
    (signalled : signal state = .ok next) : Invariant config next := by
  obtain rfl | ⟨enabled, reached, released⟩ := signal_cases signalled
  · exact holds
  · have waits := isBarrierReached_waits (fun mode => holds.fresh mode enabled) reached
    exact holds.barrierRelease inRange (fun _ => waits) released

omit [DecidableEq Thread] in
theorem Invariant.synchronize (holds : Invariant config state) (idle : state.phase = .idle) {core : Fin cores} {time : Nat}
    (inRange : InRange config time) (bounded : InRange config state.nextBarrierTime)
    (synchronized : synchronize core time state = .ok next) : Invariant config next := by
  obtain rfl | ⟨master, thread, entered, free, rfl, ended⟩ := synchronize_cases synchronized
  · exact holds
  · have entered := (holds.doRelease 1).enter idle thread free inRange
    cases ended with
    | inl same => exact same ▸ entered
    | inr released =>
      have waits : (BarrierSyncServer.enter master thread time (BarrierSyncServer.doRelease 1 state)).barrierAcquire master =
          true := by
        simp [BarrierSyncServer.enter]
      exact entered.barrierRelease bounded (fun _ => ⟨master, waits⟩) released

/-- Neither `m_next_barrier_time` nor the global time has moved back. -/
def Onward (state next : State cores Thread) : Prop :=
  state.nextBarrierTime ≤ next.nextBarrierTime ∧ state.globalTime ≤ next.globalTime

omit [DecidableEq Thread] in
theorem Onward.refl (state : State cores Thread) : Onward state state :=
  ⟨Nat.le_refl _, Nat.le_refl _⟩

omit [DecidableEq Thread] in
theorem barrierRelease_onward {caller : Option Thread} {continues : Bool} (behind : state.globalTime ≤ state.nextBarrierTime)
    (released : barrierRelease caller continues state = .ok next) : Onward state next := by
  unfold barrierRelease at released
  split at released
  case isTrue =>
    cases released
    have later : state.nextBarrierTime ≤ if state.fastforward then
        skipTo state.localClock state.nextBarrierTime (List.finRange cores) else state.nextBarrierTime := by
      split
      case isTrue => exact le_skipTo _ _ _
      case isFalse => exact Nat.le_refl _
    exact ⟨later, Nat.le_trans behind later⟩
  case isFalse => cases released

omit [DecidableEq Thread] in
theorem signal_onward (behind : state.globalTime ≤ state.nextBarrierTime) (signalled : signal state = .ok next) :
    Onward state next := by
  obtain rfl | ⟨-, -, released⟩ := signal_cases signalled
  · exact Onward.refl next
  · exact barrierRelease_onward behind released

omit [DecidableEq Thread] in
theorem synchronize_onward {core : Fin cores} {time : Nat} (behind : state.globalTime ≤ state.nextBarrierTime)
    (synchronized : synchronize core time state = .ok next) : Onward state next := by
  obtain rfl | ⟨master, thread, entered, -, rfl, rfl | released⟩ := synchronize_cases synchronized
  · exact Onward.refl next
  · exact Onward.refl state
  · have onward : Onward (enter master thread time (doRelease 1 state)) next := barrierRelease_onward behind released
    exact onward

theorem iterate_onward (holds : Invariant config state) {shuffle : Shuffle cores} {caller : Option Thread}
    {continues : Bool} (inRange : InRange config state.nextBarrierTime)
    (iterated : iterate config shuffle caller continues state = .ok next) : Onward state next := by
  obtain ⟨-, rfl⟩ | ⟨-, time, reaches, ⟨-, rfl⟩ | ⟨-, rfl⟩⟩ := iterate_cases iterated
  · exact Onward.refl state
  · rw [addTime_inRange inRange] at reaches
    have later : state.nextBarrierTime ≤ time := by omega
    exact ⟨later, Nat.le_refl _⟩
  · rw [addTime_inRange inRange] at reaches
    have later : state.nextBarrierTime ≤ time := by omega
    exact ⟨later, Nat.le_trans holds.globalTime later⟩

omit [DecidableEq Thread] in
theorem Invariant.turn_inRange (holds : Invariant config state)
    (inRange : ¬InLoop state → InRange config state.nextBarrierTime) : InRange config state.nextBarrierTime := by
  by_cases inLoop : InLoop state
  · exact holds.loopTime inLoop
  · exact inRange inLoop

theorem Invariant.step (holds : Invariant config state) {label : Label cores Thread} (sound : Sound config state label)
    (stepped : step config state label = .ok next) : Invariant config next := by
  cases label with
  | synchronize core time =>
    simp only [BarrierSyncServer.step] at stepped
    split at stepped
    case isTrue idle => exact holds.synchronize idle sound.1 sound.2.1 stepped
    case isFalse => cases stepped
  | threadExit thread threads | threadStall thread threads =>
    simp only [BarrierSyncServer.step] at stepped
    split at stepped
    case isTrue idle =>
      exact ((holds.threads threads).releaseThread thread).signal sound.1 stepped
    case isFalse => cases stepped
  | threadMigrate thread threads =>
    cases stepped
    exact (holds.threads threads).releaseThread thread
  | threadResume threads =>
    cases stepped
    exact holds.threads threads
  | advance =>
    simp only [BarrierSyncServer.step] at stepped
    split at stepped
    case isTrue idle => exact holds.barrierRelease sound.1 (fun impossible => by cases impossible) stepped
    case isFalse => cases stepped
  | iterate shuffle =>
    simp only [BarrierSyncServer.step] at stepped
    split at stepped
    case h_1 => cases stepped
    case h_2 caller continues phase => exact holds.iterate (holds.turn_inRange sound) stepped
  | release =>
    cases stepped
    exact holds.abortBarrier (fun mode enabled => (sound enabled).2 mode) (fun enabled => (sound enabled).1)
  | setDisable disable =>
    cases stepped
    cases disable with
    | true =>
      have disabled : Invariant config { state with disable := true } :=
        { holds with
          fresh := fun _ impossible => by cases impossible
          loopWaits := fun _ impossible => by cases impossible }
      exact disabled.abortBarrier (fun _ impossible => by cases impossible) (fun impossible => by cases impossible)
    | false =>
      cases before : state.disable with
      | false =>
        have same : setDisable false state = state := by
          cases state
          cases before
          rfl
        rw [same]
        exact holds
      | true =>
        obtain ⟨outside, fresh⟩ := sound before
        exact { holds with
          fresh := fun mode _ => fresh mode
          loopWaits := fun inLoop _ => absurd inLoop outside }
  | setGroup core master =>
    simp only [BarrierSyncServer.step, setGroup] at stepped
    split at stepped
    case isTrue => cases stepped
    case isFalse =>
      cases stepped
      exact { holds with }
  | setFastForward fastforward time =>
    cases stepped
    exact { holds with
      fresh := fun mode enabled core free => sound.2 mode enabled core free
      globalTime := Nat.le_trans holds.globalTime (raise_le state.nextBarrierTime time)
      loopTime := fun inLoop => raise_inRange (holds.loopTime inLoop) sound.1 }

theorem step_onward (holds : Invariant config state) {label : Label cores Thread} (sound : Sound config state label)
    (stepped : step config state label = .ok next) : Onward state next := by
  cases label with
  | synchronize core time =>
    simp only [step] at stepped
    split at stepped
    case isTrue idle => exact synchronize_onward holds.globalTime stepped
    case isFalse => cases stepped
  | threadExit thread threads | threadStall thread threads =>
    simp only [step] at stepped
    split at stepped
    case isTrue idle =>
      have onward : Onward (releaseThread thread { state with threads := threads }) next :=
        signal_onward holds.globalTime stepped
      exact onward
    case isFalse => cases stepped
  | threadMigrate thread threads => cases stepped; exact Onward.refl state
  | threadResume threads => cases stepped; exact Onward.refl state
  | advance =>
    simp only [step] at stepped
    split at stepped
    case isTrue idle => exact barrierRelease_onward holds.globalTime stepped
    case isFalse => cases stepped
  | iterate shuffle =>
    simp only [step] at stepped
    split at stepped
    case h_1 => cases stepped
    case h_2 caller continues phase => exact iterate_onward holds (holds.turn_inRange sound) stepped
  | release => cases stepped; exact Onward.refl state
  | setDisable disable => cases stepped; cases disable <;> exact Onward.refl state
  | setGroup core master =>
    simp only [step, setGroup] at stepped
    split at stepped
    case isTrue => cases stepped
    case isFalse => cases stepped; exact Onward.refl state
  | setFastForward fastforward time =>
    cases stepped
    exact ⟨raise_le state.nextBarrierTime time, Nat.le_refl _⟩

/-- A run inside the loop of `barrierRelease`, with the number of its turns; the
hooks of every turn may take any sound steps. -/
inductive Stays (config : Config) (start : State cores Thread) : Nat → State cores Thread → Prop where
  | refl : InLoop start → Stays config start 0 start
  | hook {turns : Nat} {state next : State cores Thread} {label : Label cores Thread} :
      Stays config start turns state → Sound config state label → (∀ shuffle, label ≠ .iterate shuffle) →
      step config state label = .ok next → InLoop next → Stays config start turns next
  | turn {turns : Nat} {state next : State cores Thread} (shuffle : Shuffle cores) :
      Stays config start turns state → step config state (.iterate shuffle) = .ok next → InLoop next →
      Stays config start (turns + 1) next

theorem Stays.inLoop {start : State cores Thread} {turns : Nat} (stays : Stays config start turns state) : InLoop state := by
  cases stays <;> assumption

theorem Stays.invariant {start : State cores Thread} {turns : Nat} (holds : Invariant config start)
    (stays : Stays config start turns state) : Invariant config state := by
  induction stays with
  | refl => exact holds
  | hook _ sound _ stepped _ ih => exact ih.step sound stepped
  | @turn turns state next shuffle inside stepped _ ih =>
    have sound : Sound config state (.iterate shuffle) := fun outside => absurd inside.inLoop outside
    exact ih.step sound stepped

theorem hook_keeps {label : Label cores Thread} (inLoop : InLoop state) (sound : Sound config state label)
    (hook : ∀ shuffle, label ≠ .iterate shuffle) (stepped : step config state label = .ok next)
    (enabled : next.disable = false) :
    state.disable = false ∧ state.nextBarrierTime ≤ next.nextBarrierTime ∧
      ∀ core, state.barrierAcquire core = true →
        next.barrierAcquire core = true ∧ next.localClock core ≤ state.localClock core := by
  obtain ⟨caller, phase⟩ := inLoop
  cases label with
  | synchronize | threadExit | threadStall | advance => simp [step, phase] at stepped
  | iterate shuffle => exact absurd rfl (hook shuffle)
  | threadMigrate thread threads =>
    cases stepped
    refine ⟨enabled, Nat.le_refl _, fun core waits => ⟨waits, ?_⟩⟩
    simp only [releaseThread, doRelease]
    split <;> omega
  | threadResume threads =>
    cases stepped
    exact ⟨enabled, Nat.le_refl _, fun core waits => ⟨waits, Nat.le_refl _⟩⟩
  | release =>
    cases stepped
    exact absurd ⟨caller, phase⟩ (sound enabled).1
  | setDisable disable =>
    cases stepped
    cases disable with
    | true => cases enabled
    | false =>
      cases before : state.disable with
      | true => exact absurd ⟨caller, phase⟩ (sound before).1
      | false => exact ⟨rfl, Nat.le_refl _, fun core waits => ⟨waits, Nat.le_refl _⟩⟩
  | setGroup core master =>
    simp only [step, setGroup] at stepped
    split at stepped
    case isTrue => cases stepped
    case isFalse =>
      cases stepped
      exact ⟨enabled, Nat.le_refl _, fun core waits => ⟨waits, Nat.le_refl _⟩⟩
  | setFastForward fastforward time =>
    cases stepped
    exact ⟨enabled, raise_le state.nextBarrierTime time, fun core waits => ⟨waits, Nat.le_refl _⟩⟩

/-- A turn that does not end the loop: the barrier moves on by one interval and still does not pass a waiting core. -/
theorem turn_keeps (holds : Invariant config state) {shuffle : Shuffle cores} (inLoop : InLoop state)
    (stepped : step config state (.iterate shuffle) = .ok next) (stays : InLoop next) :
    state.disable = false ∧ next.nextBarrierTime = state.nextBarrierTime + config.barrierInterval ∧
      ∀ core, state.barrierAcquire core = true →
        next.barrierAcquire core = true ∧ next.localClock core = state.localClock core ∧
        next.nextBarrierTime ≤ next.localClock core := by
  have inRange := holds.loopTime inLoop
  obtain ⟨caller, phase⟩ := inLoop
  obtain ⟨other, after⟩ := stays
  simp only [step, phase] at stepped
  obtain ⟨-, rfl⟩ | ⟨enabled, time, reaches, ⟨-, rfl⟩ | ⟨nobody, rfl⟩⟩ := iterate_cases stepped
  · cases after
  · cases after
  · rw [addTime_inRange inRange] at reaches
    exact ⟨enabled, reaches, fun core waits => ⟨waits, rfl, le_localClock waits (nobody core)⟩⟩

/-- The turns so far fit between the barrier at the start and the time of a core that waited there. -/
structure Bounded (config : Config) (start : State cores Thread) (core : Fin cores) (turns : Nat)
    (state : State cores Thread) : Prop where
  fits : turns * config.barrierInterval ≤ start.localClock core
  waits : state.disable = false → state.barrierAcquire core = true
  clock : state.disable = false → state.localClock core ≤ start.localClock core
  time : state.disable = false → turns * config.barrierInterval ≤ state.nextBarrierTime

theorem Stays.bounded {start : State cores Thread} {core : Fin cores} {turns : Nat} (holds : Invariant config start)
    (waits : start.disable = false → start.barrierAcquire core = true)
    (stays : Stays config start turns state) : Bounded config start core turns state := by
  induction stays with
  | refl inLoop =>
    exact { fits := by omega, waits := waits, clock := fun _ => Nat.le_refl _, time := fun _ => by omega }
  | @hook turns state next label inside sound hook stepped _ ih =>
    have keeps := hook_keeps inside.inLoop sound hook stepped
    constructor
    case fits => exact ih.fits
    case waits =>
      intro enabled
      obtain ⟨before, -, core⟩ := keeps enabled
      exact (core _ (ih.waits before)).1
    case clock =>
      intro enabled
      obtain ⟨before, -, core⟩ := keeps enabled
      exact Nat.le_trans (core _ (ih.waits before)).2 (ih.clock before)
    case time =>
      intro enabled
      obtain ⟨before, later, -⟩ := keeps enabled
      exact Nat.le_trans (ih.time before) later
  | @turn turns state next shuffle inside stepped inLoop ih =>
    obtain ⟨enabled, moved, core⟩ := turn_keeps (inside.invariant holds) inside.inLoop stepped inLoop
    obtain ⟨still, clock, behind⟩ := core _ (ih.waits enabled)
    have earlier := ih.clock enabled
    have reached := ih.time enabled
    have longer : (turns + 1) * config.barrierInterval ≤ next.nextBarrierTime := by
      rw [Nat.succ_mul]
      omega
    exact {
      fits := by omega
      waits := fun _ => still
      clock := fun _ => by omega
      time := fun _ => longer }

theorem Stays.terminates {start : State cores Thread} (positive : 0 < config.barrierInterval) (holds : Invariant config start)
    (inLoop : InLoop start) :
    ∃ bound, ∀ turns state, Stays config start turns state → turns ≤ bound := by
  cases mode : start.disable with
  | true =>
    -- Nobody waits; but then the first turn leaves the loop.
    refine ⟨0, fun turns state stays => ?_⟩
    have disabled : state.disable = true ∧ turns = 0 := by
      induction stays with
      | refl => exact ⟨mode, rfl⟩
      | @hook turns state next label inside sound hook stepped _ ih =>
        cases after : next.disable with
        | true => exact ⟨rfl, ih.2⟩
        | false =>
          have before := (hook_keeps inside.inLoop sound hook stepped after).1
          rw [ih.1] at before
          cases before
      | turn shuffle inside stepped inLoop ih =>
        have enabled := (turn_keeps (inside.invariant holds) inside.inLoop stepped inLoop).1
        rw [ih.1] at enabled
        cases enabled
    exact Nat.le_of_eq disabled.2
  | false =>
    obtain ⟨core, waits⟩ := holds.loopWaits inLoop mode
    refine ⟨start.localClock core, fun turns state stays => ?_⟩
    have bounded := (stays.bounded holds (fun _ => waits)).fits
    exact Nat.le_trans (Nat.le_mul_of_pos_right turns positive) bounded

structure Progress (config : Config) (state : State cores Thread) : Prop where
  behind : state.fastforward = false → state.disable = false → ∀ core, isCoreRunning state core = true →
    state.barrierAcquire core = false → state.localClock core < state.nextBarrierTime
  reached : state.disable = false → isBarrierReached state = true ∨ InLoop state →
    ∃ core, state.barrierAcquire core = true
  /-- A call that finds the barrier reached gets into the loop. -/
  releases : state.phase = .idle → ∀ label asked, Sound config state label → asks state label = some asked →
    isBarrierReached asked = true → ∃ next, step config state label = .ok next ∧ InLoop next
  goesOn : InLoop state → ∀ shuffle, ∃ next, step config state (.iterate shuffle) = .ok next
  terminates : InLoop state → ∃ bound, ∀ turns next, Stays config state turns next → turns ≤ bound
  /-- The turn that ends the loop lets the cores behind the new barrier go, once each. -/
  once : InLoop state → state.disable = false → ∀ shuffle next, step config state (.iterate shuffle) = .ok next →
    ¬InLoop next → ∀ core,
      let released := state.barrierAcquire core && decide (state.localClock core < next.nextBarrierTime)
      next.barrierAcquire core = (state.barrierAcquire core && !released) ∧
      next.wakeups core + next.toRelease.count core =
        state.wakeups core + state.toRelease.count core + released.toNat
  /-- Each entry into the barrier is answered by one wakeup, given or still to come. -/
  answered : ∀ core, state.entries core =
    state.wakeups core + state.toRelease.count core + (state.barrierAcquire core).toNat
  onward : ∀ label next, Sound config state label → step config state label = .ok next → Onward state next

theorem iterate_succeeds (config : Config) (inLoop : InLoop state) (shuffle : Shuffle cores) :
    ∃ next, BarrierSyncServer.step config state (.iterate shuffle) = .ok next := by
  obtain ⟨caller, phase⟩ := inLoop
  simp only [BarrierSyncServer.step, phase, BarrierSyncServer.iterate, Bool.false_and, Bool.false_eq_true, if_false]
  split
  case isTrue => exact ⟨_, rfl⟩
  case isFalse => split <;> exact ⟨_, rfl⟩

omit [DecidableEq Thread] in
theorem barrierRelease_succeeds (caller : Option Thread) (restarted : state.toRelease = []) :
    ∃ next, BarrierSyncServer.barrierRelease caller false state = .ok next ∧ InLoop next := by
  simp only [BarrierSyncServer.barrierRelease, restarted, List.isEmpty_nil, if_true]
  exact ⟨_, rfl, caller, rfl⟩

theorem signal_succeeds {thread : Thread} {threads : Threads cores Thread} {asked : State cores Thread}
    (restarted : asked.toRelease = []) (reached : isBarrierReached asked = true)
    (asks : (if state.disable then none else some (BarrierSyncServer.releaseThread thread { state with threads := threads })) =
      some asked) :
    ∃ next, BarrierSyncServer.signal (BarrierSyncServer.releaseThread thread { state with threads := threads }) = .ok next ∧
      InLoop next := by
  split at asks
  case isTrue => cases asks
  case isFalse enabled =>
    cases asks
    have enabled : ¬(BarrierSyncServer.releaseThread thread { state with threads := threads }).disable = true := enabled
    rw [BarrierSyncServer.signal, if_neg enabled, if_pos reached]
    exact barrierRelease_succeeds none restarted

theorem releases_of_reached {label : Label cores Thread} {asked : State cores Thread} (idle : state.phase = .idle)
    (sound : Sound config state label) (asks : asks state label = some asked) (reached : isBarrierReached asked = true) :
    ∃ next, BarrierSyncServer.step config state label = .ok next ∧ InLoop next := by
  cases label with
  | synchronize core time =>
    have restarted := sound.2.2 asked asks reached
    simp only [BarrierSyncServer.asks] at asks
    split at asks
    case isTrue => cases asks
    case isFalse gets =>
      simp only [Bool.or_eq_true, decide_eq_true_eq, not_or] at gets
      obtain ⟨⟨enabled, free⟩, late⟩ := gets
      obtain ⟨thread, here, rfl⟩ := Option.map_eq_some_iff.mp asks
      simp only [BarrierSyncServer.step, if_pos idle, BarrierSyncServer.synchronize, if_neg enabled, here, if_neg free,
        if_neg late, if_pos reached]
      exact barrierRelease_succeeds (some thread) restarted
  | threadExit thread threads | threadStall thread threads =>
    simp only [BarrierSyncServer.step, if_pos idle]
    exact signal_succeeds (sound.2 asked asks reached) reached asks
  | threadMigrate | threadResume | advance | iterate | release | setDisable | setGroup | setFastForward => cases asks

theorem Invariant.progress (positive : 0 < config.barrierInterval) (holds : Invariant config state) :
    Progress config state := by
  constructor
  case behind => exact fun mode enabled core _ free => holds.fresh mode enabled core free
  case reached =>
    intro enabled reached
    cases reached with
    | inl reached => exact isBarrierReached_waits (fun mode => holds.fresh mode enabled) reached
    | inr inLoop => exact holds.loopWaits inLoop enabled
  case releases => exact fun idle label asked sound asks reached => releases_of_reached idle sound asks reached
  case goesOn => exact fun inLoop shuffle => iterate_succeeds config inLoop shuffle
  case terminates => exact fun inLoop => Stays.terminates positive holds inLoop
  case once =>
    intro inLoop enabled shuffle next stepped ended core
    obtain ⟨caller, phase⟩ := inLoop
    simp only [BarrierSyncServer.step, phase] at stepped
    obtain ⟨impossible, -⟩ | ⟨-, time, -, ⟨-, rfl⟩ | ⟨-, rfl⟩⟩ := iterate_cases stepped
    · simp [enabled] at impossible
    · have released : (state.barrierAcquire core && decide (state.localClock core < time)) = resumes state time core :=
        Bool.and_comm _ _
      have barrier : (BarrierSyncServer.finish config shuffle caller time state).nextBarrierTime = time := rfl
      simp only [barrier, released]
      exact ⟨rfl, finish_ledger shuffle caller time core⟩
    · exact absurd ⟨caller, phase⟩ ended
  case answered => exact holds.ledger
  case onward => exact fun label next sound stepped => step_onward holds sound stepped

omit [DecidableEq Thread] in
theorem invariant_start (positive : 0 < config.barrierInterval) (threads : Threads cores Thread) :
    Invariant config (start config threads) where
  fresh _ _ _ _ := positive
  inRange core := by
    have bounded := config.barrierInterval_lt
    simp only [start, InRange]
    omega
  globalTime := Nat.zero_le _
  ledger _ := rfl
  loopTime := by rintro ⟨_, ⟨⟩⟩
  loopWaits := by rintro ⟨_, ⟨⟩⟩

/-- Progress and safety of the barrier in every run of sound steps. -/
theorem barrier_progress (positive : 0 < config.barrierInterval)
    (reached : (machine config cores Thread).Reach (Sound config) state) : Progress config state := by
  apply Invariant.progress positive
  refine reached.invariant (Invariant config) ?_ ?_
  · rintro state ⟨threads, rfl⟩
    exact invariant_start positive threads
  · exact fun state label next holds sound stepped => holds.step sound stepped

end Steps

def smallConfig : Config := ⟨100, 4, by decide⟩

def bothRun : Threads 2 Nat := ⟨fun core => .running core true, true, false⟩

def firstRuns : Threads 2 Nat := ⟨fun core => .running core (core.val = 0), true, false⟩

def keepOrder : Shuffle 2 := ⟨id, fun list => .refl list⟩

/-- Both cores arrive, and the loop runs for the first of its turns. -/
theorem barrier_progress_bothArrive :
    ∃ state : State 2 Nat, (machine smallConfig 2 Nat).Reach (Sound smallConfig) state ∧ InLoop state ∧
      Progress smallConfig state := by
  obtain ⟨first, arrives, soundFirst⟩ : ∃ first : State 2 Nat,
      step smallConfig (start smallConfig bothRun) (.synchronize 0 150) = .ok first ∧
      Sound smallConfig first (.synchronize 1 350) := ⟨_, rfl, by decide, by decide, by rintro _ ⟨⟩ _; rfl⟩
  have reached : (machine smallConfig 2 Nat).Reach (Sound smallConfig) first :=
    .step (.synchronize 0 150) (.initial ⟨bothRun, rfl⟩) ⟨by decide, by decide, by rintro _ ⟨⟩ _; rfl⟩ arrives
  obtain ⟨second, follows, inLoop⟩ : ∃ second : State 2 Nat,
      step smallConfig first (.synchronize 1 350) = .ok second ∧ InLoop second := by
    cases arrives
    exact ⟨_, rfl, some 1, rfl⟩
  have reached : (machine smallConfig 2 Nat).Reach (Sound smallConfig) second := .step _ reached soundFirst follows
  exact ⟨second, reached, inLoop, barrier_progress (by decide) reached⟩

section Stuck

variable [DecidableEq Thread] {config : Config}

theorem run_stuck (shuffle : Shuffle cores) (count : Nat) {state : State cores Thread} (inLoop : InLoop state)
    (enabled : state.disable = false) (nobody : ∀ core, state.barrierAcquire core = false) :
    ∃ next, (machine config cores Thread).run state (List.replicate count (.iterate shuffle)) = .ok next ∧ InLoop next := by
  induction count generalizing state with
  | zero => exact ⟨state, rfl, inLoop⟩
  | succ count ih =>
    obtain ⟨caller, phase⟩ := inLoop
    have resumed : (List.finRange cores).any
        (resumes state (addTime state.nextBarrierTime config.barrierInterval)) = false := by
      simp [resumes, nobody]
    have turn : (machine config cores Thread).step state (.iterate shuffle) =
        .ok { state with
          nextBarrierTime := addTime state.nextBarrierTime config.barrierInterval
          globalTime := addTime state.nextBarrierTime config.barrierInterval } := by
      simp [machine, step, phase, iterate, enabled, resumed]
    obtain ⟨next, ran, stays⟩ := @ih
      { state with
        nextBarrierTime := addTime state.nextBarrierTime config.barrierInterval
        globalTime := addTime state.nextBarrierTime config.barrierInterval } ⟨caller, phase⟩ enabled nobody
    exact ⟨next, by rw [List.replicate_succ, Machine.run, turn]; exact ran, stays⟩

end Stuck

/-- A core waits at 150 for the barrier at 100, the barrier is disabled and
enabled again: the core is outside with a time behind the barrier, and when the
other core stalls the loop starts with nobody to release. -/
theorem barrier_stuck :
    ∃ state stalled : State 2 Nat, (machine smallConfig 2 Nat).Reachable state ∧
      (state.fastforward = false ∧ state.disable = false ∧ isCoreRunning state 0 = true ∧
        state.barrierAcquire 0 = false ∧ state.nextBarrierTime ≤ state.localClock 0) ∧
      (machine smallConfig 2 Nat).step state (.threadStall 1 firstRuns) = .ok stalled ∧
      (InLoop stalled ∧ isBarrierReached stalled = true ∧ ∀ core, stalled.barrierAcquire core = false) ∧
      ∀ count, ∃ next,
        (machine smallConfig 2 Nat).run stalled (List.replicate count (.iterate keepOrder)) = .ok next ∧ InLoop next := by
  obtain ⟨state, ran, stale⟩ : ∃ state : State 2 Nat, (machine smallConfig 2 Nat).run (start smallConfig bothRun)
      [.synchronize 0 150, .setDisable true, .setDisable false] = .ok state ∧
      (state.fastforward = false ∧ state.disable = false ∧ isCoreRunning state 0 = true ∧
        state.barrierAcquire 0 = false ∧ state.nextBarrierTime ≤ state.localClock 0) :=
    ⟨_, rfl, rfl, rfl, rfl, rfl, by decide⟩
  obtain ⟨stalled, stalls, inLoop, enabled, reached, nobody⟩ : ∃ stalled : State 2 Nat,
      (machine smallConfig 2 Nat).step state (.threadStall 1 firstRuns) = .ok stalled ∧ InLoop stalled ∧
      stalled.disable = false ∧ isBarrierReached stalled = true ∧ ∀ core, stalled.barrierAcquire core = false := by
    cases ran
    exact ⟨_, rfl, ⟨none, rfl⟩, rfl, rfl, fun core => rfl⟩
  have starts : (machine smallConfig 2 Nat).initial (start smallConfig bothRun) := ⟨bothRun, rfl⟩
  have reachable := Machine.Reachable.run (.initial starts) ran
  exact ⟨state, stalled, reachable, stale, stalls, ⟨inLoop, reached, nobody⟩,
    fun count => run_stuck keepOrder count inLoop enabled nobody⟩

end Sniper.System.BarrierSyncServer

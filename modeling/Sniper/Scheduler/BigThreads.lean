import Sniper.Scheduler.BigSmall

/-! `SchedulerBigSmall` never has more live threads flagged big than big cores. -/

namespace Sniper.Scheduler

variable {cores : Nat}

/-! ## What the base leaves alone -/

structure SameThreads (state next : State cores) : Prop where
  runnable : next.threadsRunnable = state.threadsRunnable
  numThreads : next.numThreads = state.numThreads

variable {state next last : State cores} {quantum time : UInt64} {thread : Nat}

theorem SameThreads.refl (state : State cores) : SameThreads state state := ⟨rfl, rfl⟩

theorem SameThreads.trans (first : SameThreads state next) (second : SameThreads next last) : SameThreads state last :=
  ⟨second.runnable.trans first.runnable, second.numThreads.trans first.numThreads⟩

theorem markResumed_sameThreads (runnable : state.threadsRunnable thread = true) : SameThreads state (markResumed thread state) := by
  refine ⟨?_, rfl⟩
  have same := Function.update_eq_self thread state.threadsRunnable
  rwa [runnable] at same

theorem place_vacate_sameThreads (time : UInt64) (core : Fin cores) (thread : Nat) (state : State cores) :
    SameThreads state (place time core thread (vacate time core state)) := by
  constructor
  · rw [place_threadsRunnable, vacate_threadsRunnable]
  · unfold place setInfo
    dsimp only
    split <;> exact vacate_numThreads

theorem moveThread_sameThreads {nested : Fin cores → State cores → Except Fault (State cores)}
    (keeps : ∀ core state, Meets (fun _ => True) (nested core state) (SameThreads state)) (core : Fin cores)
    (runnable : state.threadsRunnable thread = true) :
    Meets (fun _ => True) (moveThread nested core thread state) (SameThreads state) := by
  have resumed := markResumed_sameThreads runnable
  obtain ⟨marked, marks, result⟩ | ⟨free, _, result⟩ := moveThread_cases nested core thread state
  · rw [result]
    cases marks with
    | inl same => subst same; exact ⟨rfl, rfl⟩
    | inr same => subst same; exact ⟨resumed.runnable, resumed.numThreads⟩
  · rw [result]
    have inner := keeps free (markResumed thread state)
    cases moved : nested free (markResumed thread state) with
    | error fault => trivial
    | ok after =>
      have same := resumed.trans (inner.of_ok moved)
      exact ⟨same.runnable, same.numThreads⟩

theorem rescheduleWithin_sameThreads (quantum time : UInt64) (depth : Nat) (core : Fin cores) (state : State cores) :
    Meets (fun _ => True) (rescheduleWithin quantum time depth core state) (SameThreads state) := by
  induction depth generalizing core state with
  | zero => trivial
  | succ depth ih =>
    obtain ⟨_, result⟩ | result | ⟨_, result⟩ | ⟨_, result⟩ | ⟨thread, selected, _, result⟩ :=
      rescheduleWithin_cases quantum time depth core state
    · rw [result]
      exact ⟨rfl, rfl⟩
    · rw [result]
      trivial
    · rw [result]
      exact ⟨rfl, rfl⟩
    · rw [result]
      exact ⟨vacate_threadsRunnable, vacate_numThreads⟩
    · rw [result]
      have placed := place_vacate_sameThreads time core thread state
      have runnable := (eligible_parts (selectThread_some selected)).2.1
      rw [← placed.runnable] at runnable
      have meets := moveThread_sameThreads ih core runnable
      cases moved : moveThread (rescheduleWithin quantum time depth) core thread (place time core thread (vacate time core state)) with
      | error fault => trivial
      | ok after =>
        have same := placed.trans (meets.of_ok moved)
        exact ⟨same.runnable, same.numThreads⟩

theorem rescheduleFree_sameThreads (quantum time : UInt64) (thread : Nat) (state : State cores) :
    Meets (fun _ => True) (rescheduleFree quantum time thread state) (SameThreads state) := by
  unfold rescheduleFree
  split
  case h_1 => exact .refl state
  case h_2 => exact rescheduleWithin_sameThreads quantum time _ _ state

theorem leaveCore_sameThreads (quantum time : UInt64) (thread : Nat) (state : State cores) :
    Meets (fun _ => True) (leaveCore quantum time thread state) (SameThreads state) := by
  unfold leaveCore
  split
  case h_1 => exact .refl state
  case h_2 => exact rescheduleWithin_sameThreads quantum time _ _ state

theorem threadYield_sameThreads (quantum time : UInt64) (thread : Nat) (state : State cores) :
    Meets (fun _ => True) (threadYield quantum time thread state) (SameThreads state) := by
  unfold threadYield
  split
  case isTrue => trivial
  case isFalse =>
    split
    case h_1 => exact .refl state
    case h_2 core _ =>
      have meets := rescheduleWithin_sameThreads quantum time (cores + 2) core
        { state with quantumLeft := Function.update state.quantumLeft core 0 }
      split
      case h_1 => trivial
      case h_2 after result =>
        have same : SameThreads state after := ⟨(meets.of_ok result).runnable, (meets.of_ok result).numThreads⟩
        split
        case isTrue => exact same
        case isFalse =>
          exact (rescheduleFree_sameThreads quantum time thread after).mono fun _ later => same.trans later

theorem threadSetAffinity_sameThreads (quantum time : UInt64) (calling : Option Nat) (thread : Nat) (mask : Option (List Nat))
    (state : State cores) :
    Meets (fun _ => True) (threadSetAffinity quantum time calling thread mask state) (SameThreads state) := by
  unfold threadSetAffinity
  cases setMask mask (state.threadInfo thread) with
  | error fault => trivial
  | ok info =>
    dsimp only
    have masked : SameThreads state { setInfo thread (fun _ => info) state with
        infoSize := if state.infoSize ≤ thread then thread + 16 else state.infoSize } := ⟨rfl, rfl⟩
    refine Meets.ite (fun _ => masked) fun _ => Meets.ite (fun _ => ?_) fun _ => ?_
    · exact (threadYield_sameThreads quantum time thread _).mono fun _ later => masked.trans later
    · split
      case h_1 =>
        exact Meets.ite (fun _ => Meets.ite (fun _ => trivial) fun _ => masked) fun _ => ⟨rfl, rfl⟩
      case h_2 =>
        refine Meets.ite (fun _ => trivial) fun _ => Meets.ite (fun _ => ?_) fun _ => masked
        exact (rescheduleFree_sameThreads quantum time thread _).mono fun _ later => masked.trans later

theorem periodicFrom_sameThreads (quantum time delta : UInt64) (list : List (Fin cores)) (state : State cores) :
    Meets (fun _ => True) (periodicFrom quantum time delta list state) (SameThreads state) := by
  induction list generalizing state with
  | nil => exact .refl state
  | cons core rest ih =>
    unfold periodicFrom
    split
    case isTrue =>
      have meets := rescheduleWithin_sameThreads quantum time (cores + 2) core state
      split
      case h_1 => trivial
      case h_2 after result => exact (ih after).mono fun _ later => (meets.of_ok result).trans later
    case isFalse => exact (ih _).mono fun _ later => ⟨later.runnable, later.numThreads⟩

theorem periodic_sameThreads (quantum time : UInt64) (state : State cores) :
    Meets (fun _ => True) (periodic quantum time state) (SameThreads state) := by
  have meets := periodicFrom_sameThreads quantum time (time - state.lastPeriodic) (List.finRange cores) state
  unfold periodic
  split
  case h_1 => trivial
  case h_2 after result => exact ⟨(meets.of_ok result).runnable, (meets.of_ok result).numThreads⟩

/-! ## Flags -/

namespace BigSmall

variable {config : Config cores} {mask : List Nat} {isBig : Bool} {count : Nat}

theorem setAffinity_sameThreads (quantum time : UInt64) (thread : Nat) (mask : List Nat) (state : Scheduler.State cores) :
    Meets (fun _ => True) (setAffinity quantum time thread mask state) (SameThreads state) := by
  unfold setAffinity
  cases setMask (some mask) (state.threadInfo thread) with
  | error fault => trivial
  | ok info =>
    dsimp only
    have masked : SameThreads state { setInfo thread (fun _ => info) state with
        infoSize := if state.infoSize ≤ thread then thread + 16 else state.infoSize } := ⟨rfl, rfl⟩
    refine Meets.ite (fun _ => masked) fun _ => ?_
    split
    case h_1 => exact Meets.ite (fun _ => masked) fun _ => ⟨rfl, rfl⟩
    case h_2 =>
      refine Meets.ite (fun _ => ?_) fun _ => masked
      exact (rescheduleFree_sameThreads quantum time thread _).mono fun _ later => masked.trans later

/-- The flag of one thread is set, and no thread starts or ends. -/
structure Flagged (thread : Nat) (isBig : Bool) (state next : State cores) : Prop where
  base : SameThreads state.base next.base
  isBig : next.isBig = Function.update state.isBig thread isBig
  exited : next.exited = state.exited

theorem moveTo_flags (config : Config cores) (mask : List Nat) (isBig : Bool) (thread : Nat) (state : State cores) :
    Meets (fun _ => True) (moveTo config mask isBig thread state) (Flagged thread isBig state) :=
  (setAffinity_sameThreads config.quantum (state.clock 0) thread mask state.base).bind fun _ same => ⟨same, rfl, rfl⟩

/-- At most so many live threads are big, and flags and runnable threads are those of live threads. -/
structure Bounded (count : Nat) (state : State cores) : Prop where
  runnable : ∀ thread, state.base.threadsRunnable thread = true → thread < state.base.numThreads ∧ state.exited thread = false
  created : ∀ thread, state.isBig thread = true → thread < state.base.numThreads
  few : (bigThreads state).card ≤ count

variable {state next : State cores}

theorem mem_bigThreads {thread : Nat} :
    thread ∈ bigThreads state ↔ thread < state.base.numThreads ∧ state.isBig thread = true ∧ state.exited thread = false := by
  simp [bigThreads]

theorem Bounded.base (bounded : Bounded count state) {base : Scheduler.State cores} (same : SameThreads state.base base) :
    Bounded count { state with base } := by
  constructor
  · intro thread
    dsimp only
    rw [same.runnable, same.numThreads]
    exact bounded.runnable thread
  · intro thread
    dsimp only
    rw [same.numThreads]
    exact bounded.created thread
  · have equal : bigThreads { state with base } = bigThreads state := by
      unfold bigThreads
      rw [same.numThreads]
    rw [equal]
    exact bounded.few

theorem Bounded.promote (bounded : Bounded count state) {thread : Nat} (runnable : state.base.threadsRunnable thread = true)
    (flagged : Flagged thread true state next) : Bounded (count + 1) next := by
  constructor
  · intro other
    rw [flagged.base.runnable, flagged.base.numThreads, flagged.exited]
    exact bounded.runnable other
  · intro other big
    rw [flagged.base.numThreads]
    rw [flagged.isBig] at big
    by_cases same : other = thread
    · rw [same]
      exact (bounded.runnable thread runnable).1
    · rw [Function.update_of_ne same] at big
      exact bounded.created other big
  · have inserted : bigThreads next ⊆ insert thread (bigThreads state) := by
      intro other member
      rw [mem_bigThreads, flagged.base.numThreads, flagged.isBig, flagged.exited] at member
      rw [Finset.mem_insert, mem_bigThreads]
      by_cases same : other = thread
      · exact .inl same
      · rw [Function.update_of_ne same] at member
        exact .inr member
    calc (bigThreads next).card ≤ (insert thread (bigThreads state)).card := Finset.card_le_card inserted
      _ ≤ (bigThreads state).card + 1 := Finset.card_insert_le _ _
      _ ≤ count + 1 := Nat.succ_le_succ bounded.few

theorem Flagged.bigThreads_erase {thread : Nat} (flagged : Flagged thread false state next) :
    bigThreads next = (bigThreads state).erase thread := by
  ext other
  rw [Finset.mem_erase, mem_bigThreads, mem_bigThreads, flagged.base.numThreads, flagged.isBig, flagged.exited]
  by_cases same : other = thread
  · simp [same]
  · simp [same]

theorem Bounded.demoted (bounded : Bounded count state) {thread : Nat} (flagged : Flagged thread false state next) :
    Bounded count next := by
  constructor
  · intro other
    rw [flagged.base.runnable, flagged.base.numThreads, flagged.exited]
    exact bounded.runnable other
  · intro other big
    rw [flagged.base.numThreads]
    rw [flagged.isBig] at big
    by_cases same : other = thread
    · simp [same] at big
    · rw [Function.update_of_ne same] at big
      exact bounded.created other big
  · rw [flagged.bigThreads_erase]
    exact Nat.le_trans (Finset.card_le_card (Finset.erase_subset thread _)) bounded.few

theorem Bounded.few_demoted (bounded : Bounded (count + 1) state) {thread : Nat} (member : thread ∈ bigThreads state)
    (flagged : Flagged thread false state next) : Bounded count next := by
  have demoted := bounded.demoted flagged
  refine ⟨demoted.runnable, demoted.created, ?_⟩
  rw [flagged.bigThreads_erase, Finset.card_erase_of_mem member]
  exact Nat.sub_le_of_le_add bounded.few

structure Picked (count : Nat) (state next : State cores) : Prop where
  bounded : Bounded (count + 1) next
  base : SameThreads state.base next.base
  still : ∀ thread, state.isBig thread = true → next.isBig thread = true
  exited : next.exited = state.exited

theorem pickBigThread_picks (config : Config cores) (bounded : Bounded count state) :
    Meets (fun _ => True) (pickBigThread config state) (Picked count state) := by
  unfold pickBigThread
  split
  case h_1 =>
    exact ⟨⟨bounded.runnable, bounded.created, Nat.le_succ_of_le bounded.few⟩, .refl state.base, fun _ big => big, rfl⟩
  case h_2 thread picked =>
    have member := List.mem_of_getElem? picked
    simp only [eligibleThreads, List.mem_filter, Bool.and_eq_true] at member
    have drawn : Bounded count { state with rng := fun call => state.rng (call + 1) } :=
      ⟨bounded.runnable, bounded.created, bounded.few⟩
    refine (moveTo_flags config config.maskBig true thread _).mono fun next flagged => ?_
    refine ⟨drawn.promote member.2.2 flagged, flagged.base, fun other big => ?_, flagged.exited⟩
    rw [flagged.isBig]
    by_cases same : other = thread
    · simp [same]
    · rw [Function.update_of_ne same]
      exact big

/-! ## Handlers -/

theorem demote_bounded (config : Config cores) (bounded : Bounded count state) {thread : Nat} (alive : state.exited thread = false) :
    Meets (fun _ => True) (demote config thread state) (Bounded count) := by
  unfold demote
  refine Meets.ite (fun big => ?_) fun _ => bounded
  refine (pickBigThread_picks config bounded).bind fun next picked => ?_
  refine (moveTo_flags config config.maskSmall false thread next).mono fun last flagged => ?_
  refine picked.bounded.few_demoted ?_ flagged
  rw [mem_bigThreads, picked.base.numThreads, picked.exited]
  exact ⟨bounded.created thread big, picked.still thread big, alive⟩

theorem threadStall_bounded (config : Config cores) (bounded : Bounded count state) {thread : Nat}
    (alive : state.exited thread = false) (unscheduled : Bool) (time : UInt64) :
    Meets (fun _ => True) (threadStall config thread unscheduled time state) (Bounded count) := by
  unfold threadStall
  refine Meets.ite (fun _ => trivial) fun _ => Meets.ite (fun _ => ?_) fun _ => Meets.ite (fun _ => trivial) fun _ => ?_
  · exact ⟨bounded.runnable, bounded.created, bounded.few⟩
  · have stopped : Bounded count { state with
        base := { state.base with
          status := Function.update state.base.status thread (.stalled unscheduled)
          threadsRunnable := Function.update state.base.threadsRunnable thread false } } := by
      refine ⟨fun other runs => bounded.runnable other ?_, bounded.created, bounded.few⟩
      by_cases same : other = thread
      · simp [same] at runs
      · simpa [same] using runs
    refine (demote_bounded config stopped alive).bind fun next bounded => ?_
    exact (leaveCore_sameThreads config.quantum time thread next.base).bind fun _ same => bounded.base same

theorem replace_bounded (config : Config cores) (bounded : Bounded count state) {thread : Nat} (alive : state.exited thread = false)
    {base : Scheduler.State cores} (stopped : base.threadsRunnable = Function.update state.base.threadsRunnable thread false)
    (same : base.numThreads = state.base.numThreads) :
    Meets (fun _ => True) (replace config thread { state with base, exited := Function.update state.exited thread true })
      (Bounded count) := by
  have ended : bigThreads { state with base, exited := Function.update state.exited thread true } = (bigThreads state).erase thread := by
    ext other
    rw [Finset.mem_erase, mem_bigThreads, mem_bigThreads]
    dsimp only
    rw [same]
    by_cases equal : other = thread
    · simp [equal]
    · simp [equal]
  have runnable : ∀ other, base.threadsRunnable other = true →
      other < base.numThreads ∧ Function.update state.exited thread true other = false := by
    intro other runs
    rw [stopped] at runs
    rw [same]
    by_cases equal : other = thread
    · simp [equal] at runs
    · rw [Function.update_of_ne equal] at runs ⊢
      exact bounded.runnable other runs
  have created : ∀ other, state.isBig other = true → other < base.numThreads := by
    rw [same]
    exact bounded.created
  unfold replace
  refine Meets.ite (fun big => ?_) fun _ => ?_
  · have member : thread ∈ bigThreads state := mem_bigThreads.mpr ⟨bounded.created thread big, big, alive⟩
    have some := Finset.card_pos.mpr ⟨thread, member⟩
    have fewer : Bounded (count - 1) { state with base, exited := Function.update state.exited thread true } := by
      refine ⟨runnable, created, ?_⟩
      rw [ended, Finset.card_erase_of_mem member]
      exact Nat.sub_le_sub_right bounded.few 1
    refine (pickBigThread_picks config fewer).mono fun next picked => ?_
    have few := bounded.few
    rw [show count = count - 1 + 1 by omega]
    exact picked.bounded
  · refine ⟨runnable, created, ?_⟩
    rw [ended]
    exact Nat.le_trans (Finset.card_le_card (Finset.erase_subset thread _)) bounded.few

theorem threadExit_bounded (config : Config cores) (bounded : Bounded count state) {thread : Nat}
    (alive : state.exited thread = false) (time : UInt64) :
    Meets (fun _ => True) (threadExit config thread time state) (Bounded count) := by
  unfold threadExit
  refine Meets.ite (fun _ => trivial) fun _ => Meets.ite (fun _ => trivial) fun _ => ?_
  refine Meets.ite (fun _ => trivial) fun _ => Meets.ite (fun _ => trivial) fun _ => ?_
  have replaced : Meets (fun _ => True) (replace config thread { state with
      base := { state.base with
        status := Function.update state.base.status thread .idle
        threadCore := Function.update state.base.threadCore thread none
        threadsRunnable := Function.update state.base.threadsRunnable thread false }
      exited := Function.update state.exited thread true }) (Bounded count) := replace_bounded config bounded alive rfl rfl
  refine replaced.bind fun next bounded => ?_
  exact (leaveCore_sameThreads config.quantum time thread next.base).bind fun _ same => bounded.base same

theorem createOn_sameThreads (quantum : UInt64) (thread : Nat) (state : Scheduler.State cores) :
    SameThreads state (createOn quantum thread state) := by
  unfold createOn setInfo
  split <;> exact ⟨rfl, rfl⟩

theorem threadCreate_bounded (config : Config cores) (bounded : Bounded count state) :
    Meets (fun _ => True) (threadCreate config state) (Bounded count) := by
  unfold threadCreate
  have initial : Bounded count { state with
      base := { state.base with
        numThreads := state.base.numThreads + 1
        status := Function.update state.base.status state.base.numThreads .initializing
        infoSize := if state.base.infoSize ≤ state.base.numThreads then state.base.infoSize + 16 else state.base.infoSize } } := by
    constructor
    · intro other runs
      obtain ⟨created, alive⟩ := bounded.runnable other runs
      exact ⟨Nat.lt_succ_of_lt created, alive⟩
    · exact fun other big => Nat.lt_succ_of_lt (bounded.created other big)
    · refine Nat.le_trans (Finset.card_le_card fun other member => ?_) bounded.few
      rw [mem_bigThreads] at member ⊢
      exact ⟨bounded.created other member.2.1, member.2⟩
  have masked : Meets (fun _ => True) (setInitialAffinity config state.base.numThreads { state with
      base := { state.base with
        numThreads := state.base.numThreads + 1
        status := Function.update state.base.status state.base.numThreads .initializing
        infoSize := if state.base.infoSize ≤ state.base.numThreads then state.base.infoSize + 16 else state.base.infoSize } })
      (Bounded count) := by
    unfold setInitialAffinity
    refine Meets.ite (fun _ => initial) fun _ => ?_
    exact (moveTo_flags config config.maskSmall false _ _).mono fun _ flagged => initial.demoted flagged
  exact masked.bind fun next bounded => bounded.base (createOn_sameThreads config.quantum _ next.base)

theorem moveAllToSmall_none (config : Config cores) (bounded : Bounded count state) :
    Meets (fun _ => True) (moveAllToSmall config state)
      fun next => Bounded 0 next ∧ next.base.numThreads = state.base.numThreads := by
  unfold moveAllToSmall
  refine (Meets.foldlM (fun done (next : State cores) => Bounded count next ∧
    next.base.numThreads = state.base.numThreads ∧ ∀ thread ∈ done, next.isBig thread = false)
    (List.range state.base.numThreads) ?_ ⟨bounded, rfl, fun _ none_ => absurd none_ List.not_mem_nil⟩).mono ?_
  rotate_left
  · refine fun next ⟨bounded, same, small⟩ => ⟨⟨bounded.runnable, bounded.created, ?_⟩, same⟩
    rw [Nat.le_zero, Finset.card_eq_zero, Finset.eq_empty_iff_forall_notMem]
    intro thread member
    rw [mem_bigThreads, same] at member
    have no := small thread (List.mem_range.mpr member.1)
    rw [member.2.1] at no
    cases no
  · intro done thread rest next _ ⟨bounded, same, small⟩
    refine Meets.ite (fun _ => ?_) fun no => ?_
    · refine (moveTo_flags config config.maskSmall false thread next).mono fun last flagged => ?_
      refine ⟨bounded.demoted flagged, flagged.base.numThreads.trans same, fun other member => ?_⟩
      rw [flagged.isBig]
      by_cases equal : other = thread
      · simp [equal]
      · rw [Function.update_of_ne equal]
        exact small other (by simpa [equal] using member)
    · refine ⟨bounded, same, fun other member => ?_⟩
      rw [List.mem_append, List.mem_singleton] at member
      obtain earlier | rfl := member
      · exact small other earlier
      · simpa using no

theorem pickBigThreads_bounded (config : Config cores) (bounded : Bounded 0 state) :
    Meets (fun _ => True) (pickBigThreads config state) (Bounded config.numBigCores) := by
  unfold pickBigThreads
  refine (Meets.foldlM (fun done (next : State cores) => Bounded done.length next)
    (List.range (min config.numBigCores state.base.numThreads)) ?_ bounded).mono ?_
  rotate_left
  · refine fun next bounded => ⟨bounded.runnable, bounded.created, Nat.le_trans bounded.few ?_⟩
    rw [List.length_range]
    exact Nat.min_le_left _ _
  · intro done turn rest next _ bounded
    refine (pickBigThread_picks config bounded).mono fun last picked => ?_
    rw [List.length_append]
    exact picked.bounded

theorem periodic_bounded (config : Config cores) (bounded : Bounded config.numBigCores state) (time : UInt64) :
    Meets (fun _ => True) (periodic config time state) (Bounded config.numBigCores) := by
  have reshuffled : Meets (fun _ => True) (reshuffle config time state) (Bounded config.numBigCores) := by
    unfold reshuffle
    refine Meets.ite (fun _ => ?_) fun _ => bounded
    refine (moveAllToSmall_none config bounded).bind fun next none_ => ?_
    refine (pickBigThreads_bounded config none_.1).bind fun last bounded => ?_
    exact ⟨bounded.runnable, bounded.created, bounded.few⟩
  unfold periodic
  refine reshuffled.bind fun next bounded => ?_
  exact (periodic_sameThreads config.quantum time next.base).bind fun _ same => bounded.base same

theorem Bounded.resumed (bounded : Bounded count state) {thread : Nat} {base : Scheduler.State cores}
    (created : thread < state.base.numThreads) (alive : state.exited thread = false)
    (runs : base.threadsRunnable = Function.update state.base.threadsRunnable thread true)
    (same : base.numThreads = state.base.numThreads) : Bounded count { state with base } := by
  constructor
  · intro other runnable
    dsimp only at runnable ⊢
    rw [runs] at runnable
    rw [same]
    by_cases equal : other = thread
    · rw [equal]
      exact ⟨created, alive⟩
    · rw [Function.update_of_ne equal] at runnable
      exact bounded.runnable other runnable
  · dsimp only
    rw [same]
    exact bounded.created
  · have equal : bigThreads { state with base } = bigThreads state := by
      unfold bigThreads
      rw [same]
    rw [equal]
    exact bounded.few

theorem onBase_bounded {result : Except Fault (Scheduler.State cores)}
    (keeps : Meets (fun _ => True) result fun base => Bounded count { state with base }) :
    Meets (fun _ => True) (onBase result state) (Bounded count) :=
  keeps.bind fun _ bounded => bounded

theorem Bounded.onBase (bounded : Bounded count state) {result : Except Fault (Scheduler.State cores)}
    (keeps : Meets (fun _ => True) result (SameThreads state.base)) :
    Meets (fun _ => True) (onBase result state) (Bounded count) :=
  onBase_bounded (keeps.mono fun _ same => bounded.base same)

theorem threadStart_bounded (bounded : Bounded count state) {thread : Nat} (alive : state.exited thread = false)
    (quantum time : UInt64) :
    Meets (fun _ => True) (onBase (threadStart quantum time thread state.base) state) (Bounded count) := by
  apply onBase_bounded
  unfold threadStart
  refine Meets.ite (fun _ => trivial) fun known => Meets.ite (fun _ => trivial) fun _ => ?_
  have resumed (size : Nat) : Bounded count { state with base := { markResumed thread state.base with runnableSize := size } } :=
    bounded.resumed (Nat.lt_of_not_le known) alive rfl rfl
  split
  case h_1 => trivial
  case h_2 base result =>
    have started := (resumed _).base ((rescheduleFree_sameThreads quantum time thread _).of_ok result)
    exact Meets.ite (fun _ => ⟨started.runnable, started.created, started.few⟩)
      fun _ => ⟨started.runnable, started.created, started.few⟩

theorem threadResume_bounded (bounded : Bounded count state) {thread : Nat} (alive : state.exited thread = false)
    (quantum time : UInt64) :
    Meets (fun _ => True) (onBase (threadResume quantum time thread state.base) state) (Bounded count) := by
  apply onBase_bounded
  unfold threadResume
  refine Meets.ite (fun _ => trivial) fun known => Meets.ite (fun _ => trivial) fun _ => ?_
  have resumed : Bounded count { state with base := markResumed thread state.base } :=
    bounded.resumed (Nat.lt_of_not_le known) alive rfl rfl
  exact (rescheduleFree_sameThreads quantum time thread _).mono fun _ same => resumed.base same

theorem step_bounded (config : Config cores) (bounded : Bounded config.numBigCores state) (label : Label cores)
    (alive : Alive state label) : Meets (fun _ => True) (step config state label) (Bounded config.numBigCores) := by
  cases label with
  | create => exact threadCreate_bounded config bounded
  | start thread time => exact threadStart_bounded bounded alive config.quantum time
  | stall thread unscheduled time => exact threadStall_bounded config bounded alive unscheduled time
  | resume thread time => exact threadResume_bounded bounded alive config.quantum time
  | exit thread time => exact threadExit_bounded config bounded alive time
  | yield thread time => exact bounded.onBase (threadYield_sameThreads _ _ _ _)
  | setAffinity calling thread mask time => exact bounded.onBase (threadSetAffinity_sameThreads _ _ _ _ _ _)
  | periodic time => exact periodic_bounded config bounded time

theorem card_bigThreads_le (reached : (machine config).Reach Alive state) : (bigThreads state).card ≤ config.numBigCores := by
  refine Bounded.few (Machine.Reach.invariant (Bounded config.numBigCores) ?_ ?_ reached)
  · rintro state ⟨rng, clock, rfl⟩
    exact ⟨fun _ runs => absurd runs Bool.false_ne_true, fun _ big => absurd big Bool.false_ne_true, Nat.zero_le _⟩
  · intro state label next bounded alive stepped
    exact (step_bounded config bounded label alive).of_ok stepped

/-- A thread is promoted to the one big core of two. -/
theorem card_bigThreads_le_promoted : ∃ state : State 2, (machine ⟨5, fun core => core == 1⟩).Reach Alive state ∧
    state.isBig 0 = true ∧ (bigThreads state).card ≤ (⟨5, fun core => core == 1⟩ : Config 2).numBigCores := by
  have starts : (machine ⟨5, fun core => core == 1⟩).Reach Alive
      (⟨emptyState, fun _ => false, 0, fun _ => 0, fun _ => 0, fun _ => false⟩ : State 2) := .initial ⟨_, _, rfl⟩
  have created := Machine.Reach.step (Label.create : Label 2) starts trivial rfl
  have started := Machine.Reach.step (Label.start 0 1 : Label 2) created rfl rfl
  have reached := Machine.Reach.step (Label.periodic 10 : Label 2) started trivial rfl
  exact ⟨_, reached, rfl, card_bigThreads_le reached⟩

end BigSmall

end Sniper.Scheduler

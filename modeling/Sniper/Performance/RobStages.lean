import Sniper.Performance.RobTimer
import Sniper.Library.Outcome

/-! What the stages of the timer do to the reorder buffer: the entries before the window are not done, and
all times are whole cycles. -/

namespace Sniper.Performance.RobTimer

variable {Cycle Mem : Type}

/-- A whole number of periods, or `MaxTime`. -/
def Whole (period : Nat) (time : SubsecondTime) : Prop := ∀ value : Nat, time = value → period ∣ value

namespace Whole

variable {period : Nat}

theorem top : Whole period ⊤ := by
  intro value impossible
  exact absurd impossible.symm (SubsecondTime.fs_ne_top value)

theorem of_dvd {value : Nat} (divides : period ∣ value) : Whole period (value : Nat) := by
  intro other same
  exact SubsecondTime.fs_injective same ▸ divides

theorem max {first second : SubsecondTime} (whole : Whole period first) (whole' : Whole period second) :
    Whole period (max first second) := by
  rcases max_choice first second with chosen | chosen
  · rwa [chosen]
  · rwa [chosen]

theorem min {first second : SubsecondTime} (whole : Whole period first) (whole' : Whole period second) :
    Whole period (min first second) := by
  rcases min_choice first second with chosen | chosen
  · rwa [chosen]
  · rwa [chosen]

end Whole

structure RobEntry.Whole (period : Nat) (entry : RobEntry) : Prop where
  ready : RobTimer.Whole period entry.ready
  readyMax : RobTimer.Whole period entry.readyMax
  done : RobTimer.Whole period entry.done

/-- The entry without those that wait for it. -/
def RobEntry.bare (entry : RobEntry) : RobEntry := { entry with dependants := [] }

theorem RobEntry.ready_of_bare {entry other : RobEntry} (same : other.bare = entry.bare) : other.ready = entry.ready := by
  have fields := congrArg RobEntry.ready same
  exact fields

theorem RobEntry.done_of_bare {entry other : RobEntry} (same : other.bare = entry.bare) : other.done = entry.done := by
  have fields := congrArg RobEntry.done same
  exact fields

theorem RobEntry.uop_of_bare {entry other : RobEntry} (same : other.bare = entry.bare) : other.uop = entry.uop := by
  have fields := congrArg RobEntry.uop same
  exact fields

theorem RobEntry.Whole.of_bare {period : Nat} {entry other : RobEntry} (same : other.bare = entry.bare)
    (whole : entry.Whole period) : other.Whole period := by
  obtain ⟨ready, readyMax, done⟩ := whole
  have readyMaxSame := congrArg RobEntry.readyMax same
  exact ⟨RobEntry.ready_of_bare same ▸ ready, readyMaxSame ▸ readyMax, RobEntry.done_of_bare same ▸ done⟩

/-! ## New micro-operations -/

/-- New entries follow the old ones, which only get more dependants. -/
def Extends (period : Nat) (old new : List RobEntry) : Prop :=
  ∃ added, new.map RobEntry.bare = old.map RobEntry.bare ++ added ∧
    ∀ entry ∈ added, entry.done = ⊤ ∧ ((∀ entry ∈ old, entry.Whole period) → entry.Whole period)

namespace Extends

variable {period : Nat} {old new : List RobEntry}

theorem refl (entries : List RobEntry) : Extends period entries entries :=
  ⟨[], (List.append_nil _).symm, by simp⟩

theorem length_le (extended : Extends period old new) : old.length ≤ new.length := by
  obtain ⟨added, same, -⟩ := extended
  have lengths := congrArg List.length same
  simp only [List.length_append, List.length_map] at lengths
  omega

theorem old_get {index : Nat} {entry : RobEntry} (extended : Extends period old new) (there : old[index]? = some entry) :
    ∃ entry', new[index]? = some entry' ∧ entry'.bare = entry.bare := by
  obtain ⟨added, same, -⟩ := extended
  obtain ⟨within, -⟩ := List.getElem?_eq_some_iff.mp there
  have here : (new.map RobEntry.bare)[index]? = (old.map RobEntry.bare ++ added)[index]? := by rw [same]
  rw [List.getElem?_append_left (by simpa using within), List.getElem?_map, List.getElem?_map, there] at here
  exact Option.map_eq_some_iff.mp here

theorem get {index : Nat} {entry : RobEntry} (extended : Extends period old new) (there : new[index]? = some entry) :
    (∃ entry', old[index]? = some entry' ∧ entry.bare = entry'.bare) ∨
      old.length ≤ index ∧ entry.done = ⊤ ∧ ((∀ entry ∈ old, entry.Whole period) → entry.Whole period) := by
  by_cases within : index < old.length
  · left
    have found := List.getElem?_eq_getElem within
    obtain ⟨entry', there', same⟩ := extended.old_get found
    rw [there] at there'
    cases there'
    exact ⟨_, found, same⟩
  · right
    obtain ⟨added, same, fresh⟩ := extended
    have here : (new.map RobEntry.bare)[index]? = (old.map RobEntry.bare ++ added)[index]? := by rw [same]
    rw [List.getElem?_append_right (by simpa using within), List.getElem?_map, there] at here
    have member := List.mem_of_getElem? here.symm
    obtain ⟨done, whole⟩ := fresh _ member
    have bareTwice : entry.bare = entry.bare.bare := rfl
    exact ⟨by omega, done, fun oldWhole => (whole oldWhole).of_bare bareTwice⟩

theorem whole (extended : Extends period old new) (oldWhole : ∀ entry ∈ old, entry.Whole period) :
    ∀ entry ∈ new, entry.Whole period := by
  intro entry member
  obtain ⟨index, there⟩ := List.getElem?_of_mem member
  obtain ⟨entry', there', same⟩ | ⟨-, -, fresh⟩ := extended.get there
  · exact (oldWhole entry' (List.mem_of_getElem? there')).of_bare same
  · exact fresh oldWhole

theorem trans {mid : List RobEntry} (first : Extends period old mid) (second : Extends period mid new) :
    Extends period old new := by
  have midWhole := first.whole
  obtain ⟨added, same, fresh⟩ := first
  obtain ⟨more, same', fresh'⟩ := second
  refine ⟨added ++ more, by rw [same', same, List.append_assoc], ?_⟩
  intro entry member
  rcases List.mem_append.mp member with here | here
  · exact fresh entry here
  · exact ⟨(fresh' entry here).1, fun oldWhole => (fresh' entry here).2 (midWhole oldWhole)⟩

end Extends

theorem findEntryBySequenceNumber_mem (entries : List RobEntry) (sequenceNumber : Nat) :
    Meets (fun _ => True) (findEntryBySequenceNumber entries sequenceNumber) fun entry => entry ∈ entries := by
  unfold findEntryBySequenceNumber
  refine Meets.bind (Meets.any _) fun position _ => ?_
  split
  case h_1 => trivial
  case h_2 entry found => exact List.mem_of_getElem? found

theorem updateEntry_bare (entries : List RobEntry) (sequenceNumber : Nat) {update : RobEntry → RobEntry}
    (bare : ∀ entry, (update entry).bare = entry.bare) :
    Meets (fun _ => True) (updateEntry entries sequenceNumber update) fun entries' =>
      entries'.map RobEntry.bare = entries.map RobEntry.bare := by
  unfold updateEntry
  refine Meets.bind (Meets.any _) fun position _ => ?_
  apply List.ext_getElem?
  intro index
  simp only [List.getElem?_map, List.getElem?_modify]
  split
  case isTrue =>
    cases entries[index]? with
    | none => rfl
    | some entry => simp [bare]
  case isFalse => simp

theorem addToProducers_extends (period sequenceNumber : Nat) (dependencies : List Nat) (entries : List RobEntry) :
    Meets (fun _ => True) (addToProducers sequenceNumber dependencies entries) fun result =>
      result.1.map RobEntry.bare = entries.map RobEntry.bare ∧
        ((∀ entry ∈ entries, entry.Whole period) → Whole period result.2.2) := by
  induction dependencies generalizing entries with
  | nil => exact Meets.ok ⟨rfl, fun _ => Whole.of_dvd (Nat.dvd_zero period)⟩
  | cons dependency rest ih =>
    unfold addToProducers
    refine Meets.bind (findEntryBySequenceNumber_mem entries dependency) fun prodEntry member => ?_
    refine Meets.ite (fun _ => ?_) fun _ => ?_
    · refine Meets.bind (ih entries) ?_
      rintro ⟨entries', toRemove, readyMax⟩ ⟨same, whole⟩
      exact Meets.ok ⟨same, fun oldWhole => (oldWhole prodEntry member).done.max (whole oldWhole)⟩
    · refine Meets.bind (updateEntry_bare entries dependency fun _ => rfl) fun entries' same => ?_
      refine (ih entries').mono ?_
      rintro ⟨entries'', toRemove, readyMax⟩ ⟨same', whole⟩
      refine ⟨same'.trans same, fun oldWhole => whole ?_⟩
      have extended : Extends period entries entries' := ⟨[], by rw [same, List.append_nil], by simp⟩
      exact extended.whole oldWhole

theorem insertMicroOp_extends (config : Config Cycle Mem) (rob : Rob) (uop : DynamicMicroOp) :
    Meets (fun _ => True) (insertMicroOp config rob uop) fun rob' => Extends config.period rob.entries rob'.entries := by
  unfold insertMicroOp
  refine Meets.ite (fun _ => Meets.ok (.refl _)) fun _ => Meets.ite (fun _ => trivial) fun _ => ?_
  refine Meets.bind (Meets.any _) fun address _ => Meets.bind (Meets.any _) fun registers _ => ?_
  refine Meets.bind (Meets.any _) fun memory _ => Meets.bind (Meets.any _) fun forwarded _ => ?_
  refine Meets.bind (Meets.any _) fun dependencies _ => Meets.bind (addToProducers_extends config.period ..) ?_
  rintro ⟨entries, toRemove, readyMax⟩ ⟨same, whole⟩
  refine Meets.ite (fun _ => trivial) fun _ => Meets.bind (Meets.any _) fun removed _ => ?_
  refine Meets.ok ⟨[_], by rw [List.map_append, same]; rfl, ?_⟩
  intro entry member
  rw [List.mem_singleton] at member
  subst member
  refine ⟨rfl, fun oldWhole => ⟨?_, whole oldWhole, Whole.top⟩⟩
  change Whole config.period (if _ then readyMax else ⊤)
  split
  · exact whole oldWhole
  · exact Whole.top

theorem insertMicroOps_extends (config : Config Cycle Mem) (rob : Rob) (insts : List DynamicMicroOp) :
    Meets (fun _ => True) (insertMicroOps config rob insts) fun rob' => Extends config.period rob.entries rob'.entries := by
  unfold insertMicroOps
  refine Meets.foldlM (fun _ (rob' : Rob) => Extends config.period rob.entries rob'.entries) insts ?_ (.refl _)
  intro _ inst _ rob' _ extended
  exact (insertMicroOp_extends config rob' inst).mono fun _ further => extended.trans further

/-! ## The invariant -/

structure Valid (config : Config Cycle Mem) (state : State Mem) : Prop where
  now : config.period ∣ state.now
  stalled : Whole config.period state.frontendStalledUntil
  whole : ∀ entry ∈ state.rob.entries, entry.Whole config.period
  /-- What is not dispatched is not done. -/
  waiting : ∀ index entry, state.numInRob ≤ index → state.rob.entries[index]? = some entry → entry.done = ⊤
  inRob : state.numInRob ≤ state.rob.entries.length

namespace Valid

variable {config : Config Cycle Mem} {state : State Mem}

theorem insert {rob : Rob} (valid : Valid config state) (extended : Extends config.period state.rob.entries rob.entries) :
    Valid config { state with rob := rob } where
  now := valid.now
  stalled := valid.stalled
  whole := extended.whole valid.whole
  waiting := by
    intro index entry outside there
    obtain ⟨entry', there', same⟩ | ⟨-, done, -⟩ := extended.get there
    · rw [RobEntry.done_of_bare same]
      exact valid.waiting index entry' outside there'
    · exact done
  inRob := Nat.le_trans valid.inRob extended.length_le

theorem set (valid : Valid config state) (index : Nat) (entry : RobEntry) (whole : entry.Whole config.period)
    (waiting : state.numInRob ≤ index → entry.done = ⊤) :
    Valid config { state with rob := { state.rob with entries := state.rob.entries.set index entry } } where
  now := valid.now
  stalled := valid.stalled
  whole := by
    intro other member
    rcases List.mem_or_eq_of_mem_set member with old | rfl
    · exact valid.whole other old
    · exact whole
  waiting := by
    intro position other outside there'
    rw [List.getElem?_set] at there'
    split at there'
    case isTrue same =>
      split at there'
      case isTrue =>
        cases there'
        exact waiting (same ▸ outside)
      case isFalse => cases there'
    case isFalse => exact valid.waiting position other outside there'
  inRob := by
    rw [List.length_set]
    exact valid.inRob

end Valid

/-! ## Dispatch -/

/-- What the loop of `doDispatch` leaves. -/
structure Dispatches (config : Config Cycle Mem) (before : State Mem) (result : State Mem × Option CpiComponent × SubsecondTime) :
    Prop where
  valid : Valid config result.1
  nextEvent : Whole config.period result.2.2
  now : result.1.now = before.now
  /-- With a full window the front end is not the reason, unless a branch was mispredicted. -/
  full : result.1.numInRob = config.windowSize → result.2.1 = none ∨ result.1.frontendStalledUntil = ⊤

theorem Valid.dispatch {config : Config Cycle Mem} {state : State Mem} {entry : RobEntry} (valid : Valid config state)
    (member : entry ∈ state.rob.entries) : (entry.dispatch config state.now).Whole config.period := by
  have whole := valid.whole entry member
  have next : Whole config.period ((state.now + config.period : Nat) : SubsecondTime) :=
    .of_dvd (Nat.dvd_add valid.now (Nat.dvd_refl _))
  exact ⟨whole.ready.max next, whole.readyMax, whole.done⟩

theorem Valid.enter {config : Config Cycle Mem} {state : State Mem} {entry : RobEntry} (valid : Valid config state)
    (there : state.rob.entries[state.numInRob]? = some entry) :
    Valid config (state.enter (entry.dispatch config state.now)) := by
  have placed := valid.set state.numInRob (entry.dispatch config state.now) (valid.dispatch (List.mem_of_getElem? there))
    fun outside => valid.waiting state.numInRob entry outside there
  have within := (List.getElem?_eq_some_iff.mp there).1
  refine ⟨placed.now, placed.stalled, placed.whole, ?_, ?_⟩
  · intro index other outside
    exact placed.waiting index other (Nat.le_of_succ_le outside)
  · simp only [State.enter, List.length_set]
    exact within

theorem dispatchLoop_dispatches {config : Config Cycle Mem} (width : Nat) {state : State Mem} {nextEvent : SubsecondTime}
    (valid : Valid config state) (whole : Whole config.period nextEvent) :
    Meets (fun _ => True) (dispatchLoop config width state nextEvent) (Dispatches config state) := by
  induction width generalizing state nextEvent with
  | zero =>
    unfold dispatchLoop
    refine Meets.ite (fun _ => ?_) fun _ => Meets.ok ⟨valid, whole, rfl, fun _ => .inl rfl⟩
    split
    case h_1 => trivial
    case h_2 => exact Meets.ok ⟨valid, whole, rfl, fun _ => .inl rfl⟩
  | succ width ih =>
    unfold dispatchLoop
    refine Meets.ite (fun room => ?_) fun _ => Meets.ok ⟨valid, whole, rfl, fun _ => .inl rfl⟩
    split
    case h_1 => trivial
    case h_2 entry there =>
      have notFull : ¬state.numInRob = config.windowSize := by omega
      refine Meets.ite (fun _ => ?_) fun _ => Meets.ite (fun _ => ?_) fun _ => ?_
      · -- An instruction cache miss stalls the front end.
        have stalled : Whole config.period ((state.now + entry.uop.iCacheLatency * config.period : Nat) : SubsecondTime) :=
          .of_dvd (Nat.dvd_add valid.now (Nat.dvd_mul_left _ _))
        refine Meets.ok ⟨⟨valid.now, stalled, valid.whole, valid.waiting, valid.inRob⟩, whole, rfl, ?_⟩
        exact fun full => absurd full notFull
      · refine Meets.ok ⟨⟨valid.now, valid.stalled, valid.whole, valid.waiting, valid.inRob⟩, whole, rfl, ?_⟩
        exact fun full => absurd full notFull
      · have returned : Valid config { state with
            inIcacheMiss := state.inIcacheMiss && !decide (entry.uop.iCacheHitWhere ≠ .l1i) } :=
          ⟨valid.now, valid.stalled, valid.whole, valid.waiting, valid.inRob⟩
        have entered := returned.enter there
        have ready := (returned.dispatch (List.mem_of_getElem? there)).ready
        refine Meets.ite (fun _ => ?_) fun _ => ?_
        · -- A mispredicted branch stalls the front end until it is resolved.
          exact Meets.ok ⟨⟨entered.now, Whole.top, entered.whole, entered.waiting, entered.inRob⟩, whole.min ready, rfl,
            fun _ => .inr rfl⟩
        · refine (ih entered (whole.min ready)).mono fun result dispatched => ?_
          exact ⟨dispatched.valid, dispatched.nextEvent, dispatched.now, dispatched.full⟩

/-- What `doDispatch` leaves. -/
structure DispatchStage (config : Config Cycle Mem) (before after : State Mem) (last stall : Option CpiComponent)
    (component : CpiComponent) (nextEvent : SubsecondTime) : Prop where
  valid : Valid config after
  whole : Whole config.period nextEvent
  now : after.now = before.now
  chosen : component = chooseCpiComponent stall (findCpiComponent after) (after.numInRob = config.windowSize)
  /-- A front end with room in the window runs again after its stall. -/
  restart : after.numInRob ≠ config.windowSize → nextEvent ≤ after.frontendStalledUntil
  stalled : ¬before.frontendStalledUntil ≤ before.now → after = before ∧ stall = last
  full : before.frontendStalledUntil ≤ before.now → after.numInRob = config.windowSize →
    stall = none ∨ after.frontendStalledUntil = ⊤

theorem doDispatch_meets {config : Config Cycle Mem} {state : State Mem} (stall : Option CpiComponent)
    (valid : Valid config state) :
    Meets (fun _ => True) (doDispatch config state stall) fun result =>
      DispatchStage config state result.1 stall result.2.1 result.2.2.1 result.2.2.2 := by
  have account {after : State Mem} (stall : Option CpiComponent) {nextEvent : SubsecondTime} (kept : Valid config after)
      (whole : Whole config.period nextEvent) : Whole config.period (accountDispatch config after stall nextEvent).2 ∧
      (after.numInRob ≠ config.windowSize →
        (accountDispatch config after stall nextEvent).2 ≤ after.frontendStalledUntil) := by
    unfold accountDispatch
    by_cases full : after.numInRob = config.windowSize
    · simp [full, whole]
    · simp [full, kept.stalled.min whole]
  unfold doDispatch runFrontEnd
  by_cases runs : state.frontendStalledUntil ≤ state.now
  · rw [if_pos runs]
    refine Meets.bind (dispatchLoop_dispatches _ valid Whole.top) ?_
    rintro ⟨after, cpiFrontEnd, nextEvent⟩ dispatched
    obtain ⟨whole, restart⟩ := account cpiFrontEnd dispatched.valid dispatched.nextEvent
    exact Meets.ok ⟨dispatched.valid, whole, dispatched.now, rfl, restart, fun waits => absurd runs waits,
      fun _ => dispatched.full⟩
  · rw [if_neg runs]
    obtain ⟨whole, restart⟩ := account stall valid Whole.top
    exact Meets.ok ⟨valid, whole, rfl, rfl, restart, fun _ => ⟨rfl, rfl⟩, fun idle => absurd idle runs⟩

/-! ## Issue -/

theorem Valid.wake {config : Config Cycle Mem} {state : State Mem} {entries : List RobEntry} (valid : Valid config state)
    (done : entries.map RobEntry.done = state.rob.entries.map RobEntry.done)
    (whole : ∀ entry ∈ entries, entry.Whole config.period) :
    Valid config { state with rob := { state.rob with entries := entries } } := by
  have lengths : entries.length = state.rob.entries.length := by simpa using congrArg List.length done
  refine ⟨valid.now, valid.stalled, whole, ?_, by rw [lengths]; exact valid.inRob⟩
  intro index entry outside there
  have same : (entries.map RobEntry.done)[index]? = (state.rob.entries.map RobEntry.done)[index]? := by rw [done]
  rw [List.getElem?_map, List.getElem?_map, there, Option.map_some, eq_comm, Option.map_eq_some_iff] at same
  obtain ⟨old, found, doneSame⟩ := same
  exact doneSame ▸ valid.waiting index old outside found

theorem produceAddress_meets (entries : List RobEntry) (producer : Nat) (cycleDepend : SubsecondTime) (depEntry : RobEntry) :
    Meets (fun _ => True) (produceAddress entries producer cycleDepend depEntry) fun entry =>
      entry.done = depEntry.done ∧ entry.ready = depEntry.ready ∧ entry.readyMax = depEntry.readyMax := by
  unfold produceAddress
  refine Meets.ite (fun _ => ?_) fun _ => Meets.ok ⟨rfl, rfl, rfl⟩
  refine Meets.bind (Meets.any _) fun waits _ => ?_
  exact Meets.ite (fun _ => Meets.ok ⟨rfl, rfl, rfl⟩) fun _ => Meets.ok ⟨rfl, rfl, rfl⟩

theorem wakeDependant_meets {period : Nat} (producer : Nat) {cycleDepend : SubsecondTime} {entries : List RobEntry}
    (dependant : Nat) (depends : Whole period cycleDepend) (whole : ∀ entry ∈ entries, entry.Whole period) :
    Meets (fun _ => True) (wakeDependant producer cycleDepend entries dependant) fun entries' =>
      entries'.map RobEntry.done = entries.map RobEntry.done ∧ ∀ entry ∈ entries', entry.Whole period := by
  unfold wakeDependant
  refine Meets.bind (Meets.any _) fun position _ => ?_
  split
  case h_1 => trivial
  case h_2 depEntry there =>
    have depWhole := whole depEntry (List.mem_of_getElem? there)
    refine Meets.ite (fun _ => trivial) fun _ => Meets.bind (Meets.any _) fun uop _ => ?_
    refine Meets.bind (produceAddress_meets ..) ?_
    rintro woken ⟨done, ready, readyMax⟩
    refine Meets.ok ⟨?_, ?_⟩
    · rw [List.map_set, done]
      apply List.ext_getElem?
      intro index
      rw [List.getElem?_set]
      split
      case isTrue same =>
        subst same
        have within := (List.getElem?_eq_some_iff.mp there).1
        rw [List.getElem?_map, there, if_pos (by simpa using within)]
        rfl
      case isFalse => rfl
    · intro entry member
      rcases List.mem_or_eq_of_mem_set member with old | rfl
      · exact whole entry old
      · have latest := depWhole.readyMax.max depends
        refine ⟨?_, readyMax ▸ latest, done ▸ depWhole.done⟩
        rw [ready]
        dsimp only
        split
        · exact latest
        · exact depWhole.ready

structure Issues (config : Config Cycle Mem) (before after : State Mem) (nextEvent : SubsecondTime) : Prop where
  valid : Valid config after
  nextEvent : Whole config.period nextEvent
  now : after.now = before.now
  numInRob : after.numInRob = before.numInRob

theorem cycleDepend_dvd {config : Config Cycle Mem} (uop : DynamicMicroOp) {now : Nat} (whole : config.period ∣ now) :
    config.period ∣ cycleDepend config uop now := by
  unfold cycleDepend
  split
  · exact Nat.dvd_add whole (Nat.dvd_refl _)
  · exact Nat.dvd_add whole (Nat.dvd_mul_left _ _)

theorem cycleDone_dvd {config : Config Cycle Mem} (uop : DynamicMicroOp) {now : Nat} (whole : config.period ∣ now) :
    config.period ∣ cycleDone config uop now := by
  unfold cycleDone
  split
  · exact Nat.dvd_add whole (Nat.dvd_refl _)
  · exact Nat.dvd_add (Nat.dvd_add whole (Nat.dvd_mul_left _ _)) (Nat.dvd_refl _)

theorem issueInstruction_meets {config : Config Cycle Mem} {state : State Mem} {index : Nat} {entry : RobEntry}
    (ports : Option Cycle) {nextEvent : SubsecondTime} (valid : Valid config state) (whole : Whole config.period nextEvent)
    (inWindow : index < state.numInRob) (there : state.rob.entries[index]? = some entry) :
    Meets (fun _ => True) (issueInstruction config state index entry ports nextEvent) fun result =>
      Issues config state result.1 result.2.2 ∧ result.2.2 ≤ nextEvent := by
  have entryWhole := valid.whole entry (List.mem_of_getElem? there)
  unfold issueInstruction
  obtain ⟨uop, memory⟩ := accessAtIssue config state entry.uop
  have done := Whole.of_dvd (cycleDone_dvd uop valid.now)
  refine Meets.ite (fun _ => trivial) fun _ => Meets.bind (Meets.any _) fun ports' _ => ?_
  have issued := valid.set index { entry with uop := uop, issued := state.now, done := cycleDone config uop state.now }
    ⟨entryWhole.ready, entryWhole.readyMax, done⟩ fun outside => absurd inWindow (Nat.not_lt_of_le outside)
  refine Meets.bind (Meets.foldlM (fun _ (entries : List RobEntry) =>
    Valid config { state with rob := { state.rob with entries := entries } }) entry.dependants ?_ issued) fun entries woken => ?_
  · intro _ dependant _ entries _ woken
    refine (wakeDependant_meets _ dependant (Whole.of_dvd (cycleDepend_dvd uop valid.now)) woken.whole).mono fun entries' kept => ?_
    exact woken.wake kept.1 kept.2
  · refine Meets.ok ⟨⟨⟨woken.now, ?_, woken.whole, woken.waiting, woken.inRob⟩, whole.min done, rfl, rfl⟩,
      min_le_left _ _⟩
    dsimp only
    split
    · exact Whole.of_dvd (Nat.dvd_sub (Nat.dvd_add valid.now (Nat.dvd_mul_left _ _)) (Nat.dvd_mul_left _ _))
    · exact valid.stalled

/-- When `doIssue` looks at the entry again: when it can be issued or committed. -/
def RobEntry.wakeUp (entry : RobEntry) : SubsecondTime := if entry.done ≠ ⊤ then entry.done else entry.ready

theorem issueEntry_meets {config : Config Cycle Mem} {state : State Mem} {index : Nat} {entry : RobEntry}
    {loop : IssueLoop Cycle} (valid : Valid config state) (whole : Whole config.period loop.nextEvent)
    (inWindow : index < state.numInRob) (there : state.rob.entries[index]? = some entry) :
    Meets (fun _ => True) (issueEntry config index entry loop state) fun result =>
      Issues config state result.1 result.2.1.nextEvent ∧ result.2.1.nextEvent ≤ min loop.nextEvent entry.wakeUp := by
  have entryWhole := valid.whole entry (List.mem_of_getElem? there)
  unfold issueEntry RobEntry.wakeUp
  by_cases isDone : entry.done ≠ ⊤
  · rw [if_pos isDone, if_pos isDone]
    exact Meets.ok ⟨⟨valid, whole.min entryWhole.done, rfl, rfl⟩, le_refl _⟩
  · rw [if_neg isDone, if_neg isDone]
    have nextEvent := whole.min entryWhole.ready
    refine Meets.ite (fun _ => Meets.ok ⟨⟨valid, nextEvent, rfl, rfl⟩, le_refl _⟩) fun _ => ?_
    refine Meets.bind (Meets.any _) fun claimed _ => Meets.ite (fun _ => ?_) fun _ => ?_
    · refine Meets.bind (issueInstruction_meets claimed.2 valid nextEvent inWindow there) ?_
      rintro ⟨after, ports, next⟩ ⟨issued, earlier⟩
      exact Meets.ok ⟨issued, earlier⟩
    · exact Meets.ok ⟨⟨valid, nextEvent, rfl, rfl⟩, le_refl _⟩

theorem issueLoop_meets {config : Config Cycle Mem} (left : Nat) {index : Nat} {loop : IssueLoop Cycle} {state : State Mem}
    (valid : Valid config state) (whole : Whole config.period loop.nextEvent) (inWindow : index + left = state.numInRob) :
    Meets (fun _ => True) (issueLoop config left index loop state) fun result =>
      Issues config state result.1 result.2.nextEvent ∧ result.2.nextEvent ≤ loop.nextEvent := by
  induction left generalizing index loop state with
  | zero => exact Meets.ok ⟨⟨valid, whole, rfl, rfl⟩, le_refl _⟩
  | succ left ih =>
    unfold issueLoop
    split
    case h_1 => trivial
    case h_2 entry there =>
      refine Meets.bind (issueEntry_meets valid whole (by omega) there) ?_
      rintro ⟨after, next, continues⟩ ⟨issued, earlier⟩
      have sooner := le_trans earlier (min_le_left _ _)
      refine Meets.ite (fun _ => ?_) fun _ => Meets.ok ⟨issued, sooner⟩
      have window : index + 1 + left = after.numInRob := by
        rw [issued.numInRob]
        omega
      refine (ih issued.valid issued.nextEvent window).mono ?_
      rintro result ⟨rest, soonest⟩
      exact ⟨⟨rest.valid, rest.nextEvent, rest.now.trans issued.now,
        rest.numInRob.trans issued.numInRob⟩, le_trans soonest sooner⟩

theorem doIssue_meets {config : Config Cycle Mem} {state : State Mem} (valid : Valid config state) :
    Meets (fun _ => True) (doIssue config state) fun result => Issues config state result.1 result.2 := by
  unfold doIssue
  refine Meets.bind (issueLoop_meets state.numInRob valid Whole.top (Nat.zero_add _)) ?_
  rintro ⟨after, loop⟩ ⟨issued, -⟩
  have kept := issued.valid
  exact Meets.ok ⟨⟨kept.now, kept.stalled, kept.whole, kept.waiting, kept.inRob⟩, issued.nextEvent, issued.now,
    issued.numInRob⟩

/-! ## Commit -/

theorem commitLoop_stay (config : Config Cycle Mem) (now : Nat) (entries : List RobEntry) (numCommitted : Nat) :
    (commitLoop config now entries numCommitted).2 = entries.drop (commitLoop config now entries numCommitted).1.length := by
  induction entries generalizing numCommitted with
  | nil => rfl
  | cons front rest ih =>
    unfold commitLoop
    split
    case isTrue =>
      split
      case isTrue => rfl
      case isFalse => simpa using ih (numCommitted + 1)
    case isFalse => rfl

/-- What `doCommit` leaves. -/
structure Commits (config : Config Cycle Mem) (before : State Mem) (result : State Mem × SubsecondTime) : Prop where
  valid : Valid config result.1
  nextEvent : Whole config.period result.2
  now : result.1.now = before.now

theorem doCommit_commits {config : Config Cycle Mem} {state : State Mem} (valid : Valid config state) :
    Commits config state (doCommit config state) := by
  unfold doCommit
  have stay := commitLoop_stay config state.now state.rob.entries 0
  revert stay
  obtain ⟨commits, left⟩ := commitLoop config state.now state.rob.entries 0
  dsimp only
  rintro rfl
  have whole : ∀ entry ∈ state.rob.entries.drop commits.length, entry.Whole config.period :=
    fun entry member => valid.whole entry (List.mem_of_mem_drop member)
  refine ⟨⟨valid.now, valid.stalled, whole, ?_, ?_⟩, ?_, rfl⟩
  · intro index entry outside there
    rw [List.getElem?_drop] at there
    exact valid.waiting _ entry (by dsimp only at outside; omega) there
  · have inRob := valid.inRob
    simp only [List.length_drop]
    omega
  · dsimp only
    split
    case h_1 => exact Whole.top
    case h_2 front rest kept => exact (whole front (by rw [kept]; exact List.mem_cons_self)).done

/-! ## Cycles -/

theorem skipTo_dvd {config : Config Cycle Mem} {now : Nat} {nextEvent : SubsecondTime} (whole : Whole config.period nextEvent)
    (nowWhole : config.period ∣ now) : config.period ∣ skipTo config now nextEvent := by
  unfold skipTo
  split
  case isTrue skips =>
    obtain top | ⟨value, rfl⟩ := nextEvent.top_or_fs
    · exact absurd top skips.1
    · exact Nat.dvd_sub (whole value rfl) nowWhole
  case isFalse => exact Nat.dvd_refl _

theorem runStages_meets {config : Config Cycle Mem} {state : State Mem} (stall : Option CpiComponent)
    (valid : Valid config state) :
    Meets (fun _ => True) (runStages config state stall) fun result =>
      Valid config result.1 ∧ Whole config.period result.2.2.2 ∧ result.1.now = state.now := by
  unfold runStages
  refine Meets.bind (doDispatch_meets stall valid) ?_
  rintro ⟨dispatched, cpiFrontEnd, component, nextDispatch⟩ dispatch
  refine Meets.bind (doIssue_meets dispatch.valid) ?_
  rintro ⟨issued, nextIssue⟩ issue
  have commit := doCommit_commits issue.valid
  exact Meets.ok ⟨commit.valid, dispatch.whole.min (issue.nextEvent.min commit.nextEvent),
    commit.now.trans (issue.now.trans dispatch.now)⟩

theorem execute_valid {config : Config Cycle Mem} (advance : Advance) {timer : Timer Mem} (valid : Valid config timer.state) :
    Meets (fun _ => True) (execute config advance timer) fun next => Valid config next.state := by
  unfold execute
  refine Meets.bind (runStages_meets _ valid) ?_
  rintro ⟨after, cpiFrontEnd, component, nextEvent⟩ ⟨kept, whole, -⟩
  refine Meets.ok ⟨Nat.dvd_add kept.now ?_, kept.stalled, kept.whole, kept.waiting, kept.inRob⟩
  cases advance with
  | skipping => exact skipTo_dvd whole kept.now
  | stepping => exact Nat.dvd_refl _

theorem step_valid {config : Config Cycle Mem} (advance : Advance) {system : System Mem}
    (valid : Valid config system.timer.state) :
    Meets (fun _ => True) (system.step config advance) fun next => Valid config next.timer.state := by
  unfold System.step
  refine Meets.ite (fun _ => ?_) fun _ => Meets.bind (execute_valid advance valid) fun next kept => Meets.ok kept
  split
  case h_1 => trivial
  case h_2 insts supply remaining =>
    exact Meets.bind (insertMicroOps_extends config system.timer.state.rob insts) fun rob extended =>
      Meets.ok (valid.insert extended)

theorem initial_valid (config : Config Cycle Mem) (outstandingLoads outstandingStores : Nat) {start : Nat} (memory : Mem)
    (whole : config.period ∣ start) : Valid config (State.initial outstandingLoads outstandingStores start memory) where
  now := whole
  stalled := Whole.of_dvd (Nat.dvd_zero _)
  whole := by simp [State.initial]
  waiting := by simp [State.initial]
  inRob := Nat.le_refl _

end Sniper.Performance.RobTimer

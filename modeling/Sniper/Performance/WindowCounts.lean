import Sniper.Performance.Readiness

/-! What has been dispatched, issued and committed, and the counters that are kept of it. -/

namespace Sniper.Performance.RobTimer

variable {Cycle Mem : Type} {config : Config Cycle Mem} {pipeline pipeline' : Pipeline} {entered : List Entering} {base : Nat}

/-! ### The counters -/

/-- An entry has been issued exactly if it is known when it is done, and the counters are those of the window. -/
structure CountsRight (config : Config Cycle Mem) (entered : List Entering) (pipeline : Pipeline) : Prop where
  coherent : Coherent config entered pipeline
  issued : ∀ (index : Nat) (entry : RobEntry), pipeline.rob.entries[index]? = some entry → (entry.issued = ⊤ ↔ entry.done = ⊤)
  stations : pipeline.rsEntriesUsed = ((pipeline.rob.entries.map RobEntry.issued).take pipeline.numInRob).count ⊤
  window : pipeline.numInRob ≤ config.windowSize
  order : pipeline.traced.map UopTimes.sequenceNumber = List.range pipeline.traced.length
  commits : ∀ times ∈ pipeline.traced, times.issued ≠ ⊤ ∧ times.done ≤ times.committed ∧ times.committed ≤ pipeline.now

theorem Entrywise.map_eq {α : Type} {related : RobEntry → RobEntry → Prop} {before after : List RobEntry}
    (entrywise : Entrywise related before after) (field : RobEntry → α)
    (same : ∀ entry later, related entry later → field later = field entry) : after.map field = before.map field := by
  refine List.ext_getElem? fun index => ?_
  rw [List.getElem?_map, List.getElem?_map]
  cases there : before[index]? with
  | none =>
    have outside := List.getElem?_eq_none_iff.mp there
    rw [List.getElem?_eq_none_iff.mpr (entrywise.1.symm ▸ outside)]
  | some entry =>
    obtain ⟨later, found, isRelated⟩ := entrywise.new there
    rw [found, Option.map_some, Option.map_some, same entry later isRelated]

theorem CountsRight.dispatch {entry : RobEntry} (linked : Linked pipeline) (counts : CountsRight config entered pipeline)
    (none_ : pipeline.waking = []) (room : pipeline.numInRob < config.windowSize)
    (stations : pipeline.rsEntriesUsed ≠ config.rsEntries) (there : pipeline.rob.entries[pipeline.numInRob]? = some entry) :
    CountsRight config entered { pipeline.setEntry pipeline.numInRob (entry.dispatch config pipeline.now) with
      numInRob := pipeline.numInRob + 1, rsEntriesUsed := pipeline.rsEntriesUsed + 1 } := by
  have dispatched : Entrywise (fun entry later => later.issued = entry.issued ∧ later.done = entry.done) pipeline.rob.entries
      (pipeline.rob.entries.set pipeline.numInRob (entry.dispatch config pipeline.now)) :=
    .set (fun _ => ⟨rfl, rfl⟩) there ⟨rfl, rfl⟩
  have waiting := (counts.issued _ entry there).mpr (counts.coherent.outside _ entry there (Nat.le_refl _))
  refine ⟨counts.coherent.move linked (.dispatch entry none_ room stations there), fun index later found => ?_, ?_, room,
    counts.order, counts.commits⟩
  · obtain ⟨old, found', issued, done⟩ := dispatched.old found
    rw [issued, done]
    exact counts.issued index old found'
  · show pipeline.rsEntriesUsed + 1 = ((List.map RobEntry.issued (pipeline.rob.entries.set _ _)).take (pipeline.numInRob + 1)).count ⊤
    rw [dispatched.map_eq RobEntry.issued fun _ _ same => same.1, List.take_add_one, List.getElem?_map, there, List.count_append,
      ← counts.stations, Option.map_some, Option.toList_some, waiting, List.count_singleton_self]

theorem CountsRight.issue {index : Nat} {entry : RobEntry} {execLatency : Nat} {where_ : HitWhere} (linked : Linked pipeline)
    (counts : CountsRight config entered pipeline) (none_ : pipeline.waking = []) (inWindow : index < pipeline.numInRob)
    (there : pipeline.rob.entries[index]? = some entry) (waiting : entry.done = ⊤) (ready : entry.ready ≤ pipeline.now)
    (inOrder : entry.uop.inOrder = true → OlderIssued pipeline.rob.entries index) :
    CountsRight config entered { pipeline.setEntry index
        (entry.issue config { entry.uop with execLatency := execLatency, dCacheHitWhere := where_ } pipeline.now) with
      rsEntriesUsed := pipeline.rsEntriesUsed - 1, waking := entry.dependants.map (entry.uop.sequenceNumber, ·) } := by
  have within := (List.getElem?_eq_some_iff.mp there).1
  have placed : index < ((pipeline.rob.entries.map RobEntry.issued).take pipeline.numInRob).length := by
    rw [List.length_take, List.length_map]
    exact Nat.lt_min.mpr ⟨inWindow, within⟩
  have unissued : ((pipeline.rob.entries.map RobEntry.issued).take pipeline.numInRob)[index] = ⊤ := by
    rw [List.getElem_take, List.getElem_map, (List.getElem?_eq_some_iff.mp there).2]
    exact (counts.issued index entry there).mpr waiting
  refine ⟨counts.coherent.move linked (.issue index entry execLatency where_ none_ inWindow there waiting ready inOrder),
    fun position later found => ?_, ?_, counts.window, counts.order, counts.commits⟩
  · cases getElem?_set_cases found with
    | inl here =>
      rw [here.2]
      exact iff_of_false (SubsecondTime.fs_ne_top _) (SubsecondTime.fs_ne_top _)
    | inr other => exact counts.issued position later other.2
  · show pipeline.rsEntriesUsed - 1 = ((List.map RobEntry.issued (pipeline.rob.entries.set index _)).take pipeline.numInRob).count ⊤
    rw [List.map_set]
    show _ = (((pipeline.rob.entries.map RobEntry.issued).set index (pipeline.now : Nat)).take pipeline.numInRob).count ⊤
    rw [List.take_set, List.count_set placed, unissued, ← counts.stations, if_pos (beq_self_eq_true _),
      if_neg fun same => SubsecondTime.fs_ne_top _ (eq_of_beq same), Nat.add_zero]

theorem CountsRight.move (linked : Linked pipeline) (counts : CountsRight config entered pipeline) (move : Move config pipeline pipeline') :
    CountsRight config entered pipeline' := by
  have coherent := counts.coherent.move linked move
  cases move with
  | dispatch entry none_ room stations there => exact counts.dispatch linked none_ room stations there
  | issue index entry execLatency where_ none_ inWindow there waiting ready inOrder =>
    exact counts.issue linked none_ inWindow there waiting ready inOrder
  | wake issuer index dependant rest position entry woken waking _ _ there _ wakes =>
    have kept : Entrywise RobEntry.Kept pipeline.rob.entries (pipeline.rob.entries.set position woken) := .set .refl there wakes.keeps
    refine ⟨coherent, fun index later found => ?_, ?_, counts.window, counts.order, counts.commits⟩
    · obtain ⟨old, found', keeps⟩ := kept.old found
      rw [keeps.issued, keeps.done]
      exact counts.issued index old found'
    · show pipeline.rsEntriesUsed =
        ((List.map RobEntry.issued (pipeline.rob.entries.set position woken)).take pipeline.numInRob).count ⊤
      rw [kept.map_eq RobEntry.issued fun _ _ same => same.issued]
      exact counts.stations

theorem Commit.inWindow (coherent : Coherent config entered pipeline) (commit : Commit pipeline pipeline') :
    0 < pipeline.numInRob ∧ pipeline'.numInRob = pipeline.numInRob - 1 ∧ pipeline'.traced.length = pipeline.traced.length + 1 := by
  cases commit with
  | front front rest none_ isRob done =>
    have there : pipeline.rob.entries[0]? = some front := by
      rw [isRob]
      rfl
    exact ⟨coherent.inWindow there (ne_top_of_le_ne_top (SubsecondTime.fs_ne_top _) done), rfl, List.length_append⟩

theorem CountsRight.commit (linked : Linked pipeline) (counts : CountsRight config entered pipeline) (commit : Commit pipeline pipeline') :
    CountsRight config entered pipeline' := by
  have coherent := counts.coherent.commit linked commit
  have some_ := (commit.inWindow counts.coherent).1
  cases commit with
  | front front rest none_ isRob done =>
    have there : pipeline.rob.entries[0]? = some front := by
      rw [isRob]
      rfl
    have isDone : front.done ≠ ⊤ := ne_top_of_le_ne_top (SubsecondTime.fs_ne_top _) done
    have issued : front.issued ≠ ⊤ := fun waiting => isDone ((counts.issued 0 front there).mp waiting)
    refine ⟨coherent, fun index entry found => ?_, ?_, Nat.le_trans (Nat.sub_le _ _) counts.window, ?_, fun times member => ?_⟩
    · refine counts.issued (index + 1) entry ?_
      rw [isRob]
      exact found
    · show pipeline.rsEntriesUsed = ((rest.map RobEntry.issued).take (pipeline.numInRob - 1)).count ⊤
      obtain ⟨count, isCount⟩ := Nat.exists_eq_succ_of_ne_zero (Nat.ne_of_gt some_)
      have stations := counts.stations
      rw [isCount, isRob, List.map_cons, List.take_succ_cons, List.count_cons_of_ne issued] at stations
      rw [isCount]
      exact stations
    · show (pipeline.traced ++ [_]).map UopTimes.sequenceNumber = _
      have number := linked.numbered 0 front there
      rw [List.map_append, counts.order, List.length_append, List.length_singleton, List.range_succ]
      exact congrArg (List.range _ ++ [·]) number
    · cases List.mem_append.mp member with
      | inl before => exact counts.commits times before
      | inr last =>
        rw [List.mem_singleton.mp last]
        exact ⟨issued, done, le_refl _⟩

theorem CountsRight.insert {uop tracked needed : DynamicMicroOp} {rob' : Rob} {entry : RobEntry}
    {looked : List RobEntry × List Nat × SubsecondTime} (linked : Linked pipeline) (none_ : pipeline.waking = [])
    (counts : CountsRight config entered pipeline) (inserted : Inserted config pipeline.rob uop rob' entry tracked needed looked) :
    CountsRight config (entered ++ [⟨pipeline, uop⟩]) { pipeline with rob := rob' } := by
  have fresh : entry.issued = ⊤ ∧ entry.done = ⊤ := by
    rw [inserted.isEntry]
    exact ⟨rfl, rfl⟩
  have same {old later : RobEntry} (gains : Gains needed.getDependencies needed.sequenceNumber old later) :
      later.issued = old.issued := by
    rw [gains]
    rfl
  refine ⟨counts.coherent.insert linked none_ inserted, fun index later found => ?_, ?_, counts.window, counts.order, counts.commits⟩
  · cases inserted.cases found with
    | inl before =>
      obtain ⟨old, there, gains⟩ := before
      rw [same gains, (gains_uop gains).2]
      exact counts.issued index old there
    | inr new =>
      obtain ⟨rfl, rfl⟩ := new
      exact iff_of_true fresh.1 fresh.2
  · show pipeline.rsEntriesUsed = ((rob'.entries.map RobEntry.issued).take pipeline.numInRob).count ⊤
    have window := counts.coherent.window
    rw [inserted.isRob, List.map_append, inserted.added.gained.map_eq RobEntry.issued fun _ _ gains => same gains,
      List.take_append_of_le_length (List.length_map RobEntry.issued ▸ window)]
    exact counts.stations

theorem counts_keeps : Keeps config (CountsRight config) where
  insert := fun linked none_ counts _ inserted => counts.insert linked none_ inserted
  move := fun linked counts move => counts.move linked move
  commit := fun linked counts commit => counts.commit linked commit
  tick := fun counts later => by
    have le := Nat.le_trans (Nat.le_add_right _ _) later
    refine ⟨coherent_keeps.tick counts.coherent later, counts.issued, counts.stations, counts.window, counts.order,
      fun times member => ?_⟩
    obtain ⟨issued, done, committed⟩ := counts.commits times member
    exact ⟨issued, done, le_trans committed (SubsecondTime.fs_le_fs.mpr le)⟩

theorem counts_initial (config : Config Cycle Mem) (outstandingLoads outstandingStores start : Nat) (memory : Mem) :
    CountsRight config [] (State.initial outstandingLoads outstandingStores start memory).pipeline where
  coherent := coherent_initial ..
  issued := fun _ _ found => by cases found
  stations := rfl
  window := Nat.zero_le _
  order := rfl
  commits := fun _ member => by cases member

/-! ### What is dispatched -/

/-- The sequence numbers that the loop of `doDispatch` dispatches, for the width that is left. -/
def dispatches (config : Config Cycle Mem) : Nat → State Mem → List Nat
  | width, state =>
    if state.numInRob < config.windowSize then
      match state.rob.entries[state.numInRob]? with
      | none => []
      | some entry =>
        match width with
        | 0 => []
        | width + 1 =>
          let iCacheMiss : Bool := entry.uop.iCacheHitWhere ≠ .l1i
          if iCacheMiss && !state.inIcacheMiss then []
          else
            let state := { state with inIcacheMiss := state.inIcacheMiss && !iCacheMiss }
            if state.rsEntriesUsed = config.rsEntries then []
            else
              let entry := entry.dispatch config state.now
              entry.uop.sequenceNumber ::
                if entry.uop.redirects then [] else dispatches config width (state.enter entry)
    else []

def State.dispatches (config : Config Cycle Mem) (state : State Mem) : List Nat :=
  if state.frontendStalledUntil ≤ state.now then RobTimer.dispatches config config.dispatchWidth state else []

theorem dispatchLoop_range (width : Nat) {state : State Mem} (nextEvent : SubsecondTime)
    (numbered : Numbered base state.rob.entries) :
    Meets (fun _ => True) (dispatchLoop config width state nextEvent) fun result =>
      ∃ count, dispatches config width state = List.range' (base + state.numInRob) count ∧
        result.1.numInRob = state.numInRob + count := by
  have nothing : ∃ count, [] = List.range' (base + state.numInRob) count ∧ state.numInRob = state.numInRob + count := ⟨0, rfl, rfl⟩
  induction width generalizing state nextEvent with
  | zero =>
    rw [dispatchLoop, dispatches]
    by_cases room : state.numInRob < config.windowSize
    · rw [if_pos room, if_pos room]
      cases state.rob.entries[state.numInRob]? with
      | none => trivial
      | some entry => exact Meets.ok nothing
    · rw [if_neg room, if_neg room]
      exact Meets.ok nothing
  | succ width ih =>
    rw [dispatchLoop, dispatches]
    by_cases room : state.numInRob < config.windowSize
    · rw [if_pos room, if_pos room]
      cases there : state.rob.entries[state.numInRob]? with
      | none => trivial
      | some entry =>
        dsimp only
        by_cases miss : (decide (entry.uop.iCacheHitWhere ≠ .l1i) && !state.inIcacheMiss) = true
        · rw [if_pos miss, if_pos miss]
          exact Meets.ok nothing
        · rw [if_neg miss, if_neg miss]
          by_cases full : state.rsEntriesUsed = config.rsEntries
          · rw [if_pos full, if_pos full]
            exact Meets.ok nothing
          · have number : (entry.dispatch config state.now).uop.sequenceNumber = base + state.numInRob := numbered _ entry there
            rw [if_neg full, if_neg full, number]
            by_cases redirects : (entry.dispatch config state.now).uop.redirects = true
            · rw [if_pos redirects, if_pos redirects]
              exact Meets.ok ⟨1, rfl, rfl⟩
            · rw [if_neg redirects, if_neg redirects]
              have still : Numbered base (state.rob.entries.set state.numInRob (entry.dispatch config state.now)) :=
                numbered.of_entrywise (.set .refl there ⟨rfl, rfl, fun _ => rfl⟩) fun _ _ later => RobEntry.Later.sequenceNumber later
              refine (ih _ still ⟨0, rfl, rfl⟩).mono fun result rest => ?_
              obtain ⟨count, isRest, window⟩ := rest
              refine ⟨count + 1, congrArg (_ :: ·) isRest, window.trans (Nat.succ_add state.numInRob count)⟩
    · rw [if_neg room, if_neg room]
      exact Meets.ok nothing

theorem doDispatch_range {state : State Mem} (stall : Option CpiComponent) (numbered : Numbered base state.rob.entries) :
    Meets (fun _ => True) (doDispatch config state stall) fun result =>
      ∃ count, state.dispatches config = List.range' (base + state.numInRob) count ∧ result.1.numInRob = state.numInRob + count := by
  rw [doDispatch, runFrontEnd, State.dispatches]
  split
  case isTrue => exact Meets.bind (dispatchLoop_range _ ⊤ numbered) fun result dispatched => Meets.ok dispatched
  case isFalse => exact Meets.ok ⟨0, rfl, rfl⟩

/-! ### The window in a cycle -/

theorem issueInstruction_numInRob (state : State Mem) (index : Nat) (entry : RobEntry) (ports : Option Cycle)
    (nextEvent : SubsecondTime) :
    Meets (fun _ => True) (issueInstruction config state index entry ports nextEvent) fun result =>
      result.1.numInRob = state.numInRob := by
  rw [issueInstruction]
  refine Meets.ite (fun _ => trivial) fun _ => Meets.bind (Meets.any _) fun _ _ => ?_
  exact Meets.bind (Meets.any _) fun _ _ => Meets.ok rfl

theorem issueLoop_numInRob (left index : Nat) (loop : IssueLoop Cycle) (state : State Mem) :
    Meets (fun _ => True) (issueLoop config left index loop state) fun result => result.1.numInRob = state.numInRob := by
  induction left generalizing index loop state with
  | zero => exact Meets.ok rfl
  | succ left ih =>
    rw [issueLoop]
    cases state.rob.entries[index]? with
    | none => trivial
    | some entry =>
      have turn : Meets (fun _ => True) (issueEntry config index entry loop state) fun result =>
          result.1.numInRob = state.numInRob := by
        rw [issueEntry]
        refine Meets.ite (fun _ => Meets.ok rfl) fun _ => Meets.ite (fun _ => Meets.ok rfl) fun _ => ?_
        refine Meets.bind (Meets.any _) fun _ _ => Meets.ite (fun _ => ?_) fun _ => Meets.ok rfl
        exact Meets.bind (issueInstruction_numInRob ..) fun issued same => Meets.ok same
      refine Meets.bind turn fun result same => Meets.ite (fun _ => ?_) fun _ => Meets.ok same
      exact (ih _ _ _).mono fun last rest => rest.trans same

theorem doIssue_numInRob (state : State Mem) :
    Meets (fun _ => True) (doIssue config state) fun result => result.1.numInRob = state.numInRob := by
  rw [doIssue]
  exact Meets.bind (issueLoop_numInRob ..) fun result same => Meets.ok same

theorem Moves.traced (moves : Moves config pipeline pipeline') : pipeline'.traced = pipeline.traced := by
  induction moves with
  | refl => rfl
  | tail _ last ih => exact last.frame.traced.trans ih

def Pipeline.dispatched (pipeline : Pipeline) : Nat := pipeline.traced.length + pipeline.numInRob

theorem commits_dispatched (linked : Linked pipeline) (coherent : Coherent config entered pipeline)
    (commits : Relation.ReflTransGen Commit pipeline pipeline') : pipeline'.dispatched = pipeline.dispatched := by
  induction commits with
  | refl => rfl
  | tail before last ih =>
    obtain ⟨some_, window, traced⟩ := last.inWindow (coherent_keeps.commits before ⟨linked, coherent⟩).2
    rw [← ih, Pipeline.dispatched, Pipeline.dispatched, window, traced]
    omega

theorem runStages_range {state : State Mem} (stall : Option CpiComponent) (linked : Linked state.pipeline)
    (coherent : Coherent config entered state.pipeline) :
    Meets (fun _ => True) (runStages config state stall) fun result => ∃ count,
      state.dispatches config = List.range' state.pipeline.dispatched count ∧
        result.1.pipeline.dispatched = state.pipeline.dispatched + count := by
  refine Meets.bind ((doDispatch_range stall linked.numbered).and (doDispatch_moves state stall)) fun dispatched first => ?_
  refine Meets.bind ((doIssue_numInRob dispatched.1).and (doIssue_walked dispatched.1)) fun issued second => Meets.ok ?_
  obtain ⟨⟨count, isRange, window⟩, moves⟩ := first
  obtain ⟨same, walked⟩ := second
  have all : Moves config state.pipeline issued.1.pipeline := moves.trans walked.moves
  obtain ⟨linked', coherent'⟩ := coherent_keeps.moves all ⟨linked, coherent⟩
  refine ⟨count, isRange, (commits_dispatched linked' coherent' (doCommit_moves config issued.1)).trans ?_⟩
  show issued.1.pipeline.traced.length + issued.1.numInRob = state.pipeline.traced.length + state.numInRob + count
  rw [all.traced, same, window, Nat.add_assoc]

/-! ### Runs with what is dispatched -/

/-- An observed run, and the sequence numbers that have been dispatched, in order. -/
structure Logged (Mem : Type) where
  observed : Observed Mem
  dispatched : List Nat

/-- The sequence numbers that are dispatched in the cycle that comes next. -/
def System.dispatching (config : Config Cycle Mem) (system : System Mem) : List Nat :=
  if system.timer.state.asks config then [] else system.timer.state.dispatches config

def logging (config : Config Cycle Mem) (advance : Advance) (start : System Mem) : Machine (Logged Mem) Unit Fault where
  initial logged := logged = ⟨⟨start, []⟩, []⟩
  step logged label := do
    return ⟨← (observation config advance start).step logged.observed label,
      logged.dispatched ++ logged.observed.system.dispatching config⟩

theorem logging_step {advance : Advance} {start : System Mem} {logged next : Logged Mem} {label : Unit} :
    (logging config advance start).step logged label = .ok next ↔
      (observation config advance start).step logged.observed label = .ok next.observed ∧
      next.dispatched = logged.dispatched ++ logged.observed.system.dispatching config := by
  obtain ⟨observed, dispatched⟩ := next
  show (do return ⟨← (observation config advance start).step logged.observed label, _⟩ : Except Fault (Logged Mem)) = _ ↔ _
  cases (observation config advance start).step logged.observed label with
  | error fault => simp [bind, Except.bind]
  | ok next => simp [bind, Except.bind, pure, Except.pure, eq_comm]

theorem logged_observed {advance : Advance} {start : System Mem} {logged : Logged Mem}
    (reached : (logging config advance start).Reachable logged) : (observation config advance start).Reachable logged.observed := by
  induction reached with
  | initial starts =>
    subst starts
    exact .initial rfl
  | step label _ _ stepped ih => exact .step label ih trivial (logging_step.mp stepped).1

theorem logged_dispatched {advance : Advance} {outstandingLoads outstandingStores start : Nat} {memory : Mem}
    {supply : List (List DynamicMicroOp)} {logged : Logged Mem}
    (reached : (logging config advance (.initial outstandingLoads outstandingStores start memory supply)).Reachable logged) :
    logged.dispatched = List.range logged.observed.system.timer.state.pipeline.dispatched := by
  induction reached with
  | initial starts =>
    subst starts
    rfl
  | @step logged next label before _ stepped ih =>
    obtain ⟨stepped, grown⟩ := logging_step.mp stepped
    obtain ⟨stepped, -⟩ := observation_step.mp stepped
    obtain ⟨linked, coherent⟩ := coherent_keeps.reachable ⟨linked_initial .., coherent_initial ..⟩ (logged_observed before)
    rw [grown, ih, System.dispatching]
    by_cases asks : logged.observed.system.timer.state.asks config
    · obtain ⟨insts, rob, -, -, timer⟩ := (step_asks asks).mp stepped
      have same : next.observed.system.timer.state.pipeline.dispatched = logged.observed.system.timer.state.pipeline.dispatched := by
        rw [timer]
        rfl
      rw [if_pos asks, List.append_nil, same]
    · obtain ⟨after, stall, component, nextEvent, staged, isNext⟩ := execute_eq_ok.mp ((step_runs asks).mp stepped).1
      obtain ⟨count, isRange, dispatched⟩ := (runStages_range _ linked coherent).of_ok staged
      have advanced : next.observed.system.timer.state.pipeline.dispatched = after.pipeline.dispatched := by
        rw [isNext]
        rfl
      rw [if_neg asks, isRange, advanced, dispatched, List.range_eq_range', List.range_eq_range', ← List.range'_append_1, Nat.zero_add]

/-! ### The pipeline -/

/-- The states of the cycle that comes next, before anything commits: after dispatch, wherever the loop of `doIssue` comes, and
after it. -/
inductive System.Within (config : Config Cycle Mem) (system : System Mem) : State Mem → Prop where
  | dispatched (result : State Mem × Option CpiComponent × CpiComponent × SubsecondTime) : ¬system.timer.state.asks config →
      doDispatch config system.timer.state system.timer.cpiCurrentFrontEndStall = .ok result → system.Within config result.1
  | visit (visit : Visit Cycle Mem) : system.Visits config visit → system.Within config visit.state
  | issued (before after : State Mem) : ¬system.timer.state.asks config → system.issueStage config = .ok (before, after) →
      system.Within config after

/-- The ROB holds what has not committed, in program order and numbered without gaps, first what has been dispatched; the counters are
those of what is dispatched and of what has not issued of it; all else has committed in order, when it was done. -/
structure Pipelined (config : Config Cycle Mem) (entered : List Entering) (dispatched : List Nat) (pipeline : Pipeline) : Prop where
  numbered : pipeline.rob.entries.map (·.uop.sequenceNumber) = List.range' pipeline.traced.length pipeline.rob.entries.length
  program : ∀ entry ∈ pipeline.rob.entries, ∃ entering, entered[entry.uop.sequenceNumber]? = some entering ∧
    entry.uop.microOp = entering.uop.microOp
  first : ∀ (index : Nat) (entry : RobEntry), pipeline.rob.entries[index]? = some entry →
    (entry.uop.sequenceNumber ∈ dispatched ↔ index < pipeline.numInRob)
  numInRob : pipeline.numInRob = pipeline.rob.entries.countP fun entry => entry.uop.sequenceNumber ∈ dispatched
  window : pipeline.numInRob ≤ config.windowSize
  rsEntriesUsed : pipeline.rsEntriesUsed = pipeline.rob.entries.countP fun entry =>
    entry.uop.sequenceNumber ∈ dispatched ∧ entry.issued = ⊤
  order : pipeline.traced.map UopTimes.sequenceNumber = List.range pipeline.traced.length
  commits : ∀ times ∈ pipeline.traced, times.sequenceNumber ∈ dispatched ∧ times.issued ≠ ⊤ ∧ times.done ≤ times.committed ∧
    times.committed ≤ pipeline.now

theorem System.Within.spec {system : System Mem} {state : State Mem} (linked : Linked system.timer.state.pipeline)
    (within : system.Within config state) :
    Moves config system.timer.state.pipeline state.pipeline ∧ ∃ count,
      system.dispatching config = List.range' system.timer.state.pipeline.dispatched count ∧
      state.pipeline.dispatched = system.timer.state.pipeline.dispatched + count := by
  -- The stages after dispatch leave the window as it is.
  have later {result : State Mem × Option CpiComponent × CpiComponent × SubsecondTime} {state : State Mem}
      (runs : ¬system.timer.state.asks config)
      (ran : doDispatch config system.timer.state system.timer.cpiCurrentFrontEndStall = .ok result)
      (moves : Moves config result.1.pipeline state.pipeline) (same : state.numInRob = result.1.numInRob) :
      Moves config system.timer.state.pipeline state.pipeline ∧ ∃ count,
        system.dispatching config = List.range' system.timer.state.pipeline.dispatched count ∧
        state.pipeline.dispatched = system.timer.state.pipeline.dispatched + count := by
    have all : Moves config system.timer.state.pipeline state.pipeline := ((doDispatch_moves _ _).of_ok ran).trans moves
    obtain ⟨count, isRange, window⟩ := (doDispatch_range _ linked.numbered).of_ok ran
    refine ⟨all, count, ?_, ?_⟩
    · rw [System.dispatching, if_neg runs]
      exact isRange
    · show state.pipeline.traced.length + state.numInRob = _ + system.timer.state.numInRob + count
      rw [all.traced, same, window, Nat.add_assoc]
  cases within with
  | dispatched result runs ran => exact later runs ran .refl rfl
  | visit visit visits =>
    obtain ⟨runs, result, ran, walk⟩ := visits
    exact later runs ran walk.proper.inLoop.moves walk.proper.inLoop.numInRob
  | issued before after runs staged =>
    have stages : Meets (fun _ => True) (system.issueStage config) fun stages =>
        ∃ result, doDispatch config system.timer.state system.timer.cpiCurrentFrontEndStall = .ok result ∧
          Moves config result.1.pipeline stages.2.pipeline ∧ stages.2.numInRob = result.1.numInRob := by
      refine Meets.bind (Meets.result _) fun result ran => ?_
      exact Meets.bind ((doIssue_walked result.1).and (doIssue_numInRob result.1)) fun issued walked =>
        Meets.ok ⟨result, ran, walked.1.moves, walked.2⟩
    obtain ⟨result, ran, moves, same⟩ := stages.of_ok staged
    exact later runs ran moves same

theorem countP_take {α : Type} {items : List α} {test : α → Bool} (inside : α → Bool) (count : Nat)
    (same : ∀ (index : Nat) (item : α), items[index]? = some item → (test item = true ↔ index < count ∧ inside item = true)) :
    items.countP test = (items.take count).countP inside := by
  induction items generalizing count with
  | nil => rw [List.take_nil, List.countP_nil, List.countP_nil]
  | cons item items ih =>
    cases count with
    | zero =>
      rw [List.take_zero, List.countP_nil, List.countP_eq_zero]
      intro other member passes
      obtain ⟨index, there⟩ := List.getElem?_of_mem member
      exact absurd ((same index other there).mp passes).1 (Nat.not_lt_zero index)
    | succ count =>
      have rest : items.countP test = (items.take count).countP inside := by
        refine ih count fun index other there => (same (index + 1) other there).trans ?_
        rw [Nat.add_lt_add_iff_right]
      have first : test item = inside item := by
        rw [Bool.eq_iff_iff, same 0 item rfl]
        exact and_iff_right (Nat.succ_pos count)
      rw [List.take_succ_cons, List.countP_cons, List.countP_cons, rest, first]

theorem CountsRight.pipelined (linked : Linked pipeline) (counts : CountsRight config entered pipeline) :
    Pipelined config entered (List.range pipeline.dispatched) pipeline := by
  have first (index : Nat) (entry : RobEntry) (there : pipeline.rob.entries[index]? = some entry) :
      entry.uop.sequenceNumber ∈ List.range pipeline.dispatched ↔ index < pipeline.numInRob := by
    rw [List.mem_range, linked.numbered index entry there, Pipeline.dispatched, Nat.add_lt_add_iff_left]
  have inRob := counts.coherent.window
  refine ⟨?_, fun entry member => ?_, first, ?_, counts.window, ?_, counts.order,
    fun times member => ⟨?_, counts.commits times member⟩⟩
  · refine List.ext_getElem? fun index => ?_
    rw [List.getElem?_map]
    cases there : pipeline.rob.entries[index]? with
    | none => rw [List.getElem?_eq_none_iff.mpr (List.length_range'.trans_le (List.getElem?_eq_none_iff.mp there)), Option.map_none]
    | some entry =>
      rw [List.getElem?_range' (List.getElem?_eq_some_iff.mp there).1, Option.map_some, linked.numbered index entry there, Nat.one_mul]
  · obtain ⟨index, there⟩ := List.getElem?_of_mem member
    rw [linked.numbered index entry there]
    exact counts.coherent.same index entry there
  · rw [countP_take (fun _ => true) pipeline.numInRob fun index entry there => ?_, List.countP_true,
      List.length_take, Nat.min_eq_left inRob]
    rw [decide_eq_true_eq, first index entry there]
    exact (and_iff_left rfl).symm
  · rw [countP_take (fun entry => entry.issued = ⊤) pipeline.numInRob fun index entry there => ?_]
    · rw [counts.stations, ← List.map_take, List.count, List.countP_map]
      rfl
    · rw [decide_eq_true_eq, decide_eq_true_eq, first index entry there]
  · have number := List.mem_map_of_mem (f := UopTimes.sequenceNumber) member
    rw [counts.order] at number
    exact List.mem_range.mpr (Nat.lt_of_lt_of_le (List.mem_range.mp number) (Nat.le_add_right _ _))

/-- The pipeline is so now, and in each stage of the cycle that comes next. -/
def Logged.Pipelined (config : Config Cycle Mem) (logged : Logged Mem) : Prop :=
  RobTimer.Pipelined config logged.observed.entered logged.dispatched logged.observed.system.timer.state.pipeline ∧
    ∀ state, logged.observed.system.Within config state → RobTimer.Pipelined config logged.observed.entered
      (logged.dispatched ++ logged.observed.system.dispatching config) state.pipeline

theorem logged_pipelined {advance : Advance} {outstandingLoads outstandingStores start : Nat} {memory : Mem}
    {supply : List (List DynamicMicroOp)} {logged : Logged Mem}
    (reached : (logging config advance (.initial outstandingLoads outstandingStores start memory supply)).Reachable logged) :
    logged.Pipelined config := by
  obtain ⟨linked, counts⟩ := counts_keeps.reachable ⟨linked_initial .., counts_initial ..⟩ (logged_observed reached)
  have dispatched := logged_dispatched reached
  refine ⟨dispatched ▸ counts.pipelined linked, fun state within => ?_⟩
  obtain ⟨moves, count, isRange, later⟩ := within.spec linked
  obtain ⟨linkedLater, countsLater⟩ := counts_keeps.moves moves ⟨linked, counts⟩
  have all : logged.dispatched ++ logged.observed.system.dispatching config = List.range state.pipeline.dispatched := by
    rw [dispatched, isRange, later, List.range_eq_range', List.range_eq_range', ← List.range'_append_1, Nat.zero_add]
  exact all ▸ countsLater.pipelined linkedLater

end Sniper.Performance.RobTimer

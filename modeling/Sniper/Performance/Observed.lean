import Sniper.Performance.CycleSkipping
import Sniper.Performance.IssueWalk
import Sniper.Performance.Linking

/-! Runs of the timer with a record of what each micro-operation finds when it enters the ROB, and invariants of their pipelines. -/

namespace Sniper.Performance.RobTimer

variable {Cycle Mem : Type} {config : Config Cycle Mem} {pipeline pipeline' : Pipeline}

/-- A micro-operation that enters the ROB, and the pipeline that it finds. -/
structure Entering where
  pipeline : Pipeline
  uop : DynamicMicroOp

/-- The micro-operations that enter in one call of `simulate`. -/
def enterings (config : Config Cycle Mem) : Pipeline → List DynamicMicroOp → List Entering
  | _, [] => []
  | pipeline, uop :: rest =>
    match insertMicroOp config pipeline.rob uop with
    | .error _ => []
    | .ok rob => (if uop.squashed then [] else [⟨pipeline, uop⟩]) ++ enterings config { pipeline with rob := rob } rest

/-- The timer, and all that have entered so far, by their sequence numbers. -/
structure Observed (Mem : Type) where
  system : System Mem
  entered : List Entering

def System.entering (config : Config Cycle Mem) (system : System Mem) : List Entering :=
  let state := system.timer.state
  if state.asks config then
    match system.supply with
    | [] => []
    | insts :: _ => enterings config state.pipeline insts
  else []

def observation (config : Config Cycle Mem) (advance : Advance) (start : System Mem) : Machine (Observed Mem) Unit Fault where
  initial observed := observed = ⟨start, []⟩
  step observed _ := do
    return ⟨← observed.system.step config advance, observed.entered ++ observed.system.entering config⟩

theorem observation_step {advance : Advance} {start : System Mem} {observed next : Observed Mem} {label : Unit} :
    (observation config advance start).step observed label = .ok next ↔ observed.system.step config advance = .ok next.system ∧
      next.entered = observed.entered ++ observed.system.entering config := by
  obtain ⟨system, entered⟩ := next
  show (do return ⟨← observed.system.step config advance, _⟩ : Except Fault (Observed Mem)) = _ ↔ _
  cases observed.system.step config advance with
  | error fault => simp [bind, Except.bind]
  | ok next => simp [bind, Except.bind, pure, Except.pure, eq_comm]

theorem exists_observed {advance : Advance} {start system : System Mem} (reached : (machine config advance start).Reachable system) :
    ∃ entered, (observation config advance start).Reachable ⟨system, entered⟩ := by
  induction reached with
  | initial starts =>
    subst starts
    exact ⟨[], .initial rfl⟩
  | step label _ _ stepped ih =>
    obtain ⟨entered, reached⟩ := ih
    exact ⟨_, .step label reached trivial (observation_step.mpr ⟨stepped, rfl⟩)⟩

theorem mem_enterings (insts : List DynamicMicroOp) (pipeline : Pipeline) :
    ∀ entering ∈ enterings config pipeline insts, entering.uop ∈ insts := by
  induction insts generalizing pipeline with
  | nil => exact fun _ member => absurd member List.not_mem_nil
  | cons uop rest ih =>
    intro entering member
    rw [enterings] at member
    split at member
    case h_1 => cases member
    case h_2 rob inserted =>
      cases List.mem_append.mp member with
      | inl first =>
        split at first
        case isTrue => cases first
        case isFalse =>
          cases List.mem_singleton.mp first
          exact List.mem_cons_self
      | inr later => exact List.mem_cons_of_mem _ (ih _ entering later)

theorem observed_supply {advance : Advance} {start : System Mem} {observed : Observed Mem}
    (reached : (observation config advance start).Reachable observed) :
    (∀ entering ∈ observed.entered, ∃ insts ∈ start.supply, entering.uop ∈ insts) ∧ observed.system.supply <:+ start.supply := by
  refine reached.invariant (fun observed => (∀ entering ∈ observed.entered, ∃ insts ∈ start.supply, entering.uop ∈ insts) ∧
    observed.system.supply <:+ start.supply) (fun observed starts => ?_) fun observed label next holds _ stepped => ?_
  · subst starts
    exact ⟨fun _ member => absurd member List.not_mem_nil, List.suffix_refl _⟩
  · obtain ⟨stepped, grown⟩ := observation_step.mp stepped
    by_cases asks : observed.system.timer.state.asks config
    · obtain ⟨insts, rob, supply, inserted, timer⟩ := (step_asks asks).mp stepped
      have suffix := supply ▸ holds.2
      refine ⟨fun entering member => ?_, (List.suffix_cons insts _).trans suffix⟩
      rw [grown, System.entering, if_pos asks, supply] at member
      cases List.mem_append.mp member with
      | inl before => exact holds.1 entering before
      | inr new => exact ⟨insts, suffix.subset List.mem_cons_self, mem_enterings insts _ entering new⟩
    · obtain ⟨-, supply⟩ := (step_runs asks).mp stepped
      rw [grown, System.entering, if_neg asks, List.append_nil, supply]
      exact holds

/-- What holds of the pipeline, for what has entered, whatever happens. -/
structure Keeps (config : Config Cycle Mem) (invariant : List Entering → Pipeline → Prop) : Prop where
  insert : ∀ {entered pipeline uop rob' entry tracked needed result}, Linked pipeline → pipeline.waking = [] →
    invariant entered pipeline → insertMicroOp config pipeline.rob uop = .ok rob' →
    Inserted config pipeline.rob uop rob' entry tracked needed result →
    invariant (entered ++ [⟨pipeline, uop⟩]) { pipeline with rob := rob' }
  move : ∀ {entered pipeline pipeline'}, Linked pipeline → invariant entered pipeline → Move config pipeline pipeline' →
    invariant entered pipeline'
  commit : ∀ {entered pipeline pipeline'}, Linked pipeline → invariant entered pipeline → Commit pipeline pipeline' →
    invariant entered pipeline'
  tick : ∀ {entered pipeline later}, invariant entered pipeline → pipeline.now + config.period ≤ later →
    invariant entered { pipeline with now := later }

theorem period_le_advanceBy (config : Config Cycle Mem) (advance : Advance) (now : Nat) (nextEvent : SubsecondTime) :
    config.period ≤ advanceBy config advance now nextEvent := by
  cases advance with
  | stepping => exact Nat.le_refl _
  | skipping =>
    rw [advanceBy, skipTo]
    split
    case isFalse => exact Nat.le_refl _
    case isTrue far =>
      obtain top | ⟨value, isValue⟩ := nextEvent.top_or_fs
      · exact absurd top far.1
      · rw [isValue, gt_iff_lt, SubsecondTime.fs_lt_fs] at far
        rw [isValue, SubsecondTime.value_fs]
        omega

namespace Keeps

variable {invariant : List Entering → Pipeline → Prop} {entered : List Entering}

theorem moves (keeps : Keeps config invariant) (moves : Moves config pipeline pipeline')
    (holds : Linked pipeline ∧ invariant entered pipeline) : Linked pipeline' ∧ invariant entered pipeline' := by
  induction moves with
  | refl => exact holds
  | tail _ last ih => exact ⟨ih.1.move last, keeps.move ih.1 ih.2 last⟩

theorem commits (keeps : Keeps config invariant) (commits : Relation.ReflTransGen Commit pipeline pipeline')
    (holds : Linked pipeline ∧ invariant entered pipeline) : Linked pipeline' ∧ invariant entered pipeline' := by
  induction commits with
  | refl => exact holds
  | tail _ last ih => exact ⟨ih.1.commit last, keeps.commit ih.1 ih.2 last⟩

theorem insertMicroOps (keeps : Keeps config invariant) (insts : List DynamicMicroOp) {rob' : Rob} (none_ : pipeline.waking = [])
    (ran : insertMicroOps config pipeline.rob insts = .ok rob') (holds : Linked pipeline ∧ invariant entered pipeline) :
    Linked { pipeline with rob := rob' } ∧
      invariant (entered ++ enterings config pipeline insts) { pipeline with rob := rob' } := by
  induction insts generalizing pipeline entered with
  | nil =>
    cases ran
    rw [enterings, List.append_nil]
    exact holds
  | cons uop rest ih =>
    rw [RobTimer.insertMicroOps, List.foldlM_cons] at ran
    rw [enterings]
    cases inserted : insertMicroOp config pipeline.rob uop with
    | error fault =>
      rw [inserted] at ran
      cases ran
    | ok next =>
      rw [inserted] at ran
      cases squashed : uop.squashed with
      | true =>
        rw [insertMicroOp, if_pos squashed] at inserted
        cases inserted
        exact ih none_ ran holds
      | false =>
        obtain ⟨entry, tracked, needed, result, found⟩ :=
          (insertMicroOp_inserted holds.1.numbered squashed).of_ok inserted
        have first := keeps.insert holds.1 none_ holds.2 inserted found
        have later := @ih { pipeline with rob := next } _ none_ ran ⟨holds.1.insert none_ found, first⟩
        rw [List.append_assoc] at later
        exact later

theorem stages (keeps : Keeps config invariant) {state after : State Mem} {stall component : Option CpiComponent}
    {rest : CpiComponent × SubsecondTime} (ran : runStages config state stall = .ok (after, component, rest))
    (holds : Linked state.pipeline ∧ invariant entered state.pipeline) : Linked after.pipeline ∧ invariant entered after.pipeline := by
  have stages : Meets (fun _ => True) (runStages config state stall) fun result =>
      Linked result.1.pipeline ∧ invariant entered result.1.pipeline := by
    refine Meets.bind (doDispatch_moves state _) fun dispatched first => ?_
    refine Meets.bind (doIssue_walked dispatched.1) fun issued walked => Meets.ok ?_
    exact keeps.commits (doCommit_moves config issued.1) (keeps.moves walked.moves (keeps.moves first holds))
  exact stages.of_ok ran

theorem execute (keeps : Keeps config invariant) {advance : Advance} {timer next : Timer Mem}
    (ran : execute config advance timer = .ok next)
    (holds : Linked timer.state.pipeline ∧ invariant entered timer.state.pipeline) :
    Linked next.state.pipeline ∧ invariant entered next.state.pipeline := by
  obtain ⟨after, stall, component, nextEvent, staged, isNext⟩ := execute_eq_ok.mp ran
  have kept := keeps.stages staged holds
  rw [isNext]
  exact ⟨kept.1.of_sameLinks (.refl (fun _ => ⟨rfl, rfl, rfl⟩) _) rfl rfl rfl,
    keeps.tick kept.2 (Nat.add_le_add_left (period_le_advanceBy ..) _)⟩

theorem reachable (keeps : Keeps config invariant) {advance : Advance} {start : System Mem} {observed : Observed Mem}
    (initially : Linked start.timer.state.pipeline ∧ invariant [] start.timer.state.pipeline)
    (reached : (observation config advance start).Reachable observed) :
    Linked observed.system.timer.state.pipeline ∧ invariant observed.entered observed.system.timer.state.pipeline := by
  refine reached.invariant (fun observed => Linked observed.system.timer.state.pipeline ∧
    invariant observed.entered observed.system.timer.state.pipeline) (fun observed starts => ?_)
    fun observed label next holds _ stepped => ?_
  · subst starts
    exact initially
  · obtain ⟨stepped, grown⟩ := observation_step.mp stepped
    by_cases asks : observed.system.timer.state.asks config
    · obtain ⟨insts, rob, supply, inserted, timer⟩ := (step_asks asks).mp stepped
      have kept := keeps.insertMicroOps insts rfl inserted holds
      rw [grown, timer, System.entering, if_pos asks, supply]
      exact kept
    · have ran := ((step_runs asks).mp stepped).1
      rw [grown, System.entering, if_neg asks, List.append_nil]
      exact keeps.execute ran holds

theorem visits (keeps : Keeps config invariant) {advance : Advance} {start : System Mem} {observed : Observed Mem}
    {visit : Visit Cycle Mem} (initially : Linked start.timer.state.pipeline ∧ invariant [] start.timer.state.pipeline)
    (reached : (observation config advance start).Reachable observed) (visits : observed.system.Visits config visit) :
    Linked visit.state.pipeline ∧ invariant observed.entered visit.state.pipeline :=
  keeps.moves visits.moves (keeps.reachable initially reached)

end Keeps

def System.initial (outstandingLoads outstandingStores start : Nat) (memory : Mem) (supply : List (List DynamicMicroOp)) : System Mem :=
  ⟨.initial outstandingLoads outstandingStores start memory, supply⟩

theorem linked_initial (outstandingLoads outstandingStores start : Nat) (memory : Mem) :
    Linked (State.initial outstandingLoads outstandingStores start memory).pipeline where
  numbered := fun _ _ found => by cases found
  next := rfl
  proper := fun _ _ found => by cases found
  younger := fun _ _ found => by cases found
  promised := fun _ _ found => by cases found
  waking := fun _ member => by cases member

end Sniper.Performance.RobTimer

import Sniper.Performance.StoreAddress
import Sniper.Performance.StoreForwarding
import Sniper.Performance.WindowCounts

/-! Micro-operations issue with the results of what they depend on. -/

namespace Sniper.Performance

theorem Trackers.producers_append {stream : List DynamicMicroOp} {number low : Nat} {uop : DynamicMicroOp} (more : List DynamicMicroOp)
    (within : number ≤ stream.length) : producers (stream ++ more) number low uop = producers stream number low uop := by
  simp only [producers, sourceProducers, memoryProducers, lastBefore_append more within]

namespace RobTimer

variable {Cycle Mem : Type} {config : Config Cycle Mem} {pipeline pipeline' : Pipeline} {entered : List Entering}

/-! ### Producers -/

/-- The micro-operations that one needs the results of: those of its own instruction that it is told of, the last writers of its
source registers and of the address registers of a store, and for a load the last store to its address. -/
inductive Needs (entered : List Entering) (number producer : Nat) : Prop where
  | own (entering : Entering) : entered[number]? = some entering →
      producer ∈ ({ entering.uop with sequenceNumber := number } : DynamicMicroOp).getDependencies → Needs entered number producer
  | register (entering : Entering) (register : Nat) : entered[number]? = some entering →
      register ∈ entering.uop.microOp.sourceRegisters →
      lastBefore (DynamicMicroOp.writes register) (stream entered) number = some producer → Needs entered number producer
  | address (entering : Entering) : entered[number]? = some entering → entering.uop.isStore = true →
      AddressWriter entered number producer → Needs entered number producer
  | store (entering : Entering) : entered[number]? = some entering → entering.uop.isLoad = true →
      lastBefore (DynamicMicroOp.storesTo entering.uop.address) (stream entered) number = some producer → Needs entered number producer

/-- The last memory barrier before a load, a store or a barrier. -/
def LastBarrier (entered : List Entering) (number producer : Nat) : Prop :=
  ∃ entering, entered[number]? = some entering ∧ entering.uop.ordered = true ∧
    lastBefore DynamicMicroOp.isMembar (stream entered) number = some producer

/-- The dependencies that a micro-operation comes with or gets from the trackers. -/
def Tracked (entered : List Entering) (number producer : Nat) : Prop :=
  ∃ entering, entered[number]? = some entering ∧
    producer ∈ (({ entering.uop with sequenceNumber := number } : DynamicMicroOp).gains
      (Trackers.producers (stream entered) number entering.pipeline.rob.lowest entering.uop)).getDependencies

/-- The last memory barrier, if it is the oldest micro-operation in the ROB. -/
def FrontBarrier (entered : List Entering) (number producer : Nat) : Prop :=
  ∃ entering, entered[number]? = some entering ∧ entering.uop.ordered = true ∧ producer = entering.pipeline.rob.lowest ∧
    lastBefore DynamicMicroOp.isMembar (stream entered) number = some producer

/-- Whenever a micro-operation enters with the last memory barrier before it as the oldest micro-operation in the ROB, the result of
the barrier is there. -/
def BarriersThere (config : Config Cycle Mem) (entered : List Entering) : Prop :=
  ∀ (number : Nat) entering, entered[number]? = some entering → entering.uop.ordered = true →
    lastBefore DynamicMicroOp.isMembar (stream entered) number = some entering.pipeline.rob.lowest →
    result config entered entering.pipeline entering.pipeline.rob.lowest ≤ entering.pipeline.now

section Grown

variable {number producer : Nat} (more : List Entering)

theorem stream_append (entered more : List Entering) : stream (entered ++ more) = stream entered ++ stream more := List.map_append

theorem within_stream (within : number < entered.length) : number ≤ (stream entered).length :=
  Nat.le_of_lt ((List.length_map Entering.uop).symm ▸ within)

theorem Tracked.of_grown (within : number < entered.length) (tracked : Tracked (entered ++ more) number producer) :
    Tracked entered number producer := by
  obtain ⟨entering, isEntered, member⟩ := tracked
  rw [List.getElem?_append_left within] at isEntered
  rw [stream_append, Trackers.producers_append _ (within_stream within)] at member
  exact ⟨entering, isEntered, member⟩

theorem FrontBarrier.of_grown (within : number < entered.length) (front : FrontBarrier (entered ++ more) number producer) :
    FrontBarrier entered number producer := by
  obtain ⟨entering, isEntered, ordered, isFront, last⟩ := front
  rw [List.getElem?_append_left within] at isEntered
  rw [stream_append, lastBefore_append _ (within_stream within)] at last
  exact ⟨entering, isEntered, ordered, isFront, last⟩

theorem result_grown (within : producer < entered.length) :
    result config (entered ++ more) pipeline producer = result config entered pipeline producer := by
  rw [result, result, List.getElem?_append_left within]

theorem BarriersThere.of_grown (there : BarriersThere config (entered ++ more)) : BarriersThere config entered := by
  intro number entering isEntered ordered last
  have within := (List.getElem?_eq_some_iff.mp isEntered).1
  have before := Nat.lt_trans (lastBefore_lt last) within
  have known := there number entering ((List.getElem?_append_left within).trans isEntered) ordered
  rw [stream_append, lastBefore_append _ (within_stream within), result_grown more before] at known
  exact known last

end Grown

/-! ### What the entries wait for -/

def Covers (config : Config Cycle Mem) (entered : List Entering) (pipeline : Pipeline) (producers : Nat → Nat → Prop) : Prop :=
  ∀ (index : Nat) (entry : RobEntry), pipeline.rob.entries[index]? = some entry → ∀ producer,
    producers entry.uop.sequenceNumber producer → Covered config entered pipeline producer index entry

structure Supplied (config : Config Cycle Mem) (entered : List Entering) (pipeline : Pipeline) : Prop where
  coherent : Coherent config entered pipeline
  tracked : Covers config entered pipeline (Tracked entered)
  front : BarriersThere config entered → Covers config entered pipeline (FrontBarrier entered)

theorem Covers.move {producers : Nat → Nat → Prop} (covers : Covers config entered pipeline producers) (linked : Linked pipeline)
    (coherent : Coherent config entered pipeline) (move : Move config pipeline pipeline') :
    Covers config entered pipeline' producers := by
  intro index later found producer isProducer
  obtain ⟨entry, there, change⟩ := move.change found
  rw [change.later.sequenceNumber] at isProducer
  exact (covers index entry there producer isProducer).move linked coherent move there found

theorem Covers.commit {producers : Nat → Nat → Prop} (covers : Covers config entered pipeline producers)
    (coherent : Coherent config entered pipeline) (commit : Commit pipeline pipeline') :
    Covers config entered pipeline' producers := by
  intro index entry found producer isProducer
  have there : pipeline.rob.entries[index + 1]? = some entry := by
    cases commit with
    | front front rest none_ isRob done =>
      rw [isRob]
      exact found
  exact (covers (index + 1) entry there producer isProducer).commit coherent commit

section Insert

variable {uop tracked needed : DynamicMicroOp} {rob' : Rob} {entry : RobEntry} {looked : List RobEntry × List Nat × SubsecondTime}

theorem Covers.insert {producers producers' : Nat → Nat → Prop} (covers : Covers config entered pipeline producers)
    (linked : Linked pipeline) (coherent : Coherent config entered pipeline)
    (inserted : Inserted config pipeline.rob uop rob' entry tracked needed looked)
    (before : ∀ number producer, number < entered.length → producers' number producer → producers number producer)
    (new : ∀ producer, producers' entered.length producer →
      Covered config (entered ++ [⟨pipeline, uop⟩]) { pipeline with rob := rob' } producer pipeline.rob.entries.length entry) :
    Covers config (entered ++ [⟨pipeline, uop⟩]) { pipeline with rob := rob' } producers' := by
  intro index later found producer isProducer
  cases inserted.cases found with
  | inl isOld =>
    obtain ⟨old, there, gains⟩ := isOld
    rw [(gains_uop gains).1] at isProducer
    exact (covers index old there producer (before _ producer (coherent.number_lt linked there) isProducer)).insert inserted gains
  | inr isNew =>
    obtain ⟨rfl, rfl⟩ := isNew
    rw [inserted.sequenceNumber, ← coherent.count] at isProducer
    exact new producer isProducer

theorem RobEntry.Timed.readyMax_le {period now index : Nat} (timed : entry.Timed period now) :
    entry.readyMax ≤ earliest config pipeline index entry := by
  rw [earliest]
  split
  case isFalse => exact le_refl _
  case isTrue nothing =>
    split
    case isTrue => exact timed.least nothing
    case isFalse => exact le_trans (timed.least nothing) (le_max_left _ _)

theorem Inserted.covered {producer : Nat} (linked : Linked pipeline) (coherent : Coherent config entered pipeline)
    (inserted : Inserted config pipeline.rob uop rob' entry tracked needed looked) (member : producer ∈ needed.getDependencies) :
    Covered config (entered ++ [⟨pipeline, uop⟩]) { pipeline with rob := rob' } producer pipeline.rob.entries.length entry := by
  obtain ⟨index, issuer, there, rfl⟩ := inserted.added.found producer member
  by_cases waiting : issuer.done = ⊤
  · exact .inl (inserted.stays there waiting member)
  · obtain ⟨isResult, known⟩ := coherent.result_issued linked there waiting
    have readyMax : entry.readyMax = looked.2.2 := congrArg RobEntry.readyMax inserted.isEntry
    have early : issuer.available config.period ≤ entry.readyMax := by
      rw [readyMax]
      exact le_trans (issuer.available_le _) (inserted.added.late index issuer there waiting member)
    rw [Covered, inserted.settled.result_eq (List.prefix_append _ _) known]
    refine .inr ⟨known, .inr (.own _ entry ?_)⟩
    rw [isResult]
    exact le_trans early (inserted.timed pipeline.now).readyMax_le

theorem Inserted.tracked_mem {producer : Nat} (noForwarding : config.storeToLoadForwarding = false)
    (coherent : Coherent config entered pipeline) (inserted : Inserted config pipeline.rob uop rob' entry tracked needed looked)
    (isTracked : Tracked (entered ++ [⟨pipeline, uop⟩]) entered.length producer) : producer ∈ needed.getDependencies := by
  obtain ⟨entering, isEntered, member⟩ := isTracked
  cases (entering_last entered ⟨pipeline, uop⟩).symm.trans isEntered
  have forwarded := inserted.forwarded
  rw [forwardedStore, noForwarding, Bool.false_and, if_neg Bool.false_ne_true] at forwarded
  have isNeeded : needed = tracked := forwarded
  rw [stream_append] at member
  rw [isNeeded, (coherent.setDependencies inserted).2]
  exact member

theorem Supplied.insert (noForwarding : config.storeToLoadForwarding = false) (linked : Linked pipeline)
    (none_ : pipeline.waking = []) (supplied : Supplied config entered pipeline)
    (inserted : Inserted config pipeline.rob uop rob' entry tracked needed looked) :
    Supplied config (entered ++ [⟨pipeline, uop⟩]) { pipeline with rob := rob' } := by
  have coherent := supplied.coherent
  refine ⟨coherent.insert linked none_ inserted, ?_, fun there => ?_⟩
  · refine supplied.tracked.insert linked coherent inserted (fun number producer within => .of_grown _ within) fun producer isTracked => ?_
    exact inserted.covered linked coherent (inserted.tracked_mem noForwarding coherent isTracked)
  · refine (supplied.front there.of_grown).insert linked coherent inserted (fun number producer within => .of_grown _ within)
      fun producer front => ?_
    obtain ⟨entering, isEntered, ordered, rfl, last⟩ := front
    cases (entering_last entered ⟨pipeline, uop⟩).symm.trans isEntered
    have early := there entered.length ⟨pipeline, uop⟩ isEntered ordered last
    have known := ne_top_of_le_ne_top (SubsecondTime.fs_ne_top _) early
    rw [Covered, inserted.settled.result_eq (List.prefix_refl _) known]
    exact .inr ⟨known, .inl early⟩

end Insert

theorem supplied_keeps (noForwarding : config.storeToLoadForwarding = false) : Keeps config (Supplied config) where
  insert := fun linked none_ supplied _ inserted => supplied.insert noForwarding linked none_ inserted
  move := fun linked supplied move => by
    obtain ⟨coherent, tracked, front⟩ := supplied
    exact ⟨coherent.move linked move, tracked.move linked coherent move, fun there => (front there).move linked coherent move⟩
  commit := fun linked supplied commit => by
    obtain ⟨coherent, tracked, front⟩ := supplied
    exact ⟨coherent.commit linked commit, tracked.commit coherent commit, fun there => (front there).commit coherent commit⟩
  tick := fun {entered pipeline later} supplied le => by
    have now := Nat.le_trans (Nat.le_add_right _ _) le
    obtain ⟨coherent, tracked, front⟩ := supplied
    exact ⟨coherent_keeps.tick coherent le,
      fun index entry found producer isProducer => (tracked index entry found producer isProducer).later now,
      fun there index entry found producer isProducer => (front there index entry found producer isProducer).later now⟩

theorem supplied_initial (config : Config Cycle Mem) (outstandingLoads outstandingStores start : Nat) (memory : Mem) :
    Supplied config [] (State.initial outstandingLoads outstandingStores start memory).pipeline where
  coherent := coherent_initial ..
  tracked := fun _ _ found => by cases found
  front := fun _ _ _ found => by cases found

/-! ### Runs -/

/-- A micro-operation issues with the results of its producers of a kind. -/
def InTime (config : Config Cycle Mem) (entered : List Entering) (visit : Visit Cycle Mem) (producers : Nat → Nat → Prop) : Prop :=
  ∀ producer, producers visit.entry.uop.sequenceNumber producer →
    result config entered visit.state.pipeline producer ≤ visit.state.now

theorem Needs.committed_or_tracked {number producer : Nat} (needs : Needs entered number producer)
    (reads : ∀ entering ∈ entered, entering.uop.AddressesRead) :
    Tracked entered number producer ∨ ∃ entering ∈ entered, producer < entering.pipeline.rob.lowest := by
  have added {entering : Entering} (isEntered : entered[number]? = some entering) (some_ : entering.pipeline.rob.lowest ≤ producer →
      producer ∈ Trackers.producers (stream entered) number entering.pipeline.rob.lowest entering.uop) :
      Tracked entered number producer ∨ ∃ entering ∈ entered, producer < entering.pipeline.rob.lowest := by
    by_cases inRob : entering.pipeline.rob.lowest ≤ producer
    · refine .inl ⟨entering, isEntered, List.mem_append_right _ ?_⟩
      exact DynamicMicroOp.mem_withDependencies.mpr (.inr (some_ inRob))
    · exact .inr ⟨entering, List.mem_of_getElem? isEntered, Nat.lt_of_not_le inRob⟩
  cases needs with
  | own entering isEntered member =>
    refine .inl ⟨entering, isEntered, ?_⟩
    refine (List.mem_append.mp member).elim (List.mem_append_left _) fun listed => List.mem_append_right _ ?_
    exact DynamicMicroOp.mem_withDependencies.mpr (.inl listed)
  | register entering register isEntered isSource last =>
    refine added isEntered fun inRob => List.mem_append_left _ ?_
    exact Trackers.mem_sourceProducers.mpr ⟨register, isSource, last, inRob⟩
  | address entering isEntered isStore writer =>
    obtain ⟨entering', isEntered', register, isRegister, last⟩ := writer
    cases isEntered.symm.trans isEntered'
    refine added isEntered fun inRob => List.mem_append_left _ ?_
    have isSource := reads entering (List.mem_of_getElem? isEntered) isStore register isRegister
    exact Trackers.mem_sourceProducers.mpr ⟨register, isSource, last, inRob⟩
  | store entering isEntered isLoad last =>
    refine added isEntered fun inRob => List.mem_append_right _ ?_
    exact Trackers.mem_memoryProducers.mpr (.inl ⟨isLoad, last, inRob⟩)

theorem LastBarrier.committed_or_tracked {number producer : Nat} (barrier : LastBarrier entered number producer) :
    FrontBarrier entered number producer ∨ Tracked entered number producer ∨
      ∃ entering ∈ entered, producer < entering.pipeline.rob.lowest := by
  obtain ⟨entering, isEntered, ordered, last⟩ := barrier
  rcases Nat.lt_trichotomy producer entering.pipeline.rob.lowest with before | front | inRob
  · exact .inr (.inr ⟨entering, List.mem_of_getElem? isEntered, before⟩)
  · exact .inl ⟨entering, isEntered, ordered, front, last⟩
  · refine .inr (.inl ⟨entering, isEntered, List.mem_append_right _ (DynamicMicroOp.mem_withDependencies.mpr (.inr ?_))⟩)
    exact List.mem_append_right _ (Trackers.mem_memoryProducers.mpr (.inr ⟨ordered, last, inRob⟩))

section Visits

variable {visit : Visit Cycle Mem} {start : State Mem} {producer : Nat}

theorem Supplied.committed (linked : Linked visit.state.pipeline) (supplied : Supplied config entered visit.state.pipeline)
    (committed : ∃ entering ∈ entered, producer < entering.pipeline.rob.lowest) :
    result config entered visit.state.pipeline producer ≤ visit.state.now := by
  obtain ⟨entering, member, before⟩ := committed
  exact supplied.coherent.result_traced linked (Nat.lt_of_lt_of_le before (supplied.coherent.lowest entering member))

theorem Supplied.inTime (linked : Linked visit.state.pipeline) (supplied : Supplied config entered visit.state.pipeline)
    (reads : ∀ entering ∈ entered, entering.uop.AddressesRead) (proper : visit.Proper config start) (issues : visit.Issues config) :
    InTime config entered visit (Needs entered) := by
  intro producer needs
  cases needs.committed_or_tracked reads with
  | inl tracked =>
    have covered := supplied.tracked visit.index visit.entry proper.there producer tracked
    exact covered.result_le supplied.coherent proper issues
  | inr committed => exact supplied.committed linked committed

theorem Supplied.barriers_inTime (linked : Linked visit.state.pipeline) (supplied : Supplied config entered visit.state.pipeline)
    (there : BarriersThere config entered) (proper : visit.Proper config start) (issues : visit.Issues config) :
    InTime config entered visit (LastBarrier entered) := by
  intro producer barrier
  rcases barrier.committed_or_tracked with front | tracked | committed
  · have covered := supplied.front there visit.index visit.entry proper.there producer front
    exact covered.result_le supplied.coherent proper issues
  · have covered := supplied.tracked visit.index visit.entry proper.there producer tracked
    exact covered.result_le supplied.coherent proper issues
  · exact supplied.committed linked committed

end Visits

/-- In every run without store-to-load forwarding in which stores read their address registers, the ROB and its counters are as they
should be, and micro-operations issue with the results of what they need; they also issue with that of the last memory barrier, if
none enters before the result of a barrier at the front of the ROB. -/
theorem pipeline_inOrder (config : Config Cycle Mem) (noForwarding : config.storeToLoadForwarding = false) (advance : Advance)
    (outstandingLoads outstandingStores start : Nat) (memory : Mem) (supply : List (List DynamicMicroOp))
    (reads : ∀ insts ∈ supply, ∀ uop ∈ insts, uop.AddressesRead) :
    ∀ logged, (logging config advance (.initial outstandingLoads outstandingStores start memory supply)).Reachable logged →
      logged.Pipelined config ∧ ∀ visit, logged.observed.system.Visits config visit → visit.Issues config →
        InTime config logged.observed.entered visit (Needs logged.observed.entered) ∧
          (BarriersThere config logged.observed.entered →
            InTime config logged.observed.entered visit (LastBarrier logged.observed.entered)) := by
  intro logged reached
  have reachedObserved := logged_observed reached
  refine ⟨logged_pipelined reached, fun visit visits issues => ?_⟩
  obtain ⟨linked, supplied⟩ := (supplied_keeps noForwarding).visits ⟨linked_initial .., supplied_initial ..⟩ reachedObserved visits
  have readsAll : ∀ entering ∈ logged.observed.entered, entering.uop.AddressesRead := by
    intro entering member
    obtain ⟨insts, isSupplied, isUop⟩ := (observed_supply reachedObserved).1 entering member
    exact reads insts isSupplied entering.uop isUop
  obtain ⟨-, dispatched, -, walk⟩ := visits
  exact ⟨supplied.inTime linked readsAll walk.proper issues, fun there => supplied.barriers_inTime linked there walk.proper issues⟩

/-- A memory barrier at the start, and a load after it. -/
def fencedFirst : List (List DynamicMicroOp) :=
  [{ computes 5 false with microOp := ⟨.execute, [], [], [], false, false, true⟩ } ::
    { computes 1 false with microOp := ⟨.load, [], [], [], false, false, false⟩, address := 64 } ::
    List.replicate 4 (computes 1 false)]

/-- The load issues in the cycle of the barrier. -/
theorem fencedFirst_early : ¬ ∀ (config : Config Unit Unit), config.storeToLoadForwarding = false →
    ∀ advance outstandingLoads outstandingStores start supply, (∀ insts ∈ supply, ∀ uop ∈ insts, uop.AddressesRead) →
    ∀ logged, (logging config advance (.initial outstandingLoads outstandingStores start () supply)).Reachable logged →
      logged.Pipelined config ∧ ∀ visit, logged.observed.system.Visits config visit → visit.Issues config →
        InTime config logged.observed.entered visit (Needs logged.observed.entered) ∧
          InTime config logged.observed.entered visit (LastBarrier logged.observed.entered) := by
  intro always
  have ends : (logging smallCore .skipping (.initial 1 1 0 () fencedFirst)).endsWith (fun _ => true)
      (fun logged => (logged.observed.system.visitAt smallCore 1).any fun visit => visit.entry.done = ⊤ ∧
        canIssue smallCore visit.state visit.loop visit.entry = .issue ∧ visit.entry.uop.sequenceNumber = 1 ∧
        ¬result smallCore logged.observed.entered visit.state.pipeline 0 ≤ visit.state.now ∧
        logged.observed.entered[1]?.any fun load => load.uop.ordered ∧
          lastBefore DynamicMicroOp.isMembar (stream logged.observed.entered) 1 = some 0)
      ⟨⟨.initial 1 1 0 () fencedFirst, []⟩, []⟩ (List.replicate 2 ()) = true := by
    decide +kernel
  obtain ⟨logged, reached, found⟩ := Machine.Reach.of_endsWith (.initial rfl) (fun _ _ _ => trivial) ends
  obtain ⟨visit, visits, facts⟩ := (Option.any_eq_true _ _).mp found
  obtain ⟨waiting, decision, number, early, ordered⟩ := of_decide_eq_true facts
  obtain ⟨load, isLoad, ordered⟩ := (Option.any_eq_true _ _).mp ordered
  have issues := Visit.issues_of_canIssue rfl waiting decision
  obtain ⟨-, inTime⟩ := always smallCore rfl .skipping 1 1 0 fencedFirst (by decide) logged reached
  have barrier := (inTime visit (System.visits_of_visitAt visits) issues).2
  exact early (barrier 0 (number ▸ ⟨load, isLoad, of_decide_eq_true ordered⟩))

/-- A slow micro-operation, a store of its result, a memory barrier, and a load of it. -/
def fencedLater : List (List DynamicMicroOp) :=
  [{ computes 3 false with microOp := ⟨.execute, [], [], [0], false, false, false⟩ } ::
    { computes 1 false with microOp := ⟨.store, [0], [], [], false, false, false⟩, address := 64 } ::
    { computes 1 false with microOp := ⟨.execute, [], [], [], false, false, true⟩ } ::
    { computes 1 false with microOp := ⟨.load, [0], [], [], false, false, false⟩, address := 64 } ::
    List.replicate 12 (computes 1 false)]

/-- The load issues after all three. -/
theorem pipeline_inOrder_fencedLater : ∃ (logged : Logged Unit) (visit : Visit Unit Unit),
    (logging ambiguousCore .skipping (.initial 1 1 0 () fencedLater)).Reachable logged ∧ logged.Pipelined ambiguousCore ∧
      visit.entry.uop.sequenceNumber = 3 ∧ visit.Issues ambiguousCore ∧
      ∀ producer < 3, result ambiguousCore logged.observed.entered visit.state.pipeline producer ≤ visit.state.now := by
  have ends : (logging ambiguousCore .skipping (.initial 1 1 0 () fencedLater)).endsWith (fun _ => true)
      (fun logged => (decide (∀ number < 16, ∀ entering ∈ logged.observed.entered[number]?, entering.uop.ordered = true →
          lastBefore DynamicMicroOp.isMembar (stream logged.observed.entered) number ≠ some entering.pipeline.rob.lowest) &&
          decide (logged.observed.entered.length = 16)) &&
        (logged.observed.system.visitAt ambiguousCore 1).any fun visit => visit.entry.done = ⊤ ∧
          canIssue ambiguousCore visit.state visit.loop visit.entry = .issue ∧ visit.entry.uop.sequenceNumber = 3 ∧
          logged.observed.entered[3]?.any fun load => 0 ∈ load.uop.microOp.sourceRegisters ∧ load.uop.isLoad ∧ load.uop.ordered ∧
            lastBefore (DynamicMicroOp.writes 0) (stream logged.observed.entered) 3 = some 0 ∧
            lastBefore (DynamicMicroOp.storesTo load.uop.address) (stream logged.observed.entered) 3 = some 1 ∧
            lastBefore DynamicMicroOp.isMembar (stream logged.observed.entered) 3 = some 2)
      ⟨⟨.initial 1 1 0 () fencedLater, []⟩, []⟩ (List.replicate 9 ()) = true := by
    decide +kernel
  obtain ⟨logged, reached, facts⟩ := Machine.Reach.of_endsWith (.initial rfl) (fun _ _ _ => trivial) ends
  obtain ⟨apart, found⟩ := Bool.and_eq_true_iff.mp facts
  obtain ⟨apart, length⟩ := Bool.and_eq_true_iff.mp apart
  have there : BarriersThere ambiguousCore logged.observed.entered := by
    intro number entering isEntered ordered last
    have within := of_decide_eq_true length ▸ (List.getElem?_eq_some_iff.mp isEntered).1
    exact absurd last (of_decide_eq_true apart number within entering isEntered ordered)
  obtain ⟨visit, visits, facts⟩ := (Option.any_eq_true _ _).mp found
  obtain ⟨waiting, decision, number, found⟩ := of_decide_eq_true facts
  obtain ⟨load, isEntered, facts⟩ := (Option.any_eq_true _ _).mp found
  obtain ⟨reads, isLoad, ordered, writer, store, barrier⟩ := of_decide_eq_true facts
  have issues := Visit.issues_of_canIssue rfl waiting decision
  obtain ⟨pipelined, inTime⟩ := pipeline_inOrder ambiguousCore rfl .skipping 1 1 0 () fencedLater (by decide) logged reached
  obtain ⟨needs, barriers⟩ := inTime visit (System.visits_of_visitAt visits) issues
  refine ⟨logged, visit, reached, pipelined, number, issues, fun producer before => ?_⟩
  rw [InTime, number] at needs
  have barriers := barriers there
  rw [InTime, number] at barriers
  match producer, before with
  | 0, _ => exact needs 0 (.register load 0 isEntered reads writer)
  | 1, _ => exact needs 1 (.store load isEntered isLoad store)
  | 2, _ => exact barriers 2 ⟨load, isEntered, ordered, barrier⟩

end RobTimer

end Sniper.Performance

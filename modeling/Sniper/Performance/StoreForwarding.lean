import Sniper.Performance.Readiness

/-! What a load that is forwarded from a store waits for. -/

namespace Sniper.Performance.RobTimer

variable {Cycle Mem : Type} {config : Config Cycle Mem} {pipeline pipeline' : Pipeline} {entered : List Entering}
  {time : SubsecondTime}

/-! ### The earliest time of issue -/

/-- The earliest time at which an entry can issue, as far as it knows itself. -/
def earliest (config : Config Cycle Mem) (pipeline : Pipeline) (index : Nat) (entry : RobEntry) : SubsecondTime :=
  if entry.uop.getDependencies = [] then
    if index < pipeline.numInRob then entry.ready else max entry.ready (pipeline.now + config.period : Nat)
  else entry.readyMax

/-- An entry, or a producer that it waits for, cannot issue before a time. -/
inductive Awaits (config : Config Cycle Mem) (pipeline : Pipeline) (time : SubsecondTime) : Nat → RobEntry → Prop where
  | own (index : Nat) (entry : RobEntry) : time ≤ earliest config pipeline index entry → Awaits config pipeline time index entry
  | producer (index position : Nat) (entry issuer : RobEntry) : pipeline.rob.entries[position]? = some issuer →
      issuer.uop.sequenceNumber ∈ entry.uop.getDependencies → Awaits config pipeline time position issuer →
      Awaits config pipeline time index entry

theorem Awaits.ready {index : Nat} {entry : RobEntry} (awaits : Awaits config pipeline time index entry)
    (nothing : entry.uop.getDependencies = []) (inWindow : index < pipeline.numInRob) : time ≤ entry.ready := by
  cases awaits with
  | own index entry early =>
    rw [earliest, if_pos nothing, if_pos inWindow] at early
    exact early
  | producer index position entry issuer there member =>
    rw [nothing] at member
    cases member

theorem Awaits.issued {index : Nat} {entry : RobEntry} (awaits : Awaits config pipeline time index entry)
    (coherent : Coherent config entered pipeline) (there : pipeline.rob.entries[index]? = some entry) (issued : entry.done ≠ ⊤) :
    time ≤ pipeline.now := by
  have ready := coherent.readied index entry there issued
  have nothing := (coherent.timed index entry there).ready ready
  exact le_trans (awaits.ready nothing (coherent.inWindow there issued)) ready

theorem Move.outside (move : Move config pipeline pipeline') {index : Nat} {later : RobEntry}
    (found : pipeline'.rob.entries[index]? = some later) (outside : pipeline.numInRob ≤ index) :
    pipeline'.numInRob ≤ index ∨ ∃ entry, pipeline.rob.entries[index]? = some entry ∧ later = entry.dispatch config pipeline.now := by
  cases move with
  | dispatch entry none_ room stations there =>
    cases getElem?_set_cases found with
    | inl here => exact .inr ⟨entry, here.1 ▸ there, here.2⟩
    | inr other => exact .inl (Nat.lt_of_le_of_ne outside other.1)
  | issue => exact .inl outside
  | wake => exact .inl outside

theorem earliest_le_dispatch (index : Nat) (entry : RobEntry) (outside : pipeline.numInRob ≤ index) :
    earliest config pipeline index entry ≤ earliest config pipeline' index (entry.dispatch config pipeline.now) := by
  by_cases nothing : entry.uop.getDependencies = []
  · rw [earliest, earliest, if_pos nothing, if_neg (Nat.not_lt_of_le outside), if_pos (show (entry.dispatch config pipeline.now).uop.getDependencies = [] from nothing)]
    split
    case isTrue => exact le_refl _
    case isFalse => exact le_max_left _ _
  · rw [earliest, earliest, if_neg nothing, if_neg (show ¬(entry.dispatch config pipeline.now).uop.getDependencies = [] from nothing)]
    exact le_refl _

theorem earliest_woken {index : Nat} {issuer entry woken : RobEntry} {entries : List RobEntry}
    (wakes : entry.Wakes entries issuer.uop.sequenceNumber (issuer.available config.period) woken) :
    max entry.readyMax (issuer.available config.period) ≤ earliest config pipeline index woken := by
  obtain ⟨uop, drops, isWoken⟩ := wakes.release
  have isUop : woken.uop = uop := by
    rw [isWoken]
    rfl
  have readyMax : woken.readyMax = max entry.readyMax (issuer.available config.period) := by
    rw [isWoken]
    rfl
  by_cases nothing : woken.uop.getDependencies = []
  · have ready : woken.ready = max entry.readyMax (issuer.available config.period) := by
      rw [isWoken]
      exact if_pos (DynamicMicroOp.getDependencies_eq_nil.mp (isUop ▸ nothing))
    rw [earliest, if_pos nothing, ← ready]
    split
    case isTrue => exact le_refl _
    case isFalse => exact le_max_left _ _
  · rw [earliest, if_neg nothing, readyMax]

theorem earliest_move {index : Nat} {entry later : RobEntry} (coherent : Coherent config entered pipeline)
    (move : Move config pipeline pipeline') (there : pipeline.rob.entries[index]? = some entry)
    (found : pipeline'.rob.entries[index]? = some later) (early : time ≤ earliest config pipeline index entry) :
    time ≤ pipeline.now ∨ time ≤ earliest config pipeline' index later := by
  have unchanged (same : later = entry) : time ≤ pipeline.now ∨ time ≤ earliest config pipeline' index later := by
    right
    rw [same, earliest, move.frame.now]
    by_cases inWindow : index < pipeline.numInRob
    · rw [earliest, if_pos inWindow] at early
      rw [if_pos (Nat.lt_of_lt_of_le inWindow move.frame.window)]
      exact early
    · cases move.outside found (Nat.le_of_not_lt inWindow) with
      | inl outside =>
        rw [earliest, if_neg inWindow] at early
        rw [if_neg (Nat.not_lt_of_le outside)]
        exact early
      | inr dispatched =>
        obtain ⟨old, there', isDispatched⟩ := dispatched
        cases there.symm.trans there'
        have later : earliest config pipeline index entry ≤ earliest config pipeline' index (entry.dispatch config pipeline.now) :=
          earliest_le_dispatch index entry (Nat.le_of_not_lt inWindow)
        have dispatch := le_trans early later
        rw [← isDispatched, same, earliest, move.frame.now] at dispatch
        exact dispatch
  obtain ⟨old, there', change⟩ := move.change found
  cases there.symm.trans there'
  cases change with
  | same => exact unchanged rfl
  | dispatch outside => exact .inr (le_trans early (earliest_le_dispatch index entry (Nat.le_of_eq outside.symm)))
  | issue execLatency where_ none_ inWindow waiting ready =>
    left
    rw [earliest, if_pos ((coherent.timed index entry there).ready ready), if_pos inWindow] at early
    exact le_trans early ready
  | wake issuer position rest woken waking inRob issued wakes =>
    right
    have waited : entry.uop.getDependencies ≠ [] := fun none_ => wakes.1 (DynamicMicroOp.getDependencies_eq_nil.mp none_)
    rw [earliest, if_neg waited] at early
    exact le_trans early (le_trans (le_max_left _ _) (earliest_woken wakes))

theorem Awaits.move {index : Nat} {entry later : RobEntry} (awaits : Awaits config pipeline time index entry)
    (linked : Linked pipeline) (coherent : Coherent config entered pipeline) (move : Move config pipeline pipeline')
    (there : pipeline.rob.entries[index]? = some entry) (found : pipeline'.rob.entries[index]? = some later) :
    time ≤ pipeline.now ∨ Awaits config pipeline' time index later := by
  induction awaits generalizing later with
  | own index entry early => exact (earliest_move coherent move there found early).imp_right (.own index later)
  | producer index position entry issuer there' member awaits ih =>
    obtain ⟨issuer', found', isLater⟩ := move.laterEntries.new there'
    refine (ih there' found').elim .inl fun still => ?_
    have waits (same : later.uop.getDependencies = entry.uop.getDependencies) : Awaits config pipeline' time index later := by
      refine .producer index position later issuer' found' ?_ still
      rw [isLater.sequenceNumber, same]
      exact member
    obtain ⟨old, there'', change⟩ := move.change found
    cases there.symm.trans there''
    cases change with
    | same => exact .inr (waits rfl)
    | dispatch => exact .inr (waits rfl)
    | issue => exact .inr (waits rfl)
    | wake waker place rest woken waking inRob issued wakes =>
      by_cases same : issuer.uop.sequenceNumber = waker.uop.sequenceNumber
      · cases linked.numbered.unique there' inRob same
        cases there'.symm.trans inRob
        exact .inl (awaits.issued coherent there' issued)
      · obtain ⟨uop, drops, isWoken⟩ := wakes.release
        have isUop : later.uop = uop := by
          rw [isWoken]
          rfl
        refine .inr (.producer index position later issuer' found' ?_ still)
        rw [isLater.sequenceNumber, isUop]
        exact drops.kept (linked.proper index entry there) member fun listed => same (List.mem_singleton.mp listed)

theorem Awaits.commit {index : Nat} {entry : RobEntry} (awaits : Awaits config pipeline time (index + 1) entry)
    (coherent : Coherent config entered pipeline) (commit : Commit pipeline pipeline') :
    time ≤ pipeline.now ∨ Awaits config pipeline' time index entry := by
  generalize place : index + 1 = position at awaits
  induction awaits generalizing index with
  | own position entry early =>
    refine .inr (.own index entry (le_of_le_of_eq early ?_))
    cases commit with
    | front front rest none_ isRob done =>
      have window : position < pipeline.numInRob ↔ index < pipeline.numInRob - 1 := by omega
      simp only [earliest, window]
      rfl
  | producer position older entry issuer there member awaits ih =>
    cases older with
    | zero =>
      cases commit with
      | front front rest none_ isRob done =>
        have isFront := there
        rw [isRob] at isFront
        cases isFront
        exact .inl (awaits.issued coherent there (ne_top_of_le_ne_top (SubsecondTime.fs_ne_top _) done))
    | succ older =>
      refine (ih rfl).imp_right fun still => .producer index older entry issuer ?_ member still
      cases commit with
      | front front rest none_ isRob done =>
        rw [isRob] at there
        exact there

theorem Awaits.later {index later : Nat} {entry : RobEntry} (awaits : Awaits config pipeline time index entry)
    (le : pipeline.now ≤ later) : Awaits config { pipeline with now := later } time index entry := by
  induction awaits with
  | own index entry early =>
    refine .own index entry (le_trans early ?_)
    rw [earliest, earliest]
    split
    case isFalse => exact le_refl _
    case isTrue =>
      split
      case isTrue => exact le_refl _
      case isFalse => exact max_le_max_left _ (SubsecondTime.fs_le_fs.mpr (Nat.add_le_add_right le _))
  | producer index position entry issuer there member _ ih => exact .producer index position entry issuer there member ih

theorem Awaits.insert {index : Nat} {entry later new : RobEntry} {uop tracked needed : DynamicMicroOp} {rob' : Rob}
    {looked : List RobEntry × List Nat × SubsecondTime} (awaits : Awaits config pipeline time index entry)
    (inserted : Inserted config pipeline.rob uop rob' new tracked needed looked)
    (gains : Gains needed.getDependencies needed.sequenceNumber entry later) :
    Awaits config { pipeline with rob := rob' } time index later := by
  induction awaits generalizing later with
  | own index entry early =>
    refine .own index later ?_
    rw [gains]
    exact early
  | producer index position entry issuer there member _ ih =>
    obtain ⟨issuer', found, gains'⟩ := inserted.old there
    refine .producer index position later issuer' found ?_ (ih gains')
    rw [(gains_uop gains').1, (gains_uop gains).1]
    exact member

/-! ### Forwarded loads -/

/-- The producers of the sources of a micro-operation that are in the ROB when it enters: those before it in its instruction
that it is told of, and the last writers of its source registers. -/
def SourceProducer (entered : List Entering) (number producer : Nat) : Prop :=
  ∃ entering, entered[number]? = some entering ∧ entering.pipeline.rob.lowest ≤ producer ∧
    (producer ∈ ({ entering.uop with sequenceNumber := number } : DynamicMicroOp).getDependencies ∨
      ∃ register ∈ entering.uop.microOp.sourceRegisters,
        lastBefore (DynamicMicroOp.writes register) (stream entered) number = some producer)

/-- The store that a new load is forwarded from. -/
def Entering.store (config : Config Cycle Mem) (entering : Entering) : Option RobEntry :=
  let rob := entering.pipeline.rob
  match rob.trackers.setDependencies rob.nextSequenceNumber entering.uop rob.lowest with
  | .error _ => none
  | .ok (_, uop) => forwardedStore config rob.entries uop

/-- A new micro-operation, or a producer that it waits for, cannot issue before a time. -/
def Entering.Waits (config : Config Cycle Mem) (entering : Entering) (time : SubsecondTime) : Prop :=
  ∀ rob entry, insertMicroOp config entering.pipeline.rob entering.uop = .ok rob →
    rob.entries[entering.pipeline.rob.entries.length]? = some entry →
    Awaits config { entering.pipeline with rob := rob } time entering.pipeline.rob.entries.length entry

/-- What a load misses of its store is there: for each producer of the store's sources that has issued when the load enters, its
result is there too, or not later than the load, or what it waits for, can issue. -/
def ResultsThere (config : Config Cycle Mem) (entered : List Entering) : Prop :=
  ∀ (number : Nat) entering store, entered[number]? = some entering → entering.store config = some store →
    ∀ producer, SourceProducer entered store.uop.sequenceNumber producer → result config entered entering.pipeline producer ≠ ⊤ →
      result config entered entering.pipeline producer ≤ entering.pipeline.now ∨
        entering.Waits config (result config entered entering.pipeline producer)

/-- An entry waits for the result of a producer. -/
def Covered (config : Config Cycle Mem) (entered : List Entering) (pipeline : Pipeline) (producer index : Nat) (entry : RobEntry) : Prop :=
  producer ∈ entry.uop.getDependencies ∨ (result config entered pipeline producer ≠ ⊤ ∧
    (result config entered pipeline producer ≤ pipeline.now ∨
      Awaits config pipeline (result config entered pipeline producer) index entry))

/-- What the stores in the ROB depend on, and what the loads wait for that are forwarded from them. -/
structure Forwarding (config : Config Cycle Mem) (entered : List Entering) (pipeline : Pipeline) : Prop where
  coherent : Coherent config entered pipeline
  older : ∀ (number : Nat) entering store, entered[number]? = some entering → entering.store config = some store →
    store.uop.sequenceNumber < number
  stores : ∀ (index : Nat) (entry : RobEntry), pipeline.rob.entries[index]? = some entry → entry.uop.isStore = true →
    ∀ producer, SourceProducer entered entry.uop.sequenceNumber producer →
      producer ∈ entry.uop.getDependencies ∨ result config entered pipeline producer ≠ ⊤
  loads : ResultsThere config entered → ∀ (index : Nat) (entry : RobEntry), pipeline.rob.entries[index]? = some entry →
    ∀ entering store, entered[entry.uop.sequenceNumber]? = some entering → entering.store config = some store →
      ∀ producer, SourceProducer entered store.uop.sequenceNumber producer → Covered config entered pipeline producer index entry

theorem SourceProducer.grown_iff {entered' : List Entering} {number producer : Nat} (grown : entered <+: entered')
    (within : number < entered.length) : SourceProducer entered' number producer ↔ SourceProducer entered number producer := by
  obtain ⟨more, rfl⟩ := grown
  have whole : stream (entered ++ more) = stream entered ++ stream more := List.map_append
  have length : (stream entered).length = entered.length := List.length_map _
  simp only [SourceProducer, whole, lastBefore_append (stream more) (Nat.le_of_lt (length ▸ within)), List.getElem?_append_left within]

theorem SourceProducer.lt {number producer : Nat} (isProducer : SourceProducer entered number producer) : number < entered.length := by
  obtain ⟨entering, isEntered, -⟩ := isProducer
  exact (List.getElem?_eq_some_iff.mp isEntered).1

theorem ResultsThere.of_grown {entered' : List Entering} (grown : entered <+: entered') (there : ResultsThere config entered') :
    ResultsThere config entered := by
  intro number entering store isEntered forwarded producer isProducer known
  have same := (Settled.refl entering.pipeline.dones).result_eq grown known
  have isEntered' : entered'[number]? = some entering := by
    obtain ⟨more, rfl⟩ := grown
    rw [List.getElem?_append_left (List.getElem?_eq_some_iff.mp isEntered).1, isEntered]
  rw [← same] at known ⊢
  exact there number entering store isEntered' forwarded producer ((SourceProducer.grown_iff grown isProducer.lt).mpr isProducer) known

/-! ### Moves -/

theorem Covered.move {producer index : Nat} {entry later : RobEntry} (covered : Covered config entered pipeline producer index entry)
    (linked : Linked pipeline) (coherent : Coherent config entered pipeline) (move : Move config pipeline pipeline')
    (there : pipeline.rob.entries[index]? = some entry) (found : pipeline'.rob.entries[index]? = some later) :
    Covered config entered pipeline' producer index later := by
  cases covered with
  | inl member =>
    obtain ⟨old, there', change⟩ := move.change found
    cases there.symm.trans there'
    refine (change.depends linked there member).imp_right fun woken => ?_
    obtain ⟨position, issuer, inRob, rfl, issued, wakes⟩ := woken
    obtain ⟨isResult, known⟩ := coherent.result_issued linked inRob issued
    rw [move.settled.result_eq (List.prefix_refl _) known]
    exact ⟨known, .inr (.own index later (isResult ▸ le_trans (le_max_right _ _) (earliest_woken wakes)))⟩
  | inr waits =>
    obtain ⟨known, waits⟩ := waits
    right
    rw [move.settled.result_eq (List.prefix_refl _) known, move.frame.now]
    exact ⟨known, waits.elim .inl fun awaits => awaits.move linked coherent move there found⟩

theorem Covered.commit {producer index : Nat} {entry : RobEntry}
    (covered : Covered config entered pipeline producer (index + 1) entry) (coherent : Coherent config entered pipeline)
    (commit : Commit pipeline pipeline') : Covered config entered pipeline' producer index entry := by
  refine covered.imp_right fun waits => ?_
  obtain ⟨known, waits⟩ := waits
  have now : pipeline'.now = pipeline.now := by
    cases commit
    rfl
  rw [commit.settled.result_eq (List.prefix_refl _) known, now]
  exact ⟨known, waits.elim .inl fun awaits => awaits.commit coherent commit⟩

theorem Covered.later {producer index later : Nat} {entry : RobEntry} (covered : Covered config entered pipeline producer index entry)
    (le : pipeline.now ≤ later) : Covered config entered { pipeline with now := later } producer index entry := by
  refine covered.imp_right fun waits => ?_
  exact ⟨waits.1, waits.2.imp (fun there => le_trans there (SubsecondTime.fs_le_fs.mpr le)) fun awaits => awaits.later le⟩

theorem Covered.insert {producer index : Nat} {entry later new : RobEntry} {uop tracked needed : DynamicMicroOp} {rob' : Rob}
    {looked : List RobEntry × List Nat × SubsecondTime} (covered : Covered config entered pipeline producer index entry)
    (inserted : Inserted config pipeline.rob uop rob' new tracked needed looked)
    (gains : Gains needed.getDependencies needed.sequenceNumber entry later) :
    Covered config (entered ++ [⟨pipeline, uop⟩]) { pipeline with rob := rob' } producer index later := by
  rw [Covered, (gains_uop gains).1]
  refine covered.imp_right fun waits => ?_
  obtain ⟨known, waits⟩ := waits
  rw [inserted.settled.result_eq (List.prefix_append _ _) known]
  exact ⟨known, waits.imp_right fun awaits => awaits.insert inserted gains⟩

theorem Covered.result_le {producer : Nat} {visit : Visit Cycle Mem} {start : State Mem}
    (covered : Covered config entered visit.state.pipeline producer visit.index visit.entry)
    (coherent : Coherent config entered visit.state.pipeline) (proper : visit.Proper config start) (issues : visit.Issues config) :
    result config entered visit.state.pipeline producer ≤ visit.state.now := by
  have ready := (canIssue_eq_issue.mp issues.decision).ready
  have nothing := (coherent.timed visit.index visit.entry proper.there).ready ready
  have inWindow : visit.index < visit.state.numInRob := proper.inLoop.numInRob.symm ▸ proper.inWindow
  cases covered with
  | inl member =>
    rw [nothing] at member
    cases member
  | inr waits => exact waits.2.elim id fun awaits => le_trans (awaits.ready nothing inWindow) ready

theorem Forwarding.move (linked : Linked pipeline) (forwarding : Forwarding config entered pipeline)
    (move : Move config pipeline pipeline') : Forwarding config entered pipeline' := by
  refine ⟨forwarding.coherent.move linked move, forwarding.older, fun index later found isStore producer isProducer => ?_,
    fun results index later found entering store isEntered forwarded producer isProducer => ?_⟩
  · obtain ⟨entry, there, change⟩ := move.change found
    have wasStore : entry.uop.isStore = true := (congrArg MicroOp.isStore change.later.microOp).symm.trans isStore
    rw [change.later.sequenceNumber] at isProducer
    cases forwarding.stores index entry there wasStore producer isProducer with
    | inl member =>
      refine (change.depends linked there member).imp_right fun woken => ?_
      obtain ⟨position, issuer, inRob, rfl, issued, wakes⟩ := woken
      have known := (forwarding.coherent.result_issued linked inRob issued).2
      rw [move.settled.result_eq (List.prefix_refl _) known]
      exact known
    | inr known =>
      rw [move.settled.result_eq (List.prefix_refl _) known]
      exact .inr known
  · obtain ⟨entry, there, change⟩ := move.change found
    rw [change.later.sequenceNumber] at isEntered
    have covered := forwarding.loads results index entry there entering store isEntered forwarded producer isProducer
    exact covered.move linked forwarding.coherent move there found

theorem Forwarding.commit (linked : Linked pipeline) (forwarding : Forwarding config entered pipeline)
    (commit : Commit pipeline pipeline') : Forwarding config entered pipeline' := by
  have later {index : Nat} {entry : RobEntry} (found : pipeline'.rob.entries[index]? = some entry) :
      pipeline.rob.entries[index + 1]? = some entry := by
    cases commit with
    | front front rest none_ isRob done =>
      rw [isRob]
      exact found
  refine ⟨forwarding.coherent.commit linked commit, forwarding.older, fun index entry found isStore producer isProducer => ?_,
    fun results index entry found entering store isEntered forwarded producer isProducer => ?_⟩
  · refine (forwarding.stores (index + 1) entry (later found) isStore producer isProducer).imp_right fun known => ?_
    rw [commit.settled.result_eq (List.prefix_refl _) known]
    exact known
  · have covered := forwarding.loads results (index + 1) entry (later found) entering store isEntered forwarded producer isProducer
    exact covered.commit forwarding.coherent commit

/-! ### New micro-operations -/

section Insert

variable {uop tracked needed : DynamicMicroOp} {rob' : Rob} {entry : RobEntry} {looked : List RobEntry × List Nat × SubsecondTime}

theorem Inserted.sourceProducer {producer : Nat} (linked : Linked pipeline) (coherent : Coherent config entered pipeline)
    (inserted : Inserted config pipeline.rob uop rob' entry tracked needed looked) (isStore : uop.isStore = true)
    (isProducer : SourceProducer (entered ++ [⟨pipeline, uop⟩]) entered.length producer) :
    producer ∈ entry.uop.getDependencies ∨ result config entered pipeline producer ≠ ⊤ := by
  obtain ⟨entering, isEntered, inRob, sources⟩ := isProducer
  cases (entering_last entered ⟨pipeline, uop⟩).symm.trans isEntered
  have member : producer ∈ needed.getDependencies := by
    have isStream : stream (entered ++ [⟨pipeline, uop⟩]) = stream entered ++ [uop] := List.map_append
    rw [inserted.needed_eq isStore, (coherent.setDependencies inserted).2, DynamicMicroOp.getDependencies]
    cases sources with
    | inl own =>
      refine (List.mem_append.mp own).elim (List.mem_append_left _) fun listed => List.mem_append_right _ ?_
      exact DynamicMicroOp.mem_withDependencies.mpr (.inl listed)
    | inr register =>
      obtain ⟨register, reads, last⟩ := register
      rw [isStream] at last
      refine List.mem_append_right _ (DynamicMicroOp.mem_withDependencies.mpr (.inr (List.mem_append_left _ ?_)))
      exact Trackers.mem_sourceProducers.mpr ⟨register, reads, last, inRob⟩
  obtain ⟨index, issuer, there, rfl⟩ := inserted.added.found producer member
  by_cases waiting : issuer.done = ⊤
  · exact .inl (inserted.stays there waiting member)
  · exact .inr (coherent.result_issued linked there waiting).2

theorem Inserted.inherits {store : RobEntry} {index producer : Nat} (linked : Linked pipeline) (none_ : pipeline.waking = [])
    (inserted : Inserted config pipeline.rob uop rob' entry tracked needed looked)
    (isForwarded : forwardedStore config pipeline.rob.entries tracked = some store) (there : pipeline.rob.entries[index]? = some store)
    (member : producer ∈ store.uop.getDependencies) : producer ∈ entry.uop.getDependencies := by
  obtain ⟨older, issuer, before, found, rfl, waiting⟩ := linked.producer none_ there member
  have forwarded := inserted.forwarded
  rw [isForwarded] at forwarded
  obtain ⟨dropped, drops, isNeeded⟩ := forwarded
  refine inserted.stays found waiting ?_
  rw [isNeeded, DynamicMicroOp.getDependencies]
  exact List.mem_append_right _ (DynamicMicroOp.mem_withDependencies.mpr (.inr member))

theorem Inserted.store_eq (inserted : Inserted config pipeline.rob uop rob' entry tracked needed looked) :
    (⟨pipeline, uop⟩ : Entering).store config = forwardedStore config pipeline.rob.entries tracked := by
  rw [Entering.store]
  dsimp only
  rw [inserted.trackers]

theorem Forwarding.insert (linked : Linked pipeline) (none_ : pipeline.waking = []) (forwarding : Forwarding config entered pipeline)
    (inserts : insertMicroOp config pipeline.rob uop = .ok rob')
    (inserted : Inserted config pipeline.rob uop rob' entry tracked needed looked) :
    Forwarding config (entered ++ [⟨pipeline, uop⟩]) { pipeline with rob := rob' } := by
  have coherent := forwarding.coherent
  have grown : entered <+: entered ++ [⟨pipeline, uop⟩] := List.prefix_append _ _
  have number : entry.uop.sequenceNumber = entered.length := inserted.sequenceNumber.trans coherent.count.symm
  have settled {producer : Nat} (known : result config entered pipeline producer ≠ ⊤) :
      result config (entered ++ [⟨pipeline, uop⟩]) { pipeline with rob := rob' } producer = result config entered pipeline producer :=
    inserted.settled.result_eq grown known
  have forwardedFrom {store : RobEntry} (forwarded : (⟨pipeline, uop⟩ : Entering).store config = some store) :
      forwardedStore config pipeline.rob.entries tracked = some store := inserted.store_eq.symm.trans forwarded
  refine ⟨coherent.insert linked none_ inserted, fun load entering store isEntered forwarded => ?_,
    fun index later found isStore producer isProducer => ?_,
    fun results index later found entering store isEntered forwarded producer isProducer => ?_⟩
  · by_cases before : load < entered.length
    · rw [List.getElem?_append_left before] at isEntered
      exact forwarding.older load entering store isEntered forwarded
    · have isLast : load = entered.length := by
        have within := (List.getElem?_eq_some_iff.mp isEntered).1
        rw [List.length_append, List.length_singleton] at within
        omega
      subst isLast
      cases (entering_last entered ⟨pipeline, uop⟩).symm.trans isEntered
      obtain ⟨-, index, there⟩ := forwardedStore_mem (forwardedFrom forwarded)
      exact coherent.number_lt linked there
  · cases inserted.cases found with
    | inl before =>
      obtain ⟨old, there, gains⟩ := before
      rw [(gains_uop gains).1] at isStore isProducer ⊢
      have isProducer := (SourceProducer.grown_iff grown (coherent.number_lt linked there)).mp isProducer
      refine (forwarding.stores index old there isStore producer isProducer).imp_right fun known => ?_
      rw [settled known]
      exact known
    | inr new =>
      obtain ⟨rfl, rfl⟩ := new
      have store : uop.isStore = true := (congrArg MicroOp.isStore inserted.microOp).symm.trans isStore
      rw [number] at isProducer
      refine (inserted.sourceProducer linked coherent store isProducer).imp_right fun known => ?_
      rw [settled known]
      exact known
  · cases inserted.cases found with
    | inl before =>
      obtain ⟨old, there, gains⟩ := before
      have within := coherent.number_lt linked there
      rw [(gains_uop gains).1, List.getElem?_append_left within] at isEntered
      have earlier := forwarding.older _ entering store isEntered forwarded
      have isProducer := (SourceProducer.grown_iff grown (Nat.lt_trans earlier within)).mp isProducer
      have covered := forwarding.loads (results.of_grown grown) index old there entering store isEntered forwarded producer isProducer
      exact covered.insert inserted gains
    | inr new =>
      obtain ⟨rfl, rfl⟩ := new
      rw [number] at isEntered
      cases (entering_last entered ⟨pipeline, uop⟩).symm.trans isEntered
      obtain ⟨isStore, position, there⟩ := forwardedStore_mem (forwardedFrom forwarded)
      by_cases known : result config entered pipeline producer = ⊤
      · have isProducer := (SourceProducer.grown_iff grown (coherent.number_lt linked there)).mp isProducer
        have member := (forwarding.stores position store there isStore producer isProducer).resolve_right fun issued => issued known
        exact .inl (inserted.inherits linked none_ (forwardedFrom forwarded) there member)
      · right
        have same := (Settled.refl pipeline.dones).result_eq grown known
        have late := results entered.length ⟨pipeline, uop⟩ store (entering_last entered _) forwarded producer isProducer
          (same.symm ▸ known)
        rw [same] at late
        rw [settled known]
        exact ⟨known, late.imp_right fun waits => waits rob' later inserts found⟩

end Insert

theorem forwarding_keeps : Keeps config (Forwarding config) where
  insert := fun linked none_ forwarding inserts inserted => forwarding.insert linked none_ inserts inserted
  move := fun linked forwarding move => forwarding.move linked move
  commit := fun linked forwarding commit => forwarding.commit linked commit
  tick := fun {entered pipeline later} forwarding le => by
    have now := Nat.le_trans (Nat.le_add_right _ _) le
    refine ⟨coherent_keeps.tick forwarding.coherent le, forwarding.older, forwarding.stores,
      fun results index entry found entering store isEntered forwarded producer isProducer => ?_⟩
    exact (forwarding.loads results index entry found entering store isEntered forwarded producer isProducer).later now

/-! ### Runs -/

/-- A load that was forwarded from a store issues with the results of the producers of the store's sources. -/
def DataThere (config : Config Cycle Mem) (entered : List Entering) (visit : Visit Cycle Mem) : Prop :=
  ∀ entering store, entered[visit.entry.uop.sequenceNumber]? = some entering → entering.store config = some store →
    ∀ producer, SourceProducer entered store.uop.sequenceNumber producer →
      result config entered visit.state.pipeline producer ≤ visit.state.now

theorem forwarding_initial (config : Config Cycle Mem) (outstandingLoads outstandingStores start : Nat) (memory : Mem) :
    Forwarding config [] (State.initial outstandingLoads outstandingStores start memory).pipeline where
  coherent := coherent_initial ..
  older := fun _ _ _ isEntered => by cases isEntered
  stores := fun _ _ found => by cases found
  loads := fun _ _ _ found => by cases found

/-- In every run in which forwarded loads miss only results that are there in time, they issue with all of them. -/
theorem forwarded_data (config : Config Cycle Mem) (advance : Advance) (outstandingLoads outstandingStores start : Nat) (memory : Mem)
    (supply : List (List DynamicMicroOp)) :
    ∀ observed, (observation config advance (.initial outstandingLoads outstandingStores start memory supply)).Reachable observed →
      ResultsThere config observed.entered →
      ∀ visit, observed.system.Visits config visit → visit.Issues config → DataThere config observed.entered visit := by
  intro observed reached results visit visits issues entering store isEntered forwarded producer isProducer
  obtain ⟨linked, forwarding⟩ := forwarding_keeps.visits ⟨linked_initial .., forwarding_initial ..⟩ reached visits
  obtain ⟨-, dispatched, ran, walk⟩ := visits
  have proper := walk.proper
  have covered := forwarding.loads results visit.index visit.entry proper.there entering store isEntered forwarded producer isProducer
  exact covered.result_le forwarding.coherent proper issues

def forwardingCore : Config Unit Unit := { smallCore with storeToLoadForwarding := true, windowSize := 8 }

/-- A divide that issues before a store of its result and a load of the same address enter. -/
def lateForward : List (List DynamicMicroOp) :=
  [{ computes 28 false with microOp := ⟨.execute, [], [], [0], false, false, false⟩ } :: List.replicate 5 (computes 1 false),
    { computes 1 false with microOp := ⟨.store, [0], [], [], false, false, false⟩, address := 64 } ::
      { computes 1 false with microOp := ⟨.load, [], [], [], false, false, false⟩, address := 64 } ::
      List.replicate 4 (computes 1 false)]

/-- A slow micro-operation that enters with a store of its result and a load of the same address. -/
def soonForward : List (List DynamicMicroOp) :=
  [{ computes 3 false with microOp := ⟨.execute, [], [], [0], false, false, false⟩ } ::
    { computes 1 false with microOp := ⟨.store, [0], [], [], false, false, false⟩, address := 64 } ::
    { computes 1 false with microOp := ⟨.load, [], [], [], false, false, false⟩, address := 64 } ::
    List.replicate 12 (computes 1 false)]

/-- The load that is visited issues, and was forwarded from a store that a micro-operation produces a source of. -/
def forwardedAt (observed : Observed Unit) (visit : Visit Unit Unit) (producer : Nat) : Bool :=
  visit.entry.done = ⊤ && canIssue forwardingCore visit.state visit.loop visit.entry = .issue &&
    observed.entered[visit.entry.uop.sequenceNumber]?.any fun entering => (entering.store forwardingCore).any fun store =>
      observed.entered[store.uop.sequenceNumber]?.any fun stored => decide (stored.pipeline.rob.lowest ≤ producer) &&
        stored.uop.microOp.sourceRegisters.any fun register =>
          lastBefore (DynamicMicroOp.writes register) (stream observed.entered) store.uop.sequenceNumber = some producer

theorem DataThere.producer {observed : Observed Unit} {visit : Visit Unit Unit} {producer : Nat}
    (there : DataThere forwardingCore observed.entered visit) (forwarded : forwardedAt observed visit producer = true) :
    result forwardingCore observed.entered visit.state.pipeline producer ≤ visit.state.now := by
  rw [forwardedAt, Bool.and_eq_true] at forwarded
  obtain ⟨entering, isEntered, forwarded⟩ := (Option.any_eq_true _ _).mp forwarded.2
  obtain ⟨store, isStore, forwarded⟩ := (Option.any_eq_true _ _).mp forwarded
  obtain ⟨stored, isStored, produces⟩ := (Option.any_eq_true _ _).mp forwarded
  obtain ⟨inRob, reads⟩ := Bool.and_eq_true_iff.mp produces
  obtain ⟨register, isRegister, last⟩ := List.any_eq_true.mp reads
  exact there entering store isEntered isStore producer
    ⟨stored, isStored, of_decide_eq_true inRob, .inr ⟨register, isRegister, of_decide_eq_true last⟩⟩

theorem issues_of_forwardedAt {observed : Observed Unit} {visit : Visit Unit Unit} {producer : Nat}
    (forwarded : forwardedAt observed visit producer = true) : visit.Issues forwardingCore := by
  simp only [forwardedAt, Bool.and_eq_true, decide_eq_true_eq] at forwarded
  exact Visit.issues_of_canIssue rfl forwarded.1.1 forwarded.1.2

/-- The load issues long before the divide is done. -/
theorem forwarded_early : ¬ ∀ (config : Config Unit Unit) advance outstandingLoads outstandingStores start supply observed,
    (observation config advance (.initial outstandingLoads outstandingStores start () supply)).Reachable observed →
      ∀ visit, observed.system.Visits config visit → visit.Issues config → DataThere config observed.entered visit := by
  intro always
  have ends : (observation forwardingCore .skipping (.initial 1 1 0 () lateForward)).endsWith (fun _ => true)
      (fun observed => (observed.system.visitAt forwardingCore 7).any fun visit => forwardedAt observed visit 0 &&
        decide ¬result forwardingCore observed.entered visit.state.pipeline 0 ≤ visit.state.now)
      ⟨.initial 1 1 0 () lateForward, []⟩ (List.replicate 6 ()) = true := by
    decide +kernel
  obtain ⟨observed, reached, found⟩ := Machine.Reach.of_endsWith (.initial rfl) (fun _ _ _ => trivial) ends
  obtain ⟨visit, visits, facts⟩ := (Option.any_eq_true _ _).mp found
  obtain ⟨forwarded, early⟩ := Bool.and_eq_true_iff.mp facts
  have there := always forwardingCore .skipping 1 1 0 lateForward observed reached visit (System.visits_of_visitAt visits)
    (issues_of_forwardedAt forwarded)
  exact of_decide_eq_true early (there.producer forwarded)

theorem resultsThere_of_unissued
    (unissued : ∀ entering ∈ entered, (entering.store config).isSome = true → ∀ done ∈ entering.pipeline.dones, done = ⊤) :
    ResultsThere config entered := by
  intro number entering store isEntered forwarded producer _ known
  obtain ⟨-, done, -, isDone, issued⟩ := result_ne_top known
  have isSome : (entering.store config).isSome = true := by rw [forwarded]; rfl
  exact absurd (unissued entering (List.mem_of_getElem? isEntered) isSome done (List.mem_of_getElem? isDone)) issued

/-- The load waits for the slow micro-operation. -/
theorem forwarded_data_soonForward : ∃ observed visit,
    (observation forwardingCore .skipping (.initial 1 1 0 () soonForward)).Reachable observed ∧
      forwardedAt observed visit 0 = true ∧ DataThere forwardingCore observed.entered visit := by
  have ends : (observation forwardingCore .skipping (.initial 1 1 0 () soonForward)).endsWith (fun _ => true)
      (fun observed => ((observed.system.visitAt forwardingCore 2).any fun visit => forwardedAt observed visit 0) &&
        decide (∀ entering ∈ observed.entered, (entering.store forwardingCore).isSome = true →
          ∀ done ∈ entering.pipeline.dones, done = ⊤))
      ⟨.initial 1 1 0 () soonForward, []⟩ (List.replicate 5 ()) = true := by
    decide +kernel
  obtain ⟨observed, reached, facts⟩ := Machine.Reach.of_endsWith (.initial rfl) (fun _ _ _ => trivial) ends
  obtain ⟨found, unissued⟩ := Bool.and_eq_true_iff.mp facts
  obtain ⟨visit, visits, forwarded⟩ := (Option.any_eq_true _ _).mp found
  exact ⟨observed, visit, reached, forwarded, forwarded_data forwardingCore .skipping 1 1 0 () soonForward observed reached
    (resultsThere_of_unissued (of_decide_eq_true unissued)) visit (System.visits_of_visitAt visits) (issues_of_forwardedAt forwarded)⟩

end Sniper.Performance.RobTimer

import Sniper.Performance.Observed

/-! When micro-operations become ready, and when their results are there. -/

namespace Sniper.Performance.RobTimer

variable {Cycle Mem : Type} {config : Config Cycle Mem} {pipeline pipeline' : Pipeline} {entered : List Entering}

/-! ### A move, seen from one entry -/

inductive Change (config : Config Cycle Mem) (pipeline : Pipeline) (index : Nat) (entry : RobEntry) : RobEntry → Prop where
  | same : Change config pipeline index entry entry
  | dispatch : index = pipeline.numInRob → Change config pipeline index entry (entry.dispatch config pipeline.now)
  | issue (execLatency : Nat) (where_ : HitWhere) : pipeline.waking = [] → index < pipeline.numInRob → entry.done = ⊤ →
      entry.ready ≤ pipeline.now → (entry.uop.inOrder = true → OlderIssued pipeline.rob.entries index) →
      Change config pipeline index entry
        (entry.issue config { entry.uop with execLatency := execLatency, dCacheHitWhere := where_ } pipeline.now)
  | wake (issuer : RobEntry) (position : Nat) (rest : List (Nat × Nat)) (woken : RobEntry) :
      pipeline.waking = (issuer.uop.sequenceNumber, entry.uop.sequenceNumber) :: rest → pipeline.rob.entries[position]? = some issuer →
      issuer.done ≠ ⊤ → entry.Wakes pipeline.rob.entries issuer.uop.sequenceNumber (issuer.available config.period) woken →
      Change config pipeline index entry woken

theorem Move.change (move : Move config pipeline pipeline') {index : Nat} {later : RobEntry}
    (found : pipeline'.rob.entries[index]? = some later) :
    ∃ entry, pipeline.rob.entries[index]? = some entry ∧ Change config pipeline index entry later := by
  cases move with
  | dispatch entry none_ room stations there =>
    cases getElem?_set_cases found with
    | inl here =>
      obtain ⟨rfl, rfl⟩ := here
      exact ⟨entry, there, .dispatch rfl⟩
    | inr other => exact ⟨later, other.2, .same⟩
  | issue position entry execLatency where_ none_ inWindow there waiting ready inOrder =>
    cases getElem?_set_cases found with
    | inl here =>
      obtain ⟨rfl, rfl⟩ := here
      exact ⟨entry, there, .issue execLatency where_ none_ inWindow waiting ready inOrder⟩
    | inr other => exact ⟨later, other.2, .same⟩
  | wake issuer position dependant rest place entry woken waking inRob issued there numbered wakes =>
    subst numbered
    cases getElem?_set_cases found with
    | inl here =>
      obtain ⟨rfl, rfl⟩ := here
      exact ⟨entry, there, .wake issuer position rest later waking inRob issued wakes⟩
    | inr other => exact ⟨later, other.2, .same⟩

/-- What no move changes. -/
structure Move.Frame (pipeline pipeline' : Pipeline) : Prop where
  next : pipeline'.rob.nextSequenceNumber = pipeline.rob.nextSequenceNumber
  trackers : pipeline'.rob.trackers = pipeline.rob.trackers
  now : pipeline'.now = pipeline.now
  traced : pipeline'.traced = pipeline.traced
  window : pipeline.numInRob ≤ pipeline'.numInRob

theorem Move.frame (move : Move config pipeline pipeline') : Move.Frame pipeline pipeline' := by
  cases move with
  | dispatch => exact ⟨rfl, rfl, rfl, rfl, Nat.le_succ _⟩
  | issue => exact ⟨rfl, rfl, rfl, rfl, Nat.le_refl _⟩
  | wake => exact ⟨rfl, rfl, rfl, rfl, Nat.le_refl _⟩

theorem Change.later {index : Nat} {entry later : RobEntry} (change : Change config pipeline index entry later) :
    entry.Later later := by
  cases change with
  | same => exact .refl entry
  | dispatch => exact ⟨rfl, rfl, fun _ => rfl⟩
  | issue execLatency where_ none_ inWindow waiting => exact ⟨rfl, rfl, fun issued => absurd waiting issued⟩
  | wake issuer position rest woken waking inRob issued wakes => exact wakes.keeps.later

theorem Change.depends {index producer : Nat} {entry later : RobEntry} (linked : Linked pipeline)
    (change : Change config pipeline index entry later) (there : pipeline.rob.entries[index]? = some entry)
    (member : producer ∈ entry.uop.getDependencies) :
    producer ∈ later.uop.getDependencies ∨ ∃ (position : Nat) (issuer : RobEntry), pipeline.rob.entries[position]? = some issuer ∧
      issuer.uop.sequenceNumber = producer ∧ issuer.done ≠ ⊤ ∧
      entry.Wakes pipeline.rob.entries issuer.uop.sequenceNumber (issuer.available config.period) later := by
  cases change with
  | same => exact .inl member
  | dispatch => exact .inl member
  | issue => exact .inl member
  | wake issuer position rest woken waking inRob issued wakes =>
    by_cases same : producer = issuer.uop.sequenceNumber
    · exact .inr ⟨position, issuer, inRob, same.symm, issued, wakes⟩
    · obtain ⟨uop, drops, isWoken⟩ := wakes.release
      have isUop : later.uop = uop := by
        rw [isWoken]
        rfl
      exact .inl (isUop ▸ drops.kept (linked.proper index entry there) member fun listed => same (List.mem_singleton.mp listed))

/-! ### Results -/

/-- When each micro-operation so far is done, by its sequence number. -/
def Pipeline.dones (pipeline : Pipeline) : List SubsecondTime :=
  pipeline.traced.map (·.done) ++ pipeline.rob.entries.map (·.done)

/-- When the result of a micro-operation is available to dependent ones, once it has issued. -/
def result (config : Config Cycle Mem) (entered : List Entering) (pipeline : Pipeline) (number : Nat) : SubsecondTime :=
  match entered[number]?, pipeline.dones[number]? with
  | some entering, some done => if entering.uop.isStore then done else done.before config.period
  | _, _ => ⊤

theorem SubsecondTime.before_top (period : Nat) : (⊤ : SubsecondTime).before period = ⊤ := rfl

theorem SubsecondTime.before_le (time : SubsecondTime) (period : Nat) : time.before period ≤ time := by
  obtain rfl | ⟨value, rfl⟩ := time.top_or_fs
  · exact le_top
  · exact SubsecondTime.fs_le_fs.mpr (Nat.sub_le value period)

theorem RobEntry.available_le (entry : RobEntry) (period : Nat) : entry.available period ≤ entry.done := by
  rw [RobEntry.available]
  split
  case isTrue => exact le_refl _
  case isFalse => exact SubsecondTime.before_le _ _

theorem RobEntry.available_ne_top {entry : RobEntry} {period : Nat} (issued : entry.done ≠ ⊤) : entry.available period ≠ ⊤ :=
  ne_top_of_le_ne_top issued (entry.available_le period)

def Settled (before after : List SubsecondTime) : Prop :=
  ∀ (number : Nat) (done : SubsecondTime), before[number]? = some done → done ≠ ⊤ → after[number]? = some done

theorem result_ne_top {number : Nat} (known : result config entered pipeline number ≠ ⊤) :
    ∃ entering done, entered[number]? = some entering ∧ pipeline.dones[number]? = some done ∧ done ≠ ⊤ := by
  cases isEntered : entered[number]? with
  | none =>
    rw [result, isEntered] at known
    exact absurd rfl known
  | some entering =>
    cases isDone : pipeline.dones[number]? with
    | none =>
      rw [result, isEntered, isDone] at known
      exact absurd rfl known
    | some done =>
      refine ⟨entering, done, rfl, rfl, fun unissued => ?_⟩
      subst unissued
      rw [result, isEntered, isDone] at known
      dsimp only at known
      rw [SubsecondTime.before_top, ite_self] at known
      exact absurd rfl known

theorem Settled.result_eq {entered' : List Entering} {number : Nat} (settled : Settled pipeline.dones pipeline'.dones)
    (grown : entered <+: entered') (known : result config entered pipeline number ≠ ⊤) :
    result config entered' pipeline' number = result config entered pipeline number := by
  obtain ⟨entering, done, isEntered, isDone, issued⟩ := result_ne_top known
  have isEntered' : entered'[number]? = some entering := by
    obtain ⟨more, rfl⟩ := grown
    rw [List.getElem?_append_left (List.getElem?_eq_some_iff.mp isEntered).1, isEntered]
  rw [result, result, isEntered, isEntered', isDone, settled number done isDone issued]

theorem Settled.refl (dones : List SubsecondTime) : Settled dones dones := fun _ _ isDone _ => isDone

theorem settled_entrywise {related : RobEntry → RobEntry → Prop}
    (entrywise : Entrywise related pipeline.rob.entries pipeline'.rob.entries) (traced : pipeline'.traced = pipeline.traced)
    (kept : ∀ entry later, related entry later → entry.done ≠ ⊤ → later.done = entry.done) :
    Settled pipeline.dones pipeline'.dones := by
  intro number done isDone issued
  rw [Pipeline.dones] at isDone ⊢
  rw [traced]
  by_cases early : number < (pipeline.traced.map UopTimes.done).length
  · rw [List.getElem?_append_left early] at isDone ⊢
    exact isDone
  · rw [List.getElem?_append_right (Nat.le_of_not_lt early), List.getElem?_map] at isDone ⊢
    obtain ⟨entry, there, rfl⟩ := Option.map_eq_some_iff.mp isDone
    obtain ⟨later, there', isLater⟩ := entrywise.new there
    rw [there', Option.map_some, kept entry later isLater issued]

theorem Move.settled (move : Move config pipeline pipeline') : Settled pipeline.dones pipeline'.dones :=
  settled_entrywise move.laterEntries move.frame.traced fun _ _ later => later.done

theorem Commit.dones_eq (commit : Commit pipeline pipeline') : pipeline'.dones = pipeline.dones := by
  cases commit with
  | front front rest none_ isRob done =>
    rw [Pipeline.dones, Pipeline.dones, isRob, List.map_append, List.append_assoc]
    rfl

theorem Commit.settled (commit : Commit pipeline pipeline') : Settled pipeline.dones pipeline'.dones := by
  intro number done isDone _
  rw [commit.dones_eq]
  exact isDone

theorem Inserted.settled {uop tracked needed : DynamicMicroOp} {rob' : Rob} {entry : RobEntry}
    {result : List RobEntry × List Nat × SubsecondTime} (inserted : Inserted config pipeline.rob uop rob' entry tracked needed result) :
    Settled pipeline.dones { pipeline with rob := rob' }.dones := by
  have more : { pipeline with rob := rob' }.dones = pipeline.dones ++ [entry.done] := by
    have same : result.1.map RobEntry.done = pipeline.rob.entries.map RobEntry.done := by
      refine List.ext_getElem? fun index => ?_
      rw [List.getElem?_map, List.getElem?_map]
      cases there : pipeline.rob.entries[index]? with
      | none =>
        have outside := List.getElem?_eq_none_iff.mp there
        rw [List.getElem?_eq_none_iff.mpr (inserted.added.gained.1.symm ▸ outside)]
      | some old =>
        obtain ⟨later, there', gains⟩ := inserted.added.gained.new there
        rw [there', Option.map_some, Option.map_some, (gains_uop gains).2]
    rw [Pipeline.dones, Pipeline.dones, inserted.isRob, List.map_append, same, List.append_assoc]
    rfl
  intro number done isDone _
  rw [more, List.getElem?_append_left (List.getElem?_eq_some_iff.mp isDone).1]
  exact isDone

/-! ### Ready times -/

/-- An entry is ready when its last producer is, but not before it is dispatched; one that still waits for producers is not. -/
structure RobEntry.Timed (period now : Nat) (entry : RobEntry) : Prop where
  known : entry.readyMax ≠ ⊤
  begun : entry.dispatched ≤ now
  waits : entry.uop.getDependencies ≠ [] → entry.ready = ⊤
  least : entry.uop.getDependencies = [] → entry.readyMax ≤ entry.ready
  most : entry.uop.getDependencies = [] → entry.ready ≤ max entry.readyMax (entry.dispatched + period : Nat)

theorem RobEntry.Timed.ready {period now : Nat} {entry : RobEntry} (timed : entry.Timed period now) (ready : entry.ready ≤ now) :
    entry.uop.getDependencies = [] := by
  by_contra some_
  rw [timed.waits some_, top_le_iff] at ready
  exact SubsecondTime.fs_ne_top now ready

theorem RobEntry.Timed.mono {period now later : Nat} {entry : RobEntry} (timed : entry.Timed period now) (le : now ≤ later) :
    entry.Timed period later :=
  ⟨timed.known, Nat.le_trans timed.begun le, timed.waits, timed.least, timed.most⟩

theorem RobEntry.Timed.change {index : Nat} {entry later : RobEntry} (timed : entry.Timed config.period pipeline.now)
    (change : Change config pipeline index entry later) : later.Timed config.period pipeline.now := by
  cases change with
  | same => exact timed
  | dispatch =>
    refine ⟨timed.known, Nat.le_refl _, fun some_ => ?_, fun nothing => ?_, fun nothing => ?_⟩
    · exact max_eq_left_iff.mpr (timed.waits some_ ▸ le_top) |>.trans (timed.waits some_)
    · exact le_trans (timed.least nothing) (le_max_left _ _)
    · have earlier : ((entry.dispatched + config.period : Nat) : SubsecondTime) ≤ (pipeline.now + config.period : Nat) :=
        SubsecondTime.fs_le_fs.mpr (Nat.add_le_add_right timed.begun _)
      exact max_le (le_trans (timed.most nothing) (max_le_max_left _ earlier)) (le_max_right _ _)
  | issue => exact ⟨timed.known, timed.begun, timed.waits, timed.least, timed.most⟩
  | wake issuer position rest woken waking inRob issued wakes =>
    have waited : entry.uop.getDependencies ≠ [] := fun none_ => wakes.1 (DynamicMicroOp.getDependencies_eq_nil.mp none_)
    obtain ⟨uop, drops, isWoken⟩ := wakes.release
    rw [isWoken]
    have latest : max entry.readyMax (issuer.available config.period) ≠ ⊤ := by
      cases max_choice entry.readyMax (issuer.available config.period) with
      | inl first => exact first.symm ▸ timed.known
      | inr second => exact second.symm ▸ RobEntry.available_ne_top issued
    refine ⟨latest, timed.begun, fun some_ => ?_, fun nothing => ?_, fun nothing => ?_⟩
    · exact (if_neg fun none_ => some_ (DynamicMicroOp.getDependencies_eq_nil.mpr none_)).trans (timed.waits waited)
    · exact le_of_eq (if_pos (DynamicMicroOp.getDependencies_eq_nil.mp nothing)).symm
    · exact le_trans (le_of_eq (if_pos (DynamicMicroOp.getDependencies_eq_nil.mp nothing))) (le_max_left _ _)

theorem Inserted.timed {rob rob' : Rob} {uop tracked needed : DynamicMicroOp} {entry : RobEntry} (now : Nat)
    {result : List RobEntry × List Nat × SubsecondTime} (inserted : Inserted config rob uop rob' entry tracked needed result) :
    entry.Timed config.period now := by
  have readyMax : entry.readyMax = result.2.2 := congrArg RobEntry.readyMax inserted.isEntry
  have ready : entry.ready = if entry.uop.getDependenciesLength = 0 then result.2.2 else ⊤ :=
    congrArg RobEntry.ready inserted.isEntry
  have dispatched : entry.dispatched = 0 := congrArg RobEntry.dispatched inserted.isEntry
  refine ⟨?_, dispatched ▸ Nat.zero_le now, fun some_ => ?_, fun nothing => ?_, fun nothing => ?_⟩
  · rw [readyMax]
    cases inserted.added.last with
    | inl zero => exact zero.symm ▸ SubsecondTime.fs_ne_top 0
    | inr last =>
      obtain ⟨index, producer, there, issued, same⟩ := last
      exact same.symm ▸ issued
  · rw [ready, if_neg fun none_ => some_ (DynamicMicroOp.getDependencies_eq_nil.mpr none_)]
  · rw [ready, if_pos (DynamicMicroOp.getDependencies_eq_nil.mp nothing), readyMax]
  · rw [ready, if_pos (DynamicMicroOp.getDependencies_eq_nil.mp nothing), readyMax]
    exact le_max_left _ _

/-! ### What has entered -/

def stream (entered : List Entering) : List DynamicMicroOp := entered.map (·.uop)

theorem entering_last (entered : List Entering) (entering : Entering) : (entered ++ [entering])[entered.length]? = some entering := by
  rw [List.getElem?_append_right (Nat.le_refl _), Nat.sub_self]
  rfl

/-- The ROB, its trackers and its ready times agree with what has entered. -/
structure Coherent (config : Config Cycle Mem) (entered : List Entering) (pipeline : Pipeline) : Prop where
  count : entered.length = pipeline.rob.nextSequenceNumber
  same : ∀ (index : Nat) (entry : RobEntry), pipeline.rob.entries[index]? = some entry →
    ∃ entering, entered[pipeline.traced.length + index]? = some entering ∧ entry.uop.microOp = entering.uop.microOp
  tracks : pipeline.rob.trackers.Tracks (stream entered) entered.length pipeline.rob.lowest
  timed : ∀ (index : Nat) (entry : RobEntry), pipeline.rob.entries[index]? = some entry → entry.Timed config.period pipeline.now
  window : pipeline.numInRob ≤ pipeline.rob.entries.length
  outside : ∀ (index : Nat) (entry : RobEntry), pipeline.rob.entries[index]? = some entry → pipeline.numInRob ≤ index → entry.done = ⊤
  inOrder : ∀ (index : Nat) (entry : RobEntry), pipeline.rob.entries[index]? = some entry → entry.uop.inOrder = true →
    entry.done ≠ ⊤ → OlderIssued pipeline.rob.entries index
  readied : ∀ (index : Nat) (entry : RobEntry), pipeline.rob.entries[index]? = some entry → entry.done ≠ ⊤ →
    entry.ready ≤ pipeline.now
  past : ∀ times ∈ pipeline.traced, times.done ≤ pipeline.now
  lowest : ∀ entering ∈ entered, entering.pipeline.rob.lowest ≤ pipeline.traced.length

theorem lowest_eq (linked : Linked pipeline) : pipeline.rob.lowest = pipeline.traced.length := by
  rw [Rob.lowest]
  cases entries : pipeline.rob.entries with
  | nil =>
    have next := linked.next
    rw [entries] at next
    exact next
  | cons front rest =>
    have numbered := linked.numbered 0 front
    rw [entries] at numbered
    exact numbered rfl

section Insert

variable {uop tracked needed : DynamicMicroOp} {rob' : Rob} {entry : RobEntry} {result : List RobEntry × List Nat × SubsecondTime}

theorem Coherent.setDependencies (coherent : Coherent config entered pipeline)
    (inserted : Inserted config pipeline.rob uop rob' entry tracked needed result) :
    rob'.trackers.Tracks (stream entered ++ [uop]) (entered.length + 1) pipeline.rob.lowest ∧
      tracked = ({ uop with sequenceNumber := entered.length } : DynamicMicroOp).gains
        (Trackers.producers (stream entered ++ [uop]) entered.length pipeline.rob.lowest uop) := by
  have length : (stream entered).length = entered.length := List.length_map _
  have there : (stream entered ++ [uop])[entered.length]? = some uop := by
    rw [List.getElem?_append_right (Nat.le_of_eq length), length, Nat.sub_self]
    rfl
  have tracks := coherent.tracks.append [uop] (Nat.le_of_eq length.symm)
  have trackers := inserted.trackers
  rw [← coherent.count] at trackers
  exact (Trackers.setDependencies_meets tracks there).of_ok trackers

theorem Inserted.needed_eq {rob : Rob} (inserted : Inserted config rob uop rob' entry tracked needed result)
    (isStore : uop.isStore = true) : needed = tracked := by
  obtain ⟨numbers, isTracked⟩ := inserted.isTracked
  have load : tracked.isLoad = false := by
    rw [isTracked]
    simp only [DynamicMicroOp.isStore, DynamicMicroOp.isLoad, MicroOp.isStore, MicroOp.isLoad, decide_eq_true_eq] at isStore ⊢
    show decide (uop.microOp.uopType = .load) = false
    rw [isStore]
    rfl
  have forwarded := inserted.forwarded
  rw [forwardedStore, load, Bool.and_false] at forwarded
  exact forwarded

theorem Inserted.stays {rob : Rob} {index : Nat} {producer : RobEntry}
    (inserted : Inserted config rob uop rob' entry tracked needed result) (there : rob.entries[index]? = some producer)
    (waiting : producer.done = ⊤) (member : producer.uop.sequenceNumber ∈ needed.getDependencies) :
    producer.uop.sequenceNumber ∈ entry.uop.getDependencies := by
  refine inserted.drops.kept inserted.proper member fun removed => ?_
  have count := inserted.added.removed index producer there
  rw [if_pos waiting] at count
  exact absurd (List.count_pos_iff.mpr removed) (count ▸ Nat.lt_irrefl 0)

theorem Coherent.insert (linked : Linked pipeline) (none_ : pipeline.waking = [])
    (coherent : Coherent config entered pipeline) (inserted : Inserted config pipeline.rob uop rob' entry tracked needed result) :
    Coherent config (entered ++ [⟨pipeline, uop⟩]) { pipeline with rob := rob' } := by
  have linked' := linked.insert none_ inserted
  have isLast : entered.length = pipeline.traced.length + pipeline.rob.entries.length := coherent.count.trans linked.next
  have isStream : stream (entered ++ [⟨pipeline, uop⟩]) = stream entered ++ [uop] := List.map_append
  refine ⟨?_, fun index later found => ?_, ?_, fun index later found => ?_, ?_, fun index later found outside => ?_,
    fun index later found inOrder issued => ?_, fun index later found issued => ?_, coherent.past, fun entering member => ?_⟩
  · rw [List.length_append, coherent.count, inserted.next]
    rfl
  · cases inserted.cases found with
    | inl before =>
      obtain ⟨old, there, gains⟩ := before
      obtain ⟨entering, isEntered, same⟩ := coherent.same index old there
      refine ⟨entering, ?_, (congrArg DynamicMicroOp.microOp (gains_uop gains).1).trans same⟩
      rw [List.getElem?_append_left (List.getElem?_eq_some_iff.mp isEntered).1, isEntered]
    | inr new =>
      obtain ⟨rfl, rfl⟩ := new
      refine ⟨⟨pipeline, uop⟩, ?_, inserted.microOp⟩
      rw [← isLast]
      exact entering_last entered _
  · have next := (coherent.setDependencies inserted).1
    rw [isStream, List.length_append, lowest_eq linked']
    rw [lowest_eq linked] at next
    exact next
  · cases inserted.cases found with
    | inl before =>
      obtain ⟨old, there, gains⟩ := before
      have timed := coherent.timed index old there
      rw [gains]
      exact ⟨timed.known, timed.begun, timed.waits, timed.least, timed.most⟩
    | inr new =>
      obtain ⟨rfl, rfl⟩ := new
      exact inserted.timed pipeline.now
  · dsimp only
    rw [inserted.length]
    exact Nat.le_succ_of_le coherent.window
  · cases inserted.cases found with
    | inl before =>
      obtain ⟨old, there, gains⟩ := before
      rw [(gains_uop gains).2]
      exact coherent.outside index old there outside
    | inr new =>
      obtain ⟨rfl, rfl⟩ := new
      rw [inserted.isEntry]
      rfl
  · cases inserted.cases found with
    | inl before =>
      obtain ⟨old, there, gains⟩ := before
      rw [(gains_uop gains).1] at inOrder
      rw [(gains_uop gains).2] at issued
      intro older other isOlder found'
      cases inserted.cases found' with
      | inl before =>
        obtain ⟨old', there', gains'⟩ := before
        rw [(gains_uop gains').2]
        exact coherent.inOrder index old there inOrder issued older old' isOlder there'
      | inr new =>
        obtain ⟨rfl, rfl⟩ := new
        exact absurd isOlder (Nat.not_lt_of_lt (List.getElem?_eq_some_iff.mp there).1)
    | inr new =>
      obtain ⟨rfl, rfl⟩ := new
      rw [inserted.isEntry] at issued
      exact absurd rfl issued
  · cases inserted.cases found with
    | inl before =>
      obtain ⟨old, there, gains⟩ := before
      rw [gains] at issued ⊢
      exact coherent.readied index old there issued
    | inr new =>
      obtain ⟨rfl, rfl⟩ := new
      rw [inserted.isEntry] at issued
      exact absurd rfl issued
  · cases List.mem_append.mp member with
    | inl before => exact coherent.lowest entering before
    | inr last =>
      rw [List.mem_singleton.mp last]
      exact Nat.le_of_eq (lowest_eq linked)

end Insert

theorem Coherent.move (linked : Linked pipeline) (coherent : Coherent config entered pipeline) (move : Move config pipeline pipeline') :
    Coherent config entered pipeline' := by
  have linked' := linked.move move
  obtain ⟨next, trackers, now, traced, window⟩ := move.frame
  refine ⟨coherent.count.trans next.symm, fun index later found => ?_, ?_, fun index later found => ?_, ?_, fun index later found outside => ?_,
    fun index later found inOrder issued => ?_, fun index later found issued => ?_, ?_, ?_⟩
  · obtain ⟨entry, there, change⟩ := move.change found
    obtain ⟨entering, isEntered, same⟩ := coherent.same index entry there
    exact ⟨entering, traced ▸ isEntered, change.later.microOp.trans same⟩
  · rw [trackers, lowest_eq linked', traced, ← lowest_eq linked]
    exact coherent.tracks
  · obtain ⟨entry, there, change⟩ := move.change found
    rw [now]
    exact (coherent.timed index entry there).change change
  · rw [move.laterEntries.1]
    cases move with
    | dispatch entry none_ room stations there => exact (List.getElem?_eq_some_iff.mp there).1
    | issue => exact coherent.window
    | wake => exact coherent.window
  · obtain ⟨entry, there, change⟩ := move.change found
    have waiting := coherent.outside index entry there (Nat.le_trans window outside)
    cases change with
    | same => exact waiting
    | dispatch => exact waiting
    | issue execLatency where_ none_ inWindow => exact absurd inWindow (Nat.not_lt_of_le (Nat.le_trans window outside))
    | wake issuer position rest woken waking inRob issued wakes => exact wakes.keeps.done.trans waiting
  · obtain ⟨entry, there, change⟩ := move.change found
    have isInOrder : entry.uop.inOrder = true := by
      have same := change.later.microOp
      rw [DynamicMicroOp.inOrder, DynamicMicroOp.barrier, DynamicMicroOp.isStore, same] at inOrder
      exact inOrder
    have before : OlderIssued pipeline.rob.entries index := by
      cases change with
      | same => exact coherent.inOrder index later there isInOrder issued
      | dispatch => exact coherent.inOrder index entry there isInOrder issued
      | issue execLatency where_ none_ inWindow waiting ready older => exact older isInOrder
      | wake issuer position rest woken waking inRob issued' wakes =>
        exact coherent.inOrder index entry there isInOrder (wakes.keeps.done ▸ issued)
    exact before.later move.laterEntries
  · obtain ⟨entry, there, change⟩ := move.change found
    rw [now]
    cases change with
    | same => exact coherent.readied index later there issued
    | dispatch outside =>
      exact absurd (coherent.outside index entry there (Nat.le_of_eq outside.symm)) issued
    | issue execLatency where_ none_ inWindow waiting ready => exact ready
    | wake issuer position rest woken waking inRob issued' wakes =>
      have ready := coherent.readied index entry there (wakes.keeps.done ▸ issued)
      have nothing := (coherent.timed index entry there).ready ready
      exact absurd (DynamicMicroOp.getDependencies_eq_nil.mp nothing) wakes.1
  · rw [traced, now]
    exact coherent.past
  · rw [traced]
    exact coherent.lowest

theorem Coherent.commit (linked : Linked pipeline) (coherent : Coherent config entered pipeline) (commit : Commit pipeline pipeline') :
    Coherent config entered pipeline' := by
  have linked' := linked.commit commit
  cases commit with
  | front front rest none_ isRob done =>
    have later {index : Nat} {entry : RobEntry} (found : rest[index]? = some entry) :
        pipeline.rob.entries[index + 1]? = some entry := by
      rw [isRob]
      exact found
    have length : (pipeline.traced ++ [front.times pipeline.now]).length = pipeline.traced.length + 1 := List.length_append
    refine ⟨coherent.count, fun index entry found => ?_, ?_, fun index entry found => coherent.timed (index + 1) entry (later found),
      ?_, fun index entry found outside => coherent.outside (index + 1) entry (later found) (Nat.sub_le_iff_le_add.mp outside),
      fun index entry found inOrder issued => ?_, fun index entry found => coherent.readied (index + 1) entry (later found),
      fun times member => ?_,
      fun entering member => Nat.le_trans (coherent.lowest entering member) (length ▸ Nat.le_succ _)⟩
    · obtain ⟨entering, isEntered, same⟩ := coherent.same (index + 1) entry (later found)
      refine ⟨entering, ?_, same⟩
      rw [length, Nat.add_assoc, Nat.add_comm 1]
      exact isEntered
    · refine coherent.tracks.mono ?_
      rw [lowest_eq linked, lowest_eq linked', length]
      exact Nat.le_succ _
    · have window := coherent.window
      rw [isRob, List.length_cons] at window
      exact Nat.sub_le_of_le_add window
    · intro older other isOlder found'
      exact coherent.inOrder (index + 1) entry (later found) inOrder issued (older + 1) other (Nat.succ_lt_succ isOlder) (later found')
    · cases List.mem_append.mp member with
      | inl before => exact coherent.past times before
      | inr last =>
        rw [List.mem_singleton.mp last]
        exact done

theorem coherent_keeps : Keeps config (Coherent config) where
  insert := fun linked none_ coherent _ inserted => coherent.insert linked none_ inserted
  move := fun linked coherent move => coherent.move linked move
  commit := fun linked coherent commit => coherent.commit linked commit
  tick := fun coherent later => by
    have le := Nat.le_trans (Nat.le_add_right _ _) later
    refine ⟨coherent.count, coherent.same, coherent.tracks, fun index entry found => (coherent.timed index entry found).mono le,
      coherent.window, coherent.outside, coherent.inOrder, fun index entry found issued => ?_, fun times member => ?_, coherent.lowest⟩
    · exact le_trans (coherent.readied index entry found issued) (SubsecondTime.fs_le_fs.mpr le)
    · exact le_trans (coherent.past times member) (SubsecondTime.fs_le_fs.mpr le)

theorem coherent_initial (config : Config Cycle Mem) (outstandingLoads outstandingStores start : Nat) (memory : Mem) :
    Coherent config [] (State.initial outstandingLoads outstandingStores start memory).pipeline where
  count := rfl
  same := fun _ _ found => by cases found
  tracks := Trackers.tracks_initial []
  timed := fun _ _ found => by cases found
  window := Nat.le_refl 0
  outside := fun _ _ found => by cases found
  inOrder := fun _ _ found => by cases found
  readied := fun _ _ found => by cases found
  past := fun _ member => by cases member
  lowest := fun _ member => by cases member

theorem Coherent.inWindow {index : Nat} {entry : RobEntry} (coherent : Coherent config entered pipeline)
    (there : pipeline.rob.entries[index]? = some entry) (issued : entry.done ≠ ⊤) : index < pipeline.numInRob := by
  by_contra outside
  exact issued (coherent.outside index entry there (Nat.le_of_not_lt outside))

theorem Coherent.result_entry {index : Nat} {entry : RobEntry} (coherent : Coherent config entered pipeline)
    (there : pipeline.rob.entries[index]? = some entry) :
    result config entered pipeline (pipeline.traced.length + index) = entry.available config.period := by
  obtain ⟨entering, isEntered, same⟩ := coherent.same index entry there
  have isDone : pipeline.dones[pipeline.traced.length + index]? = some entry.done := by
    have length : (pipeline.traced.map UopTimes.done).length = pipeline.traced.length := List.length_map _
    rw [Pipeline.dones, List.getElem?_append_right (length ▸ Nat.le_add_right _ _), length, Nat.add_sub_cancel_left, List.getElem?_map,
      there]
    rfl
  have isStore : entry.uop.isStore = entering.uop.isStore := congrArg MicroOp.isStore same
  rw [result, isEntered, isDone, RobEntry.available, isStore]

theorem Coherent.result_issued {index : Nat} {issuer : RobEntry} (linked : Linked pipeline) (coherent : Coherent config entered pipeline)
    (there : pipeline.rob.entries[index]? = some issuer) (issued : issuer.done ≠ ⊤) :
    result config entered pipeline issuer.uop.sequenceNumber = issuer.available config.period ∧
      result config entered pipeline issuer.uop.sequenceNumber ≠ ⊤ := by
  rw [linked.numbered index issuer there, coherent.result_entry there]
  exact ⟨rfl, RobEntry.available_ne_top issued⟩

theorem Coherent.result_traced {number : Nat} (linked : Linked pipeline) (coherent : Coherent config entered pipeline)
    (committed : number < pipeline.traced.length) : result config entered pipeline number ≤ pipeline.now := by
  have isDone : pipeline.dones[number]? = some pipeline.traced[number].done := by
    rw [Pipeline.dones, List.getElem?_append_left ((List.length_map UopTimes.done).symm ▸ committed), List.getElem?_map,
      List.getElem?_eq_getElem committed]
    rfl
  have count := coherent.count.trans linked.next
  have within : number < entered.length := by omega
  have early := coherent.past _ (List.getElem_mem committed)
  rw [result, List.getElem?_eq_getElem within, isDone]
  dsimp only
  split
  case isTrue => exact early
  case isFalse => exact le_trans (SubsecondTime.before_le _ _) early

theorem Coherent.number_lt {index : Nat} {entry : RobEntry} (linked : Linked pipeline) (coherent : Coherent config entered pipeline)
    (there : pipeline.rob.entries[index]? = some entry) : entry.uop.sequenceNumber < entered.length := by
  have within := (List.getElem?_eq_some_iff.mp there).1
  rw [linked.numbered index entry there, coherent.count, linked.next]
  exact Nat.add_lt_add_left within _

end Sniper.Performance.RobTimer

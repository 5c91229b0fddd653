import Sniper.Performance.Readiness

/-! The dependencies of memory operations on the memory barriers before them. -/

namespace Sniper.Performance

theorem DynamicMicroOp.inOrder_of_isMembar {uop : DynamicMicroOp} (membar : uop.isMembar = true) : uop.inOrder = true := by
  simp only [isMembar, Bool.and_eq_true] at membar
  rw [inOrder, barrier, membar.2, Bool.or_true, Bool.true_or]

namespace RobTimer

variable {Cycle Mem : Type} {config : Config Cycle Mem} {pipeline pipeline' : Pipeline} {entered : List Entering}

/-- A memory operation or barrier depends on a barrier that is not before an unissued one; the barrier at the front may be missed. -/
def BehindBarrier (entries : List RobEntry) (first index : Nat) (entry : RobEntry) : Prop :=
  first = 0 ∨ ∃ (middle : Nat) (barrier : RobEntry), first ≤ middle ∧ middle < index ∧ entries[middle]? = some barrier ∧
    barrier.uop.isMembar = true ∧ barrier.uop.sequenceNumber ∈ entry.uop.getDependencies

structure Barriers (config : Config Cycle Mem) (entered : List Entering) (pipeline : Pipeline) : Prop where
  coherent : Coherent config entered pipeline
  /-- The latest of the known results is there, or its producer is still in the ROB. -/
  early : ∀ (index : Nat) (entry : RobEntry), pipeline.rob.entries[index]? = some entry → entry.readyMax ≤ pipeline.now ∨
    ∃ (older : Nat) (issuer : RobEntry), older < index ∧ pipeline.rob.entries[older]? = some issuer ∧ issuer.done ≠ ⊤ ∧
      entry.readyMax ≤ issuer.done
  behind : ∀ (first index : Nat) (barrier entry : RobEntry), first < index → pipeline.rob.entries[first]? = some barrier →
    pipeline.rob.entries[index]? = some entry → barrier.uop.isMembar = true → barrier.done = ⊤ → entry.uop.ordered = true →
    BehindBarrier pipeline.rob.entries first index entry

theorem Coherent.barrier_waits {first middle : Nat} {barrier other : RobEntry} (coherent : Coherent config entered pipeline)
    (there : pipeline.rob.entries[first]? = some barrier) (waiting : barrier.done = ⊤) (le : first ≤ middle)
    (found : pipeline.rob.entries[middle]? = some other) (membar : other.uop.isMembar = true) : other.done = ⊤ := by
  cases Nat.eq_or_lt_of_le le with
  | inl same =>
    subst same
    cases there.symm.trans found
    exact waiting
  | inr before =>
    by_contra issued
    have older := coherent.inOrder middle other found (DynamicMicroOp.inOrder_of_isMembar membar) issued
    exact older first barrier before there waiting

theorem isMembar_of_microOp {uop uop' : DynamicMicroOp} (same : uop'.microOp = uop.microOp) : uop'.isMembar = uop.isMembar := by
  simp only [DynamicMicroOp.isMembar, DynamicMicroOp.isLoad, DynamicMicroOp.isStore, same]

theorem ordered_of_microOp {uop uop' : DynamicMicroOp} (same : uop'.microOp = uop.microOp) : uop'.ordered = uop.ordered := by
  simp only [DynamicMicroOp.ordered, DynamicMicroOp.isLoad, DynamicMicroOp.isStore, same]

theorem BehindBarrier.of_later {entries entries' : List RobEntry} {first index : Nat} {entry later : RobEntry}
    (behind : BehindBarrier entries first index entry)
    (kept : ∀ (position : Nat) (other : RobEntry), entries[position]? = some other → ∃ other', entries'[position]? = some other' ∧
      other'.uop.microOp = other.uop.microOp ∧ other'.uop.sequenceNumber = other.uop.sequenceNumber)
    (stays : ∀ (middle : Nat) (barrier : RobEntry), first ≤ middle → entries[middle]? = some barrier → barrier.uop.isMembar = true →
      barrier.uop.sequenceNumber ∈ entry.uop.getDependencies → barrier.uop.sequenceNumber ∈ later.uop.getDependencies) :
    BehindBarrier entries' first index later := by
  refine behind.imp_right fun depends => ?_
  obtain ⟨middle, barrier, le, before, there, membar, member⟩ := depends
  obtain ⟨barrier', found, microOp, number⟩ := kept middle barrier there
  refine ⟨middle, barrier', le, before, found, (isMembar_of_microOp microOp).trans membar, ?_⟩
  rw [number]
  exact stays middle barrier le there membar member

/-! ### Moves -/

theorem Barriers.move (linked : Linked pipeline) (barriers : Barriers config entered pipeline) (move : Move config pipeline pipeline') :
    Barriers config entered pipeline' := by
  have coherent := barriers.coherent
  refine ⟨coherent.move linked move, fun index later found => ?_, fun first index barrier later before there found membar waiting ordered => ?_⟩
  · obtain ⟨entry, there, change⟩ := move.change found
    have known (same : later.readyMax = entry.readyMax) : later.readyMax ≤ pipeline'.now ∨
        ∃ (older : Nat) (issuer : RobEntry), older < index ∧ pipeline'.rob.entries[older]? = some issuer ∧ issuer.done ≠ ⊤ ∧
          later.readyMax ≤ issuer.done := by
      rw [same, move.frame.now]
      refine (barriers.early index entry there).imp_right fun waits => ?_
      obtain ⟨older, issuer, before, inRob, issued, early⟩ := waits
      obtain ⟨issuer', inRob', isLater⟩ := move.laterEntries.new inRob
      exact ⟨older, issuer', before, inRob', isLater.done issued ▸ issued, isLater.done issued ▸ early⟩
    cases change with
    | same => exact known rfl
    | dispatch => exact known rfl
    | issue => exact known rfl
    | wake issuer position rest woken waking inRob issued wakes =>
      obtain ⟨uop, drops, isWoken⟩ := wakes.release
      have readyMax : later.readyMax = max entry.readyMax (issuer.available config.period) := by
        rw [isWoken]
        rfl
      cases max_choice entry.readyMax (issuer.available config.period) with
      | inl first => exact known (readyMax.trans first)
      | inr second =>
        obtain ⟨issuer', inRob', isLater⟩ := move.laterEntries.new inRob
        have younger := (linked.waking _ (waking ▸ List.mem_cons_self)).1
        rw [linked.numbered position issuer inRob, linked.numbered index entry there] at younger
        refine .inr ⟨position, issuer', Nat.lt_of_add_lt_add_left younger, inRob', isLater.done issued ▸ issued, ?_⟩
        rw [readyMax, second, isLater.done issued]
        exact issuer.available_le config.period
  · obtain ⟨barrierBefore, wasThere, isBarrier⟩ := move.laterEntries.old there
    obtain ⟨entry, wasFound, change⟩ := move.change found
    have wasMembar := (isMembar_of_microOp isBarrier.microOp).symm.trans membar
    have unissued : barrierBefore.done = ⊤ := by
      by_contra issued
      exact issued ((isBarrier.done issued).symm.trans waiting)
    have wasOrdered := (ordered_of_microOp change.later.microOp).symm.trans ordered
    refine (barriers.behind first index barrierBefore entry before wasThere wasFound wasMembar unissued wasOrdered).of_later
      (fun position other inRob => ?_) fun middle other le inRob isMembar member => ?_
    · obtain ⟨other', inRob', isLater⟩ := move.laterEntries.new inRob
      exact ⟨other', inRob', isLater.microOp, isLater.sequenceNumber⟩
    · have otherWaits := coherent.barrier_waits wasThere unissued le inRob isMembar
      refine (change.depends linked wasFound member).resolve_right fun woken => ?_
      obtain ⟨position, issuer, inRob', number, issued, -⟩ := woken
      cases linked.numbered.unique inRob' inRob number
      cases inRob'.symm.trans inRob
      exact issued otherWaits

theorem Barriers.commit (linked : Linked pipeline) (barriers : Barriers config entered pipeline) (commit : Commit pipeline pipeline') :
    Barriers config entered pipeline' := by
  have coherent := barriers.coherent.commit linked commit
  cases commit with
  | front front rest none_ isRob done =>
    have later {index : Nat} {entry : RobEntry} (found : rest[index]? = some entry) :
        pipeline.rob.entries[index + 1]? = some entry := by
      rw [isRob]
      exact found
    have earlier {index : Nat} {entry : RobEntry} (found : pipeline.rob.entries[index + 1]? = some entry) : rest[index]? = some entry := by
      rw [isRob] at found
      exact found
    refine ⟨coherent, fun index entry found => ?_, fun first index barrier entry before there found membar waiting ordered => ?_⟩
    · cases barriers.early (index + 1) entry (later found) with
      | inl now => exact .inl now
      | inr waits =>
        obtain ⟨older, issuer, before, inRob, issued, early⟩ := waits
        cases older with
        | zero =>
          rw [isRob] at inRob
          cases inRob
          exact .inl (le_trans early done)
        | succ older => exact .inr ⟨older, issuer, Nat.lt_of_succ_lt_succ before, earlier inRob, issued, early⟩
    · cases barriers.behind (first + 1) (index + 1) barrier entry (Nat.succ_lt_succ before) (later there) (later found) membar waiting
          ordered with
      | inl front => cases front
      | inr depends =>
        obtain ⟨middle, other, le, within, inRob, isMembar, member⟩ := depends
        cases middle with
        | zero => cases le
        | succ middle =>
          exact .inr ⟨middle, other, Nat.le_of_succ_le_succ le, Nat.lt_of_succ_lt_succ within, earlier inRob, isMembar, member⟩

/-! ### New micro-operations -/

section Insert

variable {uop tracked needed : DynamicMicroOp} {rob' : Rob} {entry : RobEntry} {looked : List RobEntry × List Nat × SubsecondTime}

/-- A new memory operation or barrier depends on the last barrier, if that has not issued and is not the oldest entry. -/
theorem Inserted.barrier {middle : Nat} {barrier : RobEntry} (linked : Linked pipeline) (coherent : Coherent config entered pipeline)
    (inserted : Inserted config pipeline.rob uop rob' entry tracked needed looked) (ordered : uop.ordered = true)
    (there : pipeline.rob.entries[middle]? = some barrier) (membar : barrier.uop.isMembar = true) (waiting : barrier.done = ⊤)
    (last : lastBefore DynamicMicroOp.isMembar (stream entered ++ [uop]) entered.length = some (pipeline.traced.length + middle))
    (behind : 0 < middle) : barrier.uop.sequenceNumber ∈ entry.uop.getDependencies := by
  have number := linked.numbered middle barrier there
  have listed : barrier.uop.sequenceNumber ∈ tracked.dependencies := by
    rw [(coherent.setDependencies inserted).2, number]
    refine DynamicMicroOp.mem_withDependencies.mpr (.inr (List.mem_append_right _ (Trackers.mem_memoryProducers.mpr (.inr ?_))))
    refine ⟨ordered, last, ?_⟩
    rw [lowest_eq linked]
    exact Nat.lt_add_of_pos_right behind
  refine inserted.stays there waiting (List.mem_append_right _ (inserted.forwarded.listed listed fun store isStore same => ?_))
  obtain ⟨store', index, inRob⟩ := forwardedStore_mem isStore
  cases linked.numbered.unique there inRob same
  cases there.symm.trans inRob
  simp [DynamicMicroOp.isMembar, store'] at membar

theorem Inserted.behind {first : Nat} {barrier : RobEntry} (linked : Linked pipeline) (coherent : Coherent config entered pipeline)
    (inserted : Inserted config pipeline.rob uop rob' entry tracked needed looked) (ordered : uop.ordered = true)
    (there : pipeline.rob.entries[first]? = some barrier) (membar : barrier.uop.isMembar = true) (waiting : barrier.done = ⊤) :
    BehindBarrier pipeline.rob.entries first pipeline.rob.entries.length entry := by
  have length : (stream entered).length = entered.length := List.length_map _
  have count : entered.length = pipeline.traced.length + pipeline.rob.entries.length := coherent.count.trans linked.next
  have within := (List.getElem?_eq_some_iff.mp there).1
  -- The entry of a micro-operation of the stream.
  have inStream {index : Nat} {uop' : DynamicMicroOp} (isEntered : (stream entered ++ [uop])[index]? = some uop') (before : index < entered.length) :
      ∃ entering, entered[index]? = some entering ∧ entering.uop = uop' := by
    rw [List.getElem?_append_left (length.symm ▸ before), stream, List.getElem?_map] at isEntered
    exact Option.map_eq_some_iff.mp isEntered
  obtain ⟨entering, isEntered, same⟩ := coherent.same first barrier there
  have inStream' : (stream entered ++ [uop])[pipeline.traced.length + first]? = some entering.uop := by
    rw [List.getElem?_append_left (by omega), stream, List.getElem?_map, isEntered]
    rfl
  have isMembar : entering.uop.isMembar = true := (isMembar_of_microOp same).symm.trans membar
  have before : pipeline.traced.length + first < entered.length := by omega
  obtain ⟨producer, last⟩ := lastBefore_exists before inStream' isMembar
  have atLeast := lastBefore_last last before inStream' isMembar
  have early := lastBefore_lt last
  obtain ⟨uop', isUop, isMembar'⟩ := lastBefore_passes last
  obtain ⟨entering', isEntered', rfl⟩ := inStream isUop early
  obtain ⟨middle, rfl⟩ : ∃ middle, producer = pipeline.traced.length + middle := ⟨producer - pipeline.traced.length, by omega⟩
  have inRob : middle < pipeline.rob.entries.length := by omega
  have found := List.getElem?_eq_getElem inRob
  obtain ⟨entering'', isEntered'', same'⟩ := coherent.same middle _ found
  cases isEntered'.symm.trans isEntered''
  have membar' := (isMembar_of_microOp same').trans isMembar'
  have le : first ≤ middle := Nat.le_of_add_le_add_left atLeast
  cases Nat.eq_zero_or_pos middle with
  | inl front => exact .inl (Nat.le_zero.mp (front ▸ le))
  | inr behind =>
    have waits := coherent.barrier_waits there waiting le found membar'
    exact .inr ⟨middle, _, le, inRob, found, membar', inserted.barrier linked coherent ordered found membar' waits last behind⟩

theorem Barriers.insert (linked : Linked pipeline) (none_ : pipeline.waking = []) (barriers : Barriers config entered pipeline)
    (inserted : Inserted config pipeline.rob uop rob' entry tracked needed looked) :
    Barriers config (entered ++ [⟨pipeline, uop⟩]) { pipeline with rob := rob' } := by
  have coherent := barriers.coherent
  have kept (position : Nat) (other : RobEntry) (there : pipeline.rob.entries[position]? = some other) :
      ∃ other', rob'.entries[position]? = some other' ∧ other'.uop.microOp = other.uop.microOp ∧
        other'.uop.sequenceNumber = other.uop.sequenceNumber := by
    obtain ⟨other', found, gains⟩ := inserted.old there
    have same := (gains_uop gains).1
    exact ⟨other', found, congrArg DynamicMicroOp.microOp same, congrArg DynamicMicroOp.sequenceNumber same⟩
  refine ⟨coherent.insert linked none_ inserted, fun index later found => ?_,
    fun first index barrier later before there found membar waiting ordered => ?_⟩
  · have issuers {readyMax : SubsecondTime} {index : Nat} (waits : ∃ (older : Nat) (issuer : RobEntry), older < index ∧
        pipeline.rob.entries[older]? = some issuer ∧ issuer.done ≠ ⊤ ∧ readyMax ≤ issuer.done) :
        ∃ (older : Nat) (issuer : RobEntry), older < index ∧ rob'.entries[older]? = some issuer ∧ issuer.done ≠ ⊤ ∧
          readyMax ≤ issuer.done := by
      obtain ⟨older, issuer, before, inRob, issued, early⟩ := waits
      obtain ⟨issuer', inRob', gains⟩ := inserted.old inRob
      exact ⟨older, issuer', before, inRob', (gains_uop gains).2 ▸ issued, (gains_uop gains).2 ▸ early⟩
    cases inserted.cases found with
    | inl old =>
      obtain ⟨old, there, gains⟩ := old
      have same : later.readyMax = old.readyMax := by rw [gains]; rfl
      rw [same]
      exact (barriers.early index old there).imp_right issuers
    | inr new =>
      obtain ⟨rfl, rfl⟩ := new
      have readyMax : later.readyMax = looked.2.2 := congrArg RobEntry.readyMax inserted.isEntry
      rw [readyMax]
      cases inserted.added.last with
      | inl zero => exact .inl (zero.symm ▸ SubsecondTime.fs_le_fs.mpr (Nat.zero_le _))
      | inr last =>
        obtain ⟨older, issuer, inRob, issued, same⟩ := last
        exact .inr (issuers ⟨older, issuer, (List.getElem?_eq_some_iff.mp inRob).1, inRob, issued, le_of_eq same⟩)
  · have within : first < pipeline.rob.entries.length := by
      have last := (List.getElem?_eq_some_iff.mp found).1
      rw [inserted.length] at last
      omega
    have old := (inserted.cases there).resolve_right fun new => absurd new.1 (Nat.ne_of_lt within)
    obtain ⟨barrierBefore, wasThere, gains⟩ := old
    rw [(gains_uop gains).1] at membar
    rw [(gains_uop gains).2] at waiting
    cases inserted.cases found with
    | inl old =>
      obtain ⟨old, wasFound, gains'⟩ := old
      rw [(gains_uop gains').1] at ordered
      refine (barriers.behind first index barrierBefore old before wasThere wasFound membar waiting ordered).of_later kept
        fun middle other le inRob isMembar member => ?_
      rw [(gains_uop gains').1]
      exact member
    | inr new =>
      obtain ⟨rfl, rfl⟩ := new
      have isOrdered := (ordered_of_microOp inserted.microOp).symm.trans ordered
      exact (inserted.behind linked coherent isOrdered wasThere membar waiting).of_later kept fun middle other le inRob isMembar member => member

end Insert

theorem barriers_keeps : Keeps config (Barriers config) where
  insert := fun linked none_ barriers _ inserted => barriers.insert linked none_ inserted
  move := fun linked barriers move => barriers.move linked move
  commit := fun linked barriers commit => barriers.commit linked commit
  tick := fun barriers le => by
    refine ⟨coherent_keeps.tick barriers.coherent le, fun index entry found => ?_, barriers.behind⟩
    have now := SubsecondTime.fs_le_fs.mpr (Nat.le_trans (Nat.le_add_right _ _) le)
    exact (barriers.early index entry found).imp_left fun early => le_trans early now

theorem barriers_initial (config : Config Cycle Mem) (outstandingLoads outstandingStores start : Nat) (memory : Mem) :
    Barriers config [] (State.initial outstandingLoads outstandingStores start memory).pipeline where
  coherent := coherent_initial ..
  early := fun _ _ found => by cases found
  behind := fun _ _ _ _ _ there => by cases there

end RobTimer

end Sniper.Performance

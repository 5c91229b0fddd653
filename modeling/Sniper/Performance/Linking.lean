import Sniper.Performance.Insertion

/-! Every dependency of a micro-operation in the ROB is known to the micro-operation that it is on. -/

namespace Sniper.Performance.RobTimer

variable {Cycle Mem : Type} {config : Config Cycle Mem} {pipeline pipeline' : Pipeline}

/-- The producer wakes the entry as often as the entry depends on it: it is doing so, or has the entry among its dependants. -/
def Promised (pipeline : Pipeline) (producer : Nat) (entry : RobEntry) : Prop :=
  entry.uop.getDependencies.count producer ≤ pipeline.waking.count (producer, entry.uop.sequenceNumber) ∨
    ∃ (index : Nat) (issuer : RobEntry), pipeline.rob.entries[index]? = some issuer ∧ issuer.uop.sequenceNumber = producer ∧
      issuer.done = ⊤ ∧ entry.uop.getDependencies.count producer ≤ issuer.dependants.count entry.uop.sequenceNumber

structure Linked (pipeline : Pipeline) : Prop where
  numbered : Numbered pipeline.traced.length pipeline.rob.entries
  next : pipeline.rob.nextSequenceNumber = pipeline.traced.length + pipeline.rob.entries.length
  proper : ∀ (index : Nat) (entry : RobEntry), pipeline.rob.entries[index]? = some entry → entry.uop.Proper
  younger : ∀ (index : Nat) (entry : RobEntry), pipeline.rob.entries[index]? = some entry → ∀ dependant ∈ entry.dependants,
    entry.uop.sequenceNumber < dependant
  promised : ∀ (index : Nat) (entry : RobEntry), pipeline.rob.entries[index]? = some entry →
    ∀ producer ∈ entry.uop.getDependencies, Promised pipeline producer entry
  waking : ∀ pair ∈ pipeline.waking, pair.1 < pair.2 ∧ (∀ other ∈ pipeline.waking, other.1 = pair.1) ∧
    ∀ (index : Nat) (entry : RobEntry), pipeline.rob.entries[index]? = some entry → entry.uop.sequenceNumber = pair.1 → entry.done ≠ ⊤

theorem getElem?_set_cases {entries : List RobEntry} {index position : Nat} {entry other : RobEntry}
    (found : (entries.set index entry)[position]? = some other) :
    (index = position ∧ other = entry) ∨ (index ≠ position ∧ entries[position]? = some other) := by
  by_cases here : index = position
  · subst here
    have within := (List.getElem?_eq_some_iff.mp found).1
    rw [List.getElem?_set_self (List.length_set ▸ within), Option.some.injEq] at found
    exact .inl ⟨rfl, found.symm⟩
  · exact .inr ⟨here, (List.getElem?_set_ne here).symm.trans found⟩

theorem Promised.pos {entry : RobEntry} {producer : Nat} (promised : Promised pipeline producer entry)
    (member : producer ∈ entry.uop.getDependencies) :
    (producer, entry.uop.sequenceNumber) ∈ pipeline.waking ∨
      ∃ (index : Nat) (issuer : RobEntry), pipeline.rob.entries[index]? = some issuer ∧ issuer.uop.sequenceNumber = producer ∧
        issuer.done = ⊤ ∧ entry.uop.sequenceNumber ∈ issuer.dependants := by
  have some_ := List.count_pos_iff.mpr member
  refine promised.imp (fun wakes => ?_) fun waits => ?_
  · exact List.count_pos_iff.mp (Nat.lt_of_lt_of_le some_ wakes)
  · obtain ⟨index, issuer, there, numbered, waiting, enough⟩ := waits
    exact ⟨index, issuer, there, numbered, waiting, List.count_pos_iff.mp (Nat.lt_of_lt_of_le some_ enough)⟩

theorem Linked.producer {index producer : Nat} {entry : RobEntry} (linked : Linked pipeline) (none_ : pipeline.waking = [])
    (there : pipeline.rob.entries[index]? = some entry) (member : producer ∈ entry.uop.getDependencies) :
    ∃ (older : Nat) (issuer : RobEntry), older < index ∧ pipeline.rob.entries[older]? = some issuer ∧
      issuer.uop.sequenceNumber = producer ∧ issuer.done = ⊤ := by
  cases (linked.promised index entry there producer member).pos member with
  | inl wakes =>
    rw [none_] at wakes
    cases wakes
  | inr waits =>
    obtain ⟨older, issuer, found, numbered, waiting, dependant⟩ := waits
    have before := linked.younger older issuer found _ dependant
    rw [linked.numbered older issuer found, linked.numbered index entry there] at before
    exact ⟨older, issuer, Nat.lt_of_add_lt_add_left before, found, numbered, waiting⟩

/-! ### Moves -/

structure SameLinks (entry later : RobEntry) : Prop where
  uop : later.uop = entry.uop
  dependants : later.dependants = entry.dependants
  done : later.done = entry.done

theorem Promised.of_sameLinks {entry later : RobEntry} {producer : Nat} (promised : Promised pipeline producer entry)
    (same : Entrywise SameLinks pipeline.rob.entries pipeline'.rob.entries) (waking : pipeline'.waking = pipeline.waking)
    (uop : later.uop = entry.uop) : Promised pipeline' producer later := by
  rw [Promised, uop, waking]
  refine promised.imp_right fun waits => ?_
  obtain ⟨index, issuer, there, numbered, waiting, enough⟩ := waits
  obtain ⟨issuer', there', isSame⟩ := same.new there
  refine ⟨index, issuer', there', ?_, isSame.done.trans waiting, ?_⟩
  · rw [isSame.uop, numbered]
  · rw [isSame.dependants]
    exact enough

theorem Linked.of_sameLinks (linked : Linked pipeline) (same : Entrywise SameLinks pipeline.rob.entries pipeline'.rob.entries)
    (waking : pipeline'.waking = pipeline.waking) (next : pipeline'.rob.nextSequenceNumber = pipeline.rob.nextSequenceNumber)
    (traced : pipeline'.traced = pipeline.traced) : Linked pipeline' := by
  refine ⟨?_, ?_, fun index later there' => ?_, fun index later there' => ?_, fun index later there' producer member => ?_,
    fun pair member => ?_⟩
  · rw [traced]
    exact linked.numbered.of_entrywise same fun entry later isSame => congrArg _ isSame.uop
  · rw [traced, same.1, next]
    exact linked.next
  · obtain ⟨entry, there, isSame⟩ := same.old there'
    rw [isSame.uop]
    exact linked.proper index entry there
  · obtain ⟨entry, there, isSame⟩ := same.old there'
    rw [isSame.uop, isSame.dependants]
    exact linked.younger index entry there
  · obtain ⟨entry, there, isSame⟩ := same.old there'
    rw [isSame.uop] at member
    exact (linked.promised index entry there producer member).of_sameLinks same waking isSame.uop
  · rw [waking] at member ⊢
    obtain ⟨before, others, issued⟩ := linked.waking pair member
    refine ⟨before, others, fun index later there' numbered => ?_⟩
    obtain ⟨entry, there, isSame⟩ := same.old there'
    rw [isSame.done]
    exact issued index entry there (isSame.uop ▸ numbered)

theorem count_waking (dependants : List Nat) (producer dependant : Nat) :
    (dependants.map (producer, ·)).count (producer, dependant) = dependants.count dependant :=
  List.count_map_of_injective dependants (producer, ·) (fun _ _ same => (Prod.mk.inj same).2) dependant

theorem Linked.issue {index : Nat} {entry : RobEntry} {execLatency : Nat} {where_ : HitWhere} (linked : Linked pipeline)
    (none_ : pipeline.waking = []) (there : pipeline.rob.entries[index]? = some entry) (now rsEntriesUsed : Nat) :
    Linked { pipeline.setEntry index (entry.issue config { entry.uop with execLatency := execLatency, dCacheHitWhere := where_ } now) with
      rsEntriesUsed := rsEntriesUsed, waking := entry.dependants.map (entry.uop.sequenceNumber, ·) } := by
  have within := (List.getElem?_eq_some_iff.mp there).1
  refine ⟨?_, ?_, fun position other found => ?_, fun position other found => ?_, fun position other found producer member => ?_,
    fun pair member => ?_⟩
  · intro position other found
    cases getElem?_set_cases found with
    | inl same =>
      obtain ⟨rfl, rfl⟩ := same
      exact linked.numbered index entry there
    | inr different => exact linked.numbered position other different.2
  · exact linked.next.trans (congrArg _ List.length_set.symm)
  · cases getElem?_set_cases found with
    | inl same =>
      obtain ⟨rfl, rfl⟩ := same
      exact linked.proper index entry there
    | inr different => exact linked.proper position other different.2
  · cases getElem?_set_cases found with
    | inl same =>
      obtain ⟨rfl, rfl⟩ := same
      exact linked.younger index entry there
    | inr different => exact linked.younger position other different.2
  · obtain ⟨before, found', uop⟩ : ∃ before : RobEntry, pipeline.rob.entries[position]? = some before ∧
        before.uop.getDependencies = other.uop.getDependencies ∧ before.uop.sequenceNumber = other.uop.sequenceNumber := by
      cases getElem?_set_cases found with
      | inl same =>
        obtain ⟨rfl, rfl⟩ := same
        exact ⟨entry, there, rfl, rfl⟩
      | inr different => exact ⟨other, different.2, rfl, rfl⟩
    rw [← uop.1] at member
    rw [Promised, ← uop.1, ← uop.2]
    cases linked.promised position before found' producer member with
    | inl wakes =>
      rw [none_, List.count_nil] at wakes
      exact absurd (List.count_pos_iff.mpr member) (Nat.not_lt_of_le wakes)
    | inr waits =>
      obtain ⟨older, issuer, inRob, numbered, waiting, enough⟩ := waits
      by_cases here : index = older
      · subst here
        cases there.symm.trans inRob
        left
        rw [← numbered, count_waking]
        rw [← numbered] at enough
        exact enough
      · exact .inr ⟨older, issuer, (List.getElem?_set_ne here).trans inRob, numbered, waiting, enough⟩
  · obtain ⟨dependant, isDependant, rfl⟩ := List.mem_map.mp member
    refine ⟨linked.younger index entry there dependant isDependant, fun other isOther => ?_, fun position other found numbered => ?_⟩
    · obtain ⟨_, _, rfl⟩ := List.mem_map.mp isOther
      rfl
    · cases getElem?_set_cases found with
      | inl same =>
        obtain ⟨rfl, rfl⟩ := same
        exact SubsecondTime.fs_ne_top _
      | inr different => exact absurd (linked.numbered.unique there different.2 numbered.symm) different.1

theorem Promised.wake {issuer entry woken other : RobEntry} {position producer : Nat} {rest : List (Nat × Nat)} {uop : DynamicMicroOp}
    (promised : Promised pipeline producer other) (waking : pipeline.waking = (issuer.uop.sequenceNumber, entry.uop.sequenceNumber) :: rest)
    (issued : ∀ (index : Nat) (entry : RobEntry), pipeline.rob.entries[index]? = some entry →
      entry.uop.sequenceNumber = issuer.uop.sequenceNumber → entry.done ≠ ⊤)
    (there : pipeline.rob.entries[position]? = some entry) (kept : entry.Kept woken)
    (fewer : uop.sequenceNumber = other.uop.sequenceNumber ∧
      uop.getDependencies.count producer +
        (if (issuer.uop.sequenceNumber, entry.uop.sequenceNumber) = (producer, other.uop.sequenceNumber) then 1 else 0) =
      other.uop.getDependencies.count producer) (later : RobEntry) (isUop : later.uop = uop) :
    Promised { pipeline.setEntry position woken with waking := rest } producer later := by
  rw [Promised, isUop, fewer.1]
  cases promised with
  | inl wakes =>
    left
    rw [← fewer.2, waking, List.count_cons] at wakes
    simp only [beq_iff_eq] at wakes
    exact Nat.le_of_add_le_add_right wakes
  | inr waits =>
    obtain ⟨index, producerEntry, found, numbered, waiting, enough⟩ := waits
    have different : producer ≠ issuer.uop.sequenceNumber :=
      fun same => issued index producerEntry found (numbered.trans same) waiting
    rw [← fewer.2, if_neg fun same => different (Prod.mk.inj same).1.symm, Nat.add_zero] at enough
    right
    by_cases here : position = index
    · subst here
      cases there.symm.trans found
      refine ⟨position, woken, List.getElem?_set_self (List.getElem?_eq_some_iff.mp there).1, ?_, ?_, ?_⟩
      · exact kept.sequenceNumber.trans numbered
      · exact kept.done.trans waiting
      · rw [kept.dependants]
        exact enough
    · exact ⟨index, producerEntry, (List.getElem?_set_ne here).trans found, numbered, waiting, enough⟩

theorem Linked.wake {issuer entry woken : RobEntry} {position : Nat} {rest : List (Nat × Nat)} {cycleDepend : SubsecondTime}
    (linked : Linked pipeline) (waking : pipeline.waking = (issuer.uop.sequenceNumber, entry.uop.sequenceNumber) :: rest)
    (there : pipeline.rob.entries[position]? = some entry)
    (wakes : entry.Wakes pipeline.rob.entries issuer.uop.sequenceNumber cycleDepend woken) :
    Linked { pipeline.setEntry position woken with waking := rest } := by
  have kept := wakes.keeps
  obtain ⟨uop, drops, isWoken⟩ := wakes.release
  have wokenUop : woken.uop = uop := by rw [isWoken]; rfl
  have proper := linked.proper position entry there
  have entrywise : Entrywise RobEntry.Kept pipeline.rob.entries (pipeline.rob.entries.set position woken) := .set .refl there kept
  have first := linked.waking _ (waking ▸ List.mem_cons_self)
  refine ⟨?_, ?_, fun index other found => ?_, fun index other found => ?_, fun index other found producer member => ?_,
    fun pair member => ?_⟩
  · exact linked.numbered.of_entrywise entrywise fun entry later keeps => keeps.sequenceNumber
  · exact linked.next.trans (congrArg _ List.length_set.symm)
  · cases getElem?_set_cases found with
    | inl same =>
      rw [same.2, wokenUop]
      exact drops.proper proper
    | inr different => exact linked.proper index other different.2
  · obtain ⟨before, found', keeps⟩ := entrywise.old found
    rw [keeps.dependants, keeps.sequenceNumber]
    exact linked.younger index before found'
  · cases getElem?_set_cases found with
    | inl same =>
      obtain ⟨rfl, rfl⟩ := same
      rw [wokenUop] at member
      have promised := linked.promised position entry there producer (drops.mem proper member)
      refine promised.wake waking first.2.2 there kept ⟨drops.sequenceNumber, ?_⟩ other wokenUop
      rw [drops.count proper producer, List.count_singleton, Nat.add_comm]
      congr 1
      exact if_congr (by simp only [beq_iff_eq, Prod.mk.injEq, and_true]) rfl rfl
    | inr different =>
      have promised := linked.promised index other different.2 producer member
      refine promised.wake waking first.2.2 there kept ⟨rfl, ?_⟩ other rfl
      have notIt : other.uop.sequenceNumber ≠ entry.uop.sequenceNumber :=
        fun same => different.1 (linked.numbered.unique there different.2 same.symm)
      rw [if_neg fun same => notIt (Prod.mk.inj same).2.symm, Nat.add_zero]
  · obtain ⟨before, others, issued⟩ := linked.waking pair (waking ▸ List.mem_cons_of_mem _ member)
    refine ⟨before, fun other isOther => others other (waking ▸ List.mem_cons_of_mem _ isOther), fun index later found numbered => ?_⟩
    obtain ⟨old, found', keeps⟩ := entrywise.old found
    rw [keeps.done]
    exact issued index old found' (keeps.sequenceNumber.symm.trans numbered)

theorem Linked.move (linked : Linked pipeline) (move : Move config pipeline pipeline') : Linked pipeline' := by
  cases move with
  | dispatch entry none_ room stations there => exact linked.of_sameLinks (.set (fun _ => ⟨rfl, rfl, rfl⟩) there ⟨rfl, rfl, rfl⟩) rfl rfl rfl
  | issue index entry execLatency where_ none_ inWindow there => exact linked.issue none_ there pipeline.now (pipeline.rsEntriesUsed - 1)
  | wake issuer index dependant rest position entry woken waking _ _ there numbered wakes =>
    subst numbered
    exact linked.wake waking there wakes

theorem Linked.moves (linked : Linked pipeline) (moves : Moves config pipeline pipeline') : Linked pipeline' := by
  induction moves with
  | refl => exact linked
  | tail _ last ih => exact ih.move last

/-! ### Commit, and new micro-operations -/

theorem Linked.commit (linked : Linked pipeline) (commit : Commit pipeline pipeline') : Linked pipeline' := by
  cases commit with
  | front front rest none_ isRob done =>
    have later {index : Nat} {entry : RobEntry} (found : rest[index]? = some entry) :
        pipeline.rob.entries[index + 1]? = some entry := by
      rw [isRob]
      exact found
    have count : (pipeline.traced ++ [front.times pipeline.now]).length = pipeline.traced.length + 1 := List.length_append
    refine ⟨fun index entry found => ?_, ?_, fun index entry found => linked.proper (index + 1) entry (later found),
      fun index entry found => linked.younger (index + 1) entry (later found), fun index entry found producer member => ?_,
      fun pair member => ?_⟩
    · rw [linked.numbered (index + 1) entry (later found), count]
      omega
    · have next := linked.next
      rw [isRob, List.length_cons] at next
      dsimp only [Pipeline.withEntries]
      rw [count]
      omega
    · refine (linked.promised (index + 1) entry (later found) producer member).imp_right fun waits => ?_
      obtain ⟨older, issuer, inRob, numbered, waiting, enough⟩ := waits
      cases older with
      | zero =>
        rw [isRob] at inRob
        cases inRob
        rw [waiting, top_le_iff] at done
        exact absurd done (SubsecondTime.fs_ne_top _)
      | succ older =>
        rw [isRob] at inRob
        exact ⟨older, issuer, inRob, numbered, waiting, enough⟩
    · have nothing : pair ∈ pipeline.waking := member
      rw [none_] at nothing
      cases nothing

section Insert

variable {rob rob' : Rob} {uop tracked needed : DynamicMicroOp} {entry : RobEntry} {result : List RobEntry × List Nat × SubsecondTime}

theorem Inserted.cases (inserted : Inserted config rob uop rob' entry tracked needed result) {index : Nat} {later : RobEntry}
    (found : rob'.entries[index]? = some later) :
    (∃ old, rob.entries[index]? = some old ∧ Gains needed.getDependencies needed.sequenceNumber old later) ∨
      (index = rob.entries.length ∧ later = entry) := by
  have length := inserted.added.gained.1
  rw [inserted.isRob] at found
  by_cases before : index < result.1.length
  · rw [List.getElem?_append_left before] at found
    exact .inl (inserted.added.gained.old found)
  · rw [List.getElem?_append_right (Nat.le_of_not_lt before)] at found
    have within := (List.getElem?_eq_some_iff.mp found).1
    rw [List.length_singleton] at within
    have last : index = rob.entries.length := by omega
    exact .inr ⟨last, List.mem_singleton.mp (List.mem_of_getElem? found)⟩

theorem Inserted.old (inserted : Inserted config rob uop rob' entry tracked needed result) {index : Nat} {old : RobEntry}
    (there : rob.entries[index]? = some old) :
    ∃ later, rob'.entries[index]? = some later ∧ Gains needed.getDependencies needed.sequenceNumber old later := by
  obtain ⟨later, found, gains⟩ := inserted.added.gained.new there
  refine ⟨later, ?_, gains⟩
  rw [inserted.isRob, List.getElem?_append_left (List.getElem?_eq_some_iff.mp found).1]
  exact found

theorem Inserted.length (inserted : Inserted config rob uop rob' entry tracked needed result) :
    rob'.entries.length = rob.entries.length + 1 := by
  rw [inserted.isRob, List.length_append, inserted.added.gained.1, List.length_singleton]

theorem Inserted.isTracked (inserted : Inserted config rob uop rob' entry tracked needed result) :
    ∃ numbers, tracked = ({ uop with sequenceNumber := rob.nextSequenceNumber } : DynamicMicroOp).gains numbers :=
  (Trackers.setDependencies_gains rob.trackers rob.nextSequenceNumber uop rob.lowest).of_ok inserted.trackers

theorem Inserted.same (inserted : Inserted config rob uop rob' entry tracked needed result) :
    needed.microOp = uop.microOp ∧ needed.sequenceNumber = rob.nextSequenceNumber := by
  obtain ⟨numbers, isTracked⟩ := inserted.isTracked
  obtain ⟨microOp, number⟩ := inserted.forwarded.keeps
  rw [isTracked] at microOp number
  exact ⟨microOp, number⟩

theorem Inserted.microOp (inserted : Inserted config rob uop rob' entry tracked needed result) :
    entry.uop.microOp = uop.microOp :=
  inserted.drops.microOp.trans inserted.same.1

theorem Inserted.sequenceNumber (inserted : Inserted config rob uop rob' entry tracked needed result) :
    entry.uop.sequenceNumber = rob.nextSequenceNumber :=
  inserted.drops.sequenceNumber.trans inserted.same.2

theorem Inserted.waits (inserted : Inserted config rob uop rob' entry tracked needed result) {producer : Nat}
    (member : producer ∈ entry.uop.getDependencies) :
    ∃ (index : Nat) (issuer : RobEntry), rob.entries[index]? = some issuer ∧ issuer.uop.sequenceNumber = producer ∧
      issuer.done = ⊤ := by
  obtain ⟨index, issuer, there, numbered⟩ := inserted.added.found producer (inserted.drops.mem inserted.proper member)
  refine ⟨index, issuer, there, numbered, ?_⟩
  by_contra issued
  have count := inserted.drops.count inserted.proper producer
  have removed := inserted.added.removed index issuer there
  rw [if_neg issued, numbered] at removed
  rw [removed] at count
  exact absurd (List.count_pos_iff.mpr member) (by omega)

theorem gains_uop {dependencies : List Nat} {dependant : Nat} {old later : RobEntry} (gains : Gains dependencies dependant old later) :
    later.uop = old.uop ∧ later.done = old.done := by
  rw [gains]
  exact ⟨rfl, rfl⟩

theorem Linked.insert (linked : Linked pipeline) (none_ : pipeline.waking = [])
    (inserted : Inserted config pipeline.rob uop rob' entry tracked needed result) : Linked { pipeline with rob := rob' } := by
  have last : entry.uop.sequenceNumber = pipeline.traced.length + pipeline.rob.entries.length :=
    inserted.sequenceNumber.trans linked.next
  have number : needed.sequenceNumber = entry.uop.sequenceNumber := inserted.drops.sequenceNumber.symm
  refine ⟨fun index later found => ?_, ?_, fun index later found => ?_, fun index later found dependant member => ?_,
    fun index later found producer member => ?_, fun pair member => ?_⟩
  · cases inserted.cases found with
    | inl before =>
      obtain ⟨old, there, gains⟩ := before
      rw [(gains_uop gains).1]
      exact linked.numbered index old there
    | inr new =>
      obtain ⟨rfl, rfl⟩ := new
      exact last
  · have next := linked.next
    dsimp only
    rw [inserted.next, inserted.length, next, Nat.add_assoc]
  · cases inserted.cases found with
    | inl before =>
      obtain ⟨old, there, gains⟩ := before
      rw [(gains_uop gains).1]
      exact linked.proper index old there
    | inr new =>
      obtain ⟨rfl, rfl⟩ := new
      exact inserted.drops.proper inserted.proper
  · cases inserted.cases found with
    | inl before =>
      obtain ⟨old, there, gains⟩ := before
      rw [(gains_uop gains).1]
      rw [gains, RobEntry.gains] at member
      cases List.mem_append.mp member with
      | inl isOld => exact linked.younger index old there dependant isOld
      | inr isNew =>
        have within := (List.getElem?_eq_some_iff.mp there).1
        rw [List.eq_of_mem_replicate isNew, linked.numbered index old there, number, last]
        omega
    | inr new =>
      obtain ⟨rfl, rfl⟩ := new
      rw [inserted.isEntry] at member
      cases member
  · right
    cases inserted.cases found with
    | inl before =>
      obtain ⟨old, there, gains⟩ := before
      rw [(gains_uop gains).1] at member ⊢
      cases linked.promised index old there producer member with
      | inl wakes =>
        rw [none_, List.count_nil] at wakes
        exact absurd (List.count_pos_iff.mpr member) (Nat.not_lt_of_le wakes)
      | inr waits =>
        obtain ⟨older, issuer, inRob, numbered, waiting, enough⟩ := waits
        obtain ⟨issuer', inRob', gains'⟩ := inserted.old inRob
        refine ⟨older, issuer', inRob', ?_, (gains_uop gains').2.trans waiting, Nat.le_trans enough ?_⟩
        · rw [(gains_uop gains').1, numbered]
        · rw [gains', RobEntry.gains, List.count_append]
          exact Nat.le_add_right _ _
    | inr new =>
      obtain ⟨rfl, rfl⟩ := new
      obtain ⟨older, issuer, inRob, numbered, waiting⟩ := inserted.waits member
      obtain ⟨issuer', inRob', gains'⟩ := inserted.old inRob
      refine ⟨older, issuer', inRob', ?_, (gains_uop gains').2.trans waiting, ?_⟩
      · rw [(gains_uop gains').1, numbered]
      · have count := inserted.drops.count inserted.proper producer
        rw [gains', if_pos waiting, numbered, RobEntry.gains, List.count_append, number, List.count_replicate_self]
        omega
  · have nothing : pair ∈ pipeline.waking := member
    rw [none_] at nothing
    cases nothing

end Insert

end Sniper.Performance.RobTimer

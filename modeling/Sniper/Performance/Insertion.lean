import Sniper.Performance.DependencySets
import Sniper.Performance.Pipeline
import Mathlib.Data.List.Count

/-! What a micro-operation finds and leaves when it enters the ROB. -/

namespace Sniper.Performance

/-! ### Dependencies of the trackers -/

theorem DynamicMicroOp.addDependencies_gains (uop : DynamicMicroOp) (numbers : List Nat) :
    Meets (fun _ => True) (uop.addDependencies numbers) fun added => ∃ more, added = uop.gains more :=
  ((uop.addDependencies_meets numbers).widen fun _ _ => trivial).mono fun _ same => ⟨numbers, same⟩

theorem RegisterDependencies.addSources_gains (low : Nat) (registers : List Nat) (producers : RegisterDependencies)
    (uop : DynamicMicroOp) :
    Meets (fun _ => True) (addSources low registers producers uop) fun result => ∃ more, result.2 = uop.gains more := by
  induction registers generalizing producers uop with
  | nil => exact Meets.ok ⟨[], rfl⟩
  | cons register registers ih =>
    rw [addSources]
    cases producers register with
    | none => exact ih producers uop
    | some producer =>
      refine Meets.ite (fun _ => ?_) fun _ => ih _ uop
      refine Meets.bind ((uop.addDependency_meets producer).widen fun _ _ => trivial) fun added isAdded => ?_
      refine (ih producers added).mono fun result more => ?_
      obtain ⟨numbers, same⟩ := more
      exact ⟨[producer] ++ numbers, by rw [same, isAdded, DynamicMicroOp.gains_gains]⟩

theorem RegisterDependencies.setDependencies_gains (producers : RegisterDependencies) (uop : DynamicMicroOp) (low : Nat) :
    Meets (fun _ => True) (producers.setDependencies uop low) fun result => ∃ more, result.2 = uop.gains more := by
  rw [setDependencies]
  exact Meets.bind (addSources_gains low _ producers uop) fun result added => Meets.ok added

theorem MemoryDependencies.setDependencies_gains (memory : MemoryDependencies) (uop : DynamicMicroOp) (low : Nat) :
    Meets (fun _ => True) (memory.setDependencies uop low) fun result => ∃ more, result.2 = uop.gains more := by
  rw [setDependencies]
  refine Meets.ite (fun _ => ?_) fun _ => Meets.ite (fun _ => ?_) fun _ => Meets.ite (fun _ => ?_) fun _ => Meets.ok ⟨[], rfl⟩
  · refine Meets.bind (uop.addDependencies_gains _) fun first added => ?_
    refine Meets.bind (first.addDependencies_gains _) fun last more => Meets.ok ?_
    obtain ⟨numbers, same⟩ := added
    obtain ⟨others, same'⟩ := more
    exact ⟨numbers ++ others, by rw [same', same, DynamicMicroOp.gains_gains]⟩
  · refine Meets.bind (Meets.any _) fun stored _ => ?_
    exact Meets.bind (uop.addDependencies_gains _) fun last more => Meets.ok more
  · exact Meets.bind (uop.addDependencies_gains _) fun last more => Meets.ok more

theorem Trackers.setDependencies_gains (trackers : Trackers) (number : Nat) (uop : DynamicMicroOp) (low : Nat) :
    Meets (fun _ => True) (trackers.setDependencies number uop low) fun result =>
      ∃ more, result.2 = ({ uop with sequenceNumber := number } : DynamicMicroOp).gains more := by
  rw [setDependencies]
  refine Meets.bind (trackers.registers.setDependencies_gains _ low) fun result added => ?_
  refine Meets.bind (trackers.memory.setDependencies_gains result.2 low) fun last more => Meets.ok ?_
  obtain ⟨numbers, same⟩ := added
  obtain ⟨others, same'⟩ := more
  exact ⟨numbers ++ others, by rw [same', same, DynamicMicroOp.gains_gains]⟩

namespace RobTimer

variable {Cycle Mem : Type} {config : Config Cycle Mem} {entries entries' : List RobEntry} {base number : Nat}

def Numbered (base : Nat) (entries : List RobEntry) : Prop :=
  ∀ (index : Nat) (entry : RobEntry), entries[index]? = some entry → entry.uop.sequenceNumber = base + index

def RobEntry.gains (entry : RobEntry) (count dependant : Nat) : RobEntry :=
  { entry with dependants := entry.dependants ++ List.replicate count dependant }

theorem RobEntry.gains_zero (entry : RobEntry) (dependant : Nat) : entry.gains 0 dependant = entry := by
  rw [RobEntry.gains, List.replicate_zero, List.append_nil]

theorem RobEntry.gains_gains (entry : RobEntry) (first second dependant : Nat) :
    (entry.gains first dependant).gains second dependant = entry.gains (first + second) dependant := by
  simp only [RobEntry.gains, List.append_assoc, List.replicate_append_replicate]

/-- Entries that have not issued get a dependant as often as it depends on them. -/
def Gains (dependencies : List Nat) (dependant : Nat) (entry later : RobEntry) : Prop :=
  later = entry.gains (if entry.done = ⊤ then dependencies.count entry.uop.sequenceNumber else 0) dependant

/-- What `addToProducers` finds: the entries after it, the producers that are done, and when the last of them is. -/
structure Added (dependencies : List Nat) (dependant : Nat) (entries : List RobEntry)
    (result : List RobEntry × List Nat × SubsecondTime) : Prop where
  gained : Entrywise (Gains dependencies dependant) entries result.1
  found : ∀ producer ∈ dependencies, ∃ (index : Nat) (entry : RobEntry), entries[index]? = some entry ∧
    entry.uop.sequenceNumber = producer
  removed : ∀ (index : Nat) (entry : RobEntry), entries[index]? = some entry →
    result.2.1.count entry.uop.sequenceNumber = if entry.done = ⊤ then 0 else dependencies.count entry.uop.sequenceNumber
  listed : ∀ producer ∈ result.2.1, producer ∈ dependencies
  late : ∀ (index : Nat) (entry : RobEntry), entries[index]? = some entry → entry.done ≠ ⊤ →
    entry.uop.sequenceNumber ∈ dependencies → entry.done ≤ result.2.2
  last : result.2.2 = (0 : Nat) ∨ ∃ (index : Nat) (entry : RobEntry), entries[index]? = some entry ∧ entry.done ≠ ⊤ ∧ result.2.2 = entry.done

theorem Numbered.unique {first second : Nat} {entry other : RobEntry} (numbered : Numbered base entries)
    (there : entries[first]? = some entry) (found : entries[second]? = some other)
    (same : entry.uop.sequenceNumber = other.uop.sequenceNumber) : first = second := by
  rw [numbered first entry there, numbered second other found] at same
  exact Nat.add_left_cancel same

theorem Numbered.of_entrywise {related : RobEntry → RobEntry → Prop} (numbered : Numbered base entries)
    (entrywise : Entrywise related entries entries')
    (kept : ∀ entry later, related entry later → later.uop.sequenceNumber = entry.uop.sequenceNumber) : Numbered base entries' := by
  intro index later there
  obtain ⟨entry, found, isRelated⟩ := entrywise.old there
  exact (kept entry later isRelated).trans (numbered index entry found)

theorem findEntryBySequenceNumber_meets (entries : List RobEntry) (number : Nat) :
    Meets (fun _ => True) (findEntryBySequenceNumber entries number) fun entry =>
      ∃ index, findPosition entries number = .ok index ∧ entries[index]? = some entry ∧ entry.uop.sequenceNumber = number := by
  rw [findEntryBySequenceNumber]
  refine Meets.bind ((Meets.result _).and (findPosition_meets entries number)) fun index found => ?_
  obtain ⟨isIndex, entry, there, numbered⟩ := found
  rw [there]
  exact Meets.ok ⟨index, isIndex, there, numbered⟩

theorem added_nil (dependant : Nat) (entries : List RobEntry) : Added [] dependant entries (entries, [], (0 : Nat)) where
  gained := by
    refine .refl (fun entry => ?_) entries
    rw [Gains, List.count_nil, ite_self, RobEntry.gains_zero]
  found := fun _ member => absurd member List.not_mem_nil
  removed := fun _ _ _ => by rw [List.count_nil, ite_self]
  listed := fun _ member => member
  late := fun _ _ _ _ member => absurd member List.not_mem_nil
  last := .inl rfl

theorem Added.done {rest : List Nat} {dependant index : Nat} {producer : RobEntry}
    {result : List RobEntry × List Nat × SubsecondTime} (added : Added rest dependant entries result)
    (numbered : Numbered base entries) (there : entries[index]? = some producer) (issued : producer.done ≠ ⊤) :
    Added (producer.uop.sequenceNumber :: rest) dependant entries
      (result.1, producer.uop.sequenceNumber :: result.2.1, max producer.done result.2.2) := by
  have other {position : Nat} {entry : RobEntry} (found : entries[position]? = some entry) (waiting : entry.done = ⊤) :
      producer.uop.sequenceNumber ≠ entry.uop.sequenceNumber := by
    intro same
    cases numbered.unique there found same
    cases there.symm.trans found
    exact issued waiting
  refine ⟨⟨added.gained.1, fun position entry later found found' => ?_⟩, ?_, fun position entry found => ?_, ?_, ?_, ?_⟩
  · rw [added.gained.2 position entry later found found', Gains]
    split
    case isTrue waiting => rw [List.count_cons_of_ne (other found waiting)]
    case isFalse => rfl
  · exact List.forall_mem_cons.mpr ⟨⟨index, producer, there, rfl⟩, added.found⟩
  · have before := added.removed position entry found
    split at before
    case isTrue waiting => rw [List.count_cons_of_ne (other found waiting), if_pos waiting, before]
    case isFalse isDone => rw [List.count_cons, List.count_cons, if_neg isDone, before]
  · intro listed member
    cases List.mem_cons.mp member with
    | inl same => exact same ▸ List.mem_cons_self
    | inr later => exact List.mem_cons_of_mem _ (added.listed listed later)
  · intro position entry found isDone member
    cases List.mem_cons.mp member with
    | inl same =>
      cases numbered.unique found there same
      cases there.symm.trans found
      exact le_max_left _ _
    | inr later => exact le_trans (added.late position entry found isDone later) (le_max_right _ _)
  · cases max_choice producer.done result.2.2 with
    | inl first => exact .inr ⟨index, producer, there, issued, first⟩
    | inr second => exact added.last.imp second.trans fun ⟨position, entry, found, isDone, same⟩ =>
      ⟨position, entry, found, isDone, second.trans same⟩

theorem modify_gains {index : Nat} {producer : RobEntry} (dependant : Nat) (numbered : Numbered base entries)
    (there : entries[index]? = some producer) :
    Entrywise (fun entry later => later = entry.gains (if entry.uop.sequenceNumber = producer.uop.sequenceNumber then 1 else 0) dependant)
      entries (entries.modify index fun entry => entry.gains 1 dependant) := by
  refine ⟨List.length_modify _ _ _, fun position entry later found found' => ?_⟩
  rw [List.getElem?_modify, found, Option.map_eq_map, Option.map_some, Option.some.injEq] at found'
  rw [← found']
  by_cases here : index = position
  · subst here
    cases there.symm.trans found
    rw [if_pos rfl, if_pos rfl]
  · have different : entry.uop.sequenceNumber ≠ producer.uop.sequenceNumber :=
      fun same => here (numbered.unique found there same).symm
    rw [if_neg here, if_neg different, RobEntry.gains_zero]

theorem Added.waits {rest : List Nat} {dependant index : Nat} {producer : RobEntry}
    {result : List RobEntry × List Nat × SubsecondTime}
    (added : Added rest dependant (entries.modify index fun entry => entry.gains 1 dependant) result)
    (numbered : Numbered base entries) (there : entries[index]? = some producer) (waiting : producer.done = ⊤) :
    Added (producer.uop.sequenceNumber :: rest) dependant entries result := by
  have gains := modify_gains dependant numbered there
  have other {position : Nat} {entry : RobEntry} (found : entries[position]? = some entry) (issued : entry.done ≠ ⊤) :
      producer.uop.sequenceNumber ≠ entry.uop.sequenceNumber := by
    intro same
    cases numbered.unique there found same
    cases there.symm.trans found
    exact issued waiting
  refine ⟨⟨added.gained.1.trans gains.1, fun position entry later found found' => ?_⟩, ?_, fun position entry found => ?_, ?_, ?_, ?_⟩
  · obtain ⟨middle, between, isMiddle⟩ := gains.new found
    have isLater := added.gained.2 position middle later between found'
    subst isMiddle
    rw [isLater, Gains, RobEntry.gains_gains]
    congr 1
    show _ + (if entry.done = ⊤ then rest.count entry.uop.sequenceNumber else 0) = _
    by_cases unissued : entry.done = ⊤
    · rw [if_pos unissued, if_pos unissued, List.count_cons, Nat.add_comm]
      congr 1
      exact if_congr (by rw [beq_iff_eq, eq_comm]) rfl rfl
    · rw [if_neg unissued, if_neg unissued, if_neg (Ne.symm (other found unissued))]
  · refine List.forall_mem_cons.mpr ⟨⟨index, producer, there, rfl⟩, fun dependency member => ?_⟩
    obtain ⟨position, middle, between, same⟩ := added.found dependency member
    obtain ⟨entry, found, isMiddle⟩ := gains.old between
    subst isMiddle
    exact ⟨position, entry, found, same⟩
  · obtain ⟨middle, between, isMiddle⟩ := gains.new found
    have before := added.removed position middle between
    subst isMiddle
    refine before.trans ?_
    show (if entry.done = ⊤ then 0 else rest.count entry.uop.sequenceNumber) = _
    split
    case isTrue => rfl
    case isFalse issued => rw [List.count_cons_of_ne (other found issued)]
  · exact fun listed member => List.mem_cons_of_mem _ (added.listed listed member)
  · intro position entry found issued member
    obtain ⟨middle, between, isMiddle⟩ := gains.new found
    have inRest := List.mem_of_ne_of_mem (Ne.symm (other found issued)) member
    subst isMiddle
    exact added.late position (entry.gains _ dependant) between issued inRest
  · refine added.last.imp_right fun ⟨position, middle, between, issued, same⟩ => ?_
    obtain ⟨entry, found, isMiddle⟩ := gains.old between
    subst isMiddle
    exact ⟨position, entry, found, issued, same⟩

theorem addToProducers_added (dependant : Nat) (dependencies : List Nat) (numbered : Numbered base entries) :
    Meets (fun _ => True) (addToProducers dependant dependencies entries) (Added dependencies dependant entries) := by
  induction dependencies generalizing entries with
  | nil => exact Meets.ok (added_nil dependant entries)
  | cons dependency rest ih =>
    rw [addToProducers]
    refine Meets.bind (findEntryBySequenceNumber_meets entries dependency) fun producer found => ?_
    obtain ⟨index, position, there, same⟩ := found
    subst same
    refine Meets.ite (fun issued => ?_) fun waits => ?_
    · exact Meets.bind (ih numbered) fun result added => Meets.ok (added.done numbered there issued)
    · rw [updateEntry, position]
      have still := numbered.of_entrywise (modify_gains dependant numbered there) fun entry later same => by rw [same]; rfl
      exact (ih still).mono fun result added => added.waits numbered there (not_not.mp waits)

/-! ### Forwarding -/

/-- The first store among some dependencies. -/
def findStore (entries : List RobEntry) : List Nat → Option RobEntry
  | [] => none
  | dependency :: rest =>
    match findEntryBySequenceNumber entries dependency with
    | .error _ => none
    | .ok entry => if entry.uop.isStore then some entry else findStore entries rest

def forwardedStore (config : Config Cycle Mem) (entries : List RobEntry) (uop : DynamicMicroOp) : Option RobEntry :=
  if config.storeToLoadForwarding && uop.isLoad then findStore entries uop.getDependencies else none

/-- The dependencies with those of a store in its place. -/
def Forwarded (uop : DynamicMicroOp) (store : Option RobEntry) (needed : DynamicMicroOp) : Prop :=
  match store with
  | none => needed = uop
  | some store => ∃ dropped, uop.Drops [store.uop.sequenceNumber] dropped ∧ needed = dropped.gains store.uop.getDependencies

theorem forwardStore_forwarded (entries : List RobEntry) (uop : DynamicMicroOp) (dependencies : List Nat) :
    Meets (fun _ => True) (forwardStore entries uop dependencies) (Forwarded uop (findStore entries dependencies)) := by
  induction dependencies with
  | nil => exact Meets.ok rfl
  | cons dependency rest ih =>
    rw [forwardStore, findStore]
    refine Meets.bind ((Meets.result _).and (findEntryBySequenceNumber_meets entries dependency)) fun entry found => ?_
    obtain ⟨isEntry, -, -, -, numbered⟩ := found
    rw [isEntry]
    dsimp only
    refine Meets.ite (fun store => ?_) fun other => ?_
    · rw [if_pos store]
      refine Meets.bind (uop.removeDependency_meets dependency) fun dropped drops => ?_
      have more : Meets (fun _ => True) (dropped.addDependencies entry.uop.getDependencies) _ :=
        (dropped.addDependencies_meets entry.uop.getDependencies).widen fun _ _ => trivial
      exact more.mono fun needed isNeeded => ⟨dropped, numbered.symm ▸ drops, isNeeded⟩
    · rw [if_neg other]
      exact ih

theorem forwardStores_forwarded (config : Config Cycle Mem) (entries : List RobEntry) (uop : DynamicMicroOp) :
    Meets (fun _ => True) (forwardStores config entries uop) (Forwarded uop (forwardedStore config entries uop)) := by
  rw [forwardStores, forwardedStore]
  split
  case isTrue => exact forwardStore_forwarded entries uop uop.getDependencies
  case isFalse => exact Meets.ok rfl

theorem findStore_mem {dependencies : List Nat} {store : RobEntry} (found : findStore entries dependencies = some store) :
    store.uop.isStore = true ∧ store.uop.sequenceNumber ∈ dependencies ∧
      ∃ index : Nat, entries[index]? = some store := by
  induction dependencies with
  | nil => cases found
  | cons dependency rest ih =>
    rw [findStore] at found
    cases looked : findEntryBySequenceNumber entries dependency with
    | error fault =>
      rw [looked] at found
      cases found
    | ok entry =>
      rw [looked] at found
      dsimp only at found
      obtain ⟨index, -, there, numbered⟩ := (findEntryBySequenceNumber_meets entries dependency).of_ok looked
      split at found
      case isTrue isStore =>
        cases found
        exact ⟨isStore, numbered ▸ List.mem_cons_self, index, there⟩
      case isFalse =>
        obtain ⟨isStore, member, there⟩ := ih found
        exact ⟨isStore, List.mem_cons_of_mem _ member, there⟩

theorem forwardedStore_mem {uop : DynamicMicroOp} {store : RobEntry} (found : forwardedStore config entries uop = some store) :
    store.uop.isStore = true ∧ ∃ index : Nat, entries[index]? = some store := by
  rw [forwardedStore] at found
  split at found
  case isFalse => cases found
  case isTrue =>
    obtain ⟨isStore, -, there⟩ := findStore_mem found
    exact ⟨isStore, there⟩

theorem Forwarded.keeps {uop needed : DynamicMicroOp} {store : Option RobEntry} (forwarded : Forwarded uop store needed) :
    needed.microOp = uop.microOp ∧ needed.sequenceNumber = uop.sequenceNumber := by
  cases store with
  | none =>
    cases forwarded
    exact ⟨rfl, rfl⟩
  | some store =>
    obtain ⟨dropped, drops, isNeeded⟩ := forwarded
    rw [isNeeded]
    exact ⟨drops.microOp, drops.sequenceNumber⟩

theorem Forwarded.listed {uop needed : DynamicMicroOp} {store : Option RobEntry} {producer : Nat}
    (forwarded : Forwarded uop store needed) (member : producer ∈ uop.dependencies)
    (other : ∀ entry, store = some entry → producer ≠ entry.uop.sequenceNumber) : producer ∈ needed.dependencies := by
  cases store with
  | none =>
    cases forwarded
    exact member
  | some store =>
    obtain ⟨dropped, drops, isNeeded⟩ := forwarded
    rw [isNeeded]
    refine DynamicMicroOp.mem_withDependencies.mpr (.inl (drops.listed producer member ?_))
    exact fun same => other store rfl (List.mem_singleton.mp same)

/-! ### A new entry -/

/-- The first sequence number that a new micro-operation can depend on. -/
def Rob.lowest (rob : Rob) : Nat :=
  match rob.entries with
  | [] => rob.nextSequenceNumber
  | front :: _ => front.uop.sequenceNumber

def Rob.trackers (rob : Rob) : Trackers := ⟨rob.registerDependencies, rob.memoryDependencies⟩

/-- A micro-operation enters the ROB, with what it finds there: its dependencies from the trackers, those that are looked up,
and what is found about these. -/
structure Inserted (config : Config Cycle Mem) (rob : Rob) (uop : DynamicMicroOp) (rob' : Rob) (entry : RobEntry)
    (tracked needed : DynamicMicroOp) (result : List RobEntry × List Nat × SubsecondTime) : Prop where
  isRob : rob'.entries = result.1 ++ [entry]
  next : rob'.nextSequenceNumber = rob.nextSequenceNumber + 1
  trackers : rob.trackers.setDependencies rob.nextSequenceNumber uop rob.lowest = .ok (rob'.trackers, tracked)
  address : findAddressProducers rob rob.lowest { uop with sequenceNumber := rob.nextSequenceNumber } =
    .ok (entry.addressReadyMax, entry.addressProducers)
  forwarded : Forwarded tracked (forwardedStore config rob.entries tracked) needed
  proper : needed.Proper
  added : Added needed.getDependencies needed.sequenceNumber rob.entries result
  drops : needed.Drops result.2.1 entry.uop
  isEntry : entry = { RobEntry.init entry.uop with
    addressProducers := entry.addressProducers
    addressReadyMax := entry.addressReadyMax
    addressReady := if uop.isStore && entry.addressProducers = [] then entry.addressReadyMax else ⊤
    readyMax := result.2.2
    ready := if entry.uop.getDependenciesLength = 0 then result.2.2 else ⊤ }

theorem findDependencies_meets (uop : DynamicMicroOp) :
    Meets (fun _ => True) (findDependencies uop) fun dependencies => dependencies = uop.getDependencies ∧ uop.Proper := by
  rw [findDependencies]
  refine Meets.ite (fun _ => trivial) fun within => Meets.ok ⟨rfl, fun some_ => ?_⟩
  exact Nat.le_of_not_lt fun short => within ⟨some_, short⟩

theorem insertMicroOp_inserted {rob : Rob} {uop : DynamicMicroOp} (numbered : Numbered base rob.entries)
    (valid : uop.squashed = false) :
    Meets (fun _ => True) (insertMicroOp config rob uop) fun rob' =>
      ∃ entry tracked needed result, Inserted config rob uop rob' entry tracked needed result := by
  rw [insertMicroOp, if_neg (Bool.eq_false_iff.mp valid)]
  refine Meets.ite (fun _ => trivial) fun _ => ?_
  refine Meets.bind (Meets.result _) fun address isAddress => Meets.bind (Meets.result _) fun registers isRegisters =>
    Meets.bind (Meets.result _) fun memory isMemory => Meets.bind (forwardStores_forwarded config rob.entries memory.2)
      fun needed forwarded => Meets.bind (findDependencies_meets needed) fun dependencies looked => ?_
  obtain ⟨isDependencies, proper⟩ := looked
  subst isDependencies
  refine Meets.bind (addToProducers_added needed.sequenceNumber needed.getDependencies numbered) fun result added => ?_
  refine Meets.ite (fun _ => trivial) fun _ => Meets.bind (needed.removeDependencies_meets result.2.1) fun left drops => ?_
  refine Meets.ok ⟨_, memory.2, needed, result, rfl, rfl, ?_, isAddress, forwarded, proper, added, drops, rfl⟩
  have isRegisters' : rob.registerDependencies.setDependencies { uop with sequenceNumber := rob.nextSequenceNumber } rob.lowest =
    .ok registers := isRegisters
  have isMemory' : rob.memoryDependencies.setDependencies registers.2 rob.lowest = .ok memory := isMemory
  simp only [Trackers.setDependencies, Rob.trackers, bind, Except.bind, isRegisters', isMemory']
  rfl

end RobTimer

end Sniper.Performance

import Sniper.Performance.Readiness

/-! When the addresses of stores are ready. -/

namespace Sniper.Performance

/-- The address registers of a store are among its source registers. -/
def DynamicMicroOp.AddressesRead (uop : DynamicMicroOp) : Prop :=
  uop.isStore = true → ∀ register, some register ∈ uop.microOp.addressRegisters → register ∈ uop.microOp.sourceRegisters

instance (uop : DynamicMicroOp) : Decidable uop.AddressesRead :=
  decidable_of_iff (uop.isStore = true → ∀ register ∈ uop.microOp.addressRegisters, ∀ number ∈ register,
    number ∈ uop.microOp.sourceRegisters) (imp_congr_right fun _ => ⟨fun reads register isRegister => reads _ isRegister register rfl,
      fun reads _ isRegister number same => reads number (Option.mem_def.mp same ▸ isRegister)⟩)

namespace RobTimer

variable {Cycle Mem : Type} {config : Config Cycle Mem} {pipeline pipeline' : Pipeline} {entered : List Entering}

/-- The last writers of the address registers of a micro-operation. -/
def AddressWriter (entered : List Entering) (number producer : Nat) : Prop :=
  ∃ entering, entered[number]? = some entering ∧ ∃ register, some register ∈ entering.uop.microOp.addressRegisters ∧
    lastBefore (DynamicMicroOp.writes register) (stream entered) number = some producer

/-- The producers of its address that are in the ROB when it enters. -/
def AddressProducer (entered : List Entering) (number producer : Nat) : Prop :=
  ∃ entering, entered[number]? = some entering ∧ entering.pipeline.rob.lowest ≤ producer ∧ AddressWriter entered number producer

/-- A micro-operation in the ROB that has not issued. -/
def Unissued (entries : List RobEntry) (number : Nat) : Prop :=
  ∃ (index : Nat) (entry : RobEntry), entries[index]? = some entry ∧ entry.uop.sequenceNumber = number ∧ entry.done = ⊤

/-! ### What the code finds -/

theorem addressProducerWaits_meets {base : Nat} {entries : List RobEntry} (numbered : Numbered base entries) (producer : Nat) :
    Meets (fun _ => True) (addressProducerWaits entries producer) fun waits => waits = true ↔ Unissued entries producer := by
  unfold addressProducerWaits
  cases entries with
  | nil => trivial
  | cons front rest =>
    refine Meets.ite (fun _ => ?_) fun before => Meets.ok ?_
    · refine Meets.bind (findEntryBySequenceNumber_meets _ producer) fun entry found => Meets.ok ?_
      obtain ⟨index, -, there, same⟩ := found
      rw [decide_eq_true_eq]
      refine ⟨fun waiting => ⟨index, entry, there, same, waiting⟩, fun unissued => ?_⟩
      obtain ⟨position, other, there', same', waiting⟩ := unissued
      cases numbered.unique there there' (same.trans same'.symm)
      cases there.symm.trans there'
      exact waiting
    · refine ⟨fun impossible => absurd impossible Bool.false_ne_true, fun unissued => ?_⟩
      obtain ⟨index, entry, there, same, -⟩ := unissued
      have first := numbered 0 front rfl
      have number := numbered index entry there
      omega

theorem addressProducersWait_meets {base : Nat} {entries : List RobEntry} (numbered : Numbered base entries) (producers : List Nat) :
    Meets (fun _ => True) (producers.mapM (addressProducerWaits entries)) fun waits =>
      true ∈ waits ↔ ∃ producer ∈ producers, Unissued entries producer := by
  induction producers with
  | nil =>
    rw [List.mapM_nil]
    exact Meets.ok (by simp)
  | cons producer producers ih =>
    rw [List.mapM_cons]
    refine Meets.bind (addressProducerWaits_meets numbered producer) fun first isFirst => Meets.bind ih fun rest isRest => Meets.ok ?_
    rw [List.mem_cons, isRest, eq_comm, isFirst]
    simp

/-- What becomes of the address of a store when one of its producers issues. -/
inductive Woken (entries : List RobEntry) (producer : Nat) (cycleDepend : SubsecondTime) (entry woken : RobEntry) : Prop where
  | known : ¬(entry.uop.isStore = true ∧ entry.addressReady = ⊤) → woken.addressReady = entry.addressReady →
      woken.addressReadyMax = entry.addressReadyMax → Woken entries producer cycleDepend entry woken
  | waits (other : Nat) : entry.addressReady = ⊤ → woken.addressReady = ⊤ →
      woken.addressReadyMax = (if producer ∈ entry.addressProducers then max entry.addressReadyMax cycleDepend else entry.addressReadyMax) →
      other ∈ entry.addressProducers → Unissued entries other → Woken entries producer cycleDepend entry woken
  | ready : entry.addressReady = ⊤ → woken.addressReady = woken.addressReadyMax →
      woken.addressReadyMax = (if producer ∈ entry.addressProducers then max entry.addressReadyMax cycleDepend else entry.addressReadyMax) →
      (∀ other ∈ entry.addressProducers, ¬Unissued entries other) → Woken entries producer cycleDepend entry woken

theorem produceAddress_woken {base : Nat} {entries : List RobEntry} (numbered : Numbered base entries) (producer : Nat)
    (cycleDepend : SubsecondTime) (entry : RobEntry) :
    Meets (fun _ => True) (produceAddress entries producer cycleDepend entry) (Woken entries producer cycleDepend entry) := by
  rw [produceAddress]
  refine Meets.ite (fun waiting => ?_) fun known => Meets.ok (.known (fun both => known ?_) rfl rfl)
  · obtain ⟨-, waiting⟩ := Bool.and_eq_true_iff.mp waiting
    refine Meets.bind (addressProducersWait_meets numbered entry.addressProducers) fun waits isWaits => ?_
    refine Meets.ite (fun some_ => Meets.ok ?_) fun none_ => Meets.ok ?_
    · obtain ⟨other, member, unissued⟩ := isWaits.mp some_
      exact .waits other (of_decide_eq_true waiting) (of_decide_eq_true waiting) rfl member unissued
    · refine .ready (of_decide_eq_true waiting) rfl rfl fun other member unissued => none_ (isWaits.mpr ⟨other, member, unissued⟩)
  · rw [Bool.and_eq_true, decide_eq_true_eq]
    exact both

theorem RobEntry.Wakes.woken {base producer : Nat} {entries : List RobEntry} {cycleDepend : SubsecondTime} {entry woken : RobEntry}
    (numbered : Numbered base entries) (wakes : entry.Wakes entries producer cycleDepend woken) :
    Woken entries producer cycleDepend entry woken ∧ woken.addressProducers = entry.addressProducers := by
  obtain ⟨-, uop, removed, produced⟩ := wakes
  have same := (entry.uop.removeDependency_meets producer).of_ok removed
  have isStore : uop.isStore = entry.uop.isStore := congrArg MicroOp.isStore same.microOp
  refine ⟨?_, ?_⟩
  · cases (produceAddress_woken numbered producer cycleDepend _).of_ok produced with
    | known known ready latest =>
      refine .known (fun both => known ⟨?_, both.2⟩) ready latest
      exact isStore.trans both.1
    | waits other waiting ready latest member unissued => exact .waits other waiting ready latest member unissued
    | ready waiting ready latest none_ => exact .ready waiting ready latest none_
  · rw [(produceAddress_eq ..).of_ok produced]
    rfl

/-- What is found about the producers of the address of a store: those it waits for, and when the last of the others is done. -/
structure AddressFound (rob : Rob) (low : Nat) (registers : List (Option Nat)) (found : SubsecondTime × List Nat) : Prop where
  waits : ∀ producer ∈ found.2, Unissued rob.entries producer ∧
    ∃ register ∈ registers, rob.registerDependencies.peekProducer register low = some producer
  all : ∀ register ∈ registers, ∀ producer, rob.registerDependencies.peekProducer register low = some producer →
    producer ∈ found.2 ∨ ∃ (index : Nat) (entry : RobEntry), rob.entries[index]? = some entry ∧
      entry.uop.sequenceNumber = producer ∧ entry.done ≤ found.1
  least : ∀ bound : SubsecondTime, (∀ register ∈ registers, ∀ producer,
    rob.registerDependencies.peekProducer register low = some producer → ∀ (index : Nat) (entry : RobEntry),
      rob.entries[index]? = some entry → entry.uop.sequenceNumber = producer → entry.done ≠ ⊤ → entry.done ≤ bound) → found.1 ≤ bound

theorem addressFound_nil (rob : Rob) (low : Nat) : AddressFound rob low [] ((0 : Nat), []) where
  waits := fun _ member => absurd member List.not_mem_nil
  all := fun _ member => absurd member List.not_mem_nil
  least := fun bound _ => by
    obtain rfl | ⟨value, rfl⟩ := bound.top_or_fs
    · exact le_top
    · exact SubsecondTime.fs_le_fs.mpr (Nat.zero_le value)

theorem addAddressRegister_found {rob : Rob} {low : Nat} {registers : List (Option Nat)} {found : SubsecondTime × List Nat}
    (before : AddressFound rob low registers found) (register : Option Nat) :
    Meets (fun _ => True) (addAddressRegister rob low found register) (AddressFound rob low (registers ++ [register])) := by
  have earlier {other : Option Nat} (member : other ∈ registers ++ [register]) : other ∈ registers ∨ other = register :=
    (List.mem_append.mp member).imp_right List.mem_singleton.mp
  have last : register ∈ registers ++ [register] := List.mem_append_right _ List.mem_cons_self
  rw [addAddressRegister]
  cases peeked : rob.registerDependencies.peekProducer register low with
  | none =>
    refine Meets.ok ⟨fun producer member => ?_, fun other member producer known => ?_, fun bound most => ?_⟩
    · obtain ⟨unissued, other, isOther, known⟩ := before.waits producer member
      exact ⟨unissued, other, List.mem_append_left _ isOther, known⟩
    · cases earlier member with
      | inl isOld => exact before.all other isOld producer known
      | inr same =>
        subst same
        cases peeked.symm.trans known
    · exact before.least bound fun other member => most other (List.mem_append_left _ member)
  | some producer =>
    refine Meets.bind (findEntryBySequenceNumber_meets rob.entries producer) fun prodEntry looked => ?_
    obtain ⟨index, -, there, numbered⟩ := looked
    refine Meets.ite (fun issued => Meets.ok ?_) fun waits => Meets.ok ?_
    · refine ⟨fun other member => ?_, fun other member producer' known => ?_, fun bound most => ?_⟩
      · obtain ⟨unissued, register', isOther, known⟩ := before.waits other member
        exact ⟨unissued, register', List.mem_append_left _ isOther, known⟩
      · cases earlier member with
        | inl isOld =>
          refine (before.all other isOld producer' known).imp_right fun done => ?_
          obtain ⟨position, entry, found', same, early⟩ := done
          exact ⟨position, entry, found', same, le_trans early (le_max_left _ _)⟩
        | inr same =>
          subst same
          cases peeked.symm.trans known
          exact .inr ⟨index, prodEntry, there, numbered, le_max_right _ _⟩
      · refine max_le (before.least bound fun other member => most other (List.mem_append_left _ member)) ?_
        exact most register last producer peeked index prodEntry there numbered issued
    · refine ⟨fun other member => ?_, fun other member producer' known => ?_, fun bound most => ?_⟩
      · cases List.mem_append.mp member with
        | inl isOld =>
          obtain ⟨unissued, register', isOther, known⟩ := before.waits other isOld
          exact ⟨unissued, register', List.mem_append_left _ isOther, known⟩
        | inr isNew =>
          cases List.mem_singleton.mp isNew
          exact ⟨⟨index, prodEntry, there, numbered, not_not.mp waits⟩, register, last, peeked⟩
      · cases earlier member with
        | inl isOld => exact (before.all other isOld producer' known).imp_left (List.mem_append_left _)
        | inr same =>
          subst same
          cases peeked.symm.trans known
          exact .inl (List.mem_append_right _ List.mem_cons_self)
      · exact before.least bound fun other member => most other (List.mem_append_left _ member)

theorem findAddressProducers_found (rob : Rob) (low : Nat) {uop : DynamicMicroOp} (isStore : uop.isStore = true) :
    Meets (fun _ => True) (findAddressProducers rob low uop) (AddressFound rob low uop.microOp.addressRegisters) := by
  rw [findAddressProducers, if_pos isStore]
  exact Meets.foldlM (AddressFound rob low) _ (fun _ register _ found _ before => addAddressRegister_found before register)
    (addressFound_nil rob low)

/-! ### Stores in the ROB -/

/-- The address of a store is ready at the latest result among its producers, and waits for those that are still to issue. -/
structure RobEntry.Addressed (config : Config Cycle Mem) (entered : List Entering) (pipeline : Pipeline) (entry : RobEntry) : Prop where
  most : entry.addressReadyMax ≤ entry.readyMax
  known : entry.addressReady ≠ ⊤ → entry.addressReady = entry.addressReadyMax
  waits : entry.addressReady = ⊤ → ∃ producer ∈ entry.addressProducers, producer ∈ entry.uop.getDependencies
  listed : ∀ producer ∈ entry.addressProducers, (producer ∈ entry.uop.getDependencies ∧ entry.addressReady = ⊤) ∨
    result config entered pipeline producer ≤ entry.addressReadyMax
  all : ∀ producer, AddressProducer entered entry.uop.sequenceNumber producer → producer ∈ entry.addressProducers ∨
    result config entered pipeline producer ≤ entry.addressReadyMax

theorem AddressWriter.of_grown {entered' : List Entering} {number producer : Nat} (grown : entered <+: entered')
    (within : number < entered.length) (writer : AddressWriter entered' number producer) : AddressWriter entered number producer := by
  obtain ⟨entering, isEntered, register, isRegister, last⟩ := writer
  obtain ⟨more, rfl⟩ := grown
  rw [List.getElem?_append_left within] at isEntered
  have whole : stream (entered ++ more) = stream entered ++ stream more := List.map_append
  rw [whole, lastBefore_append (stream more) (Nat.le_of_lt ((List.length_map Entering.uop).symm ▸ within))] at last
  exact ⟨entering, isEntered, register, isRegister, last⟩

theorem AddressProducer.of_grown {entered' : List Entering} {number producer : Nat} (grown : entered <+: entered')
    (within : number < entered.length) (isProducer : AddressProducer entered' number producer) :
    AddressProducer entered number producer := by
  obtain ⟨entering, isEntered, inRob, writer⟩ := isProducer
  refine ⟨entering, ?_, inRob, writer.of_grown grown within⟩
  obtain ⟨more, rfl⟩ := grown
  rw [List.getElem?_append_left within] at isEntered
  exact isEntered

theorem Settled.result_le {entered' : List Entering} {number : Nat} {bound : SubsecondTime}
    (settled : Settled pipeline.dones pipeline'.dones) (grown : entered <+: entered')
    (early : result config entered pipeline number ≤ bound) (known : bound ≠ ⊤) : result config entered' pipeline' number ≤ bound :=
  le_of_eq_of_le (settled.result_eq grown (ne_top_of_le_ne_top known early)) early

structure SameAddress (entry later : RobEntry) : Prop where
  number : later.uop.sequenceNumber = entry.uop.sequenceNumber
  dependencies : later.uop.getDependencies = entry.uop.getDependencies
  producers : later.addressProducers = entry.addressProducers
  ready : later.addressReady = entry.addressReady
  latest : later.addressReadyMax = entry.addressReadyMax
  readyMax : later.readyMax = entry.readyMax

theorem RobEntry.Addressed.of_same {entered' : List Entering} {entry later : RobEntry}
    (addressed : entry.Addressed config entered pipeline) (same : SameAddress entry later) (known : entry.readyMax ≠ ⊤)
    (settled : Settled pipeline.dones pipeline'.dones) (grown : entered <+: entered')
    (within : entry.uop.sequenceNumber < entered.length) : later.Addressed config entered' pipeline' := by
  obtain ⟨number, dependencies, producers, ready, latest, readyMax⟩ := same
  have known' : entry.addressReadyMax ≠ ⊤ := ne_top_of_le_ne_top known addressed.most
  refine ⟨?_, ?_, ?_, fun producer member => ?_, fun producer isProducer => ?_⟩
  · rw [latest, readyMax]
    exact addressed.most
  · rw [ready, latest]
    exact addressed.known
  · rw [ready, producers, dependencies]
    exact addressed.waits
  · rw [ready, latest, dependencies]
    rw [producers] at member
    exact (addressed.listed producer member).imp_right fun early => settled.result_le grown early known'
  · rw [number] at isProducer
    rw [producers, latest]
    exact (addressed.all producer (isProducer.of_grown grown within)).imp_right fun early => settled.result_le grown early known'

/-- While an issuing micro-operation wakes its dependants, only it is still listed among dependencies though it has issued. -/
theorem Linked.waits_or_issuer {issuer entry : RobEntry} {index producer : Nat} {rest : List (Nat × Nat)} (linked : Linked pipeline)
    (waking : pipeline.waking = (issuer.uop.sequenceNumber, entry.uop.sequenceNumber) :: rest)
    (there : pipeline.rob.entries[index]? = some entry) (member : producer ∈ entry.uop.getDependencies) :
    producer = issuer.uop.sequenceNumber ∨ Unissued pipeline.rob.entries producer := by
  refine (linked.promised index entry there producer member).pos member |>.imp (fun wakes => ?_) fun waits => ?_
  · have first := linked.waking _ (waking ▸ List.mem_cons_self)
    exact first.2.1 _ wakes
  · obtain ⟨position, other, found, numbered, waiting, -⟩ := waits
    exact ⟨position, other, found, numbered, waiting⟩

theorem Coherent.result_unissued {producer : Nat} (linked : Linked pipeline) (coherent : Coherent config entered pipeline)
    (unissued : Unissued pipeline.rob.entries producer) : result config entered pipeline producer = ⊤ := by
  obtain ⟨index, entry, there, rfl, waiting⟩ := unissued
  rw [linked.numbered index entry there, coherent.result_entry there, RobEntry.available, waiting, SubsecondTime.before_top, ite_self]

theorem RobEntry.Addressed.wake {issuer entry woken : RobEntry} {index position : Nat} {rest : List (Nat × Nat)}
    (linked : Linked pipeline) (coherent : Coherent config entered pipeline) (addressed : entry.Addressed config entered pipeline)
    (isStore : entry.uop.isStore = true)
    (waking : pipeline.waking = (issuer.uop.sequenceNumber, entry.uop.sequenceNumber) :: rest)
    (there : pipeline.rob.entries[index]? = some entry) (found : pipeline.rob.entries[position]? = some issuer) (issued : issuer.done ≠ ⊤)
    (wakes : entry.Wakes pipeline.rob.entries issuer.uop.sequenceNumber (issuer.available config.period) woken) :
    woken.Addressed config entered pipeline := by
  have readyMax : woken.readyMax = max entry.readyMax (issuer.available config.period) := by
    obtain ⟨uop, -, isWoken⟩ := wakes.release
    rw [isWoken]
    rfl
  obtain ⟨uop, drops, isWoken⟩ := wakes.release
  have isUop : woken.uop = uop := by
    rw [isWoken]
    rfl
  have proper := linked.proper index entry there
  have stays {producer : Nat} (member : producer ∈ entry.uop.getDependencies) (other : producer ≠ issuer.uop.sequenceNumber) :
      producer ∈ woken.uop.getDependencies :=
    isUop ▸ drops.kept proper member fun listed => other (List.mem_singleton.mp listed)
  have isResult : result config entered pipeline issuer.uop.sequenceNumber = issuer.available config.period := by
    rw [linked.numbered position issuer found, coherent.result_entry found]
  have number : woken.uop.sequenceNumber = entry.uop.sequenceNumber := wakes.keeps.sequenceNumber
  have known : entry.addressReadyMax ≠ ⊤ := ne_top_of_le_ne_top (coherent.timed index entry there).known addressed.most
  obtain ⟨change, producers⟩ := wakes.woken linked.numbered
  -- The latest of the results that are known so far, with that of the issuer.
  have latest (isLatest : woken.addressReadyMax = if issuer.uop.sequenceNumber ∈ entry.addressProducers then
        max entry.addressReadyMax (issuer.available config.period) else entry.addressReadyMax) :
      entry.addressReadyMax ≤ woken.addressReadyMax ∧ woken.addressReadyMax ≤ woken.readyMax ∧
        (issuer.uop.sequenceNumber ∈ entry.addressProducers → issuer.available config.period ≤ woken.addressReadyMax) := by
    rw [isLatest, readyMax]
    split
    case isTrue => exact ⟨le_max_left _ _, max_le_max_right _ addressed.most, fun _ => le_max_right _ _⟩
    case isFalse other => exact ⟨le_refl _, le_trans addressed.most (le_max_left _ _), fun member => absurd member other⟩
  cases change with
  | known isKnown ready isLatest =>
    have notWaiting : entry.addressReady ≠ ⊤ := fun waiting => isKnown ⟨isStore, waiting⟩
    refine ⟨?_, ?_, fun waiting => absurd (ready.symm.trans waiting) notWaiting, fun producer member => ?_, fun producer isProducer => ?_⟩
    · rw [isLatest, readyMax]
      exact le_trans addressed.most (le_max_left _ _)
    · rw [ready, isLatest]
      exact addressed.known
    · rw [isLatest]
      exact .inr ((addressed.listed producer (producers ▸ member)).resolve_left fun waits => notWaiting waits.2)
    · rw [isLatest, producers]
      exact addressed.all producer (number ▸ isProducer)
  | waits other waiting waiting' isLatest member unissued =>
    obtain ⟨grows, within, issuerIn⟩ := latest isLatest
    have onDependency {producer : Nat} (member : producer ∈ entry.addressProducers) :
        (producer ∈ woken.uop.getDependencies ∧ woken.addressReady = ⊤) ∨
          result config entered pipeline producer ≤ woken.addressReadyMax := by
      cases addressed.listed producer member with
      | inl waits =>
        by_cases isIssuer : producer = issuer.uop.sequenceNumber
        · subst isIssuer
          exact .inr (le_of_eq_of_le isResult (issuerIn member))
        · exact .inl ⟨stays waits.1 isIssuer, waiting'⟩
      | inr early => exact .inr (le_trans early grows)
    refine ⟨within, fun notWaiting => absurd waiting' notWaiting, fun _ => ⟨other, producers.symm ▸ member, ?_⟩,
      fun producer member => onDependency (producers ▸ member), fun producer isProducer => ?_⟩
    · cases addressed.listed other member with
      | inl waits =>
        refine stays waits.1 fun same => ?_
        have issuerUnissued := coherent.result_unissued linked (same ▸ unissued)
        rw [isResult] at issuerUnissued
        exact RobEntry.available_ne_top issued issuerUnissued
      | inr early =>
        rw [coherent.result_unissued linked unissued, top_le_iff] at early
        exact absurd early known
    · rw [producers]
      exact (addressed.all producer (number ▸ isProducer)).imp_right fun early => le_trans early grows
  | ready waiting isReady isLatest none_ =>
    obtain ⟨grows, within, issuerIn⟩ := latest isLatest
    have change : Change config pipeline index entry woken := .wake issuer position rest woken waking found issued wakes
    have readyMaxKnown := ((coherent.timed index entry there).change change).known
    refine ⟨within, fun _ => isReady, fun waiting' => ?_, fun producer member => .inr ?_, fun producer isProducer => ?_⟩
    · exact absurd (isReady.symm.trans waiting') (ne_top_of_le_ne_top readyMaxKnown within)
    · rw [producers] at member
      cases addressed.listed producer member with
      | inl waits =>
        cases linked.waits_or_issuer waking there waits.1 with
        | inl isIssuer =>
          subst isIssuer
          exact le_of_eq_of_le isResult (issuerIn member)
        | inr unissued => exact absurd unissued (none_ producer member)
      | inr early => exact le_trans early grows
    · rw [producers]
      exact (addressed.all producer (number ▸ isProducer)).imp_right fun early => le_trans early grows

section Insert

variable {uop tracked needed : DynamicMicroOp} {rob' : Rob} {entry : RobEntry} {looked : List RobEntry × List Nat × SubsecondTime}

theorem Inserted.addressProducer {register : Option Nat} {producer : Nat} (coherent : Coherent config entered pipeline)
    (inserted : Inserted config pipeline.rob uop rob' entry tracked needed looked) (isStore : uop.isStore = true)
    (reads : uop.AddressesRead) (isRegister : register ∈ uop.microOp.addressRegisters)
    (peeked : pipeline.rob.registerDependencies.peekProducer register pipeline.rob.lowest = some producer) :
    producer ∈ needed.getDependencies := by
  have isTracked := (coherent.setDependencies inserted).2
  have isNeeded := inserted.needed_eq isStore
  cases register with
  | none => cases peeked
  | some register =>
    have length : (stream entered).length = entered.length := List.length_map _
    have tracks := (coherent.tracks.append [uop] (Nat.le_of_eq length.symm)).registers register
    have known : (pipeline.rob.registerDependencies register).filter (pipeline.rob.lowest ≤ ·) = some producer := peeked
    have last := Option.filter_eq_some_iff.mp (tracks.symm.trans known)
    rw [isNeeded, isTracked, DynamicMicroOp.getDependencies]
    refine List.mem_append_right _ (DynamicMicroOp.mem_withDependencies.mpr (.inr (List.mem_append_left _ ?_)))
    exact Trackers.mem_sourceProducers.mpr ⟨register, reads isStore register isRegister, last.1, of_decide_eq_true last.2⟩

theorem Inserted.addressed (linked : Linked pipeline) (coherent : Coherent config entered pipeline)
    (inserted : Inserted config pipeline.rob uop rob' entry tracked needed looked) (isStore : uop.isStore = true)
    (reads : uop.AddressesRead) : entry.Addressed config (entered ++ [⟨pipeline, uop⟩]) { pipeline with rob := rob' } := by
  have found := (findAddressProducers_found pipeline.rob pipeline.rob.lowest isStore).of_ok inserted.address
  have readyMax : entry.readyMax = looked.2.2 := congrArg RobEntry.readyMax inserted.isEntry
  have ready : entry.addressReady = if uop.isStore && entry.addressProducers = [] then entry.addressReadyMax else ⊤ :=
    congrArg RobEntry.addressReady inserted.isEntry
  have most : entry.addressReadyMax ≤ entry.readyMax := by
    rw [readyMax]
    refine found.least _ fun register isRegister producer peeked index old there numbered issued => ?_
    have member := inserted.addressProducer coherent isStore reads isRegister peeked
    exact inserted.added.late index old there issued (numbered ▸ member)
  have known : entry.addressReadyMax ≠ ⊤ := ne_top_of_le_ne_top (inserted.timed pipeline.now).known most
  have dependency {producer : Nat} (member : producer ∈ entry.addressProducers) : producer ∈ entry.uop.getDependencies := by
    obtain ⟨⟨index, old, there, rfl, waiting⟩, register, isRegister, peeked⟩ := found.waits producer member
    exact inserted.stays there waiting (inserted.addressProducer coherent isStore reads isRegister peeked)
  have waiting {producer : Nat} (member : producer ∈ entry.addressProducers) : entry.addressReady = ⊤ := by
    rw [ready, isStore, Bool.true_and, if_neg]
    intro nothing
    rw [of_decide_eq_true nothing] at member
    cases member
  refine ⟨most, fun notWaiting => ?_, fun notReady => ?_, fun producer member => .inl ⟨dependency member, waiting member⟩,
    fun producer isProducer => ?_⟩
  · cases producers : entry.addressProducers with
    | nil => rw [ready, isStore, producers, decide_eq_true rfl, Bool.and_self, if_pos rfl]
    | cons producer rest => exact absurd (waiting (producers ▸ List.mem_cons_self)) notWaiting
  · cases producers : entry.addressProducers with
    | nil =>
      rw [ready, isStore, producers, decide_eq_true rfl, Bool.and_self, if_pos rfl] at notReady
      exact absurd notReady known
    | cons producer rest => exact ⟨producer, List.mem_cons_self, dependency (producers ▸ List.mem_cons_self)⟩
  · obtain ⟨entering, isEntered, inRob, entering', isEntered', register, isRegister, last⟩ := isProducer
    have number : entry.uop.sequenceNumber = entered.length := inserted.sequenceNumber.trans coherent.count.symm
    have newest := entering_last entered ⟨pipeline, uop⟩
    rw [number] at isEntered isEntered' last
    cases newest.symm.trans isEntered
    cases newest.symm.trans isEntered'
    have length : (stream entered).length = entered.length := List.length_map _
    have isStream : stream (entered ++ [⟨pipeline, uop⟩]) = stream entered ++ [uop] := List.map_append
    have tracks := (coherent.tracks.append [uop] (Nat.le_of_eq length.symm)).registers register
    rw [isStream] at last
    rw [last, Option.filter_some, if_pos (decide_eq_true inRob)] at tracks
    refine (found.all (some register) isRegister producer tracks).imp_right fun done => ?_
    obtain ⟨index, old, there, rfl, early⟩ := done
    refine inserted.settled.result_le (List.prefix_append _ _) ?_ known
    rw [linked.numbered index old there, coherent.result_entry there]
    exact le_trans (old.available_le _) early

end Insert

/-- If all stores read their address registers, the addresses of the stores in the ROB are as ready as their producers are. -/
def Addresses (config : Config Cycle Mem) (entered : List Entering) (pipeline : Pipeline) : Prop :=
  (∀ entering ∈ entered, entering.uop.AddressesRead) → ∀ (index : Nat) (entry : RobEntry),
    pipeline.rob.entries[index]? = some entry → entry.uop.isStore = true → entry.Addressed config entered pipeline

theorem addresses_keeps : Keeps config fun entered pipeline => Coherent config entered pipeline ∧ Addresses config entered pipeline where
  insert := fun {entered pipeline uop rob' entry tracked needed looked} linked none_ holds _ inserted => by
    refine ⟨holds.1.insert linked none_ inserted, fun reads index later found isStore => ?_⟩
    obtain ⟨readsAll, readsNew⟩ := List.forall_mem_append.mp reads
    cases inserted.cases found with
    | inl before =>
      obtain ⟨old, there, gains⟩ := before
      have same : SameAddress old later := by
        rw [gains]
        exact ⟨rfl, rfl, rfl, rfl, rfl, rfl⟩
      have wasStore : old.uop.isStore = true := (gains_uop gains).1 ▸ isStore
      exact (holds.2 readsAll index old there wasStore).of_same same (holds.1.timed index old there).known inserted.settled
        (List.prefix_append _ _) (holds.1.number_lt linked there)
    | inr new =>
      obtain ⟨rfl, rfl⟩ := new
      have store : uop.isStore = true := (congrArg MicroOp.isStore inserted.microOp).symm.trans isStore
      exact inserted.addressed linked holds.1 store (readsNew _ List.mem_cons_self)
  move := fun {entered pipeline pipeline'} linked holds move => by
    refine ⟨holds.1.move linked move, fun reads index later found isStore => ?_⟩
    obtain ⟨entry, there, change⟩ := move.change found
    have wasStore : entry.uop.isStore = true := (congrArg MicroOp.isStore change.later.microOp).symm.trans isStore
    have addressed := holds.2 reads index entry there wasStore
    have within := holds.1.number_lt linked there
    have known := (holds.1.timed index entry there).known
    cases change with
    | same => exact addressed.of_same ⟨rfl, rfl, rfl, rfl, rfl, rfl⟩ known move.settled (List.prefix_refl _) within
    | dispatch => exact addressed.of_same ⟨rfl, rfl, rfl, rfl, rfl, rfl⟩ known move.settled (List.prefix_refl _) within
    | issue => exact addressed.of_same ⟨rfl, rfl, rfl, rfl, rfl, rfl⟩ known move.settled (List.prefix_refl _) within
    | wake issuer position rest woken waking inRob issued wakes =>
      have change : Change config pipeline index entry later := .wake issuer position rest later waking inRob issued wakes
      have known' := ((holds.1.timed index entry there).change change).known
      have number : later.uop.sequenceNumber = entry.uop.sequenceNumber := wakes.keeps.sequenceNumber
      exact (addressed.wake linked holds.1 wasStore waking there inRob issued wakes).of_same ⟨rfl, rfl, rfl, rfl, rfl, rfl⟩ known'
        move.settled (List.prefix_refl _) (number ▸ within)
  commit := fun {entered pipeline pipeline'} linked holds commit => by
    refine ⟨holds.1.commit linked commit, fun reads index entry found isStore => ?_⟩
    obtain ⟨position, there⟩ : ∃ position : Nat, pipeline.rob.entries[position]? = some entry := by
      cases commit with
      | front front rest none_ isRob done => exact ⟨index + 1, by rw [isRob]; exact found⟩
    exact (holds.2 reads position entry there isStore).of_same ⟨rfl, rfl, rfl, rfl, rfl, rfl⟩ (holds.1.timed position entry there).known
      commit.settled (List.prefix_refl _) (holds.1.number_lt linked there)
  tick := fun {entered pipeline later} holds le => by
    refine ⟨coherent_keeps.tick holds.1 le, fun reads index entry found isStore => ?_⟩
    obtain ⟨most, known, waits, listed, all⟩ := holds.2 reads index entry found isStore
    exact ⟨most, known, waits, listed, all⟩

/-! ### Loads behind stores -/

def RobEntry.Resolved (entry later : RobEntry) : Prop := entry.addressReady ≠ ⊤ → later.addressReady = entry.addressReady

theorem Move.resolved (linked : Linked pipeline) (move : Move config pipeline pipeline') :
    Entrywise RobEntry.Resolved pipeline.rob.entries pipeline'.rob.entries := by
  refine ⟨move.laterEntries.1, fun index entry later there found known => ?_⟩
  obtain ⟨old, there', change⟩ := move.change found
  cases there.symm.trans there'
  cases change with
  | same => rfl
  | dispatch => rfl
  | issue => rfl
  | wake issuer position rest woken waking inRob issued wakes =>
    cases (wakes.woken linked.numbered).1 with
    | known _ ready => exact ready
    | waits other waiting => exact absurd waiting known
    | ready waiting => exact absurd waiting known

theorem Moves.resolved (linked : Linked pipeline) (moves : Moves config pipeline pipeline') :
    Entrywise RobEntry.Resolved pipeline.rob.entries pipeline'.rob.entries := by
  induction moves with
  | refl => exact .refl (fun _ _ => rfl) _
  | tail before last ih =>
    refine ih.trans (fun entry later final first second known => ?_) (last.resolved (linked.moves before))
    exact (second (first known ▸ known)).trans (first known)

/-- The loop knows of the stores before an index whose addresses are not ready. -/
def Marked (index : Nat) (loop : IssueLoop Cycle) (state : State Mem) : Prop :=
  ∀ (older : Nat) (store : RobEntry), older < index → state.rob.entries[older]? = some store → store.uop.isStore = true →
    store.done = ⊤ → ¬store.addressReady ≤ state.now → loop.haveUnresolvedStore = true

theorem Marked.turn {start state : State Mem} {visit : Visit Cycle Mem} {loop : IssueLoop Cycle}
    (marked : Marked visit.index visit.loop visit.state) (linked : Linked visit.state.pipeline) (proper : visit.Proper config start)
    (turn : visit.Turn config state loop true) : Marked (visit.index + 1) loop state := by
  intro older store before there isStore waiting late
  cases turn with
  | done nextEvent issued =>
    cases Nat.lt_succ_iff_lt_or_eq.mp before with
    | inl earlier => exact marked older store earlier there isStore waiting late
    | inr same =>
      subst same
      cases proper.there.symm.trans there
      exact absurd waiting issued
  | issue nextEvent nextEvent' ports ports' state continues issues ran =>
    have issuedAt := proper.issue issues ran
    cases Nat.lt_succ_iff_lt_or_eq.mp before with
    | inl earlier =>
      obtain ⟨old, found, resolved⟩ := (issuedAt.moves.resolved linked).old there
      have kept := issuedAt.other (Nat.ne_of_gt earlier) found there
      have wasStore : old.uop.isStore = true := (congrArg MicroOp.isStore kept.microOp).symm.trans isStore
      refine marked older old earlier found wasStore (kept.done.symm.trans waiting) fun early => late ?_
      rw [issuedAt.now, resolved (ne_top_of_le_ne_top (SubsecondTime.fs_ne_top _) early)]
      exact early
    | inr same =>
      subst same
      exact absurd waiting (issuedAt.issued proper.there there)
  | pass nextEvent decision ports continues unissued decided goesOn tried =>
    rw [IssueLoop.pass, Bool.or_eq_true]
    cases Nat.lt_succ_iff_lt_or_eq.mp before with
    | inl earlier => exact .inl (marked older store earlier there isStore waiting late)
    | inr same =>
      subst same
      cases proper.there.symm.trans there
      refine .inr ?_
      rw [isStore, Bool.true_and, decide_eq_true_eq]
      exact not_le.mp late

theorem Visits.marked {start : State Mem} {visit : Visit Cycle Mem} (linked : Linked start.pipeline) (visits : Visits config start visit) :
    Marked visit.index visit.loop visit.state := by
  induction visits with
  | first entry => exact fun older _ before => absurd before (Nat.not_lt_zero older)
  | next visit state loop entry visits ran inWindow there ih =>
    have linkedHere := linked.moves visits.proper.inLoop.moves
    exact ih.turn linkedHere visits.proper ((issueEntry_turn visit).of_ok ran)

/-! ### Runs -/

/-- The address of a store is ready with the store, and not before any producer that was in the ROB when the store entered. -/
def AddressInTime (config : Config Cycle Mem) (entered : List Entering) (visit : Visit Cycle Mem) : Prop :=
  visit.entry.addressReady ≤ visit.entry.ready ∧ ∀ producer, AddressProducer entered visit.entry.uop.sequenceNumber producer →
    result config entered visit.state.pipeline producer ≤ visit.entry.addressReady

/-- Every older store in the ROB that has not issued has the results of all producers of its address. -/
def Disambiguated (config : Config Cycle Mem) (entered : List Entering) (visit : Visit Cycle Mem) : Prop :=
  ∀ store ∈ visit.older, store.uop.isStore = true → store.done = ⊤ →
    ∀ producer, AddressWriter entered store.uop.sequenceNumber producer →
      result config entered visit.state.pipeline producer ≤ visit.state.now

theorem RobEntry.Addressed.producer {entry : RobEntry} (addressed : entry.Addressed config entered pipeline)
    (ready : entry.addressReady ≠ ⊤) {producer : Nat} (isProducer : AddressProducer entered entry.uop.sequenceNumber producer) :
    result config entered pipeline producer ≤ entry.addressReady := by
  rw [addressed.known ready]
  cases addressed.all producer isProducer with
  | inl member => exact (addressed.listed producer member).resolve_left fun waits => ready waits.2
  | inr early => exact early

theorem RobEntry.Addressed.inTime {visit : Visit Cycle Mem} (addressed : visit.entry.Addressed config entered visit.state.pipeline)
    (timed : visit.entry.Timed config.period visit.state.now) (issues : visit.Issues config) : AddressInTime config entered visit := by
  have nothing := timed.ready (canIssue_eq_issue.mp issues.decision).ready
  have known : visit.entry.addressReady ≠ ⊤ := by
    intro waiting
    obtain ⟨producer, -, member⟩ := addressed.waits waiting
    rw [nothing] at member
    cases member
  refine ⟨?_, fun producer isProducer => addressed.producer known isProducer⟩
  calc visit.entry.addressReady = visit.entry.addressReadyMax := addressed.known known
    _ ≤ visit.entry.readyMax := addressed.most
    _ ≤ visit.entry.ready := timed.least nothing

theorem Coherent.writer_le {visit : Visit Cycle Mem} {producer : Nat} {store : RobEntry} (linked : Linked visit.state.pipeline)
    (coherent : Coherent config entered visit.state.pipeline) (addressed : store.Addressed config entered visit.state.pipeline)
    (ready : store.addressReady ≤ visit.state.now)
    (writer : AddressWriter entered store.uop.sequenceNumber producer) :
    result config entered visit.state.pipeline producer ≤ visit.state.now := by
  obtain ⟨entering, isEntered, register⟩ := writer
  by_cases inRob : entering.pipeline.rob.lowest ≤ producer
  · have known : store.addressReady ≠ ⊤ := ne_top_of_le_ne_top (SubsecondTime.fs_ne_top _) ready
    exact le_trans (addressed.producer known ⟨entering, isEntered, inRob, entering, isEntered, register⟩) ready
  · have lowest := coherent.lowest entering (List.mem_of_getElem? isEntered)
    exact coherent.result_traced linked (Nat.lt_of_lt_of_le (Nat.lt_of_not_le inRob) lowest)

theorem Marked.resolved {visit : Visit Cycle Mem} {index : Nat} {store : RobEntry} (marked : Marked visit.index visit.loop visit.state)
    (issues : visit.Issues config) (head : visit.loop.headOfQueue = true → OlderIssued visit.state.rob.entries visit.index)
    (disambiguates : config.noAddressDisambiguation = true) (load : visit.entry.uop.isLoad = true) (before : index < visit.index)
    (there : visit.state.rob.entries[index]? = some store) (isStore : store.uop.isStore = true) (waiting : store.done = ⊤) :
    store.addressReady ≤ visit.state.now := by
  have lets := canIssue_eq_issue.mp issues.decision
  cases barrier : visit.entry.uop.barrier with
  | true =>
    have inOrder : visit.entry.uop.inOrder = true := by rw [DynamicMicroOp.inOrder, barrier, Bool.true_or]
    exact absurd waiting (head (lets.head inOrder) index store before there)
  | false =>
    by_contra late
    have unresolved := marked index store before there isStore waiting late
    rw [lets.resolved barrier load disambiguates] at unresolved
    cases unresolved

/-- In every run of micro-operations whose stores read their address registers, a store issues with its address ready, and loads
pass stores only with their addresses, if these are not disambiguated. -/
theorem store_addresses (config : Config Cycle Mem) (advance : Advance) (outstandingLoads outstandingStores start : Nat) (memory : Mem)
    (supply : List (List DynamicMicroOp)) (reads : ∀ insts ∈ supply, ∀ uop ∈ insts, uop.AddressesRead) :
    ∀ observed, (observation config advance (.initial outstandingLoads outstandingStores start memory supply)).Reachable observed →
      ∀ visit, observed.system.Visits config visit → visit.Issues config →
        (visit.entry.uop.isStore = true → AddressInTime config observed.entered visit) ∧
          (config.noAddressDisambiguation = true → visit.entry.uop.isLoad = true → Disambiguated config observed.entered visit) := by
  intro observed reached visit visits issues
  have initially : Linked (System.initial outstandingLoads outstandingStores start memory supply).timer.state.pipeline ∧
      Coherent config [] (System.initial outstandingLoads outstandingStores start memory supply).timer.state.pipeline ∧
      Addresses config [] (System.initial outstandingLoads outstandingStores start memory supply).timer.state.pipeline :=
    ⟨linked_initial .., coherent_initial .., fun _ _ _ found => by cases found⟩
  obtain ⟨linked, coherent, addresses⟩ := addresses_keeps.visits initially reached visits
  obtain ⟨linkedBefore, -⟩ := addresses_keeps.reachable initially reached
  have readsAll : ∀ entering ∈ observed.entered, entering.uop.AddressesRead := by
    intro entering member
    obtain ⟨insts, isSupplied, isUop⟩ := (observed_supply reached).1 entering member
    exact reads insts isSupplied entering.uop isUop
  obtain ⟨-, dispatched, ran, walk⟩ := visits
  have proper := walk.proper
  have dispatches := (doDispatch_moves observed.system.timer.state _).of_ok ran
  have marked := walk.marked (linkedBefore.moves dispatches)
  refine ⟨fun isStore => ?_, fun disambiguates load store member isStore waiting producer writer => ?_⟩
  · exact (addresses readsAll visit.index visit.entry proper.there isStore).inTime (coherent.timed visit.index visit.entry proper.there)
      issues
  · obtain ⟨index, there⟩ := List.getElem?_of_mem member
    rw [Visit.older, List.getElem?_take] at there
    split at there
    case isFalse => cases there
    case isTrue before =>
      have ready := marked.resolved issues proper.inLoop.head disambiguates load before there isStore waiting
      exact coherent.writer_le linked (addresses readsAll index store there isStore) ready writer

/-- A core that does not disambiguate addresses. -/
def ambiguousCore : Config Unit Unit :=
  { smallCore with dispatchWidth := 4, commitWidth := 4, windowSize := 4, noAddressDisambiguation := true }

/-- A store of a slow value to an address that is there sooner, and a load after it. -/
def slowStore : List (List DynamicMicroOp) :=
  [{ computes 6 false with microOp := ⟨.execute, [], [], [0], false, false, false⟩ } ::
    { computes 3 false with microOp := ⟨.execute, [], [], [1], false, false, false⟩ } ::
    { computes 1 false with microOp := ⟨.store, [0, 1], [some 1], [], false, false, false⟩ } ::
    { computes 1 false with microOp := ⟨.load, [], [], [], false, false, false⟩, address := 64 } ::
    List.replicate 8 (computes 1 false)]

/-- The store issues after both of its producers, and the load before the store, once its address is there. -/
theorem store_addresses_slowStore :
    (∃ observed visit, (observation ambiguousCore .skipping (.initial 1 1 0 () slowStore)).Reachable observed ∧
      visit.entry.uop.isStore = true ∧ AddressInTime ambiguousCore observed.entered visit) ∧
    ∃ observed visit, (observation ambiguousCore .skipping (.initial 1 1 0 () slowStore)).Reachable observed ∧
      (∃ store ∈ visit.older, store.uop.isStore = true ∧ store.done = ⊤) ∧ Disambiguated ambiguousCore observed.entered visit := by
  have addresses := store_addresses ambiguousCore .skipping 1 1 0 () slowStore (by decide)
  constructor
  · have ends : (observation ambiguousCore .skipping (.initial 1 1 0 () slowStore)).endsWith (fun _ => true)
        (fun observed => (observed.system.visitAt ambiguousCore 2).any fun visit => visit.entry.done = ⊤ ∧
          canIssue ambiguousCore visit.state visit.loop visit.entry = .issue ∧ visit.entry.uop.isStore)
        ⟨.initial 1 1 0 () slowStore, []⟩ (List.replicate 8 ()) = true := by
      decide +kernel
    obtain ⟨observed, reached, found⟩ := Machine.Reach.of_endsWith (.initial rfl) (fun _ _ _ => trivial) ends
    obtain ⟨visit, visits, facts⟩ := (Option.any_eq_true _ _).mp found
    obtain ⟨waiting, decision, isStore⟩ := of_decide_eq_true facts
    have issues := Visit.issues_of_canIssue rfl waiting decision
    exact ⟨observed, visit, reached, isStore,
      (addresses observed reached visit (System.visits_of_visitAt visits) issues).1 isStore⟩
  · have ends : (observation ambiguousCore .skipping (.initial 1 1 0 () slowStore)).endsWith (fun _ => true)
        (fun observed => (observed.system.visitAt ambiguousCore 3).any fun visit => visit.entry.done = ⊤ ∧
          canIssue ambiguousCore visit.state visit.loop visit.entry = .issue ∧ visit.entry.uop.isLoad ∧
          visit.older.any fun store => store.uop.isStore ∧ store.done = ⊤)
        ⟨.initial 1 1 0 () slowStore, []⟩ (List.replicate 5 ()) = true := by
      decide +kernel
    obtain ⟨observed, reached, found⟩ := Machine.Reach.of_endsWith (.initial rfl) (fun _ _ _ => trivial) ends
    obtain ⟨visit, visits, facts⟩ := (Option.any_eq_true _ _).mp found
    obtain ⟨waiting, decision, load, some_⟩ := of_decide_eq_true facts
    obtain ⟨store, member, unissued⟩ := List.any_eq_true.mp some_
    have issues := Visit.issues_of_canIssue rfl waiting decision
    exact ⟨observed, visit, reached, ⟨store, member, of_decide_eq_true unissued⟩,
      (addresses observed reached visit (System.visits_of_visitAt visits) issues).2 rfl load⟩

end RobTimer

end Sniper.Performance

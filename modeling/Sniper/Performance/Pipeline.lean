import Sniper.Performance.DependencyLists
import Sniper.Performance.RobStages
import Mathlib.Logic.Relation

/-! What the stages of a cycle do to the pipeline, one micro-operation at a time. -/

namespace Sniper.Performance

def DynamicMicroOp.barrier (uop : DynamicMicroOp) : Bool := uop.microOp.serializing || uop.microOp.membar

/-- What issues only when every older micro-operation has issued. -/
def DynamicMicroOp.inOrder (uop : DynamicMicroOp) : Bool := uop.barrier || uop.isStore

namespace RobTimer

variable {Cycle Mem : Type} {config : Config Cycle Mem}

def SubsecondTime.before (time : SubsecondTime) (period : Nat) : SubsecondTime := WithTop.map (· - period) time

theorem SubsecondTime.before_fs (value period : Nat) : (fs value).before period = fs (value - period) := rfl

/-- The part of the state that orders the micro-operations. -/
structure Pipeline where
  rob : Rob
  numInRob : Nat
  rsEntriesUsed : Nat
  now : Nat
  traced : List UopTimes
  /-- The micro-operation that issues with each dependant that it has still to wake. -/
  waking : List (Nat × Nat)

def State.pipeline (state : State Mem) : Pipeline :=
  ⟨state.rob, state.numInRob, state.rsEntriesUsed, state.now, state.traced, []⟩

def Pipeline.withEntries (pipeline : Pipeline) (entries : List RobEntry) : Pipeline :=
  { pipeline with rob := { pipeline.rob with entries := entries } }

def Pipeline.setEntry (pipeline : Pipeline) (index : Nat) (entry : RobEntry) : Pipeline :=
  pipeline.withEntries (pipeline.rob.entries.set index entry)

/-- When the result of the micro-operation is available to dependent ones. -/
def RobEntry.available (period : Nat) (entry : RobEntry) : SubsecondTime :=
  if entry.uop.isStore then entry.done else entry.done.before period

def OlderIssued (entries : List RobEntry) (index : Nat) : Prop :=
  ∀ older entry, older < index → entries[older]? = some entry → entry.done ≠ ⊤

def RobEntry.issue (config : Config Cycle Mem) (entry : RobEntry) (uop : DynamicMicroOp) (now : Nat) : RobEntry :=
  { entry with uop := uop, issued := now, done := cycleDone config uop now }

/-- An entry without the dependency on a producer that issues. -/
def RobEntry.release (entry : RobEntry) (uop : DynamicMicroOp) (cycleDepend : SubsecondTime) : RobEntry :=
  let readyMax := max entry.readyMax cycleDepend
  { entry with uop := uop, readyMax := readyMax, ready := if uop.getDependenciesLength = 0 then readyMax else entry.ready }

def RobEntry.Wakes (entries : List RobEntry) (producer : Nat) (cycleDepend : SubsecondTime) (entry woken : RobEntry) : Prop :=
  entry.uop.getDependenciesLength ≠ 0 ∧ ∃ uop, entry.uop.removeDependency producer = .ok uop ∧
    produceAddress entries producer cycleDepend (entry.release uop cycleDepend) = .ok woken

/-- One thing that happens to one micro-operation in a cycle, before any commits. -/
inductive Move (config : Config Cycle Mem) (pipeline : Pipeline) : Pipeline → Prop where
  | dispatch (entry : RobEntry) : pipeline.waking = [] → pipeline.numInRob < config.windowSize →
      pipeline.rsEntriesUsed ≠ config.rsEntries → pipeline.rob.entries[pipeline.numInRob]? = some entry →
      Move config pipeline { pipeline.setEntry pipeline.numInRob (entry.dispatch config pipeline.now) with
        numInRob := pipeline.numInRob + 1, rsEntriesUsed := pipeline.rsEntriesUsed + 1 }
  | issue (index : Nat) (entry : RobEntry) (execLatency : Nat) (where_ : HitWhere) : pipeline.waking = [] →
      index < pipeline.numInRob → pipeline.rob.entries[index]? = some entry → entry.done = ⊤ → entry.ready ≤ pipeline.now →
      (entry.uop.inOrder = true → OlderIssued pipeline.rob.entries index) →
      Move config pipeline { pipeline.setEntry index
          (entry.issue config { entry.uop with execLatency := execLatency, dCacheHitWhere := where_ } pipeline.now) with
        rsEntriesUsed := pipeline.rsEntriesUsed - 1, waking := entry.dependants.map (entry.uop.sequenceNumber, ·) }
  | wake (issuer : RobEntry) (index dependant : Nat) (rest : List (Nat × Nat)) (position : Nat) (entry woken : RobEntry) :
      pipeline.waking = (issuer.uop.sequenceNumber, dependant) :: rest → pipeline.rob.entries[index]? = some issuer →
      issuer.done ≠ ⊤ → pipeline.rob.entries[position]? = some entry → entry.uop.sequenceNumber = dependant →
      entry.Wakes pipeline.rob.entries issuer.uop.sequenceNumber (issuer.available config.period) woken →
      Move config pipeline { pipeline.setEntry position woken with waking := rest }

abbrev Moves (config : Config Cycle Mem) : Pipeline → Pipeline → Prop := Relation.ReflTransGen (Move config)

inductive Commit (pipeline : Pipeline) : Pipeline → Prop where
  | front (front : RobEntry) (rest : List RobEntry) : pipeline.waking = [] → pipeline.rob.entries = front :: rest →
      front.done ≤ pipeline.now →
      Commit pipeline { pipeline.withEntries rest with
        numInRob := pipeline.numInRob - 1, traced := pipeline.traced ++ [front.times pipeline.now] }

/-! ### Dispatch -/

theorem dispatchLoop_moves (width : Nat) (state : State Mem) (nextEvent : SubsecondTime) :
    Meets (fun _ => True) (dispatchLoop config width state nextEvent) fun result =>
      Moves config state.pipeline result.1.pipeline := by
  induction width generalizing state nextEvent with
  | zero =>
    rw [dispatchLoop]
    refine Meets.ite (fun _ => ?_) fun _ => Meets.ok .refl
    split
    case h_1 => trivial
    case h_2 => exact Meets.ok .refl
  | succ width ih =>
    rw [dispatchLoop]
    refine Meets.ite (fun room => ?_) fun _ => Meets.ok .refl
    split
    case h_1 => trivial
    case h_2 entry there =>
      refine Meets.ite (fun _ => Meets.ok .refl) fun _ => Meets.ite (fun _ => Meets.ok .refl) fun stations => ?_
      have first : Moves config state.pipeline _ := .single (.dispatch entry rfl room stations there)
      refine Meets.ite (fun _ => Meets.ok first) fun _ => ?_
      exact (ih _ _).mono fun result rest => first.trans rest

theorem doDispatch_moves (state : State Mem) (stall : Option CpiComponent) :
    Meets (fun _ => True) (doDispatch config state stall) fun result => Moves config state.pipeline result.1.pipeline := by
  rw [doDispatch, runFrontEnd]
  exact Meets.bind (Meets.ite (fun _ => dispatchLoop_moves _ state ⊤) fun _ => Meets.ok .refl) fun result moves => Meets.ok moves

/-! ### Issue -/

theorem accessAtIssue_eq (config : Config Cycle Mem) (state : State Mem) (uop : DynamicMicroOp) :
    ∃ execLatency where_, (accessAtIssue config state uop).1 =
      { uop with execLatency := execLatency, dCacheHitWhere := where_ } := by
  rw [accessAtIssue]
  split
  case isTrue => exact ⟨_, _, rfl⟩
  case isFalse => exact ⟨_, _, rfl⟩

theorem available_issue (config : Config Cycle Mem) (entry : RobEntry) (uop : DynamicMicroOp) (now : Nat) :
    (entry.issue config uop now).available config.period = (cycleDepend config uop now : Nat) := by
  simp only [RobEntry.available, RobEntry.issue, cycleDone, cycleDepend]
  split
  case isTrue => rfl
  case isFalse => rw [SubsecondTime.before_fs, Nat.add_sub_cancel]

/-- Every entry is at its index before and after, and related to itself. -/
def Entrywise (related : RobEntry → RobEntry → Prop) (before after : List RobEntry) : Prop :=
  after.length = before.length ∧ ∀ (index : Nat) (entry later : RobEntry),
    before[index]? = some entry → after[index]? = some later → related entry later

namespace Entrywise

variable {related : RobEntry → RobEntry → Prop} {before after : List RobEntry}

theorem refl (reflexive : ∀ entry, related entry entry) (entries : List RobEntry) : Entrywise related entries entries := by
  refine ⟨rfl, fun index entry later found found' => ?_⟩
  cases found.symm.trans found'
  exact reflexive entry

theorem old (entrywise : Entrywise related before after) {index : Nat} {later : RobEntry} (there : after[index]? = some later) :
    ∃ entry, before[index]? = some entry ∧ related entry later := by
  have within := (List.getElem?_eq_some_iff.mp there).1
  have found := List.getElem?_eq_getElem (entrywise.1 ▸ within)
  exact ⟨_, found, entrywise.2 index _ later found there⟩

theorem new (entrywise : Entrywise related before after) {index : Nat} {entry : RobEntry} (there : before[index]? = some entry) :
    ∃ later, after[index]? = some later ∧ related entry later := by
  have within := (List.getElem?_eq_some_iff.mp there).1
  have found := List.getElem?_eq_getElem (entrywise.1.symm ▸ within)
  exact ⟨_, found, entrywise.2 index entry _ there found⟩

theorem trans {last : List RobEntry} (transitive : ∀ entry later last, related entry later → related later last → related entry last)
    (first : Entrywise related before after) (second : Entrywise related after last) : Entrywise related before last := by
  refine ⟨second.1.trans first.1, fun index entry final found found' => ?_⟩
  obtain ⟨later, there, firstRelated⟩ := first.new found
  exact transitive entry later final firstRelated (second.2 index later final there found')

theorem set {index : Nat} {entry later : RobEntry} (reflexive : ∀ entry, related entry entry)
    (there : before[index]? = some entry) (isRelated : related entry later) :
    Entrywise related before (before.set index later) := by
  refine ⟨List.length_set, fun position first second found found' => ?_⟩
  by_cases here : index = position
  · subst here
    rw [List.getElem?_set_self (List.getElem?_eq_some_iff.mp there).1] at found'
    cases there.symm.trans found
    cases found'
    exact isRelated
  · rw [List.getElem?_set_ne here] at found'
    cases found.symm.trans found'
    exact reflexive first

end Entrywise

structure RobEntry.Kept (entry woken : RobEntry) : Prop where
  microOp : woken.uop.microOp = entry.uop.microOp
  sequenceNumber : woken.uop.sequenceNumber = entry.uop.sequenceNumber
  dependants : woken.dependants = entry.dependants
  dispatched : woken.dispatched = entry.dispatched
  issued : woken.issued = entry.issued
  done : woken.done = entry.done

theorem produceAddress_eq (entries : List RobEntry) (producer : Nat) (cycleDepend : SubsecondTime) (entry : RobEntry) :
    Meets (fun _ => True) (produceAddress entries producer cycleDepend entry) fun woken =>
      woken = { entry with addressReady := woken.addressReady, addressReadyMax := woken.addressReadyMax } := by
  rw [produceAddress]
  refine Meets.ite (fun _ => Meets.bind (Meets.any _) fun waits _ => ?_) fun _ => Meets.ok rfl
  exact Meets.ite (fun _ => Meets.ok rfl) fun _ => Meets.ok rfl

theorem findPosition_meets (entries : List RobEntry) (number : Nat) :
    Meets (fun _ => True) (findPosition entries number) fun position =>
      ∃ entry, entries[position]? = some entry ∧ entry.uop.sequenceNumber = number := by
  cases entries with
  | nil => trivial
  | cons front rest =>
    simp only [findPosition]
    cases there : (front :: rest)[number - front.uop.sequenceNumber]? with
    | none => trivial
    | some entry => exact Meets.ite (fun same => Meets.ok ⟨entry, there, same⟩) fun _ => trivial

theorem wakeDependant_wakes (producer : Nat) (cycleDepend : SubsecondTime) (entries : List RobEntry) (dependant : Nat) :
    Meets (fun _ => True) (wakeDependant producer cycleDepend entries dependant) fun entries' =>
      ∃ position entry woken, entries[position]? = some entry ∧ entry.uop.sequenceNumber = dependant ∧
        entry.Wakes entries producer cycleDepend woken ∧ entries' = entries.set position woken := by
  rw [wakeDependant]
  refine Meets.bind (findPosition_meets entries dependant) fun position found => ?_
  obtain ⟨entry, there, numbered⟩ := found
  rw [there]
  refine Meets.ite (fun _ => trivial) fun waiting => ?_
  cases removed : entry.uop.removeDependency producer with
  | error fault => trivial
  | ok uop =>
    cases produced : produceAddress entries producer cycleDepend (entry.release uop cycleDepend) with
    | error fault =>
      simp only [RobEntry.release] at produced
      simp only [bind, Except.bind, produced]
      trivial
    | ok woken =>
      have wakes : entry.Wakes entries producer cycleDepend woken := ⟨waiting, uop, removed, produced⟩
      simp only [RobEntry.release] at produced
      simp only [bind, Except.bind, produced]
      exact Meets.ok ⟨position, entry, woken, there, numbered, wakes, rfl⟩

theorem RobEntry.Wakes.release {entries : List RobEntry} {producer : Nat} {cycleDepend : SubsecondTime} {entry woken : RobEntry}
    (wakes : entry.Wakes entries producer cycleDepend woken) :
    ∃ uop, entry.uop.Drops [producer] uop ∧
      woken = { entry.release uop cycleDepend with addressReady := woken.addressReady, addressReadyMax := woken.addressReadyMax } := by
  obtain ⟨-, uop, removed, produced⟩ := wakes
  exact ⟨uop, (entry.uop.removeDependency_meets producer).of_ok removed, (produceAddress_eq ..).of_ok produced⟩

theorem RobEntry.Wakes.keeps {entries : List RobEntry} {producer : Nat} {cycleDepend : SubsecondTime} {entry woken : RobEntry}
    (wakes : entry.Wakes entries producer cycleDepend woken) : entry.Kept woken := by
  obtain ⟨uop, drops, isWoken⟩ := wakes.release
  rw [isWoken]
  exact ⟨drops.microOp, drops.sequenceNumber, rfl, rfl, rfl, rfl⟩

theorem RobEntry.Kept.trans {entry woken last : RobEntry} (first : entry.Kept woken) (second : woken.Kept last) : entry.Kept last :=
  ⟨second.microOp.trans first.microOp, second.sequenceNumber.trans first.sequenceNumber, second.dependants.trans first.dependants,
    second.dispatched.trans first.dispatched, second.issued.trans first.issued, second.done.trans first.done⟩

theorem RobEntry.Kept.available {entry woken : RobEntry} (kept : entry.Kept woken) (period : Nat) :
    woken.available period = entry.available period := by
  rw [RobEntry.available, DynamicMicroOp.isStore, kept.microOp, kept.done]
  rfl

theorem RobEntry.Kept.refl (entry : RobEntry) : entry.Kept entry := ⟨rfl, rfl, rfl, rfl, rfl, rfl⟩

/-- An entry issues, and then its dependants are woken. -/
structure IssuedAt (config : Config Cycle Mem) (state : State Mem) (index : Nat) (entry : RobEntry) (after : State Mem) : Prop where
  moves : Moves config state.pipeline after.pipeline
  numInRob : after.numInRob = state.numInRob
  now : after.now = state.now
  entries : ∃ uop, Entrywise RobEntry.Kept (state.rob.entries.set index (entry.issue config uop state.now)) after.rob.entries

theorem issueInstruction_issuedAt {state : State Mem} {index : Nat} {entry : RobEntry} (ports : Option Cycle)
    (nextEvent : SubsecondTime) (inWindow : index < state.numInRob) (there : state.rob.entries[index]? = some entry)
    (waiting : entry.done = ⊤) (ready : entry.ready ≤ state.now)
    (inOrder : entry.uop.inOrder = true → OlderIssued state.rob.entries index) :
    Meets (fun _ => True) (issueInstruction config state index entry ports nextEvent) fun result =>
      IssuedAt config state index entry result.1 := by
  obtain ⟨execLatency, where_, isUop⟩ := accessAtIssue_eq config state entry.uop
  rw [issueInstruction]
  revert isUop
  obtain ⟨uop, memory⟩ := accessAtIssue config state entry.uop
  intro isUop
  dsimp only at isUop ⊢
  have numbered : uop.sequenceNumber = entry.uop.sequenceNumber := by rw [isUop]
  have issued : Moves config state.pipeline _ :=
    .single (.issue index entry execLatency where_ rfl inWindow there waiting ready inOrder)
  rw [← isUop] at issued
  have self := List.getElem?_set_self (a := entry.issue config uop state.now) (List.getElem?_eq_some_iff.mp there).1
  refine Meets.ite (fun _ => trivial) fun _ => Meets.bind (Meets.any _) fun ports' _ => ?_
  refine Meets.bind (Meets.foldlM (fun woken (entries : List RobEntry) => ∀ rest, entry.dependants = woken ++ rest →
      Moves config state.pipeline { state.pipeline.withEntries entries with
        rsEntriesUsed := state.rsEntriesUsed - 1, waking := rest.map (entry.uop.sequenceNumber, ·) } ∧
      Entrywise RobEntry.Kept (state.rob.entries.set index (entry.issue config uop state.now)) entries) entry.dependants ?_ ?_)
    fun entries woken => ?_
  · intro woken dependant later entries _ before
    refine (wakeDependant_wakes ..).mono fun entries' result rest split => ?_
    obtain ⟨position, depEntry, depWoken, found, isDependant, wakes, isEntries⟩ := result
    rw [List.append_assoc, List.singleton_append] at split
    obtain ⟨moves, same⟩ := before (dependant :: rest) split
    obtain ⟨current, here, keeps⟩ := same.new self
    subst isEntries
    refine ⟨moves.tail ?_, same.trans (fun _ _ _ => .trans) (.set .refl found wakes.keeps)⟩
    have number : current.uop.sequenceNumber = entry.uop.sequenceNumber := keeps.sequenceNumber.trans numbered
    have available : current.available config.period = (cycleDepend config uop state.now : Nat) :=
      (keeps.available config.period).trans (available_issue config entry uop state.now)
    have isDone : current.done ≠ ⊤ := keeps.done ▸ SubsecondTime.fs_ne_top _
    refine .wake current index dependant (rest.map (entry.uop.sequenceNumber, ·)) position depEntry depWoken ?_ here isDone found
      isDependant ?_
    · rw [number]
      rfl
    · rw [number, available, ← numbered]
      exact wakes
  · intro rest split
    rw [List.nil_append] at split
    subst split
    exact ⟨issued, .refl .refl _⟩
  · obtain ⟨moves, same⟩ := woken [] (List.append_nil _).symm
    exact Meets.ok ⟨moves, rfl, rfl, uop, same⟩

theorem IssuedAt.issued {state after : State Mem} {index : Nat} {entry later : RobEntry}
    (issuedAt : IssuedAt config state index entry after) (there : state.rob.entries[index]? = some entry)
    (found : after.rob.entries[index]? = some later) : later.done ≠ ⊤ := by
  obtain ⟨uop, entries⟩ := issuedAt.entries
  have self := List.getElem?_set_self (a := entry.issue config uop state.now) (List.getElem?_eq_some_iff.mp there).1
  rw [(entries.2 index _ later self found).done]
  exact SubsecondTime.fs_ne_top _

theorem IssuedAt.other {state after : State Mem} {index position : Nat} {entry before later : RobEntry}
    (issuedAt : IssuedAt config state index entry after) (different : index ≠ position)
    (there : state.rob.entries[position]? = some before) (found : after.rob.entries[position]? = some later) : before.Kept later := by
  obtain ⟨uop, entries⟩ := issuedAt.entries
  exact entries.2 position before later ((List.getElem?_set_ne different).trans there) found

/-! ### What moves keep -/

structure RobEntry.Later (entry later : RobEntry) : Prop where
  microOp : later.uop.microOp = entry.uop.microOp
  sequenceNumber : later.uop.sequenceNumber = entry.uop.sequenceNumber
  done : entry.done ≠ ⊤ → later.done = entry.done

theorem RobEntry.Later.refl (entry : RobEntry) : entry.Later entry := ⟨rfl, rfl, fun _ => rfl⟩

theorem RobEntry.Later.trans {entry later last : RobEntry} (first : entry.Later later) (second : later.Later last) :
    entry.Later last :=
  ⟨second.microOp.trans first.microOp, second.sequenceNumber.trans first.sequenceNumber, fun issued =>
    (second.done (first.done issued ▸ issued)).trans (first.done issued)⟩

theorem RobEntry.Kept.later {entry woken : RobEntry} (kept : entry.Kept woken) : entry.Later woken :=
  ⟨kept.microOp, kept.sequenceNumber, fun _ => kept.done⟩

theorem Move.laterEntries {pipeline pipeline' : Pipeline} (move : Move config pipeline pipeline') :
    Entrywise RobEntry.Later pipeline.rob.entries pipeline'.rob.entries := by
  cases move with
  | dispatch entry _ _ _ there => exact .set .refl there ⟨rfl, rfl, fun _ => rfl⟩
  | issue index entry execLatency where_ _ _ there waiting =>
    exact .set .refl there ⟨rfl, rfl, fun issued => absurd waiting issued⟩
  | wake issuer index dependant rest position entry woken _ _ _ there _ wakes => exact .set .refl there wakes.keeps.later

theorem Moves.laterEntries {pipeline pipeline' : Pipeline} (moves : Moves config pipeline pipeline') :
    Entrywise RobEntry.Later pipeline.rob.entries pipeline'.rob.entries := by
  induction moves with
  | refl => exact .refl .refl _
  | tail _ last ih => exact ih.trans (fun _ _ _ => .trans) last.laterEntries

theorem OlderIssued.later {before after : List RobEntry} {index : Nat} (issued : OlderIssued before index)
    (later : Entrywise RobEntry.Later before after) : OlderIssued after index := by
  intro older entry' isOlder found
  obtain ⟨entry, there, isLater⟩ := later.old found
  have isDone := issued older entry isOlder there
  rw [isLater.done isDone]
  exact isDone

/-! ### Commit -/

theorem commitLoop_parts (config : Config Cycle Mem) (now : Nat) (entries : List RobEntry) (numCommitted : Nat) :
    entries = (commitLoop config now entries numCommitted).1 ++ (commitLoop config now entries numCommitted).2 ∧
      ∀ entry ∈ (commitLoop config now entries numCommitted).1, entry.done ≤ now := by
  induction entries generalizing numCommitted with
  | nil => exact ⟨rfl, fun _ member => absurd member List.not_mem_nil⟩
  | cons front rest ih =>
    rw [commitLoop]
    split
    case isTrue done =>
      split
      case isTrue => exact ⟨rfl, List.forall_mem_singleton.mpr done⟩
      case isFalse =>
        obtain ⟨parts, all⟩ := ih (numCommitted + 1)
        exact ⟨congrArg (front :: ·) parts, List.forall_mem_cons.mpr ⟨done, all⟩⟩
    case isFalse => exact ⟨rfl, fun _ member => absurd member List.not_mem_nil⟩

theorem commits (commits stay : List RobEntry) (pipeline : Pipeline) (none_ : pipeline.waking = [])
    (isRob : pipeline.rob.entries = commits ++ stay) (done : ∀ entry ∈ commits, entry.done ≤ pipeline.now) :
    Relation.ReflTransGen Commit pipeline { pipeline.withEntries stay with
      numInRob := pipeline.numInRob - commits.length,
      traced := pipeline.traced ++ commits.map (·.times pipeline.now) } := by
  induction commits generalizing pipeline with
  | nil =>
    have same : pipeline.withEntries stay = pipeline := by
      rw [Pipeline.withEntries, ← List.nil_append stay, ← isRob]
    rw [same, List.map_nil, List.append_nil]
    exact .refl
  | cons front commits ih =>
    have first : Commit pipeline _ := .front front (commits ++ stay) none_ isRob (done front List.mem_cons_self)
    have rest := ih { pipeline.withEntries (commits ++ stay) with
      numInRob := pipeline.numInRob - 1, traced := pipeline.traced ++ [front.times pipeline.now] } none_ rfl
      fun entry member => done entry (List.mem_cons_of_mem front member)
    refine .head first ?_
    have count : pipeline.numInRob - (front :: commits).length = pipeline.numInRob - 1 - commits.length := by
      rw [List.length_cons]
      omega
    rw [count, List.map_cons, List.append_cons pipeline.traced _ (commits.map _)]
    exact rest

theorem doCommit_moves (config : Config Cycle Mem) (state : State Mem) :
    Relation.ReflTransGen Commit state.pipeline (doCommit config state).1.pipeline := by
  obtain ⟨parts, done⟩ := commitLoop_parts config state.now state.rob.entries 0
  exact commits _ _ state.pipeline rfl parts done

end RobTimer

end Sniper.Performance

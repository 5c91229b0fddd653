import Sniper.Performance.CriticalPath
import Mathlib.Data.List.Nodup

/-! The micro-operations of both windows are numbered sequentially and depend on earlier ones. -/

namespace Sniper.Performance

/-! ## Dependencies -/

/-- The micro-operation with more dependencies, all on numbers below a bound. -/
structure Depends (bound : Nat) (before after : DynamicMicroOp) : Prop where
  sequenceNumber : after.sequenceNumber = before.sequenceNumber
  intra : after.intraInstructionDependencies = before.intraInstructionDependencies
  offset : after.microOpTypeOffset = before.microOpTypeOffset
  dependencies : ∀ dependency ∈ after.dependencies, dependency ∈ before.dependencies ∨ dependency < bound

variable {bound lowest number : Nat} {before middle after uop : DynamicMicroOp}

theorem Depends.refl (bound : Nat) (uop : DynamicMicroOp) : Depends bound uop uop := ⟨rfl, rfl, rfl, fun _ => .inl⟩

theorem Depends.trans (first : Depends bound before middle) (second : Depends bound middle after) : Depends bound before after where
  sequenceNumber := second.sequenceNumber.trans first.sequenceNumber
  intra := second.intra.trans first.intra
  offset := second.offset.trans first.offset
  dependencies dependency member := by
    obtain old | new := second.dependencies dependency member
    · exact first.dependencies dependency old
    · exact .inr new

theorem addDependency_depends (below : number < bound) :
    Meets (fun _ => True) (uop.addDependency number) (Depends bound uop) := by
  unfold DynamicMicroOp.addDependency
  refine .ite (fun _ => .refl bound uop) fun _ => .ite (fun _ => ⟨rfl, rfl, rfl, fun dependency member => ?_⟩) fun _ => trivial
  obtain old | new := List.mem_append.mp member
  · exact .inl old
  · exact .inr (List.mem_singleton.mp new ▸ below)

theorem addDependencies_depends {numbers : List Nat} (below : ∀ number ∈ numbers, number < bound) :
    Meets (fun _ => True) (uop.addDependencies numbers) (Depends bound uop) := by
  induction numbers generalizing uop with
  | nil => exact Depends.refl bound uop
  | cons number rest ih =>
    refine (addDependency_depends (below number List.mem_cons_self)).bind fun next depends => ?_
    exact (ih fun other member => below other (List.mem_cons_of_mem _ member)).mono fun _ => depends.trans

def RegisterDependencies.Below (bound : Nat) (producers : RegisterDependencies) : Prop :=
  ∀ register producer, producers register = some producer → producer < bound

structure MemoryDependencies.Below (bound : Nat) (memory : MemoryDependencies) : Prop where
  producers : ∀ producer ∈ memory.producers, producer.1 < bound
  membar : ∀ producer, memory.membar = some producer → producer < bound

theorem addSources_depends {producers : RegisterDependencies} (registers : List Nat) (below : producers.Below bound) :
    Meets (fun _ => True) (RegisterDependencies.addSources lowest registers producers uop)
      fun result => result.1.Below bound ∧ Depends bound uop result.2 := by
  induction registers generalizing producers uop with
  | nil => exact ⟨below, .refl bound uop⟩
  | cons register rest ih =>
    unfold RegisterDependencies.addSources
    split
    case h_1 => exact ih below
    case h_2 producer isProducer =>
      refine .ite (fun _ => ?_) fun _ => ?_
      · refine (addDependency_depends (below register producer isProducer)).bind fun next depends => ?_
        exact (ih below).mono fun _ both => ⟨both.1, depends.trans both.2⟩
      · refine ih fun other producer isOther => ?_
        by_cases same : other = register
        · rw [if_pos same] at isOther
          cases isOther
        · rw [if_neg same] at isOther
          exact below other producer isOther

theorem registers_depends {producers : RegisterDependencies} (below : producers.Below uop.sequenceNumber) :
    Meets (fun _ => True) (producers.setDependencies uop lowest)
      fun result => result.1.Below (uop.sequenceNumber + 1) ∧ Depends uop.sequenceNumber uop result.2 := by
  unfold RegisterDependencies.setDependencies
  refine (addSources_depends _ below).bind fun result both => ?_
  refine .ok ⟨fun register producer isProducer => ?_, both.2⟩
  dsimp only at isProducer
  split at isProducer
  case isTrue =>
    cases isProducer
    rw [both.2.sequenceNumber]
    exact Nat.lt_succ_self _
  case isFalse => exact Nat.lt_succ_of_lt (both.1 register producer isProducer)

theorem MemoryDependencies.Below.clean {memory : MemoryDependencies} (below : memory.Below bound) (lowest : Nat) :
    (memory.clean lowest).Below bound :=
  ⟨fun producer member => below.producers producer (List.dropWhile_subset _ member), below.membar⟩

theorem MemoryDependencies.Below.succ {memory : MemoryDependencies} (below : memory.Below bound) : memory.Below (bound + 1) :=
  ⟨fun producer member => Nat.lt_succ_of_lt (below.producers producer member), fun producer isMembar => Nat.lt_succ_of_lt (below.membar producer isMembar)⟩

theorem find_lt {memory : MemoryDependencies} (below : memory.Below bound) (address : Nat) :
    ∀ number ∈ (memory.find address).toList, number < bound := by
  intro number member
  obtain ⟨producer, found, isNumber⟩ := Option.map_eq_some_iff.mp (Option.mem_toList.mp member)
  rw [← isNumber]
  exact below.producers producer (List.mem_reverse.mp (List.mem_of_find?_eq_some found))

theorem add_below {memory : MemoryDependencies} {number : Nat} (below : memory.Below number) (address : Nat) :
    Meets (fun _ => True) (memory.add number address)
      fun stored => stored.Below (number + 1) ∧ stored.membar = memory.membar := by
  refine .ite (fun _ => trivial) fun _ => .ok ⟨⟨fun producer member => ?_, below.succ.membar⟩, rfl⟩
  obtain old | new := List.mem_append.mp member
  · exact below.succ.producers producer old
  · rw [List.mem_singleton.mp new]
    exact Nat.lt_succ_self _

theorem addMembar_depends {memory : MemoryDependencies}
    (below : ∀ producer, memory.membar = some producer → producer < bound) :
    Meets (fun _ => True) (memory.addMembar uop lowest) (Depends bound uop) := by
  refine addDependencies_depends fun number member => ?_
  exact below number (Option.filter_eq_some_iff.mp (Option.mem_toList.mp member)).1

theorem memory_depends {memory : MemoryDependencies} (below : memory.Below uop.sequenceNumber) :
    Meets (fun _ => True) (memory.setDependencies uop lowest)
      fun result => result.1.Below (uop.sequenceNumber + 1) ∧ Depends uop.sequenceNumber uop result.2 := by
  have cleaned := below.clean lowest
  unfold MemoryDependencies.setDependencies
  refine .ite (fun _ => ?_) fun _ => .ite (fun _ => ?_) fun _ => .ite (fun _ => ?_) fun _ => ?_
  · refine (addDependencies_depends (find_lt cleaned _)).bind fun next depends => ?_
    exact (addMembar_depends cleaned.membar).bind fun last depends' => .ok ⟨cleaned.succ, depends.trans depends'⟩
  · refine (add_below cleaned _).bind fun stored below => ?_
    refine (addMembar_depends fun producer isMembar => ?_).bind fun next depends => .ok ⟨below.1, depends⟩
    exact cleaned.membar producer (below.2 ▸ isMembar)
  · refine (addMembar_depends cleaned.membar).bind fun next depends => .ok ⟨⟨cleaned.succ.producers, fun producer isMembar => ?_⟩, depends⟩
    rw [← Option.some.inj isMembar, depends.sequenceNumber]
    exact Nat.lt_succ_self _
  · exact .ok ⟨cleaned.succ, .refl _ uop⟩

namespace IntervalTimer

variable {Port Mem : Type} {windows next : Windows Port} {op node microOp : WindowEntry Port} {entries rest : List (WindowEntry Port)}
  {first : Nat}

/-! ## The windows -/

/-- Micro-operations that are numbered sequentially and depend on earlier ones. -/
structure Numbered (first : Nat) (entries : List (WindowEntry Port)) : Prop where
  numbers : entries.map (·.sequenceNumber) = List.range' first entries.length
  earlier : ∀ op ∈ entries, ∀ dependency ∈ op.uop.getDependencies, dependency < op.sequenceNumber

def WindowEntry.links (entry : WindowEntry Port) : Nat × List Nat := (entry.sequenceNumber, entry.uop.getDependencies)

namespace Numbered

theorem increasing (numbered : Numbered first entries) :
    entries.Pairwise fun op later => op.sequenceNumber < later.sequenceNumber := by
  have increasing : (entries.map (·.sequenceNumber)).Pairwise (· < ·) := by
    rw [numbered.numbers]
    exact List.pairwise_lt_range'
  exact List.pairwise_map.mp increasing

theorem range (numbered : Numbered first entries) (member : op ∈ entries) :
    first ≤ op.sequenceNumber ∧ op.sequenceNumber < first + entries.length := by
  have inRange : op.sequenceNumber ∈ entries.map (·.sequenceNumber) := List.mem_map_of_mem member
  rwa [numbered.numbers, List.mem_range'_1] at inRange

theorem eq_of_sequenceNumber (numbered : Numbered first entries) (member : op ∈ entries) (member' : node ∈ entries)
    (same : op.sequenceNumber = node.sequenceNumber) : op = node := by
  have distinct : (entries.map (·.sequenceNumber)).Nodup := by
    rw [numbered.numbers]
    exact List.nodup_range'
  exact List.inj_on_of_nodup_map distinct member member' same

theorem congr {others : List (WindowEntry Port)} (numbered : Numbered first entries)
    (same : others.map WindowEntry.links = entries.map WindowEntry.links) : Numbered first others := by
  have length : others.length = entries.length := by simpa using congrArg List.length same
  constructor
  case numbers =>
    have numbers := congrArg (List.map Prod.fst) same
    rw [List.map_map, List.map_map] at numbers
    rw [length]
    exact numbers.trans numbered.numbers
  case earlier =>
    intro op member
    have link : op.links ∈ entries.map WindowEntry.links := same ▸ List.mem_map_of_mem member
    obtain ⟨old, before, isLink⟩ := List.mem_map.mp link
    have earlier := numbered.earlier old before
    rw [show old.uop.getDependencies = op.uop.getDependencies from congrArg Prod.snd isLink,
      show old.sequenceNumber = op.sequenceNumber from congrArg Prod.fst isLink] at earlier
    exact earlier

theorem left (numbered : Numbered first (entries ++ rest)) : Numbered first entries := by
  constructor
  case numbers =>
    have numbers := numbered.numbers
    rw [List.map_append, List.length_append, List.range'_append_1.symm] at numbers
    exact (List.append_inj numbers (by simp)).1
  case earlier => exact fun op member => numbered.earlier op (List.mem_append_left _ member)

theorem right (numbered : Numbered first (entries ++ rest)) : Numbered (first + entries.length) rest := by
  constructor
  case numbers =>
    have numbers := numbered.numbers
    rw [List.map_append, List.length_append, List.range'_append_1.symm] at numbers
    exact (List.append_inj numbers (by simp)).2
  case earlier => exact fun op member => numbered.earlier op (List.mem_append_right _ member)

theorem concat (numbered : Numbered first entries) (number : op.sequenceNumber = first + entries.length)
    (earlier : ∀ dependency ∈ op.uop.getDependencies, dependency < op.sequenceNumber) : Numbered first (entries ++ [op]) := by
  constructor
  case numbers => rw [List.map_append, numbered.numbers, List.length_append, List.range'_append_1.symm, List.map_singleton, number]; rfl
  case earlier =>
    intro other member
    obtain old | new := List.mem_append.mp member
    · exact numbered.earlier other old
    · exact List.mem_singleton.mp new ▸ earlier

end Numbered

/-- Both windows together, and what the dependencies of the next micro-operation are made of. -/
structure Sequenced (windows : Windows Port) : Prop where
  numbered : ∃ first, Numbered first (windows.oldWindow ++ windows.window) ∧
    windows.nextSequenceNumber = first + (windows.oldWindow ++ windows.window).length
  registers : windows.registerDependencies.Below windows.nextSequenceNumber
  memory : windows.memoryDependencies.Below windows.nextSequenceNumber

theorem Sequenced.empty : Sequenced (.empty : Windows Port) where
  numbered := ⟨0, ⟨rfl, fun _ none => absurd none List.not_mem_nil⟩, rfl⟩
  registers _ _ none := absurd none (Option.some_ne_none _).symm
  memory := ⟨fun _ none => absurd none List.not_mem_nil, fun _ none => absurd none (Option.some_ne_none _).symm⟩

/-- A new micro-operation: no dependency is set, and those of its instruction that it depends on have been added before. -/
structure Fresh (windows : Windows Port) (uop : Uop Port) : Prop where
  dependencies : uop.dependencies = []
  intra : uop.intraInstructionDependencies = 0 ∨
    uop.microOpTypeOffset + uop.intraInstructionDependencies ≤ windows.nextSequenceNumber

theorem getDependencies_lt {bound : Nat} {before after : DynamicMicroOp} (depends : Depends bound before after)
    (number : before.sequenceNumber = bound) (none : before.dependencies = [])
    (intra : before.intraInstructionDependencies = 0 ∨ before.microOpTypeOffset + before.intraInstructionDependencies ≤ bound) :
    ∀ dependency ∈ after.getDependencies, dependency < after.sequenceNumber := by
  intro dependency member
  have isNumber : after.sequenceNumber = bound := depends.sequenceNumber.trans number
  rw [isNumber]
  obtain within | listed := List.mem_append.mp member
  · obtain ⟨index, inRange, isDependency⟩ := List.mem_map.mp within
    rw [List.mem_range, depends.intra] at inRange
    rw [isNumber, depends.offset, depends.intra] at isDependency
    omega
  · obtain old | below := depends.dependencies dependency listed
    · rw [none] at old
      cases old
    · exact below

/-- The old window is kept or cleared, and the rest of the windows but for the critical path. -/
structure Frame (windows next : Windows Port) : Prop where
  oldWindow : next.oldWindow = windows.oldWindow ∨ next.oldWindow = []
  nextSequenceNumber : next.nextSequenceNumber = windows.nextSequenceNumber
  registers : next.registerDependencies = windows.registerDependencies
  memory : next.memoryDependencies = windows.memoryDependencies

theorem Cleared.frame (cleared : Cleared windows next) : Frame windows next := by
  cases cleared with
  | kept => exact ⟨.inl rfl, rfl, rfl, rfl⟩
  | cleared => exact ⟨.inr rfl, rfl, rfl, rfl⟩

theorem Sequenced.of_suffix (sequenced : Sequenced windows) {before : List (WindowEntry Port)}
    (same : (before ++ (next.oldWindow ++ next.window)).map WindowEntry.links = (windows.oldWindow ++ windows.window).map WindowEntry.links)
    (number : next.nextSequenceNumber = windows.nextSequenceNumber)
    (registers : next.registerDependencies = windows.registerDependencies)
    (memory : next.memoryDependencies = windows.memoryDependencies) : Sequenced next := by
  obtain ⟨first, numbered, isNext⟩ := sequenced.numbered
  have length := congrArg List.length same
  simp only [List.length_map, List.length_append] at length isNext
  refine ⟨⟨first + before.length, (numbered.congr same).right, ?_⟩, ?_, ?_⟩
  · rw [number, isNext, List.length_append]
    omega
  · rw [number, registers]
    exact sequenced.registers
  · rw [number, memory]
    exact sequenced.memory

/-- What is left of the old window are its last ones. -/
structure Room (windows room : Windows Port) : Prop where
  oldWindow : ∃ before, before ++ room.oldWindow = windows.oldWindow
  nextSequenceNumber : room.nextSequenceNumber = windows.nextSequenceNumber
  registers : room.registerDependencies = windows.registerDependencies
  memory : room.memoryDependencies = windows.memoryDependencies

theorem Frame.room (frame : Frame windows next) {room : Windows Port} (left : Room next room) : Room windows room := by
  refine ⟨?_, left.nextSequenceNumber.trans frame.nextSequenceNumber, left.registers.trans frame.registers, left.memory.trans frame.memory⟩
  obtain ⟨before, parts⟩ := left.oldWindow
  obtain same | cleared := frame.oldWindow
  · exact ⟨before, parts.trans same⟩
  · rw [cleared] at parts
    exact ⟨windows.oldWindow, by rw [(List.append_eq_nil_iff.mp parts).2, List.append_nil]⟩

variable [DecidableEq Port] {config : Config Port Mem}

theorem Sequenced.add {uop : Uop Port} (sequenced : Sequenced windows) (fresh : Fresh windows uop)
    (added : windows.add config uop = .ok next) : Sequenced next := by
  unfold Windows.add at added
  split at added
  case isTrue => cases added
  case isFalse =>
    dsimp only at added
    split at added
    case h_1 => cases added
    case h_2 registers withRegisters isRegisters =>
      split at added
      case h_1 => cases added
      case h_2 memory microOp isMemory =>
        cases added
        obtain ⟨first, numbered, isNext⟩ := sequenced.numbered
        obtain ⟨registersBelow, depends⟩ := (registers_depends sequenced.registers).of_ok isRegisters
        have number : withRegisters.sequenceNumber = windows.nextSequenceNumber := depends.sequenceNumber
        obtain ⟨memoryBelow, depends'⟩ := (memory_depends (number.symm ▸ sequenced.memory)).of_ok isMemory
        rw [number] at memoryBelow depends'
        refine ⟨⟨first, ?_, ?_⟩, registersBelow, memoryBelow⟩
        · rw [← List.append_assoc]
          refine numbered.concat ((depends'.sequenceNumber.trans number).trans isNext) ?_
          exact getDependencies_lt (depends.trans depends') rfl fresh.dependencies fresh.intra
        · simp only [List.length_append, List.length_singleton] at isNext ⊢
          omega

theorem Placed.frame (placed : Placed config windows next microOp) : Frame windows next := by
  cases placed with
  | longer next microOp cleared _ _ _ => exact ⟨cleared.frame.oldWindow, cleared.frame.nextSequenceNumber, cleared.frame.registers, cleared.frame.memory⟩
  | within next microOp cleared _ _ => exact cleared.frame

theorem removeOldest_room (windows : Windows Port) : Room windows windows.removeOldest := by
  unfold Windows.removeOldest
  split
  case h_1 => exact ⟨⟨[], rfl⟩, rfl, rfl, rfl⟩
  case h_2 oldest rest isOld => exact ⟨⟨[oldest], isOld.symm⟩, rfl, rfl, rfl⟩

theorem makeRoom_room (windows : Windows Port) : Room windows (windows.makeRoom config) := by
  unfold Windows.makeRoom
  split
  case isTrue => exact removeOldest_room windows
  case isFalse => exact ⟨⟨[], rfl⟩, rfl, rfl, rfl⟩

theorem Sequenced.dispatchInstruction (sequenced : Sequenced windows) {dispatched : Windows Port} {microOp' : WindowEntry Port}
    {rest' : List (WindowEntry Port)} (first : windows.window = microOp :: rest) (frame : Frame windows dispatched)
    (op : microOp'.links = microOp.links) (behind : rest'.map WindowEntry.links = rest.map WindowEntry.links) :
    Sequenced (dispatched.dispatchInstruction config microOp' rest') := by
  obtain ⟨⟨before, parts⟩, number, registers, memory⟩ := frame.room (@makeRoom_room _ _ _ config dispatched)
  refine sequenced.of_suffix (?_ : (before ++ _).map WindowEntry.links = _) number registers memory
  rw [dispatchInstruction_eq_enter, Windows.enter, first, ← parts]
  simp only [List.map_append, List.map_cons, op, behind, List.append_assoc, List.singleton_append]

/-! ## Runs -/

theorem issueMemOp_links (memory : Mem) : (issueMemOp config memory microOp).1.links = microOp.links := by
  unfold issueMemOp
  split <;> rfl

theorem overlap_links (head : Nat) (memBarrierPending : Bool) (memory : Mem) :
    (overlap config head memBarrierPending memory microOp).1.links = microOp.links := by
  unfold overlap
  split
  case isTrue => rfl
  case isFalse =>
    split
    case isTrue => exact issueMemOp_links memory
    case isFalse => rfl

theorem blockLoop_links {head headAddress : Nat} (passed rest : List (WindowEntry Port)) (memBarrierPending : Bool) (memory : Mem) :
    (blockLoop config head headAddress passed rest memBarrierPending memory).1.map WindowEntry.links =
      (passed ++ rest).map WindowEntry.links := by
  induction rest generalizing passed memBarrierPending memory with
  | nil => rw [List.append_nil]; rfl
  | cons microOp later ih =>
    unfold blockLoop
    dsimp only
    split
    case isTrue => simp only [List.map_append, List.map_cons]; rfl
    case isFalse =>
      rw [ih]
      simp only [List.map_append, List.map_cons, overlap_links, List.append_assoc, List.singleton_append]
      congr 2
      split <;> split <;> rfl

theorem blockWindow_links (head : Nat) (memory : Mem) :
    (blockWindow config head microOp rest memory).1.map WindowEntry.links = rest.map WindowEntry.links := by
  unfold blockWindow
  dsimp only
  rw [List.map_tail, blockLoop_links]
  rfl

/-- The micro-operations are the same, with other times. -/
structure Linked (microOp : WindowEntry Port) (rest : List (WindowEntry Port)) (dispatched : Dispatched Port Mem) : Prop where
  op : dispatched.microOp.links = microOp.links
  behind : dispatched.rest.map WindowEntry.links = rest.map WindowEntry.links

variable {timer : Timer Port Mem} {maxProducerExecTime : Nat}

theorem updateCriticalPath_links (windows : Windows Port) : (updateCriticalPath config windows microOp).2.1.links = microOp.links := by
  unfold updateCriticalPath Windows.updateCriticalPathTail
  dsimp only
  split
  case isTrue => split <;> rfl
  case isFalse => rfl

theorem place_linked {placed : WindowEntry Port} (op : placed.links = microOp.links) : Linked microOp rest (place config timer placed rest) :=
  ⟨(updateCriticalPath_links timer.windows).trans op, rfl⟩

theorem dispatchLoad_linked : Linked microOp rest (dispatchLoad config maxProducerExecTime timer microOp rest) := by
  have dispatched : Linked microOp rest
      (if microOp.dcacheOverlap then ⟨timer, microOp, rest, 0⟩
      else if microOp.uop.isLongLatencyLoad config then dispatchLongLatencyLoad config maxProducerExecTime timer microOp rest
      else dispatchShortLoad config maxProducerExecTime timer microOp rest) := by
    split
    case isTrue => exact ⟨rfl, rfl⟩
    case isFalse =>
      split
      case isTrue => exact ⟨rfl, blockWindow_links _ timer.memory⟩
      case isFalse => exact place_linked rfl
  exact ⟨dispatched.op, dispatched.behind⟩

theorem backEnd_linked : Linked microOp rest (backEnd config maxProducerExecTime timer microOp rest) := by
  unfold backEnd
  split
  case isTrue => exact ⟨rfl, rfl⟩
  case isFalse =>
    split
    case isTrue => exact place_linked rfl
    case isFalse =>
      split
      case isTrue => exact dispatchLoad_linked
      case isFalse => split <;> exact place_linked rfl

theorem dispatchInstruction_linked : Linked microOp rest (dispatchInstruction config timer microOp rest).1 := by
  have linked : Linked (issueMemOp config timer.memory microOp).1 rest (backEnd config
      (getMaxProducerExecTime timer.windows (issueMemOp config timer.memory microOp).1)
      { timer with windows := (frontEnd config timer.windows (issueMemOp config timer.memory microOp).1).1,
                   memory := (issueMemOp config timer.memory microOp).2 } (issueMemOp config timer.memory microOp).1 rest) :=
    backEnd_linked
  exact ⟨linked.op.trans (issueMemOp_links timer.memory), linked.behind⟩

def AddsFresh (timer : Timer Port Mem) : Label Port → Prop
  | .add uop => Fresh timer.windows uop
  | .calculateRate | .dispatch => True

theorem enforceGranularity_fresh {uop : Uop Port} (fresh : Fresh windows uop) : Fresh windows (enforceGranularity config uop) := by
  unfold enforceGranularity
  split
  case isTrue => exact ⟨fresh.dependencies, fresh.intra⟩
  case isFalse => exact fresh

/-- In every run the windows are numbered sequentially. -/
theorem sequenced_of_reach (reached : (machine config).Reach AddsFresh timer) : Sound config timer.windows ∧ Sequenced timer.windows := by
  refine reached.invariant (fun timer => Sound config timer.windows ∧ Sequenced timer.windows) ?_ ?_
  · rintro timer ⟨numOutstanding, memory, rfl⟩
    exact ⟨.empty, .empty⟩
  · intro timer label next holds allowed stepped
    obtain ⟨sound, sequenced⟩ := holds
    cases label with
    | add uop =>
      obtain ⟨windows, added, rfl⟩ := addMicroOp_eq stepped
      exact ⟨sound.add added, sequenced.add (enforceGranularity_fresh allowed) added⟩
    | calculateRate =>
      cases stepped
      exact ⟨sound, sequenced⟩
    | dispatch =>
      cases first : timer.windows.window with
      | nil => simp [machine, step, first] at stepped
      | cons microOp rest =>
        simp only [machine, step, first] at stepped
        cases stepped
        have pending := sound.pending
        rw [first] at pending
        have handled : Handled config timer.windows rest (dispatchInstruction config timer microOp rest).1 :=
          dispatchInstruction_handled (pending microOp List.mem_cons_self)
            fun entry member => pending entry (List.mem_cons_of_mem _ member)
        have linked : Linked microOp rest (dispatchInstruction config timer microOp rest).1 := dispatchInstruction_linked
        exact ⟨(sound.dispatchNext first).1, sequenced.dispatchInstruction first handled.placed.frame linked.op linked.behind⟩

/-- Whatever is added, dispatched or blocked, a micro-operation waits for earlier ones only. -/
theorem numbered_of_reach (reached : (machine config).Reach AddsFresh timer) :
    ∃ first, Numbered first (timer.windows.oldWindow ++ timer.windows.window) := by
  obtain ⟨first, numbered, _⟩ := (sequenced_of_reach reached).2.numbered
  exact ⟨first, numbered⟩

theorem numbered_of_reach_load : ∃ timer : Timer NehalemPort Unit,
    timer.windows.oldWindow.length = 1 ∧ timer.windows.window.map (·.uop.getDependencies) = [[0]] ∧
      ∃ first, Numbered first (timer.windows.oldWindow ++ timer.windows.window) := by
  have start : (machine slow).Reach AddsFresh (.initial 1 ()) := .initial ⟨1, (), rfl⟩
  have loaded := start.step (Label.add slowLoad) ⟨rfl, .inl rfl⟩ rfl
  have used := loaded.step (Label.add useLoad) ⟨rfl, .inr (by decide)⟩ rfl
  have dispatched := used.step Label.dispatch trivial rfl
  exact ⟨_, rfl, rfl, numbered_of_reach dispatched⟩

end IntervalTimer

end Sniper.Performance

import Sniper.Performance.Producers

/-! The dependencies that a stream of micro-operations gets while its window moves on. -/

namespace Sniper.Performance

/-- `RegisterDependencies` and `MemoryDependencies` of a window. -/
structure Trackers where
  registers : RegisterDependencies
  memory : MemoryDependencies

namespace Trackers

def initial : Trackers := ⟨fun _ => none, ⟨[], none⟩⟩

/-- The next micro-operation gets its number and its dependencies. -/
def setDependencies (trackers : Trackers) (number : Nat) (uop : DynamicMicroOp) (low : Nat) :
    Except Fault (Trackers × DynamicMicroOp) := do
  let (registers, uop) ← trackers.registers.setDependencies { uop with sequenceNumber := number } low
  let (memory, uop) ← trackers.memory.setDependencies uop low
  return (⟨registers, memory⟩, uop)

/-- A stream of micro-operations, each with the start of the window when it comes. -/
def run (trackers : Trackers) (number : Nat) : List (DynamicMicroOp × Nat) → Except Fault (List DynamicMicroOp)
  | [] => .ok []
  | (uop, low) :: rest => do
      let (trackers, uop) ← trackers.setDependencies number uop low
      return uop :: (← trackers.run (number + 1) rest)

structure Tracks (trackers : Trackers) (stream : List DynamicMicroOp) (next low : Nat) : Prop where
  registers : trackers.registers.Tracks stream next low
  memory : trackers.memory.Tracks stream next low

section Runs

variable {trackers : Trackers} {stream : List DynamicMicroOp} {source uop uop' : DynamicMicroOp} {number low next producer : Nat}

def producers (stream : List DynamicMicroOp) (number low : Nat) (uop : DynamicMicroOp) : List Nat :=
  sourceProducers stream number low uop.microOp.sourceRegisters ++ memoryProducers stream number low uop

theorem Tracks.mono {low' : Nat} (tracks : trackers.Tracks stream next low) (le : low ≤ low') : trackers.Tracks stream next low' :=
  ⟨tracks.registers.mono le, tracks.memory.mono le⟩

theorem tracks_initial (stream : List DynamicMicroOp) : initial.Tracks stream 0 0 where
  registers := fun _ => rfl
  memory := ⟨List.Pairwise.nil, fun _ member => absurd member List.not_mem_nil, fun _ _ _ before => absurd before (Nat.not_lt_zero _), rfl⟩

theorem Tracks.append (tracks : trackers.Tracks stream next low) (more : List DynamicMicroOp) (within : next ≤ stream.length) :
    trackers.Tracks (stream ++ more) next low where
  registers := fun register => by rw [lastBefore_append more within, tracks.registers register]
  memory := by
    refine ⟨tracks.memory.sorted, fun producer member => ?_, fun number uop from_ before there => ?_, ?_⟩
    · obtain ⟨early, uop, there, isStore⟩ := tracks.memory.stores producer member
      exact ⟨early, uop, (List.getElem?_append_left (Nat.lt_of_lt_of_le early within)).trans there, isStore⟩
    · rw [List.getElem?_append_left (Nat.lt_of_lt_of_le before within)] at there
      exact tracks.memory.all number uop from_ before there
    · rw [lastBefore_append more within, tracks.memory.membar]

/-- A micro-operation has more producers than the array of dependencies holds, or a store has more than the queue of the stores
holds before it in the window. -/
def Unfit (stream : List DynamicMicroOp) (number low : Nat) (uop : DynamicMicroOp) (fault : Fault) : Prop :=
  DynamicMicroOp.TooMany uop.dependencies (producers stream number low uop) fault ∨
    MemoryDependencies.StoresFull stream number low uop fault

theorem setDependencies_meets (tracks : trackers.Tracks stream next low) (there : stream[next]? = some source) :
    Meets (Unfit stream next low source) (trackers.setDependencies next source low)
      fun result => result.1.Tracks stream (next + 1) low ∧
        result.2 = ({ source with sequenceNumber := next } : DynamicMicroOp).gains (producers stream next low source) := by
  have registers := RegisterDependencies.setDependencies_meets { source with sequenceNumber := next } tracks.registers there rfl rfl
  rw [setDependencies]
  refine Meets.bind (registers.widen fun _ tooMany => .inl (tooMany.append_right _)) fun result added => ?_
  have sameOp : result.2.microOp = source.microOp := added.2 ▸ rfl
  have memory := MemoryDependencies.setDependencies_meets result.2 tracks.memory there sameOp (added.2 ▸ rfl) (added.2 ▸ rfl)
  refine Meets.bind (memory.widen fun _ unfit => unfit.imp_left fun tooMany => ?_) fun last more =>
    Meets.ok ⟨⟨added.1, more.1⟩, ?_⟩
  · rw [added.2] at tooMany
    exact tooMany.of_gains
  · rw [more.2, added.2, DynamicMicroOp.gains_gains, producers]

/-- A micro-operation has the last writers of its source registers that are in the window, a load the last store to its address,
and loads, stores and barriers the last barrier, where it is after the start of the window; nothing from before the window. -/
structure Exact (stream : List DynamicMicroOp) (number low : Nat) (uop uop' : DynamicMicroOp) : Prop where
  adds : uop' = { uop with sequenceNumber := number, dependencies := uop'.dependencies }
  kept : ∀ producer ∈ uop.dependencies, producer ∈ uop'.dependencies
  register : ∀ register ∈ uop.microOp.sourceRegisters, ∀ producer,
    lastBefore (DynamicMicroOp.writes register) stream number = some producer → low ≤ producer → producer ∈ uop'.dependencies
  store : uop.isLoad = true → ∀ producer,
    lastBefore (DynamicMicroOp.storesTo uop.address) stream number = some producer → low ≤ producer → producer ∈ uop'.dependencies
  barrier : uop.ordered = true → ∀ producer,
    lastBefore DynamicMicroOp.isMembar stream number = some producer → low < producer → producer ∈ uop'.dependencies
  only : ∀ producer ∈ uop'.dependencies, producer ∈ uop.dependencies ∨ low ≤ producer ∧
    ((∃ register ∈ uop.microOp.sourceRegisters, lastBefore (DynamicMicroOp.writes register) stream number = some producer) ∨
      uop.isLoad = true ∧ lastBefore (DynamicMicroOp.storesTo uop.address) stream number = some producer ∨
      uop.ordered = true ∧ lastBefore DynamicMicroOp.isMembar stream number = some producer)

theorem mem_sourceProducers {registers : List Nat} : producer ∈ sourceProducers stream number low registers ↔
    ∃ register ∈ registers, lastBefore (DynamicMicroOp.writes register) stream number = some producer ∧ low ≤ producer := by
  simp [sourceProducers, List.mem_filterMap, Option.filter_eq_some_iff]

theorem mem_memoryProducers : producer ∈ memoryProducers stream number low uop ↔
    (uop.isLoad = true ∧ lastBefore (DynamicMicroOp.storesTo uop.address) stream number = some producer ∧ low ≤ producer) ∨
      uop.ordered = true ∧ lastBefore DynamicMicroOp.isMembar stream number = some producer ∧ low < producer := by
  simp [memoryProducers, Option.filter_eq_some_iff]

theorem exact_gains : Exact stream number low uop
    (({ uop with sequenceNumber := number } : DynamicMicroOp).gains (producers stream number low uop)) := by
  have member (producer : Nat) :
      producer ∈ (({ uop with sequenceNumber := number } : DynamicMicroOp).gains (producers stream number low uop)).dependencies ↔
        producer ∈ uop.dependencies ∨ producer ∈ producers stream number low uop := DynamicMicroOp.mem_withDependencies
  refine ⟨rfl, fun producer old => (member producer).mpr (.inl old), ?_, ?_, ?_, ?_⟩
  · intro register reads producer last valid
    exact (member producer).mpr (.inr (List.mem_append_left _ (mem_sourceProducers.mpr ⟨register, reads, last, valid⟩)))
  · intro load producer last valid
    exact (member producer).mpr (.inr (List.mem_append_right _ (mem_memoryProducers.mpr (.inl ⟨load, last, valid⟩))))
  · intro ordered producer last valid
    exact (member producer).mpr (.inr (List.mem_append_right _ (mem_memoryProducers.mpr (.inr ⟨ordered, last, valid⟩))))
  · intro producer listed
    refine ((member producer).mp listed).imp_right fun added => ?_
    cases List.mem_append.mp added with
    | inl source =>
      obtain ⟨register, reads, last, valid⟩ := mem_sourceProducers.mp source
      exact ⟨valid, .inl ⟨register, reads, last⟩⟩
    | inr memory =>
      cases mem_memoryProducers.mp memory with
      | inl store => exact ⟨store.2.2, .inr (.inl ⟨store.1, store.2.1⟩)⟩
      | inr barrier => exact ⟨Nat.le_of_lt barrier.2.2, .inr (.inr ⟨barrier.1, barrier.2.1⟩)⟩

/-- A micro-operation of the stream does not fit. -/
def Overfull (items : List (DynamicMicroOp × Nat)) (fault : Fault) : Prop :=
  ∃ number uop low, items[number]? = some (uop, low) ∧ Unfit (items.map Prod.fst) number low uop fault

theorem run_suffix {items : List (DynamicMicroOp × Nat)} (rest seen : List (DynamicMicroOp × Nat)) (split : items = seen ++ rest)
    (tracks : trackers.Tracks (items.map Prod.fst) seen.length low) (from_ : ∀ item ∈ rest, low ≤ item.2)
    (ascending : (rest.map Prod.snd).Pairwise (· ≤ ·)) :
    Meets (Overfull items) (trackers.run seen.length rest) fun results => results.length = rest.length ∧
      ∀ index uop low uop', rest[index]? = some (uop, low) → results[index]? = some uop' →
        Exact (items.map Prod.fst) (seen.length + index) low uop uop' := by
  induction rest generalizing seen trackers low with
  | nil => exact Meets.ok ⟨rfl, fun _ _ _ _ impossible => by cases impossible⟩
  | cons item rest ih =>
    obtain ⟨uop, start⟩ := item
    have there : items[seen.length]? = some (uop, start) := by
      rw [split, List.getElem?_append_right (Nat.le_refl _), Nat.sub_self]
      rfl
    have inStream : (items.map Prod.fst)[seen.length]? = some uop := by
      rw [List.getElem?_map, there]
      rfl
    have later := List.pairwise_cons.mp ascending
    have moved := tracks.mono (from_ (uop, start) List.mem_cons_self)
    rw [run]
    refine Meets.bind ((setDependencies_meets moved inStream).widen fun fault tooMany => ⟨_, uop, start, there, tooMany⟩)
      fun result first => ?_
    have length : (seen ++ [(uop, start)]).length = seen.length + 1 := List.length_append
    have others := ih (seen ++ [(uop, start)]) (by rw [split, List.append_assoc]; rfl) (length ▸ first.1)
      (fun item member => later.1 item.2 (List.mem_map_of_mem member)) later.2
    rw [length] at others
    refine Meets.bind others fun results last => Meets.ok ⟨congrArg (· + 1) last.1, fun index other low uop' found got => ?_⟩
    cases index with
    | zero =>
      cases found
      cases got
      exact first.2 ▸ exact_gains
    | succ index =>
      rw [Nat.add_comm index, ← Nat.add_assoc]
      exact last.2 index other low uop' found got

/-- The micro-operations of a stream, with starts of the window that do not go back, get exactly their producers; only one that
has more than the array of dependencies holds, or a store that finds the queue of the stores full, stops the run. -/
theorem run_exact (items : List (DynamicMicroOp × Nat)) (ascending : (items.map Prod.snd).Pairwise (· ≤ ·)) :
    Meets (Overfull items) (initial.run 0 items) fun results => results.length = items.length ∧
      ∀ number uop low uop', items[number]? = some (uop, low) → results[number]? = some uop' →
        Exact (items.map Prod.fst) number low uop uop' := by
  have all := run_suffix items [] rfl (tracks_initial (items.map Prod.fst)) (fun item _ => Nat.zero_le item.2) ascending
  refine all.mono fun results exact_ => ⟨exact_.1, fun number uop low uop' found got => ?_⟩
  have here := exact_.2 number uop low uop' found got
  rwa [List.length_nil, Nat.zero_add] at here

/-- A micro-operation without registers. -/
def plain (uopType : UopType) (membar : Bool) (address : Nat) : DynamicMicroOp where
  microOp := ⟨uopType, [], [], [], false, false, membar⟩
  sequenceNumber := 0
  address := address
  squashed := false
  intraInstructionDependencies := 0
  microOpTypeOffset := 0
  dependencies := []
  execLatency := 1
  branchMispredicted := false
  dCacheHitWhere := .unknown
  iCacheHitWhere := .l1i
  iCacheLatency := 0
  last := true
  port := .nehalem .port015
  alu := .none
  aluLatency := 0

/-- The second load waits for the barrier, and not for the first one. -/
theorem run_exact_afterBarrier : ∃ uop', (initial.run 0 [(plain .load false 8, 0), (plain .execute true 0, 0), (plain .load false 8, 0)]) =
    .ok [plain .load false 8, { plain .execute true 0 with sequenceNumber := 1 }, uop'] ∧ 1 ∈ uop'.dependencies := by
  have exact_ := (run_exact [(plain .load false 8, 0), (plain .execute true 0, 0), (plain .load false 8, 0)] (by decide)).of_ok rfl
  exact ⟨_, rfl, (exact_.2 2 _ _ _ rfl rfl).barrier rfl 1 rfl (by decide)⟩

/-- The producers of the registers and the memory, and the last micro-operation of those taken for barriers, which loads and
stores wait for. -/
def Wanted (barrier : DynamicMicroOp → Bool) (stream : List DynamicMicroOp) (number low : Nat) (uop : DynamicMicroOp)
    (producer : Nat) : Prop :=
  low ≤ producer ∧ ((∃ register ∈ uop.microOp.sourceRegisters, lastBefore (DynamicMicroOp.writes register) stream number = some producer) ∨
    uop.isLoad = true ∧ lastBefore (DynamicMicroOp.storesTo uop.address) stream number = some producer ∨
    (uop.isLoad || uop.isStore) = true ∧ lastBefore barrier stream number = some producer)

/-- Each micro-operation has just the producers that are wanted, in addition to its own dependencies. -/
def HasWanted (barrier : DynamicMicroOp → Bool) (items : List (DynamicMicroOp × Nat)) (results : List DynamicMicroOp) : Prop :=
  ∀ number uop low uop', items[number]? = some (uop, low) → results[number]? = some uop' → ∀ producer,
    producer ∈ uop'.dependencies ↔ producer ∈ uop.dependencies ∨ Wanted barrier (items.map Prod.fst) number low uop producer

/-- A load does not wait for an atomic store to another address, and a barrier, which is no memory access, waits for the one
before it. -/
theorem barriers_notWanted :
    (¬ ∀ items results, (items.map Prod.snd).Pairwise (· ≤ ·) → initial.run 0 items = .ok results →
      HasWanted (·.microOp.membar) items results) ∧
    ¬ ∀ items results, (items.map Prod.snd).Pairwise (· ≤ ·) → initial.run 0 items = .ok results →
      HasWanted DynamicMicroOp.isMembar items results := by
  constructor
  · intro always
    have wanted := always [(plain .store true 0, 0), (plain .load false 8, 0)] _ (by decide) rfl 1 _ _ _ rfl rfl 0
    have listed := wanted.mpr (.inr ⟨Nat.le_refl 0, .inr (.inr ⟨rfl, rfl⟩)⟩)
    exact absurd listed (by decide)
  · intro always
    have wanted := always [(plain .execute false 0, 0), (plain .execute true 0, 0), (plain .execute true 0, 0)] _ (by decide) rfl
      2 _ _ _ rfl rfl 1
    have listed := wanted.mp (by decide)
    simp [Wanted, plain, DynamicMicroOp.isLoad, DynamicMicroOp.isStore, MicroOp.isLoad, MicroOp.isStore] at listed

end Runs

end Trackers

end Sniper.Performance

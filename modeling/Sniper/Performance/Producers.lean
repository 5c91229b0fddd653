import Mathlib.Data.List.Perm.Subperm
import Sniper.Library.LastBefore
import Sniper.Library.Outcome
import Sniper.Performance.MicroOp

/-! The producers of a micro-operation in the whole stream, and what the trackers keep of them. -/

namespace Sniper.Performance

variable {stream : List DynamicMicroOp} {uop uop' source : DynamicMicroOp} {low next number : Nat}

namespace DynamicMicroOp

def writes (register : Nat) (uop : DynamicMicroOp) : Bool := register ∈ uop.microOp.destinationRegisters

def storesTo (address : Nat) (uop : DynamicMicroOp) : Bool := uop.isStore && uop.address = address

/-- A memory barrier that is no memory access itself. -/
def isMembar (uop : DynamicMicroOp) : Bool := !uop.isLoad && !uop.isStore && uop.microOp.membar

def ordered (uop : DynamicMicroOp) : Bool := uop.isLoad || uop.isStore || uop.microOp.membar

/-! ### More dependencies -/

def withDependency (dependencies : List Nat) (number : Nat) : List Nat :=
  if number ∈ dependencies then dependencies else dependencies ++ [number]

def withDependencies (dependencies numbers : List Nat) : List Nat := numbers.foldl withDependency dependencies

def gains (uop : DynamicMicroOp) (numbers : List Nat) : DynamicMicroOp :=
  { uop with dependencies := withDependencies uop.dependencies numbers }

/-- The dependencies do not fit in the array with the others. -/
def TooMany (dependencies numbers : List Nat) (fault : Fault) : Prop :=
  fault = .tooManyDependencies ∧ maximumNumberOfDependencies < (withDependencies dependencies numbers).length

theorem mem_withDependency {dependencies : List Nat} {other : Nat} :
    other ∈ withDependency dependencies number ↔ other ∈ dependencies ∨ other = number := by
  rw [withDependency]
  split
  case isTrue member =>
    refine ⟨.inl, fun either => either.elim id ?_⟩
    intro same
    exact same ▸ member
  case isFalse => rw [List.mem_append, List.mem_singleton]

theorem mem_withDependencies {dependencies numbers : List Nat} {other : Nat} :
    other ∈ withDependencies dependencies numbers ↔ other ∈ dependencies ∨ other ∈ numbers := by
  induction numbers generalizing dependencies with
  | nil => simp [withDependencies]
  | cons number numbers ih =>
    show other ∈ withDependencies (withDependency dependencies number) numbers ↔ _
    rw [ih, mem_withDependency, List.mem_cons, or_assoc]

theorem length_le_withDependencies (dependencies numbers : List Nat) :
    dependencies.length ≤ (withDependencies dependencies numbers).length := by
  induction numbers generalizing dependencies with
  | nil => exact Nat.le_refl _
  | cons number numbers ih =>
    refine Nat.le_trans ?_ (ih (withDependency dependencies number))
    rw [withDependency]
    split
    case isTrue => exact Nat.le_refl _
    case isFalse => exact List.length_append ▸ Nat.le_add_right _ _

theorem withDependencies_append (dependencies first second : List Nat) :
    withDependencies dependencies (first ++ second) = withDependencies (withDependencies dependencies first) second :=
  List.foldl_append

theorem TooMany.append_right {dependencies first : List Nat} {fault : Fault} (tooMany : TooMany dependencies first fault)
    (second : List Nat) : TooMany dependencies (first ++ second) fault :=
  ⟨tooMany.1, withDependencies_append dependencies first second ▸
    Nat.lt_of_lt_of_le tooMany.2 (length_le_withDependencies _ second)⟩

theorem gains_gains (uop : DynamicMicroOp) (first second : List Nat) :
    (uop.gains first).gains second = uop.gains (first ++ second) := by
  rw [gains, gains, gains, withDependencies_append]

theorem TooMany.of_gains {first second : List Nat} {fault : Fault}
    (tooMany : TooMany (uop.gains first).dependencies second fault) : TooMany uop.dependencies (first ++ second) fault :=
  ⟨tooMany.1, withDependencies_append uop.dependencies first second ▸ tooMany.2⟩

theorem meets_gains {α : Type} {first second : List Nat} {computation : Except Fault DynamicMicroOp}
    {continuation : DynamicMicroOp → Except Fault α} {post : α → Prop}
    (adds : Meets (TooMany uop.dependencies first) computation (· = uop.gains first))
    (more : Meets (TooMany (uop.gains first).dependencies second) (continuation (uop.gains first)) post) :
    Meets (TooMany uop.dependencies (first ++ second)) (computation >>= continuation) post := by
  refine Meets.bind (adds.widen fun _ tooMany => tooMany.append_right second) fun gained same => ?_
  subst same
  exact more.widen fun _ tooMany => tooMany.of_gains

theorem addDependency_meets (uop : DynamicMicroOp) (number : Nat) :
    Meets (TooMany uop.dependencies [number]) (uop.addDependency number) (· = uop.gains [number]) := by
  have list : withDependencies uop.dependencies [number] = withDependency uop.dependencies number := rfl
  rw [addDependency, gains, list, withDependency]
  refine Meets.ite (fun member => Meets.ok ?_) fun fresh => Meets.ite (fun _ => Meets.ok ?_) fun full => Meets.error ⟨rfl, ?_⟩
  · rw [if_pos member]
  · rw [if_neg fresh]
  · rw [list, withDependency, if_neg fresh, List.length_append]
    exact Nat.lt_succ_of_le (Nat.le_of_not_lt full)

theorem addDependencies_meets (numbers : List Nat) (uop : DynamicMicroOp) :
    Meets (TooMany uop.dependencies numbers) (uop.addDependencies numbers) (· = uop.gains numbers) := by
  induction numbers generalizing uop with
  | nil => exact Meets.ok rfl
  | cons number numbers ih =>
    rw [addDependencies]
    exact meets_gains (uop.addDependency_meets number) ((ih _).mono fun _ same => same.trans (gains_gains uop [number] numbers))

end DynamicMicroOp

/-! ### Registers -/

/-- The last writers of some registers that are in the window. -/
def sourceProducers (stream : List DynamicMicroOp) (next low : Nat) (registers : List Nat) : List Nat :=
  registers.filterMap fun register => (lastBefore (DynamicMicroOp.writes register) stream next).filter (low ≤ ·)

namespace RegisterDependencies

variable {producers : RegisterDependencies}

/-- The tracker has the last writers that are in the window. -/
def Tracks (producers : RegisterDependencies) (stream : List DynamicMicroOp) (next low : Nat) : Prop :=
  ∀ register, (producers register).filter (low ≤ ·) = (lastBefore (DynamicMicroOp.writes register) stream next).filter (low ≤ ·)

theorem filter_le_filter {low' : Nat} (le : low ≤ low') (found : Option Nat) :
    (found.filter (low ≤ ·)).filter (low' ≤ ·) = found.filter (low' ≤ ·) := by
  rw [Option.filter_filter]
  congr 1
  funext number
  simp only [Bool.and_eq_right_iff_imp, decide_eq_true_eq]
  exact fun later => Nat.le_trans le later

theorem Tracks.mono {low' : Nat} (tracks : producers.Tracks stream next low) (le : low ≤ low') :
    producers.Tracks stream next low' := by
  intro register
  rw [← filter_le_filter le, tracks register, filter_le_filter le]

open DynamicMicroOp in
theorem addSources_meets (tracks : producers.Tracks stream next low) (registers : List Nat) (uop : DynamicMicroOp) :
    Meets (TooMany uop.dependencies (sourceProducers stream next low registers)) (addSources low registers producers uop)
      fun result => result.1.Tracks stream next low ∧ result.2 = uop.gains (sourceProducers stream next low registers) := by
  induction registers generalizing producers uop with
  | nil => exact Meets.ok ⟨tracks, rfl⟩
  | cons register registers ih =>
    have last := tracks register
    rw [addSources, sourceProducers, List.filterMap_cons, ← last]
    cases known : producers register with
    | none => exact ih tracks uop
    | some producer =>
      rw [Option.filter_some]
      refine Meets.ite (fun valid => ?_) fun outside => ?_
      · rw [if_pos (decide_eq_true valid)]
        refine meets_gains (uop.addDependency_meets producer) ((ih tracks _).mono fun result rest => ⟨rest.1, ?_⟩)
        exact rest.2.trans (gains_gains uop [producer] _)
      · rw [if_neg (by simpa using outside)]
        rw [known, Option.filter_some, if_neg (by simpa using outside)] at last
        refine ih (fun other => ?_) uop
        by_cases same : other = register
        · subst same
          rw [if_pos rfl, Option.filter_none, last]
        · rw [if_neg same]
          exact tracks other

theorem setDependencies_meets (uop : DynamicMicroOp) (tracks : producers.Tracks stream next low) (there : stream[next]? = some source)
    (sameOp : uop.microOp = source.microOp) (numbered : uop.sequenceNumber = next) :
    Meets (DynamicMicroOp.TooMany uop.dependencies (sourceProducers stream next low source.microOp.sourceRegisters))
      (producers.setDependencies uop low) fun result =>
        result.1.Tracks stream (next + 1) low ∧
          result.2 = uop.gains (sourceProducers stream next low source.microOp.sourceRegisters) := by
  rw [setDependencies, sameOp]
  refine Meets.bind (addSources_meets tracks _ uop) fun result added => Meets.ok ⟨fun register => ?_, added.2⟩
  have same : result.2.sequenceNumber = next ∧ result.2.microOp = source.microOp := by
    rw [added.2]
    exact ⟨numbered, sameOp⟩
  rw [lastBefore_succ there]
  by_cases writes : register ∈ source.microOp.destinationRegisters
  · simp [same, DynamicMicroOp.writes, writes]
  · simpa [same, DynamicMicroOp.writes, writes] using added.1 register

end RegisterDependencies

/-! ### Memory -/

/-- The last store to the address of a load, and the memory barrier that memory operations and barriers are ordered after. -/
def memoryProducers (stream : List DynamicMicroOp) (next low : Nat) (uop : DynamicMicroOp) : List Nat :=
  (if uop.isLoad then ((lastBefore (DynamicMicroOp.storesTo uop.address) stream next).filter (low ≤ ·)).toList else []) ++
    (if uop.ordered then ((lastBefore DynamicMicroOp.isMembar stream next).filter (low < ·)).toList else [])

namespace MemoryDependencies

variable {memory : MemoryDependencies} {address : Nat}

/-- The tracker has the stores from a sequence number on, in order, and the last memory barrier. -/
structure Tracks (memory : MemoryDependencies) (stream : List DynamicMicroOp) (next low : Nat) : Prop where
  sorted : memory.producers.Pairwise fun earlier later => earlier.1 < later.1
  stores : ∀ producer ∈ memory.producers, producer.1 < next ∧
    ∃ uop, stream[producer.1]? = some uop ∧ uop.isStore = true ∧ uop.address = producer.2
  all : ∀ number uop, low ≤ number → number < next → stream[number]? = some uop → uop.isStore = true →
    (number, uop.address) ∈ memory.producers
  membar : memory.membar = lastBefore DynamicMicroOp.isMembar stream next

theorem Tracks.mono {low' : Nat} (tracks : memory.Tracks stream next low) (le : low ≤ low') :
    memory.Tracks stream next low' :=
  ⟨tracks.sorted, tracks.stores, fun number uop from_ => tracks.all number uop (Nat.le_trans le from_), tracks.membar⟩

theorem Tracks.clean (tracks : memory.Tracks stream next low) : (memory.clean low).Tracks stream next low := by
  have sublist := List.dropWhile_sublist (fun producer : Nat × Nat => producer.1 < low) (l := memory.producers)
  refine ⟨tracks.sorted.sublist sublist, fun producer member => tracks.stores producer (sublist.subset member), ?_,
    tracks.membar⟩
  intro number uop from_ before there store
  have member := tracks.all number uop from_ before there store
  rw [← List.takeWhile_append_dropWhile (p := fun producer : Nat × Nat => producer.1 < low) (l := memory.producers)] at member
  cases List.mem_append.mp member with
  | inl dropped =>
    have early := List.all_eq_true.mp List.all_takeWhile _ dropped
    exact absurd (of_decide_eq_true early) (Nat.not_lt_of_le from_)
  | inr kept => exact kept

theorem Tracks.clean_from (tracks : memory.Tracks stream next low) {producer : Nat × Nat}
    (member : producer ∈ (memory.clean low).producers) : low ≤ producer.1 := by
  have sorted := tracks.clean.sorted
  have first := List.head?_dropWhile_not (fun producer : Nat × Nat => producer.1 < low) memory.producers
  change producer ∈ memory.producers.dropWhile fun producer => producer.1 < low at member
  change (memory.producers.dropWhile fun producer => producer.1 < low).Pairwise _ at sorted
  cases left : memory.producers.dropWhile fun producer => producer.1 < low with
  | nil =>
    rw [left] at member
    cases member
  | cons front rest =>
    rw [left] at member sorted first
    have from_ : low ≤ front.1 := by simpa using first
    cases List.mem_cons.mp member with
    | inl same => exact same ▸ from_
    | inr later => exact Nat.le_trans from_ (Nat.le_of_lt (List.rel_of_pairwise_cons sorted later))

theorem Tracks.find_of_last (tracks : memory.Tracks stream next low)
    (last : lastBefore (DynamicMicroOp.storesTo address) stream next = some number) (from_ : low ≤ number) :
    memory.find address = some number := by
  obtain ⟨uop, there, stores⟩ := lastBefore_passes last
  simp only [DynamicMicroOp.storesTo, Bool.and_eq_true, decide_eq_true_eq] at stores
  have member := tracks.all number uop from_ (lastBefore_lt last) there stores.1
  rw [stores.2] at member
  rw [MemoryDependencies.find]
  cases found : memory.producers.reverse.find? fun producer => producer.2 = address with
  | none =>
    have nothing := List.find?_eq_none.mp found _ (List.mem_reverse.mpr member)
    simp at nothing
  | some producer =>
    have isAddress : producer.2 = address := by simpa using List.find?_some found
    have held := List.mem_reverse.mp (List.mem_of_find?_eq_some found)
    obtain ⟨before, other, otherThere, otherStores, otherAddress⟩ := tracks.stores producer held
    have notLater := lastBefore_last last before otherThere (by
      simp [DynamicMicroOp.storesTo, otherStores, otherAddress, isAddress])
    obtain ⟨-, front, behind, parts, nothing⟩ := List.find?_eq_some_iff_append.mp found
    have notEarlier : number ≤ producer.1 := by
      have sorted := List.pairwise_reverse.mpr tracks.sorted
      rw [parts] at sorted
      have inParts : (number, address) ∈ front ++ producer :: behind := parts ▸ List.mem_reverse.mpr member
      cases List.mem_append.mp inParts with
      | inl early =>
        have different := nothing _ early
        simp at different
      | inr late =>
        cases List.mem_cons.mp late with
        | inl same => exact Nat.le_of_eq (congrArg Prod.fst same)
        | inr later => exact Nat.le_of_lt (List.rel_of_pairwise_cons (List.pairwise_append.mp sorted).2.1 later)
    rw [Option.map_some, Nat.le_antisymm notLater notEarlier]

theorem Tracks.find_eq (tracks : memory.Tracks stream next low) (address : Nat) :
    (memory.clean low).find address = (lastBefore (DynamicMicroOp.storesTo address) stream next).filter (low ≤ ·) := by
  have cleaned := tracks.clean
  cases last : lastBefore (DynamicMicroOp.storesTo address) stream next with
  | some number =>
    by_cases from_ : low ≤ number
    · rw [cleaned.find_of_last last from_, Option.filter_some, if_pos (decide_eq_true from_)]
    · rw [Option.filter_some, if_neg (by simpa using from_), MemoryDependencies.find, Option.map_eq_none_iff,
        List.find?_eq_none]
      intro producer member isAddress
      have held := List.mem_reverse.mp member
      obtain ⟨before, other, there, store, address'⟩ := cleaned.stores producer held
      have notLater := lastBefore_last last before there (by
        simp [DynamicMicroOp.storesTo, store, address', of_decide_eq_true isAddress])
      exact from_ (Nat.le_trans (tracks.clean_from held) notLater)
  | none =>
    rw [Option.filter_none, MemoryDependencies.find, Option.map_eq_none_iff, List.find?_eq_none]
    intro producer member isAddress
    obtain ⟨before, other, there, store, address'⟩ := cleaned.stores producer (List.mem_reverse.mp member)
    have stores : other.storesTo address = true := by
      simp [DynamicMicroOp.storesTo, store, address', of_decide_eq_true isAddress]
    obtain ⟨number, found⟩ := lastBefore_exists before there stores
    cases last.symm.trans found

theorem Tracks.stores_succ (tracks : memory.Tracks stream next low) {producer : Nat × Nat} (member : producer ∈ memory.producers) :
    producer.1 < next + 1 ∧ ∃ uop, stream[producer.1]? = some uop ∧ uop.isStore = true ∧ uop.address = producer.2 := by
  obtain ⟨early, stored⟩ := tracks.stores producer member
  exact ⟨Nat.lt_succ_of_lt early, stored⟩

theorem Tracks.all_succ (tracks : memory.Tracks stream next low) (there : stream[next]? = some source) (noStore : source.isStore = false)
    {number : Nat} {uop : DynamicMicroOp} (from_ : low ≤ number) (before : number < next + 1) (found : stream[number]? = some uop)
    (store : uop.isStore = true) : (number, uop.address) ∈ memory.producers := by
  cases Nat.lt_succ_iff_lt_or_eq.mp before with
  | inl earlier => exact tracks.all number uop from_ earlier found store
  | inr same =>
    subst same
    cases there.symm.trans found
    cases noStore.symm.trans store

theorem Tracks.pass (tracks : memory.Tracks stream next low) (there : stream[next]? = some source)
    (noStore : source.isStore = false) (noMembar : source.isMembar = false) : memory.Tracks stream (next + 1) low where
  sorted := tracks.sorted
  stores _ := tracks.stores_succ
  all _ _ := tracks.all_succ there noStore
  membar := by
    rw [lastBefore_succ there, noMembar]
    exact tracks.membar

/-- The stores of a window. -/
def storesFrom (stream : List DynamicMicroOp) (low next : Nat) : List Nat :=
  (List.range next).filter fun number => low ≤ number ∧ stream[number]?.any DynamicMicroOp.isStore

/-- A store that finds the queue filled by the earlier stores of its window. -/
def StoresFull (stream : List DynamicMicroOp) (next low : Nat) (uop : DynamicMicroOp) (fault : Fault) : Prop :=
  fault = .producersFull ∧ uop.isStore = true ∧ producersSize ≤ (storesFrom stream low next).length

theorem Tracks.length_le (tracks : memory.Tracks stream next low) :
    (memory.clean low).producers.length ≤ (storesFrom stream low next).length := by
  have distinct : ((memory.clean low).producers.map Prod.fst).Nodup :=
    (List.pairwise_map.mpr tracks.clean.sorted).imp fun less => Nat.ne_of_lt less
  have inWindow : (memory.clean low).producers.map Prod.fst ⊆ storesFrom stream low next := by
    intro number member
    obtain ⟨producer, held, same⟩ := List.mem_map.mp member
    obtain ⟨before, uop, there, store, _⟩ := tracks.clean.stores producer held
    have from_ := tracks.clean_from held
    subst same
    simp [storesFrom, before, from_, there, store]
  have le := (List.subperm_of_subset distinct inWindow).length_le
  rwa [List.length_map] at le

theorem Tracks.store (tracks : memory.Tracks stream next low) (there : stream[next]? = some source)
    (store : source.isStore = true) :
    ({ memory with producers := memory.producers ++ [(next, source.address)] } : MemoryDependencies).Tracks stream (next + 1) low := by
  refine ⟨List.pairwise_append.mpr ⟨tracks.sorted, List.pairwise_singleton _ _, ?_⟩, ?_, ?_, ?_⟩
  · intro earlier member later isLater
    rw [List.mem_singleton.mp isLater]
    exact (tracks.stores earlier member).1
  · intro producer member
    cases List.mem_append.mp member with
    | inl before => exact tracks.stores_succ before
    | inr added =>
      rw [List.mem_singleton.mp added]
      exact ⟨Nat.lt_succ_self next, source, there, store, rfl⟩
  · intro number uop from_ before found stored
    cases Nat.lt_succ_iff_lt_or_eq.mp before with
    | inl earlier => exact List.mem_append_left _ (tracks.all number uop from_ earlier found stored)
    | inr same =>
      subst same
      cases there.symm.trans found
      exact List.mem_append_right _ (List.mem_singleton_self _)
  · have noMembar : source.isMembar = false := by simp [DynamicMicroOp.isMembar, store]
    rw [lastBefore_succ there, noMembar]
    exact tracks.membar

theorem Tracks.add_meets (tracks : memory.Tracks stream next low) (there : stream[next]? = some source)
    (store : source.isStore = true) :
    Meets (StoresFull stream next low source) ((memory.clean low).add next source.address) fun stored =>
      stored.Tracks stream (next + 1) low ∧ stored.membar = (memory.clean low).membar :=
  Meets.ite (fun full => Meets.error ⟨rfl, store, full ▸ tracks.length_le⟩) fun _ =>
    Meets.ok ⟨tracks.clean.store there store, rfl⟩

theorem Tracks.barrier (tracks : memory.Tracks stream next low) (there : stream[next]? = some source)
    (noStore : source.isStore = false) (isMembar : source.isMembar = true) :
    ({ memory with membar := some next } : MemoryDependencies).Tracks stream (next + 1) low where
  sorted := tracks.sorted
  stores _ := tracks.stores_succ
  all _ _ := tracks.all_succ there noStore
  membar := by
    rw [lastBefore_succ there, isMembar]
    rfl

open DynamicMicroOp in
theorem addMembar_meets (tracks : memory.Tracks stream next low) (uop : DynamicMicroOp) :
    Meets (TooMany uop.dependencies ((lastBefore isMembar stream next).filter (low < ·)).toList) (memory.addMembar uop low)
      (· = uop.gains ((lastBefore isMembar stream next).filter (low < ·)).toList) := by
  rw [addMembar, tracks.membar]
  exact uop.addDependencies_meets _

open DynamicMicroOp in
theorem setDependencies_meets (uop : DynamicMicroOp) (tracks : memory.Tracks stream next low) (there : stream[next]? = some source)
    (sameOp : uop.microOp = source.microOp) (sameAddress : uop.address = source.address) (numbered : uop.sequenceNumber = next) :
    Meets (fun fault => TooMany uop.dependencies (memoryProducers stream next low source) fault ∨
        StoresFull stream next low source fault) (memory.setDependencies uop low) fun result =>
      result.1.Tracks stream (next + 1) low ∧ result.2 = uop.gains (memoryProducers stream next low source) := by
  have cleaned := tracks.clean
  have isLoad : uop.isLoad = source.isLoad := by rw [DynamicMicroOp.isLoad, sameOp, DynamicMicroOp.isLoad]
  have isStore : uop.isStore = source.isStore := by rw [DynamicMicroOp.isStore, sameOp, DynamicMicroOp.isStore]
  rw [setDependencies, memoryProducers, isLoad, isStore, sameOp, sameAddress]
  cases load : source.isLoad with
  | true =>
    have noStore : source.isStore = false := by
      simp only [DynamicMicroOp.isLoad, MicroOp.isLoad, decide_eq_true_eq] at load
      simp [DynamicMicroOp.isStore, MicroOp.isStore, load]
    have noMembar : source.isMembar = false := by simp [DynamicMicroOp.isMembar, load]
    have ordered : source.ordered = true := by simp [DynamicMicroOp.ordered, load]
    rw [if_pos rfl, if_pos rfl, ordered, if_pos rfl, tracks.find_eq]
    refine Meets.widen (meets_gains (uop.addDependencies_meets _) ?_) fun _ => Or.inl
    refine Meets.bind (addMembar_meets cleaned _) fun last same => Meets.ok ⟨cleaned.pass there noStore noMembar, ?_⟩
    exact same.trans (gains_gains uop _ _)
  | false =>
    rw [if_neg Bool.false_ne_true, if_neg Bool.false_ne_true, List.nil_append]
    cases store : source.isStore with
    | true =>
      have ordered : source.ordered = true := by simp [DynamicMicroOp.ordered, store]
      rw [if_pos rfl, ordered, if_pos rfl]
      rw [numbered]
      refine Meets.bind ((tracks.add_meets there store).widen fun _ => Or.inr) fun stored kept => ?_
      have more := addMembar_meets cleaned uop
      rw [addMembar, ← kept.2] at more
      exact Meets.bind (more.widen fun _ => Or.inl) fun last same => Meets.ok ⟨kept.1, same⟩
    | false =>
      rw [if_neg Bool.false_ne_true]
      cases membar : source.microOp.membar with
      | true =>
        have ordered : source.ordered = true := by simp [DynamicMicroOp.ordered, membar]
        have isMembar : source.isMembar = true := by simp [DynamicMicroOp.isMembar, load, store, membar]
        rw [if_pos rfl, ordered, if_pos rfl]
        refine Meets.bind ((addMembar_meets cleaned uop).widen fun _ => Or.inl) fun last same => Meets.ok ⟨?_, same⟩
        subst same
        show ({ memory.clean low with membar := some uop.sequenceNumber } : MemoryDependencies).Tracks stream (next + 1) low
        rw [numbered]
        exact cleaned.barrier there store isMembar
      | false =>
        have ordered : source.ordered = false := by simp [DynamicMicroOp.ordered, load, store, membar]
        have noMembar : source.isMembar = false := by simp [DynamicMicroOp.isMembar, membar]
        rw [if_neg Bool.false_ne_true, ordered, if_neg Bool.false_ne_true]
        exact Meets.ok ⟨cleaned.pass there store noMembar, rfl⟩

end MemoryDependencies

end Sniper.Performance

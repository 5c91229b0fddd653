import Sniper.Library.Chains
import Sniper.Library.Laps
import Sniper.Performance.Numbering

/-! `calculateBranchResolutionLatency` on `m_exec_time_map`, an array over the places of both windows. -/

namespace Sniper.Performance.IntervalTimer

variable {Port Mem : Type}

section

variable [DecidableEq Port] (config : Config Port Mem)

/-- `getWindowIndex`: `add` fills the places in order of the sequence numbers. -/
def WindowEntry.windowIndex (entry : WindowEntry Port) : Nat := entry.sequenceNumber % (2 * config.windowSize)

/-- Mark direct producers of this instruction -/
def markDirectProducers : List (WindowEntry Port) → (Nat → Nat) → Nat → Nat
  | [], execTimeMap => execTimeMap
  | producer :: rest, execTimeMap =>
    markDirectProducers rest (Function.update execTimeMap (producer.windowIndex config) producer.uop.execLatency)

/-- Check the dependencies -/
def markProducersOf (op : WindowEntry Port) : List (WindowEntry Port) → (Nat → Nat) → Nat → Nat
  | [], execTimeMap => execTimeMap
  | producer :: rest, execTimeMap =>
    markProducersOf op rest (Function.update execTimeMap (producer.windowIndex config)
      (max ((producer.uop.execLatency + execTimeMap (op.windowIndex config)) % 2 ^ 32) (execTimeMap (producer.windowIndex config))))

/-- Find/mark producers of producers, and reset the entries of `m_exec_time_map`. -/
def findProducers (windows : Windows Port) : List (WindowEntry Port) → (Nat → Nat) → Nat → Nat × (Nat → Nat)
  | [], execTimeMap, brResolutionLatency => (brResolutionLatency, execTimeMap)
  | op :: older, execTimeMap, brResolutionLatency =>
    if execTimeMap (op.windowIndex config) ≠ 0 then
      let execTimeMap := markProducersOf config op (windows.getProducers op) execTimeMap
      findProducers windows older (Function.update execTimeMap (op.windowIndex config) 0)
        (max brResolutionLatency (execTimeMap (op.windowIndex config)))
    else findProducers windows older execTimeMap brResolutionLatency

/-- The latency, and `m_exec_time_map` afterwards. -/
def branchResolution (windows : Windows Port) (microOp : WindowEntry Port) (execTimeMap : Nat → Nat) : Int × (Nat → Nat) :=
  let result := findProducers config windows windows.oldWindow.reverse
    (markDirectProducers config (windows.getProducers microOp) execTimeMap) 0
  (toInt result.1, result.2)

end

/-! ## The old window -/

variable {windows : Windows Port} {op producer node : WindowEntry Port} {execTimeMap : Nat → Nat}
  {entries : List (WindowEntry Port)}

theorem mem_getProducers (member : producer ∈ windows.getProducers op) :
    producer ∈ windows.oldWindow ∧ producer.sequenceNumber ∈ op.uop.getDependencies := by
  obtain ⟨dependency, isDependency, found⟩ := List.mem_filterMap.mp member
  have isNumber : producer.sequenceNumber = dependency := by simpa using List.find?_some found
  exact ⟨List.mem_of_find?_eq_some found, isNumber ▸ isDependency⟩

/-- The old window, latest first, from one of its micro-operations on. -/
structure Splits (windows : Windows Port) (passed : List (WindowEntry Port)) (op : WindowEntry Port) (older : List (WindowEntry Port)) :
    Prop where
  entries : passed ++ op :: older = windows.oldWindow.reverse
  before : ∀ node ∈ passed, op.sequenceNumber < node.sequenceNumber
  after : ∀ node ∈ older, node.sequenceNumber < op.sequenceNumber

variable {passed older : List (WindowEntry Port)}

theorem Splits.mem_iff (splits : Splits windows passed op older) (node : WindowEntry Port) :
    node ∈ windows.oldWindow ↔ node ∈ passed ∨ node = op ∨ node ∈ older := by
  rw [← List.mem_reverse, ← splits.entries, List.mem_append, List.mem_cons]

theorem Splits.op_mem (splits : Splits windows passed op older) : op ∈ windows.oldWindow := (splits.mem_iff op).mpr (.inr (.inl rfl))

theorem Splits.older_mem (splits : Splits windows passed op older) (member : node ∈ older) : node ∈ windows.oldWindow :=
  (splits.mem_iff node).mpr (.inr (.inr member))

/-- What `add` and `dispatchInstruction` make of the old window. -/
structure Ordered [DecidableEq Port] (config : Config Port Mem) (windows : Windows Port) : Prop where
  numbered : ∃ first, Numbered first windows.oldWindow
  few : windows.oldWindow.length ≤ config.windowSize

variable [DecidableEq Port] {config : Config Port Mem}

/-- The old window is so in every run of the timer. -/
theorem ordered_of_reach {timer : Timer Port Mem} (reached : (machine config).Reach AddsFresh timer) : Ordered config timer.windows := by
  obtain ⟨sound, sequenced⟩ := sequenced_of_reach reached
  obtain ⟨first, numbered, _⟩ := sequenced.numbered
  exact ⟨⟨first, numbered.left⟩, sound.oldLength⟩

theorem Ordered.apart (ordered : Ordered config windows) (member : op ∈ windows.oldWindow) (member' : node ∈ windows.oldWindow)
    (same : op.windowIndex config = node.windowIndex config) : op = node := by
  obtain ⟨first, numbered⟩ := ordered.numbered
  have few := ordered.few
  have holds {entry : WindowEntry Port} (within : entry ∈ windows.oldWindow) :
      Holds (2 * config.windowSize) (first + windows.oldWindow.length) (entry.windowIndex config) entry.sequenceNumber := by
    have range := numbered.range within
    exact ⟨rfl, range.2, by omega⟩
  exact numbered.eq_of_sequenceNumber member member' ((holds member).unique (same ▸ holds member'))

theorem Ordered.splits (ordered : Ordered config windows) (entries : passed ++ op :: older = windows.oldWindow.reverse) :
    Splits windows passed op older := by
  obtain ⟨first, numbered⟩ := ordered.numbered
  have decreasing : (passed ++ op :: older).Pairwise fun later op => op.sequenceNumber < later.sequenceNumber := by
    rw [entries]
    exact List.pairwise_reverse.mpr numbered.increasing
  obtain ⟨_, after, before⟩ := List.pairwise_append.mp decreasing
  exact ⟨entries, fun node member => before node member op List.mem_cons_self, (List.pairwise_cons.mp after).1⟩

theorem Ordered.producer_lt (ordered : Ordered config windows) (member : op ∈ windows.oldWindow)
    (isProducer : producer ∈ windows.getProducers op) : producer.sequenceNumber < op.sequenceNumber := by
  obtain ⟨first, numbered⟩ := ordered.numbered
  exact numbered.earlier op member _ (mem_getProducers isProducer).2

theorem Ordered.consumer_passed (ordered : Ordered config windows) (splits : Splits windows passed op older)
    (within : node ∈ windows.oldWindow) (isProducer : op ∈ windows.getProducers node) : node ∈ passed := by
  have later := ordered.producer_lt within isProducer
  obtain before | same | after := (splits.mem_iff node).mp within
  · exact before
  · exact absurd later (same ▸ Nat.lt_irrefl _)
  · exact absurd (splits.after node after) (Nat.lt_asymm later)

theorem Ordered.producer_older (ordered : Ordered config windows) (splits : Splits windows passed op older)
    (isProducer : producer ∈ windows.getProducers op) : producer ∈ older := by
  have earlier := ordered.producer_lt splits.op_mem isProducer
  obtain before | same | after := (splits.mem_iff producer).mp (mem_getProducers isProducer).1
  · exact absurd (splits.before producer before) (Nat.lt_asymm earlier)
  · exact absurd earlier (same ▸ Nat.lt_irrefl _)
  · exact after

theorem Ordered.index_ne (ordered : Ordered config windows) (splits : Splits windows passed op older) (member : node ∈ older) :
    node.windowIndex config ≠ op.windowIndex config := by
  intro same
  have equal := ordered.apart (splits.older_mem member) splits.op_mem same
  exact absurd (splits.after node member) (equal ▸ Nat.lt_irrefl _)

theorem Ordered.producer_apart (ordered : Ordered config windows) (within : node ∈ windows.oldWindow) :
    ∀ producer ∈ windows.getProducers op, producer.windowIndex config = node.windowIndex config → producer = node :=
  fun _ isProducer => ordered.apart (mem_getProducers isProducer).1 within

theorem Ordered.producer_ne (ordered : Ordered config windows) (within : node ∈ windows.oldWindow)
    (notProducer : node ∉ windows.getProducers op) : ∀ producer ∈ windows.getProducers op, producer.windowIndex config ≠ node.windowIndex config :=
  fun producer isProducer same => notProducer (ordered.producer_apart within producer isProducer same ▸ isProducer)

theorem Ordered.producers_ne (ordered : Ordered config windows) (splits : Splits windows passed op older) :
    ∀ producer ∈ windows.getProducers op, producer.windowIndex config ≠ op.windowIndex config :=
  fun _ isProducer => ordered.index_ne splits (ordered.producer_older splits isProducer)

/-! ## The marks -/

theorem markDirectProducers_eq (entries : List (WindowEntry Port)) (execTimeMap : Nat → Nat) :
    markDirectProducers config entries execTimeMap =
      markAll (WindowEntry.windowIndex config) (fun producer _ => producer.uop.execLatency) entries execTimeMap := by
  induction entries generalizing execTimeMap with
  | nil => rfl
  | cons producer rest ih => exact ih _

theorem markProducersOf_eq (others : ∀ producer ∈ entries, producer.windowIndex config ≠ op.windowIndex config) :
    markProducersOf config op entries execTimeMap = markAll (WindowEntry.windowIndex config)
      (fun producer time => max ((producer.uop.execLatency + execTimeMap (op.windowIndex config)) % 2 ^ 32) time) entries execTimeMap := by
  suffices general : ∀ times : Nat → Nat, times (op.windowIndex config) = execTimeMap (op.windowIndex config) →
      markProducersOf config op entries times = markAll (WindowEntry.windowIndex config)
        (fun producer time => max ((producer.uop.execLatency + execTimeMap (op.windowIndex config)) % 2 ^ 32) time) entries times from
    general execTimeMap rfl
  induction entries with
  | nil => exact fun _ _ => rfl
  | cons producer rest ih =>
    intro times same
    rw [markProducersOf, markAll, same]
    refine ih (fun other member => others other (List.mem_cons_of_mem _ member)) _ ?_
    rw [Function.update_of_ne (others producer List.mem_cons_self).symm, same]

theorem max_again (first : Nat) (time : Nat) : max first (max first time) = max first time := by
  rw [← Nat.max_assoc, Nat.max_self]

/-! ## The pass -/

def execLatency (entry : WindowEntry Port) : Nat := entry.uop.execLatency

/-- The producers that the first loop marks with a latency that is not 0. -/
def markedProducers (direct : List (WindowEntry Port)) : List (WindowEntry Port) := direct.filter fun entry => entry.uop.execLatency != 0

variable {direct ahead : List (WindowEntry Port)} {latency : Nat}

omit [DecidableEq Port] in
theorem chain_mem {length : Nat} (within : ∀ entry ∈ direct, entry ∈ windows.oldWindow)
    (chain : Chain execLatency windows.getProducers direct node length) : node ∈ windows.oldWindow := by
  cases chain with
  | direct _ member => exact within node member
  | further _ consumer _ _ isProducer => exact (mem_getProducers isProducer).1

/-- One pass over the old window finds the longest chain, if the times of the chains do not wrap around. -/
theorem findProducers_longest (ordered : Ordered config windows) (within : ∀ entry ∈ direct, entry ∈ windows.oldWindow)
    (positive : ∀ entry ∈ direct, execLatency entry ≠ 0)
    (small : ∀ node length, Chain execLatency windows.getProducers direct node length → length < 2 ^ 32)
    (split : passed ++ ahead = windows.oldWindow.reverse)
    (pass : Pass execLatency windows.getProducers direct passed ahead (fun node => execTimeMap (node.windowIndex config)) latency) :
    IsLongest execLatency windows.getProducers direct (findProducers config windows ahead execTimeMap latency).1 := by
  induction ahead generalizing passed execTimeMap latency with
  | nil =>
    refine pass.finish fun node length chain => ?_
    rw [← List.append_nil passed, split, List.mem_reverse]
    exact chain_mem within chain
  | cons op older ih =>
    have splits := ordered.splits split
    have split' : (passed ++ [op]) ++ older = windows.oldWindow.reverse := by rw [List.append_assoc, List.singleton_append, split]
    have consumers : ∀ consumer length, Chain execLatency windows.getProducers direct consumer length →
        op ∈ windows.getProducers consumer → consumer ∈ passed :=
      fun consumer _ chain isProducer => ordered.consumer_passed splits (chain_mem within chain) isProducer
    unfold findProducers
    by_cases marked : execTimeMap (op.windowIndex config) = 0
    · rw [if_neg fun some => some marked]
      exact ih split' (pass.skip positive consumers marked)
    · have others := ordered.producers_ne splits
      have chain := (pass.chain op List.mem_cons_self).resolve_left marked
      rw [if_pos marked, markProducersOf_eq others]
      refine ih split' ?_
      rw [markAll_of_ne others]
      refine pass.relax consumers marked (fun node member isProducer => ?_) fun node member notProducer => ?_
      · have noWrap : (node.uop.execLatency + execTimeMap (op.windowIndex config)) % 2 ^ 32 =
            execLatency node + execTimeMap (op.windowIndex config) :=
          Nat.mod_eq_of_lt (small node _ (.further node op _ chain isProducer))
        rw [Function.update_of_ne (ordered.index_ne splits member),
          markAll_of_mem (fun _ => max_again _) (ordered.producer_apart (splits.older_mem member)) isProducer, noWrap]
      · rw [Function.update_of_ne (ordered.index_ne splits member),
          markAll_of_ne (ordered.producer_ne (splits.older_mem member) notProducer)]

theorem findProducers_cleared (ordered : Ordered config windows) (split : passed ++ ahead = windows.oldWindow.reverse)
    (clear : ∀ index, (∀ node ∈ ahead, node.windowIndex config ≠ index) → execTimeMap index = 0) :
    (findProducers config windows ahead execTimeMap latency).2 = fun _ => 0 := by
  induction ahead generalizing passed execTimeMap latency with
  | nil =>
    funext index
    exact clear index fun _ none => nomatch none
  | cons op older ih =>
    have splits := ordered.splits split
    have split' : (passed ++ [op]) ++ older = windows.oldWindow.reverse := by rw [List.append_assoc, List.singleton_append, split]
    unfold findProducers
    by_cases marked : execTimeMap (op.windowIndex config) = 0
    · rw [if_neg fun some => some marked]
      refine ih split' fun index outside => ?_
      by_cases isOp : op.windowIndex config = index
      · rw [← isOp, marked]
      · exact clear index (List.forall_mem_cons.mpr ⟨isOp, outside⟩)
    · rw [if_pos marked]
      refine ih split' fun index outside => ?_
      by_cases isOp : index = op.windowIndex config
      · rw [isOp, Function.update_self]
      · have others : ∀ producer ∈ windows.getProducers op, producer.windowIndex config ≠ index :=
          fun producer isProducer => outside producer (ordered.producer_older splits isProducer)
        rw [Function.update_of_ne isOp, markProducersOf_eq (ordered.producers_ne splits), markAll_of_ne others]
        exact clear index (List.forall_mem_cons.mpr ⟨Ne.symm isOp, outside⟩)

/-! ## The latency -/

variable {microOp : WindowEntry Port}

omit [DecidableEq Port] in
theorem mem_markedProducers {entry : WindowEntry Port} :
    entry ∈ markedProducers direct ↔ entry ∈ direct ∧ execLatency entry ≠ 0 := by
  rw [markedProducers, List.mem_filter, bne_iff_ne]
  rfl

theorem Ordered.start (ordered : Ordered config windows) :
    Pass execLatency windows.getProducers (markedProducers (windows.getProducers microOp)) [] windows.oldWindow.reverse
      (fun node => markDirectProducers config (windows.getProducers microOp) (fun _ => 0) (node.windowIndex config)) 0 := by
  have marked (node : WindowEntry Port) (member : node ∈ windows.getProducers microOp) :
      markDirectProducers config (windows.getProducers microOp) (fun _ => 0) (node.windowIndex config) = execLatency node := by
    rw [markDirectProducers_eq]
    exact markAll_of_mem (fun _ _ => rfl) (ordered.producer_apart (mem_getProducers member).1) member
  refine .start (fun node within => ?_) fun node _ isMarked => ?_
  · by_cases member : node ∈ windows.getProducers microOp
    · rw [marked node member]
      by_cases none : execLatency node = 0
      · exact .inl none
      · exact .inr ⟨mem_markedProducers.mpr ⟨member, none⟩, rfl⟩
    · rw [markDirectProducers_eq]
      exact .inl (markAll_of_ne (ordered.producer_ne (List.mem_reverse.mp within) member))
  · rw [marked node (mem_markedProducers.mp isMarked).1]

theorem Ordered.branchResolution_cleared (ordered : Ordered config windows) :
    (branchResolution config windows microOp fun _ => 0).2 = fun _ => 0 := by
  have split : [] ++ windows.oldWindow.reverse = windows.oldWindow.reverse := rfl
  refine findProducers_cleared ordered split fun index outside => ?_
  rw [markDirectProducers_eq]
  exact markAll_of_ne fun producer isProducer => outside producer (List.mem_reverse.mpr (mem_getProducers isProducer).1)

theorem Ordered.branchResolution_marked (ordered : Ordered config windows)
    (small : ∀ node length, Chain execLatency windows.getProducers (windows.getProducers microOp) node length → length < 2 ^ 31) :
    ∃ longest : Nat, IsLongest execLatency windows.getProducers (markedProducers (windows.getProducers microOp)) longest ∧
      (branchResolution config windows microOp fun _ => 0).1 = longest := by
  have subset : markedProducers (windows.getProducers microOp) ⊆ windows.getProducers microOp := List.filter_subset_self _
  have split : [] ++ windows.oldWindow.reverse = windows.oldWindow.reverse := rfl
  have longest := findProducers_longest ordered (fun entry member => (mem_getProducers (subset member)).1)
    (fun entry member => (mem_markedProducers.mp member).2)
    (fun node length chain => Nat.lt_trans (small node length (chain.mono subset)) (by decide)) split ordered.start
  refine ⟨_, longest, ?_⟩
  have short : (findProducers config windows windows.oldWindow.reverse
      (markDirectProducers config (windows.getProducers microOp) fun _ => 0) 0).1 < 2 ^ 31 := by
    obtain zero | ⟨node, chain⟩ := longest.attained
    · rw [zero]
      decide
    · exact small node _ (chain.mono subset)
  unfold branchResolution
  dsimp only
  rw [toInt_eq]
  omega

/-- The longest dependency chain that ends at the branch is returned, and no time is left in `m_exec_time_map`. -/
structure Resolves (config : Config Port Mem) (windows : Windows Port) (microOp : WindowEntry Port) : Prop where
  longest : ∃ longest : Nat, IsLongest execLatency windows.getProducers (windows.getProducers microOp) longest ∧
    (branchResolution config windows microOp fun _ => 0).1 = longest
  cleared : (branchResolution config windows microOp fun _ => 0).2 = fun _ => 0

/-- Exactly if all chains are shorter than 2^31, and none through a direct producer without latency is longer than those through
the others. -/
theorem resolves_iff (ordered : Ordered config windows) :
    Resolves config windows microOp ↔
      (∀ node length, Chain execLatency windows.getProducers (windows.getProducers microOp) node length → length < 2 ^ 31) ∧
        ∀ node length, Chain execLatency windows.getProducers (windows.getProducers microOp) node length → length = 0 ∨
          ∃ other longer, Chain execLatency windows.getProducers (markedProducers (windows.getProducers microOp)) other longer ∧
            length ≤ longer := by
  have subset : markedProducers (windows.getProducers microOp) ⊆ windows.getProducers microOp := List.filter_subset_self _
  constructor
  · rintro ⟨⟨longest, isLongest, returned⟩, _⟩
    have isInt : (branchResolution config windows microOp fun _ => 0).1 < 2 ^ 31 := (toInt_range _).2
    have small : ∀ node length, Chain execLatency windows.getProducers (windows.getProducers microOp) node length → length < 2 ^ 31 := by
      intro node length chain
      have le := isLongest.le node length chain
      omega
    refine ⟨small, fun node length chain => ?_⟩
    obtain ⟨found, isFound, returned'⟩ := ordered.branchResolution_marked small
    have same : longest = found := Int.natCast_inj.mp (returned.symm.trans returned')
    have le := isLongest.le node length chain
    obtain zero | ⟨other, chain'⟩ := isFound.attained
    · exact .inl (by omega)
    · exact .inr ⟨other, found, chain', same ▸ le⟩
  · rintro ⟨small, through⟩
    obtain ⟨found, isFound, returned⟩ := ordered.branchResolution_marked small
    refine ⟨⟨found, ⟨fun node length chain => ?_, ?_⟩, returned⟩, ordered.branchResolution_cleared⟩
    · obtain zero | ⟨other, longer, chain', le⟩ := through node length chain
      · exact zero ▸ Nat.zero_le found
      · exact Nat.le_trans le (isFound.le other longer chain')
    · exact isFound.attained.imp_right fun ⟨node, chain⟩ => ⟨node, chain.mono subset⟩

/-! ## By sequence number -/

theorem Ordered.producer_same (ordered : Ordered config windows) (within : node ∈ windows.oldWindow) :
    ∀ producer ∈ windows.getProducers op, producer.sequenceNumber = node.sequenceNumber → producer = node := by
  obtain ⟨first, numbered⟩ := ordered.numbered
  exact fun producer isProducer => numbered.eq_of_sequenceNumber (mem_getProducers isProducer).1 within

theorem Ordered.producer_other (ordered : Ordered config windows) (within : node ∈ windows.oldWindow)
    (notProducer : node ∉ windows.getProducers op) : ∀ producer ∈ windows.getProducers op, producer.sequenceNumber ≠ node.sequenceNumber :=
  fun producer isProducer same => notProducer (ordered.producer_same within producer isProducer same ▸ isProducer)

variable {times : Nat → Nat} {length : Nat}

omit [DecidableEq Port] in
theorem markProducers_eq (entries : List (WindowEntry Port)) (times : Nat → Nat) :
    Windows.markProducers length entries times =
      markAll WindowEntry.sequenceNumber (fun producer time => max ((producer.uop.execLatency + length) % 2 ^ 32) time) entries times := by
  induction entries generalizing times with
  | nil => rfl
  | cons producer rest ih =>
    rw [Windows.markProducers, markAll, ih]
    congr 1
    funext number
    rw [Function.update_apply]
    split
    case isTrue same => rw [same]
    case isFalse => rfl

/-- The pass over the array follows the one that keeps the times by sequence number. -/
theorem findProducers_eq (ordered : Ordered config windows) (split : passed ++ ahead = windows.oldWindow.reverse)
    (agree : ∀ node ∈ ahead, execTimeMap (node.windowIndex config) = times node.sequenceNumber) :
    (findProducers config windows ahead execTimeMap latency).1 = max latency (windows.resolveBranch ahead times) := by
  induction ahead generalizing passed execTimeMap times latency with
  | nil => exact (Nat.max_zero latency).symm
  | cons op older ih =>
    have splits := ordered.splits split
    have split' : (passed ++ [op]) ++ older = windows.oldWindow.reverse := by rw [List.append_assoc, List.singleton_append, split]
    have here := agree op List.mem_cons_self
    unfold findProducers Windows.resolveBranch
    dsimp only
    by_cases marked : times op.sequenceNumber = 0
    · rw [if_neg fun some => some (here.trans marked), if_pos marked]
      exact ih split' fun node member => agree node (List.mem_cons_of_mem _ member)
    · have others := ordered.producers_ne splits
      rw [if_pos fun none => marked (here.symm.trans none), if_neg marked, markProducersOf_eq others, markProducers_eq,
        markAll_of_ne others, here, ← Nat.max_assoc]
      refine ih split' fun node member => ?_
      have within := splits.older_mem member
      rw [Function.update_of_ne (ordered.index_ne splits member)]
      by_cases isProducer : node ∈ windows.getProducers op
      · rw [markAll_of_mem (fun _ => max_again _) (ordered.producer_apart within) isProducer,
          markAll_of_mem (fun _ => max_again _) (ordered.producer_same within) isProducer, agree node (List.mem_cons_of_mem _ member)]
      · rw [markAll_of_ne (ordered.producer_ne within isProducer), markAll_of_ne (ordered.producer_other within isProducer),
          agree node (List.mem_cons_of_mem _ member)]

/-- The latency that the timer adds to a misprediction is this one. -/
theorem branchResolution_eq (ordered : Ordered config windows) (small : ∀ entry ∈ windows.oldWindow, execLatency entry < 2 ^ 32) :
    (branchResolution config windows microOp fun _ => 0).1 = toInt (windows.calculateBranchResolutionLatency microOp) := by
  have split : [] ++ windows.oldWindow.reverse = windows.oldWindow.reverse := rfl
  unfold branchResolution Windows.calculateBranchResolutionLatency
  dsimp only
  rw [findProducers_eq ordered split fun node member => ?_, Nat.zero_max]
  have within := List.mem_reverse.mp member
  by_cases isProducer : node ∈ windows.getProducers microOp
  · have marked : markAll (WindowEntry.windowIndex config) (fun producer _ => producer.uop.execLatency) (windows.getProducers microOp)
        (fun _ => 0) (node.windowIndex config) = node.uop.execLatency :=
      markAll_of_mem (fun _ _ => rfl) (ordered.producer_apart within) isProducer
    rw [markDirectProducers_eq, markProducers_eq, marked,
      markAll_of_mem (fun _ => max_again _) (ordered.producer_same within) isProducer, Nat.add_zero, Nat.max_zero]
    exact (Nat.mod_eq_of_lt (small node within)).symm
  · rw [markDirectProducers_eq, markProducers_eq, markAll_of_ne (ordered.producer_ne within isProducer),
      markAll_of_ne (ordered.producer_other within isProducer)]

/-- In a run the array always gives this latency, and no time is left in it for the next call. -/
theorem branchResolution_of_reach {timer : Timer Port Mem} (reached : (machine config).Reach AddsFresh timer)
    (small : ∀ entry ∈ timer.windows.oldWindow, execLatency entry < 2 ^ 32) (microOp : WindowEntry Port) :
    branchResolution config timer.windows microOp (fun _ => 0) =
      (toInt (timer.windows.calculateBranchResolutionLatency microOp), fun _ => 0) := by
  have ordered := ordered_of_reach reached
  exact Prod.ext (branchResolution_eq ordered small) ordered.branchResolution_cleared

theorem branchResolution_of_reach_load : ∃ timer : Timer NehalemPort Unit, timer.windows.oldWindow.length = 2 ∧
    ∀ microOp, branchResolution slow timer.windows microOp (fun _ => 0) =
      (toInt (timer.windows.calculateBranchResolutionLatency microOp), fun _ => 0) := by
  have start : (machine slow).Reach AddsFresh (.initial 1 ()) := .initial ⟨1, (), rfl⟩
  have loaded := start.step (Label.add slowLoad) ⟨rfl, .inl rfl⟩ rfl
  have used := loaded.step (Label.add useLoad) ⟨rfl, .inr (by decide)⟩ rfl
  have dispatched := (used.step Label.dispatch trivial rfl).step Label.dispatch trivial rfl
  exact ⟨_, rfl, branchResolution_of_reach dispatched (by decide)⟩

def numberedOp (uop : Uop NehalemPort) (sequenceNumber : Nat) (dependencies : List Nat) : WindowEntry NehalemPort :=
  .init { uop with sequenceNumber, dependencies }

def oldWindowOf (oldWindow : List (WindowEntry NehalemPort)) : Windows NehalemPort :=
  { (.empty : Windows NehalemPort) with oldWindow, nextSequenceNumber := oldWindow.length }

/-- A load that is not executed. -/
def predicatedLoad : Uop NehalemPort := { fetched .load .load 0 with dCacheHitWhere := .predicateFalse }

/-- An addition on the result of another one, and a third one by itself. -/
def twoChains : Windows NehalemPort :=
  oldWindowOf [numberedOp (fetched .execute .generic 5) 0 [], numberedOp (fetched .execute .generic 3) 1 [0],
    numberedOp (fetched .execute .generic 6) 2 []]

/-- A branch on a chain of two micro-operations and on a single one that takes longer than each of them. -/
theorem resolves_iff_twoChains : Resolves slow twoChains (numberedOp (fetched .execute .branch 1) 3 [1, 2]) := by
  have direct : twoChains.getProducers (numberedOp (fetched .execute .branch 1) 3 [1, 2]) =
      [numberedOp (fetched .execute .generic 3) 1 [0], numberedOp (fetched .execute .generic 6) 2 []] := rfl
  have chains (node length) (chain : Chain execLatency twoChains.getProducers
      (twoChains.getProducers (numberedOp (fetched .execute .branch 1) 3 [1, 2])) node length) :
      (node = numberedOp (fetched .execute .generic 3) 1 [0] ∧ length = 3) ∨
        (node = numberedOp (fetched .execute .generic 6) 2 [] ∧ length = 6) ∨
        node = numberedOp (fetched .execute .generic 5) 0 [] ∧ length = 8 := by
    induction chain with
    | direct node member =>
      rw [direct] at member
      obtain isFirst | member := List.mem_cons.mp member
      · exact .inl ⟨isFirst, by rw [isFirst]; rfl⟩
      · have isSecond := List.mem_singleton.mp member
        exact .inr (.inl ⟨isSecond, by rw [isSecond]; rfl⟩)
    | further node consumer length _ isProducer ih =>
      obtain ⟨isConsumer, isLength⟩ | ⟨isConsumer, -⟩ | ⟨isConsumer, -⟩ := ih
      · rw [isConsumer] at isProducer
        have isNode : node = numberedOp (fetched .execute .generic 5) 0 [] := List.mem_singleton.mp isProducer
        exact .inr (.inr ⟨isNode, by rw [isNode, isLength]; rfl⟩)
      · rw [isConsumer] at isProducer
        cases isProducer
      · rw [isConsumer] at isProducer
        cases isProducer
  have most (node length) (chain : Chain execLatency twoChains.getProducers
      (twoChains.getProducers (numberedOp (fetched .execute .branch 1) 3 [1, 2])) node length) : length ≤ 8 := by
    obtain ⟨-, isLength⟩ | ⟨-, isLength⟩ | ⟨-, isLength⟩ := chains node length chain <;> omega
  refine (resolves_iff ⟨⟨0, rfl, by decide⟩, by decide⟩).mpr ⟨fun node length chain => ?_, fun node length chain => .inr ?_⟩
  · exact Nat.lt_of_le_of_lt (most node length chain) (by decide)
  · refine ⟨numberedOp (fetched .execute .generic 5) 0 [], 8, ?_, most node length chain⟩
    exact .further _ (numberedOp (fetched .execute .generic 3) 1 [0]) 3 (.direct _ (by decide)) (by decide)

/-- The producer of the branch has no latency, and what it waited for is not found. -/
theorem not_resolves_predicated : ¬∀ (windows : Windows NehalemPort) (microOp : WindowEntry NehalemPort),
    Ordered slow windows → Resolves slow windows microOp := by
  intro all
  have resolves := all (oldWindowOf [numberedOp (fetched .execute .generic 5) 0 [], numberedOp predicatedLoad 1 [0]])
    (numberedOp (fetched .execute .branch 1) 2 [1]) ⟨⟨0, rfl, by decide⟩, by decide⟩
  obtain ⟨longest, isLongest, returned⟩ := resolves.longest
  have le := isLongest.le (numberedOp (fetched .execute .generic 5) 0 []) 5
    (.further _ (numberedOp predicatedLoad 1 [0]) 0 (.direct _ (by decide)) (by decide))
  have zero : (0 : Int) = longest := returned
  omega

end Sniper.Performance.IntervalTimer

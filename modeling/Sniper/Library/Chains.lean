import Mathlib.Order.Lattice
import Mathlib.Algebra.Order.Monoid.Unbundled.Basic

/-! Chains of producers into a consumer, and the longest of them; times of nodes, kept by a key.

The nodes are passed consumers first.  The time of a node that is still ahead is the length of the longest chain to it whose other
nodes have been passed. -/

namespace Sniper

/-- The chains into something with the given direct producers: the node where a chain starts, and the sum of the weights on it. -/
inductive Chain {ν : Type u} (weight : ν → Nat) (producers : ν → List ν) (direct : List ν) : ν → Nat → Prop where
  | direct (node : ν) : node ∈ direct → Chain weight producers direct node (weight node)
  | further (node consumer : ν) (length : Nat) : Chain weight producers direct consumer length → node ∈ producers consumer →
      Chain weight producers direct node (weight node + length)

variable {ν : Type u} {weight : ν → Nat} {producers : ν → List ν} {direct : List ν}

/-- The length of the longest chain, 0 if there is none. -/
structure IsLongest (weight : ν → Nat) (producers : ν → List ν) (direct : List ν) (longest : Nat) : Prop where
  le : ∀ node length, Chain weight producers direct node length → length ≤ longest
  attained : longest = 0 ∨ ∃ node, Chain weight producers direct node longest

theorem Chain.mono {some : List ν} {node : ν} {length : Nat} (subset : some ⊆ direct) (chain : Chain weight producers some node length) :
    Chain weight producers direct node length := by
  induction chain with
  | direct node member => exact .direct node (subset member)
  | further node consumer length _ isProducer ih => exact .further node consumer length ih isProducer

theorem Chain.pos {node : ν} {length : Nat} (positive : ∀ node ∈ direct, weight node ≠ 0)
    (chain : Chain weight producers direct node length) : length ≠ 0 := by
  induction chain with
  | direct node member => exact positive node member
  | further node consumer length _ _ ih => exact fun zero => ih (Nat.eq_zero_of_add_eq_zero_left zero)

/-- A pass that has the nodes `ahead` before it. -/
structure Pass (weight : ν → Nat) (producers : ν → List ν) (direct passed ahead : List ν) (time : ν → Nat) (longest : Nat) : Prop where
  chain : ∀ node ∈ ahead, time node = 0 ∨ Chain weight producers direct node (time node)
  marked : ∀ node ∈ ahead, node ∈ direct → weight node ≤ time node
  further : ∀ node ∈ ahead, ∀ consumer ∈ passed, node ∈ producers consumer → ∀ length,
    Chain weight producers direct consumer length → weight node + length ≤ time node
  le : ∀ node ∈ passed, ∀ length, Chain weight producers direct node length → length ≤ longest
  attained : longest = 0 ∨ ∃ node, Chain weight producers direct node longest

namespace Pass

variable {passed ahead : List ν} {time : ν → Nat} {longest : Nat} {op : ν}

theorem start (chain : ∀ node ∈ ahead, time node = 0 ∨ node ∈ direct ∧ time node = weight node)
    (marked : ∀ node ∈ ahead, node ∈ direct → weight node ≤ time node) : Pass weight producers direct [] ahead time 0 where
  chain node member := by
    obtain zero | ⟨isDirect, isWeight⟩ := chain node member
    · exact .inl zero
    · rw [isWeight]
      exact .inr (.direct node isDirect)
  marked := marked
  further _ _ _ none := nomatch none
  le _ none := nomatch none
  attained := .inl rfl

/-- The time of the next node is that of its longest chain. -/
theorem le_time (pass : Pass weight producers direct passed (op :: ahead) time longest)
    (consumers : ∀ consumer length, Chain weight producers direct consumer length → op ∈ producers consumer → consumer ∈ passed)
    {length : Nat} (chain : Chain weight producers direct op length) : length ≤ time op := by
  cases chain with
  | direct _ member => exact pass.marked op List.mem_cons_self member
  | further _ consumer length before isProducer =>
    exact pass.further op List.mem_cons_self consumer (consumers consumer length before isProducer) isProducer length before

theorem skip (pass : Pass weight producers direct passed (op :: ahead) time longest) (positive : ∀ node ∈ direct, weight node ≠ 0)
    (consumers : ∀ consumer length, Chain weight producers direct consumer length → op ∈ producers consumer → consumer ∈ passed)
    (none : time op = 0) : Pass weight producers direct (passed ++ [op]) ahead time longest := by
  have unreached {length : Nat} (chain : Chain weight producers direct op length) : False :=
    chain.pos positive (Nat.le_zero.mp (none ▸ pass.le_time consumers chain))
  constructor
  case chain => exact fun node member => pass.chain node (List.mem_cons_of_mem _ member)
  case marked => exact fun node member => pass.marked node (List.mem_cons_of_mem _ member)
  case further =>
    intro node member consumer within isProducer length chain
    obtain before | isOp := List.mem_append.mp within
    · exact pass.further node (List.mem_cons_of_mem _ member) consumer before isProducer length chain
    · rw [List.mem_singleton.mp isOp] at chain
      exact (unreached chain).elim
  case le =>
    intro node within length chain
    obtain before | isOp := List.mem_append.mp within
    · exact pass.le node before length chain
    · rw [List.mem_singleton.mp isOp] at chain
      exact (unreached chain).elim
  case attained => exact pass.attained

/-- A node that is on a chain hands its time on to its producers. -/
theorem relax {later : ν → Nat} (pass : Pass weight producers direct passed (op :: ahead) time longest)
    (consumers : ∀ consumer length, Chain weight producers direct consumer length → op ∈ producers consumer → consumer ∈ passed)
    (some : time op ≠ 0) (handed : ∀ node ∈ ahead, node ∈ producers op → later node = max (weight node + time op) (time node))
    (kept : ∀ node ∈ ahead, node ∉ producers op → later node = time node) :
    Pass weight producers direct (passed ++ [op]) ahead later (max longest (time op)) := by
  have chainOp : Chain weight producers direct op (time op) := (pass.chain op List.mem_cons_self).resolve_left some
  have grows (node : ν) (member : node ∈ ahead) : time node ≤ later node := by
    by_cases isProducer : node ∈ producers op
    · rw [handed node member isProducer]
      exact Nat.le_max_right _ _
    · rw [kept node member isProducer]
  constructor
  case chain =>
    intro node member
    have before := pass.chain node (List.mem_cons_of_mem _ member)
    by_cases isProducer : node ∈ producers op
    · rw [handed node member isProducer]
      obtain longer | shorter := Nat.le_total (weight node + time op) (time node)
      · rw [Nat.max_eq_right longer]
        exact before
      · rw [Nat.max_eq_left shorter]
        exact .inr (.further node op (time op) chainOp isProducer)
    · rw [kept node member isProducer]
      exact before
  case marked =>
    exact fun node member isDirect => Nat.le_trans (pass.marked node (List.mem_cons_of_mem _ member) isDirect) (grows node member)
  case further =>
    intro node member consumer within isProducer length chain
    obtain before | isOp := List.mem_append.mp within
    · exact Nat.le_trans (pass.further node (List.mem_cons_of_mem _ member) consumer before isProducer length chain) (grows node member)
    · rw [List.mem_singleton.mp isOp] at chain isProducer
      rw [handed node member isProducer]
      exact Nat.le_trans (Nat.add_le_add_left (pass.le_time consumers chain) _) (Nat.le_max_left _ _)
  case le =>
    intro node within length chain
    obtain before | isOp := List.mem_append.mp within
    · exact Nat.le_trans (pass.le node before length chain) (Nat.le_max_left _ _)
    · rw [List.mem_singleton.mp isOp] at chain
      exact Nat.le_trans (pass.le_time consumers chain) (Nat.le_max_right _ _)
  case attained =>
    obtain longer | shorter := Nat.le_total (time op) longest
    · rw [Nat.max_eq_left longer]
      exact pass.attained
    · rw [Nat.max_eq_right shorter]
      exact .inr ⟨op, chainOp⟩

theorem finish (pass : Pass weight producers direct passed [] time longest)
    (all : ∀ node length, Chain weight producers direct node length → node ∈ passed) : IsLongest weight producers direct longest :=
  ⟨fun node length chain => pass.le node (all node length chain) length chain, pass.attained⟩

end Pass

/-! ## Times by key -/

section Marks

variable {ν : Type u} {κ : Type v} [DecidableEq κ] {key : ν → κ} {mark : ν → Nat → Nat} {nodes : List ν} {times : κ → Nat} {node : ν}

/-- Each node marks its own time. -/
def markAll (key : ν → κ) (mark : ν → Nat → Nat) : List ν → (κ → Nat) → κ → Nat
  | [], times => times
  | node :: rest, times => markAll key mark rest (Function.update times (key node) (mark node (times (key node))))

theorem markAll_of_ne {index : κ} (others : ∀ node ∈ nodes, key node ≠ index) : markAll key mark nodes times index = times index := by
  induction nodes generalizing times with
  | nil => rfl
  | cons node rest ih =>
    rw [markAll, ih fun other member => others other (List.mem_cons_of_mem _ member),
      Function.update_of_ne (others node List.mem_cons_self).symm]

/-- A node that is marked more than once has the same time as if it were marked once. -/
theorem markAll_of_mem (again : ∀ node time, mark node (mark node time) = mark node time)
    (apart : ∀ other ∈ nodes, key other = key node → other = node) (member : node ∈ nodes) :
    markAll key mark nodes times (key node) = mark node (times (key node)) := by
  induction nodes generalizing times with
  | nil => cases member
  | cons first rest ih =>
    have apart' : ∀ other ∈ rest, key other = key node → other = node :=
      fun other within => apart other (List.mem_cons_of_mem _ within)
    rw [markAll]
    by_cases later : node ∈ rest
    · rw [ih apart' later]
      by_cases same : key first = key node
      · rw [apart first List.mem_cons_self same, Function.update_self, again]
      · rw [Function.update_of_ne (Ne.symm same)]
    · have isNode : first = node := ((List.mem_cons.mp member).resolve_right later).symm
      rw [markAll_of_ne fun other within same => later (apart' other within same ▸ within), isNode, Function.update_self]

end Marks

end Sniper

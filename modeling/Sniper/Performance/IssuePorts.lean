import Sniper.Library.Matching
import Sniper.Performance.MicroOp
import Mathlib.Algebra.BigOperators.Group.Finset.Piecewise

/-! The issue ports of a Nehalem core, and which of them a class of micro-operations may take. -/

namespace Sniper.Performance

instance : Fintype NehalemPort where
  elems := {.port0, .port1, .port2, .port34, .port5, .port05, .port015}
  complete := fun port => by cases port <;> decide

/-- The ports themselves; loads and stores of data share one. -/
inductive IssuePort
  | port0 | port1 | port2 | port34 | port5
deriving DecidableEq, Repr

instance : Fintype IssuePort where
  elems := {.port0, .port1, .port2, .port34, .port5}
  complete := fun port => by cases port <;> decide

/-- The ports that a class of micro-operations allows. -/
def NehalemPort.allowed : NehalemPort → Finset IssuePort
  | .port0 => {.port0}
  | .port1 => {.port1}
  | .port2 => {.port2}
  | .port34 => {.port34}
  | .port5 => {.port5}
  | .port05 => {.port0, .port5}
  | .port015 => {.port0, .port1, .port5}

/-- No port, no pair of ports 0 and 5 and no three of ports 0, 1 and 5 are asked for more than they can serve. -/
structure PortsSuffice (counts : NehalemPort → Nat) (rounds : Nat) : Prop where
  port0 : counts .port0 ≤ rounds
  port1 : counts .port1 ≤ rounds
  port2 : counts .port2 ≤ rounds
  port34 : counts .port34 ≤ rounds
  port5 : counts .port5 ≤ rounds
  ports05 : counts .port0 + counts .port5 + counts .port05 ≤ 2 * rounds
  ports015 : counts .port0 + counts .port1 + counts .port5 + counts .port05 + counts .port015 ≤ 3 * rounds

variable {ι : Type} [Fintype ι] {kind : ι → NehalemPort} {counts : NehalemPort → Nat} {rounds : Nat}

theorem sum_allowed (counts : NehalemPort → Nat) (ports : Finset IssuePort) :
    (∑ which with NehalemPort.allowed which ⊆ ports, counts which) =
      (if .port0 ∈ ports then counts .port0 else 0) + (if .port1 ∈ ports then counts .port1 else 0) +
      (if .port2 ∈ ports then counts .port2 else 0) + (if .port34 ∈ ports then counts .port34 else 0) +
      (if .port5 ∈ ports then counts .port5 else 0) +
      (if .port0 ∈ ports ∧ .port5 ∈ ports then counts .port05 else 0) +
      (if .port0 ∈ ports ∧ .port1 ∈ ports ∧ .port5 ∈ ports then counts .port015 else 0) := by
  rw [Finset.sum_filter]
  show (∑ which ∈ ({.port0, .port1, .port2, .port34, .port5, .port05, .port015} : Finset NehalemPort), _) = _
  simp [NehalemPort.allowed, Finset.insert_subset_iff, Nat.add_assoc]

theorem card_ports (ports : Finset IssuePort) :
    ports.card =
      (if .port0 ∈ ports then 1 else 0) + (if .port1 ∈ ports then 1 else 0) + (if .port2 ∈ ports then 1 else 0) +
      (if .port34 ∈ ports then 1 else 0) + (if .port5 ∈ ports then 1 else 0) := by
  have all : ports.card = ∑ port, if port ∈ ports then 1 else 0 := by
    rw [← Finset.sum_filter, Finset.filter_mem_eq_inter, Finset.univ_inter, Finset.card_eq_sum_ones]
  rw [all]
  show (∑ which ∈ ({.port0, .port1, .port2, .port34, .port5} : Finset IssuePort), if which ∈ ports then 1 else 0) = _
  rw [Finset.sum_insert (by decide), Finset.sum_insert (by decide), Finset.sum_insert (by decide), Finset.sum_insert (by decide),
    Finset.sum_singleton]
  omega

theorem only_le (asked : Prop) [Decidable asked] {count : Nat} (few : count ≤ rounds) :
    (if asked then count else 0) ≤ (if asked then 1 else 0) * rounds := by
  split
  case isTrue => rwa [Nat.one_mul]
  case isFalse => exact Nat.zero_le _

theorem servable_iff_portsSuffice
    (counted : ∀ which, (Finset.univ.filter fun item => kind item = which).card = counts which) :
    Servable (fun item => (kind item).allowed) rounds ↔ PortsSuffice counts rounds := by
  rw [servable_iff_counts counted]
  simp only [sum_allowed, card_ports]
  constructor
  · intro enough
    exact {
      port0 := by simpa using enough {.port0}
      port1 := by simpa using enough {.port1}
      port2 := by simpa using enough {.port2}
      port34 := by simpa using enough {.port34}
      port5 := by simpa using enough {.port5}
      ports05 := by simpa [Nat.add_assoc] using enough {.port0, .port5}
      ports015 := by simpa [Nat.add_assoc, Nat.add_left_comm] using enough {.port0, .port1, .port5} }
  · intro suffice_ ports
    have port2 := only_le (IssuePort.port2 ∈ ports) suffice_.port2
    have port34 := only_le (IssuePort.port34 ∈ ports) suffice_.port34
    have port0 := suffice_.port0
    have port1 := suffice_.port1
    have port5 := suffice_.port5
    have ports05 := suffice_.ports05
    have ports015 := suffice_.ports015
    simp only [Nat.add_mul]
    -- No class may take port 2 or 34 and another one, so only the other three decide.
    by_cases in0 : IssuePort.port0 ∈ ports <;> by_cases in1 : IssuePort.port1 ∈ ports <;>
      by_cases in5 : IssuePort.port5 ∈ ports <;>
      simp only [in0, in1, in5, if_true, if_false, and_true, and_false, Nat.one_mul, Nat.zero_mul] <;> omega

end Sniper.Performance

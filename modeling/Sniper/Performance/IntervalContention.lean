import Sniper.Performance.MicroOp
import Mathlib.Algebra.Ring.Nat
import Mathlib.Order.Lattice

/-! `IntervalContention`: how the ports of a core lengthen the critical path. -/

namespace Sniper.Performance

/-- A contention model, for micro-operations counted by port. -/
structure IntervalContention (Port : Type) [DecidableEq Port] where
  getEffectiveCriticalPathLength : (Port → Nat) → Nat → Nat
  length_le : ∀ counts length, length ≤ getEffectiveCriticalPathLength counts length
  le_max : ∀ (ports : List Port) length, getEffectiveCriticalPathLength (ports.count ·) length ≤ max length ports.length
  pos : ∀ (ports : List Port) length, ports ≠ [] → 0 < getEffectiveCriticalPathLength (ports.count ·) length

section Ports

variable {Port : Type}

/-- The standard ports: whether one has exceeded the execution limit. -/
def exceedPorts (counts : Port → Nat) : List Port → Nat → Nat
  | [], effective => effective
  | port :: rest, effective => exceedPorts counts rest (if effective < counts port then counts port else effective)

theorem le_exceedPorts (counts : Port → Nat) (ports : List Port) (length : Nat) : length ≤ exceedPorts counts ports length := by
  induction ports generalizing length with
  | nil => exact Nat.le_refl _
  | cons port rest ih =>
    refine Nat.le_trans ?_ (ih _)
    split
    case isTrue less => exact Nat.le_of_lt less
    case isFalse => exact Nat.le_refl _

theorem exceedPorts_le {counts : Port → Nat} {bound : Nat} (ports : List Port) {length : Nat}
    (few : ∀ port, counts port ≤ bound) (small : length ≤ bound) : exceedPorts counts ports length ≤ bound := by
  induction ports generalizing length with
  | nil => exact small
  | cons port rest ih =>
    apply ih
    split
    case isTrue => exact few port
    case isFalse => exact small

theorem count_le_exceedPorts {counts : Port → Nat} {ports : List Port} {port : Port} (length : Nat) (standard : port ∈ ports) :
    counts port ≤ exceedPorts counts ports length := by
  induction ports generalizing length with
  | nil => cases standard
  | cons first rest ih =>
    cases List.mem_cons.mp standard with
    | inr later => exact ih _ later
    | inl same =>
      subst same
      refine Nat.le_trans ?_ (le_exceedPorts _ rest _)
      split
      case isTrue => exact Nat.le_refl _
      case isFalse enough => exact Nat.le_of_not_lt enough

/-- Ports that share the micro-operations of a shared one: `ports` of them, rounded up to the next cycle. -/
def sharedPorts (ports use effective : Nat) : Nat :=
  if use > ports * effective then (use + (ports - 1)) / ports else effective

theorem le_sharedPorts {ports : Nat} (some : 0 < ports) (use effective : Nat) : effective ≤ sharedPorts ports use effective := by
  unfold sharedPorts
  split
  case isTrue more =>
    rw [Nat.le_div_iff_mul_le some, Nat.mul_comm]
    exact Nat.le_trans (Nat.le_of_lt more) (Nat.le_add_right _ _)
  case isFalse => exact Nat.le_refl _

theorem sharedPorts_le {ports use effective bound : Nat} (some : 0 < ports) (few : use ≤ bound) (small : effective ≤ bound) :
    sharedPorts ports use effective ≤ bound := by
  unfold sharedPorts
  split
  case isTrue more =>
    have used : 0 < use := Nat.lt_of_le_of_lt (Nat.zero_le _) more
    rw [Nat.div_le_iff_le_mul_add_pred some]
    have once : bound ≤ ports * bound := Nat.le_mul_of_pos_left bound some
    omega
  case isFalse => exact small

theorem sharedPorts_pos {ports use : Nat} (effective : Nat) (some : 0 < ports) (used : 0 < use) :
    0 < sharedPorts ports use effective := by
  cases effective with
  | succ effective => exact Nat.lt_of_lt_of_le (Nat.succ_pos _) (le_sharedPorts some use _)
  | zero =>
    unfold sharedPorts
    rw [if_pos (by simpa using used)]
    exact Nat.div_pos (by omega) some

end Ports

namespace IntervalContentionNehalem

/-- The ports that are not shared. -/
def standardPorts : List NehalemPort := [.port0, .port1, .port2, .port34, .port5]

def getEffectiveCriticalPathLength (counts : NehalemPort → Nat) (length : Nat) : Nat :=
  let effective := exceedPorts counts standardPorts length
  let effective := sharedPorts 2 (counts .port0 + counts .port5 + counts .port05) effective
  sharedPorts 3 (counts .port0 + counts .port1 + counts .port5 + counts .port015) effective

theorem standardPorts_le (counts : NehalemPort → Nat) (length : Nat) :
    exceedPorts counts standardPorts length ≤ getEffectiveCriticalPathLength counts length :=
  Nat.le_trans (le_sharedPorts (Nat.succ_pos 1) _ _) (le_sharedPorts (Nat.succ_pos 2) _ _)

theorem length_le (counts : NehalemPort → Nat) (length : Nat) : length ≤ getEffectiveCriticalPathLength counts length :=
  Nat.le_trans (le_exceedPorts counts _ length) (standardPorts_le counts length)

theorem counts_eq (ports : List NehalemPort) :
    ports.count .port0 + ports.count .port1 + ports.count .port2 + ports.count .port34 + ports.count .port5 +
      ports.count .port05 + ports.count .port015 = ports.length := by
  induction ports with
  | nil => rfl
  | cons port rest ih => cases port <;> simp <;> omega

theorem le_max (ports : List NehalemPort) (length : Nat) :
    getEffectiveCriticalPathLength (ports.count ·) length ≤ max length ports.length := by
  have counts := counts_eq ports
  have few : ports.length ≤ max length ports.length := Nat.le_max_right _ _
  have shared : ports.count .port0 + ports.count .port1 + ports.count .port5 + ports.count .port015 ≤ max length ports.length := by
    omega
  have sharedLess : ports.count .port0 + ports.count .port5 + ports.count .port05 ≤ max length ports.length := by
    omega
  apply sharedPorts_le (Nat.succ_pos 2) shared
  apply sharedPorts_le (Nat.succ_pos 1) sharedLess
  exact exceedPorts_le _ (fun port => Nat.le_trans List.count_le_length few) (Nat.le_max_left _ _)

theorem pos (ports : List NehalemPort) (length : Nat) (some : ports ≠ []) :
    0 < getEffectiveCriticalPathLength (ports.count ·) length := by
  obtain ⟨port, rest, rfl⟩ := List.exists_cons_of_ne_nil some
  have used : 0 < (port :: rest).count port := List.count_pos_iff.mpr List.mem_cons_self
  have standard (member : port ∈ standardPorts) : 0 < getEffectiveCriticalPathLength ((port :: rest).count ·) length := by
    have least := @count_le_exceedPorts _ ((port :: rest).count ·) standardPorts port length member
    exact Nat.lt_of_lt_of_le used (Nat.le_trans least (standardPorts_le _ length))
  cases port with
  | port0 | port1 | port2 | port34 | port5 => exact standard (by decide)
  | port05 =>
    have more : 0 < (NehalemPort.port05 :: rest).count .port0 + (NehalemPort.port05 :: rest).count .port5 +
        (NehalemPort.port05 :: rest).count .port05 := Nat.lt_of_lt_of_le used (Nat.le_add_left _ _)
    exact Nat.lt_of_lt_of_le (sharedPorts_pos _ (Nat.succ_pos 1) more) (le_sharedPorts (Nat.succ_pos 2) _ _)
  | port015 =>
    have more : 0 < (NehalemPort.port015 :: rest).count .port0 + (NehalemPort.port015 :: rest).count .port1 +
        (NehalemPort.port015 :: rest).count .port5 + (NehalemPort.port015 :: rest).count .port015 :=
      Nat.lt_of_lt_of_le used (Nat.le_add_left _ _)
    exact sharedPorts_pos _ (Nat.succ_pos 2) more

end IntervalContentionNehalem

def intervalContentionNehalem : IntervalContention NehalemPort where
  getEffectiveCriticalPathLength := IntervalContentionNehalem.getEffectiveCriticalPathLength
  length_le := IntervalContentionNehalem.length_le
  le_max := IntervalContentionNehalem.le_max
  pos := IntervalContentionNehalem.pos

namespace IntervalContentionBoomV1

def getEffectiveCriticalPathLength (counts : BoomV1Port → Nat) (length : Nat) : Nat :=
  sharedPorts 3 (counts .port0 + counts .port1 + counts .port2 + counts .port012)
    (exceedPorts counts [.port0, .port1, .port2] length)

theorem length_le (counts : BoomV1Port → Nat) (length : Nat) : length ≤ getEffectiveCriticalPathLength counts length :=
  Nat.le_trans (le_exceedPorts counts _ length) (le_sharedPorts (Nat.succ_pos 2) _ _)

theorem counts_eq (ports : List BoomV1Port) :
    ports.count .port0 + ports.count .port1 + ports.count .port2 + ports.count .port012 = ports.length := by
  induction ports with
  | nil => rfl
  | cons port rest ih => cases port <;> simp <;> omega

theorem le_max (ports : List BoomV1Port) (length : Nat) :
    getEffectiveCriticalPathLength (ports.count ·) length ≤ max length ports.length := by
  have few : ports.length ≤ max length ports.length := Nat.le_max_right _ _
  apply sharedPorts_le (Nat.succ_pos 2) (by rw [counts_eq]; exact few)
  exact exceedPorts_le _ (fun port => Nat.le_trans List.count_le_length few) (Nat.le_max_left _ _)

theorem pos (ports : List BoomV1Port) (length : Nat) (some : ports ≠ []) :
    0 < getEffectiveCriticalPathLength (ports.count ·) length := by
  apply sharedPorts_pos _ (Nat.succ_pos 2)
  rw [counts_eq]
  exact List.length_pos_iff.mpr some

end IntervalContentionBoomV1

def intervalContentionBoomV1 : IntervalContention BoomV1Port where
  getEffectiveCriticalPathLength := IntervalContentionBoomV1.getEffectiveCriticalPathLength
  length_le := IntervalContentionBoomV1.length_le
  le_max := IntervalContentionBoomV1.le_max
  pos := IntervalContentionBoomV1.pos

end Sniper.Performance

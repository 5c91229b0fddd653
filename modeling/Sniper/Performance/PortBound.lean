import Sniper.Performance.CriticalPath
import Sniper.Performance.IssuePorts
import Mathlib.Data.Fintype.Sigma
import Mathlib.Order.Bounds.Defs

/-! The cycles that the ports of a Nehalem core need for the micro-operations of the old window. -/

namespace Sniper.Performance

section Ports

variable {Port : Type}

theorem exceedPorts_cases (counts : Port → Nat) (ports : List Port) (length : Nat) :
    exceedPorts counts ports length = length ∨ ∃ port ∈ ports, exceedPorts counts ports length = counts port := by
  induction ports generalizing length with
  | nil => exact .inl rfl
  | cons port rest ih =>
    rw [exceedPorts]
    cases ih (if length < counts port then counts port else length) with
    | inr later =>
      obtain ⟨other, member, same⟩ := later
      exact .inr ⟨other, List.mem_cons_of_mem port member, same⟩
    | inl same =>
      rw [same]
      split
      case isTrue => exact .inr ⟨port, List.mem_cons_self, rfl⟩
      case isFalse => exact .inl rfl

theorem sharedPorts_cases (ports use effective : Nat) :
    sharedPorts ports use effective = effective ∨ sharedPorts ports use effective = (use + (ports - 1)) / ports := by
  rw [sharedPorts]
  split
  case isTrue => exact .inr rfl
  case isFalse => exact .inl rfl

theorem use_le_sharedPorts {ports : Nat} (some : 0 < ports) (use effective : Nat) : use ≤ ports * sharedPorts ports use effective := by
  rw [sharedPorts]
  split
  case isTrue =>
    have up := Nat.div_add_mod (use + (ports - 1)) ports
    have small := Nat.mod_lt (use + (ports - 1)) some
    omega
  case isFalse enough => exact Nat.le_of_not_lt enough

end Ports

namespace IntervalContentionNehalem

variable {counts : NehalemPort → Nat} {length rounds : Nat}

/-- The micro-operations of each class can be issued in some cycles, one a port and cycle. -/
def CanIssue (counts : NehalemPort → Nat) (cycles : Nat) : Prop :=
  Servable (fun item : Σ which, Fin (counts which) => item.1.allowed) cycles

theorem canIssue_iff : CanIssue counts rounds ↔ PortsSuffice counts rounds := by
  refine servable_iff_portsSuffice fun which => ?_
  have fiber : (Finset.univ.filter fun item : Σ which, Fin (counts which) => item.1 = which) =
      (Finset.univ : Finset (Fin (counts which))).map ⟨Sigma.mk which, sigma_mk_injective⟩ := by
    ext ⟨other, index⟩
    simp only [Finset.mem_filter, Finset.mem_univ, true_and, Finset.mem_map, Function.Embedding.coeFn_mk]
    constructor
    · intro same
      subst same
      exact ⟨index, rfl⟩
    · rintro ⟨index, same⟩
      exact (Sigma.mk.inj_iff.mp same).1.symm
  rw [fiber, Finset.card_map, Finset.card_univ, Fintype.card_fin]

/-- What the length is the maximum of. -/
def bounds (counts : NehalemPort → Nat) (length : Nat) : List Nat :=
  [length, counts .port0, counts .port1, counts .port2, counts .port34, counts .port5,
    (counts .port0 + counts .port5 + counts .port05 + 1) / 2,
    (counts .port0 + counts .port1 + counts .port5 + counts .port015 + 2) / 3]

/-- Ports 0, 1 and 5 serve all the micro-operations that need one of them, class 05 with them, in the critical path or in what
another bound asks for. -/
def Class05Fits (counts : NehalemPort → Nat) (length : Nat) : Prop :=
  ∃ bound ∈ bounds counts length,
    counts .port0 + counts .port1 + counts .port5 + counts .port05 + counts .port015 ≤ 3 * bound

theorem length_mem_bounds : getEffectiveCriticalPathLength counts length ∈ bounds counts length := by
  unfold getEffectiveCriticalPathLength
  cases sharedPorts_cases 3 (counts .port0 + counts .port1 + counts .port5 + counts .port015)
      (sharedPorts 2 (counts .port0 + counts .port5 + counts .port05) (exceedPorts counts standardPorts length)) with
  | inr up =>
    rw [up]
    simp [bounds]
  | inl same =>
    rw [same]
    cases sharedPorts_cases 2 (counts .port0 + counts .port5 + counts .port05) (exceedPorts counts standardPorts length) with
    | inr up =>
      rw [up]
      simp [bounds]
    | inl same =>
      rw [same]
      cases exceedPorts_cases counts standardPorts length with
      | inl same =>
        rw [same]
        exact List.mem_cons_self
      | inr own =>
        obtain ⟨port, standard, same⟩ := own
        rw [same]
        simp only [standardPorts, List.mem_cons, List.not_mem_nil, or_false] at standard
        rcases standard with rfl | rfl | rfl | rfl | rfl <;> simp [bounds]

theorem shared05_le (counts : NehalemPort → Nat) (length : Nat) :
    counts .port0 + counts .port5 + counts .port05 ≤ 2 * getEffectiveCriticalPathLength counts length :=
  (use_le_sharedPorts (Nat.succ_pos 1) _ _).trans (Nat.mul_le_mul_left 2 (le_sharedPorts (Nat.succ_pos 2) _ _))

theorem shared015_le (counts : NehalemPort → Nat) (length : Nat) :
    counts .port0 + counts .port1 + counts .port5 + counts .port015 ≤ 3 * getEffectiveCriticalPathLength counts length :=
  use_le_sharedPorts (Nat.succ_pos 2) _ _

theorem own_le {port : NehalemPort} (standard : port ∈ standardPorts) : counts port ≤ getEffectiveCriticalPathLength counts length :=
  (count_le_exceedPorts length standard).trans (standardPorts_le counts length)

theorem bounds_le {bound : Nat} (member : bound ∈ bounds counts length) :
    bound ≤ getEffectiveCriticalPathLength counts length := by
  have long := length_le counts length
  have shared05 := shared05_le counts length
  have shared015 := shared015_le counts length
  have port0 := @own_le counts length .port0 (by decide)
  have port1 := @own_le counts length .port1 (by decide)
  have port2 := @own_le counts length .port2 (by decide)
  have port34 := @own_le counts length .port34 (by decide)
  have port5 := @own_le counts length .port5 (by decide)
  simp only [bounds, List.mem_cons, List.not_mem_nil, or_false] at member
  omega

theorem length_le_of_canIssue (long : length ≤ rounds) (issues : CanIssue counts rounds) :
    getEffectiveCriticalPathLength counts length ≤ rounds := by
  obtain ⟨port0, port1, port2, port34, port5, ports05, ports015⟩ := canIssue_iff.mp issues
  have member := @length_mem_bounds counts length
  simp only [bounds, List.mem_cons, List.not_mem_nil, or_false] at member
  omega

theorem canIssue_length_iff :
    CanIssue counts (getEffectiveCriticalPathLength counts length) ↔ Class05Fits counts length := by
  rw [canIssue_iff]
  constructor
  · exact fun enough => ⟨_, length_mem_bounds, enough.ports015⟩
  · intro fits
    obtain ⟨bound, member, enough⟩ := fits
    exact {
      port0 := own_le (by decide)
      port1 := own_le (by decide)
      port2 := own_le (by decide)
      port34 := own_le (by decide)
      port5 := own_le (by decide)
      ports05 := shared05_le counts length
      ports015 := enough.trans (Nat.mul_le_mul_left 3 (bounds_le member)) }

open IntervalTimer in
/-- The effective length is the least number of cycles, from the critical path on, in which all can be issued if and only if
class 05 fits beside the others of ports 0, 1 and 5; and the counts are those of the old window in every run. -/
theorem effectiveLength_isLeast_iff (counts : NehalemPort → Nat) (length : Nat) :
    (IsLeast {cycles | length ≤ cycles ∧ CanIssue counts cycles} (getEffectiveCriticalPathLength counts length) ↔
      Class05Fits counts length) ∧
    ∀ (Mem : Type) (config : IntervalTimer.Config NehalemPort Mem) timer, (machine config).Reachable timer →
      timer.windows.countByPort = fun port => (timer.windows.oldWindow.map (·.port)).count port := by
  constructor
  · rw [← canIssue_length_iff]
    constructor
    · exact fun least => least.1.2
    · intro issues
      exact ⟨⟨length_le counts length, issues⟩, fun cycles enough => length_le_of_canIssue enough.1 enough.2⟩
  · intro Mem config timer reached
    exact (reachable_sound reached).path.byPort

open IntervalTimer in
/-- Two micro-operations of class 0 and one of class 05 need two cycles, and a dispatched load counts at port 2. -/
theorem effectiveLength_isLeast_iff_twoCycles :
    IsLeast {cycles | 1 ≤ cycles ∧ CanIssue ([.port0, .port0, .port05].count ·) cycles} 2 ∧
    ∃ timer, (machine slow).Reachable timer ∧ timer.windows.countByPort .port2 = 1 := by
  have start : (machine slow).Reachable (.initial 1 ()) := .initial ⟨1, (), rfl⟩
  have loaded := start.step (.add slowLoad) trivial rfl
  have dispatched := loaded.step .dispatch trivial rfl
  refine ⟨(effectiveLength_isLeast_iff _ 1).1.mpr ⟨2, by decide, by decide⟩, _, dispatched, ?_⟩
  rw [(effectiveLength_isLeast_iff (fun _ => 0) 0).2 Unit slow _ dispatched]
  rfl

/-- Two of class 05 and three of class 015 have one cycle, for five micro-operations of ports 0, 1 and 5. -/
theorem effectiveLength_tooShort :
    ¬ ∀ counts length, IsLeast {cycles | length ≤ cycles ∧ CanIssue counts cycles} (getEffectiveCriticalPathLength counts length) := by
  intro always
  have least := always ([.port05, .port05, .port015, .port015, .port015].count ·) 0
  obtain ⟨bound, member, enough⟩ := canIssue_length_iff.mp least.1.2
  revert bound
  decide

end IntervalContentionNehalem

end Sniper.Performance

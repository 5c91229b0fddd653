import Sniper.Performance.CriticalPath

/-! What a long-latency operation is charged. -/

namespace Sniper.Performance.IntervalTimer

variable {Port Mem : Type} [DecidableEq Port] {config : Config Port Mem} {windows : Windows Port} {microOp : WindowEntry Port}

/-- Where `updateCriticalPath` adds the latency: that of the caller, in cycles, and `m_cpiLongLatency`. -/
structure Charge where
  latency : Nat
  cpiLongLatency : Nat
deriving DecidableEq, Repr

/-- `updateCriticalPath`, for a micro-operation of some period. -/
def chargeCriticalPath (config : Config Port Mem) (period : Nat) (windows : Windows Port) (microOp : WindowEntry Port)
    (charge : Charge) : Windows Port × WindowEntry Port × Charge :=
  let (windows, microOp, lll) := updateCriticalPath config windows microOp
  (windows, microOp, ⟨charge.latency + lll, charge.cpiLongLatency + lll * period⟩)

/-- It extends the critical path by less than the cut-off, if at all. -/
def Short (config : Config Port Mem) (windows : Windows Port) (microOp : WindowEntry Port) : Prop :=
  microOp.execTime < windows.criticalPathTail ∨ microOp.execTime - windows.criticalPathTail < config.longLatencyCutoff

instance : Decidable (Short config windows microOp) := inferInstanceAs (Decidable (_ ∨ _))

/-- A short one may move the tail, a long one is charged for its extension in full. -/
def ChargedInFull (config : Config Port Mem) (period : Nat) (windows : Windows Port) (microOp : WindowEntry Port) (charge : Charge)
    (after : Windows Port × WindowEntry Port × Charge) : Prop :=
  (Short config windows microOp ∧ after.2.2 = charge ∧
    after.1 = { windows with criticalPathTail := max windows.criticalPathTail microOp.execTime }) ∨
  (¬Short config windows microOp ∧ after.1 = windows.clearOldWindow microOp.execTime ∧
    after.2.2 = ⟨charge.latency + (microOp.execTime - windows.criticalPathTail),
      charge.cpiLongLatency + (microOp.execTime - windows.criticalPathTail) * period⟩)

theorem longLatencyOperationLatency_eq (config : Config Port Mem) (windows : Windows Port) (microOp : WindowEntry Port) :
    windows.longLatencyOperationLatency config microOp = if Short config windows microOp then 0 else 1 := by
  unfold Windows.longLatencyOperationLatency
  split
  case isTrue early => exact (if_pos (.inl early)).symm
  case isFalse late =>
    split
    case isTrue small => exact (if_pos (.inr small)).symm
    case isFalse large => exact (if_neg (not_or.mpr ⟨late, large⟩)).symm

omit [DecidableEq Port] in
theorem updateCriticalPathTail_windows (windows : Windows Port) (microOp : WindowEntry Port) :
    (windows.updateCriticalPathTail microOp).1 =
      { windows with criticalPathTail := max windows.criticalPathTail microOp.execTime } := by
  unfold Windows.updateCriticalPathTail
  split
  case isTrue later => rw [Nat.max_eq_right (Nat.le_of_lt later)]
  case isFalse within => rw [Nat.max_eq_left (Nat.le_of_not_lt within)]

theorem chargeCriticalPath_short (period : Nat) (charge : Charge) (short : Short config windows microOp) :
    ChargedInFull config period windows microOp charge (chargeCriticalPath config period windows microOp charge) := by
  refine .inl ⟨short, ?_⟩
  rw [chargeCriticalPath, updateCriticalPath, longLatencyOperationLatency_eq, if_pos short, if_pos rfl]
  exact ⟨by simp, updateCriticalPathTail_windows windows microOp⟩

theorem chargeCriticalPath_long (period : Nat) (charge : Charge) (long : ¬Short config windows microOp) :
    chargeCriticalPath config period windows microOp charge =
      (windows.clearOldWindow microOp.execTime, microOp, ⟨charge.latency + 1, charge.cpiLongLatency + period⟩) := by
  rw [chargeCriticalPath, updateCriticalPath, longLatencyOperationLatency_eq, if_neg long, if_neg Nat.one_ne_zero]
  simp

/-- An operation is charged in full if it is a short one or extends the critical path by a single cycle. -/
theorem chargedInFull_iff (config : Config Port Mem) (period : Nat) (windows : Windows Port) (microOp : WindowEntry Port)
    (charge : Charge) :
    ChargedInFull config period windows microOp charge (chargeCriticalPath config period windows microOp charge) ↔
      Short config windows microOp ∨ microOp.execTime = windows.criticalPathTail + 1 := by
  by_cases short : Short config windows microOp
  · exact ⟨fun _ => .inl short, fun _ => chargeCriticalPath_short period charge short⟩
  · rw [chargeCriticalPath_long period charge short]
    constructor
    · intro charged
      obtain ⟨-, -, same⟩ := charged.resolve_left fun isShort => short isShort.1
      have latency := congrArg Charge.latency same
      dsimp only at latency
      exact .inr (by omega)
    · intro extends_
      have one := extends_.resolve_left short
      refine .inr ⟨short, rfl, ?_⟩
      rw [one, Nat.add_sub_cancel_left, Nat.one_mul]

/-- A load that takes 200 cycles, where 36 are the cut-off, is charged one cycle. -/
theorem long_load_undercharged : ¬ ∀ (config : Config NehalemPort Unit) period windows microOp charge,
    ChargedInFull config period windows microOp charge (chargeCriticalPath config period windows microOp charge) := by
  intro charged
  have full := charged { slow with longLatencyCutoff := 36 } 1000000 .empty { WindowEntry.init slowLoad with execTime := 200 } ⟨0, 0⟩
  cases full with
  | inl short => exact absurd short.1 (by decide)
  | inr long => exact absurd long.2.2 (by decide)

end Sniper.Performance.IntervalTimer

import Sniper.Performance.CriticalPath

/-! The dispatch rate: a full window dispatches after finitely many cycles. -/

namespace Sniper.Performance.IntervalTimer

variable {Port Mem : Type} [DecidableEq Port] {config : Config Port Mem} {windows : Windows Port} {timer : Timer Port Mem}
  {microOp : WindowEntry Port} {entries rest : List (WindowEntry Port)} {instructions latency left : Nat}

theorem one_pos : 0 < one := by decide

omit [DecidableEq Port] in
theorem contributions_le {cutoff : Nat} (small : ∀ entry ∈ entries, entry.cpContr = 0 ∨ entry.cpContr < cutoff) :
    contributions entries ≤ entries.length * (cutoff - 1) := by
  induction entries with
  | nil => exact Nat.zero_le _
  | cons entry later ih =>
    have first := small entry List.mem_cons_self
    have behind := ih fun other member => small other (List.mem_cons_of_mem _ member)
    rw [contributions_cons, List.length_cons, Nat.succ_mul]
    omega

theorem effective_le (path : Path config windows) (length : Nat) :
    windows.getEffectiveCriticalPathLength config length ≤ max length windows.oldWindow.length := by
  unfold Windows.getEffectiveCriticalPathLength
  split
  case isTrue =>
    rw [path.byPort]
    exact Nat.le_trans (config.contention.le_max _ _) (by rw [List.length_map])
  case isFalse => exact Nat.le_max_left _ _

theorem le_effective (windows : Windows Port) (length : Nat) : length ≤ windows.getEffectiveCriticalPathLength config length := by
  unfold Windows.getEffectiveCriticalPathLength
  split
  case isTrue => exact config.contention.length_le _ _
  case isFalse => exact Nat.le_refl _

theorem toUInt64_pos {value : Nat} (positive : 0 < toInt value) :
    0 < toUInt64 (toInt value) ∧ toUInt64 (toInt value) ≤ value := by
  have range := toInt_range value
  have below := toInt_le value
  rw [toUInt64_eq]
  generalize toInt value = length at positive range below ⊢
  omega

def gain (config : Config Port Mem) (windows : Windows Port) : Nat :=
  windows.oldWindow.length * one / windows.getEffectiveCriticalPathLength config (toUInt64 windows.getCriticalPathLength)

theorem gain_le (windows : Windows Port) : gain config windows ≤ windows.oldWindow.length * one := Nat.div_le_self _ _

theorem gain_pos (sound : Sound config windows) (cutoff : config.longLatencyCutoff ≤ one)
    (positive : 0 < windows.getCriticalPathLength) : 0 < gain config windows := by
  have path := sound.path
  unfold gain
  rw [path.criticalPathLength] at positive ⊢
  have length := toUInt64_pos positive
  have least : toUInt64 (toInt (contributions windows.oldWindow)) ≤ windows.getEffectiveCriticalPathLength config _ :=
    le_effective _ _
  have most := effective_le path (toUInt64 (toInt (contributions windows.oldWindow)))
  have short := contributions_le path.small
  have longer : windows.oldWindow.length * (config.longLatencyCutoff - 1) ≤ windows.oldWindow.length * one :=
    Nat.mul_le_mul_left _ (Nat.le_trans (Nat.sub_le _ _) cutoff)
  have once : windows.oldWindow.length ≤ windows.oldWindow.length * one := Nat.le_mul_of_pos_right _ one_pos
  apply Nat.div_pos <;> omega

theorem calculateCurrentDispatchRate_eq (sound : Sound config timer.windows) (fraction : timer.remainingDispatchBandwidth < one)
    (positive : 0 < timer.windows.getCriticalPathLength) :
    calculateCurrentDispatchRate config timer = ((gain config timer.windows + timer.remainingDispatchBandwidth) / one,
      if (gain config timer.windows + timer.remainingDispatchBandwidth) / one < config.dispatchWidth then
        (gain config timer.windows + timer.remainingDispatchBandwidth) % one
      else 0) := by
  have few := Nat.lt_of_le_of_lt sound.oldLength config.windowSize_lt
  have bound : gain config timer.windows ≤ timer.windows.oldWindow.length * one := gain_le _
  have fits : (gain config timer.windows + timer.remainingDispatchBandwidth) / one < 2 ^ 32 := by
    simp only [one] at *
    omega
  unfold calculateCurrentDispatchRate
  rw [if_pos positive]
  change (_, _) = _
  rw [show timer.windows.oldWindow.length * one /
    timer.windows.getEffectiveCriticalPathLength config (toUInt64 timer.windows.getCriticalPathLength) =
    gain config timer.windows from rfl, Nat.mod_eq_of_lt fits, Nat.mod_eq_sub_div_mul]

theorem remaining_lt (sound : Sound config timer.windows) (fraction : timer.remainingDispatchBandwidth < one) :
    (calculateCurrentDispatchRate config timer).2 < one := by
  by_cases positive : 0 < timer.windows.getCriticalPathLength
  · rw [calculateCurrentDispatchRate_eq sound fraction positive]
    dsimp only
    split
    case isTrue => exact Nat.mod_lt _ one_pos
    case isFalse => exact one_pos
  · unfold calculateCurrentDispatchRate
    rw [if_neg positive]
    exact one_pos

theorem remaining_grows (sound : Sound config timer.windows) (fraction : timer.remainingDispatchBandwidth < one)
    (cutoff : config.longLatencyCutoff ≤ one) (width : 0 < config.dispatchWidth)
    (zero : (calculateCurrentDispatchRate config timer).1 = 0) :
    timer.remainingDispatchBandwidth < (calculateCurrentDispatchRate config timer).2 := by
  by_cases positive : 0 < timer.windows.getCriticalPathLength
  · have more := gain_pos sound cutoff positive
    rw [calculateCurrentDispatchRate_eq sound fraction positive] at zero ⊢
    dsimp only at zero ⊢
    rw [zero, if_pos width, Nat.mod_eq_of_lt ((Nat.div_eq_zero_iff_lt one_pos).mp zero)]
    omega
  · unfold calculateCurrentDispatchRate at zero
    rw [if_neg positive] at zero
    exact absurd zero (Nat.ne_of_gt width)

/-! ## Cycles -/

theorem backEnd_remaining (maxProducerExecTime : Nat) (timer : Timer Port Mem) :
    (backEnd config maxProducerExecTime timer microOp rest).timer.remainingDispatchBandwidth =
      timer.remainingDispatchBandwidth := by
  unfold backEnd
  split
  case isTrue => rfl
  case isFalse =>
    split
    case isTrue => rfl
    case isFalse =>
      split
      case isTrue =>
        unfold dispatchLoad
        dsimp only
        split
        case isTrue => rfl
        case isFalse => split <;> rfl
      case isFalse => split <;> rfl

theorem dispatchNext_remaining (timer : Timer Port Mem) :
    (dispatchNext config timer microOp rest).1.remainingDispatchBandwidth = timer.remainingDispatchBandwidth :=
  backEnd_remaining _ _

theorem reachable_fraction (reached : (machine config).Reachable timer) : timer.remainingDispatchBandwidth < one := by
  have both : Sound config timer.windows ∧ timer.remainingDispatchBandwidth < one := by
    refine reached.invariant (fun timer => Sound config timer.windows ∧ timer.remainingDispatchBandwidth < one) ?_ ?_
    · intro timer starts
      obtain ⟨numOutstanding, memory, rfl⟩ := starts
      exact ⟨.empty, one_pos⟩
    · intro timer label next before _ stepped
      obtain ⟨sound, fraction⟩ := before
      cases label with
      | add uop =>
        obtain ⟨windows, added, rfl⟩ := addMicroOp_eq stepped
        exact ⟨sound.add added, fraction⟩
      | calculateRate =>
        cases stepped
        exact ⟨sound, remaining_lt sound fraction⟩
      | dispatch =>
        cases first : timer.windows.window with
        | nil => simp [machine, step, first] at stepped
        | cons microOp rest =>
          simp only [machine, step, first] at stepped
          cases stepped
          exact ⟨(sound.dispatchNext first).1, Nat.lt_of_le_of_lt (Nat.le_of_eq (dispatchNext_remaining timer)) fraction⟩
  exact both.2

theorem dispatchNext_reachable (reached : (machine config).Reachable timer) (first : timer.windows.window = microOp :: rest) :
    (machine config).Reachable (dispatchNext config timer microOp rest).1 := by
  refine .step .dispatch reached trivial ?_
  simp only [machine, step, first]

theorem dispatchLoop_reachable (reached : (machine config).Reachable timer) :
    (machine config).Reachable (dispatchLoop config left timer instructions latency).1 ∧
      (dispatchLoop config left timer instructions latency).1.windows.window.length ≤ timer.windows.window.length ∧
      (0 < left → 0 < timer.windows.window.length → instructions < config.dispatchWidth →
        (dispatchLoop config left timer instructions latency).1.windows.window.length < timer.windows.window.length) := by
  induction left generalizing timer instructions latency with
  | zero => exact ⟨reached, Nat.le_refl _, fun none_ => absurd none_ (Nat.lt_irrefl 0)⟩
  | succ left ih =>
    cases first : timer.windows.window with
    | nil =>
      unfold dispatchLoop
      rw [first]
      exact ⟨reached, Nat.le_of_eq (congrArg _ first), fun _ none_ => absurd none_ (Nat.lt_irrefl 0)⟩
    | cons microOp rest =>
      unfold dispatchLoop
      rw [first]
      dsimp only
      have next := dispatchNext_reachable reached first
      have shorter := ((reachable_sound reached).dispatchNext first).2
      split
      case isFalse wide => exact ⟨reached, Nat.le_of_eq (congrArg _ first), fun _ _ narrow => absurd narrow wide⟩
      case isTrue =>
        split
        case isFalse => exact ⟨next, Nat.le_trans (Nat.le_of_eq shorter) (Nat.le_succ _), fun _ _ _ => Nat.lt_succ_of_le (Nat.le_of_eq shorter)⟩
        case isTrue =>
          obtain ⟨last, fewer, -⟩ := @ih _ (if microOp.uop.last then instructions + 1 else instructions)
            (latency + (dispatchNext config timer microOp rest).2.1) next
          rw [shorter] at fewer
          exact ⟨last, Nat.le_trans fewer (Nat.le_succ _), fun _ _ _ => Nat.lt_succ_of_le fewer⟩

theorem dispatchWindow_timer (timer : Timer Port Mem) :
    (dispatchWindow config timer).1 = (dispatchLoop config (calculateCurrentDispatchRate config timer).1
      { timer with remainingDispatchBandwidth := (calculateCurrentDispatchRate config timer).2 } 0 0).1 := by
  simp only [dispatchWindow]
  split <;> rfl

theorem dispatchWindow_reachable (reached : (machine config).Reachable timer) :
    (machine config).Reachable (dispatchWindow config timer).1 := by
  rw [dispatchWindow_timer]
  exact (dispatchLoop_reachable (reached.step .calculateRate trivial rfl)).1

theorem dispatchWindow_shrinks (reached : (machine config).Reachable timer) (some : 0 < timer.windows.window.length)
    (width : 0 < config.dispatchWidth) (rate : 0 < (calculateCurrentDispatchRate config timer).1) :
    (dispatchWindow config timer).1.windows.window.length < timer.windows.window.length := by
  rw [dispatchWindow_timer]
  exact (dispatchLoop_reachable (reached.step .calculateRate trivial rfl)).2.2 rate some width

theorem dispatchWindow_waits (timer : Timer Port Mem) (zero : (calculateCurrentDispatchRate config timer).1 = 0) :
    (dispatchWindow config timer).1 =
      { timer with remainingDispatchBandwidth := (calculateCurrentDispatchRate config timer).2 } := by
  rw [dispatchWindow_timer, zero]
  rfl

def afterCycles (config : Config Port Mem) : Nat → Timer Port Mem → Timer Port Mem
  | 0, timer => timer
  | cycles + 1, timer => afterCycles config cycles (dispatchWindow config timer).1

theorem afterCycles_succ (cycles : Nat) (timer : Timer Port Mem) :
    afterCycles config (cycles + 1) timer = (dispatchWindow config (afterCycles config cycles timer)).1 := by
  induction cycles generalizing timer with
  | zero => rfl
  | succ cycles ih => exact ih _

theorem rate_reaches_one (reached : (machine config).Reachable timer) (width : 0 < config.dispatchWidth)
    (cutoff : config.longLatencyCutoff ≤ one) {missing : Nat} (enough : one ≤ timer.remainingDispatchBandwidth + missing) :
    ∃ cycles, cycles ≤ missing ∧ (machine config).Reachable (afterCycles config cycles timer) ∧
      (afterCycles config cycles timer).windows = timer.windows ∧
      0 < (calculateCurrentDispatchRate config (afterCycles config cycles timer)).1 := by
  induction missing generalizing timer with
  | zero => exact absurd (reachable_fraction reached) (Nat.not_lt.mpr enough)
  | succ missing ih =>
    by_cases zero : (calculateCurrentDispatchRate config timer).1 = 0
    · have waits := dispatchWindow_waits timer zero
      have grows := remaining_grows (reachable_sound reached) (reachable_fraction reached) cutoff width zero
      have closer : one ≤ (dispatchWindow config timer).1.remainingDispatchBandwidth + missing := by
        rw [waits]
        dsimp only
        omega
      obtain ⟨cycles, few, after, same, rate⟩ := ih (dispatchWindow_reachable reached) closer
      refine ⟨cycles + 1, Nat.succ_le_succ few, after, ?_, rate⟩
      change (afterCycles config cycles (dispatchWindow config timer).1).windows = timer.windows
      rw [same, waits]
    · exact ⟨0, Nat.zero_le _, reached, rfl, Nat.pos_of_ne_zero zero⟩

/-- With enough fuel the loop returns, in a state of the machine with room in the window. -/
def Returns (config : Config Port Mem) (timer : Timer Port Mem) (instructions latency : Nat) : Prop :=
  ∃ fuel result, (machine config).Reachable result.1 ∧ result.1.windows.wIsFull config = false ∧
    ∀ more, fuel ≤ more → dispatchWhileFull config more timer instructions latency = .ok result

theorem Returns.of_room (reached : (machine config).Reachable timer) (room : timer.windows.wIsFull config = false) :
    Returns config timer instructions latency := by
  refine ⟨1, (timer, instructions, latency), reached, room, fun more enough => ?_⟩
  cases more with
  | zero => cases enough
  | succ more =>
    unfold dispatchWhileFull
    rw [if_neg (Bool.eq_false_iff.mp room)]

theorem Returns.of_full (full : timer.windows.wIsFull config = true)
    (returns : Returns config (dispatchWindow config timer).1 (instructions + (dispatchWindow config timer).2.1)
      (latency + (dispatchWindow config timer).2.2.1)) : Returns config timer instructions latency := by
  obtain ⟨fuel, result, reached, room, later⟩ := returns
  refine ⟨fuel + 1, result, reached, room, fun more enough => ?_⟩
  cases more with
  | zero => cases enough
  | succ more =>
    unfold dispatchWhileFull
    rw [if_pos full]
    exact later more (Nat.le_of_succ_le_succ enough)

/-- `while (m_windows->wIsFull())` ends. -/
theorem dispatchWhileFull_returns (reached : (machine config).Reachable timer) (width : 0 < config.dispatchWidth)
    (size : 0 < config.windowSize) (cutoff : config.longLatencyCutoff ≤ one) (instructions latency : Nat) {missing : Nat}
    (enough : one ≤ timer.remainingDispatchBandwidth + missing) : Returns config timer instructions latency := by
  induction missing generalizing timer instructions latency with
  | zero => exact absurd (reachable_fraction reached) (Nat.not_lt.mpr enough)
  | succ missing ih =>
    cases full : timer.windows.wIsFull config with
    | false => exact .of_room reached full
    | true =>
      have length : timer.windows.window.length = config.windowSize := of_decide_eq_true full
      have next := dispatchWindow_reachable reached
      apply Returns.of_full full
      by_cases zero : (calculateCurrentDispatchRate config timer).1 = 0
      · have grows := remaining_grows (reachable_sound reached) (reachable_fraction reached) cutoff width zero
        apply ih next
        rw [dispatchWindow_waits timer zero]
        dsimp only
        omega
      · have some : 0 < timer.windows.window.length := length ▸ size
        have shrinks := dispatchWindow_shrinks reached some width (Nat.pos_of_ne_zero zero)
        refine .of_room next (decide_eq_false fun still => ?_)
        exact Nat.lt_irrefl _ (still.trans length.symm ▸ shrinks)

theorem add_faults {failure : Failure} {uop : Uop Port} (room : windows.wIsFull config = false)
    (failed : windows.add config uop = .error failure) : ∃ fault, failure = .fault fault := by
  unfold Windows.add at failed
  rw [if_neg (Bool.eq_false_iff.mp room)] at failed
  dsimp only at failed
  split at failed
  · exact ⟨_, (Except.error.inj failed).symm⟩
  · split at failed
    · exact ⟨_, (Except.error.inj failed).symm⟩
    · cases failed

theorem simulate_returns (reached : (machine config).Reachable timer) (room : timer.windows.wIsFull config = false)
    (width : 0 < config.dispatchWidth) (size : 0 < config.windowSize) (cutoff : config.longLatencyCutoff ≤ one)
    (insts : List (Uop Port)) (instructions latency : Nat) :
    ∃ fuel, ∀ more, fuel ≤ more → (∃ result, simulate config more insts timer instructions latency = .ok result) ∨
      ∃ fault, simulate config more insts timer instructions latency = .error (.fault fault) := by
  induction insts generalizing timer instructions latency with
  | nil => exact ⟨0, fun more _ => .inl ⟨_, rfl⟩⟩
  | cons uop rest ih =>
    by_cases squashed : uop.squashed = true
    · obtain ⟨fuel, later⟩ := ih reached room instructions latency
      refine ⟨fuel, fun more enough => ?_⟩
      unfold simulate
      rw [if_pos squashed]
      exact later more enough
    · cases added : timer.windows.add config (enforceGranularity config uop) with
      | error failure =>
        obtain ⟨fault, rfl⟩ := add_faults room added
        refine ⟨0, fun more _ => .inr ⟨fault, ?_⟩⟩
        unfold simulate
        rw [if_neg squashed, addMicroOp, added]
        rfl
      | ok windows =>
        have stepped : addMicroOp config timer uop = .ok { timer with windows := windows } := by
          rw [addMicroOp, added]
          rfl
        have next : (machine config).Reachable { timer with windows := windows } := .step (.add uop) reached trivial stepped
        obtain ⟨first, result, after, room, ends⟩ :=
          dispatchWhileFull_returns next width size cutoff instructions latency (Nat.le_add_left one _)
        obtain ⟨fuel, later⟩ := ih after room result.2.1 result.2.2
        refine ⟨max first fuel, fun more enough => ?_⟩
        unfold simulate
        rw [if_neg squashed, stepped]
        change (∃ result, (dispatchWhileFull config more _ instructions latency >>= _) = _) ∨
          ∃ fault, (dispatchWhileFull config more _ instructions latency >>= _) = _
        rw [ends more (Nat.le_trans (Nat.le_max_left _ _) enough)]
        exact later more (Nat.le_trans (Nat.le_max_right _ _) enough)

/-- The loop over a full window returns from every state of every run, so `simulate` returns as well, unless an assertion of
`add` stops it; after at most 2^14 cycles that dispatch nothing, a cycle dispatches a micro-operation. -/
theorem simulate_terminates (reached : (machine config).Reachable timer) (width : 0 < config.dispatchWidth)
    (size : 0 < config.windowSize) (cutoff : config.longLatencyCutoff ≤ 2 ^ 14) (insts : List (Uop Port))
    (instructions latency : Nat) :
    (∃ fuel result, dispatchWhileFull config fuel timer instructions latency = .ok result) ∧
      (timer.windows.wIsFull config = false → ∃ fuel,
        (∃ result, simulate config fuel insts timer instructions latency = .ok result) ∨
          ∃ fault, simulate config fuel insts timer instructions latency = .error (.fault fault)) ∧
      (timer.windows.wIsFull config = true → ∃ cycles, cycles ≤ 2 ^ 14 ∧
        (afterCycles config cycles timer).windows = timer.windows ∧
        (afterCycles config (cycles + 1) timer).windows.window.length < timer.windows.window.length) := by
  refine ⟨?_, fun room => ?_, fun full => ?_⟩
  · obtain ⟨fuel, result, _, _, ends⟩ :=
      dispatchWhileFull_returns reached width size cutoff instructions latency (Nat.le_add_left one _)
    exact ⟨fuel, result, ends fuel (Nat.le_refl _)⟩
  · obtain ⟨fuel, ends⟩ := simulate_returns reached room width size cutoff insts instructions latency
    exact ⟨fuel, ends fuel (Nat.le_refl _)⟩
  · obtain ⟨cycles, few, after, same, rate⟩ := rate_reaches_one reached width cutoff (Nat.le_add_left one _)
    have some : 0 < timer.windows.window.length := (of_decide_eq_true full : timer.windows.window.length = _) ▸ size
    refine ⟨cycles, few, same, ?_⟩
    rw [afterCycles_succ, ← same]
    exact dispatchWindow_shrinks after (same ▸ some) width rate

/-- A window of three, with the cut-off of the default configuration. -/
def quick : Config NehalemPort Unit := { slow with longLatencyCutoff := 30, doFunctionalUnitContention := true }

theorem simulate_terminates_loads :
    (∃ fuel, (∃ result, simulate quick fuel [slowLoad, useLoad, nextLoad, useLoad] (.initial 1 ()) 0 0 = .ok result) ∨
      ∃ fault, simulate quick fuel [slowLoad, useLoad, nextLoad, useLoad] (.initial 1 ()) 0 0 = .error (.fault fault)) := by
  have start : (machine quick).Reachable (.initial 1 ()) := .initial ⟨1, (), rfl⟩
  exact (simulate_terminates start (by decide) (by decide) (by decide) _ 0 0).2.1 rfl

end Sniper.Performance.IntervalTimer

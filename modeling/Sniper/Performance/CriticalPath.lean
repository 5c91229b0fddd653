import Sniper.Library.Outcome
import Sniper.Performance.IntervalTimer
import Mathlib.Algebra.Ring.Int.Defs

/-! The critical path and the contributions of the micro-operations in the old window. -/

namespace Sniper.Performance.IntervalTimer

variable {Port Mem : Type} {microOp entry : WindowEntry Port} {entries rest : List (WindowEntry Port)} {windows next : Windows Port}
  {tail time : Nat}

/-! ## Contributions -/

def contributions (entries : List (WindowEntry Port)) : Nat := (entries.map (·.cpContr)).sum

@[simp] theorem contributions_nil : contributions ([] : List (WindowEntry Port)) = 0 := rfl

@[simp] theorem contributions_cons : contributions (entry :: entries) = entry.cpContr + contributions entries := by
  simp [contributions]

@[simp] theorem contributions_append : contributions (entries ++ rest) = contributions entries + contributions rest := by
  simp [contributions]

theorem sum_byType (entries : List (WindowEntry Port)) :
    (CpContrType.all.map fun type => contributions (entries.filter (getCpContrType · = type))).sum = contributions entries := by
  induction entries with
  | nil => rfl
  | cons entry later ih =>
    rw [contributions_cons, ← ih]
    cases same : getCpContrType entry <;>
      simp [CpContrType.all, same] <;> omega

theorem contributions_filter_le (entries : List (WindowEntry Port)) (test : WindowEntry Port → Bool) :
    contributions (entries.filter test) ≤ contributions entries := by
  induction entries with
  | nil => exact Nat.le_refl _
  | cons entry later ih =>
    rw [List.filter_cons, contributions_cons]
    split
    case isTrue =>
      rw [contributions_cons]
      exact Nat.add_le_add_left ih _
    case isFalse => exact Nat.le_trans ih (Nat.le_add_left _ _)

/-- Each micro-operation is complete before those after it begin to contribute, the ones that contribute just then. -/
def OnPath (tail : Nat) : List (WindowEntry Port) → Prop
  | [] => True
  | entry :: later => entry.execTime + contributions later ≤ tail ∧
      (0 < entry.cpContr → entry.execTime + contributions later = tail) ∧ OnPath tail later

theorem OnPath.execTime_le (onPath : OnPath tail entries) (member : entry ∈ entries) : entry.execTime ≤ tail := by
  induction entries with
  | nil => cases member
  | cons first later ih =>
    cases List.mem_cons.mp member with
    | inl same =>
      subst same
      exact Nat.le_trans (Nat.le_add_right _ _) onPath.1
    | inr behind => exact ih onPath.2.2 behind

theorem OnPath.append_within (onPath : OnPath tail entries) (early : entry.execTime ≤ tail) (none_ : entry.cpContr = 0) :
    OnPath tail (entries ++ [entry]) := by
  induction entries with
  | nil => simp [OnPath, early, none_]
  | cons first later ih =>
    obtain ⟨below, exactly, after⟩ := onPath
    refine ⟨?_, ?_, ih after⟩
    · simpa [none_] using below
    · simpa [none_] using exactly

theorem OnPath.append_extend (onPath : OnPath tail entries) (late : tail < entry.execTime)
    (contributes : entry.cpContr = entry.execTime - tail) : OnPath entry.execTime (entries ++ [entry]) := by
  induction entries with
  | nil => simp [OnPath]
  | cons first later ih =>
    obtain ⟨below, exactly, after⟩ := onPath
    rw [List.cons_append]
    refine ⟨?_, fun some => ?_, ih after⟩
    · simp only [contributions_append, contributions_cons, contributions_nil, contributes]
      omega
    · have begun := exactly some
      simp only [contributions_append, contributions_cons, contributions_nil, contributes]
      omega

theorem OnPath.head_eq (onPath : OnPath tail (entry :: entries)) {head : Nat} (sum : tail = head + contributions (entry :: entries)) :
    max head entry.execTime = head + entry.cpContr := by
  obtain ⟨below, exactly, -⟩ := onPath
  rw [contributions_cons] at sum
  by_cases some : 0 < entry.cpContr
  · have begun := exactly some
    omega
  · omega

/-! ## Clearing -/

/-- The old window stays, or is cleared to a time that is not before its tail. -/
inductive Cleared (windows : Windows Port) : Windows Port → Prop where
  | kept : Cleared windows windows
  | cleared (time : Nat) : windows.criticalPathTail ≤ time → Cleared windows (windows.clearOldWindow time)

theorem Cleared.tail_le (cleared : Cleared windows next) : windows.criticalPathTail ≤ next.criticalPathTail := by
  cases cleared with
  | kept => exact Nat.le_refl _
  | cleared _ later => exact later

theorem Cleared.again (cleared : Cleared windows next) (later : next.criticalPathTail ≤ time) :
    Cleared windows (next.clearOldWindow time) := by
  have after := Nat.le_trans cleared.tail_le later
  cases cleared with
  | kept => exact .cleared time after
  | cleared _ _ => exact .cleared time after

theorem Cleared.clear (cleared : Cleared windows next) : Cleared windows (next.clearOldWindow next.criticalPathTail) :=
  cleared.again (Nat.le_refl _)

theorem Cleared.length_le (cleared : Cleared windows next) : next.oldWindow.length ≤ windows.oldWindow.length := by
  cases cleared with
  | kept => exact Nat.le_refl _
  | cleared => exact Nat.zero_le _

/-! ## The old window -/

variable [DecidableEq Port] {config : Config Port Mem} {timer : Timer Port Mem}

/-- The head, the tail and the statistics are those of the micro-operations in the old window. -/
structure Path (config : Config Port Mem) (windows : Windows Port) : Prop where
  tail : windows.criticalPathTail = windows.criticalPathHead + contributions windows.oldWindow
  onPath : OnPath windows.criticalPathTail windows.oldWindow
  small : ∀ entry ∈ windows.oldWindow, entry.cpContr = 0 ∨ entry.cpContr < config.longLatencyCutoff
  byType : windows.cpcontrByType = fun type => contributions (windows.oldWindow.filter (getCpContrType · = type))
  total : windows.cpcontrTotal = contributions windows.oldWindow
  byPort : windows.countByPort = fun port => (windows.oldWindow.map (·.port)).count port

theorem Path.empty : Path config (.empty : Windows Port) :=
  ⟨rfl, trivial, fun _ member => absurd member List.not_mem_nil, rfl, rfl, rfl⟩

theorem Path.clearOldWindow (windows : Windows Port) (time : Nat) : Path config (windows.clearOldWindow time) :=
  ⟨rfl, trivial, fun _ member => absurd member List.not_mem_nil, rfl, rfl, rfl⟩

theorem Path.removeOldest (path : Path config windows) : Path config windows.removeOldest := by
  unfold Windows.removeOldest
  split
  · exact path
  · rename_i oldest later held
    obtain ⟨sum, onPath, small, byType, total, byPort⟩ := path
    rw [held] at sum onPath small byType total byPort
    constructor
    case tail =>
      change windows.criticalPathTail = max windows.criticalPathHead oldest.execTime + contributions later
      rw [onPath.head_eq sum, sum, contributions_cons, Nat.add_assoc]
    case onPath => exact onPath.2.2
    case small => exact fun entry member => small entry (List.mem_cons_of_mem _ member)
    case byType =>
      funext type
      simp only [Windows.removeFunctionalUnitStats, byType]
      by_cases same : type = getCpContrType oldest
      · subst same
        simp
      · simp [same, Ne.symm same]
    case total =>
      simp only [Windows.removeFunctionalUnitStats, total, contributions_cons, Nat.add_sub_cancel_left]
    case byPort =>
      funext port
      simp only [Windows.removeFunctionalUnitStats, byPort, List.map_cons]
      by_cases same : port = oldest.port
      · subst same
        simp
      · simp [same, Ne.symm same]

/-- The old window with one more micro-operation, and the tail after it. -/
def Windows.enter (windows : Windows Port) (microOp : WindowEntry Port) (tail : Nat) (rest : List (WindowEntry Port)) :
    Windows Port :=
  { windows.addFunctionalUnitStats microOp with
    criticalPathTail := tail, oldWindow := windows.oldWindow ++ [microOp], window := rest }

theorem Path.enter (path : Path config windows) (sum : tail = windows.criticalPathTail + microOp.cpContr)
    (onPath : OnPath tail (windows.oldWindow ++ [microOp]))
    (small : microOp.cpContr = 0 ∨ microOp.cpContr < config.longLatencyCutoff) :
    Path config (windows.enter microOp tail rest) := by
  constructor
  case tail => simp [Windows.enter, Windows.addFunctionalUnitStats, sum, path.tail, Nat.add_assoc]
  case onPath => exact onPath
  case small =>
    intro entry member
    cases List.mem_append.mp member with
    | inl old => exact path.small entry old
    | inr new =>
      rw [List.mem_singleton.mp new]
      exact small
  case byType =>
    funext type
    simp only [Windows.enter, Windows.addFunctionalUnitStats, path.byType, List.filter_append, contributions_append]
    by_cases same : type = getCpContrType microOp
    · subst same
      simp
    · simp [same, Ne.symm same]
  case total =>
    simp [Windows.enter, Windows.addFunctionalUnitStats, path.total]
  case byPort =>
    funext port
    simp only [Windows.enter, Windows.addFunctionalUnitStats, path.byPort, List.map_append, List.count_append]
    by_cases same : port = microOp.port
    · subst same
      simp
    · simp [same, Ne.symm same]

/-! ## One dispatch -/

theorem Cleared.path (cleared : Cleared windows next) (path : Path config windows) : Path config next := by
  cases cleared with
  | kept => exact path
  | cleared time _ => exact .clearOldWindow windows time

/-- Where the handled micro-operation is on the critical path: it extends it, by less than the cut-off, or is within. -/
inductive Placed (config : Config Port Mem) (windows : Windows Port) : Windows Port → WindowEntry Port → Prop where
  | longer (next : Windows Port) (microOp : WindowEntry Port) : Cleared windows next →
      next.criticalPathTail < microOp.execTime → microOp.cpContr = microOp.execTime - next.criticalPathTail →
      microOp.cpContr < config.longLatencyCutoff →
      Placed config windows { next with criticalPathTail := microOp.execTime } microOp
  | within (next : Windows Port) (microOp : WindowEntry Port) : Cleared windows next →
      microOp.execTime ≤ next.criticalPathTail → microOp.cpContr = 0 → Placed config windows next microOp

theorem Placed.tail_le (placed : Placed config windows next microOp) : windows.criticalPathTail ≤ next.criticalPathTail := by
  cases placed with
  | longer next microOp cleared late _ _ => exact Nat.le_trans cleared.tail_le (Nat.le_of_lt late)
  | within next microOp cleared _ _ => exact cleared.tail_le

theorem removeOldest_tail (windows : Windows Port) (tail : Nat) :
    { windows with criticalPathTail := tail }.removeOldest = { windows.removeOldest with criticalPathTail := tail } := by
  obtain ⟨oldWindow, window, number, registers, memory, head, _, types, total, ports⟩ := windows
  cases oldWindow <;> rfl

theorem removeOldest_sameTail (windows : Windows Port) : windows.removeOldest.criticalPathTail = windows.criticalPathTail := by
  unfold Windows.removeOldest
  split <;> rfl

def Windows.makeRoom (config : Config Port Mem) (windows : Windows Port) : Windows Port :=
  if windows.oldWindow.length = config.windowSize then windows.removeOldest else windows

theorem Path.makeRoom (path : Path config windows) : Path config (windows.makeRoom config) := by
  unfold Windows.makeRoom
  split
  case isTrue => exact path.removeOldest
  case isFalse => exact path

theorem makeRoom_tail (windows : Windows Port) : (windows.makeRoom config).criticalPathTail = windows.criticalPathTail := by
  unfold Windows.makeRoom
  split
  case isTrue => exact removeOldest_sameTail windows
  case isFalse => rfl

theorem makeRoom_length (some : 0 < config.windowSize) (fits : windows.oldWindow.length ≤ config.windowSize) :
    (windows.makeRoom config).oldWindow.length < config.windowSize := by
  unfold Windows.makeRoom
  split
  case isFalse room => exact Nat.lt_of_le_of_ne fits room
  case isTrue full =>
    unfold Windows.removeOldest
    split
    · rename_i empty
      rw [empty]
      exact some
    · rename_i oldest later held
      rw [held, List.length_cons] at full
      exact Nat.lt_of_succ_le (Nat.le_of_eq full)

theorem dispatchInstruction_eq_enter (windows : Windows Port) :
    windows.dispatchInstruction config microOp rest =
      (windows.makeRoom config).enter microOp (windows.makeRoom config).criticalPathTail rest := rfl

theorem dispatchInstruction_extends (windows : Windows Port) :
    { windows with criticalPathTail := tail }.dispatchInstruction config microOp rest =
      (windows.makeRoom config).enter microOp tail rest := by
  simp only [Windows.dispatchInstruction, Windows.makeRoom, Windows.enter]
  by_cases full : windows.oldWindow.length = config.windowSize
  · simp only [if_pos full, removeOldest_tail]
    rfl
  · simp only [if_neg full]
    rfl

theorem Placed.path (placed : Placed config windows next microOp) (path : Path config windows) :
    Path config (next.dispatchInstruction config microOp rest) := by
  cases placed with
  | within next microOp cleared early none_ =>
    have room := (cleared.path path).makeRoom
    rw [dispatchInstruction_eq_enter]
    refine room.enter (by rw [none_, Nat.add_zero]) ?_ (.inl none_)
    exact room.onPath.append_within (by rwa [makeRoom_tail]) none_
  | longer next microOp cleared late contributes small =>
    have room := (cleared.path path).makeRoom
    have tail : microOp.execTime = (next.makeRoom config).criticalPathTail + microOp.cpContr := by
      rw [makeRoom_tail, contributes]
      omega
    rw [dispatchInstruction_extends]
    refine room.enter tail ?_ (.inr small)
    rw [← @makeRoom_tail _ _ _ config] at late contributes
    exact room.onPath.append_extend late contributes

/-! ## The micro-operations to dispatch -/

/-- They do not contribute yet, and those that a long-latency load hides are not complete after the tail. -/
def Pending (tail : Nat) (entries : List (WindowEntry Port)) : Prop :=
  ∀ entry ∈ entries, entry.cpContr = 0 ∧ entry.execTime ≤ tail

omit [DecidableEq Port] in
theorem Pending.later {after : Nat} (pending : Pending tail entries) (later : tail ≤ after) : Pending after entries :=
  fun entry member => ⟨(pending entry member).1, Nat.le_trans (pending entry member).2 later⟩

omit [DecidableEq Port] in
theorem Pending.append (before : Pending tail entries) (after : Pending tail rest) : Pending tail (entries ++ rest) := by
  intro entry member
  cases List.mem_append.mp member with
  | inl first => exact before entry first
  | inr second => exact after entry second

omit [DecidableEq Port] in
theorem Pending.cons (first : entry.cpContr = 0 ∧ entry.execTime ≤ tail) (after : Pending tail entries) :
    Pending tail (entry :: entries) := by
  intro other member
  cases List.mem_cons.mp member with
  | inl same => exact same ▸ first
  | inr behind => exact after other behind

@[simp] theorem issueMemOp_cpContr (memory : Mem) : (issueMemOp config memory microOp).1.cpContr = microOp.cpContr := by
  unfold issueMemOp
  split <;> rfl

@[simp] theorem issueMemOp_execTime (memory : Mem) : (issueMemOp config memory microOp).1.execTime = microOp.execTime := by
  unfold issueMemOp
  split <;> rfl

theorem overlap_pending {head : Nat} {memBarrierPending : Bool} {memory : Mem} (early : head ≤ tail)
    (pending : microOp.cpContr = 0 ∧ microOp.execTime ≤ tail) :
    (overlap config head memBarrierPending memory microOp).1.cpContr = 0 ∧
      (overlap config head memBarrierPending memory microOp).1.execTime ≤ tail := by
  unfold overlap
  split
  case isTrue => exact pending
  case isFalse =>
    split
    case isTrue => exact ⟨(issueMemOp_cpContr memory).trans pending.1, early⟩
    case isFalse => exact pending

theorem blockLoop_pending {head headAddress : Nat} (early : head ≤ tail) (passed rest : List (WindowEntry Port))
    (memBarrierPending : Bool) (memory : Mem) (before : Pending tail passed) (after : Pending tail rest) :
    Pending tail (blockLoop config head headAddress passed rest memBarrierPending memory).1 ∧
      (blockLoop config head headAddress passed rest memBarrierPending memory).1.length = passed.length + rest.length := by
  induction rest generalizing passed memBarrierPending memory with
  | nil => exact ⟨before, rfl⟩
  | cons microOp later ih =>
    have first := after microOp List.mem_cons_self
    have behind : Pending tail later := fun entry member => after entry (List.mem_cons_of_mem _ member)
    unfold blockLoop
    dsimp only
    split
    case isTrue => exact ⟨before.append (.cons first behind), by simp⟩
    case isFalse =>
      refine (ih _ _ _ (before.append (.cons ?_ (fun entry none_ => absurd none_ List.not_mem_nil))) behind).imp_right ?_
      · apply overlap_pending early
        split <;> split <;> exact first
      · intro length
        rw [length, List.length_append, List.length_singleton, List.length_cons, Nat.add_assoc, Nat.add_comm 1]

theorem blockWindow_pending {head : Nat} (memory : Mem) (early : head ≤ tail)
    (first : microOp.cpContr = 0 ∧ microOp.execTime ≤ tail) (after : Pending tail rest) :
    Pending tail (blockWindow config head microOp rest memory).1 ∧
      (blockWindow config head microOp rest memory).1.length = rest.length := by
  unfold blockWindow
  obtain ⟨pending, length⟩ := blockLoop_pending early [{ microOp with dependent := .indepMiss }] rest false memory
    (.cons first fun entry none_ => absurd none_ List.not_mem_nil) after
  refine ⟨fun entry member => pending entry (List.mem_of_mem_tail member), ?_⟩
  rw [List.length_tail, length]
  exact Nat.add_sub_cancel_left _ _

/-! ## The handling of a micro-operation -/

/-- The micro-operation is placed on the critical path, and those behind it are still to dispatch. -/
structure Handled (config : Config Port Mem) (windows : Windows Port) (rest : List (WindowEntry Port))
    (dispatched : Dispatched Port Mem) : Prop where
  placed : Placed config windows dispatched.timer.windows dispatched.microOp
  pending : Pending dispatched.timer.windows.criticalPathTail dispatched.rest
  length : dispatched.rest.length = rest.length

theorem Handled.delayed {dispatched : Dispatched Port Mem} (handled : Handled config windows rest dispatched) (latency : Nat) :
    Handled config windows rest { dispatched with latency } :=
  ⟨handled.placed, handled.pending, handled.length⟩

theorem place_handled (cleared : Cleared windows timer.windows) (none_ : microOp.cpContr = 0)
    (pending : Pending windows.criticalPathTail rest) : Handled config windows rest (place config timer microOp rest) := by
  have placed : Placed config windows (place config timer microOp rest).timer.windows (place config timer microOp rest).microOp := by
    simp only [place, updateCriticalPath, Windows.longLatencyOperationLatency, Windows.updateCriticalPathTail]
    by_cases late : timer.windows.criticalPathTail < microOp.execTime
    · by_cases short : microOp.execTime - timer.windows.criticalPathTail < config.longLatencyCutoff
      · simp only [if_neg (Nat.lt_asymm late), if_pos short, if_true, if_pos late]
        exact .longer timer.windows { microOp with cpContr := microOp.execTime - timer.windows.criticalPathTail } cleared late
          rfl short
      · simp only [if_neg (Nat.lt_asymm late), if_neg short, Nat.succ_ne_zero, if_false]
        exact .within _ _ (cleared.again (Nat.le_of_lt late)) (Nat.le_refl _) none_
    · by_cases before : microOp.execTime < timer.windows.criticalPathTail
      · simp only [if_pos before, if_true, if_neg late]
        exact .within _ _ cleared (Nat.le_of_lt before) none_
      · have same : microOp.execTime = timer.windows.criticalPathTail := by omega
        by_cases short : microOp.execTime - timer.windows.criticalPathTail < config.longLatencyCutoff
        · simp only [if_neg before, if_pos short, if_true, if_neg late]
          exact .within _ _ cleared (Nat.le_of_eq same) none_
        · simp only [if_neg before, if_neg short, Nat.succ_ne_zero, if_false]
          exact .within _ _ (cleared.again (Nat.le_of_eq same.symm)) (Nat.le_refl _) none_
  exact ⟨placed, pending.later placed.tail_le, rfl⟩

theorem dispatchSerializing_handled (cleared : Cleared windows timer.windows) (none_ : microOp.cpContr = 0)
    (pending : Pending windows.criticalPathTail rest) :
    Handled config windows rest (dispatchSerializing config timer microOp rest) :=
  have placed : Placed config windows _ { microOp with execTime := timer.windows.criticalPathTail } :=
    .within _ _ cleared.clear (Nat.le_refl _) none_
  ⟨placed, pending.later placed.tail_le, rfl⟩

theorem dispatchLongLatencyLoad_handled {maxProducerExecTime : Nat} (cleared : Cleared windows timer.windows)
    (none_ : microOp.cpContr = 0) (pending : Pending windows.criticalPathTail rest) :
    Handled config windows rest (dispatchLongLatencyLoad config maxProducerExecTime timer microOp rest) := by
  simp only [dispatchLongLatencyLoad]
  generalize hold : (loadCompletion config timer.loadstoreContention microOp
    (max maxProducerExecTime timer.windows.criticalPathHead)).1 - max maxProducerExecTime timer.windows.criticalPathHead = latency
  have early : timer.windows.criticalPathTail ≤ timer.windows.criticalPathTail + latency := Nat.le_add_right _ _
  have placed : Placed config windows (timer.windows.clearOldWindow (timer.windows.criticalPathTail + latency))
      { microOp with execTime := timer.windows.criticalPathTail, dependent := .indepMiss } :=
    .within _ _ (cleared.again early) early none_
  have blocked := @blockWindow_pending Port Mem
    { microOp with execTime := timer.windows.criticalPathTail } rest (timer.windows.criticalPathTail + latency) _ config
    (timer.windows.criticalPathTail + latency) timer.memory (Nat.le_refl _) ⟨none_, early⟩ (pending.later placed.tail_le)
  exact ⟨placed, blocked.1, blocked.2⟩

theorem Handled.account {dispatched : Dispatched Port Mem} (handled : Handled config windows rest dispatched) (maxLoadCompletionTime : Nat) :
    Handled config windows rest
      { dispatched with timer := { dispatched.timer with maxLoadCompletionTime := maxLoadCompletionTime } } :=
  ⟨handled.placed, handled.pending, handled.length⟩

theorem dispatchLoad_handled {maxProducerExecTime : Nat} (cleared : Cleared windows timer.windows)
    (first : microOp.cpContr = 0 ∧ microOp.execTime ≤ windows.criticalPathTail) (pending : Pending windows.criticalPathTail rest) :
    Handled config windows rest (dispatchLoad config maxProducerExecTime timer microOp rest) := by
  unfold dispatchLoad
  apply Handled.account
  split
  case isTrue =>
    exact ⟨.within _ _ cleared (Nat.le_trans first.2 cleared.tail_le) first.1, pending.later cleared.tail_le, rfl⟩
  case isFalse =>
    split
    case isTrue => exact dispatchLongLatencyLoad_handled cleared first.1 pending
    case isFalse => exact @place_handled _ _ _ _ _ _ _ { timer with loadstoreContention := _ } cleared first.1 pending

theorem backEnd_handled {maxProducerExecTime : Nat} (cleared : Cleared windows timer.windows)
    (first : microOp.cpContr = 0 ∧ microOp.execTime ≤ windows.criticalPathTail) (pending : Pending windows.criticalPathTail rest) :
    Handled config windows rest (backEnd config maxProducerExecTime timer microOp rest) := by
  unfold backEnd
  split
  case isTrue => exact dispatchSerializing_handled cleared first.1 pending
  case isFalse =>
    split
    case isTrue => exact place_handled cleared first.1 pending
    case isFalse =>
      split
      case isTrue => exact dispatchLoad_handled cleared first pending
      case isFalse =>
        split
        case isTrue => exact place_handled cleared first.1 pending
        case isFalse => exact place_handled cleared first.1 pending

theorem frontEnd_cleared (windows : Windows Port) (microOp : WindowEntry Port) :
    Cleared windows (frontEnd config windows microOp).1 := by
  simp only [frontEnd]
  split <;> split
  · exact .cleared _ (Nat.le_add_right _ _)
  · exact .cleared _ (Nat.le_add_right _ _)
  · exact .cleared _ (Nat.le_add_right _ _)
  · exact .kept

theorem dispatchInstruction_handled (first : microOp.cpContr = 0 ∧ microOp.execTime ≤ timer.windows.criticalPathTail)
    (pending : Pending timer.windows.criticalPathTail rest) :
    Handled config timer.windows rest (dispatchInstruction config timer microOp rest).1 := by
  have cleared : Cleared timer.windows (frontEnd config timer.windows (issueMemOp config timer.memory microOp).1).1 :=
    frontEnd_cleared _ _
  have handled : Handled config timer.windows rest (backEnd config
      (getMaxProducerExecTime timer.windows (issueMemOp config timer.memory microOp).1)
      { timer with windows := (frontEnd config timer.windows (issueMemOp config timer.memory microOp).1).1,
                   memory := (issueMemOp config timer.memory microOp).2 } (issueMemOp config timer.memory microOp).1 rest) :=
    backEnd_handled cleared (by simpa using first) pending
  rw [dispatchInstruction]
  exact handled.delayed _

/-! ## Runs -/

structure Sound (config : Config Port Mem) (windows : Windows Port) : Prop where
  path : Path config windows
  pending : Pending windows.criticalPathTail windows.window
  oldLength : windows.oldWindow.length ≤ config.windowSize
  length : windows.window.length ≤ config.windowSize

theorem Sound.empty : Sound config (.empty : Windows Port) :=
  ⟨.empty, fun _ none_ => absurd none_ List.not_mem_nil, Nat.zero_le _, Nat.zero_le _⟩

theorem add_eq {uop : Uop Port} (added : windows.add config uop = .ok next) :
    windows.window.length ≠ config.windowSize ∧ ∃ microOp registers memory, next =
      { windows with
        window := windows.window ++ [.init microOp]
        nextSequenceNumber := windows.nextSequenceNumber + 1
        registerDependencies := registers
        memoryDependencies := memory } := by
  unfold Windows.add at added
  split at added
  case isTrue => cases added
  case isFalse room =>
    dsimp only at added
    split at added
    · cases added
    · split at added
      · cases added
      · cases added
        exact ⟨fun full => room (decide_eq_true full), _, _, _, rfl⟩

theorem Sound.add {uop : Uop Port} (sound : Sound config windows) (added : windows.add config uop = .ok next) : Sound config next := by
  obtain ⟨room, microOp, registers, memory, rfl⟩ := add_eq added
  refine ⟨⟨sound.path.tail, sound.path.onPath, sound.path.small, sound.path.byType, sound.path.total, sound.path.byPort⟩,
    sound.pending.append (.cons ⟨rfl, Nat.zero_le _⟩ fun _ none_ => absurd none_ List.not_mem_nil), sound.oldLength, ?_⟩
  rw [List.length_append, List.length_singleton]
  exact Nat.lt_of_le_of_ne sound.length room

theorem Placed.length_le (placed : Placed config windows next microOp) :
    next.oldWindow.length ≤ windows.oldWindow.length := by
  cases placed with
  | longer next microOp cleared _ _ _ => exact cleared.length_le
  | within next microOp cleared _ _ => exact cleared.length_le

theorem dispatchInstruction_tail (windows : Windows Port) :
    (windows.dispatchInstruction config microOp rest).criticalPathTail = windows.criticalPathTail :=
  makeRoom_tail windows

theorem dispatchInstruction_length (some : 0 < config.windowSize) (fits : windows.oldWindow.length ≤ config.windowSize) :
    (windows.dispatchInstruction config microOp rest).oldWindow.length ≤ config.windowSize := by
  have room : (windows.makeRoom config).oldWindow.length < config.windowSize := makeRoom_length some fits
  rw [dispatchInstruction_eq_enter, Windows.enter, List.length_append, List.length_singleton]
  exact room

theorem Sound.dispatchNext (sound : Sound config timer.windows) (first : timer.windows.window = microOp :: rest) :
    Sound config (dispatchNext config timer microOp rest).1.windows ∧
      (dispatchNext config timer microOp rest).1.windows.window.length = rest.length := by
  have pending := sound.pending
  have length := sound.length
  rw [first] at pending length
  have handled : Handled config timer.windows rest (dispatchInstruction config timer microOp rest).1 :=
    dispatchInstruction_handled (pending microOp List.mem_cons_self)
      fun entry member => pending entry (List.mem_cons_of_mem _ member)
  have some : 0 < config.windowSize := Nat.lt_of_lt_of_le (Nat.succ_pos _) length
  refine ⟨⟨handled.placed.path sound.path, ?_, ?_, ?_⟩, handled.length⟩
  · intro entry member
    rw [IntervalTimer.dispatchNext, dispatchInstruction_tail]
    exact handled.pending entry member
  · exact dispatchInstruction_length some (Nat.le_trans handled.placed.length_le sound.oldLength)
  · exact Nat.le_trans (Nat.le_of_eq handled.length) (Nat.le_of_succ_le length)

theorem addMicroOp_eq {uop : Uop Port} {after : Timer Port Mem} (added : addMicroOp config timer uop = .ok after) :
    ∃ windows, timer.windows.add config (enforceGranularity config uop) = .ok windows ∧ after = { timer with windows := windows } := by
  unfold addMicroOp at added
  cases result : timer.windows.add config (enforceGranularity config uop) with
  | error failure =>
    rw [result] at added
    cases added
  | ok windows =>
    rw [result] at added
    exact ⟨windows, rfl, (Except.ok.inj added).symm⟩

theorem reachable_sound (reached : (machine config).Reachable timer) : Sound config timer.windows := by
  refine reached.invariant (fun timer => Sound config timer.windows) ?_ ?_
  · intro timer starts
    obtain ⟨numOutstanding, memory, rfl⟩ := starts
    exact .empty
  · intro timer label next sound _ stepped
    cases label with
    | add uop =>
      obtain ⟨windows, added, rfl⟩ := addMicroOp_eq stepped
      exact sound.add added
    | calculateRate =>
      cases stepped
      exact sound
    | dispatch =>
      cases first : timer.windows.window with
      | nil => simp [machine, step, first] at stepped
      | cons microOp rest =>
        simp only [machine, step, first] at stepped
        cases stepped
        exact (sound.dispatchNext first).1

/-! ## The accounting -/

theorem toInt_eq (value : Nat) :
    toInt value = if value % 2 ^ 32 < 2 ^ 31 then (value % 2 ^ 32 : Int) else (value % 2 ^ 32 : Int) - 2 ^ 32 := by
  unfold toInt
  rw [BitVec.toInt_eq_toNat_cond, BitVec.toNat_ofNat]
  split <;> split <;> omega

theorem toInt_eq_zero {value : Nat} : toInt value = 0 ↔ 2 ^ 32 ∣ value := by
  rw [toInt_eq]
  split <;> omega

theorem toInt_le (value : Nat) : toInt value ≤ value := by
  rw [toInt_eq]
  split <;> omega

theorem toInt_range (value : Nat) : -2 ^ 31 ≤ toInt value ∧ toInt value < 2 ^ 31 := by
  rw [toInt_eq]
  split <;> omega

theorem toUInt64_eq (value : Int) : toUInt64 value = (value % 2 ^ 64).toNat := BitVec.toNat_ofInt value

theorem toInt_toUInt64 (value : Nat) : toInt (toUInt64 (toInt value)) = toInt value := by
  have range := toInt_range value
  rw [toUInt64_eq]
  generalize toInt value = length at range ⊢
  rw [toInt_eq]
  split <;> omega


/-- The path and its contributions, and the accounting of a cycle that stops here. -/
structure Accounted (config : Config Port Mem) (windows : Windows Port) : Prop where
  tail : windows.criticalPathTail = windows.criticalPathHead + contributions windows.oldWindow
  total : windows.cpcontrTotal = contributions windows.oldWindow
  byType : (CpContrType.all.map windows.cpcontrByType).sum = contributions windows.oldWindow
  execTime : ∀ entry ∈ windows.oldWindow, entry.execTime ≤ windows.criticalPathTail
  /-- "head > tail" -/
  ordered : windows.criticalPathHead ≤ windows.criticalPathTail
  fractions : ∃ fractions, cpContrByType config windows = .ok fractions

/-- The length of the path is an `int`: the contributions in the old window add up to a multiple of 2^32, not to 0. -/
def Truncated (config : Config Port Mem) (windows : Windows Port) : Prop :=
  config.doFunctionalUnitContention = false ∧ 0 < contributions windows.oldWindow ∧ 2 ^ 32 ∣ contributions windows.oldWindow

theorem Path.criticalPathLength (path : Path config windows) :
    windows.getCriticalPathLength = toInt (contributions windows.oldWindow) := by
  unfold Windows.getCriticalPathLength
  rw [path.tail, if_neg (by omega), Nat.add_sub_cancel_left]

def effectiveCpLength (config : Config Port Mem) (windows : Windows Port) : Nat :=
  toUInt64 (toInt (windows.getEffectiveCriticalPathLength config (toUInt64 windows.getCriticalPathLength)))

theorem Sound.effectiveCpLength_eq_zero (sound : Sound config windows) (some : 0 < contributions windows.oldWindow) :
    effectiveCpLength config windows = 0 ↔ Truncated config windows := by
  have path := sound.path
  have zero : ∀ value, toUInt64 (toInt value) = 0 ↔ toInt value = 0 := by
    intro value
    have range := toInt_range value
    rw [toUInt64_eq]
    generalize toInt value = length at range ⊢
    omega
  unfold effectiveCpLength
  rw [zero, path.criticalPathLength, Windows.getEffectiveCriticalPathLength]
  cases contends : config.doFunctionalUnitContention with
  | false =>
    rw [if_neg Bool.false_ne_true, toInt_toUInt64, toInt_eq_zero]
    simp [Truncated, contends, some]
  | true =>
    simp only [if_true, Truncated, contends, Bool.true_eq_false, false_and, iff_false]
    have held : windows.oldWindow.map (·.port) ≠ [] := by
      intro none_
      rw [List.map_eq_nil_iff.mp none_] at some
      exact Nat.lt_irrefl 0 some
    have range := toInt_range (contributions windows.oldWindow)
    have least := config.contention.length_le windows.countByPort (toUInt64 (toInt (contributions windows.oldWindow)))
    have most := config.contention.le_max (windows.oldWindow.map (·.port)) (toUInt64 (toInt (contributions windows.oldWindow)))
    have more := config.contention.pos (windows.oldWindow.map (·.port)) (toUInt64 (toInt (contributions windows.oldWindow))) held
    have few := Nat.lt_of_le_of_lt sound.oldLength config.windowSize_lt
    rw [← path.byPort] at most more
    rw [List.length_map] at most
    generalize config.contention.getEffectiveCriticalPathLength windows.countByPort _ = effective at least most more ⊢
    rw [toUInt64_eq] at least most
    generalize toInt (contributions windows.oldWindow) = length at range least most
    rw [toInt_eq]
    split <;> omega

theorem cpContrByType_ok_iff (below : ∀ type, windows.cpcontrByType type ≤ windows.cpcontrTotal) :
    (∃ fractions, cpContrByType config windows = .ok fractions) ↔
      (0 < windows.cpcontrTotal → effectiveCpLength config windows ≠ 0) := by
  refine (mapM_ok_iff CpContrType.all).trans ?_
  change (∀ type ∈ CpContrType.all, ∃ fraction,
    windows.getCpContrFraction type (effectiveCpLength config windows) = .ok fraction) ↔ _
  constructor
  · intro divides some zero
    obtain ⟨fraction, divided⟩ := divides .generic (by decide)
    rw [Windows.getCpContrFraction, if_neg (not_not_intro (below _)), if_pos some, if_pos zero] at divided
    cases divided
  · intro nonzero type _
    rw [Windows.getCpContrFraction, if_neg (not_not_intro (below _))]
    split
    case isTrue some =>
      rw [if_neg (nonzero some)]
      exact ⟨_, rfl⟩
    case isFalse => exact ⟨_, rfl⟩

/-- The path and the contributions are right in every state of every run, and the accounting divides unless the length of
the path is truncated to 0. -/
theorem criticalPath_accounted (reached : (machine config).Reachable timer) :
    Accounted config timer.windows ↔ ¬Truncated config timer.windows := by
  have sound := reachable_sound reached
  have path := sound.path
  have below : ∀ type, timer.windows.cpcontrByType type ≤ timer.windows.cpcontrTotal := by
    intro type
    rw [path.byType, path.total]
    exact contributions_filter_le _ _
  have divides : (∃ fractions, cpContrByType config timer.windows = .ok fractions) ↔ _ := cpContrByType_ok_iff below
  rw [path.total] at divides
  constructor
  · intro accounted truncated
    have some := truncated.2.1
    exact divides.mp accounted.fractions some ((sound.effectiveCpLength_eq_zero some).mpr truncated)
  · intro exact_
    refine ⟨path.tail, path.total, ?_, fun entry member => path.onPath.execTime_le member, ?_, divides.mpr fun some zero => ?_⟩
    · rw [path.byType]
      exact sum_byType _
    · rw [path.tail]
      exact Nat.le_add_right _ _
    · exact exact_ ((sound.effectiveCpLength_eq_zero some).mp zero)

theorem three_windows : 3 < 2 ^ 31 := by decide

/-- Loads of up to 2^31 cycles are not long-latency loads. -/
def slow : Config NehalemPort Unit where
  dispatchWidth := 3
  windowSize := 3
  windowSize_lt := three_windows
  branchMispredictionPenalty := 8
  longLatencyCutoff := 2147483649
  doFunctionalUnitContention := false
  contention := intervalContentionNehalem
  memoryGranularity := 8
  lllGranularity := 64
  period := 1000000
  accessMemory _ _ := ((0, .dram), ())

/-- A micro-operation of its own instruction, with all accesses done at fetch. -/
def fetched (uopType : UopType) (subtype : UopSubtype) (execLatency : Nat) : Uop NehalemPort where
  microOp := ⟨uopType, [], [], [], false, false, false⟩
  sequenceNumber := 0
  address := 0
  squashed := false
  intraInstructionDependencies := 0
  microOpTypeOffset := 0
  dependencies := []
  execLatency := execLatency
  branchMispredicted := false
  dCacheHitWhere := .dram
  iCacheHitWhere := .l1i
  iCacheLatency := 0
  last := true
  port := .nehalem .port2
  alu := .none
  aluLatency := 1
  subtype := subtype
  interrupt := false
  forceLongLatencyLoad := false
  info := ⟨.port2, 0⟩

def slowLoad : Uop NehalemPort := { fetched .load .load 2147483648 with last := false }

def useLoad : Uop NehalemPort :=
  { fetched .execute .generic 1 with
    microOp := ⟨.execute, [], [], [0], false, false, false⟩, intraInstructionDependencies := 1 }

def nextLoad : Uop NehalemPort :=
  { fetched .load .load 2147483647 with microOp := ⟨.load, [0], [], [], false, false, false⟩ }

/-- The first load is the path of 2^31 cycles. -/
theorem criticalPath_accounted_load :
    ∃ timer, (machine slow).Reachable timer ∧ contributions timer.windows.oldWindow = 2147483648 ∧ Accounted slow timer.windows := by
  have start : (machine slow).Reachable (.initial 1 ()) := .initial ⟨1, (), rfl⟩
  have loaded := start.step (.add slowLoad) trivial rfl
  have dispatched := loaded.step .dispatch trivial rfl
  refine ⟨_, dispatched, rfl, (criticalPath_accounted dispatched).mpr ?_⟩
  intro truncated
  exact absurd truncated.2.2 (by decide)

/-- A path of 2^32 cycles has the length 0. -/
theorem slow_path_divides :
    ¬ ∀ timer, (machine slow).Reachable timer → (dispatchWindow slow timer).2.2.2 = true →
      Accounted slow (dispatchWindow slow timer).1.windows := by
  intro accounted
  have start : (machine slow).Reachable (.initial 1 ()) := .initial ⟨1, (), rfl⟩
  have loaded := start.step (.add slowLoad) trivial rfl
  have used := loaded.step (.add useLoad) trivial rfl
  have full := used.step (.add nextLoad) trivial rfl
  obtain ⟨fractions, divided⟩ := (accounted _ full rfl).fractions
  cases divided

end Sniper.Performance.IntervalTimer

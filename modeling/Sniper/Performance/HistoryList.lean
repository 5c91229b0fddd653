import Sniper.Library.Machine
import Mathlib.Algebra.Ring.Nat
import Mathlib.Data.List.Pairwise

/-! `QueueModelHistoryList`: a queue that remembers when it will be free.

Times are unsigned numbers of 64 bits, in femtoseconds. -/

namespace Sniper.Performance

/-- `SubsecondTime::operator+`. -/
def addTime (lhs rhs : Nat) : Nat := (lhs + rhs) % 2 ^ 64

/-- `SubsecondTime::operator-`. -/
def subTime (lhs rhs : Nat) : Nat := (lhs + 2 ^ 64 - rhs) % 2 ^ 64

def maxSimulationTime : Nat := 2 ^ 63

namespace HistoryList

structure Config where
  minProcessingTime : Nat
  /-- `queue_model/history_list/max_list_size`. -/
  maxListSize : Nat
  /-- `queue_model/history_list/analytical_model_enabled`. -/
  analyticalModelEnabled : Bool
deriving DecidableEq, Repr

structure State where
  freeIntervalList : List (Nat × Nat)
  /-- The window of `m_average_delay`, the last delay first. -/
  delays : List Nat
  /-- The busy slots granted from the list so far. -/
  granted : List (Nat × Nat)
deriving DecidableEq, Repr

inductive Fault where
  /-- "Free Interval list size < 1" -/
  | emptyList
  /-- "Free Interval list size(%u) > %u" -/
  | listSize
  /-- "queue delay(%s), free interval not found" -/
  | notFound
  /-- A mean over an empty window -/
  | divisionByZero
deriving DecidableEq, Repr

structure Request where
  pktTime : Nat
  processingTime : Nat
deriving DecidableEq, Repr

/-- An interval as it is inserted, unless it is too short. -/
def keep (minProcessingTime first second : Nat) : List (Nat × Nat) :=
  if minProcessingTime ≤ subTime second first then [(first, second)] else []

/-- The loop of `computeUsingHistoryList` over the free intervals, with the delay it finds. -/
def findSlot (minProcessingTime pktTime processingTime : Nat) : List (Nat × Nat) → Option (Nat × List (Nat × Nat))
  | [] => none
  | (first, second) :: rest =>
    let keep := keep minProcessingTime
    if first ≤ pktTime ∧ addTime pktTime processingTime ≤ second then
      some (0, keep first pktTime ++ keep (addTime pktTime processingTime) second ++ rest)
    else if pktTime < first then
      some (subTime first pktTime, keep (addTime first processingTime) second ++ rest)
    else
      (findSlot minProcessingTime pktTime processingTime rest).map fun (delay, list) => (delay, (first, second) :: list)

/-- `MovingArithmeticMean::update`. -/
def updateAverageDelay (config : Config) (delay : Nat) (delays : List Nat) : List Nat :=
  (delay :: delays).take config.maxListSize

/-- `MovingArithmeticMean::compute`. -/
def computeUsingAnalyticalModel (delays : List Nat) : Except Fault Nat :=
  if delays.isEmpty then .error .divisionByZero else .ok (delays.sum % 2 ^ 64 / delays.length)

def computeUsingHistoryList (config : Config) (request : Request) (state : State) : Except Fault (Nat × State) :=
  if config.maxListSize < state.freeIntervalList.length then .error .listSize
  else
    match findSlot config.minProcessingTime request.pktTime request.processingTime state.freeIntervalList with
    | none => .error .notFound
    | some (delay, list) =>
      let start := addTime request.pktTime delay
      .ok (delay,
        { freeIntervalList := if config.maxListSize < list.length then list.tail else list
          delays := updateAverageDelay config delay state.delays
          granted := (start, start + request.processingTime) :: state.granted })

/-- Whether the request is older than everything the list remembers. -/
def usesAnalyticalModel (config : Config) (request : Request) (list : List (Nat × Nat)) : Bool :=
  config.analyticalModelEnabled && list.head?.any fun oldest => addTime request.pktTime request.processingTime ≤ oldest.1

def computeQueueDelay (config : Config) (request : Request) (state : State) : Except Fault (Nat × State) :=
  if state.freeIntervalList.isEmpty then .error .emptyList
  else if usesAnalyticalModel config request state.freeIntervalList then
    match computeUsingAnalyticalModel state.delays with
    | .error fault => .error fault
    | .ok delay => .ok (delay, state)
  else computeUsingHistoryList config request state

def machine (config : Config) : Machine State Request Fault where
  initial state := state = ⟨[(0, maxSimulationTime)], [], []⟩
  step state request := (computeQueueDelay config request state).map Prod.snd

/-- The intervals are in order, do not overlap, and the last one ends with the simulation. -/
structure Tidy (list : List (Nat × Nat)) : Prop where
  sorted : list.Pairwise fun earlier later => earlier.2 ≤ later.1
  proper : ∀ interval ∈ list, interval.1 ≤ interval.2
  last : list.getLast?.map Prod.snd = some maxSimulationTime

/-- Two slots have no moment in common. -/
def Disjoint (slot slot' : Nat × Nat) : Prop := slot.2 ≤ slot'.1 ∨ slot'.2 ≤ slot.1

/-- A request that waits for a free interval fits into it. -/
def Fits (pktTime processingTime : Nat) : List (Nat × Nat) → Prop
  | [] => True
  | (first, second) :: rest =>
    if first ≤ pktTime ∧ pktTime + processingTime ≤ second then True
    else if pktTime < first then first + processingTime ≤ second
    else Fits pktTime processingTime rest

/-- A request that is served from the last interval leaves some of it. -/
def SparesLast (minProcessingTime pktTime processingTime : Nat) : List (Nat × Nat) → Prop
  | [] => True
  | (first, second) :: rest =>
    if first ≤ pktTime ∧ pktTime + processingTime ≤ second then
      rest = [] → pktTime + processingTime + minProcessingTime ≤ second
    else if pktTime < first then rest = [] → first + processingTime + minProcessingTime ≤ second
    else SparesLast minProcessingTime pktTime processingTime rest

/-! ### Intervals in order -/

def Ordered (low : Nat) : List (Nat × Nat) → Prop
  | [] => True
  | (first, second) :: rest => low ≤ first ∧ first ≤ second ∧ second ≤ maxSimulationTime ∧ Ordered second rest

variable {low minProcessingTime pktTime processingTime delay : Nat} {list after : List (Nat × Nat)}

theorem Ordered.mono {low' : Nat} (ordered : Ordered low list) (below : low' ≤ low) : Ordered low' list := by
  cases list with
  | nil => trivial
  | cons interval rest => exact ⟨Nat.le_trans below ordered.1, ordered.2⟩

theorem Ordered.bounds {interval : Nat × Nat} (ordered : Ordered low list) (member : interval ∈ list) :
    low ≤ interval.1 ∧ interval.1 ≤ interval.2 ∧ interval.2 ≤ maxSimulationTime := by
  induction list generalizing low with
  | nil => cases member
  | cons head rest ih =>
    obtain ⟨above, proper, bounded, later⟩ := ordered
    rcases List.mem_cons.mp member with same | member
    · subst same
      exact ⟨above, proper, bounded⟩
    · obtain ⟨aboveRest, properRest, boundedRest⟩ := ih later member
      exact ⟨by omega, properRest, boundedRest⟩

theorem Ordered.pairwise (ordered : Ordered low list) : list.Pairwise fun earlier later => earlier.2 ≤ later.1 := by
  induction list generalizing low with
  | nil => exact .nil
  | cons head rest ih =>
    obtain ⟨_, _, _, later⟩ := ordered
    exact .cons (fun interval member => (later.bounds member).1) (ih later)

theorem keep_ordered {first second : Nat} (above : low ≤ first) (proper : first ≤ second)
    (bounded : second ≤ maxSimulationTime) (ordered : Ordered second list) :
    Ordered low (keep minProcessingTime first second ++ list) := by
  rw [keep]
  split
  · exact ⟨above, proper, bounded, ordered⟩
  · exact ordered.mono (by omega)

theorem addTime_of_le {lhs rhs : Nat} (small : lhs + rhs ≤ maxSimulationTime) : addTime lhs rhs = lhs + rhs := by
  rw [addTime]
  rw [maxSimulationTime] at small
  omega

theorem subTime_of_le {lhs rhs : Nat} (le : rhs ≤ lhs) (small : lhs ≤ maxSimulationTime) : subTime lhs rhs = lhs - rhs := by
  rw [subTime]
  rw [maxSimulationTime] at small
  omega

theorem findSlot_cons {first second : Nat} {rest : List (Nat × Nat)} (inTime : pktTime + processingTime ≤ maxSimulationTime)
    (found : findSlot minProcessingTime pktTime processingTime ((first, second) :: rest) = some (delay, after)) :
    (first ≤ pktTime ∧ pktTime + processingTime ≤ second ∧ delay = 0 ∧
      after = keep minProcessingTime first pktTime ++ (keep minProcessingTime (pktTime + processingTime) second ++ rest)) ∨
    (pktTime < first ∧ delay = subTime first pktTime ∧
      after = keep minProcessingTime (addTime first processingTime) second ++ rest) ∨
    (¬(first ≤ pktTime ∧ pktTime + processingTime ≤ second) ∧ first ≤ pktTime ∧
      ∃ tail, findSlot minProcessingTime pktTime processingTime rest = some (delay, tail) ∧ after = (first, second) :: tail) := by
  simp only [findSlot, addTime_of_le inTime] at found
  split at found
  case isTrue fits =>
    cases found
    exact .inl ⟨fits.1, fits.2, rfl, List.append_assoc _ _ _⟩
  case isFalse elsewhere =>
    split at found
    case isTrue early =>
      cases found
      exact .inr (.inl ⟨early, rfl, rfl⟩)
    case isFalse late =>
      obtain ⟨⟨delay', tail⟩, foundRest, same⟩ := Option.map_eq_some_iff.mp found
      cases same
      exact .inr (.inr ⟨elsewhere, Nat.le_of_not_lt late, tail, foundRest, rfl⟩)

/-- A slot inside one of the free intervals, and what is left of them. -/
structure Grants (minProcessingTime : Nat) (list after : List (Nat × Nat)) (slot : Nat × Nat) : Prop where
  inside : ∃ interval ∈ list, interval.1 ≤ slot.1 ∧ slot.2 ≤ interval.2
  within : ∀ interval ∈ after, ∃ old ∈ list, old.1 ≤ interval.1 ∧ interval.2 ≤ old.2
  apart : ∀ interval ∈ after, Disjoint interval slot
  long : ∀ interval ∈ after, interval ∈ list ∨ interval.1 + minProcessingTime ≤ interval.2

theorem mem_keep {first second : Nat} {interval : Nat × Nat} (member : interval ∈ keep minProcessingTime first second) :
    interval = (first, second) := by
  rw [keep] at member
  split at member
  · exact List.mem_singleton.mp member
  · cases member

theorem keep_long {first second : Nat} {interval : Nat × Nat} (proper : first ≤ second)
    (bounded : second ≤ maxSimulationTime) (member : interval ∈ keep minProcessingTime first second) :
    interval.1 + minProcessingTime ≤ interval.2 := by
  rw [keep, subTime_of_le proper bounded] at member
  split at member
  case isTrue enough =>
    rw [List.mem_singleton.mp member]
    omega
  case isFalse => cases member

theorem Grants.behind {first second start finish : Nat} {rest : List (Nat × Nat)} (above : first ≤ start)
    (proper : start ≤ finish) (behind : finish ≤ second) (bounded : second ≤ maxSimulationTime) (later : Ordered second rest) :
    Grants minProcessingTime ((first, second) :: rest) (keep minProcessingTime finish second ++ rest) (start, finish) where
  inside := ⟨(first, second), List.mem_cons_self, above, behind⟩
  within interval member := by
    rcases List.mem_append.mp member with right | member
    · rw [mem_keep right]
      exact ⟨(first, second), List.mem_cons_self, Nat.le_trans above proper, Nat.le_refl _⟩
    · exact ⟨interval, List.mem_cons_of_mem _ member, Nat.le_refl _, Nat.le_refl _⟩
  apart interval member := by
    rcases List.mem_append.mp member with right | member
    · rw [mem_keep right]
      exact .inr (Nat.le_refl _)
    · exact .inr (Nat.le_trans behind (later.bounds member).1)
  long interval member := by
    rcases List.mem_append.mp member with right | member
    · exact .inr (keep_long behind bounded right)
    · exact .inl (List.mem_cons_of_mem _ member)

theorem Grants.before {first second start finish : Nat} (grants : Grants minProcessingTime list after (start, finish))
    (isFree : (first, second) ∈ list) (before : first ≤ start) (inside : start ≤ second) (bounded : second ≤ maxSimulationTime) :
    Grants minProcessingTime list (keep minProcessingTime first start ++ after) (start, finish) where
  inside := grants.inside
  within interval member := by
    rcases List.mem_append.mp member with left | member
    · rw [mem_keep left]
      exact ⟨(first, second), isFree, Nat.le_refl _, inside⟩
    · exact grants.within interval member
  apart interval member := by
    rcases List.mem_append.mp member with left | member
    · rw [mem_keep left]
      exact .inl (Nat.le_refl _)
    · exact grants.apart interval member
  long interval member := by
    rcases List.mem_append.mp member with left | member
    · exact .inr (keep_long before (Nat.le_trans inside bounded) left)
    · exact grants.long interval member

theorem Grants.skip {interval slot : Nat × Nat} (grants : Grants minProcessingTime list after slot)
    (ahead : interval.2 ≤ slot.1) : Grants minProcessingTime (interval :: list) (interval :: after) slot where
  inside := by
    obtain ⟨free, isFree, starts, ends⟩ := grants.inside
    exact ⟨free, List.mem_cons_of_mem _ isFree, starts, ends⟩
  within other member := by
    rcases List.mem_cons.mp member with same | member
    · subst same
      exact ⟨other, List.mem_cons_self, Nat.le_refl _, Nat.le_refl _⟩
    · obtain ⟨old, isOld, lower, upper⟩ := grants.within other member
      exact ⟨old, List.mem_cons_of_mem _ isOld, lower, upper⟩
  apart other member := by
    rcases List.mem_cons.mp member with same | member
    · subst same
      exact .inl ahead
    · exact grants.apart other member
  long other member := by
    rcases List.mem_cons.mp member with same | member
    · subst same
      exact .inl List.mem_cons_self
    · exact (grants.long other member).imp_left (List.mem_cons_of_mem _)

theorem findSlot_spec (ordered : Ordered low list) (inTime : pktTime + processingTime ≤ maxSimulationTime)
    (fits : Fits pktTime processingTime list)
    (found : findSlot minProcessingTime pktTime processingTime list = some (delay, after)) :
    Ordered low after ∧ pktTime + delay + processingTime ≤ maxSimulationTime ∧
      Grants minProcessingTime list after (pktTime + delay, pktTime + delay + processingTime) := by
  induction list generalizing low after with
  | nil => cases found
  | cons interval rest ih =>
    obtain ⟨first, second⟩ := interval
    obtain ⟨above, proper, bounded, later⟩ := ordered
    obtain ⟨inside, behind, zero, isAfter⟩ | ⟨early, isDelay, isAfter⟩ | ⟨elsewhere, late, tail, foundRest, isAfter⟩ :=
      findSlot_cons inTime found
    · subst zero
      subst isAfter
      have grants : Grants minProcessingTime ((first, second) :: rest)
          (keep minProcessingTime (pktTime + processingTime) second ++ rest) (pktTime, pktTime + processingTime) :=
        .behind inside (Nat.le_add_right _ _) behind bounded later
      exact ⟨keep_ordered above inside (by omega) (keep_ordered (by omega) behind bounded later), by omega,
        grants.before List.mem_cons_self inside (Nat.le_trans (Nat.le_add_right _ _) behind) bounded⟩
    · have waits : first + processingTime ≤ second := by
        have notInside : ¬(first ≤ pktTime ∧ pktTime + processingTime ≤ second) := by omega
        rw [Fits, if_neg notInside, if_pos early] at fits
        exact fits
      have isDelay : delay = first - pktTime := isDelay.trans (subTime_of_le (Nat.le_of_lt early) (by omega))
      have start : pktTime + delay = first := by omega
      rw [addTime_of_le (by omega)] at isAfter
      subst isAfter
      rw [start]
      exact ⟨keep_ordered (by omega) waits bounded later, by omega,
        .behind (Nat.le_refl _) (Nat.le_add_right _ _) waits bounded later⟩
    · have fitsRest : Fits pktTime processingTime rest := by
        rw [Fits, if_neg elsewhere, if_neg (by omega)] at fits
        exact fits
      obtain ⟨orderedTail, small, grants⟩ := ih later fitsRest foundRest
      subst isAfter
      obtain ⟨free, isFree, starts, _⟩ := grants.inside
      exact ⟨⟨above, proper, bounded, orderedTail⟩, small, grants.skip (Nat.le_trans (later.bounds isFree).1 starts)⟩

/-- When the last interval ends. -/
def lastEnd (list : List (Nat × Nat)) : Option Nat := list.getLast?.map Prod.snd

theorem lastEnd_append {front : List (Nat × Nat)} (nonempty : list ≠ []) : lastEnd (front ++ list) = lastEnd list := by
  rw [lastEnd, List.getLast?_append, List.getLast?_eq_some_getLast nonempty, lastEnd, List.getLast?_eq_some_getLast nonempty,
    Option.some_or]

theorem lastEnd_cons {interval : Nat × Nat} (nonempty : list ≠ []) : lastEnd (interval :: list) = lastEnd list := by
  have split : interval :: list = [interval] ++ list := rfl
  rw [split, lastEnd_append nonempty]

theorem keep_eq {first second : Nat} (enough : first + minProcessingTime ≤ second) (small : second ≤ maxSimulationTime) :
    keep minProcessingTime first second = [(first, second)] := by
  rw [keep, subTime_of_le (by omega) small, if_pos (by omega)]

theorem findSlot_lastEnd (ordered : Ordered low list) (inTime : pktTime + processingTime ≤ maxSimulationTime)
    (fits : Fits pktTime processingTime list) (spares : SparesLast minProcessingTime pktTime processingTime list)
    (found : findSlot minProcessingTime pktTime processingTime list = some (delay, after)) :
    after ≠ [] ∧ lastEnd after = lastEnd list := by
  induction list generalizing low after with
  | nil => cases found
  | cons interval rest ih =>
    obtain ⟨first, second⟩ := interval
    obtain ⟨above, proper, bounded, later⟩ := ordered
    obtain ⟨inside, behind, _, isAfter⟩ | ⟨early, _, isAfter⟩ | ⟨elsewhere, late, tail, foundRest, isAfter⟩ :=
      findSlot_cons inTime found
    · subst isAfter
      cases rest with
      | nil =>
        rw [SparesLast, if_pos ⟨inside, behind⟩] at spares
        rw [keep_eq (spares rfl) bounded, List.append_nil, lastEnd_append (List.cons_ne_nil _ _)]
        exact ⟨by simp, rfl⟩
      | cons head tail =>
        rw [lastEnd_append (by simp), lastEnd_append (by simp)]
        exact ⟨by simp, (lastEnd_cons (List.cons_ne_nil _ _)).symm⟩
    · have notInside : ¬(first ≤ pktTime ∧ pktTime + processingTime ≤ second) := by omega
      rw [Fits, if_neg notInside, if_pos early] at fits
      rw [SparesLast, if_neg notInside, if_pos early] at spares
      rw [addTime_of_le (by omega)] at isAfter
      subst isAfter
      cases rest with
      | nil =>
        rw [keep_eq (spares rfl) bounded]
        exact ⟨by simp, rfl⟩
      | cons head tail =>
        rw [lastEnd_append (by simp)]
        exact ⟨by simp, (lastEnd_cons (List.cons_ne_nil _ _)).symm⟩
    · rw [Fits, if_neg elsewhere, if_neg (by omega)] at fits
      rw [SparesLast, if_neg elsewhere, if_neg (by omega)] at spares
      obtain ⟨nonempty, same⟩ := ih later fits spares foundRest
      subst isAfter
      have someRest : rest ≠ [] := by
        intro empty
        subst empty
        cases foundRest
      refine ⟨List.cons_ne_nil _ _, ?_⟩
      rw [lastEnd_cons nonempty, lastEnd_cons someRest, same]

/-! ### Runs -/

variable {config : Config} {request : Request} {state next : State}

theorem step_cases (stepped : (machine config).step state request = .ok next) :
    (usesAnalyticalModel config request state.freeIntervalList = true ∧ next = state) ∨
    ∃ delay list, findSlot config.minProcessingTime request.pktTime request.processingTime state.freeIntervalList =
        some (delay, list) ∧ usesAnalyticalModel config request state.freeIntervalList = false ∧
      state.freeIntervalList.length ≤ config.maxListSize ∧ state.freeIntervalList ≠ [] ∧
      next.freeIntervalList = (if config.maxListSize < list.length then list.tail else list) ∧
      next.granted = (addTime request.pktTime delay, addTime request.pktTime delay + request.processingTime) ::
        state.granted := by
  cases result : computeQueueDelay config request state with
  | error fault =>
    simp only [machine, result] at stepped
    cases stepped
  | ok value =>
    simp only [machine, result] at stepped
    cases stepped
    simp only [computeQueueDelay] at result
    split at result
    · cases result
    case isFalse nonempty =>
      split at result
      case isTrue analytical =>
        split at result
        · cases result
        · cases result
          exact .inl ⟨analytical, rfl⟩
      case isFalse fromList =>
        simp only [computeUsingHistoryList] at result
        split at result
        · cases result
        case isFalse short =>
          split at result
          · cases result
          case h_2 delay list found =>
            cases result
            exact .inr ⟨delay, list, found, by simpa using fromList, Nat.le_of_not_lt short, by simpa using nonempty, rfl, rfl⟩

theorem Ordered.tail (ordered : Ordered low list) : Ordered low list.tail := by
  cases list with
  | nil => trivial
  | cons interval rest => exact ordered.2.2.2.mono (Nat.le_trans ordered.1 ordered.2.1)

/-- The condition on a request: the times stay within the simulation, and a request that is served from the list fits into
the interval it waits for and does not use up the last interval. -/
def Accommodates (config : Config) (state : State) (request : Request) : Prop :=
  config.minProcessingTime ≤ request.processingTime ∧ request.pktTime + request.processingTime ≤ maxSimulationTime ∧
    (usesAnalyticalModel config request state.freeIntervalList = false →
      Fits request.pktTime request.processingTime state.freeIntervalList ∧
        SparesLast config.minProcessingTime request.pktTime request.processingTime state.freeIntervalList)

theorem lastEnd_tail (long : 1 < list.length) : list.tail ≠ [] ∧ lastEnd list.tail = lastEnd list := by
  cases list with
  | nil => cases long
  | cons interval rest =>
    have nonempty : rest ≠ [] := by
      intro empty
      simp [empty] at long
    exact ⟨nonempty, (lastEnd_cons nonempty).symm⟩

theorem reach_ordered (reached : (machine config).Reach (Accommodates config) state) :
    Ordered 0 state.freeIntervalList ∧ state.freeIntervalList ≠ [] ∧
      lastEnd state.freeIntervalList = some maxSimulationTime := by
  refine reached.invariant (fun state => Ordered 0 state.freeIntervalList ∧ state.freeIntervalList ≠ [] ∧
    lastEnd state.freeIntervalList = some maxSimulationTime) ?_ ?_
  · intro state starts
    rw [show state = _ from starts]
    exact ⟨⟨Nat.le_refl _, Nat.zero_le _, Nat.le_refl _, trivial⟩, by simp, rfl⟩
  · rintro state request next ⟨ordered, nonempty, last⟩ ⟨_, inTime, room⟩ stepped
    obtain ⟨_, same⟩ | ⟨delay, list, found, fromList, short, _, isNext, _⟩ := step_cases stepped
    · rw [same]
      exact ⟨ordered, nonempty, last⟩
    · obtain ⟨fits, spares⟩ := room fromList
      have orderedList := (findSlot_spec ordered inTime fits found).1
      obtain ⟨nonemptyList, sameEnd⟩ := findSlot_lastEnd ordered inTime fits spares found
      rw [isNext]
      split
      case isTrue long =>
        have several : 1 < list.length := by
          have positive := List.length_pos_iff.mpr nonempty
          omega
        obtain ⟨nonemptyTail, tailEnd⟩ := lastEnd_tail several
        exact ⟨orderedList.tail, nonemptyTail, tailEnd.trans (sameEnd.trans last)⟩
      case isFalse => exact ⟨orderedList, nonemptyList, sameEnd.trans last⟩

theorem tidy_of_reach (reached : (machine config).Reach (Accommodates config) state) : Tidy state.freeIntervalList := by
  obtain ⟨ordered, _, last⟩ := reach_ordered reached
  exact ⟨ordered.pairwise, fun interval member => (ordered.bounds member).2.1, last⟩

/-! ### Requests of the least length -/

def Least (config : Config) (_ : State) (request : Request) : Prop :=
  request.processingTime = config.minProcessingTime ∧ request.pktTime + request.processingTime ≤ maxSimulationTime

theorem fits_of_long (long : ∀ interval ∈ list, interval.1 + processingTime ≤ interval.2) :
    Fits pktTime processingTime list := by
  induction list with
  | nil => trivial
  | cons interval rest ih =>
    obtain ⟨first, second⟩ := interval
    rw [Fits]
    split
    · trivial
    · split
      · exact long (first, second) List.mem_cons_self
      · exact ih fun interval member => long interval (List.mem_cons_of_mem _ member)

/-- The slots granted so far, apart from each other and from what is free. -/
structure Slots (config : Config) (state : State) : Prop where
  ordered : Ordered 0 state.freeIntervalList
  long : config.minProcessingTime ≤ maxSimulationTime →
    ∀ interval ∈ state.freeIntervalList, interval.1 + config.minProcessingTime ≤ interval.2
  free : ∀ slot ∈ state.granted, ∀ interval ∈ state.freeIntervalList, Disjoint interval slot
  granted : state.granted.Pairwise Disjoint

theorem Slots.step (slots : Slots config state) (least : Least config state request)
    (stepped : (machine config).step state request = .ok next) : Slots config next := by
  obtain ⟨isLeast, inTime⟩ := least
  obtain ⟨_, same⟩ | ⟨delay, list, found, _, _, _, isNext, isGranted⟩ := step_cases stepped
  · rw [same]
    exact slots
  · have small : config.minProcessingTime ≤ maxSimulationTime := by omega
    have fits : Fits request.pktTime request.processingTime state.freeIntervalList :=
      fits_of_long (isLeast ▸ slots.long small)
    obtain ⟨ordered, inside, grants⟩ := findSlot_spec slots.ordered inTime fits found
    rw [addTime_of_le (by omega)] at isGranted
    have subset : ∀ interval ∈ next.freeIntervalList, interval ∈ list := by
      intro interval member
      rw [isNext] at member
      split at member
      · exact List.mem_of_mem_tail member
      · exact member
    obtain ⟨interval, isFree, starts, ends⟩ := grants.inside
    constructor
    · rw [isNext]
      split
      · exact ordered.tail
      · exact ordered
    · intro _ interval member
      rcases grants.long interval (subset interval member) with old | long
      · exact slots.long small interval old
      · exact long
    · intro slot member interval isInterval
      rw [isGranted] at member
      rcases List.mem_cons.mp member with same | member
      · rw [same]
        exact grants.apart interval (subset interval isInterval)
      · obtain ⟨old, isOld, lower, upper⟩ := grants.within interval (subset interval isInterval)
        rcases slots.free slot member old isOld with before | behind
        · exact .inl (Nat.le_trans upper before)
        · exact .inr (Nat.le_trans behind lower)
    · rw [isGranted]
      refine .cons (fun slot member => ?_) slots.granted
      rcases slots.free slot member interval isFree with before | behind
      · exact .inl (Nat.le_trans ends before)
      · exact .inr (Nat.le_trans behind starts)

theorem granted_of_reach (reached : (machine config).Reach (Least config) state) : state.granted.Pairwise Disjoint := by
  have slots : Slots config state := by
    refine reached.invariant (Slots config) ?_ ?_
    · intro state starts
      rw [show state = _ from starts]
      refine ⟨⟨Nat.le_refl _, Nat.zero_le _, Nat.le_refl _, trivial⟩, ?_, by rintro _ ⟨⟩, .nil⟩
      intro small interval member
      rw [List.mem_singleton.mp member]
      omega
    · intro state request next slots least stepped
      exact slots.step least stepped
  exact slots.granted

/-- The list stays in order while every request is accommodated, and requests of the least length never share a slot. -/
theorem historyList_tidy (config : Config) :
    (∀ state, (machine config).Reach (Accommodates config) state → Tidy state.freeIntervalList) ∧
      ∀ state, (machine config).Reach (Least config) state → state.granted.Pairwise Disjoint :=
  ⟨fun _ => tidy_of_reach, fun _ => granted_of_reach⟩

/-- A request between two later ones of different lengths waits for its slot.  Two requests of the least length do not. -/
theorem historyList_tidy_twoRequests :
    (∃ state, (machine ⟨10, 100, true⟩).Reach (Accommodates ⟨10, 100, true⟩) state ∧
      state.freeIntervalList = [(30, 40), (55, maxSimulationTime)] ∧ Tidy state.freeIntervalList) ∧
    ∃ state, (machine ⟨10, 100, true⟩).Reach (Least ⟨10, 100, true⟩) state ∧ state.granted = [(0, 10), (20, 30)] ∧
      state.granted.Pairwise Disjoint := by
  constructor
  · have first : (machine ⟨10, 100, true⟩).Reach (Accommodates ⟨10, 100, true⟩)
        ⟨[(0, 20), (30, maxSimulationTime)], [0], [(20, 30)]⟩ :=
      .step ⟨20, 10⟩ (.initial rfl) (by simp [Accommodates, Fits, SparesLast, maxSimulationTime]) rfl
    have second : (machine ⟨10, 100, true⟩).Reach (Accommodates ⟨10, 100, true⟩)
        ⟨[(0, 20), (30, 40), (55, maxSimulationTime)], [0, 0], [(40, 55), (20, 30)]⟩ :=
      .step ⟨40, 15⟩ first (by simp [Accommodates, Fits, SparesLast, maxSimulationTime]) rfl
    have third : (machine ⟨10, 100, true⟩).Reach (Accommodates ⟨10, 100, true⟩)
        ⟨[(10, 20), (30, 40), (55, maxSimulationTime)], [0, 0, 0], [(0, 10), (40, 55), (20, 30)]⟩ :=
      .step ⟨0, 10⟩ second (by simp [Accommodates, Fits, SparesLast, maxSimulationTime]) rfl
    have waited : (machine ⟨10, 100, true⟩).Reach (Accommodates ⟨10, 100, true⟩)
        ⟨[(30, 40), (55, maxSimulationTime)], [5, 0, 0, 0], [(10, 20), (0, 10), (40, 55), (20, 30)]⟩ :=
      .step ⟨5, 10⟩ third (by simp [Accommodates, Fits, SparesLast, maxSimulationTime]) rfl
    exact ⟨_, waited, rfl, (historyList_tidy _).1 _ waited⟩
  obtain ⟨state, ran, granted⟩ : ∃ state, (machine ⟨10, 100, true⟩).run ⟨[(0, maxSimulationTime)], [], []⟩
      [⟨20, 10⟩, ⟨0, 10⟩] = .ok state ∧ state.granted = [(0, 10), (20, 30)] := ⟨_, rfl, rfl⟩
  have allowed : ∀ request ∈ [(⟨20, 10⟩ : Request), ⟨0, 10⟩], ∀ state, Least ⟨10, 100, true⟩ state request := by
    simp [Least, maxSimulationTime]
  have reached := Machine.Reach.run (.initial rfl) allowed ran
  exact ⟨state, reached, granted, (historyList_tidy _).2 state reached⟩

/-- A request that waits for an interval shorter than its processing time turns the interval around. -/
theorem historyList_inverted :
    ∃ state, (machine ⟨10, 100, true⟩).run ⟨[(0, maxSimulationTime)], [], []⟩ [⟨20, 10⟩, ⟨0, 10⟩, ⟨0, 15⟩] = .ok state ∧
      state.freeIntervalList = [(25, 20), (30, maxSimulationTime)] ∧ ¬Tidy state.freeIntervalList := by
  obtain ⟨state, ran, list⟩ : ∃ state, (machine ⟨10, 100, true⟩).run ⟨[(0, maxSimulationTime)], [], []⟩
      [⟨20, 10⟩, ⟨0, 10⟩, ⟨0, 15⟩] = .ok state ∧ state.freeIntervalList = [(25, 20), (30, maxSimulationTime)] :=
    ⟨_, rfl, rfl⟩
  refine ⟨state, ran, list, ?_⟩
  intro tidy
  have inverted := tidy.proper (25, 20) (by simp [list])
  simp at inverted

end HistoryList

end Sniper.Performance

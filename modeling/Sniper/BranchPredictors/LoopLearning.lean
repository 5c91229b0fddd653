import Sniper.BranchPredictors.LoopBranchPredictor
import Mathlib.Data.List.Induction

/-! How a `LoopBranchPredictor` learns a branch that ends a loop after the same number of equal outcomes every time. -/

namespace Sniper.BranchPredictors

namespace LoopBranchPredictor

/-- A branch is looked up and then updated with its outcome. -/
structure Execution where
  ip : UInt64
  actual : Bool
deriving DecidableEq, Repr

def execute (predictor : LoopBranchPredictor) (execution : Execution) : LoopBranchPredictor :=
  (predictor.lookup execution.ip).2.update execution.actual execution.ip

def run (predictor : LoopBranchPredictor) (executions : List Execution) : LoopBranchPredictor := executions.foldl execute predictor

/-- The outcome at a position of the loop: the usual one `length` times, then the opposite one. -/
def outcome (length : Nat) (usual : Bool) (position : Nat) : Bool := if position = length then !usual else usual

/-- The position of the loop before an execution, with `count` executions before it. -/
def position (length phase count : Nat) : Nat := (phase + count) % (length + 1)

def executed (ip : UInt64) (executions : List Execution) : Nat := executions.countP fun execution => execution.ip = ip

def ended (usual : Bool) (ip : UInt64) (executions : List Execution) : Nat :=
  executions.countP fun execution => execution.ip = ip ∧ execution.actual = !usual

/-- The branch is alone at its index, and its outcomes follow the loop. -/
def Loops (length : Nat) (usual : Bool) (phase : Nat) (ip : UInt64) (executions : List Execution) : Prop :=
  ∀ before execution rest, executions = before ++ execution :: rest → (genIndexTag execution.ip).1 = (genIndexTag ip).1 →
    execution.ip = ip ∧ execution.actual = outcome length usual (position length phase (executed ip before))

/-! ### One update -/

namespace Entry

variable {entry : Entry} {actual : Bool}

theorem train_below (same : entry.predictor.predict = actual) (below : entry.count < entry.limit) :
    entry.train actual = { entry with count := entry.count + 1, previousActual := actual } := by
  have differ : entry.count ≠ entry.limit := UInt32.ne_of_lt below
  simp [train, sameDirection, predictionMatch, same, differ]

theorem train_beyond (same : entry.predictor.predict = actual) (full : entry.count = entry.limit) :
    entry.train actual =
      { entry with count := entry.count + 1, limit := entry.count + 1, enabled := false, previousActual := actual } := by
  simp [train, sameDirection, predictionMatch, same, full]

theorem train_turns (opposite : entry.predictor.predict = !actual) (again : entry.previousActual = actual) :
    entry.train actual =
      { entry with count := 1, limit := 1, enabled := false, predictor := entry.predictor.update actual, previousActual := actual } := by
  simp [train, opposite, again]

theorem train_enables (opposite : entry.predictor.predict = !actual) (changed : entry.previousActual = !actual)
    (disabled : entry.enabled = false) :
    entry.train actual = { entry with count := 0, enabled := true, previousActual := actual } := by
  simp [train, opposite, changed, disabled]

theorem train_ends (opposite : entry.predictor.predict = !actual) (changed : entry.previousActual = !actual)
    (enabled : entry.enabled = true) (full : entry.count = entry.limit) :
    entry.train actual = { entry with count := 0, previousActual := actual } := by
  simp [train, sameDirection, predictionMatch, opposite, changed, enabled, full]

/-! ### Phases of learning -/

/-- The direction is right; the first run of the loop is counted from where it was found. -/
structure Climbing (length : Nat) (usual : Bool) (position : Nat) (entry : Entry) : Prop where
  direction : entry.predictor.predict = usual
  previous : entry.previousActual = usual
  disabled : entry.enabled = false
  counted : entry.count.toNat ≤ position
  within : entry.count.toNat ≤ entry.limit.toNat
  limited : entry.limit.toNat ≤ length

structure Counting (length : Nat) (usual : Bool) (position : Nat) (entry : Entry) : Prop where
  direction : entry.predictor.predict = usual
  previous : 0 < position → entry.previousActual = usual
  counted : entry.count.toNat = position
  within : position ≤ entry.limit.toNat
  limited : entry.limit.toNat ≤ length
  /-- The entry is disabled where it has counted beyond the old limit. -/
  beyond : entry.enabled = false → entry.limit.toNat = position ∧ 0 < position

structure Learned (length : Nat) (usual : Bool) (position : Nat) (entry : Entry) : Prop where
  direction : entry.predictor.predict = usual
  previous : 0 < position → entry.previousActual = usual
  enabled : entry.enabled = true
  counted : entry.count.toNat = position
  limited : entry.limit.toNat = length

structure Started (actual : Bool) (entry : Entry) : Prop where
  direction : entry.predictor.predict = actual
  previous : entry.previousActual = actual
  disabled : entry.enabled = false
  counted : entry.count = 1
  limited : entry.limit = 1

/-- After the end of a loop that it began with, the entry has seen the usual outcome once and predicts the other one. -/
structure Misled (usual : Bool) (entry : Entry) : Prop where
  direction : entry.predictor.predict = !usual
  previous : entry.previousActual = usual
  enabled : entry.enabled = true
  counted : entry.count = 0
  limited : entry.limit = 1

/-- What is known of an entry before the outcome at a position, after some ends of the loop. -/
inductive Progress (length : Nat) (usual : Bool) (position ends : Nat) (entry : Entry) : Prop where
  | climbing (early : ends ≤ 1) (some : 0 < position) (climbing : Climbing length usual position entry)
  | counting (early : ends ≤ 2) (counting : Counting length usual position entry)
  | learned (learned : Learned length usual position entry)
  | ended (early : ends ≤ 1) (first : position = 0) (started : Started (!usual) entry)
  | misled (early : ends ≤ 1) (second : position = 1) (longer : 1 < length) (misled : Misled usual entry)
  /-- A loop of one usual outcome and one opposite one is learned the other way round. -/
  | swapped (one : length = 1) (learned : Learned 1 (!usual) (1 - position) entry)

section Phases

variable {length place ends : Nat} {usual : Bool}

theorem toNat_add_one {count : UInt32} (small : count.toNat < 2 ^ 32 - 1) : (count + 1).toNat = count.toNat + 1 := by
  have one : (1 : UInt32).toNat = 1 := rfl
  rw [UInt32.toNat_add, one]
  omega

theorem below_or_full (within : entry.count.toNat ≤ entry.limit.toNat) : entry.count < entry.limit ∨ entry.count = entry.limit := by
  rcases Nat.lt_or_eq_of_le within with below | full
  · exact .inl (UInt32.lt_iff_toNat_lt.mpr below)
  · exact .inr (UInt32.toNat_inj.mp full)

theorem Climbing.goes_on (climbing : Climbing length usual place entry) (small : length < 2 ^ 32 - 1) (inside : place < length) :
    Climbing length usual (place + 1) (entry.train usual) := by
  have next : (entry.count + 1).toNat = entry.count.toNat + 1 := toNat_add_one (by have := climbing.counted; omega)
  have counted := climbing.counted
  rcases below_or_full climbing.within with below | full
  · have order := UInt32.lt_iff_toNat_lt.mp below
    rw [train_below climbing.direction below]
    exact ⟨climbing.direction, rfl, climbing.disabled, by dsimp only; omega, by dsimp only; omega, climbing.limited⟩
  · rw [train_beyond climbing.direction full]
    exact ⟨climbing.direction, rfl, rfl, by dsimp only; omega, Nat.le_refl _, by dsimp only; omega⟩

theorem Climbing.at_end (climbing : Climbing length usual place entry) : Counting length usual 0 (entry.train !usual) := by
  have direction : entry.predictor.predict = !!usual := by rw [climbing.direction, Bool.not_not]
  have previous : entry.previousActual = !!usual := by rw [climbing.previous, Bool.not_not]
  rw [train_enables direction previous climbing.disabled]
  exact ⟨climbing.direction, fun none => absurd none (Nat.lt_irrefl 0), rfl, Nat.zero_le _, climbing.limited,
    fun disabled => absurd disabled (by simp)⟩

theorem Counting.goes_on (counting : Counting length usual place entry) (small : length < 2 ^ 32 - 1) (inside : place < length) :
    Counting length usual (place + 1) (entry.train usual) := by
  have counted := counting.counted
  have next : (entry.count + 1).toNat = entry.count.toNat + 1 := toNat_add_one (by omega)
  rcases below_or_full (counted ▸ counting.within) with below | full
  · have order := UInt32.lt_iff_toNat_lt.mp below
    rw [train_below counting.direction below]
    refine ⟨counting.direction, fun _ => rfl, by dsimp only; omega, by dsimp only; omega, counting.limited, fun disabled => ?_⟩
    have beyond := counting.beyond disabled
    omega
  · rw [train_beyond counting.direction full]
    exact ⟨counting.direction, fun _ => rfl, by dsimp only; omega, by dsimp only; omega, by dsimp only; omega,
      fun _ => ⟨by dsimp only; omega, Nat.succ_pos _⟩⟩

theorem Counting.at_end (counting : Counting length usual length entry) (some : 0 < length) :
    Learned length usual 0 (entry.train !usual) := by
  have direction : entry.predictor.predict = !!usual := by rw [counting.direction, Bool.not_not]
  have previous : entry.previousActual = !!usual := by rw [counting.previous some, Bool.not_not]
  have limited : entry.limit.toNat = length := Nat.le_antisymm counting.limited counting.within
  cases enabled : entry.enabled with
  | true =>
    have full : entry.count = entry.limit := UInt32.toNat_inj.mp (by rw [counting.counted, limited])
    rw [train_ends direction previous enabled full]
    exact ⟨counting.direction, fun none => absurd none (Nat.lt_irrefl 0), enabled, rfl, limited⟩
  | false =>
    rw [train_enables direction previous enabled]
    exact ⟨counting.direction, fun none => absurd none (Nat.lt_irrefl 0), rfl, rfl, limited⟩

theorem Learned.goes_on (learned : Learned length usual place entry) (small : length < 2 ^ 32 - 1) (inside : place < length) :
    Learned length usual (place + 1) (entry.train usual) := by
  have counted := learned.counted
  have limited := learned.limited
  have next : (entry.count + 1).toNat = entry.count.toNat + 1 := toNat_add_one (by omega)
  have below : entry.count < entry.limit := UInt32.lt_iff_toNat_lt.mpr (by omega)
  rw [train_below learned.direction below]
  exact ⟨learned.direction, fun _ => rfl, learned.enabled, by dsimp only; omega, limited⟩

theorem Learned.at_end (learned : Learned length usual length entry) (some : 0 < length) :
    Learned length usual 0 (entry.train !usual) := by
  have direction : entry.predictor.predict = !!usual := by rw [learned.direction, Bool.not_not]
  have previous : entry.previousActual = !!usual := by rw [learned.previous some, Bool.not_not]
  have full : entry.count = entry.limit := UInt32.toNat_inj.mp (by rw [learned.counted, learned.limited])
  rw [train_ends direction previous learned.enabled full]
  exact ⟨learned.direction, fun none => absurd none (Nat.lt_irrefl 0), learned.enabled, rfl, learned.limited⟩

theorem Learned.prediction (learned : Learned length usual place entry) : entry.prediction = outcome length usual place := by
  have full : entry.count = entry.limit ↔ place = length := by
    rw [← UInt32.toNat_inj, learned.counted, learned.limited]
  rw [Entry.prediction, outcome, learned.direction]
  exact if_congr full rfl rfl

theorem Started.climbing (started : Started usual entry) (inside : 0 < length) (some : 0 < place) :
    Climbing length usual place entry := by
  have one : (1 : UInt32).toNat = 1 := rfl
  refine ⟨started.direction, started.previous, started.disabled, ?_, ?_, ?_⟩
  · rw [started.counted, one]
    exact some
  · exact Nat.le_of_eq (by rw [started.counted, started.limited])
  · rw [started.limited, one]
    exact inside

theorem Started.misled (started : Started (!usual) entry) : Misled usual (entry.train usual) := by
  rw [train_enables started.direction started.previous started.disabled]
  exact ⟨started.direction, rfl, rfl, rfl, started.limited⟩

theorem Misled.turns (misled : Misled usual entry) (longer : 1 < length) : Climbing length usual 2 (entry.train usual) := by
  rw [train_turns misled.direction misled.previous]
  have one : (1 : UInt32).toNat = 1 := rfl
  exact ⟨SaturatingPredictor.predict_update _ _, rfl, rfl, by dsimp only; omega, Nat.le_refl _, Nat.le_of_lt longer⟩

theorem Misled.learned (misled : Misled usual entry) : Learned 1 (!usual) 0 entry := by
  refine ⟨misled.direction, fun none => absurd none (Nat.lt_irrefl 0), misled.enabled, ?_, ?_⟩
  · rw [misled.counted]
    rfl
  · rw [misled.limited]
    rfl

def after (length place : Nat) : Nat := if place = length then 0 else place + 1

theorem Progress.next (progress : Progress length usual place ends entry) (some : 0 < length) (small : length < 2 ^ 32 - 1)
    (inside : place ≤ length) :
    Progress length usual (after length place) (ends + if place = length then 1 else 0) (entry.train (outcome length usual place)) := by
  rw [after, outcome]
  by_cases last : place = length
  · subst last
    simp only [↓reduceIte]
    cases progress with
    | climbing early _ climbing => exact .counting (Nat.succ_le_succ early) climbing.at_end
    | counting _ counting => exact .learned (counting.at_end some)
    | learned learned => exact .learned (learned.at_end some)
    | ended _ first _ => omega
    | misled _ second longer _ => omega
    | swapped one learned =>
      subst one
      exact .swapped rfl (learned.goes_on (by decide) Nat.one_pos)
  · have below : place < length := Nat.lt_of_le_of_ne inside last
    simp only [if_neg last, Nat.add_zero]
    cases progress with
    | climbing early _ climbing => exact .climbing early (Nat.succ_pos _) (climbing.goes_on small below)
    | counting early counting => exact .counting early (counting.goes_on small below)
    | learned learned => exact .learned (learned.goes_on small below)
    | ended early first started =>
      subst first
      rcases Nat.lt_or_eq_of_le some with longer | one
      · exact .misled early rfl longer started.misled
      · exact .swapped one.symm started.misled.learned
    | misled early second longer misled =>
      subst second
      exact .climbing early (Nat.succ_pos _) (misled.turns longer)
    | swapped one learned =>
      subst one
      obtain rfl : place = 0 := by omega
      have ends := learned.at_end Nat.one_pos
      rw [Bool.not_not] at ends
      exact .swapped rfl ends

theorem Progress.use (progress : Progress length usual place ends entry) (lru : UInt64) :
    Progress length usual place ends { entry with lru := lru } := by
  cases progress with
  | climbing early some climbing =>
    obtain ⟨direction, previous, disabled, counted, within, limited⟩ := climbing
    exact .climbing early some ⟨direction, previous, disabled, counted, within, limited⟩
  | counting early counting =>
    obtain ⟨direction, previous, counted, within, limited, beyond⟩ := counting
    exact .counting early ⟨direction, previous, counted, within, limited, beyond⟩
  | learned learned =>
    obtain ⟨direction, previous, enabled, counted, limited⟩ := learned
    exact .learned ⟨direction, previous, enabled, counted, limited⟩
  | ended early first started =>
    obtain ⟨direction, previous, disabled, counted, limited⟩ := started
    exact .ended early first ⟨direction, previous, disabled, counted, limited⟩
  | misled early second longer misled =>
    obtain ⟨direction, previous, enabled, counted, limited⟩ := misled
    exact .misled early second longer ⟨direction, previous, enabled, counted, limited⟩
  | swapped one learned =>
    obtain ⟨direction, previous, enabled, counted, limited⟩ := learned
    exact .swapped one ⟨direction, previous, enabled, counted, limited⟩

theorem Progress.predicts (progress : Progress length usual place ends entry) (inside : place ≤ length) (three : 3 ≤ ends) :
    entry.enabled = true ∧ entry.prediction = outcome length usual place := by
  cases progress with
  | climbing early => omega
  | counting early => omega
  | learned learned => exact ⟨learned.enabled, learned.prediction⟩
  | ended early => omega
  | misled early => omega
  | swapped one learned =>
    subst one
    refine ⟨learned.enabled, ?_⟩
    rw [learned.prediction, outcome, outcome]
    rcases Nat.le_one_iff_eq_zero_or_eq_one.mp inside with rfl | rfl
    · simp
    · simp

theorem Started.progress (started : Started (outcome length usual place) entry) (some : 0 < length) :
    Progress length usual (after length place) (if place = length then 1 else 0) entry := by
  rw [after]
  rw [outcome] at started
  by_cases last : place = length
  · simp only [if_pos last] at started ⊢
    exact .ended (Nat.le_refl 1) rfl started
  · simp only [if_neg last] at started ⊢
    exact .climbing (Nat.zero_le 1) (Nat.succ_pos _) (started.climbing some (Nat.succ_pos _))

theorem started_initial (actual : Bool) : Started actual (Entry.initial.train actual) := by
  cases actual
  · exact ⟨by decide, by decide, by decide, by decide, by decide⟩
  · exact ⟨by decide, by decide, by decide, by decide, by decide⟩

theorem started_allocate (tag : Fin 64) (actual : Bool) : Started actual (Entry.initial.allocate tag actual) :=
  ⟨SaturatingPredictor.predict_reset 1 actual, rfl, rfl, rfl, rfl⟩

end Phases

end Entry

/-! ### Executions -/

section Executions

variable {predictor : LoopBranchPredictor} {execution : Execution} {entry : Entry} {others : List Entry} {ip : UInt64}

theorem lookup_ways_other {index : Fin 64} (elsewhere : (genIndexTag ip).1 ≠ index) :
    (predictor.lookup ip).2.ways index = predictor.ways index := by
  rw [lookup]
  cases predictor.hitWay ip with
  | none => rfl
  | some way => exact use_ways_other (Ne.symm elsewhere)

theorem update_ways_other {index : Fin 64} (actual : Bool) (elsewhere : (genIndexTag ip).1 ≠ index) :
    (predictor.update actual ip).ways index = predictor.ways index := by
  rw [update]
  cases predictor.tagWay ip with
  | none => exact use_ways_other (Ne.symm elsewhere)
  | some way => exact use_ways_other (Ne.symm elsewhere)

theorem lookup_head (ways : predictor.ways (genIndexTag ip).1 = entry :: others) :
    ∃ lru rest, (predictor.lookup ip).2.ways (genIndexTag ip).1 = { entry with lru := lru } :: rest := by
  rw [lookup]
  cases predictor.hitWay ip with
  | none => exact ⟨entry.lru, others, ways⟩
  | some way =>
    dsimp only
    rw [use_ways_same, ways]
    cases way with
    | zero => exact ⟨predictor.lruUseCount, others, rfl⟩
    | succ way => exact ⟨entry.lru, _, rfl⟩

theorem update_head (actual : Bool) (ways : predictor.ways (genIndexTag ip).1 = entry :: others) (tagged : entry.tag = (genIndexTag ip).2) :
    (predictor.update actual ip).ways (genIndexTag ip).1 = { entry.train actual with lru := predictor.lruUseCount } :: others := by
  have found : predictor.tagWay ip = some 0 := by
    rw [tagWay, ways, List.findIdx?_cons]
    simp [tagged]
  rw [update, found]
  dsimp only
  rw [use_ways_same, ways]
  rfl

theorem leastRecent_replicate (count way lruWay : Nat) (lru : UInt64) :
    leastRecent (List.replicate count { Entry.initial with lru := lru }) way lruWay lru = lruWay := by
  induction count generalizing way with
  | zero => rfl
  | succ count ih =>
    rw [List.replicate_succ, leastRecent, if_neg (UInt64.lt_irrefl lru)]
    exact ih (way + 1)

theorem execute_initial {count : Nat} (actual : Bool) (ways : predictor.ways (genIndexTag ip).1 = List.replicate (count + 1) Entry.initial) :
    ∃ entry others, (predictor.execute ⟨ip, actual⟩).ways (genIndexTag ip).1 = entry :: others ∧
      entry.tag = (genIndexTag ip).2 ∧ Entry.Started actual entry := by
  have head : predictor.ways (genIndexTag ip).1 = Entry.initial :: List.replicate count Entry.initial := by
    rw [ways, List.replicate_succ]
  have missed : predictor.hitWay ip = none := by
    rw [hitWay, ways, List.findIdx?_eq_none_iff]
    intro entry member
    rw [List.eq_of_mem_replicate member]
    rfl
  have looked : (predictor.lookup ip).2 = predictor := by rw [lookup, missed]
  rw [execute, looked]
  by_cases zero : (0 : Fin 64) = (genIndexTag ip).2
  · rw [update_head actual head zero]
    obtain ⟨direction, previous, disabled, counted, limited⟩ := Entry.started_initial actual
    refine ⟨_, _, rfl, ?_, ⟨direction, previous, disabled, counted, limited⟩⟩
    exact (train_tag Entry.initial actual).trans zero
  · have absent : predictor.tagWay ip = none := by
      rw [tagWay, ways, List.findIdx?_eq_none_iff]
      intro entry member
      rw [List.eq_of_mem_replicate member]
      exact beq_eq_false_iff_ne.mpr zero
    have first : predictor.lruWay ip = 0 := by
      rw [lruWay, head]
      exact leastRecent_replicate (count + 1) 0 0 0
    obtain ⟨direction, previous, disabled, counted, limited⟩ := Entry.started_allocate (genIndexTag ip).2 actual
    rw [update, absent, first]
    dsimp only
    rw [use_ways_same, head]
    exact ⟨_, _, rfl, rfl, ⟨direction, previous, disabled, counted, limited⟩⟩

/-- The index of the branch is untouched, or its first entry is on the way to learn the loop. -/
inductive Learning (numWays length : Nat) (usual : Bool) (phase : Nat) (ip : UInt64) (predictor : LoopBranchPredictor)
    (executions : List Execution) : Prop where
  | untouched (none : executed ip executions = 0) (noEnd : ended usual ip executions = 0)
      (ways : predictor.ways (genIndexTag ip).1 = List.replicate numWays Entry.initial)
  | started (entry : Entry) (others : List Entry) (ways : predictor.ways (genIndexTag ip).1 = entry :: others)
      (tagged : entry.tag = (genIndexTag ip).2)
      (progress : entry.Progress length usual (position length phase (executed ip executions)) (ended usual ip executions))

variable {numWays length phase : Nat} {usual : Bool} {executions : List Execution}

theorem executed_concat : executed ip (executions ++ [execution]) = executed ip executions + if execution.ip = ip then 1 else 0 := by
  simp [executed, List.countP_singleton]

theorem ended_concat : ended usual ip (executions ++ [execution]) =
    ended usual ip executions + if execution.ip = ip ∧ execution.actual = !usual then 1 else 0 := by
  simp [ended, List.countP_singleton]

theorem position_le (length phase count : Nat) : position length phase count ≤ length :=
  Nat.le_of_lt_succ (Nat.mod_lt _ (Nat.succ_pos _))

theorem position_succ (length phase count : Nat) :
    position length phase (count + 1) = Entry.after length (position length phase count) := by
  have bound := position_le length phase count
  have step : position length phase (count + 1) = (position length phase count + 1) % (length + 1) := by
    rw [position, position, Nat.mod_add_mod, Nat.add_assoc]
  rw [step, Entry.after]
  split
  case isTrue last => rw [last, Nat.mod_self]
  case isFalse other => exact Nat.mod_eq_of_lt (by omega)

theorem outcome_opposite {place : Nat} : outcome length usual place = !usual ↔ place = length := by
  rw [outcome]
  split
  case isTrue last => exact ⟨fun _ => last, fun _ => rfl⟩
  case isFalse other => exact ⟨fun same => by cases usual <;> simp at same, fun last => absurd last other⟩

theorem Learning.elsewhere (learning : Learning numWays length usual phase ip predictor executions)
    (elsewhere : (genIndexTag execution.ip).1 ≠ (genIndexTag ip).1) :
    Learning numWays length usual phase ip (predictor.execute execution) (executions ++ [execution]) := by
  have another : execution.ip ≠ ip := fun same => elsewhere (congrArg (fun ip => (genIndexTag ip).1) same)
  have unchanged : (predictor.execute execution).ways (genIndexTag ip).1 = predictor.ways (genIndexTag ip).1 := by
    rw [execute, update_ways_other _ elsewhere, lookup_ways_other elsewhere]
  have counted : executed ip (executions ++ [execution]) = executed ip executions := by
    rw [executed_concat, if_neg another, Nat.add_zero]
  have ends : ended usual ip (executions ++ [execution]) = ended usual ip executions := by
    rw [ended_concat, if_neg fun both => another both.1, Nat.add_zero]
  cases learning with
  | untouched none noEnd ways => exact .untouched (counted.trans none) (ends.trans noEnd) (unchanged.trans ways)
  | started entry others ways tagged progress =>
    exact .started entry others (unchanged.trans ways) tagged (by rwa [counted, ends])

theorem Learning.next (learning : Learning numWays length usual phase ip predictor executions) (ways : 0 < numWays)
    (some : 0 < length) (small : length < 2 ^ 32 - 1) (same : execution.ip = ip)
    (actual : execution.actual = outcome length usual (position length phase (executed ip executions))) :
    Learning numWays length usual phase ip (predictor.execute execution) (executions ++ [execution]) := by
  obtain ⟨branch, outcome⟩ := execution
  subst same
  dsimp only at actual
  subst actual
  have counted : executed branch (executions ++ [⟨branch, LoopBranchPredictor.outcome length usual (position length phase (executed branch executions))⟩]) =
      executed branch executions + 1 := by
    rw [executed_concat, if_pos rfl]
  have ends : ended usual branch (executions ++ [⟨branch, LoopBranchPredictor.outcome length usual (position length phase (executed branch executions))⟩]) =
      ended usual branch executions + if position length phase (executed branch executions) = length then 1 else 0 := by
    rw [ended_concat]
    simp only [true_and, outcome_opposite]
  have inside := position_le length phase (executed branch executions)
  cases learning with
  | untouched none noEnd initial =>
    obtain ⟨count, rfl⟩ := Nat.exists_eq_succ_of_ne_zero (Nat.ne_of_gt ways)
    obtain ⟨entry, others, head, tagged, started⟩ :=
      execute_initial (LoopBranchPredictor.outcome length usual (position length phase (executed branch executions))) initial
    refine .started entry others head tagged ?_
    rw [counted, ends, position_succ, noEnd, Nat.zero_add]
    exact started.progress some
  | started entry others head tagged progress =>
    obtain ⟨lru, rest, looked⟩ := lookup_head head
    have updated := update_head (LoopBranchPredictor.outcome length usual (position length phase (executed branch executions))) looked tagged
    refine .started _ _ updated ?_ ?_
    · exact (train_tag _ _).trans tagged
    · rw [counted, ends, position_succ]
      exact ((progress.use lru).next some small inside).use _

theorem learning_run (ways : 0 < numWays) (some : 0 < length) (small : length < 2 ^ 32 - 1)
    (loops : Loops length usual phase ip executions) (before rest : List Execution) (split : executions = before ++ rest) :
    Learning numWays length usual phase ip ((create numWays).run before) before := by
  induction before using List.reverseRecOn generalizing rest with
  | nil => exact .untouched rfl rfl rfl
  | append_singleton before execution ih =>
    rw [List.append_assoc, List.singleton_append] at split
    have learning := ih (execution :: rest) split
    have ran : (create numWays).run (before ++ [execution]) = ((create numWays).run before).execute execution := by
      rw [run, run, List.foldl_append]
      rfl
    rw [ran]
    by_cases here : (genIndexTag execution.ip).1 = (genIndexTag ip).1
    · obtain ⟨same, actual⟩ := loops before execution rest split here
      exact learning.next ways some small same actual
    · exact learning.elsewhere here

/-- A branch that is alone at its index and ends a loop after the same number of equal outcomes every time is predicted
once three loops have ended. -/
theorem lookup_learns (numWays length : Nat) (usual : Bool) (phase : Nat) (ip : UInt64) (executions : List Execution)
    (ways : 1 ≤ numWays) (some : 1 ≤ length) (small : length < 2 ^ 32 - 1) (loops : Loops length usual phase ip executions) :
    ∀ before execution rest, executions = before ++ execution :: rest → execution.ip = ip → 3 ≤ ended usual ip before →
      (((create numWays).run before).lookup ip).1.hit = true ∧
      (((create numWays).run before).lookup ip).1.prediction = execution.actual := by
  intro before execution rest split same three
  obtain ⟨-, actual⟩ := loops before execution rest split (by rw [same])
  have inside := position_le length phase (executed ip before)
  cases learning_run ways some small loops before _ split with
  | untouched none noEnd => omega
  | started entry others head tagged progress =>
    obtain ⟨enabled, predicted⟩ := progress.predicts inside three
    have hits : ((create numWays).run before).hitWay ip = .some 0 := by
      rw [hitWay, head, List.findIdx?_cons]
      simp [enabled, tagged]
    rw [lookup, hits, actual]
    simp [head, predicted]

def pattern (length : Nat) (usual : Bool) (phase : Nat) (ip : UInt64) (count : Nat) : List Execution :=
  (List.range count).map fun executed => ⟨ip, outcome length usual (position length phase executed)⟩

theorem loops_pattern (length : Nat) (usual : Bool) (phase : Nat) (ip : UInt64) (count : Nat) :
    Loops length usual phase ip (pattern length usual phase ip count) := by
  intro before execution rest split _
  have found : (pattern length usual phase ip count)[before.length]? = some execution := by simp [split]
  have all : executed ip before = before.length := by
    rw [executed, List.countP_eq_length]
    intro other member
    have inside : other ∈ pattern length usual phase ip count := split ▸ List.mem_append_left _ member
    obtain ⟨_, _, rfl⟩ := List.mem_map.mp inside
    exact decide_eq_true rfl
  obtain ⟨index, within, rfl⟩ : ∃ index, (List.range count)[before.length]? = some index ∧
      ⟨ip, outcome length usual (position length phase index)⟩ = execution := by simpa [pattern] using found
  have place : before.length = index := by
    obtain ⟨_, same⟩ := List.getElem?_eq_some_iff.mp within
    rwa [List.getElem_range] at same
  rw [all, place]
  exact ⟨rfl, rfl⟩

/-- Two taken outcomes and one that is not, three times: the next lookup hits and predicts a taken branch. -/
theorem lookup_learns_twoTaken :
    (((create 2).run (pattern 2 true 0 0x400 9)).lookup 0x400).1.hit = true ∧
    (((create 2).run (pattern 2 true 0 0x400 9)).lookup 0x400).1.prediction = true :=
  lookup_learns 2 2 true 0 0x400 (pattern 2 true 0 0x400 10) (by decide) (by decide) (by decide) (loops_pattern 2 true 0 0x400 10)
    (pattern 2 true 0 0x400 9) ⟨0x400, true⟩ [] (by decide) rfl (by decide)

end Executions

end LoopBranchPredictor

end Sniper.BranchPredictors

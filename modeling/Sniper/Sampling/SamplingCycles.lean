import Sniper.Sampling.PeriodicSampling
import Mathlib.Algebra.Ring.Nat
import Mathlib.Algebra.BigOperators.Group.List.Basic
import Mathlib.Data.UInt

/-! What `PeriodicSampling` requests from one detailed interval to the next, with random placement. -/

namespace Sniper.Sampling

def total (requests : List Request) : Nat := (requests.map fun request => request.length.toNat).sum

def Config.cycle (config : Config) : Nat := config.fastforwardInterval.toNat + config.warmupInterval.toNat

/-- From one detailed interval to the next, what is left of a cycle is requested, and the new offset; the offsets are inside the
cycle, so that the sum does not drift. -/
structure KeepsCycle (config : Config) (sampling : PeriodicSampling) : Prop where
  unwrapped : sampling.wrapped = false
  offset : ∀ offset ∈ sampling.offsets, offset.toNat < config.cycle
  request : ∀ request ∈ sampling.cycles.flatten ++ sampling.requested,
    0 < request.length ∧ request.length ≤ config.fastforwardSyncInterval
  interval : ∀ (index : Nat) requests, sampling.cycles[index]? = some requests →
    ∃ before after, sampling.offsets[index]? = some before ∧ sampling.offsets[index + 1]? = some after ∧
      total requests = config.cycle - before.toNat + after.toNat
  drift : ∀ count ≤ sampling.cycles.length,
    total (sampling.cycles.take count).flatten < count * config.cycle + config.cycle ∧
      count * config.cycle < total (sampling.cycles.take count).flatten + config.cycle

def Places (config : Config) (sampling : PeriodicSampling) (callback : Callback) : Prop :=
  sampling.fastforward = false ∧ sampling.randomStart = false ∧
    sampling.periodicLast + config.detailedInterval < callback.time

def Config.offset (config : Config) (random : UInt32) : Nat :=
  random.toNat * config.fastforwardSyncInterval.toNat % 2 ^ 64 % config.cycle

/-- What is left of the cycle and the new offset, together, are a 64-bit number. -/
def Fits (config : Config) (sampling : PeriodicSampling) (callback : Callback) : Prop :=
  Places config sampling callback → config.cycle - sampling.randomOffset.toNat + config.offset callback.random < 2 ^ 64

variable {config : Config} {sampling next : PeriodicSampling} {requests : List Request}

theorem Fits.of_forward {callback : Callback} (forward : sampling.fastforward = true) : Fits config sampling callback :=
  fun places => absurd (forward.symm.trans places.1) (by simp)

@[simp] theorem total_nil : total [] = 0 := rfl

@[simp] theorem total_append (first second : List Request) : total (first ++ second) = total first + total second := by
  simp [total]

@[simp] theorem total_singleton (request : Request) : total [request] = request.length.toNat := by
  simp [total]

/-! ## The invariant -/

/-- What is requested for an interval between two offsets: the warmup comes on top of what the offsets leave. -/
def Requested (config : Config) (offsets : List UInt64) (index amount : Nat) : Prop :=
  ∃ before after, offsets[index]? = some before ∧ offsets[index + 1]? = some after ∧
    amount = config.cycle - before.toNat + after.toNat + config.warmupInterval.toNat

structure Detailed (sampling : PeriodicSampling) : Prop where
  requested : sampling.requested = []
  fastforwardTimeRemaining : sampling.fastforwardTimeRemaining = 0
  warmupTimeRemaining : sampling.warmupTimeRemaining = 0
  length : sampling.offsets.length = sampling.cycles.length + 1

/-- What has been requested and what remains, together, are what the interval asks for. -/
structure UnderWay (config : Config) (sampling : PeriodicSampling) : Prop where
  length : sampling.offsets.length = sampling.cycles.length + 2
  amount : Requested config sampling.offsets sampling.cycles.length
    (total sampling.requested + sampling.fastforwardTimeRemaining.toNat + sampling.warmupTimeRemaining.toNat)

structure Steady (config : Config) (sampling : PeriodicSampling) : Prop where
  sync : 0 < config.fastforwardSyncInterval
  unwrapped : sampling.wrapped = false
  offset : ∀ offset ∈ sampling.offsets, offset.toNat < config.cycle
  current : sampling.offsets.getLast? = some sampling.randomOffset
  request : ∀ request ∈ sampling.cycles.flatten ++ sampling.requested,
    0 < request.length ∧ request.length ≤ config.fastforwardSyncInterval
  interval : ∀ (index : Nat) requests, sampling.cycles[index]? = some requests →
    Requested config sampling.offsets index (total requests)

structure Invariant (config : Config) (sampling : PeriodicSampling) : Prop where
  steady : Steady config sampling
  phase : if sampling.fastforward = true then UnderWay config sampling else Detailed sampling

/-! ## Steps -/

theorem stdMin_request {remaining sync : UInt64} (some_ : 0 < remaining) (positive : 0 < sync) :
    0 < stdMin remaining sync ∧ stdMin remaining sync ≤ sync ∧ ¬remaining < stdMin remaining sync ∧
      (stdMin remaining sync).toNat + (remaining - stdMin remaining sync).toNat = remaining.toNat := by
  unfold stdMin
  split
  case isTrue shorter =>
    have least := UInt64.le_of_lt shorter
    refine ⟨positive, UInt64.le_refl sync, UInt64.not_lt.mpr least, ?_⟩
    rw [UInt64.toNat_sub_of_le _ _ least]
    have below := UInt64.le_iff_toNat_le.mp least
    omega
  case isFalse within =>
    refine ⟨some_, UInt64.not_lt.mp within, UInt64.not_lt.mpr (UInt64.le_refl remaining), ?_⟩
    rw [UInt64.sub_self]
    rfl

theorem stepFastForward_cases (positive : 0 < config.fastforwardSyncInterval) (time : UInt64) (sampling : PeriodicSampling) :
    (sampling.fastforwardTimeRemaining = 0 ∧ sampling.warmupTimeRemaining = 0 ∧
      sampling.stepFastForward config time = (true, sampling)) ∨
    ∃ request fastforward warmup isWarmup, 0 < request.length ∧ request.length ≤ config.fastforwardSyncInterval ∧
      request.length.toNat + fastforward.toNat + warmup.toNat =
        sampling.fastforwardTimeRemaining.toNat + sampling.warmupTimeRemaining.toNat ∧
      sampling.stepFastForward config time = (false,
        { sampling with
          fastforwardTimeRemaining := fastforward
          warmupTimeRemaining := warmup
          fastforward := true
          warmup := isWarmup
          requested := sampling.requested ++ [request] }) := by
  unfold PeriodicSampling.stepFastForward
  by_cases forward : 0 < sampling.fastforwardTimeRemaining
  · obtain ⟨some_, within, enough, split⟩ := stdMin_request forward positive
    let length := stdMin sampling.fastforwardTimeRemaining config.fastforwardSyncInterval
    refine .inr ⟨⟨time + length, false, length⟩, sampling.fastforwardTimeRemaining - length, sampling.warmupTimeRemaining, false,
      some_, within, congrArg (· + sampling.warmupTimeRemaining.toNat) split, ?_⟩
    simp only [forward, if_true, enough, if_false, PeriodicSampling.enableFastForward, decide_false, Bool.or_false]
    rfl
  · have noForward : sampling.fastforwardTimeRemaining = 0 := UInt64.toNat_inj.mp (by
      rw [UInt64.lt_iff_toNat_lt] at forward
      exact Nat.eq_zero_of_not_pos forward)
    by_cases warm : 0 < sampling.warmupTimeRemaining
    · obtain ⟨some_, within, enough, split⟩ := stdMin_request warm positive
      let length := stdMin sampling.warmupTimeRemaining config.fastforwardSyncInterval
      refine .inr ⟨⟨time + length, true, length⟩, sampling.fastforwardTimeRemaining, sampling.warmupTimeRemaining - length, true,
        some_, within, ?_, ?_⟩
      · rw [Nat.add_right_comm, Nat.add_comm, ← split]
      · simp only [forward, if_false, warm, if_true, enough, PeriodicSampling.enableFastForward, decide_false, Bool.or_false]
        rfl
    · have noWarm : sampling.warmupTimeRemaining = 0 := UInt64.toNat_inj.mp (by
        rw [UInt64.lt_iff_toNat_lt] at warm
        exact Nat.eq_zero_of_not_pos warm)
      exact .inl ⟨noForward, noWarm, by rw [if_neg forward, if_neg warm]⟩

theorem Steady.request_or_done (steady : Steady config sampling) (underWay : UnderWay config sampling) (time : UInt64) :
    (sampling.stepFastForward config time = (true, sampling) ∧ sampling.fastforwardTimeRemaining = 0 ∧
      sampling.warmupTimeRemaining = 0) ∨
    ∃ next, sampling.stepFastForward config time = (false, next) ∧ next.fastforward = true ∧ Steady config next ∧
      UnderWay config next := by
  obtain ⟨noForward, noWarm, done⟩ | ⟨request, fastforward, warmup, isWarmup, some_, within, split, stepped⟩ :=
    stepFastForward_cases steady.sync time sampling
  · exact .inl ⟨done, noForward, noWarm⟩
  · refine .inr ⟨_, stepped, rfl, ?_, underWay.length, ?_⟩
    · refine { steady with request := ?_ }
      intro other member
      rw [← List.append_assoc] at member
      obtain before | new := List.mem_append.mp member
      · exact steady.request other before
      · rw [List.mem_singleton.mp new]
        exact ⟨some_, within⟩
    · have amount := underWay.amount
      dsimp only
      rw [Nat.add_assoc, ← split] at amount
      rw [total_append, total_singleton, Nat.add_assoc, Nat.add_assoc]
      rw [Nat.add_assoc] at amount
      exact amount

theorem Requested.append {offsets : List UInt64} {index amount : Nat} (requested : Requested config offsets index amount)
    (offset : UInt64) : Requested config (offsets ++ [offset]) index amount := by
  obtain ⟨before, after, isBefore, isAfter, sum⟩ := requested
  refine ⟨before, after, ?_, ?_, sum⟩
  · rw [List.getElem?_append_left (List.getElem?_eq_some_iff.mp isBefore).1, isBefore]
  · rw [List.getElem?_append_left (List.getElem?_eq_some_iff.mp isAfter).1, isAfter]

theorem Invariant.settle (invariant : Invariant config sampling) (periodicLast detailedWarmup : UInt64) (randomStart : Bool) :
    Invariant config { sampling with
      periodicLast := periodicLast, detailedWarmupTimeRemaining := detailedWarmup, randomStart := randomStart } := by
  obtain ⟨steady, phase⟩ := invariant
  refine ⟨{ steady with }, ?_⟩
  cases forward : sampling.fastforward with
  | true =>
    rw [if_pos forward] at phase
    exact (if_pos rfl).symm ▸ ⟨phase.length, phase.amount⟩
  | false =>
    rw [if_neg (by simp [forward])] at phase
    exact (if_neg Bool.false_ne_true).symm ▸
      ⟨phase.requested, phase.fastforwardTimeRemaining, phase.warmupTimeRemaining, phase.length⟩

theorem Invariant.callbackFastForward (invariant : Invariant config sampling) (forward : sampling.fastforward = true)
    (time : UInt64) : Invariant config (sampling.callbackFastForward config time) := by
  obtain ⟨steady, phase⟩ := invariant
  rw [if_pos forward] at phase
  unfold PeriodicSampling.callbackFastForward
  obtain ⟨done, noForward, noWarm⟩ | ⟨next, stepped, isForward, steady', underWay⟩ := steady.request_or_done phase time
  · have amount := phase.amount
    rw [noForward, noWarm] at amount
    have length := phase.length
    have ended : Invariant config sampling.disableFastForward := by
      refine ⟨⟨steady.sync, steady.unwrapped, steady.offset, steady.current, ?_, ?_⟩, ?_⟩
      · intro request member
        refine steady.request request ?_
        simpa [PeriodicSampling.disableFastForward] using member
      · intro index requests there
        obtain before | last := Nat.lt_or_ge index sampling.cycles.length
        · refine steady.interval index requests ?_
          rw [← there]
          exact (List.getElem?_append_left before).symm
        · have inside := (List.getElem?_eq_some_iff.mp there).1
          have isLast : index = sampling.cycles.length := by
            simp only [PeriodicSampling.disableFastForward, List.length_append, List.length_singleton] at inside
            omega
          subst isLast
          have same : requests = sampling.requested := by
            simp only [PeriodicSampling.disableFastForward, List.getElem?_concat_length, Option.some.injEq] at there
            exact there.symm
          subst same
          exact amount
      · rw [if_neg (by simp [PeriodicSampling.disableFastForward])]
        refine ⟨rfl, noForward, noWarm, ?_⟩
        simp [PeriodicSampling.disableFastForward, length]
    simp only [done, if_true]
    split
    · exact ended.settle time config.detailedWarmupInterval _
    · exact ended.settle time _ _
  · simp only [stepped, Bool.false_eq_true, if_false]
    exact ⟨steady', (if_pos isForward).symm ▸ underWay⟩

/-! ## A new interval -/

theorem cycle_toNat (fits : config.cycle < 2 ^ 64) :
    (config.fastforwardInterval + config.warmupInterval).toNat = config.cycle := by
  rw [UInt64.toNat_add]
  exact Nat.mod_eq_of_lt fits

theorem offset_toNat (fits : config.cycle < 2 ^ 64) (random : UInt32) :
    ((random.toUInt64 * config.fastforwardSyncInterval) % (config.fastforwardInterval + config.warmupInterval)).toNat =
      config.offset random := by
  rw [UInt64.toNat_mod, UInt64.toNat_mul, cycle_toNat fits, Config.offset, UInt32.toNat_toUInt64]

theorem getElem?_of_getLast? {offsets : List UInt64} {offset : UInt64} {count : Nat} (last : offsets.getLast? = some offset)
    (length : offsets.length = count + 1) : offsets[count]? = some offset := by
  rw [List.getLast?_eq_getElem?, length] at last
  exact last

theorem Steady.placeInterval (steady : Steady config sampling) (detailed : Detailed sampling)
    (placement : config.randomPlacement = true) (fits : config.cycle < 2 ^ 64) {random : UInt32}
    (small : config.cycle - sampling.randomOffset.toNat + config.offset random < 2 ^ 64)
    (placed : sampling.placeInterval config random = .ok next) :
    Steady config { next with warmupTimeRemaining := config.warmupInterval } ∧
      UnderWay config { next with warmupTimeRemaining := config.warmupInterval } ∧ next.fastforwardTimeRemaining ≠ 0 := by
  rw [PeriodicSampling.placeInterval, if_pos placement] at placed
  dsimp only at placed
  split at placed
  case isTrue => cases placed
  case isFalse some_ =>
    have below := steady.offset _ (List.mem_of_getLast? steady.current)
    have cycle := cycle_toNat fits
    have drawn := offset_toNat fits random
    have inside : config.offset random < config.cycle := Nat.mod_lt _ (Nat.lt_of_le_of_lt (Nat.zero_le _) below)
    have length := detailed.length
    generalize (random.toUInt64 * config.fastforwardSyncInterval) % (config.fastforwardInterval + config.warmupInterval) = offset
      at placed drawn
    rw [← drawn] at small inside
    have ordered : sampling.randomOffset ≤ config.fastforwardInterval + config.warmupInterval := by
      rw [UInt64.le_iff_toNat_le, cycle]
      exact Nat.le_of_lt below
    have remaining : (config.fastforwardInterval + config.warmupInterval - sampling.randomOffset + offset).toNat =
        config.cycle - sampling.randomOffset.toNat + offset.toNat := by
      rw [UInt64.toNat_add, UInt64.toNat_sub_of_le _ _ ordered, cycle, Nat.mod_eq_of_lt small]
    cases placed
    refine ⟨⟨steady.sync, ?_, ?_, List.getLast?_concat, steady.request, ?_⟩, ⟨?_, ?_⟩, ?_⟩
    · have unwrapped : decide (config.fastforwardInterval + config.warmupInterval < sampling.randomOffset) = false :=
        decide_eq_false (UInt64.not_lt.mpr ordered)
      dsimp only
      rw [steady.unwrapped, unwrapped]
      rfl
    · intro other member
      obtain before | new := List.mem_append.mp member
      · exact steady.offset other before
      · rw [List.mem_singleton.mp new]
        exact inside
    · exact fun index requests there => (steady.interval index requests there).append offset
    · simp [length]
    · have here := getElem?_of_getLast? steady.current length
      have known : sampling.cycles.length < sampling.offsets.length := by omega
      refine ⟨sampling.randomOffset, offset, (List.getElem?_append_left known).trans here, ?_, ?_⟩
      · dsimp only
        rw [← length]
        exact List.getElem?_concat_length
      · dsimp only
        rw [detailed.requested, total_nil, Nat.zero_add, remaining]
    · intro zero
      have none_ := congrArg UInt64.toNat zero
      dsimp only at none_
      rw [remaining] at none_
      have isZero : (0 : UInt64).toNat = 0 := rfl
      omega

theorem Invariant.callbackDetailed (invariant : Invariant config sampling) (detailed : sampling.fastforward = false)
    (placement : config.randomPlacement = true) (cycle : config.cycle < 2 ^ 64) {callback : Callback}
    (fits : Fits config sampling callback)
    (stepped : sampling.callbackDetailed config callback.time callback.random = .ok next) : Invariant config next := by
  have phase := invariant.phase
  rw [if_neg (by simp [detailed])] at phase
  unfold PeriodicSampling.callbackDetailed at stepped
  split at stepped
  case isTrue =>
    split at stepped
    case isTrue =>
      cases stepped
      exact invariant
    case isFalse =>
      cases stepped
      exact invariant.settle callback.time _ false
  case isFalse started =>
    split at stepped
    case isTrue late =>
      split at stepped
      case isTrue => cases stepped
      case isFalse =>
        split at stepped
        case h_1 => cases stepped
        case h_2 middle placed =>
          have small := fits ⟨detailed, Bool.not_eq_true _ ▸ started, late⟩
          obtain ⟨steady, underWay, some_⟩ := invariant.steady.placeInterval phase placement cycle small placed
          obtain ⟨-, noForward, -⟩ | ⟨last, step, isForward, steady', underWay'⟩ :=
            steady.request_or_done underWay callback.time
          · exact absurd noForward some_
          · rw [step] at stepped
            simp only [Bool.false_eq_true, if_false, Except.ok.injEq] at stepped
            subst stepped
            have kept : Invariant config last := ⟨steady', (if_pos isForward).symm ▸ underWay'⟩
            exact kept.settle callback.time _ _
    case isFalse =>
      split at stepped
      case isTrue =>
        cases stepped
        exact invariant.settle _ 0 _
      case isFalse =>
        cases stepped
        exact invariant

/-! ## Whole runs -/

/-- Even the offset of a random start is inside the cycle: at most 99 percent of it, if the product does not wrap. -/
theorem start_lt {cycle : UInt64} (some_ : 0 < cycle.toNat) (random : UInt32) :
    (cycle * (random % 100).toUInt64 / 100).toNat < cycle.toNat := by
  have percent : (random % 100).toUInt64.toNat = random.toNat % 100 := by
    rw [UInt32.toNat_toUInt64, UInt32.toNat_mod]
    rfl
  have hundred : (100 : UInt64).toNat = 100 := rfl
  rw [UInt64.toNat_div, UInt64.toNat_mul, percent, hundred]
  have wraps : cycle.toNat * (random.toNat % 100) % 2 ^ 64 ≤ cycle.toNat * (random.toNat % 100) := Nat.mod_le _ _
  have most : cycle.toNat * (random.toNat % 100) ≤ cycle.toNat * 99 :=
    Nat.mul_le_mul_left _ (Nat.le_of_lt_succ (Nat.mod_lt _ (by decide)))
  omega

theorem Invariant.created {random : UInt32} (fits : config.cycle < 2 ^ 64) (starts : create config random = .ok sampling) :
    Invariant config sampling := by
  rw [create] at starts
  split at starts
  case isFalse => cases starts
  case isTrue sync =>
    obtain ⟨positive, within⟩ := sync
    have some_ : 0 < config.cycle := by
      rw [UInt64.lt_iff_toNat_lt] at positive
      rw [UInt64.le_iff_toNat_le, stdMax] at within
      have zero : (0 : UInt64).toNat = 0 := rfl
      rw [Config.cycle]
      split at within <;> omega
    cases starts
    refine ⟨⟨positive, rfl, ?_, rfl, fun request member => absurd member List.not_mem_nil, fun index requests there => ?_⟩, ?_⟩
    · intro offset member
      rw [List.mem_singleton.mp member]
      split
      · have cycle := cycle_toNat fits
        rw [← cycle] at some_ ⊢
        exact start_lt some_ random
      · exact some_
    · simp at there
    · rw [if_neg Bool.false_ne_true]
      exact ⟨rfl, rfl, rfl, rfl⟩

theorem Invariant.reached (placement : config.randomPlacement = true) (cycle : config.cycle < 2 ^ 64)
    (reached : (machine config).Reach (Fits config) sampling) : Invariant config sampling := by
  refine reached.invariant (Invariant config) ?_ ?_
  · intro sampling starts
    obtain ⟨random, created⟩ := starts
    exact Invariant.created cycle created
  · intro sampling callback next invariant fits stepped
    change sampling.periodic config callback.time callback.random = .ok next at stepped
    unfold PeriodicSampling.periodic at stepped
    split at stepped
    case isTrue forward =>
      cases stepped
      exact invariant.callbackFastForward forward callback.time
    case isFalse detailed => exact invariant.callbackDetailed (Bool.not_eq_true _ ▸ detailed) placement cycle fits stepped

theorem Steady.drift (steady : Steady config sampling) (count : Nat) (within : count ≤ sampling.cycles.length) {first : UInt64}
    (start : sampling.offsets[0]? = some first) :
    ∃ last, sampling.offsets[count]? = some last ∧ last.toNat < config.cycle ∧
      total (sampling.cycles.take count).flatten + first.toNat =
        count * (config.cycle + config.warmupInterval.toNat) + last.toNat := by
  induction count with
  | zero =>
    have member := List.mem_of_getElem? start
    exact ⟨first, start, steady.offset first member, by simp⟩
  | succ count ih =>
    obtain ⟨last, isLast, -, sum⟩ := ih (Nat.le_of_succ_le within)
    have there := List.getElem?_eq_getElem (Nat.lt_of_succ_le within)
    obtain ⟨before, after, isBefore, isAfter, amount⟩ := steady.interval count _ there
    have same : before = last := Option.some.inj (isBefore.symm.trans isLast)
    have below := steady.offset before (List.mem_of_getElem? isBefore)
    refine ⟨after, isAfter, steady.offset after (List.mem_of_getElem? isAfter), ?_⟩
    rw [List.take_add_one, there, Option.toList_some, List.flatten_append, total_append, List.flatten_singleton, amount,
      Nat.succ_mul]
    rw [same] at below ⊢
    omega

theorem Invariant.first (invariant : Invariant config sampling) : ∃ first, sampling.offsets[0]? = some first := by
  have some_ : sampling.offsets ≠ [] := by
    intro none_
    have current := invariant.steady.current
    simp [none_] at current
  exact ⟨_, List.getElem?_eq_getElem (List.length_pos_iff.mpr some_)⟩

/-- The cycle is kept exactly where no warmup is requested on top of it. -/
theorem keepsCycle_iff (placement : config.randomPlacement = true) (cycle : config.cycle < 2 ^ 64)
    (reached : (machine config).Reach (Fits config) sampling) :
    KeepsCycle config sampling ↔ config.warmupInterval = 0 ∨ sampling.cycles = [] := by
  have invariant := Invariant.reached placement cycle reached
  have steady := invariant.steady
  obtain ⟨first, start⟩ := invariant.first
  have inside := steady.offset first (List.mem_of_getElem? start)
  constructor
  · intro keeps
    cases done : sampling.cycles with
    | nil => exact .inr rfl
    | cons requests rest =>
      left
      have there : sampling.cycles[0]? = some requests := by rw [done]; rfl
      obtain ⟨before, after, isBefore, isAfter, claimed⟩ := keeps.interval 0 requests there
      obtain ⟨before', after', isBefore', isAfter', amount⟩ := steady.interval 0 requests there
      cases isBefore.symm.trans isBefore'
      cases isAfter.symm.trans isAfter'
      refine UInt64.toNat_inj.mp ?_
      have zero : (0 : UInt64).toNat = 0 := rfl
      omega
  · rintro (noWarmup | none_)
    · have zero : config.warmupInterval.toNat = 0 := by rw [noWarmup]; rfl
      refine ⟨steady.unwrapped, steady.offset, steady.request, ?_, ?_⟩
      · intro index requests there
        obtain ⟨before, after, isBefore, isAfter, amount⟩ := steady.interval index requests there
        exact ⟨before, after, isBefore, isAfter, by omega⟩
      · intro count within
        obtain ⟨last, -, below, sum⟩ := steady.drift count within start
        rw [zero, Nat.add_zero] at sum
        omega
    · refine ⟨steady.unwrapped, steady.offset, steady.request, ?_, ?_⟩
      · intro index requests there
        simp [none_] at there
      · intro count within
        rw [none_, List.length_nil, Nat.le_zero] at within
        subst within
        simp only [List.take_zero, List.flatten_nil, total_nil]
        omega

/-- Intervals of 100 ns in detail and 1000 ns of fast-forward, and some warmup. -/
def shortIntervals (warmup : UInt64) : Config where
  detailedInterval := 100000000
  fastforwardInterval := 1000000000
  fastforwardSyncInterval := 1000000000
  warmupInterval := warmup
  detailedWarmupInterval := 0
  randomPlacement := true
  randomStart := false

/-- Without warmup a cycle is kept. -/
theorem keepsCycle_iff_noWarmup : ∃ sampling, (machine (shortIntervals 0)).Reach (Fits (shortIntervals 0)) sampling ∧
    sampling.cycles.length = 1 ∧
    (KeepsCycle (shortIntervals 0) sampling ↔ (shortIntervals 0).warmupInterval = 0 ∨ sampling.cycles = []) := by
  have placed : (machine (shortIntervals 0)).Reach (Fits (shortIntervals 0)) _ :=
    .step ⟨100000001, 0⟩ (.initial ⟨0, rfl⟩) (fun _ => by decide) rfl
  have ended : (machine (shortIntervals 0)).Reach (Fits (shortIntervals 0)) _ :=
    .step ⟨1100000001, 0⟩ placed (Fits.of_forward rfl) rfl
  exact ⟨_, ended, rfl, keepsCycle_iff rfl (by decide) ended⟩

/-- With 500 ns of warmup, 2000 ns are requested between two intervals of offset 0, instead of 1500 ns. -/
theorem warmup_on_top : ∃ sampling, (machine (shortIntervals 500000000)).Reach (Fits (shortIntervals 500000000)) sampling ∧
    ¬KeepsCycle (shortIntervals 500000000) sampling := by
  have placed : (machine (shortIntervals 500000000)).Reach (Fits (shortIntervals 500000000)) _ :=
    .step ⟨100000001, 0⟩ (.initial ⟨0, rfl⟩) (fun _ => by decide) rfl
  have forward : (machine (shortIntervals 500000000)).Reach (Fits (shortIntervals 500000000)) _ :=
    .step ⟨1100000001, 0⟩ placed (Fits.of_forward rfl) rfl
  have warm : (machine (shortIntervals 500000000)).Reach (Fits (shortIntervals 500000000)) _ :=
    .step ⟨1600000001, 0⟩ forward (Fits.of_forward rfl) rfl
  have ended : (machine (shortIntervals 500000000)).Reach (Fits (shortIntervals 500000000)) _ :=
    .step ⟨2100000001, 0⟩ warm (Fits.of_forward rfl) rfl
  refine ⟨_, ended, fun keeps => ?_⟩
  obtain ⟨before, after, isBefore, isAfter, amount⟩ := keeps.interval 0 _ rfl
  cases isBefore
  cases isAfter
  exact absurd amount (by decide)

end Sniper.Sampling

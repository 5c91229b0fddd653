import Sniper.Library.Runs
import Mathlib.Algebra.BigOperators.Group.Finset.Piecewise
import Mathlib.Data.Fintype.Basic
import Mathlib.Data.UInt

/-! `ShmemPerf`: where the time of a memory request went, split over the components that report times. -/

namespace Sniper.Memory

namespace ShmemPerf

/-- `shmem_times_type_t`. -/
inductive ShmemTimesType
  | nocBase | nocQueue | tdAccess | invImbalance | remoteCacheInv | remoteCacheFwd | remoteCacheWb | pendingHit
  | nucaTags | nucaQueue | nucaBus | nucaData
  | dramCache | dramCacheTags | dramCacheQueue | dramCacheBus | dramCacheData
  | dram | dramQueue | dramBus | dramDevice | unknown
deriving DecidableEq, Repr

instance : Fintype ShmemTimesType where
  elems :=
    {.nocBase, .nocQueue, .tdAccess, .invImbalance, .remoteCacheInv, .remoteCacheFwd, .remoteCacheWb, .pendingHit,
      .nucaTags, .nucaQueue, .nucaBus, .nucaData, .dramCache, .dramCacheTags, .dramCacheQueue, .dramCacheBus, .dramCacheData,
      .dram, .dramQueue, .dramBus, .dramDevice, .unknown}
  complete := fun reason => by cases reason <;> decide

/-- The fields of a `NetPacket` that `updatePacket` reads. -/
structure NetPacket where
  time : UInt64
  queueDelay : UInt64
deriving DecidableEq, Repr

end ShmemPerf

open ShmemPerf in
structure ShmemPerf where
  coreId : Int
  timeBegin : UInt64
  timeLast : UInt64
  times : ShmemTimesType → UInt64

namespace ShmemPerf

/-- The constructor, with `INVALID_CORE_ID`. -/
def create : ShmemPerf := ⟨-1, 0, 0, fun _ => 0⟩

def reset (time : UInt64) (coreId : Int) : ShmemPerf := ⟨coreId, time, time, fun _ => 0⟩

/-- `m_times[reason] += time`. -/
def addTime (perf : ShmemPerf) (reason : ShmemTimesType) (time : UInt64) : ShmemPerf :=
  { perf with times := fun other => if other = reason then perf.times reason + time else perf.times other }

def updateTime (perf : ShmemPerf) (time : UInt64) (reason : ShmemTimesType) : ShmemPerf :=
  if time > perf.timeLast then { perf.addTime reason (time - perf.timeLast) with timeLast := time } else perf

def updatePacket (perf : ShmemPerf) (packet : NetPacket) : ShmemPerf :=
  if packet.time > perf.timeLast then
    let perf := { perf.addTime .nocQueue packet.queueDelay with timeLast := perf.timeLast + packet.queueDelay }
    perf.updateTime packet.time .nocBase
  else perf

inductive Call
  | reset (time : UInt64) (coreId : Int)
  | updateTime (time : UInt64) (reason : ShmemTimesType)
  | updatePacket (packet : NetPacket)
deriving DecidableEq, Repr

def call (perf : ShmemPerf) : Call → ShmemPerf
  | .reset time coreId => reset time coreId
  | .updateTime time reason => perf.updateTime time reason
  | .updatePacket packet => perf.updatePacket packet

/-! ### The time that is accounted for -/

section Accounting

variable {perf : ShmemPerf} {reason : ShmemTimesType} {time latest : UInt64} {packet : NetPacket}

def total (perf : ShmemPerf) : UInt64 := ∑ reason, perf.times reason

/-- An account with what was reported to it: the time of the last reset, and the latest of that and the times since. -/
structure Reported where
  perf : ShmemPerf
  resetTime : UInt64
  latest : UInt64

namespace Reported

def create : Reported := ⟨.create, 0, 0⟩

def step (reported : Reported) (made : Call) : Reported :=
  match made with
  | .reset time _ => ⟨reported.perf.call made, time, time⟩
  | .updateTime time _ => ⟨reported.perf.call made, reported.resetTime, max reported.latest time⟩
  | .updatePacket packet => ⟨reported.perf.call made, reported.resetTime, max reported.latest packet.time⟩

/-- The components sum up to the time since the reset, which the latest time reported ends. -/
structure Accounted (reported : Reported) : Prop where
  total : reported.perf.total = reported.perf.timeLast - reported.resetTime
  last : reported.perf.timeLast = reported.latest

/-- A packet that moves the account on was not queued for longer than that. -/
def QueuedWithin (reported : Reported) : Call → Prop
  | .updatePacket packet => packet.time > reported.perf.timeLast → reported.perf.timeLast + packet.queueDelay ≤ packet.time
  | _ => True

end Reported

theorem times_addTime (other : ShmemTimesType) :
    (perf.addTime reason time).times other = perf.times other + if other = reason then time else 0 := by
  show (if other = reason then perf.times reason + time else perf.times other) = _
  split
  case isTrue same => rw [same]
  case isFalse => exact (add_zero _).symm

theorem total_addTime : (perf.addTime reason time).total = perf.total + time := by
  rw [total, Finset.sum_congr rfl fun other _ => times_addTime other, Finset.sum_add_distrib, Finset.sum_ite_eq' Finset.univ reason,
    if_pos (Finset.mem_univ _)]
  rfl

theorem max_eq_later (first second : UInt64) : max first second = if second > first then second else first := by
  show (if first ≤ second then second else first) = _
  split
  case isTrue order =>
    split
    case isTrue => rfl
    case isFalse earlier => exact UInt64.le_antisymm (UInt64.not_lt.mp earlier) order
  case isFalse order => rw [if_neg fun later => order (UInt64.le_of_lt later)]

theorem max_eq_second_iff {first second : UInt64} : max first second = second ↔ first ≤ second := by
  rw [max_eq_later]
  split
  case isTrue later => exact iff_of_true rfl (UInt64.le_of_lt later)
  case isFalse earlier => exact ⟨fun same => same ▸ UInt64.le_refl first, fun order => UInt64.le_antisymm order (UInt64.not_lt.mp earlier)⟩

theorem updateTime_timeLast : (perf.updateTime time reason).timeLast = max perf.timeLast time := by
  rw [updateTime, max_eq_later]
  split <;> rfl

theorem updateTime_total (account : perf.total = perf.timeLast - time) (latest : UInt64) :
    (perf.updateTime latest reason).total = (perf.updateTime latest reason).timeLast - time := by
  rw [updateTime]
  split
  case isTrue later =>
    show (perf.addTime reason (latest - perf.timeLast)).total = latest - time
    rw [total_addTime, account]
    exact sub_add_sub_cancel' perf.timeLast time latest
  case isFalse => exact account

theorem updatePacket_total (packet : NetPacket) (account : perf.total = perf.timeLast - time) :
    (perf.updatePacket packet).total = (perf.updatePacket packet).timeLast - time := by
  rw [updatePacket]
  split
  case isTrue later =>
    refine updateTime_total ?_ packet.time
    show (perf.addTime .nocQueue packet.queueDelay).total = perf.timeLast + packet.queueDelay - time
    rw [total_addTime, account]
    exact (add_sub_right_comm perf.timeLast packet.queueDelay time).symm
  case isFalse => exact account

theorem updatePacket_timeLast :
    (perf.updatePacket packet).timeLast =
      if packet.time > perf.timeLast then max (perf.timeLast + packet.queueDelay) packet.time else perf.timeLast := by
  rw [updatePacket]
  split
  case isTrue later => exact updateTime_timeLast
  case isFalse => rfl

namespace Reported

variable {reported : Reported} {made : Call}

theorem accounted_create : Accounted create := ⟨by decide, rfl⟩

theorem Accounted.step_iff (accounted : Accounted reported) : Accounted (reported.step made) ↔ reported.QueuedWithin made := by
  cases made with
  | reset time coreId =>
    refine iff_of_true ⟨?_, rfl⟩ trivial
    show (∑ _ : ShmemTimesType, (0 : UInt64)) = time - time
    rw [Finset.sum_const_zero, UInt64.sub_self]
  | updateTime time reason =>
    refine iff_of_true ⟨updateTime_total accounted.total time, ?_⟩ trivial
    show (reported.perf.updateTime time reason).timeLast = max reported.latest time
    rw [updateTime_timeLast, accounted.last]
  | updatePacket packet =>
    have total := updatePacket_total packet accounted.total
    have last : (reported.perf.updatePacket packet).timeLast = max reported.latest packet.time ↔
        reported.QueuedWithin (.updatePacket packet) := by
      rw [updatePacket_timeLast, ← accounted.last, max_eq_later reported.perf.timeLast]
      split
      case isTrue later =>
        rw [max_eq_second_iff]
        exact ⟨fun within _ => within, fun within => within later⟩
      case isFalse earlier => exact iff_of_true rfl fun later => absurd later earlier
    exact ⟨fun after => last.mp after.last, fun within => ⟨total, last.mpr within⟩⟩

/-- The time is accounted for after every call of a run if and only if no packet's delay takes the account past its time. -/
theorem accounted_iff_queuedWithin (calls : List Call) :
    AllStates step Accounted create calls ↔ AllSteps step QueuedWithin create calls :=
  allStates_iff_of_exact (fun _ _ accounted => accounted.step_iff) accounted_create

/-- A packet of time 100 that was queued for 50 comes after a report of time 90: the account ends at 140. -/
theorem packet_overshoots :
    ¬ ∀ calls : List Call, AllStates step Accounted create calls := by
  intro always
  have last := (always [.reset 0 0, .updateTime 90 .tdAccess, .updatePacket ⟨100, 50⟩]).2.2.2.last
  exact absurd last (by decide)

end Reported

end Accounting

end ShmemPerf

end Sniper.Memory

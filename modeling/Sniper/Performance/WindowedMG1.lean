import Sniper.Library.Runs
import Mathlib.Algebra.Ring.Nat
import Mathlib.Algebra.BigOperators.Group.List.Basic
import Mathlib.Algebra.Order.Group.Unbundled.Int
import Mathlib.Data.List.Sort

/-! `QueueModelWindowedMG1`: the requests of the last while, and their number and sums. -/

namespace Sniper.Performance

/-- `SubsecondTime::getPS` of a time in femtoseconds. -/
def getPS (time : UInt64) : UInt64 := time / 1000

namespace QueueModelWindowedMG1

/-- An entry of `m_window`: when the packet came, and how long it is served. -/
structure Item where
  time : UInt64
  service : UInt64
deriving DecidableEq, Repr

end QueueModelWindowedMG1

open QueueModelWindowedMG1 in
structure QueueModelWindowedMG1 where
  windowSize : UInt64
  totalRequests : UInt64
  totalUtilizedTime : UInt64
  totalQueueDelay : UInt64
  /-- `m_window`, a multimap by time. -/
  window : List Item
  numArrivals : UInt64
  serviceTimeSum : UInt64
  serviceTimeSum2 : UInt64
deriving DecidableEq, Repr

namespace QueueModelWindowedMG1

def create (windowSize : UInt64) : QueueModelWindowedMG1 := ⟨windowSize, 0, 0, 0, [], 0, 0, 0⟩

/-- `multimap::insert`: after the entries that are not later. -/
def insert (item : Item) (window : List Item) : List Item := window.orderedInsert (fun new old => new.time < old.time) item

def addItem (queue : QueueModelWindowedMG1) (pktTime serviceTime : UInt64) : QueueModelWindowedMG1 :=
  { queue with
    window := insert ⟨pktTime, serviceTime⟩ queue.window
    numArrivals := queue.numArrivals + 1
    serviceTimeSum := queue.serviceTimeSum + getPS serviceTime
    serviceTimeSum2 := queue.serviceTimeSum2 + getPS serviceTime * getPS serviceTime }

/-- What the loop of `removeItems` does with the entry at the front. -/
def erase (queue : QueueModelWindowedMG1) (entry : Item) (rest : List Item) : QueueModelWindowedMG1 :=
  { queue with
    window := rest
    numArrivals := queue.numArrivals - 1
    serviceTimeSum := queue.serviceTimeSum - getPS entry.service
    serviceTimeSum2 := queue.serviceTimeSum2 - getPS entry.service * getPS entry.service }

/-- The loop of `removeItems` over the entries of the window. -/
def removeFront (earliestTime : UInt64) : List Item → QueueModelWindowedMG1 → QueueModelWindowedMG1
  | [], queue => queue
  | entry :: rest, queue => if entry.time < earliestTime then removeFront earliestTime rest (queue.erase entry rest) else queue

def removeItems (queue : QueueModelWindowedMG1) (earliestTime : UInt64) : QueueModelWindowedMG1 :=
  removeFront earliestTime queue.window queue

/-- A call of `computeQueueDelay`, with the global time it reads. -/
structure Request where
  globalTime : UInt64
  pktTime : UInt64
  processingTime : UInt64
deriving DecidableEq, Repr

/-- The bound that `computeQueueDelay` removes items up to. -/
def earliestTime (windowSize : UInt64) (request : Request) : UInt64 :=
  max (request.globalTime - windowSize) (request.pktTime - 10 * windowSize)

/-- `computeQueueDelay`, where `delay` stands for its floating-point formula over the sum of the service times, the number
of arrivals, the mean of the squares and the window size in picoseconds. -/
def computeQueueDelay (delay : UInt64 → UInt64 → UInt64 → UInt64 → UInt64) (queue : QueueModelWindowedMG1) (request : Request) :
    UInt64 × QueueModelWindowedMG1 :=
  let queue := queue.removeItems (earliestTime queue.windowSize request)
  let tQueue :=
    if queue.numArrivals > 1 then
      min (delay queue.serviceTimeSum queue.numArrivals (queue.serviceTimeSum2 / queue.numArrivals) (getPS queue.windowSize))
        queue.windowSize
    else 0
  let queue := queue.addItem request.pktTime request.processingTime
  (tQueue, { queue with
    totalRequests := queue.totalRequests + 1
    totalUtilizedTime := queue.totalUtilizedTime + request.processingTime
    totalQueueDelay := queue.totalQueueDelay + tQueue })

/-! ### The sums over the window -/

section Sums

def serviceSum (items : List Item) : Nat := (items.map fun item => (getPS item.service).toNat).sum

def squareSum (items : List Item) : Nat := (items.map fun item => (getPS item.service).toNat ^ 2).sum

structure Counted (queue : QueueModelWindowedMG1) : Prop where
  arrivals : queue.numArrivals.toNat = queue.window.length
  service : queue.serviceTimeSum.toNat = serviceSum queue.window
  square : queue.serviceTimeSum2.toNat = squareSum queue.window

/-- The number and the sums of some items are numbers of 64 bits. -/
structure Fits (items : List Item) : Prop where
  arrivals : items.length < 2 ^ 64
  service : serviceSum items < 2 ^ 64
  square : squareSum items < 2 ^ 64

/-- The number and the sums are those of the window but for multiples of 2 ^ 64, and the window is in order. -/
structure Bookkeeping (queue : QueueModelWindowedMG1) : Prop where
  sorted : queue.window.Pairwise fun first second => first.time ≤ second.time
  arrivals : queue.numArrivals = UInt64.ofNat queue.window.length
  service : queue.serviceTimeSum = UInt64.ofNat (serviceSum queue.window)
  square : queue.serviceTimeSum2 = UInt64.ofNat (squareSum queue.window)

variable {queue : QueueModelWindowedMG1} {item entry : Item} {items rest window : List Item}

theorem serviceSum_cons : serviceSum (item :: items) = (getPS item.service).toNat + serviceSum items := by
  simp [serviceSum]

theorem squareSum_cons : squareSum (item :: items) = (getPS item.service).toNat ^ 2 + squareSum items := by
  simp [squareSum]

theorem ofNat_square (value : UInt64) : UInt64.ofNat (value.toNat ^ 2) = value * value := by
  rw [Nat.pow_two, UInt64.ofNat_mul, UInt64.ofNat_toNat]

theorem Fits.perm {others : List Item} (fits : Fits items) (same : items.Perm others) : Fits others where
  arrivals := same.length_eq ▸ fits.arrivals
  service := by
    have sum : serviceSum items = serviceSum others := (same.map _).sum_eq
    exact sum ▸ fits.service
  square := by
    have sum : squareSum items = squareSum others := (same.map _).sum_eq
    exact sum ▸ fits.square

theorem Fits.of_cons (fits : Fits (item :: items)) : Fits items where
  arrivals := Nat.lt_of_succ_lt fits.arrivals
  service := by
    have sum := fits.service
    rw [serviceSum_cons] at sum
    exact Nat.lt_of_le_of_lt (Nat.le_add_left _ _) sum
  square := by
    have sum := fits.square
    rw [squareSum_cons] at sum
    exact Nat.lt_of_le_of_lt (Nat.le_add_left _ _) sum

theorem Bookkeeping.counted_iff (bookkeeping : Bookkeeping queue) : Counted queue ↔ Fits queue.window := by
  have wraps (value : Nat) : (UInt64.ofNat value).toNat = value ↔ value < 2 ^ 64 := by
    rw [UInt64.toNat_ofNat', Nat.mod_eq_iff_lt (by decide)]
  constructor
  · intro counted
    refine ⟨?_, ?_, ?_⟩
    · exact (wraps _).mp (bookkeeping.arrivals ▸ counted.arrivals)
    · exact (wraps _).mp (bookkeeping.service ▸ counted.service)
    · exact (wraps _).mp (bookkeeping.square ▸ counted.square)
  · intro fits
    refine ⟨?_, ?_, ?_⟩
    · exact bookkeeping.arrivals ▸ (wraps _).mpr fits.arrivals
    · exact bookkeeping.service ▸ (wraps _).mpr fits.service
    · exact bookkeeping.square ▸ (wraps _).mpr fits.square

theorem bookkeeping_create (windowSize : UInt64) : Bookkeeping (create windowSize) :=
  ⟨List.Pairwise.nil, rfl, rfl, rfl⟩

theorem insert_perm : (insert item window).Perm (item :: window) := List.perm_orderedInsert _ _ _

theorem insert_sorted (sorted : window.Pairwise fun first second => first.time ≤ second.time) :
    (insert item window).Pairwise fun first second => first.time ≤ second.time := by
  induction window with
  | nil => exact List.pairwise_singleton _ _
  | cons first rest ih =>
    obtain ⟨least, others⟩ := List.pairwise_cons.mp sorted
    rw [insert, List.orderedInsert_cons]
    split
    case isTrue before =>
      refine List.pairwise_cons.mpr ⟨fun other member => ?_, sorted⟩
      rcases List.mem_cons.mp member with rfl | later
      · exact UInt64.le_of_lt before
      · exact UInt64.le_trans (UInt64.le_of_lt before) (least other later)
    case isFalse after =>
      refine List.pairwise_cons.mpr ⟨fun other member => ?_, ih others⟩
      rcases List.mem_cons.mp (insert_perm.mem_iff.mp member) with rfl | later
      · exact UInt64.not_lt.mp after
      · exact least other later

theorem Bookkeeping.addItem (bookkeeping : Bookkeeping queue) (pktTime serviceTime : UInt64) :
    Bookkeeping (queue.addItem pktTime serviceTime) where
  sorted := insert_sorted bookkeeping.sorted
  arrivals := by
    show queue.numArrivals + 1 = UInt64.ofNat (insert _ _).length
    rw [insert_perm.length_eq, List.length_cons, UInt64.ofNat_add, bookkeeping.arrivals]
    rfl
  service := by
    have sum : serviceSum (insert ⟨pktTime, serviceTime⟩ queue.window) = serviceSum (⟨pktTime, serviceTime⟩ :: queue.window) :=
      (insert_perm.map _).sum_eq
    show queue.serviceTimeSum + getPS serviceTime = UInt64.ofNat (serviceSum (insert _ _))
    rw [sum, serviceSum_cons, UInt64.ofNat_add, UInt64.ofNat_toNat, bookkeeping.service, UInt64.add_comm]
  square := by
    have sum : squareSum (insert ⟨pktTime, serviceTime⟩ queue.window) = squareSum (⟨pktTime, serviceTime⟩ :: queue.window) :=
      (insert_perm.map _).sum_eq
    show queue.serviceTimeSum2 + getPS serviceTime * getPS serviceTime = UInt64.ofNat (squareSum (insert _ _))
    rw [sum, squareSum_cons, UInt64.ofNat_add, ofNat_square, bookkeeping.square, UInt64.add_comm]

theorem Bookkeeping.erase (bookkeeping : Bookkeeping queue) (front : queue.window = entry :: rest) :
    Bookkeeping (queue.erase entry rest) where
  sorted := (List.pairwise_cons.mp (front ▸ bookkeeping.sorted)).2
  arrivals := by
    show queue.numArrivals - 1 = UInt64.ofNat rest.length
    rw [bookkeeping.arrivals, front, List.length_cons, UInt64.ofNat_add]
    exact UInt64.add_sub_cancel _ _
  service := by
    show queue.serviceTimeSum - getPS entry.service = UInt64.ofNat (serviceSum rest)
    rw [bookkeeping.service, front, serviceSum_cons, Nat.add_comm, UInt64.ofNat_add, UInt64.ofNat_toNat]
    exact UInt64.add_sub_cancel _ _
  square := by
    show queue.serviceTimeSum2 - getPS entry.service * getPS entry.service = UInt64.ofNat (squareSum rest)
    rw [bookkeeping.square, front, squareSum_cons, Nat.add_comm, UInt64.ofNat_add, ofNat_square]
    exact UInt64.add_sub_cancel _ _

theorem removeFront_spec {earliestTime : UInt64} (bookkeeping : Bookkeeping queue) (entries : queue.window = items) :
    Bookkeeping (removeFront earliestTime items queue) ∧
    (removeFront earliestTime items queue).window = items.filter (fun item => earliestTime ≤ item.time) ∧
    (removeFront earliestTime items queue).windowSize = queue.windowSize := by
  induction items generalizing queue with
  | nil => exact ⟨bookkeeping, entries, rfl⟩
  | cons entry rest ih =>
    rw [removeFront]
    split
    case isTrue early =>
      obtain ⟨kept, window, size⟩ := ih (bookkeeping.erase entries) rfl
      refine ⟨kept, ?_, size⟩
      rw [window, List.filter_cons_of_neg]
      simpa using early
    case isFalse late =>
      refine ⟨bookkeeping, ?_, rfl⟩
      obtain ⟨least, -⟩ := List.pairwise_cons.mp (entries ▸ bookkeeping.sorted)
      rw [entries, eq_comm, List.filter_eq_self]
      intro item member
      rw [decide_eq_true_eq]
      rcases List.mem_cons.mp member with rfl | later
      · exact UInt64.not_lt.mp late
      · exact UInt64.le_trans (UInt64.not_lt.mp late) (least item later)

end Sums

/-! ### Requests -/

section Requests

variable {delay : UInt64 → UInt64 → UInt64 → UInt64 → UInt64} {queue : QueueModelWindowedMG1} {request : Request}

/-- The state after a call of `computeQueueDelay`. -/
def call (delay : UInt64 → UInt64 → UInt64 → UInt64 → UInt64) (queue : QueueModelWindowedMG1) (request : Request) :
    QueueModelWindowedMG1 :=
  (queue.computeQueueDelay delay request).2

def earliest (windowSize : UInt64) (request : Request) : Int :=
  max (request.globalTime.toNat - windowSize.toNat) (request.pktTime.toNat - 10 * windowSize.toNat)

/-- The items that are not before the bound over the integers. -/
def kept (queue : QueueModelWindowedMG1) (request : Request) : List Item :=
  queue.window.filter fun item => earliest queue.windowSize request ≤ item.time.toNat

/-- A request removes just the items before the bound over the integers, and the counters are right when it reads them
and after it. -/
structure Right (delay : UInt64 → UInt64 → UInt64 → UInt64 → UInt64) (queue : QueueModelWindowedMG1) (request : Request) : Prop where
  removed : (queue.removeItems (earliestTime queue.windowSize request)).window = queue.kept request
  read : Counted (queue.removeItems (earliestTime queue.windowSize request))
  after : Counted (queue.call delay request)

/-- No item is from the bound on but before the bound that wraps, and with the request they fit. -/
structure Unwrapped (queue : QueueModelWindowedMG1) (request : Request) : Prop where
  between : ∀ item ∈ queue.window, earliest queue.windowSize request ≤ item.time.toNat →
    earliestTime queue.windowSize request ≤ item.time
  fits : Fits (⟨request.pktTime, request.processingTime⟩ :: queue.kept request)

theorem toNat_max (first second : UInt64) : (max first second).toNat = max first.toNat second.toNat := by
  show (if first ≤ second then second else first).toNat = _
  split
  case isTrue order => rw [Nat.max_eq_right (UInt64.le_iff_toNat_le.mp order)]
  case isFalse order => rw [Nat.max_eq_left (Nat.le_of_not_le fun below => order (UInt64.le_iff_toNat_le.mpr below))]

theorem toNat_sub_eq (first second : UInt64) :
    ((first - second).toNat : Int) = first.toNat - second.toNat + if first.toNat < second.toNat then 2 ^ 64 else 0 := by
  have bound := first.toNat_lt
  have bound' := second.toNat_lt
  rw [UInt64.toNat_sub]
  split <;> omega

theorem toNat_ten_mul (windowSize : UInt64) : (10 * windowSize).toNat = 10 * windowSize.toNat % 2 ^ 64 := UInt64.toNat_mul _ _

theorem earliestTime_toNat (windowSize : UInt64) (request : Request) : ((earliestTime windowSize request).toNat : Int) =
    max ((request.globalTime - windowSize).toNat : Int) (request.pktTime - 10 * windowSize).toNat := by
  rw [earliestTime, toNat_max]
  omega

theorem earliest_le (windowSize : UInt64) (request : Request) :
    earliest windowSize request ≤ (earliestTime windowSize request).toNat := by
  have ten := toNat_ten_mul windowSize
  have global := toNat_sub_eq request.globalTime windowSize
  have packet := toNat_sub_eq request.pktTime (10 * windowSize)
  rw [earliestTime_toNat, earliest]
  split at global <;> split at packet <;> omega

theorem removeItems_spec (bookkeeping : Bookkeeping queue) (earliestTime : UInt64) :
    Bookkeeping (queue.removeItems earliestTime) ∧
    (queue.removeItems earliestTime).window = queue.window.filter (fun item => earliestTime ≤ item.time) :=
  ⟨(removeFront_spec bookkeeping rfl).1, (removeFront_spec bookkeeping rfl).2.1⟩

theorem Bookkeeping.call (bookkeeping : Bookkeeping queue) (request : Request) : Bookkeeping (queue.call delay request) := by
  have added := (removeItems_spec bookkeeping (earliestTime queue.windowSize request)).1.addItem request.pktTime request.processingTime
  exact ⟨added.sorted, added.arrivals, added.service, added.square⟩

theorem call_window (delay : UInt64 → UInt64 → UInt64 → UInt64 → UInt64) (queue : QueueModelWindowedMG1) (request : Request) :
    (queue.call delay request).window =
      insert ⟨request.pktTime, request.processingTime⟩ (queue.removeItems (earliestTime queue.windowSize request)).window :=
  rfl

theorem removed_iff (bookkeeping : Bookkeeping queue) :
    (queue.removeItems (earliestTime queue.windowSize request)).window = queue.kept request ↔
      ∀ item ∈ queue.window, earliest queue.windowSize request ≤ item.time.toNat →
        earliestTime queue.windowSize request ≤ item.time := by
  rw [(removeItems_spec bookkeeping _).2, kept]
  constructor
  · intro same item member late
    have stays : item ∈ queue.window.filter fun item => earliest queue.windowSize request ≤ item.time.toNat :=
      List.mem_filter.mpr ⟨member, by simpa using late⟩
    rw [← same] at stays
    simpa using (List.mem_filter.mp stays).2
  · intro between
    refine List.filter_congr fun item member => ?_
    rw [decide_eq_decide]
    constructor
    · intro late
      have bound := earliest_le queue.windowSize request
      have order := UInt64.le_iff_toNat_le.mp late
      omega
    · exact between item member

theorem right_iff_unwrapped (bookkeeping : Bookkeeping queue) : Right delay queue request ↔ Unwrapped queue request := by
  have removal := (removeItems_spec bookkeeping (earliestTime queue.windowSize request)).1
  have held (removed : (queue.removeItems (earliestTime queue.windowSize request)).window = queue.kept request) :
      (queue.call delay request).window.Perm (⟨request.pktTime, request.processingTime⟩ :: queue.kept request) := by
    rw [call_window, removed]
    exact insert_perm
  constructor
  · intro right
    have fits := (bookkeeping.call request).counted_iff.mp right.after
    exact ⟨(removed_iff bookkeeping).mp right.removed, fits.perm (held right.removed)⟩
  · intro unwrapped
    have removed := (removed_iff bookkeeping).mpr unwrapped.between
    refine ⟨removed, removal.counted_iff.mpr ?_, (bookkeeping.call request).counted_iff.mpr ?_⟩
    · exact removed ▸ unwrapped.fits.of_cons
    · exact unwrapped.fits.perm (held removed).symm

/-- Every request of a run does its bookkeeping right if and only if every one finds no item between the bounds, and the
numbers fit. -/
theorem computeQueueDelay_right_iff (delay : UInt64 → UInt64 → UInt64 → UInt64 → UInt64) (windowSize : UInt64)
    (requests : List Request) :
    AllSteps (call delay) (Right delay) (create windowSize) requests ↔
      AllSteps (call delay) Unwrapped (create windowSize) requests :=
  allSteps_congr (fun _ request bookkeeping => bookkeeping.call request) (fun _ _ => right_iff_unwrapped)
    (bookkeeping_create windowSize)

/-- Two packets a nanosecond apart at the start of the simulation, with a window of a thousand nanoseconds: the second one
finds the window emptied. -/
theorem computeQueueDelay_start_wraps :
    (((create 1000000000).call (fun _ _ _ _ => 0) ⟨0, 1000000, 5000⟩).call (fun _ _ _ _ => 0) ⟨0, 2000000, 5000⟩).window =
      [⟨2000000, 5000⟩] ∧
    ¬AllSteps (call fun _ _ _ _ => 0) (Right fun _ _ _ _ => 0) (create 1000000000)
      [⟨0, 1000000, 5000⟩, ⟨0, 2000000, 5000⟩] := by
  refine ⟨by decide, ?_⟩
  rintro ⟨-, ⟨removed, -, -⟩, -⟩
  exact absurd removed (by decide)

end Requests

end QueueModelWindowedMG1

end Sniper.Performance

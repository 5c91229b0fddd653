import Sniper.Directory.CacheSteps

/-! The invariant of the directory protocol.

`Core` relates the directory entry, the request queue, the caches and the memory
side; its argument `head` is the request in service, or `none` between two
requests.  `Stable` is what holds between two steps of the system, `Settled` and
`Completed` are the points inside the directory's handlers where a request is about
to be served and where it has just been. -/

namespace Sniper.Directory

variable {n : Nat} {V : Type}

/-! ### Roles -/

def queuedOf (queue : List (ShmemReq n V)) (id : Fin n) : Option ReqType :=
  (queue.find? fun req => req.requester = id ∧ req.msgType ≠ .nullifyReq).map (·.msgType)

/-- The requester already counts as a sharer, but its data is still to come. -/
def granting (head : Option (ShmemReq n V)) (id : Fin n) : Bool :=
  head.any fun req => req.msgType ≠ .nullifyReq ∧ req.requester = id ∧
    (req.waitForData = true ∨ req.forwardingFrom ≠ none)

def awaitFor (dstate : DState) (req : ShmemReq n V) (id : Fin n) : Option Await :=
  if req.waitForData then none
  else
    match dstate, req.msgType with
    | .shared, .exReq | .shared, .nullifyReq => some .inv
    | .shared, .upgradeReq => if req.requester = id then none else some .upgrade
    | .shared, .shReq => if req.forwardingFrom = some id then some .wb else none
    | .exclusive, .shReq | .modified, .shReq => some .wb
    | .exclusive, _ | .modified, _ => some .flush
    | .uncached, _ | .owned, _ => none

def awaitOf (dstate : DState) (head : Option (ShmemReq n V)) (id : Fin n) : Option Await :=
  head.bind fun req => awaitFor dstate req id

def roleOf (entry : DirectoryEntry n) (head : Option (ShmemReq n V))
    (queue : List (ShmemReq n V)) (id : Fin n) : Role :=
  if entry.sharers id = true ∧ granting head id = false then
    .sharer entry.dstate (awaitOf entry.dstate head id) (queuedOf queue id)
  else .absent (queuedOf queue id)

/-! ### Requests and replies -/

/-- The controller's dealings with the requests of the address, replayed from its
log: the queue and whether its head has been answered.  `none` if a request is
served out of turn, answered twice, answered to another cache, or removed without
an answer. -/
def replayEvent : Option (List (ReqType × Fin n) × Bool) → Event n →
    Option (List (ReqType × Fin n) × Bool)
  | some (queue, false), .enqueued msgType requester => some (queue ++ [(msgType, requester)], false)
  | some (front :: rest, false), .serving msgType requester =>
    if front = (msgType, requester) then some (front :: rest, false) else none
  | some (front :: rest, false), .replied receiver =>
    if front.2 = receiver ∧ front.1 ≠ .nullifyReq then some (front :: rest, true) else none
  | some (front :: rest, answered), .dequeued =>
    if answered = decide (front.1 ≠ .nullifyReq) then some (rest, false) else none
  | _, _ => none

def replay (log : List (Event n)) : Option (List (ReqType × Fin n) × Bool) :=
  log.foldl replayEvent (some ([], false))

def ShmemReq.key (req : ShmemReq n V) : ReqType × Fin n := (req.msgType, req.requester)

/-! ### The memory side -/

def DramMsg.isRead : DramMsg V → Bool
  | .readReq => true
  | .writeReq _ => false

/-- Every read on its way to DRAM, and every later one, gets the value `last`. -/
def MemoryHolds (last : V) : List (DramMsg V) → LineBuf V → Prop
  | [], dram => dram = .bytes last
  | .readReq :: rest, dram => dram = .bytes last ∧ MemoryHolds last rest dram
  | .writeReq data :: rest, _ => MemoryHolds last rest data

/-! ### The invariant -/

structure EntryOk (protocol : Protocol) (entry : DirectoryEntry n) : Prop where
  uncached : entry.dstate = .uncached ↔ ∀ id, entry.sharers id = false
  owner : entry.dstate = .exclusive ∨ entry.dstate = .modified →
    ∃ id, entry.owner = some id ∧ ∀ other, entry.sharers other = true ↔ other = id
  notOwned : entry.dstate ≠ .owned
  forwarder : ∀ id, entry.forwarder = .core id → entry.sharers id = true
  initialised : protocol = .mesif → entry.dstate = .shared → entry.forwarder ≠ .uninitialised

/-- A request that has not been served yet. -/
structure ShmemReq.Fresh (req : ShmemReq n V) : Prop where
  waitForData : req.waitForData = false
  forwardingFrom : req.forwardingFrom = none

structure QueueOk (clean : Prop) (queue : List (ShmemReq n V)) : Prop where
  distinct : queue.Pairwise fun req later => req.msgType ≠ .nullifyReq → req.requester ≠ later.requester
  tail : ∀ req ∈ queue.tail, req.Fresh ∧ req.msgType ≠ .nullifyReq
  stored : ∀ req ∈ queue, ∀ data, req.dataBuf = some data → ¬ clean

/-- What is promised about data: `clean` that every copy and every reply is the last
value written, `durable` that DRAM holds it unless a cache has a dirty copy. -/
structure Promise where
  clean : Prop
  durable : Prop
  covers : durable → clean

/-- Whether the first request, served without data of a cache, takes the line from the memory side: from the
NUCA cache if that holds it.  A nullified entry leaves a new one to the next request. -/
def Retrieves (entry : DirectoryEntry n) : List (ShmemReq n V) → Prop
  | [] => False
  | req :: rest =>
    match req.msgType with
    | .exReq => entry.dstate = .uncached
    | .shReq => entry.dstate = .uncached ∨ entry.dstate = .shared
    | .upgradeReq => entry.dstate = .uncached ∧ req.dataBuf = none
    | .nullifyReq => entry.dstate = .uncached ∧ Retrieves .new rest

theorem Retrieves.unowned {entry : DirectoryEntry n} {queue : List (ShmemReq n V)}
    (retrieves : Retrieves entry queue) : entry.dstate = .uncached ∨ entry.dstate = .shared := by
  cases queue with
  | nil => exact retrieves.elim
  | cons req rest =>
    unfold Retrieves at retrieves
    split at retrieves
    · exact .inl retrieves
    · exact retrieves
    · exact .inl retrieves.1
    · exact .inl retrieves.1

theorem Retrieves.congr {entry other : DirectoryEntry n} {queue : List (ShmemReq n V)}
    (retrieves : Retrieves entry queue) (same : other.dstate = entry.dstate) : Retrieves other queue := by
  cases queue with
  | nil => exact retrieves
  | cons req rest =>
    unfold Retrieves at retrieves ⊢
    rwa [same]

section Core

variable (protocol : Protocol) (promise : Promise) (sys : Sys n V)

/-- DRAM supplies the last value written. -/
def Durable (toDram : List (DramMsg V)) : Prop := promise.durable → MemoryHolds sys.last toDram sys.dram

def waits (head : Option (ShmemReq n V)) : Bool := head.any (·.waitForData)

/-- The part of the invariant that does not mention the directory entry. -/
structure Frame (dir : Dir n V) (waiting : Bool) : Prop where
  queue : QueueOk promise.clean dir.queue
  reads : dir.toDram.countP DramMsg.isRead + sys.fromDram.length = waiting.toNat
  fetched : ∀ data ∈ sys.fromDram, Good promise.clean sys.last data
  log : replay dir.log = some (dir.queue.map ShmemReq.key, false)
  nuca : dir.hasNuca = false → dir.nuca = none
  direct : promise.durable → dir.hasNuca = false

def LocalAt (dir : Dir n V) (role : Role) (id : Fin n) : Prop :=
  Local (Good promise.clean sys.last) (Durable promise sys dir.toDram) role (sys.llc id) (sys.up id) (dir.down id)

structure Core (dir : Dir n V) (head : Option (ShmemReq n V)) : Prop extends
    Frame promise sys dir (waits head) where
  entry : EntryOk protocol dir.getEntry
  caches : ∀ id, LocalAt promise sys dir (roleOf dir.getEntry head dir.queue id) id

/-- The memory side can supply the line, as far as the given requests take it from there. -/
structure Backed (dir : Dir n V) (queue : List (ShmemReq n V)) : Prop where
  nuca : Retrieves dir.getEntry queue → ∀ data, dir.nuca = some data → Good promise.clean sys.last data
  dram : dir.getEntry.dstate = .uncached ∨ dir.getEntry.dstate = .shared → Durable promise sys dir.toDram

structure HeadOk (entry : DirectoryEntry n) (req : ShmemReq n V) : Prop where
  cached : entry.dstate ≠ .uncached
  granting : req.waitForData = true ∨ req.forwardingFrom ≠ none → req.msgType ≠ .nullifyReq ∧
    entry.sharers req.requester = true
  forwarding : ∀ id, req.forwardingFrom = some id → req.msgType = .shReq ∧ entry.dstate = .shared ∧
    id ≠ req.requester ∧ (req.waitForData = false → entry.sharers id = true)
  exclusive : req.waitForData = true → (req.msgType = .shReq → entry.dstate ≠ .modified) ∧
    (req.msgType ≠ .shReq → entry.dstate = .modified)
  shared : req.msgType = .shReq → req.waitForData = false → req.forwardingFrom = none →
    entry.dstate ≠ .shared

structure Stable (dir : Dir n V) : Prop where
  core : Core protocol promise sys dir dir.queue.head?
  head : ∀ req, dir.queue.head? = some req → HeadOk dir.getEntry req
  dram : dir.getEntry.dstate = .uncached ∨ dir.getEntry.dstate = .shared ∨
    waits dir.queue.head? = true → Durable promise sys dir.toDram

/-- The request at the head of the queue is answered, and the rest is as it should be
once the request is gone. -/
structure Completed (dir : Dir n V) : Prop where
  core : Core protocol promise sys
    { dir with queue := dir.queue.tail, log := dir.log ++ [.dequeued] } none
  nonempty : dir.queue ≠ []
  later : ∀ req ∈ dir.queue.tail, req.Fresh ∧ req.msgType ≠ .nullifyReq
  dram : dir.getEntry.dstate = .uncached ∨ dir.getEntry.dstate = .shared → Durable promise sys dir.toDram
  nuca : Retrieves dir.getEntry dir.queue.tail → ∀ data, dir.nuca = some data → Good promise.clean sys.last data

end Core

section Lemmas

variable {queue : List (ShmemReq n V)} {req : ShmemReq n V} {rest : List (ShmemReq n V)} {id : Fin n}
  {entry : DirectoryEntry n} {head : Option (ShmemReq n V)}

theorem queuedOf_eq_none :
    queuedOf queue id = none ↔ ∀ req ∈ queue, req.requester = id → req.msgType = .nullifyReq := by
  simp [queuedOf]

theorem queuedOf_cons_self (request : req.msgType ≠ .nullifyReq) :
    queuedOf (req :: rest) req.requester = some req.msgType := by
  simp [queuedOf, request]

theorem queuedOf_cons_other (other : id ≠ req.requester) : queuedOf (req :: rest) id = queuedOf rest id := by
  simp [queuedOf, Ne.symm other]

theorem queuedOf_cons_nullify (nullify : req.msgType = .nullifyReq) :
    queuedOf (req :: rest) id = queuedOf rest id := by
  simp [queuedOf, nullify]

theorem queuedOf_cons_congr {other : ShmemReq n V} (msgType : other.msgType = req.msgType)
    (requester : other.requester = req.requester) :
    queuedOf (other :: rest) id = queuedOf (req :: rest) id := by
  simp only [queuedOf, List.find?_cons, msgType, requester]
  split
  · exact congrArg some msgType
  · rfl

theorem queuedOf_append_self (none : queuedOf queue req.requester = none)
    (request : req.msgType ≠ .nullifyReq) :
    queuedOf (queue ++ [req]) req.requester = some req.msgType := by
  simp only [queuedOf, Option.map_eq_none_iff] at none
  simp only [queuedOf, List.find?_append, none, Option.none_or]
  simp [request]

theorem queuedOf_append_other (other : id ≠ req.requester) :
    queuedOf (queue ++ [req]) id = queuedOf queue id := by
  simp [queuedOf, List.find?_append, Ne.symm other]

theorem queuedOf_append_nullify (nullify : req.msgType = .nullifyReq) :
    queuedOf (queue ++ [req]) id = queuedOf queue id := by
  simp [queuedOf, List.find?_append, nullify]

theorem QueueOk.queuedOf_tail {clean : Prop} (ok : QueueOk clean (req :: rest))
    (request : req.msgType ≠ .nullifyReq) : queuedOf rest req.requester = none := by
  refine queuedOf_eq_none.mpr fun later member same => ?_
  exact absurd same.symm (List.rel_of_pairwise_cons ok.distinct member request)

theorem roleOf_absent (absent : entry.sharers id = false) :
    roleOf entry head queue id = .absent (queuedOf queue id) := by
  simp [roleOf, absent]

theorem roleOf_granting (grants : granting head id = true) :
    roleOf entry head queue id = .absent (queuedOf queue id) := by
  simp [roleOf, grants]

theorem roleOf_sharer (present : entry.sharers id = true) (stays : granting head id = false) :
    roleOf entry head queue id =
      .sharer entry.dstate (awaitOf entry.dstate head id) (queuedOf queue id) := by
  simp [roleOf, present, stays]

theorem roleOf_settled (present : entry.sharers id = true) :
    roleOf entry none queue id = .sharer entry.dstate none (queuedOf queue id) :=
  roleOf_sharer present rfl

theorem roleOf_eq_sharer {dstate : DState} {await : Option Await} {queued : Option ReqType}
    (role : roleOf entry head queue id = .sharer dstate await queued) :
    entry.sharers id = true ∧ granting head id = false ∧ dstate = entry.dstate ∧
      await = awaitOf entry.dstate head id ∧ queued = queuedOf queue id := by
  unfold roleOf at role
  split at role
  case isTrue present =>
    cases role
    exact ⟨present.1, present.2, rfl, rfl, rfl⟩
  case isFalse => cases role

theorem roleOf_eq_absent {queued : Option ReqType} (role : roleOf entry head queue id = .absent queued) :
    queued = queuedOf queue id ∧ (entry.sharers id = true → granting head id = true) := by
  unfold roleOf at role
  split at role
  case isTrue => cases role
  case isFalse outside =>
    refine ⟨(Role.absent.inj role).symm, fun present => ?_⟩
    simpa [present] using outside

theorem roleOf_fits : (roleOf entry head queue id).Fits := by
  unfold roleOf
  split
  · cases head with
    | none => trivial
    | some req =>
      simp only [awaitOf, Option.bind_some, awaitFor]
      split
      · trivial
      · cases entry.dstate <;> cases req.msgType <;> simp only [] <;> first
          | trivial | rfl | exact .inl rfl | exact .inr rfl | (split <;> trivial)
  · trivial

theorem granting_of_fresh (fresh : req.Fresh) : granting (some req) id = false := by
  simp [granting, fresh.waitForData, fresh.forwardingFrom]

end Lemmas

section Replay

variable {log : List (Event n)} {front : ReqType × Fin n} {rest queue : List (ReqType × Fin n)}

theorem replay_enqueued (msgType : ReqType) (requester : Fin n) (before : replay log = some (queue, false)) :
    replay (log ++ [.enqueued msgType requester]) = some (queue ++ [(msgType, requester)], false) := by
  simp only [replay, List.foldl_append, List.foldl_cons, List.foldl_nil] at before ⊢
  rw [before]
  rfl

theorem replay_serving (before : replay log = some (front :: rest, false)) :
    replay (log ++ [.serving front.1 front.2]) = some (front :: rest, false) := by
  simp only [replay, List.foldl_append, List.foldl_cons, List.foldl_nil] at before ⊢
  rw [before]
  simp [replayEvent]

theorem replay_replied (before : replay log = some (front :: rest, false)) (request : front.1 ≠ .nullifyReq) :
    replay (log ++ [.replied front.2]) = some (front :: rest, true) := by
  simp only [replay, List.foldl_append, List.foldl_cons, List.foldl_nil] at before ⊢
  rw [before]
  simp [replayEvent, request]

theorem replay_dequeued {answered : Bool} (before : replay log = some (front :: rest, answered))
    (complete : answered = decide (front.1 ≠ .nullifyReq)) :
    replay (log ++ [.dequeued]) = some (rest, false) := by
  simp only [replay, List.foldl_append, List.foldl_cons, List.foldl_nil] at before ⊢
  rw [before]
  cases answered <;> simp [replayEvent, ← complete]

end Replay

section Memory

variable {last : V} {toDram : List (DramMsg V)} {dram : LineBuf V}

theorem MemoryHolds.read (holds : MemoryHolds last toDram dram) :
    MemoryHolds last (toDram ++ [.readReq]) dram := by
  induction toDram generalizing dram with
  | nil => exact ⟨holds, holds⟩
  | cons msg rest ih =>
    cases msg with
    | readReq => exact ⟨holds.1, ih holds.2⟩
    | writeReq => exact ih holds

theorem MemoryHolds.write (noRead : toDram.countP DramMsg.isRead = 0) :
    MemoryHolds last (toDram ++ [.writeReq (.bytes last)]) dram := by
  induction toDram generalizing dram with
  | nil => rfl
  | cons msg rest ih =>
    cases msg with
    | readReq => simp [DramMsg.isRead] at noRead
    | writeReq data =>
      simp only [List.countP_cons, DramMsg.isRead, Bool.false_eq_true, if_false, Nat.add_zero] at noRead
      exact ih noRead

end Memory

end Sniper.Directory

import Sniper.Directory.Requests

/-! How a message to the directory changes the role of its sender.

`Core.enqueue` is the case of a request, `Core.remove` the case of a copy that is gone.
When that completes what the request in service waits for, `Core.settle` leads back to
the handlers of the requests. -/

namespace Sniper.Directory

variable {n : Nat} {V : Type}

/-- The system once the directory has taken the first message of the cache. -/
def Sys.took (sys : Sys n V) (cache : Fin n) (rest : List (CacheMsg V)) : Sys n V :=
  { sys with up := Function.update sys.up cache rest }

section Moves

variable {protocol : Protocol} {promise : Promise} {sys : Sys n V} {dir : Dir n V} {cache : Fin n}
  {head : Option (ShmemReq n V)} {req : ShmemReq n V} {queue : List (ShmemReq n V)} {rest : List (CacheMsg V)}

theorem LocalAt.took_other (dir : Dir n V) {role : Role} {id : Fin n} (here : LocalAt promise sys dir role id)
    (other : id ≠ cache) : LocalAt promise (sys.took cache rest) dir role id := by
  change Local _ (Durable promise sys dir.toDram) role (sys.llc id) (Function.update sys.up cache rest id) _
  rw [Function.update_of_ne other]
  exact here

theorem LocalAt.took (dir : Dir n V) {role : Role}
    (here : Local (Good promise.clean sys.last) (Durable promise sys dir.toDram) role (sys.llc cache) rest
      (dir.down cache)) :
    LocalAt promise (sys.took cache rest) dir role cache := by
  change Local _ (Durable promise sys dir.toDram) role (sys.llc cache)
    (Function.update sys.up cache rest cache) _
  rw [Function.update_self]
  exact here

theorem Frame.took {waiting : Bool} (frame : Frame promise sys dir waiting) :
    Frame promise (sys.took cache rest) dir waiting :=
  ⟨frame.queue, frame.reads, frame.fetched, frame.log, frame.nuca, frame.direct⟩

theorem QueueOk.append {clean : Prop} (ok : QueueOk clean queue) (fresh : req.Fresh)
    (empty : req.dataBuf = none) (last : queue ≠ [] → req.msgType ≠ .nullifyReq)
    (unqueued : queuedOf queue req.requester = none) : QueueOk clean (queue ++ [req]) := by
  refine ⟨?_, ?_, ?_⟩
  · refine List.pairwise_append.mpr ⟨ok.distinct, List.pairwise_singleton _ req, ?_⟩
    intro earlier member later isLast request same
    rw [List.mem_singleton.mp isLast] at same
    exact request (queuedOf_eq_none.mp unqueued earlier member same)
  · intro later member
    cases queue with
    | nil => cases member
    | cons first others =>
      rcases List.mem_append.mp member with member | member
      · exact ok.tail later member
      · rw [List.mem_singleton.mp member]
        exact ⟨fresh, last (List.cons_ne_nil _ _)⟩
  · intro later member data stored
    rcases List.mem_append.mp member with member | member
    · exact ok.stored later member data stored
    · rw [List.mem_singleton.mp member, empty] at stored
      cases stored

theorem roleOf_enqueue_other {entry : DirectoryEntry n} {id : Fin n}
    (other : id ≠ req.requester ∨ req.msgType = .nullifyReq) :
    roleOf entry head (queue ++ [req]) id = roleOf entry head queue id := by
  rcases other with other | nullify
  · simp only [roleOf, queuedOf_append_other other]
  · simp only [roleOf, queuedOf_append_nullify nullify]

theorem Core.unqueued {msgType : ReqType} (core : Core protocol promise sys dir head)
    (sent : sys.up cache = .req msgType :: rest) :
    queuedOf dir.queue cache = none ∧ msgType ≠ .nullifyReq := by
  have here := core.caches cache
  unfold LocalAt at here
  rw [sent] at here
  rcases here.pop_req with ⟨role, type, _⟩ | ⟨await, role, type, _⟩
  · refine ⟨(roleOf_eq_absent role).1.symm, ?_⟩
    rcases type with rfl | rfl <;> rintro ⟨⟩
  · obtain ⟨_, _, _, _, unqueued⟩ := roleOf_eq_sharer role
    exact ⟨unqueued.symm, by rw [type]; rintro ⟨⟩⟩

theorem Core.enqueue {msgType : ReqType} (core : Core protocol promise sys dir head)
    (sent : sys.up cache = .req msgType :: rest) :
    Core protocol promise (sys.took cache rest) (dir.enqueue { msgType, requester := cache }) head := by
  obtain ⟨unqueued, request⟩ := core.unqueued sent
  refine { queue := core.queue.append ⟨rfl, rfl⟩ rfl (fun _ => request) unqueued, reads := core.reads,
           fetched := core.fetched, log := ?_, nuca := core.nuca, direct := core.direct, entry := core.entry,
           caches := ?_ }
  · have logged := replay_enqueued msgType cache core.log
    simpa [Dir.enqueue, ShmemReq.key] using logged
  · intro id
    by_cases same : id = cache
    · subst same
      have here := core.caches id
      unfold LocalAt at here
      rw [sent] at here
      refine LocalAt.took _ ?_
      change Local _ _ (roleOf dir.getEntry head (dir.queue ++ [_]) id) _ _ _
      have queued : queuedOf (dir.queue ++ [{ msgType, requester := id }]) id = some msgType :=
        queuedOf_append_self unqueued request
      rcases here.pop_req with ⟨role, _, arrived⟩ | ⟨await, role, rfl, arrived⟩
      · have outside := (roleOf_eq_absent role).2
        have stays : roleOf dir.getEntry head (dir.queue ++ [{ msgType, requester := id }]) id =
            .absent (some msgType) := by
          rw [roleOf, if_neg, queued]
          rintro ⟨present, passes⟩
          rw [outside present] at passes
          cases passes
        rw [stays]
        exact arrived
      · obtain ⟨present, passes, dstate, awaits, _⟩ := roleOf_eq_sharer role
        rw [roleOf_sharer present passes, queued, ← dstate, dstate, ← awaits, ← dstate]
        exact arrived
    · have here := core.caches id
      change LocalAt promise _ _ (roleOf dir.getEntry head (dir.queue ++ [_]) id) id
      rw [roleOf_enqueue_other (.inl same)]
      exact LocalAt.took_other _ here same

theorem Stable.handle_req {msgType : ReqType} (stable : Stable protocol promise sys dir)
    (sent : sys.up cache = .req msgType :: rest)
    (backed : dir.queue = [] → Backed promise sys dir [{ msgType, requester := cache }]) :
    ∃ after, handleReqFromL2Cache protocol dir cache msgType = .ok after ∧
      Stable protocol promise (sys.took cache rest) after := by
  have core := stable.core.enqueue sent
  have request := (stable.core.unqueued sent).2
  unfold handleReqFromL2Cache
  cases queue : dir.queue with
  | nil =>
    rw [queue] at core
    have front : (dir.enqueue { msgType, requester := cache }).queue =
        [{ msgType, requester := cache }] := by
      simp [Dir.enqueue, queue]
    obtain ⟨after, ran, stable⟩ := core.process front ⟨rfl, rfl⟩ (absurd · request)
      next_finishes (by rw [front]; exact ⟨(backed queue).nuca, (backed queue).dram⟩)
    refine ⟨after, ?_, stable⟩
    simpa [front] using ran
  | cons first others =>
    have long : (dir.enqueue { msgType, requester := cache }).queue.length ≠ 1 := by
      simp [Dir.enqueue, queue]
    have same : (dir.enqueue { msgType, requester := cache }).queue.head? = dir.queue.head? := by
      simp [Dir.enqueue, queue]
    refine ⟨_, if_neg long, ?_, ?_, ?_⟩
    · rwa [same]
    · rw [same]
      exact stable.head
    · rw [same]
      exact stable.dram

/-! ### A sharer gives up its copy -/

/-- The entry after `removeSharer` and the updates that go with it. -/
structure Removes (entry after : DirectoryEntry n) (id : Fin n) : Prop where
  sharers : after.sharers = Function.update entry.sharers id false
  dstate : after.dstate = if after.getNumSharers = 0 then .uncached else entry.dstate
  forwarder : after.forwarder = .invalid ∨ after.forwarder = entry.forwarder ∧ after.forwarder ≠ .core id

theorem Removes.dstate_of_present {entry after : DirectoryEntry n} {id other : Fin n}
    (removes : Removes entry after id) (present : after.sharers other = true) : after.dstate = entry.dstate := by
  rw [removes.dstate, if_neg]
  intro none
  rw [DirectoryEntry.getNumSharers_eq_zero.mp none other] at present
  cases present

theorem Removes.present {entry after : DirectoryEntry n} {id other : Fin n} (removes : Removes entry after id)
    (different : other ≠ id) : after.sharers other = entry.sharers other := by
  rw [removes.sharers, Function.update_of_ne different]

theorem Removes.absent {entry after : DirectoryEntry n} {id : Fin n} (removes : Removes entry after id) :
    after.sharers id = false := by
  rw [removes.sharers, Function.update_self]

theorem Removes.uncached {entry after : DirectoryEntry n} {id : Fin n} (removes : Removes entry after id)
    (ok : EntryOk protocol entry) (present : entry.sharers id = true)
    (owned : entry.dstate = .exclusive ∨ entry.dstate = .modified) : after.dstate = .uncached := by
  obtain ⟨owner, _, only⟩ := ok.owner owned
  rw [removes.dstate, if_pos]
  refine DirectoryEntry.getNumSharers_eq_zero.mpr fun other => ?_
  by_cases same : other = id
  · rw [same]
    exact removes.absent
  · rw [removes.present same]
    cases held : entry.sharers other with
    | false => rfl
    | true => exact absurd (((only other).mp held).trans ((only id).mp present).symm) same

theorem Removes.entryOk {entry after : DirectoryEntry n} {id : Fin n} (removes : Removes entry after id)
    (ok : EntryOk protocol entry) (present : entry.sharers id = true) : EntryOk protocol after := by
  refine ⟨⟨?_, ?_⟩, ?_, ?_, ?_, ?_⟩
  · intro uncached other
    cases held : after.sharers other with
    | false => rfl
    | true =>
      have cached := (removes.dstate_of_present held).symm.trans uncached
      by_cases same : other = id
      · rw [same, removes.absent] at held
        cases held
      · rw [removes.present same, ok.uncached.mp cached other] at held
        cases held
  · intro none
    rw [removes.dstate, if_pos (DirectoryEntry.getNumSharers_eq_zero.mpr none)]
  · intro owned
    have cached : entry.dstate = .exclusive ∨ entry.dstate = .modified := by
      rw [removes.dstate] at owned
      split at owned
      · rcases owned with owned | owned <;> cases owned
      · exact owned
    rw [removes.uncached ok present cached] at owned
    rcases owned with owned | owned <;> cases owned
  · rw [removes.dstate]
    split
    · rintro ⟨⟩
    · exact ok.notOwned
  · intro forwarder isForwarder
    rcases removes.forwarder with invalid | ⟨same, other⟩
    · rw [invalid] at isForwarder
      cases isForwarder
    · have different : forwarder ≠ id := by
        rintro rfl
        exact other isForwarder
      rw [removes.present different]
      exact ok.forwarder forwarder (same ▸ isForwarder)
  · intro mesif shared
    rcases removes.forwarder with invalid | ⟨same, _⟩
    · rw [invalid]
      rintro ⟨⟩
    · rw [same]
      refine ok.initialised mesif ?_
      rw [removes.dstate] at shared
      split at shared
      · cases shared
      · exact shared

theorem Core.remove {entry : DirectoryEntry n} {queued : Option ReqType}
    (core : Core protocol promise sys dir head) (removes : Removes dir.getEntry entry cache)
    (present : dir.getEntry.sharers cache = true) (isQueued : queued = queuedOf dir.queue cache)
    (gone : Local (Good promise.clean sys.last) (Durable promise sys dir.toDram) (.absent queued)
      (sys.llc cache) rest (dir.down cache)) :
    Core protocol promise (sys.took cache rest) (dir.setEntry entry) head := by
  have frame : Frame promise (sys.took cache rest) (dir.setEntry entry) (waits head) :=
    { core.toFrame.took with }
  refine { frame with entry := removes.entryOk core.entry present, caches := fun id => ?_ }
  change LocalAt promise _ (dir.setEntry entry) (roleOf entry head dir.queue id) id
  by_cases same : id = cache
  · subst same
    rw [roleOf_absent removes.absent, ← isQueued]
    exact LocalAt.took (dir.setEntry entry) gone
  · have role : roleOf entry head dir.queue id = roleOf dir.getEntry head dir.queue id := by
      cases held : entry.sharers id with
      | false => rw [roleOf_absent held, roleOf_absent ((removes.present same).symm.trans held)]
      | true => simp only [roleOf, removes.dstate_of_present held, removes.present same]
    rw [role]
    exact LocalAt.took_other (dir.setEntry entry) (core.caches id) same

/-- Nothing is awaited from the remaining sharers, so the request in service can be
taken up from scratch. -/
theorem Core.settle (core : Core protocol promise sys dir (some req)) (fresh : req.Fresh)
    (idle : ∀ id, dir.getEntry.sharers id = true → awaitFor dir.getEntry.dstate req id = none) :
    Core protocol promise sys dir none := by
  have waiting : waits (some req) = waits (none : Option (ShmemReq n V)) := by
    simp [waits, fresh.waitForData]
  have frame := core.toFrame
  rw [waiting] at frame
  refine { frame with entry := core.entry, caches := fun id => ?_ }
  have here := core.caches id
  have role : roleOf dir.getEntry (some req) dir.queue id = roleOf dir.getEntry none dir.queue id := by
    cases held : dir.getEntry.sharers id with
    | false => rw [roleOf_absent held, roleOf_absent held]
    | true =>
      rw [roleOf_sharer held (granting_of_fresh fresh), roleOf_settled held]
      exact congrArg (Role.sharer _ · _) (idle id held)
  rwa [role] at here

theorem HeadOk.fresh {entry : DirectoryEntry n} (ok : HeadOk entry req) (request : req.msgType ≠ .shReq)
    (unmodified : entry.dstate ≠ .modified) : req.Fresh := by
  constructor
  · cases waiting : req.waitForData with
    | false => rfl
    | true => exact absurd ((ok.exclusive waiting).2 request) unmodified
  · cases forwarding : req.forwardingFrom with
    | none => rfl
    | some id => exact absurd (ok.forwarding id forwarding).1 request

theorem HeadOk.remove {entry after : DirectoryEntry n} (ok : HeadOk entry req)
    (removes : Removes entry after cache) (granted : req.waitForData = true ∨ req.forwardingFrom ≠ none)
    (other : cache ≠ req.requester) (forwards : req.waitForData = true ∨ req.forwardingFrom ≠ some cache) :
    HeadOk after req := by
  have requester : after.sharers req.requester = true := by
    rw [removes.present (Ne.symm other)]
    exact (ok.granting granted).2
  have dstate := removes.dstate_of_present requester
  refine ⟨?_, fun granted => ⟨(ok.granting granted).1, requester⟩, ?_, ?_, ?_⟩
  · rw [dstate]
    exact ok.cached
  · intro id forwarding
    obtain ⟨isSh, shared, different, sharer⟩ := ok.forwarding id forwarding
    refine ⟨isSh, dstate ▸ shared, different, fun unserved => ?_⟩
    have apart : id ≠ cache := by
      rintro rfl
      rcases forwards with waiting | elsewhere
      · rw [unserved] at waiting
        cases waiting
      · exact elsewhere forwarding
    rw [removes.present apart]
    exact sharer unserved
  · rw [dstate]
    exact ok.exclusive
  · rw [dstate]
    exact ok.shared

theorem Dir.entry_of_sharer {id : Fin n} (present : dir.getEntry.sharers id = true) :
    dir.entry = some dir.getEntry := by
  cases stored : dir.entry with
  | none => simp [Dir.getEntry, stored, DirectoryEntry.new] at present
  | some entry => simp [Dir.getEntry, stored]

theorem Core.process_again {others : List (ShmemReq n V)} (core : Core protocol promise sys dir (some req))
    (front : dir.queue = req :: others) (type : req.msgType = .shReq)
    (unserved : req.waitForData = false) (left : ∃ id, req.forwardingFrom = some id ∧
      dir.getEntry.sharers id = false ∧ id ≠ req.requester)
    (shared : dir.getEntry.dstate = .shared) (sharer : dir.getEntry.sharers req.requester = true)
    (backed : Backed promise sys dir dir.queue) :
    ∃ after, processReq protocol (Dir.next protocol) dir req none = .ok after ∧
      Stable protocol promise sys after := by
  obtain ⟨forwarder, forwarding, absent, different⟩ := left
  have request : req.msgType ≠ .nullifyReq := by rw [type]; rintro ⟨⟩
  have serving : Serving dir ((dir.serving .shReq req.requester).setEntry dir.getEntry) req := .request type
  have frame : Frame promise sys dir false := by
    have frame := core.toFrame
    simpa only [waits, Option.any_some, unserved] using frame
  have grants : granting (some req) req.requester = true := by
    simp [granting, request, forwarding]
  have admits := frame.admits front request serving core.entry sharer
    (by
      intro id other
      have here := core.caches id
      cases present : dir.getEntry.sharers id with
      | false =>
        rw [roleOf_absent present]
        rwa [roleOf_absent present] at here
      | true =>
        have passes : granting (some req) id = false := by simp [granting, Ne.symm other]
        have elsewhere : forwarder ≠ id := by
          rintro rfl
          rw [absent] at present
          cases present
        rw [roleOf_sharer present passes] at here
        rw [roleOf_settled present]
        simpa [awaitOf, awaitFor, unserved, shared, type, forwarding, elsewhere] using here)
    (by
      have here := core.caches req.requester
      rwa [roleOf_granting grants, front, queuedOf_cons_self request] at here)
  obtain ⟨after, ran, stable⟩ := admits.retrieve_source .shRep next_finishes rfl
    (by
      intro bytes good waiters demand
      change Fill _ _ dir.getEntry.dstate _ _
      rw [shared]
      exact .shared good (type ▸ demand))
    (backed.nuca (by simp [front, Retrieves, type, shared])) (backed.dram (.inr shared)) unserved
    (by
      intro id isForwarder
      rw [forwarding] at isForwarder
      cases isForwarder
      exact ⟨type, shared, different⟩)
    (fun _ => ⟨type, by rw [forwarding]; rintro ⟨⟩⟩)
    (by
      refine ⟨fun _ => ?_, absurd type⟩
      change dir.getEntry.dstate ≠ .modified
      rw [shared]
      rintro ⟨⟩)
  refine ⟨after, ?_, stable⟩
  simp only [processReq, type, processShReqFromL2Cache, Dir.getEntry_setEntry, shared,
    DirectoryEntry.hasSharer, sharer, if_true]
  exact ran

end Moves

end Sniper.Directory

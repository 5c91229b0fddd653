import Sniper.Directory.Invariant

/-! The two ways to serve a request.

`Core.serve` is the case of a request that has to ask other caches first, `Admits`
the case of a request whose requester becomes a sharer. -/

namespace Sniper.Directory

variable {n : Nat} {V : Type}

namespace Dir

variable {dir : Dir n V}

@[simp] theorem getEntry_setEntry (entry : DirectoryEntry n) : (dir.setEntry entry).getEntry = entry := rfl

theorem sendEach_eq (receivers : List (Fin n)) (msg : DirMsg V) (distinct : receivers.Nodup) :
    dir.sendEach receivers msg =
      { dir with down := fun id => dir.down id ++ if id ∈ receivers then [msg] else [] } := by
  induction receivers generalizing dir with
  | nil => simp [sendEach]
  | cons first rest ih =>
    obtain ⟨notAgain, distinct⟩ := List.nodup_cons.mp distinct
    have tail : dir.sendEach (first :: rest) msg = (dir.sendMsg first msg).sendEach rest msg := rfl
    rw [tail, ih distinct]
    simp only [sendMsg, Dir.mk.injEq, true_and, and_true]
    funext id
    by_cases same : id = first
    · subst same
      simp [notAgain]
    · simp [same]

end Dir

section Serve

variable {protocol : Protocol} {promise : Promise} {sys : Sys n V} {dir after : Dir n V}
  {req : ShmemReq n V} {rest : List (ShmemReq n V)}

/-- `after` is `dir` once the request at its head has asked the sharers it waits for. -/
structure Asks (dir after : Dir n V) (req : ShmemReq n V) : Prop where
  entry : after.getEntry = dir.getEntry
  queue : after.queue = dir.queue
  toDram : after.toDram = dir.toDram
  hasNuca : after.hasNuca = dir.hasNuca
  nuca : after.nuca = dir.nuca
  log : after.log = dir.log ++ [.serving req.msgType req.requester]
  asked : ∀ id, dir.getEntry.sharers id = true → ∃ msgs,
    Outstanding (awaitFor dir.getEntry.dstate req id) msgs ∧ after.down id = dir.down id ++ msgs
  others : ∀ id, dir.getEntry.sharers id = false → after.down id = dir.down id

theorem HeadOk.of_fresh {entry : DirectoryEntry n} (fresh : req.Fresh) (cached : entry.dstate ≠ .uncached)
    (unshared : req.msgType = .shReq → entry.dstate ≠ .shared) : HeadOk entry req := by
  refine ⟨cached, ?_, ?_, ?_, fun shared _ _ => unshared shared⟩
  · rintro (waiting | forwarding)
    · rw [fresh.waitForData] at waiting
      cases waiting
    · exact absurd fresh.forwardingFrom forwarding
  · intro id forwarding
    rw [fresh.forwardingFrom] at forwarding
    cases forwarding
  · intro waiting
    rw [fresh.waitForData] at waiting
    cases waiting

theorem Core.serve (core : Core protocol promise sys dir none) (front : dir.queue = req :: rest)
    (fresh : req.Fresh) (cached : dir.getEntry.dstate ≠ .uncached)
    (unshared : req.msgType = .shReq → dir.getEntry.dstate ≠ .shared)
    (dram : dir.getEntry.dstate = .shared → Durable promise sys dir.toDram)
    (asks : Asks dir after req) : Stable protocol promise sys after := by
  have head : after.queue.head? = some req := by rw [asks.queue, front]; rfl
  have patient : waits (some req) = false := by simp [waits, fresh.waitForData]
  have durable : Durable promise sys after.toDram = Durable promise sys dir.toDram := by rw [asks.toDram]
  refine ⟨{ queue := ?_, reads := ?_, fetched := core.fetched, log := ?_, nuca := ?_, direct := ?_,
            entry := ?_, caches := ?_ }, ?_, ?_⟩
  · rw [asks.queue]
    exact core.queue
  · rw [head, patient, asks.toDram]
    exact core.reads
  · rw [asks.log, asks.queue]
    have before := core.log
    rw [front] at before ⊢
    exact replay_serving before
  · rw [asks.hasNuca, asks.nuca]
    exact core.nuca
  · rw [asks.hasNuca]
    exact core.direct
  · rw [asks.entry]
    exact core.entry
  · intro id
    have here := core.caches id
    unfold LocalAt at here ⊢
    rw [asks.entry, head, asks.queue, durable]
    cases present : dir.getEntry.sharers id with
    | false =>
      rw [asks.others id present, roleOf_absent present]
      rwa [roleOf_absent present] at here
    | true =>
      obtain ⟨msgs, outstanding, sent⟩ := asks.asked id present
      rw [sent, roleOf_sharer present (granting_of_fresh fresh)]
      rw [roleOf_settled present] at here
      exact here.ask outstanding
  · intro served same
    rw [head] at same
    cases same
    rw [asks.entry]
    exact .of_fresh fresh cached unshared
  · rw [asks.entry, head, patient, durable]
    rintro (uncached | shared | waiting)
    · exact absurd uncached cached
    · exact dram shared
    · cases waiting

/-! ### Requests whose requester becomes a sharer -/

/-- The directory counts the requester as a sharer and now has to send it the line. -/
structure Admits (protocol : Protocol) (promise : Promise) (sys : Sys n V) (dir : Dir n V)
    (req : ShmemReq n V) : Prop extends Frame promise sys dir false where
  front : dir.queue.head? = some req
  request : req.msgType ≠ .nullifyReq
  entry : EntryOk protocol dir.getEntry
  sharer : dir.getEntry.sharers req.requester = true
  others : ∀ id, id ≠ req.requester → LocalAt promise sys dir (roleOf dir.getEntry none dir.queue id) id
  requester : LocalAt promise sys dir (.absent (some req.msgType)) req.requester

theorem Admits.queue_eq (admits : Admits protocol promise sys dir req) : dir.queue = req :: dir.queue.tail := by
  have front := admits.front
  cases queue : dir.queue with
  | nil => simp [queue] at front
  | cons first rest =>
    rw [queue] at front
    cases front
    rfl

theorem Frame.tail {waiting : Bool} (frame : Frame promise sys dir waiting) (front : dir.queue = req :: rest) :
    QueueOk promise.clean rest := by
  have queue := frame.queue
  rw [front] at queue
  exact {
    distinct := (List.pairwise_cons.mp queue.distinct).2
    tail := fun later member => queue.tail later (List.mem_of_mem_tail member)
    stored := fun later member => queue.stored later (List.mem_cons_of_mem req member) }

theorem Admits.complete {reply : DirMsg V} (admits : Admits protocol promise sys dir req)
    (fill : ∀ waiters, Demands req.msgType waiters →
      Fill (Good promise.clean sys.last) (Durable promise sys dir.toDram) dir.getEntry.dstate waiters reply)
    (backed : Backed promise sys dir dir.queue.tail) :
    Completed protocol promise sys (dir.reply req.requester reply) := by
  have queue := admits.queue_eq
  have logged : replay (dir.log ++ [.replied req.requester]) =
      some (dir.queue.map ShmemReq.key, true) := by
    have before := admits.log
    rw [queue] at before ⊢
    exact replay_replied before admits.request
  refine ⟨{ queue := admits.toFrame.tail queue, reads := admits.reads, fetched := admits.fetched,
            log := ?_, nuca := admits.nuca, direct := admits.direct, entry := admits.entry, caches := ?_ },
    ?_, admits.queue.tail, backed.dram, backed.nuca⟩
  · rw [queue] at logged
    exact replay_dequeued logged (by simp [ShmemReq.key, admits.request])
  · intro id
    change LocalAt promise sys (dir.reply req.requester reply) (roleOf dir.getEntry none dir.queue.tail id) id
    by_cases same : id = req.requester
    · subst same
      have unqueued := (queue ▸ admits.queue : QueueOk _ (req :: dir.queue.tail)).queuedOf_tail admits.request
      rw [roleOf_settled admits.sharer, unqueued]
      have here := Local.grant admits.requester fill
      simpa [LocalAt, Dir.reply, Dir.sendMsg] using here
    · have here := admits.others id same
      have role : roleOf dir.getEntry none dir.queue id = roleOf dir.getEntry none dir.queue.tail id := by
        rw [queue, roleOf, roleOf, queuedOf_cons_other same, List.tail_cons]
      rw [role] at here
      simpa [LocalAt, Dir.reply, Dir.sendMsg, Function.update_of_ne same] using here
  · change dir.queue ≠ []
    rw [queue]
    exact List.cons_ne_nil _ _

theorem QueueOk.replaceHead {clean : Prop} {served : ShmemReq n V} (ok : QueueOk clean (req :: rest))
    (msgType : served.msgType = req.msgType) (requester : served.requester = req.requester)
    (stored : ∀ data, served.dataBuf = some data → ¬ clean) : QueueOk clean (served :: rest) where
  distinct := by
    refine List.pairwise_cons.mpr ⟨fun later member request => ?_, (List.pairwise_cons.mp ok.distinct).2⟩
    rw [requester]
    exact (List.pairwise_cons.mp ok.distinct).1 later member (msgType ▸ request)
  tail := ok.tail
  stored later member data held := by
    rcases List.mem_cons.mp member with rfl | member
    · exact stored data held
    · exact ok.stored later (List.mem_cons_of_mem _ member) data held

private theorem Admits.wait (admits : Admits protocol promise sys dir req) (served : ShmemReq n V)
    (update : ShmemReq n V → ShmemReq n V) (becomes : update req = served)
    (same : served.msgType = req.msgType ∧ served.requester = req.requester ∧ served.dataBuf = req.dataBuf)
    (waiting : served.waitForData = true ∨ served.forwardingFrom ≠ none)
    (asks : ∀ id, id ≠ req.requester → dir.getEntry.sharers id = true → ∃ msgs,
      Outstanding (awaitFor dir.getEntry.dstate served id) msgs ∧ after.down id = dir.down id ++ msgs)
    (others : ∀ id, id = req.requester ∨ dir.getEntry.sharers id = false → after.down id = dir.down id)
    (entry : after.entry = dir.entry) (queue : after.queue = dir.queue.modifyHead update)
    (toDram : Durable promise sys dir.toDram → Durable promise sys after.toDram)
    (reads : after.toDram.countP DramMsg.isRead =
      dir.toDram.countP DramMsg.isRead + served.waitForData.toNat)
    (nuca : after.hasNuca = dir.hasNuca ∧ after.nuca = dir.nuca) (log : after.log = dir.log)
    (head : HeadOk dir.getEntry served)
    (dram : dir.getEntry.dstate = .shared ∨ served.waitForData = true → Durable promise sys dir.toDram) :
    Stable protocol promise sys after := by
  have before := admits.queue_eq
  have getEntry : after.getEntry = dir.getEntry := by rw [Dir.getEntry, Dir.getEntry, entry]
  have afterQueue : after.queue = served :: dir.queue.tail := by
    rw [queue, before, List.modifyHead_cons, becomes, List.tail_cons]
  have front : after.queue.head? = some served := by rw [afterQueue]; rfl
  have old : QueueOk promise.clean (req :: dir.queue.tail) := before ▸ admits.queue
  refine ⟨{ queue := ?_, reads := ?_, fetched := admits.fetched, log := ?_, nuca := ?_, direct := ?_,
            entry := ?_, caches := ?_ }, ?_, ?_⟩
  · rw [afterQueue]
    exact old.replaceHead same.1 same.2.1 fun data stored => old.stored req (List.mem_cons_self ..) data (same.2.2 ▸ stored)
  · have none := admits.reads
    simp only [Bool.toNat_false] at none
    rw [front, reads]
    simp only [waits, Option.any_some]
    omega
  · rw [log, afterQueue]
    have logged := admits.log
    rw [before] at logged
    rw [logged]
    simp only [List.map_cons, ShmemReq.key, same.1, same.2.1]
  · rw [nuca.1, nuca.2]
    exact admits.nuca
  · rw [nuca.1]
    exact admits.direct
  · rw [getEntry]
    exact admits.entry
  · intro id
    unfold LocalAt
    rw [getEntry, front, afterQueue]
    have queued : queuedOf (served :: dir.queue.tail) id = queuedOf dir.queue id := by
      rw [before]
      exact queuedOf_cons_congr same.1 same.2.1
    by_cases requester : id = req.requester
    · subst requester
      have grants : granting (some served) req.requester = true := by
        simpa [granting, same.1, same.2.1, admits.request] using waiting
      rw [roleOf_granting grants, queued, before, queuedOf_cons_self admits.request, others _ (.inl rfl)]
      exact Local.mono admits.requester (fun _ good => good) toDram
    · have here := admits.others id requester
      have passes : granting (some served) id = false := by
        simp [granting, same.2.1, Ne.symm requester]
      cases present : dir.getEntry.sharers id with
      | false =>
        rw [roleOf_absent present, queued, others _ (.inr present)]
        rw [LocalAt, roleOf_absent present] at here
        exact here.mono (fun _ good => good) toDram
      | true =>
        obtain ⟨msgs, outstanding, sent⟩ := asks id requester present
        rw [roleOf_sharer present passes, queued, sent]
        rw [LocalAt, roleOf_settled present] at here
        exact (here.ask outstanding).mono (fun _ good => good) toDram
  · intro found eq
    rw [front] at eq
    cases eq
    rw [getEntry]
    exact head
  · rw [getEntry, front]
    rintro (uncached | shared | waiting)
    · exact absurd uncached head.cached
    · exact toDram (dram (.inl shared))
    · exact toDram (dram (.inr (by simpa [waits] using waiting)))

/-- The rest of the work ends well for queues of at most the given length. -/
def Finishes (protocol : Protocol) (promise : Promise) (sys : Sys n V)
    (next : Dir n V → Except Fault (Dir n V)) (size : Nat) : Prop :=
  ∀ done, Completed protocol promise sys done → done.queue.length ≤ size →
    ∃ after, next done = .ok after ∧ Stable protocol promise sys after

variable {next : Dir n V → Except Fault (Dir n V)}

theorem Admits.retrieve_data {entry : DirectoryEntry n} {data : LineBuf V} (replyMsg : LineBuf V → DirMsg V)
    (finishes : Finishes protocol promise sys next dir.queue.length) (stored : dir.entry = some entry)
    (admits : Admits protocol promise sys
      (dir.setEntry { entry with forwarder := .core req.requester }) req)
    (fill : ∀ waiters, Demands req.msgType waiters →
      Fill (Good promise.clean sys.last) (Durable promise sys dir.toDram) entry.dstate waiters (replyMsg data))
    (backed : Backed promise sys dir dir.queue.tail) :
    ∃ after, retrieveDataAndSendToL2Cache protocol next dir replyMsg req.requester (some data) = .ok after ∧
      Stable protocol promise sys after := by
  have getEntry : dir.getEntry = entry := by simp [Dir.getEntry, stored]
  have nuca := backed.nuca
  have dram := backed.dram
  rw [getEntry] at nuca dram
  have completed := admits.complete fill ⟨fun retrieves => nuca (retrieves.congr rfl), dram⟩
  obtain ⟨after, ran, stable⟩ := finishes _ completed (Nat.le_refl _)
  refine ⟨after, ?_, stable⟩
  simpa only [retrieveDataAndSendToL2Cache, stored] using ran

theorem Admits.cached (admits : Admits protocol promise sys dir req) : dir.getEntry.dstate ≠ .uncached := by
  intro uncached
  have absent := admits.entry.uncached.mp uncached req.requester
  rw [admits.sharer] at absent
  cases absent

theorem Admits.retrieve_forward {id : Fin n} (admits : Admits protocol promise sys dir req) (replyMsg : LineBuf V → DirMsg V)
    (stored : dir.entry = some dir.getEntry) (held : dir.nuca = none) (dram : Durable promise sys dir.toDram)
    (unserved : req.waitForData = false) (mesif : protocol = .mesif) (unforwarded : req.forwardingFrom = none)
    (isShared : dir.getEntry.dstate = .shared) (forwarder : dir.getEntry.forwarder = .core id) (isSh : req.msgType = .shReq)
    (different : id ≠ req.requester) :
    ∃ after, retrieveDataAndSendToL2Cache protocol next dir replyMsg req.requester none = .ok after ∧
      Stable protocol promise sys after := by
  have queue := admits.queue_eq
  have isSharer : dir.getEntry.sharers id = true := admits.entry.forwarder id forwarder
  let served : ShmemReq n V := { req with forwardingFrom := some id }
  refine ⟨(dir.setFront fun req => { req with forwardingFrom := some id }).sendMsg id .wbReq, ?_,
    admits.wait served _ rfl ⟨rfl, rfl, rfl⟩ (.inr (by rintro ⟨⟩)) ?_ ?_ rfl rfl (fun holds => holds)
      (by simp [Dir.sendMsg, Dir.setFront, served, unserved]) ⟨rfl, rfl⟩ rfl ?_ (fun _ => dram)⟩
  · simp only [retrieveDataAndSendToL2Cache, stored, held]
    rw [queue]
    simp [mesif, unforwarded, isShared, forwarder]
  · intro sharer _ present
    by_cases same : sharer = id
    · subst same
      refine ⟨[.wbReq], ?_, by simp [Dir.sendMsg, Dir.setFront]⟩
      simp [awaitFor, served, unserved, isShared, isSh, Outstanding, Await.Sends]
    · refine ⟨[], ?_, by simp [Dir.sendMsg, Dir.setFront, same]⟩
      simp [awaitFor, served, unserved, isShared, isSh, Ne.symm same, Outstanding]
  · intro sharer absent
    have apart : sharer ≠ id := by
      rintro rfl
      rcases absent with same | absent
      · exact different same
      · rw [isSharer] at absent
        cases absent
    simp [Dir.sendMsg, Dir.setFront, apart]
  · refine ⟨admits.cached, fun _ => ⟨admits.request, admits.sharer⟩, ?_, ?_, by rintro _ _ ⟨⟩⟩
    · rintro _ ⟨⟩
      exact ⟨isSh, isShared, different, fun _ => isSharer⟩
    · intro waiting
      rw [unserved] at waiting
      cases waiting

theorem Admits.retrieve_fetch (admits : Admits protocol promise sys dir req) (replyMsg : LineBuf V → DirMsg V)
    (stored : dir.entry = some dir.getEntry) (held : dir.nuca = none) (dram : Durable promise sys dir.toDram)
    (forwarded : ∀ id, req.forwardingFrom = some id →
      req.msgType = .shReq ∧ dir.getEntry.dstate = .shared ∧ id ≠ req.requester)
    (exclusive : (req.msgType = .shReq → dir.getEntry.dstate ≠ .modified) ∧
      (req.msgType ≠ .shReq → dir.getEntry.dstate = .modified))
    (fetches : ¬(protocol = .mesif ∧ req.forwardingFrom = none ∧ dir.getEntry.dstate = .shared ∧
      dir.getEntry.forwarder ≠ .invalid)) :
    ∃ after, retrieveDataAndSendToL2Cache protocol next dir replyMsg req.requester none = .ok after ∧
      Stable protocol promise sys after := by
  have queue := admits.queue_eq
  let served : ShmemReq n V := { req with waitForData := true }
  let fetching := dir.setFront fun req => { req with waitForData := true }
  refine ⟨{ fetching with toDram := fetching.toDram ++ [.readReq] }, ?_,
    admits.wait served _ rfl ⟨rfl, rfl, rfl⟩ (.inl rfl) ?_ (fun _ _ => rfl) rfl rfl
      (fun holds durable => (holds durable).read)
      (by simp [fetching, Dir.setFront, served, DramMsg.isRead]) ⟨rfl, rfl⟩ rfl ?_ (fun _ => dram)⟩
  · simp only [retrieveDataAndSendToL2Cache, stored, held]
    rw [queue]
    simp only [fetches, if_false]
    rfl
  · intro sharer _ _
    exact ⟨[], rfl, (List.append_nil _).symm⟩
  · refine ⟨admits.cached, fun _ => ⟨admits.request, admits.sharer⟩, ?_, fun _ => exclusive, by rintro _ ⟨⟩⟩
    intro id forwarding
    obtain ⟨isSh, isShared, different⟩ := forwarded id forwarding
    exact ⟨isSh, isShared, different, by rintro ⟨⟩⟩

/-- `retrieveDataAndSendToL2Cache` when the data has to come from the NUCA cache, the
forwarder or DRAM. -/
theorem Admits.retrieve_source (admits : Admits protocol promise sys dir req) (replyMsg : LineBuf V → DirMsg V)
    (finishes : Finishes protocol promise sys next dir.queue.length)
    (stored : dir.entry = some dir.getEntry)
    (fill : ∀ data, Good promise.clean sys.last data → ∀ waiters, Demands req.msgType waiters →
      Fill (Good promise.clean sys.last) (Durable promise sys dir.toDram) dir.getEntry.dstate waiters
        (replyMsg data))
    (nuca : ∀ data, dir.nuca = some data → Good promise.clean sys.last data)
    (dram : Durable promise sys dir.toDram)
    (unserved : req.waitForData = false)
    (forwarded : ∀ id, req.forwardingFrom = some id →
      req.msgType = .shReq ∧ dir.getEntry.dstate = .shared ∧ id ≠ req.requester)
    (shared : dir.getEntry.dstate = .shared → req.msgType = .shReq ∧
      (req.forwardingFrom = none → dir.getEntry.forwarder ≠ .core req.requester))
    (exclusive : (req.msgType = .shReq → dir.getEntry.dstate ≠ .modified) ∧
      (req.msgType ≠ .shReq → dir.getEntry.dstate = .modified)) :
    ∃ after, retrieveDataAndSendToL2Cache protocol next dir replyMsg req.requester none = .ok after ∧
      Stable protocol promise sys after := by
  cases held : dir.nuca with
  | some data =>
    have completed := admits.complete (fill data (nuca data held)) ⟨fun _ => nuca, fun _ => dram⟩
    obtain ⟨after, ran, stable⟩ := finishes _ completed (Nat.le_refl _)
    refine ⟨after, ?_, stable⟩
    simpa only [retrieveDataAndSendToL2Cache, stored, held] using ran
  | none =>
    by_cases forwards : protocol = .mesif ∧ req.forwardingFrom = none ∧ dir.getEntry.dstate = .shared ∧
        dir.getEntry.forwarder ≠ .invalid
    · obtain ⟨mesif, unforwarded, isShared, valid⟩ := forwards
      cases forwarder : dir.getEntry.forwarder with
      | uninitialised => exact absurd forwarder (admits.entry.initialised mesif isShared)
      | invalid => exact absurd forwarder valid
      | core id =>
        obtain ⟨isSh, other⟩ := shared isShared
        have different : id ≠ req.requester := by
          rintro rfl
          exact other unforwarded forwarder
        exact admits.retrieve_forward replyMsg stored held dram unserved mesif unforwarded isShared forwarder isSh different
    · exact admits.retrieve_fetch replyMsg stored held dram forwarded exclusive forwards

end Serve

end Sniper.Directory

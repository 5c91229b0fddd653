import Sniper.Directory.Serve

/-! The handlers of the four request types, and by induction on the queue
`processNextReqFromL2Cache`. -/

namespace Sniper.Directory

variable {n : Nat} {V : Type}

section Handlers

variable {protocol : Protocol} {promise : Promise} {sys : Sys n V} {dir after : Dir n V}
  {req : ShmemReq n V} {rest : List (ShmemReq n V)} {next : Dir n V → Except Fault (Dir n V)}

/-- `dir` at the start of the handler of the request at its head. -/
structure Serving (dir started : Dir n V) (req : ShmemReq n V) : Prop where
  entry : started.getEntry = dir.getEntry
  queue : started.queue = dir.queue
  down : started.down = dir.down
  toDram : started.toDram = dir.toDram
  hasNuca : started.hasNuca = dir.hasNuca
  nuca : started.nuca = dir.nuca
  log : started.log = dir.log ++ [.serving req.msgType req.requester]

variable {started : Dir n V}

theorem Serving.asks_each {receivers : List (Fin n)} (serving : Serving dir started req) (msg : DirMsg V)
    (distinct : receivers.Nodup) (sharers : ∀ id ∈ receivers, dir.getEntry.sharers id = true)
    (asked : ∀ id, dir.getEntry.sharers id = true →
      Outstanding (awaitFor dir.getEntry.dstate req id) (if id ∈ receivers then [msg] else [])) :
    Asks dir (started.sendEach receivers msg) req := by
  rw [Dir.sendEach_eq receivers msg distinct]
  refine ⟨serving.entry, serving.queue, serving.toDram, serving.hasNuca, serving.nuca, serving.log, ?_, ?_⟩
  · intro id present
    exact ⟨_, asked id present, by simp only [serving.down]⟩
  · intro id absent
    have skipped : id ∉ receivers := fun member => by
      rw [sharers id member] at absent
      cases absent
    simp only [serving.down, skipped, if_false, List.append_nil]

theorem Serving.asks_owner {await : Await} {msg : DirMsg V} (serving : Serving dir started req)
    (ok : EntryOk protocol dir.getEntry)
    (owned : dir.getEntry.dstate = .exclusive ∨ dir.getEntry.dstate = .modified)
    (awaits : ∀ id, awaitFor dir.getEntry.dstate req id = some await) (sends : await.Sends msg) :
    ∃ after, started.sendToOwner dir.getEntry msg = .ok after ∧ Asks dir after req := by
  obtain ⟨owner, isOwner, only⟩ := ok.owner owned
  refine ⟨started.sendEach [owner] msg, by simp [Dir.sendToOwner, isOwner, Dir.sendEach], ?_⟩
  refine serving.asks_each msg (List.nodup_singleton owner) ?_ ?_
  · intro id member
    exact (only id).mpr (List.mem_singleton.mp member)
  · intro id present
    rw [awaits id, if_pos (List.mem_singleton.mpr ((only id).mp present))]
    exact ⟨msg, rfl, sends⟩

/-- Every sharer is asked to invalidate its copy. -/
theorem Serving.asks_sharers (serving : Serving dir started req) (fresh : req.Fresh) (shared : dir.getEntry.dstate = .shared)
    (type : req.msgType = .exReq ∨ req.msgType = .nullifyReq) :
    Asks dir (started.sendEach dir.getEntry.getSharersList .invReq) req := by
  refine serving.asks_each .invReq dir.getEntry.getSharersList_nodup (fun id => DirectoryEntry.mem_getSharersList.mp) ?_
  intro id present
  rw [if_pos (DirectoryEntry.mem_getSharersList.mpr present)]
  rcases type with type | type <;> simp [awaitFor, fresh.waitForData, shared, type, Outstanding, Await.Sends]

theorem awaitFor_owned {dstate : DState} {id : Fin n} (fresh : req.Fresh)
    (owned : dstate = .exclusive ∨ dstate = .modified) :
    awaitFor dstate req id = some (if req.msgType = .shReq then .wb else .flush) := by
  simp only [awaitFor, fresh.waitForData]
  rcases owned with rfl | rfl <;> cases req.msgType <;> rfl

theorem Core.serve_owned {msg : DirMsg V} (core : Core protocol promise sys dir none)
    (front : dir.queue = req :: rest) (fresh : req.Fresh) (serving : Serving dir started req)
    (owned : dir.getEntry.dstate = .exclusive ∨ dir.getEntry.dstate = .modified)
    (sends : (if req.msgType = .shReq then Await.wb else .flush).Sends msg) :
    ∃ after, started.sendToOwner dir.getEntry msg = .ok after ∧ Stable protocol promise sys after := by
  obtain ⟨after, sent, asks⟩ := serving.asks_owner core.entry owned (fun _ => awaitFor_owned fresh owned) sends
  have cached : dir.getEntry.dstate ≠ .uncached ∧ dir.getEntry.dstate ≠ .shared := by
    rcases owned with owned | owned <;> rw [owned] <;> exact ⟨by rintro ⟨⟩, by rintro ⟨⟩⟩
  exact ⟨after, sent, core.serve front fresh cached.1 (fun _ => cached.2) (fun shared => absurd shared cached.2)
    asks⟩

theorem Core.serve_shared
    (core : Core protocol promise sys dir none) (front : dir.queue = req :: rest) (fresh : req.Fresh)
    (request : req.msgType ≠ .shReq) (shared : dir.getEntry.dstate = .shared)
    (dram : Durable promise sys dir.toDram) (asks : Asks dir after req) :
    Stable protocol promise sys after :=
  core.serve front fresh (by rw [shared]; rintro ⟨⟩) (fun isSh => absurd isSh request) (fun _ => dram) asks

theorem Frame.serving (frame : Frame promise sys dir false) (front : dir.queue = req :: rest)
    (serving : Serving dir started req) : Frame promise sys started false := by
  refine ⟨serving.queue ▸ frame.queue, ?_, frame.fetched, ?_, ?_, ?_⟩
  · rw [serving.toDram]
    exact frame.reads
  · rw [serving.log, serving.queue]
    have logged := frame.log
    rw [front] at logged ⊢
    exact replay_serving logged
  · rw [serving.hasNuca, serving.nuca]
    exact frame.nuca
  · rw [serving.hasNuca]
    exact frame.direct

theorem Core.requester_role (core : Core protocol promise sys dir none) (front : dir.queue = req :: rest)
    (request : req.msgType ≠ .nullifyReq) (present : dir.getEntry.sharers req.requester = true) :
    LocalAt promise sys dir (.sharer dir.getEntry.dstate none (some req.msgType)) req.requester := by
  have here := core.caches req.requester
  rwa [roleOf_settled present, front, queuedOf_cons_self request] at here

theorem Core.requester_absent (core : Core protocol promise sys dir none) (front : dir.queue = req :: rest)
    (request : req.msgType ≠ .nullifyReq)
    (fetches : ¬ (req.msgType = .upgradeReq ∧ dir.getEntry.dstate = .shared)) :
    dir.getEntry.sharers req.requester = false := by
  cases present : dir.getEntry.sharers req.requester with
  | false => rfl
  | true => exact absurd (Local.queued_sharer (core.requester_role front request present)) fetches

theorem Frame.admits {entry : DirectoryEntry n} (frame : Frame promise sys dir false)
    (front : dir.queue = req :: rest) (request : req.msgType ≠ .nullifyReq)
    (serving : Serving dir started req) (ok : EntryOk protocol entry)
    (sharer : entry.sharers req.requester = true)
    (others : ∀ id, id ≠ req.requester → LocalAt promise sys dir (roleOf entry none dir.queue id) id)
    (requester : LocalAt promise sys dir (.absent (some req.msgType)) req.requester) :
    Admits protocol promise sys (started.setEntry entry) req := by
  have frame : Frame promise sys (started.setEntry entry) false := { frame.serving front serving with }
  refine { frame with front := ?_, request, entry := ok, sharer, others := ?_, requester := ?_ }
  · change started.queue.head? = some req
    rw [serving.queue, front]
    rfl
  · intro id other
    change Local _ (Durable promise sys started.toDram) (roleOf entry none started.queue id) _ _ (started.down id)
    rw [serving.toDram, serving.queue, serving.down]
    exact others id other
  · change Local _ (Durable promise sys started.toDram) _ _ _ (started.down req.requester)
    rw [serving.toDram, serving.down]
    exact requester

theorem Core.admits {entry : DirectoryEntry n} (core : Core protocol promise sys dir none)
    (front : dir.queue = req :: rest) (request : req.msgType ≠ .nullifyReq)
    (serving : Serving dir started req) (absent : dir.getEntry.sharers req.requester = false)
    (ok : EntryOk protocol entry)
    (sharers : entry.sharers = Function.update dir.getEntry.sharers req.requester true)
    (dstate : entry.dstate = dir.getEntry.dstate ∨ dir.getEntry.dstate = .uncached) :
    Admits protocol promise sys (started.setEntry entry) req := by
  refine core.toFrame.admits front request serving ok (by rw [sharers, Function.update_self]) ?_ ?_
  · intro id other
    have role : roleOf entry none dir.queue id = roleOf dir.getEntry none dir.queue id := by
      have same : entry.sharers id = dir.getEntry.sharers id := by
        rw [sharers, Function.update_of_ne other]
      cases present : dir.getEntry.sharers id with
      | false => rw [roleOf_absent present, roleOf_absent (same.trans present)]
      | true =>
        rw [roleOf_settled present, roleOf_settled (same.trans present)]
        rcases dstate with dstate | uncached
        · rw [dstate]
        · rw [core.entry.uncached.mp uncached id] at present
          cases present
    rw [role]
    exact core.caches id
  · have here := core.caches req.requester
    rwa [roleOf_absent absent, front, queuedOf_cons_self request] at here

theorem EntryOk.own {entry : DirectoryEntry n} {id : Fin n} {dstate : DState} (ok : EntryOk protocol entry)
    (uncached : entry.dstate = .uncached)
    (kind : dstate = .exclusive ∨ dstate = .modified ∨ dstate = .shared ∧ protocol ≠ .mesif) :
    EntryOk protocol
      { entry with sharers := Function.update entry.sharers id true, owner := some id, dstate } := by
  have absent := ok.uncached.mp uncached
  have only (other : Fin n) : Function.update entry.sharers id true other = true ↔ other = id := by
    by_cases same : other = id
    · simp [same]
    · simp [same, absent]
  refine ⟨⟨?_, ?_⟩, fun _ => ⟨id, rfl, only⟩, ?_, ?_, ?_⟩
  · intro isUncached
    rcases kind with kind | kind | ⟨kind, _⟩ <;> rw [kind] at isUncached <;> cases isUncached
  · intro none
    have present := none id
    simp at present
  · rcases kind with kind | kind | ⟨kind, _⟩ <;> rw [kind] <;> rintro ⟨⟩
  · intro forwarder isForwarder
    have present := ok.forwarder forwarder isForwarder
    rw [absent forwarder] at present
    cases present
  · intro mesif isShared
    rcases kind with kind | kind | ⟨_, other⟩
    · rw [kind] at isShared
      cases isShared
    · rw [kind] at isShared
      cases isShared
    · exact absurd mesif other

theorem EntryOk.share {entry : DirectoryEntry n} {id : Fin n} (ok : EntryOk protocol entry)
    (shared : entry.dstate = .shared) :
    EntryOk protocol { entry with sharers := Function.update entry.sharers id true } := by
  refine ⟨⟨?_, ?_⟩, ?_, ok.notOwned, ?_, ok.initialised⟩
  · intro uncached
    rw [shared] at uncached
    cases uncached
  · intro none
    have present := none id
    simp at present
  · intro owned
    rw [shared] at owned
    rcases owned with owned | owned <;> cases owned
  · intro forwarder isForwarder
    by_cases same : forwarder = id
    · simp [same]
    · simpa [same] using ok.forwarder forwarder isForwarder

theorem EntryOk.forward {entry : DirectoryEntry n} {id : Fin n} (ok : EntryOk protocol entry)
    (present : entry.sharers id = true) : EntryOk protocol { entry with forwarder := .core id } :=
  ⟨ok.uncached, ok.owner, ok.notOwned, by rintro _ ⟨⟩; exact present, fun _ _ => (by rintro ⟨⟩)⟩

theorem Serving.request {msgType : ReqType} (type : req.msgType = msgType) :
    Serving dir ((dir.serving msgType req.requester).setEntry dir.getEntry) req := by
  subst type
  exact ⟨rfl, rfl, rfl, rfl, rfl, rfl, rfl⟩

theorem Demands.weaken {msgType other : ReqType} {waiters : List (MemOp V)} (demand : Demands msgType waiters)
    (weaker : other ≠ .shReq → msgType ≠ .shReq) : Demands other waiters := by
  obtain ⟨op, rest, rfl, exclusive⟩ := demand
  exact ⟨op, rest, rfl, fun other => exclusive (weaker other)⟩

theorem Core.own (core : Core protocol promise sys dir none) (dstate : DState) (data : Option (LineBuf V))
    (replyMsg : LineBuf V → DirMsg V)
    (front : dir.queue = req :: rest) (request : req.msgType ≠ .nullifyReq) (fresh : req.Fresh)
    (serving : Serving dir started req) (uncached : dir.getEntry.dstate = .uncached)
    (kind : dstate = .exclusive ∨ dstate = .modified ∨ dstate = .shared ∧ protocol ≠ .mesif)
    (exclusive : req.msgType ≠ .shReq ↔ dstate = .modified)
    (finishes : Finishes protocol promise sys next dir.queue.length)
    (sound : ∀ bytes, data = some bytes → Good promise.clean sys.last bytes)
    (nuca : data = none ∨ dstate ≠ .modified → ∀ bytes, dir.nuca = some bytes → Good promise.clean sys.last bytes)
    (memory : data = none ∨ dstate ≠ .modified → Durable promise sys dir.toDram)
    (fill : ∀ bytes, Good promise.clean sys.last bytes → ∀ waiters, Demands req.msgType waiters →
      Fill (Good promise.clean sys.last) (Durable promise sys dir.toDram) dstate waiters (replyMsg bytes)) :
    let entry : DirectoryEntry n :=
      { dir.getEntry with
        sharers := Function.update dir.getEntry.sharers req.requester true
        owner := some req.requester
        dstate }
    ∃ after, retrieveDataAndSendToL2Cache protocol next (started.setEntry entry) replyMsg req.requester data =
      .ok after ∧ Stable protocol promise sys after := by
  intro entry
  have absent := core.entry.uncached.mp uncached
  have ok : EntryOk protocol entry := core.entry.own uncached kind
  have finishes : Finishes protocol promise sys next (started.setEntry entry).queue.length := by
    change Finishes protocol promise sys next started.queue.length
    rwa [serving.queue]
  have fill : ∀ bytes, Good promise.clean sys.last bytes → ∀ waiters, Demands req.msgType waiters →
      Fill (Good promise.clean sys.last) (Durable promise sys (started.setEntry entry).toDram) dstate waiters
        (replyMsg bytes) := by
    change ∀ bytes, _ → ∀ waiters, _ → Fill _ (Durable promise sys started.toDram) dstate waiters _
    rwa [serving.toDram]
  have supplied (available : data = none ∨ dstate ≠ .modified) :
      (∀ bytes, started.nuca = some bytes → Good promise.clean sys.last bytes) ∧
        Durable promise sys started.toDram := by
    rw [serving.nuca, serving.toDram]
    exact ⟨nuca available, memory available⟩
  cases data with
  | some bytes =>
    refine Admits.retrieve_data replyMsg finishes rfl ?_ (fill bytes (sound bytes rfl)) ?_
    · change Admits protocol promise sys
        (started.setEntry { entry with forwarder := .core req.requester }) req
      refine core.admits front request serving (absent _) (ok.forward ?_) rfl (.inr uncached)
      simp [entry]
    · have shares (unowned : dstate = .uncached ∨ dstate = .shared) : dstate ≠ .modified := by
        rcases unowned with unowned | unowned <;> rw [unowned] <;> rintro ⟨⟩
      exact ⟨fun retrieves => (supplied (.inr (shares retrieves.unowned))).1,
        fun unowned => (supplied (.inr (shares unowned))).2⟩
  | none =>
    obtain ⟨nuca, dram⟩ := supplied (.inl rfl)
    have admits : Admits protocol promise sys (started.setEntry entry) req :=
      core.admits front request serving (absent _) ok rfl (.inr uncached)
    refine admits.retrieve_source replyMsg finishes rfl fill nuca dram
      fresh.waitForData ?_ ?_ ⟨?_, exclusive.mp⟩
    · intro id forwarding
      rw [fresh.forwardingFrom] at forwarding
      cases forwarding
    · intro isShared
      have isShared : dstate = .shared := isShared
      refine ⟨?_, fun _ isForwarder => ?_⟩
      · by_contra other
        rw [exclusive.mp other] at isShared
        cases isShared
      · have present := core.entry.forwarder req.requester isForwarder
        rw [absent] at present
        cases present
    · intro isSh isModified
      exact exclusive.mpr isModified isSh

theorem Fill.of_exclusive {durable : Prop} {good : LineBuf V → Prop} {data : LineBuf V}
    {waiters : List (MemOp V)} (sound : good data) (demand : Demands req.msgType waiters)
    (exclusive : req.msgType ≠ .shReq) : Fill good durable .modified waiters (.exRep data) :=
  .modified sound (demand.weaken fun _ => exclusive)

theorem Core.process_exReq {data : Option (LineBuf V)} (core : Core protocol promise sys dir none)
    (front : dir.queue = req :: rest) (type : req.msgType = .exReq) (fresh : req.Fresh)
    (finishes : Finishes protocol promise sys next dir.queue.length)
    (sound : ∀ bytes, data = some bytes → Good promise.clean sys.last bytes)
    (only : data ≠ none → dir.getEntry.dstate = .uncached)
    (backed : data = none → Backed promise sys dir dir.queue) :
    ∃ after, processExReqFromL2Cache protocol next dir req.requester data = .ok after ∧
      Stable protocol promise sys after := by
  have serving : Serving dir ((dir.serving .exReq req.requester).setEntry dir.getEntry) req := .request type
  have dataless (cached : dir.getEntry.dstate ≠ .uncached) : data = none := by
    by_contra some
    exact cached (only some)
  have request : req.msgType ≠ .nullifyReq := by rw [type]; rintro ⟨⟩
  have flush : (if req.msgType = .shReq then Await.wb else .flush).Sends (.flushReq : DirMsg V) := by
    simp [type, Await.Sends]
  unfold processExReqFromL2Cache
  cases dstate : dir.getEntry.dstate with
  | exclusive =>
    obtain ⟨after, sent, stable⟩ := core.serve_owned front fresh serving (.inl dstate) flush
    refine ⟨after, ?_, stable⟩
    simpa [dstate, dataless (by rw [dstate]; rintro ⟨⟩)] using sent
  | modified =>
    obtain ⟨after, sent, stable⟩ := core.serve_owned front fresh serving (.inr dstate) flush
    refine ⟨after, ?_, stable⟩
    simpa [dstate, dataless (by rw [dstate]; rintro ⟨⟩)] using sent
  | shared =>
    have none := dataless (by rw [dstate]; rintro ⟨⟩)
    refine ⟨_, ?_, core.serve_shared front fresh (by rw [type]; rintro ⟨⟩) dstate
      ((backed none).dram (.inr dstate)) (serving.asks_sharers fresh dstate (.inl type))⟩
    simp [dstate, none, pure, Except.pure]
  | uncached =>
    have absent := core.entry.uncached.mp dstate req.requester
    have retrieves : Retrieves dir.getEntry dir.queue := by simp [front, Retrieves, type, dstate]
    obtain ⟨after, ran, stable⟩ := core.own .modified data .exRep
      front request fresh serving dstate (.inr (.inl rfl)) (by simp [type]) finishes sound
      (fun available => (backed (available.resolve_right (absurd rfl))).nuca retrieves)
      (fun available => (backed (available.resolve_right (absurd rfl))).dram (.inl dstate))
      (fun bytes good waiters demand => .of_exclusive good demand (by rw [type]; rintro ⟨⟩))
    refine ⟨after, ?_, stable⟩
    simpa [dstate, DirectoryEntry.addSharer_of_absent absent, DirectoryEntry.setOwner_of_present] using ran
  | owned => exact absurd dstate core.entry.notOwned

theorem Core.owner_other {id : Fin n} (core : Core protocol promise sys dir none)
    (front : dir.queue = req :: rest) (request : req.msgType ≠ .nullifyReq)
    (owned : dir.getEntry.dstate = .exclusive ∨ dir.getEntry.dstate = .modified)
    (isSharer : dir.getEntry.sharers id = true) : id ≠ req.requester := by
  rintro rfl
  have absent := core.requester_absent front request (by
    rintro ⟨_, shared⟩
    rcases owned with owned | owned <;> rw [owned] at shared <;> cases shared)
  rw [absent] at isSharer
  cases isSharer

theorem Core.process_shReq {data : Option (LineBuf V)} (core : Core protocol promise sys dir none)
    (front : dir.queue = req :: rest) (type : req.msgType = .shReq) (fresh : req.Fresh)
    (finishes : Finishes protocol promise sys next dir.queue.length)
    (sound : ∀ bytes, data = some bytes → Good promise.clean sys.last bytes)
    (only : data ≠ none → dir.getEntry.dstate = .uncached) (backed : Backed promise sys dir dir.queue) :
    ∃ after, processShReqFromL2Cache protocol next dir req.requester data = .ok after ∧
      Stable protocol promise sys after := by
  have serving : Serving dir ((dir.serving .shReq req.requester).setEntry dir.getEntry) req := .request type
  have dataless (cached : dir.getEntry.dstate ≠ .uncached) : data = none := by
    by_contra some
    exact cached (only some)
  have request : req.msgType ≠ .nullifyReq := by rw [type]; rintro ⟨⟩
  have writeBack : (if req.msgType = .shReq then Await.wb else .flush).Sends (.wbReq : DirMsg V) := by
    simp [type, Await.Sends]
  have nuca (unowned : dir.getEntry.dstate = .uncached ∨ dir.getEntry.dstate = .shared) :
      ∀ bytes, dir.nuca = some bytes → Good promise.clean sys.last bytes := by
    refine backed.nuca ?_
    simpa [front, Retrieves, type] using unowned
  unfold processShReqFromL2Cache
  cases dstate : dir.getEntry.dstate with
  | exclusive =>
    obtain ⟨after, sent, stable⟩ := core.serve_owned front fresh serving (.inl dstate) writeBack
    refine ⟨after, ?_, stable⟩
    obtain ⟨owner, isOwner, sharer⟩ := core.entry.owner (.inl dstate)
    have other := core.owner_other front request (.inl dstate) ((sharer owner).mpr rfl)
    simpa [dstate, dataless (by rw [dstate]; rintro ⟨⟩), isOwner, other] using sent
  | modified =>
    obtain ⟨after, sent, stable⟩ := core.serve_owned front fresh serving (.inr dstate) writeBack
    refine ⟨after, ?_, stable⟩
    simpa [dstate, dataless (by rw [dstate]; rintro ⟨⟩)] using sent
  | shared =>
    have none := dataless (by rw [dstate]; rintro ⟨⟩)
    have absent := core.requester_absent front request (by rw [type]; rintro ⟨⟨⟩, -⟩)
    let entry : DirectoryEntry n :=
      { dir.getEntry with sharers := Function.update dir.getEntry.sharers req.requester true }
    have admits : Admits protocol promise sys
        (((dir.serving .shReq req.requester).setEntry dir.getEntry).setEntry entry) req :=
      core.admits front request serving absent (core.entry.share dstate) rfl (.inl rfl)
    obtain ⟨after, ran, stable⟩ := admits.retrieve_source .shRep finishes rfl
      (by
        intro bytes good waiters demand
        change Fill _ _ dir.getEntry.dstate _ _
        rw [dstate]
        exact .shared good (type ▸ demand))
      (nuca (.inr dstate)) (backed.dram (.inr dstate)) fresh.waitForData
      (by rw [fresh.forwardingFrom]; rintro _ ⟨⟩)
      (by
        refine fun _ => ⟨type, fun _ isForwarder => ?_⟩
        have present := core.entry.forwarder _ isForwarder
        rw [absent] at present
        cases present)
      (by
        refine ⟨fun _ => ?_, absurd type⟩
        change dir.getEntry.dstate ≠ .modified
        rw [dstate]
        rintro ⟨⟩)
    refine ⟨after, ?_, stable⟩
    simpa [dstate, DirectoryEntry.hasSharer, absent, none, DirectoryEntry.addSharer_of_absent absent, entry]
      using ran
  | uncached =>
    have absent := core.entry.uncached.mp dstate req.requester
    by_cases msi : protocol = .msi
    · obtain ⟨after, ran, stable⟩ := core.own .shared data .shRep
        front request fresh serving dstate (.inr (.inr ⟨rfl, by rw [msi]; rintro ⟨⟩⟩)) (by simp [type])
        finishes sound (fun _ => nuca (.inl dstate)) (fun _ => backed.dram (.inl dstate))
        (fun bytes good waiters demand => .shared good (type ▸ demand))
      refine ⟨after, ?_, stable⟩
      simpa [dstate, msi, DirectoryEntry.addSharer_of_absent absent, DirectoryEntry.setOwner_of_present]
        using ran
    · obtain ⟨after, ran, stable⟩ := core.own .exclusive data .exRep
        front request fresh serving dstate (.inl rfl) (by simp [type])
        finishes sound (fun _ => nuca (.inl dstate)) (fun _ => backed.dram (.inl dstate))
        (fun bytes good waiters demand => .exclusive good (backed.dram (.inl dstate)) (type ▸ demand))
      refine ⟨after, ?_, stable⟩
      simpa [dstate, msi, DirectoryEntry.addSharer_of_absent absent, DirectoryEntry.setOwner_of_present]
        using ran
  | owned => exact absurd dstate core.entry.notOwned

theorem Core.complete_upgrade (core : Core protocol promise sys dir none) (entry : DirectoryEntry n)
    (front : dir.queue = req :: rest) (type : req.msgType = .upgradeReq)
    (shared : dir.getEntry.dstate = .shared)
    (only : ∀ id, dir.getEntry.sharers id = true ↔ id = req.requester) (serving : Serving dir started req)
    (sharers : entry.sharers = dir.getEntry.sharers) (owner : entry.owner = some req.requester)
    (dstate : entry.dstate = .modified) (forwarder : entry.forwarder = dir.getEntry.forwarder) :
    Completed protocol promise sys ((started.setEntry entry).reply req.requester .upgradeRep) := by
  have request : req.msgType ≠ .nullifyReq := by rw [type]; rintro ⟨⟩
  have frame := core.toFrame.serving front serving
  have queue : started.queue = req :: rest := serving.queue.trans front
  rw [← sharers] at only
  have present := (only req.requester).mpr rfl
  have ok : EntryOk protocol entry := by
    refine ⟨⟨?_, ?_⟩, fun _ => ⟨_, owner, only⟩, ?_, ?_, ?_⟩
    · rw [dstate]
      rintro ⟨⟩
    · intro none
      rw [none] at present
      cases present
    · rw [dstate]
      rintro ⟨⟩
    · rw [forwarder, sharers]
      exact core.entry.forwarder
    · rw [dstate]
      rintro _ ⟨⟩
  have owned : ¬(entry.dstate = .uncached ∨ entry.dstate = .shared) := by
    rw [dstate]
    rintro (unowned | unowned) <;> cases unowned
  refine ⟨?core, ?nonempty, frame.queue.tail, fun unowned => absurd unowned owned,
    fun retrieves => absurd retrieves.unowned owned⟩
  case core =>
    refine { queue := ?_, reads := frame.reads, fetched := frame.fetched, log := ?_, nuca := frame.nuca,
             direct := frame.direct, entry := ok, caches := ?_ }
    · change QueueOk _ started.queue.tail
      rw [queue]
      exact frame.tail queue
    · change replay (started.log ++ [.replied req.requester] ++ [.dequeued]) =
        some (started.queue.tail.map ShmemReq.key, false)
      have logged := frame.log
      rw [queue] at logged ⊢
      exact replay_dequeued (replay_replied logged request) (by simp [ShmemReq.key, request])
    · intro id
      change Local _ (Durable promise sys started.toDram) (roleOf entry none started.queue.tail id) _ _
        (Function.update started.down req.requester (started.down req.requester ++ [.upgradeRep]) id)
      rw [serving.toDram, serving.down, queue, List.tail_cons]
      by_cases same : id = req.requester
      · subst same
        have unqueued := (front ▸ core.queue : QueueOk _ (req :: rest)).queuedOf_tail request
        have here := core.requester_role front request (sharers ▸ present)
        rw [shared, type] at here
        rw [roleOf_settled present, unqueued, dstate, Function.update_self]
        exact here.grant_upgrade
      · have absent : entry.sharers id = false := by
          simpa [same] using (only id).not
        have here := core.caches id
        rw [roleOf_absent (sharers ▸ absent), front, queuedOf_cons_other same] at here
        rw [roleOf_absent absent, Function.update_of_ne same]
        exact here
  case nonempty =>
    change started.queue ≠ []
    rw [queue]
    exact List.cons_ne_nil _ _

theorem awaitFor_upgrade {id : Fin n} (fresh : req.Fresh) (type : req.msgType = .upgradeReq)
    (other : id ≠ req.requester) : awaitFor .shared req id = some .upgrade := by
  simp [awaitFor, fresh.waitForData, type, Ne.symm other]

theorem Serving.asks_upgrade (serving : Serving dir started req) (fresh : req.Fresh)
    (type : req.msgType = .upgradeReq) (shared : dir.getEntry.dstate = .shared) :
    Asks dir (sendUpgradeInvs started dir.getEntry req.requester) req := by
  cases sharers : dir.getEntry.getSharersList with
  | nil =>
    have none : ∀ id ∈ ([] : List (Fin n)), dir.getEntry.sharers id = true := by rintro _ ⟨⟩
    have asks : Asks dir (started.sendEach [] .invReq) req := by
      refine serving.asks_each .invReq List.nodup_nil none fun id present => ?_
      have member := DirectoryEntry.mem_getSharersList.mpr present
      simp [sharers] at member
    simpa [sendUpgradeInvs, sharers, Dir.sendEach] using asks
  | cons first others =>
    have distinct := dir.getEntry.getSharersList_nodup
    have sharer {id : Fin n} : dir.getEntry.sharers id = true ↔ id ∈ first :: others := by
      rw [← sharers, DirectoryEntry.mem_getSharersList]
    rw [sharers] at distinct
    cases held : dir.getEntry.sharers req.requester with
    | true =>
      have asks : Asks dir
          (started.sendEach ((first :: others).filter (· ≠ req.requester)) .invReq) req := by
        refine serving.asks_each .invReq (distinct.filter _) ?_ ?_
        · intro id member
          exact sharer.mpr (List.mem_filter.mp member).1
        · intro id present
          by_cases same : id = req.requester
          · simp [awaitFor, fresh.waitForData, shared, type, same, Outstanding]
          · have member := sharer.mp present
            rw [shared, awaitFor_upgrade fresh type same,
              if_pos (List.mem_filter.mpr ⟨member, by simpa using same⟩)]
            exact ⟨.invReq, rfl, trivial⟩
      simpa [sendUpgradeInvs, sharers, DirectoryEntry.hasSharer, held] using asks
    | false =>
      obtain ⟨notAgain, distinct⟩ := List.nodup_cons.mp distinct
      have sent : sendUpgradeInvs started dir.getEntry req.requester =
          (started.sendMsg first .flushReq).sendEach others .invReq := by
        simp [sendUpgradeInvs, sharers, DirectoryEntry.hasSharer, held]
      rw [sent, Dir.sendEach_eq others .invReq distinct]
      refine ⟨serving.entry, serving.queue, serving.toDram, serving.hasNuca, serving.nuca, serving.log,
        ?_, ?_⟩
      · intro id present
        have other : id ≠ req.requester := by
          rintro rfl
          rw [held] at present
          cases present
        rw [shared, awaitFor_upgrade fresh type other]
        rcases List.mem_cons.mp (sharer.mp present) with rfl | member
        · refine ⟨[.flushReq], ⟨.flushReq, rfl, trivial⟩, ?_⟩
          simp [Dir.sendMsg, serving.down, notAgain]
        · have different : id ≠ first := by
            rintro rfl
            exact notAgain member
          refine ⟨[.invReq], ⟨.invReq, rfl, trivial⟩, ?_⟩
          simp [Dir.sendMsg, serving.down, member, different]
      · intro id absent
        have apart : id ∉ first :: others := fun member => by
          rw [sharer.mpr member] at absent
          cases absent
        rw [List.mem_cons, not_or] at apart
        simp [Dir.sendMsg, serving.down, apart]

theorem Core.process_upgradeReq {data : Option (LineBuf V)} (core : Core protocol promise sys dir none)
    (front : dir.queue = req :: rest) (type : req.msgType = .upgradeReq) (fresh : req.Fresh)
    (finishes : Finishes protocol promise sys next dir.queue.length)
    (sound : ∀ bytes, data = some bytes → Good promise.clean sys.last bytes)
    (backed : data = none → Backed promise sys dir dir.queue)
    (memory : dir.getEntry.dstate = .shared → data = none) :
    ∃ after, processUpgradeReqFromL2Cache protocol next dir req.requester req.dataBuf data = .ok after ∧
      Stable protocol promise sys after := by
  have serving : Serving dir ((dir.serving .upgradeReq req.requester).setEntry dir.getEntry) req := .request type
  have request : req.msgType ≠ .nullifyReq := by rw [type]; rintro ⟨⟩
  have flush : (if req.msgType = .shReq then Await.wb else .flush).Sends (.flushReq : DirMsg V) := by
    simp [type, Await.Sends]
  have owned (kind : dir.getEntry.dstate = .exclusive ∨ dir.getEntry.dstate = .modified) :
      ∃ owner, dir.getEntry.getSharersList = [owner] ∧ owner ≠ req.requester := by
    obtain ⟨owner, _, only⟩ := core.entry.owner kind
    exact ⟨owner, DirectoryEntry.getSharersList_eq_singleton.mpr only,
      core.owner_other front request kind ((only owner).mpr rfl)⟩
  unfold processUpgradeReqFromL2Cache
  cases dstate : dir.getEntry.dstate with
  | exclusive =>
    obtain ⟨after, sent, stable⟩ := core.serve_owned front fresh serving (.inl dstate) flush
    obtain ⟨owner, single, other⟩ := owned (.inl dstate)
    refine ⟨after, ?_, stable⟩
    simpa [dstate, single, other] using sent
  | modified =>
    obtain ⟨after, sent, stable⟩ := core.serve_owned front fresh serving (.inr dstate) flush
    obtain ⟨owner, single, other⟩ := owned (.inr dstate)
    refine ⟨after, ?_, stable⟩
    simpa [dstate, single, other] using sent
  | shared =>
    by_cases alone : dir.getEntry.getSharersList = [req.requester]
    · have only := DirectoryEntry.getSharersList_eq_singleton.mp alone
      obtain ⟨after, ran, stable⟩ := finishes _
        (core.complete_upgrade { dir.getEntry with owner := some req.requester, dstate := .modified }
          front type dstate only serving rfl rfl rfl rfl) (Nat.le_refl _)
      refine ⟨after, ?_, stable⟩
      simpa [dstate, alone, DirectoryEntry.setOwner_of_present ((only req.requester).mpr rfl)] using ran
    · refine ⟨_, ?_, core.serve_shared front fresh (by rw [type]; rintro ⟨⟩) dstate
        ((backed (memory dstate)).dram (.inr dstate)) (serving.asks_upgrade fresh type dstate)⟩
      simp [dstate, alone, pure, Except.pure]
  | uncached =>
    have absent := core.entry.uncached.mp dstate req.requester
    have empty : dir.getEntry.getSharersList = [] := by
      refine List.eq_nil_iff_forall_not_mem.mpr fun id member => ?_
      have present := DirectoryEntry.mem_getSharersList.mp member
      rw [core.entry.uncached.mp dstate id] at present
      cases present
    have buffered : ∀ bytes, (data <|> req.dataBuf) = some bytes → Good promise.clean sys.last bytes := by
      intro bytes found
      cases data with
      | some given =>
        cases found
        exact sound bytes rfl
      | none =>
        have dirty := core.queue.stored req (by rw [front]; exact List.mem_cons_self ..) bytes found
        exact (absurd · dirty)
    have bare (missing : (data <|> req.dataBuf) = none ∨ DState.modified ≠ .modified) :
        data = none ∧ req.dataBuf = none := by
      have missing := missing.resolve_right (absurd rfl)
      cases data with
      | some given => cases missing
      | none => exact ⟨rfl, missing⟩
    obtain ⟨after, ran, stable⟩ := core.own .modified (data <|> req.dataBuf) .exRep
      front request fresh serving dstate (.inr (.inl rfl)) (by simp [type]) finishes
      buffered
      (fun missing => (backed (bare missing).1).nuca (by simp [front, Retrieves, type, dstate, (bare missing).2]))
      (fun missing => (backed (bare missing).1).dram (.inl dstate))
      (fun bytes good waiters demand => .of_exclusive good demand (by rw [type]; rintro ⟨⟩))
    refine ⟨after, ?_, stable⟩
    simpa [dstate, empty, DirectoryEntry.addSharer_of_absent absent, DirectoryEntry.setOwner_of_present]
      using ran
  | owned => exact absurd dstate core.entry.notOwned

theorem EntryOk.fresh : EntryOk protocol (DirectoryEntry.new (n := n)) :=
  ⟨⟨fun _ _ => rfl, fun _ => rfl⟩, fun owned => (by rcases owned with owned | owned <;> cases owned),
    (by rintro ⟨⟩), by rintro _ ⟨⟩, by rintro _ ⟨⟩⟩

theorem Core.complete_nullify (core : Core protocol promise sys dir none) (front : dir.queue = req :: rest)
    (type : req.msgType = .nullifyReq) (uncached : dir.getEntry.dstate = .uncached)
    (serving : Serving dir started req) (dram : Durable promise sys dir.toDram)
    (nuca : Retrieves .new rest → ∀ data, dir.nuca = some data → Good promise.clean sys.last data) :
    Completed protocol promise sys { started with entry := none } := by
  have frame := core.toFrame.serving front serving
  have queue : started.queue = req :: rest := serving.queue.trans front
  rw [← serving.nuca] at nuca
  rw [← serving.toDram] at dram
  refine ⟨{ queue := ?_, reads := frame.reads, fetched := frame.fetched, log := ?_, nuca := frame.nuca,
            direct := frame.direct, entry := .fresh, caches := ?_ }, ?_, frame.queue.tail, fun _ => dram, ?_⟩
  · change QueueOk _ started.queue.tail
    rw [queue]
    exact frame.tail queue
  · change replay (started.log ++ [.dequeued]) = some (started.queue.tail.map ShmemReq.key, false)
    have logged := frame.log
    rw [queue] at logged ⊢
    exact replay_dequeued logged (by simp [ShmemReq.key, type])
  · intro id
    have here := core.caches id
    rw [roleOf_absent (core.entry.uncached.mp uncached id), front, queuedOf_cons_nullify type] at here
    change Local _ (Durable promise sys started.toDram) (.absent (queuedOf started.queue.tail id)) _ _
      (started.down id)
    rw [serving.toDram, serving.down, queue]
    exact here
  · change started.queue ≠ []
    rw [queue]
    exact List.cons_ne_nil _ _
  · change Retrieves .new started.queue.tail → _
    rw [queue]
    exact nuca

theorem Core.process_nullifyReq (core : Core protocol promise sys dir none)
    (front : dir.queue = req :: rest) (type : req.msgType = .nullifyReq) (fresh : req.Fresh)
    (stored : dir.entry = some dir.getEntry)
    (finishes : Finishes protocol promise sys next dir.queue.length)
    (dram : dir.getEntry.dstate = .uncached ∨ dir.getEntry.dstate = .shared → Durable promise sys dir.toDram)
    (nuca : Retrieves dir.getEntry dir.queue → ∀ data, dir.nuca = some data → Good promise.clean sys.last data) :
    ∃ after, processNullifyReq next dir req.requester = .ok after ∧ Stable protocol promise sys after := by
  have serving : Serving dir (dir.serving .nullifyReq req.requester) req :=
    ⟨rfl, rfl, rfl, rfl, rfl, rfl, by rw [type]; rfl⟩
  have held : (dir.serving .nullifyReq req.requester).entry = some dir.getEntry := stored
  have flush : (if req.msgType = .shReq then Await.wb else .flush).Sends (.flushReq : DirMsg V) := by
    simp [type, Await.Sends]
  unfold processNullifyReq
  cases dstate : dir.getEntry.dstate with
  | exclusive =>
    obtain ⟨after, sent, stable⟩ := core.serve_owned front fresh serving (.inl dstate) flush
    refine ⟨after, ?_, stable⟩
    simpa [held, dstate] using sent
  | modified =>
    obtain ⟨after, sent, stable⟩ := core.serve_owned front fresh serving (.inr dstate) flush
    refine ⟨after, ?_, stable⟩
    simpa [held, dstate] using sent
  | shared =>
    refine ⟨_, ?_, core.serve_shared front fresh (by rw [type]; rintro ⟨⟩) dstate
      (dram (.inr dstate)) (serving.asks_sharers fresh dstate (.inr type))⟩
    simp [held, dstate]
  | uncached =>
    have retrieves (more : Retrieves .new rest) : Retrieves dir.getEntry dir.queue := by
      simpa [front, Retrieves, type, dstate] using more
    obtain ⟨after, ran, stable⟩ := finishes _
      (core.complete_nullify front type dstate serving (dram (.inl dstate)) fun more => nuca (retrieves more))
      (Nat.le_refl _)
    refine ⟨after, ?_, stable⟩
    simpa [held, dstate] using ran
  | owned => exact absurd dstate core.entry.notOwned

theorem Core.process (core : Core protocol promise sys dir none) (front : dir.queue = req :: rest)
    (fresh : req.Fresh) (stored : req.msgType = .nullifyReq → dir.entry = some dir.getEntry)
    (finishes : Finishes protocol promise sys next dir.queue.length)
    (backed : Backed promise sys dir dir.queue) :
    ∃ after, processReq protocol next dir req none = .ok after ∧ Stable protocol promise sys after := by
  unfold processReq
  cases type : req.msgType with
  | exReq => exact core.process_exReq front type fresh finishes (by rintro _ ⟨⟩) (absurd rfl) fun _ => backed
  | shReq => exact core.process_shReq front type fresh finishes (by rintro _ ⟨⟩) (absurd rfl) backed
  | upgradeReq => exact core.process_upgradeReq front type fresh finishes (by rintro _ ⟨⟩) (fun _ => backed) fun _ => rfl
  | nullifyReq =>
    exact core.process_nullifyReq front type fresh (stored type) finishes backed.dram backed.nuca

end Handlers

section Next

variable {protocol : Protocol} {promise : Promise} {sys : Sys n V} {dir : Dir n V}

/-- `processNextReqFromL2Cache` serves the rest of the queue.  The induction is on the
number of requests left, the invariant at its head is `Completed`. -/
theorem processNextReqFromL2Cache_finishes (size : Nat) :
    Finishes protocol promise sys (processNextReqFromL2Cache protocol size) size := by
  induction size with
  | zero =>
    intro done completed short
    exact absurd (List.eq_nil_of_length_eq_zero (Nat.le_zero.mp short)) completed.nonempty
  | succ size ih =>
    intro done completed short
    obtain ⟨core, nonempty, later, dram, nuca⟩ := completed
    cases queue : done.queue with
    | nil => exact absurd queue nonempty
    | cons first rest =>
      rw [queue] at core short later nuca
      simp only [List.tail_cons] at core later nuca
      simp only [processNextReqFromL2Cache, queue]
      cases rest with
      | nil =>
        refine ⟨_, rfl, core, by rintro _ ⟨⟩, fun idle => dram ?_⟩
        simpa [waits, Dir.getEntry] using idle
      | cons req rest =>
        obtain ⟨fresh, request⟩ := later req (List.mem_cons_self ..)
        have shorter : (req :: rest).length ≤ size := by simpa using short
        obtain ⟨after, ran, stable⟩ := core.process rfl fresh (absurd · request)
          (fun later completed bound => ih later completed (bound.trans shorter))
          ⟨nuca, dram⟩
        exact ⟨after, by simpa [request] using ran, stable⟩

theorem next_finishes : Finishes protocol promise sys (Dir.next protocol) dir.queue.length := by
  intro done completed _
  exact processNextReqFromL2Cache_finishes done.queue.length done completed (Nat.le_refl _)

end Next

end Sniper.Directory

import Sniper.Directory.Moves

/-! The handlers of the replies to the directory, and of entries that other addresses
take over. -/

namespace Sniper.Directory

variable {n : Nat} {V : Type}

section Replies

variable {protocol : Protocol} {promise : Promise} {sys : Sys n V} {dir : Dir n V} {cache : Fin n}
  {req : ShmemReq n V} {rest : List (CacheMsg V)}

/-! ### What a sharer leaves -/

/-- A sharer has given up its copy, and the first request goes on with the entry that is left. -/
structure Left (protocol : Protocol) (promise : Promise) (sys : Sys n V) (dir : Dir n V) (cache : Fin n) (rest : List (CacheMsg V))
    (entry : DirectoryEntry n) (req : ShmemReq n V) (others : List (ShmemReq n V)) : Prop where
  stable : Stable protocol promise sys dir
  queue : dir.queue = req :: others
  present : dir.getEntry.sharers cache = true
  passes : granting (some req) cache = false
  removes : Removes dir.getEntry entry cache
  core : Core protocol promise (sys.took cache rest) (dir.setEntry entry) (some req)

theorem Stable.fresh_of_owned {others : List (ShmemReq n V)} (stable : Stable protocol promise sys dir)
    (front : dir.queue = req :: others) (present : dir.getEntry.sharers cache = true)
    (passes : granting (some req) cache = false)
    (owned : dir.getEntry.dstate = .exclusive ∨ dir.getEntry.dstate = .modified) : req.Fresh := by
  have head := stable.head req (by rw [front]; rfl)
  have untouched : ¬ (req.waitForData = true ∨ req.forwardingFrom ≠ none) := by
    intro granted
    obtain ⟨request, sharer⟩ := head.granting granted
    obtain ⟨owner, _, only⟩ := stable.core.entry.owner owned
    have same : req.requester = cache := ((only _).mp sharer).trans ((only cache).mp present).symm
    rw [granting, Option.any_some] at passes
    exact of_decide_eq_false passes ⟨request, same, granted⟩
  rw [not_or, not_not, Bool.not_eq_true] at untouched
  exact ⟨untouched.1, untouched.2⟩

theorem Removes.getNumSharers_eq_zero {entry after : DirectoryEntry n} {id : Fin n}
    (removes : Removes entry after id) (ok : EntryOk protocol entry) (present : entry.sharers id = true) :
    after.getNumSharers = 0 ↔ after.dstate = .uncached := by
  rw [(removes.entryOk ok present).uncached, DirectoryEntry.getNumSharers_eq_zero]

section Left

variable {entry : DirectoryEntry n} {others : List (ShmemReq n V)}

theorem Left.head (left : Left protocol promise sys dir cache rest entry req others) : HeadOk dir.getEntry req :=
  left.stable.head req (by rw [left.queue]; rfl)

theorem Left.uncached (left : Left protocol promise sys dir cache rest entry req others)
    (owned : dir.getEntry.dstate = .exclusive ∨ dir.getEntry.dstate = .modified) : entry.dstate = .uncached :=
  left.removes.uncached left.stable.core.entry left.present owned

theorem Left.getNumSharers_eq_zero (left : Left protocol promise sys dir cache rest entry req others) :
    entry.getNumSharers = 0 ↔ entry.dstate = .uncached :=
  left.removes.getNumSharers_eq_zero left.stable.core.entry left.present

theorem Left.restart (left : Left protocol promise sys dir cache rest entry req others) (fresh : req.Fresh)
    (gone : entry.dstate = .uncached) : Core protocol promise (sys.took cache rest) (dir.setEntry entry) none := by
  have ok := left.removes.entryOk left.stable.core.entry left.present
  refine left.core.settle fresh fun id isSharer => ?_
  rw [show (dir.setEntry entry).getEntry.sharers id = false from ok.uncached.mp gone id] at isSharer
  cases isSharer

theorem Left.keep (left : Left protocol promise sys dir cache rest entry req others) (waits : HeadOk entry req)
    (memory : Durable promise sys dir.toDram) : Stable protocol promise (sys.took cache rest) (dir.setEntry entry) := by
  have queue : (dir.setEntry entry).queue = req :: others := left.queue
  refine ⟨?_, ?_, fun _ => memory⟩
  · rw [queue]
    exact left.core
  · intro found isHead
    rw [queue] at isHead
    cases isHead
    exact waits

theorem Left.fresh_of_owned (left : Left protocol promise sys dir cache rest entry req others)
    (owned : dir.getEntry.dstate = .exclusive ∨ dir.getEntry.dstate = .modified) : req.Fresh :=
  left.stable.fresh_of_owned left.queue left.present left.passes owned

end Left

/-! ### `INV_REP` -/

/-- The entry after `processInvRepFromL2Cache` has removed the sender. -/
def invRepEntry (entry : DirectoryEntry n) (sender : Fin n) : DirectoryEntry n :=
  let entry := { entry with sharers := Function.update entry.sharers sender false }
  let entry := if entry.forwarder = .core sender then { entry with forwarder := .invalid } else entry
  if entry.getNumSharers = 0 then { entry with dstate := .uncached } else entry

/-- Whether the directory takes the line from the NUCA cache, if that holds it, as it handles the message: for
the request in service unless the message brings the data, or for the one after a `WB_REP`. -/
def Dir.ReadsNuca (dir : Dir n V) (sender : Fin n) : CacheMsg V → Prop
  | .req msgType => dir.queue = [] ∧ Retrieves dir.getEntry ([{ msgType, requester := sender }] : List (ShmemReq n V))
  | .invRep =>
    Retrieves (invRepEntry dir.getEntry sender) dir.queue ∧
      ∀ req, dir.queue.head? = some req → req.msgType = .shReq →
        req.waitForData = false ∧ (req.forwardingFrom = none ∨ req.forwardingFrom = some sender)
  | .flushRep _ => False
  | .wbRep _ => Retrieves { dir.getEntry with owner := none, dstate := .shared } dir.queue.tail

theorem invRepEntry_removes (entry : DirectoryEntry n) (sender : Fin n) :
    Removes entry (invRepEntry entry sender) sender := by
  by_cases isForwarder : entry.forwarder = .core sender
  · by_cases none : DirectoryEntry.getNumSharers
        { entry with sharers := Function.update entry.sharers sender false, forwarder := .invalid } = 0
    · simp only [invRepEntry, isForwarder, if_true, none]
      exact ⟨rfl, (if_pos none).symm, .inl rfl⟩
    · simp only [invRepEntry, isForwarder, if_true, none, if_false]
      exact ⟨rfl, (if_neg none).symm, .inl rfl⟩
  · by_cases none : DirectoryEntry.getNumSharers
        { entry with sharers := Function.update entry.sharers sender false } = 0
    · simp only [invRepEntry, isForwarder, if_false, none, if_true]
      exact ⟨rfl, (if_pos none).symm, .inr ⟨rfl, isForwarder⟩⟩
    · simp only [invRepEntry, isForwarder, if_false, none]
      exact ⟨rfl, (if_neg none).symm, .inr ⟨rfl, isForwarder⟩⟩

/-- How the first request goes on once the entry has lost the cache that invalidated its copy. -/
def Dir.afterInvRep (protocol : Protocol) (cache : Fin n) (dir : Dir n V) (entry : DirectoryEntry n) : Except Fault (Dir n V) :=
  match dir.queue with
  | [] => .ok (dir.setEntry entry)
  | req :: _ =>
    match req.msgType with
    | .exReq | .nullifyReq =>
      if entry.dstate = .uncached then
        processReq protocol (Dir.next protocol) (dir.setEntry entry) req none
      else .ok (dir.setEntry entry)
    | .upgradeReq =>
      if entry.getNumSharers = 1 then
        if entry.hasSharer req.requester then
          processReq protocol (Dir.next protocol) (dir.setEntry entry) req none
        else .ok (dir.setEntry entry)
      else if entry.getNumSharers = 0 then
        processReq protocol (Dir.next protocol) (dir.setEntry entry) req none
      else .ok (dir.setEntry entry)
    | .shReq =>
      if req.waitForData then .ok (dir.setEntry entry)
      else if req.forwardingFrom ≠ none ∧ req.forwardingFrom ≠ some cache then
        .ok (dir.setEntry entry)
      else processReq protocol (Dir.next protocol) (dir.setEntry entry) req none

theorem processInvRepFromL2Cache_eq (present : dir.getEntry.sharers cache = true)
    (clean : dir.getEntry.dstate = .shared ∨ dir.getEntry.dstate = .exclusive) :
    processInvRepFromL2Cache protocol dir cache = dir.afterInvRep protocol cache (invRepEntry dir.getEntry cache) := by
  simp only [processInvRepFromL2Cache, Dir.entry_of_sharer present, assertThat_of clean, ok_bind,
    DirectoryEntry.removeSharer_of_present present]
  rfl

section LeftClean

variable {entry : DirectoryEntry n} {others : List (ShmemReq n V)}

structure LeftClean (protocol : Protocol) (promise : Promise) (sys : Sys n V) (dir : Dir n V) (cache : Fin n)
    (rest : List (CacheMsg V)) (entry : DirectoryEntry n) (req : ShmemReq n V) (others : List (ShmemReq n V)) : Prop
    extends Left protocol promise sys dir cache rest entry req others where
  clean : dir.getEntry.dstate = .shared ∨ dir.getEntry.dstate = .exclusive
  memory : Durable promise sys dir.toDram
  nuca : (req.msgType = .shReq → req.waitForData = false ∧
      (req.forwardingFrom = none ∨ req.forwardingFrom = some cache)) → Retrieves entry dir.queue →
    ∀ data, dir.nuca = some data → Good promise.clean sys.last data

theorem LeftClean.fresh (left : LeftClean protocol promise sys dir cache rest entry req others) (request : req.msgType ≠ .shReq) :
    req.Fresh := by
  refine left.head.fresh request fun modified => ?_
  rcases left.clean with clean | clean <;> rw [clean] at modified <;> cases modified

theorem LeftClean.backed (left : LeftClean protocol promise sys dir cache rest entry req others)
    (served : req.msgType = .shReq → req.waitForData = false ∧
      (req.forwardingFrom = none ∨ req.forwardingFrom = some cache)) :
    Backed promise (sys.took cache rest) (dir.setEntry entry) dir.queue :=
  ⟨left.nuca served, fun _ => left.memory⟩

theorem LeftClean.processReq_uncached (left : LeftClean protocol promise sys dir cache rest entry req others) (fresh : req.Fresh)
    (gone : entry.dstate = .uncached) :
    ∃ after, processReq protocol (Dir.next protocol) (dir.setEntry entry) req none = .ok after ∧
      Stable protocol promise (sys.took cache rest) after :=
  (left.restart fresh gone).process left.queue fresh (fun _ => rfl) next_finishes
    (left.backed fun _ => ⟨fresh.waitForData, .inl fresh.forwardingFrom⟩)

theorem LeftClean.keep_cached (left : LeftClean protocol promise sys dir cache rest entry req others) (request : req.msgType ≠ .shReq)
    (cached : entry.dstate ≠ .uncached) :
    ∃ after, Except.ok (dir.setEntry entry) = .ok (ε := Fault) after ∧ Stable protocol promise (sys.took cache rest) after :=
  ⟨_, rfl, left.keep (.of_fresh (left.fresh request) cached (absurd · request)) left.memory⟩

theorem LeftClean.afterInvRep_exReq (left : LeftClean protocol promise sys dir cache rest entry req others)
    (type : req.msgType = .exReq ∨ req.msgType = .nullifyReq) :
    ∃ after, dir.afterInvRep protocol cache entry = .ok after ∧ Stable protocol promise (sys.took cache rest) after := by
  have request : req.msgType ≠ .shReq := by
    rcases type with type | type <;> rw [type] <;> rintro ⟨⟩
  have afterInvRep : dir.afterInvRep protocol cache entry =
      if entry.dstate = .uncached then processReq protocol (Dir.next protocol) (dir.setEntry entry) req none
      else .ok (dir.setEntry entry) := by
    rw [Dir.afterInvRep, left.queue]
    rcases type with type | type <;> simp only [type]
  rw [afterInvRep]
  split
  case isTrue uncached => exact left.processReq_uncached (left.fresh request) uncached
  case isFalse cached => exact left.keep_cached request cached

theorem LeftClean.afterInvRep_upgradeReq (left : LeftClean protocol promise sys dir cache rest entry req others)
    (type : req.msgType = .upgradeReq) :
    ∃ after, dir.afterInvRep protocol cache entry = .ok after ∧ Stable protocol promise (sys.took cache rest) after := by
  have request : req.msgType ≠ .shReq := by rw [type]; rintro ⟨⟩
  have fresh := left.fresh request
  have zero := left.getNumSharers_eq_zero
  rw [Dir.afterInvRep, left.queue]
  simp only [type]
  split
  case isTrue one =>
    have cached : entry.dstate ≠ .uncached := by
      rw [Ne, ← zero, one]
      decide
    split
    case isTrue isSharer =>
      refine (left.core.settle fresh fun id other => ?_).process left.queue fresh (fun _ => rfl) next_finishes
        (left.backed (absurd · request))
      have only := (DirectoryEntry.getNumSharers_eq_one isSharer).mp one
      have isRequester : id = req.requester := (only id).mp other
      have shared : entry.dstate = .shared := by
        rw [left.removes.dstate_of_present other]
        exact left.clean.resolve_right fun exclusive => cached (left.uncached (.inl exclusive))
      simp [awaitFor, fresh.waitForData, shared, type, isRequester]
    case isFalse => exact left.keep_cached request cached
  case isFalse =>
    split
    case isTrue none => exact left.processReq_uncached fresh (zero.mp none)
    case isFalse some => exact left.keep_cached request fun uncached => some (zero.mpr uncached)

theorem LeftClean.afterInvRep_shReq (left : LeftClean protocol promise sys dir cache rest entry req others)
    (type : req.msgType = .shReq) :
    ∃ after, dir.afterInvRep protocol cache entry = .ok after ∧ Stable protocol promise (sys.took cache rest) after := by
  have head := left.head
  have other (granted : req.waitForData = true ∨ req.forwardingFrom ≠ none) : cache ≠ req.requester := by
    rintro rfl
    have passes := left.passes
    rw [granting, Option.any_some] at passes
    exact absurd ⟨by rw [type]; rintro ⟨⟩, rfl, granted⟩ (of_decide_eq_false passes)
  rw [Dir.afterInvRep, left.queue]
  simp only [type]
  split
  case isTrue waiting =>
    exact ⟨_, rfl, left.keep (head.remove left.removes (.inl waiting) (other (.inl waiting)) (.inl waiting)) left.memory⟩
  case isFalse unserved =>
    have unserved : req.waitForData = false := by simpa using unserved
    split
    case isTrue elsewhere =>
      exact ⟨_, rfl, left.keep (head.remove left.removes (.inr elsewhere.1) (other (.inr elsewhere.1)) (.inr elsewhere.2))
        left.memory⟩
    case isFalse here =>
      cases forwarding : req.forwardingFrom with
      | none =>
        have exclusive := left.clean.resolve_left (head.shared type unserved forwarding)
        exact left.processReq_uncached ⟨unserved, forwarding⟩ (left.uncached (.inl exclusive))
      | some id =>
        have same : id = cache := by simpa [forwarding] using here
        subst same
        have granted : req.forwardingFrom ≠ none := by rw [forwarding]; rintro ⟨⟩
        have apart := other (.inr granted)
        have sharer : entry.sharers req.requester = true := by
          rw [left.removes.present (Ne.symm apart)]
          exact (head.granting (.inr granted)).2
        exact left.core.process_again left.queue type unserved ⟨id, forwarding, left.removes.absent, apart⟩
          ((left.removes.dstate_of_present sharer).trans (head.forwarding id forwarding).2.1) sharer
          (left.backed fun _ => ⟨unserved, .inr forwarding⟩)

end LeftClean

theorem Stable.handle_invRep (stable : Stable protocol promise sys dir)
    (sent : sys.up cache = .invRep :: rest)
    (nuca : dir.ReadsNuca cache .invRep → ∀ data, dir.nuca = some data → Good promise.clean sys.last data) :
    ∃ after, processInvRepFromL2Cache protocol dir cache = .ok after ∧
      Stable protocol promise (sys.took cache rest) after := by
  have here := stable.core.caches cache
  unfold LocalAt at here
  rw [sent] at here
  obtain ⟨dstate, await, queued, role, clean, kept, gone⟩ := here.pop_invRep
  obtain ⟨present, passes, rfl, -, isQueued⟩ := roleOf_eq_sharer role
  have memory : Durable promise sys dir.toDram := by
    rcases clean with clean | clean
    · exact stable.dram (.inr (.inl clean))
    · exact kept clean
  have removes := invRepEntry_removes dir.getEntry cache
  have core := stable.core.remove removes present isQueued gone
  rw [processInvRepFromL2Cache_eq present clean]
  cases queue : dir.queue with
  | nil =>
    rw [queue] at core
    rw [Dir.afterInvRep, queue]
    refine ⟨_, rfl, ?_, ?_, fun _ => memory⟩
    · simpa [Dir.setEntry, queue] using core
    · simp [Dir.setEntry, queue]
  | cons req others =>
    rw [queue] at core passes
    have left : LeftClean protocol promise sys dir cache rest (invRepEntry dir.getEntry cache) req others :=
      { stable, queue, present, passes, removes, core, clean, memory
        nuca := fun served retrieves => nuca ⟨retrieves, by rw [queue]; rintro _ ⟨⟩; exact served⟩ }
    cases type : req.msgType with
    | exReq => exact left.afterInvRep_exReq (.inl type)
    | nullifyReq => exact left.afterInvRep_exReq (.inr type)
    | upgradeReq => exact left.afterInvRep_upgradeReq type
    | shReq => exact left.afterInvRep_shReq type

/-! ### `FLUSH_REP` -/

/-- The entry after `processFlushRepFromL2Cache` has removed the sender. -/
def flushRepEntry (entry : DirectoryEntry n) (sender : Fin n) : DirectoryEntry n :=
  let entry : DirectoryEntry n :=
    { entry with
      sharers := Function.update entry.sharers sender false
      forwarder := .invalid
      owner := none }
  if entry.getNumSharers = 0 then { entry with dstate := .uncached } else entry

theorem flushRepEntry_removes (entry : DirectoryEntry n) (sender : Fin n) :
    Removes entry (flushRepEntry entry sender) sender := by
  by_cases none : DirectoryEntry.getNumSharers
      { entry with
        sharers := Function.update entry.sharers sender false, forwarder := .invalid, owner := none } = 0
  · simp only [flushRepEntry, none, if_true]
    exact ⟨rfl, (if_pos none).symm, .inl rfl⟩
  · simp only [flushRepEntry, none, if_false]
    exact ⟨rfl, (if_neg none).symm, .inl rfl⟩

theorem Frame.sendDataToDram {data : LineBuf V} (frame : Frame promise sys dir false)
    (sound : Good promise.clean sys.last data) :
    Frame promise sys (dir.sendDataToDram data) false ∧
      Durable promise sys (dir.sendDataToDram data).toDram ∧
      ∀ held, (dir.sendDataToDram data).nuca = some held → Good promise.clean sys.last held := by
  have none := frame.reads
  simp only [Bool.toNat_false] at none
  cases nuca : dir.hasNuca with
  | true =>
    have indirect : ¬ promise.durable := fun durable => by
      have direct := frame.direct durable
      rw [nuca] at direct
      cases direct
    have sends : dir.sendDataToDram data = { dir with nuca := some data } :=
      (if_pos nuca).trans (if_pos nuca)
    rw [sends]
    refine ⟨⟨frame.queue, frame.reads, frame.fetched, frame.log, ?_, frame.direct⟩, (absurd · indirect), ?_⟩
    · intro without
      rw [show dir.hasNuca = false from without] at nuca
      cases nuca
    · rintro held ⟨⟩
      exact sound
  | false =>
    have sends : dir.sendDataToDram data = { dir with toDram := dir.toDram ++ [.writeReq data] } :=
      if_neg (by simp [nuca])
    rw [sends]
    refine ⟨⟨frame.queue, ?_, frame.fetched, frame.log, frame.nuca, frame.direct⟩, ?_, ?_⟩
    · simpa [DramMsg.isRead] using frame.reads
    · intro durable
      rw [sound (promise.covers durable)]
      exact .write (by omega)
    · intro held isHeld
      have empty := frame.nuca nuca
      rw [show dir.nuca = some held from isHeld] at empty
      cases empty

@[simp] theorem Dir.sendDataToDram_queue (data : LineBuf V) : (dir.sendDataToDram data).queue = dir.queue := by
  unfold Dir.sendDataToDram Dir.sendDataToNUCA
  split <;> rfl

@[simp] theorem Dir.sendDataToDram_entry (data : LineBuf V) : (dir.sendDataToDram data).entry = dir.entry := by
  unfold Dir.sendDataToDram Dir.sendDataToNUCA
  split <;> rfl

@[simp] theorem Dir.sendDataToDram_down (data : LineBuf V) : (dir.sendDataToDram data).down = dir.down := by
  unfold Dir.sendDataToDram Dir.sendDataToNUCA
  split <;> rfl

@[simp] theorem Dir.sendDataToDram_getEntry (data : LineBuf V) :
    (dir.sendDataToDram data).getEntry = dir.getEntry := by
  simp [Dir.getEntry]

theorem Core.sendDataToDram {data : LineBuf V} (core : Core protocol promise sys dir none)
    (sound : Good promise.clean sys.last data) :
    Core protocol promise sys (dir.sendDataToDram data) none ∧
      ∀ queue, Backed promise sys (dir.sendDataToDram data) queue := by
  obtain ⟨frame, durable, nuca⟩ := core.toFrame.sendDataToDram sound
  refine ⟨{ frame with entry := ?_, caches := fun id => ?_ }, fun _ => ⟨fun _ => nuca, fun _ => durable⟩⟩
  · rw [Dir.sendDataToDram_getEntry]
    exact core.entry
  · unfold LocalAt
    rw [Dir.sendDataToDram_getEntry, Dir.sendDataToDram_queue, Dir.sendDataToDram_down]
    exact Local.mono (core.caches id) (fun _ good => good) fun _ => durable

theorem Core.store {others : List (ShmemReq n V)} (data : LineBuf V)
    (core : Core protocol promise sys dir (some req)) (front : dir.queue = req :: others)
    (dirty : ¬ promise.clean) :
    Core protocol promise sys (dir.setFront fun req => { req with dataBuf := some data })
      (some { req with dataBuf := some data }) := by
  have queue : (dir.setFront fun req => { req with dataBuf := some data }).queue =
      { req with dataBuf := some data } :: others := by
    simp [Dir.setFront, front]
  have old : QueueOk promise.clean (req :: others) := front ▸ core.queue
  refine { queue := ?_, reads := core.reads, fetched := core.fetched, log := ?_, nuca := core.nuca,
           direct := core.direct, entry := core.entry, caches := fun id => ?_ }
  · rw [queue]
    exact old.replaceHead rfl rfl fun _ _ => dirty
  · have logged := core.log
    rw [queue]
    rw [front] at logged
    exact logged
  · have here := core.caches id
    rw [front] at here
    have role : roleOf dir.getEntry (some { req with dataBuf := some data })
        ({ req with dataBuf := some data } :: others) id =
          roleOf dir.getEntry (some req) (req :: others) id := by
      have queued : queuedOf ({ req with dataBuf := some data } :: others) id = queuedOf (req :: others) id :=
        queuedOf_cons_congr rfl rfl
      simp only [roleOf, queued]
      rfl
    rw [queue]
    change LocalAt promise sys dir (roleOf dir.getEntry (some _) (_ :: others) id) id
    rw [role]
    exact here

theorem awaitFor_eq_upgrade {dstate : DState} {id : Fin n} (awaits : awaitFor dstate req id = some .upgrade) :
    req.msgType = .upgradeReq := by
  unfold awaitFor at awaits
  split at awaits
  · cases awaits
  · cases dstate <;> cases type : req.msgType <;> simp [type] at awaits ⊢

/-- How the first request goes on once the entry has lost the cache that flushed its copy. -/
def Dir.afterFlushRep (protocol : Protocol) (data : LineBuf V) (dir : Dir n V) (entry : DirectoryEntry n) :
    Except Fault (Dir n V) :=
  match dir.queue with
  | [] => .ok ((dir.setEntry entry).sendDataToDram data)
  | req :: _ =>
    match req.msgType with
    | .exReq => processReq protocol (Dir.next protocol) (dir.setEntry entry) req (some data)
    | .shReq =>
      processReq protocol (Dir.next protocol) ((dir.setEntry entry).sendDataToDram data) req (some data)
    | .upgradeReq =>
      if entry.getNumSharers = 0 then
        processReq protocol (Dir.next protocol) (dir.setEntry entry) req (some data)
      else
        .ok ((dir.setEntry entry).setFront fun req => { req with dataBuf := some .indeterminate })
    | .nullifyReq =>
      processReq protocol (Dir.next protocol) ((dir.setEntry entry).sendDataToDram data) req none

theorem processFlushRepFromL2Cache_eq {data : LineBuf V} (present : dir.getEntry.sharers cache = true)
    (shared : (flushRepEntry dir.getEntry cache).getNumSharers ≠ 0 → dir.getEntry.dstate = .shared) :
    processFlushRepFromL2Cache protocol dir cache data = dir.afterFlushRep protocol data (flushRepEntry dir.getEntry cache) := by
  have isSharer : dir.getEntry.hasSharer cache = true := present
  simp only [processFlushRepFromL2Cache, Dir.entry_of_sharer present, assertThat_of isSharer, ok_bind,
    DirectoryEntry.removeSharer_of_present present]
  by_cases none : DirectoryEntry.getNumSharers
      { dir.getEntry with
        sharers := Function.update dir.getEntry.sharers cache false, forwarder := .invalid
        owner := none } = 0
  · simp only [flushRepEntry, none, if_true]
    rfl
  · simp only [flushRepEntry, none, if_false] at shared ⊢
    simp only [Dir.afterFlushRep, assertThat_of (shared none), ok_bind, none, if_false, pure, Except.pure]
    rfl

theorem Core.keep_upgrade {others : List (ShmemReq n V)} {entry : DirectoryEntry n}
    (core : Core protocol promise sys (dir.setEntry entry) (some req)) (queue : dir.queue = req :: others)
    (type : req.msgType = .upgradeReq) (fresh : req.Fresh) (cached : entry.dstate ≠ .uncached) (dirty : ¬promise.clean)
    (memory : Durable promise sys dir.toDram) :
    Stable protocol promise sys
      ((dir.setEntry entry).setFront fun req => { req with dataBuf := some .indeterminate }) := by
  have front : ((dir.setEntry entry).setFront fun req => { req with dataBuf := some .indeterminate }).queue.head? =
      some { req with dataBuf := some .indeterminate } := by
    simp [Dir.setFront, Dir.setEntry, queue]
  refine ⟨?_, ?_, fun _ => memory⟩
  · rw [front]
    exact core.store .indeterminate queue dirty
  · intro found isHead
    rw [front] at isHead
    cases isHead
    refine .of_fresh ⟨fresh.waitForData, fresh.forwardingFrom⟩ cached fun isSh => ?_
    rw [show req.msgType = .shReq from isSh] at type
    cases type

section Flushed

variable {entry : DirectoryEntry n} {others : List (ShmemReq n V)} {data : LineBuf V}

/-- The copy was flushed, by its owner or for an upgrade. -/
structure Flushed (protocol : Protocol) (promise : Promise) (sys : Sys n V) (dir : Dir n V) (cache : Fin n)
    (rest : List (CacheMsg V)) (entry : DirectoryEntry n) (req : ShmemReq n V) (others : List (ShmemReq n V)) (data : LineBuf V) :
    Prop extends Left protocol promise sys dir cache rest entry req others where
  sound : Good promise.clean sys.last data
  owned : req.msgType ≠ .upgradeReq → dir.getEntry.dstate = .exclusive ∨ dir.getEntry.dstate = .modified

theorem Flushed.good (flushed : Flushed protocol promise sys dir cache rest entry req others data) :
    ∀ bytes, some data = some bytes → Good promise.clean (sys.took cache rest).last bytes := by
  rintro _ ⟨⟩
  exact flushed.sound

theorem Flushed.written (flushed : Flushed protocol promise sys dir cache rest entry req others data) (fresh : req.Fresh)
    (gone : entry.dstate = .uncached) :
    ((dir.setEntry entry).sendDataToDram data).queue = req :: others ∧
      Core protocol promise (sys.took cache rest) ((dir.setEntry entry).sendDataToDram data) none ∧
      ∀ queue, Backed promise (sys.took cache rest) ((dir.setEntry entry).sendDataToDram data) queue := by
  refine ⟨?_, (flushed.restart fresh gone).sendDataToDram flushed.sound⟩
  rw [Dir.sendDataToDram_queue]
  exact flushed.queue

theorem Flushed.afterFlushRep_exReq (flushed : Flushed protocol promise sys dir cache rest entry req others data)
    (type : req.msgType = .exReq) :
    ∃ after, dir.afterFlushRep protocol data entry = .ok after ∧ Stable protocol promise (sys.took cache rest) after := by
  have owned := flushed.owned (by rw [type]; rintro ⟨⟩)
  have fresh := flushed.fresh_of_owned owned
  rw [Dir.afterFlushRep, flushed.queue]
  simp only [type, processReq]
  exact (flushed.restart fresh (flushed.uncached owned)).process_exReq flushed.queue type fresh next_finishes flushed.good
    (fun _ => flushed.uncached owned) (by rintro ⟨⟩)

theorem Flushed.afterFlushRep_shReq (flushed : Flushed protocol promise sys dir cache rest entry req others data)
    (type : req.msgType = .shReq) :
    ∃ after, dir.afterFlushRep protocol data entry = .ok after ∧ Stable protocol promise (sys.took cache rest) after := by
  have owned := flushed.owned (by rw [type]; rintro ⟨⟩)
  have fresh := flushed.fresh_of_owned owned
  obtain ⟨front, core, backed⟩ := flushed.written fresh (flushed.uncached owned)
  rw [Dir.afterFlushRep, flushed.queue]
  simp only [type, processReq]
  refine core.process_shReq front type fresh next_finishes flushed.good (fun _ => ?_) (backed _)
  rw [Dir.sendDataToDram_getEntry]
  exact flushed.uncached owned

theorem Flushed.afterFlushRep_nullifyReq (flushed : Flushed protocol promise sys dir cache rest entry req others data)
    (type : req.msgType = .nullifyReq) :
    ∃ after, dir.afterFlushRep protocol data entry = .ok after ∧ Stable protocol promise (sys.took cache rest) after := by
  have owned := flushed.owned (by rw [type]; rintro ⟨⟩)
  have fresh := flushed.fresh_of_owned owned
  obtain ⟨front, core, backed⟩ := flushed.written fresh (flushed.uncached owned)
  rw [Dir.afterFlushRep, flushed.queue]
  simp only [type, processReq]
  refine core.process_nullifyReq front type fresh ?_ next_finishes (backed []).dram (backed _).nuca
  rw [Dir.sendDataToDram_getEntry, Dir.sendDataToDram_entry]
  rfl

theorem Flushed.afterFlushRep_upgradeReq (flushed : Flushed protocol promise sys dir cache rest entry req others data)
    (type : req.msgType = .upgradeReq) (shared : entry.getNumSharers ≠ 0 → dir.getEntry.dstate = .shared)
    (alone : promise.clean → ∀ id, dir.getEntry.sharers id = true → id = cache) (fresh : req.Fresh) :
    ∃ after, dir.afterFlushRep protocol data entry = .ok after ∧ Stable protocol promise (sys.took cache rest) after := by
  have zero := flushed.getNumSharers_eq_zero
  rw [Dir.afterFlushRep, flushed.queue]
  simp only [type]
  split
  case isTrue none =>
    have gone := zero.mp none
    simp only [processReq, type]
    refine (flushed.restart fresh gone).process_upgradeReq flushed.queue type fresh next_finishes flushed.good (by rintro ⟨⟩) ?_
    intro shared
    rw [show entry.dstate = .shared from shared] at gone
    cases gone
  case isFalse some =>
    have cached : entry.dstate ≠ .uncached := fun uncached => some (zero.mpr uncached)
    have dirty : ¬ promise.clean := by
      intro clean
      refine absurd (DirectoryEntry.getNumSharers_eq_zero.mpr fun id => ?_) some
      by_cases same : id = cache
      · rw [same]
        exact flushed.removes.absent
      · rw [flushed.removes.present same]
        cases held : dir.getEntry.sharers id with
        | false => rfl
        | true => exact absurd (alone clean id held) same
    exact ⟨_, rfl, flushed.core.keep_upgrade flushed.queue type fresh cached dirty
      (flushed.stable.dram (.inr (.inl (shared some))))⟩

end Flushed

theorem Stable.handle_flushRep {data : LineBuf V} (stable : Stable protocol promise sys dir)
    (sent : sys.up cache = .flushRep data :: rest)
    (alone : promise.clean → ∀ req, dir.queue.head? = some req → req.msgType = .upgradeReq →
      ∀ id, dir.getEntry.sharers id = true → id = cache) :
    ∃ after, processFlushRepFromL2Cache protocol dir cache data = .ok after ∧
      Stable protocol promise (sys.took cache rest) after := by
  have here := stable.core.caches cache
  unfold LocalAt at here
  rw [sent] at here
  obtain ⟨dstate, await, queued, role, kind, sound, gone⟩ := here.pop_flushRep
  obtain ⟨present, passes, rfl, awaits, isQueued⟩ := roleOf_eq_sharer role
  have removes := flushRepEntry_removes dir.getEntry cache
  have core := stable.core.remove removes present isQueued gone
  have shared (cached : (flushRepEntry dir.getEntry cache).getNumSharers ≠ 0) : dir.getEntry.dstate = .shared := by
    have zero := removes.getNumSharers_eq_zero stable.core.entry present
    rcases kind with kind | kind | ⟨kind, _⟩
    · exact absurd (zero.mpr (removes.uncached stable.core.entry present (.inl kind))) cached
    · exact absurd (zero.mpr (removes.uncached stable.core.entry present (.inr kind))) cached
    · exact kind
  rw [processFlushRepFromL2Cache_eq present shared]
  cases queue : dir.queue with
  | nil =>
    rw [queue] at core
    obtain ⟨written, backed⟩ := core.sendDataToDram sound
    have empty : ((dir.setEntry (flushRepEntry dir.getEntry cache)).sendDataToDram data).queue = [] := by
      rw [Dir.sendDataToDram_queue]
      exact queue
    rw [Dir.afterFlushRep, queue]
    refine ⟨_, rfl, ?_, ?_, fun idle => (backed []).dram ?_⟩
    · rw [empty]
      exact written
    · rw [empty]
      rintro _ ⟨⟩
    · rw [empty] at idle
      simpa [waits] using idle
  | cons req others =>
    rw [queue, List.head?_cons] at core passes awaits
    have owned (other : req.msgType ≠ .upgradeReq) :
        dir.getEntry.dstate = .exclusive ∨ dir.getEntry.dstate = .modified := by
      rcases kind with kind | kind | ⟨_, upgrade⟩
      · exact .inl kind
      · exact .inr kind
      · exact absurd (awaitFor_eq_upgrade (awaits.symm.trans upgrade)) other
    have flushed : Flushed protocol promise sys dir cache rest (flushRepEntry dir.getEntry cache) req others data :=
      { stable, queue, present, passes, removes, core, sound, owned }
    cases type : req.msgType with
    | exReq => exact flushed.afterFlushRep_exReq type
    | shReq => exact flushed.afterFlushRep_shReq type
    | nullifyReq => exact flushed.afterFlushRep_nullifyReq type
    | upgradeReq =>
      have fresh : req.Fresh := by
        rcases kind with kind | kind | ⟨kind, _⟩
        · exact flushed.fresh_of_owned (.inl kind)
        · exact flushed.fresh_of_owned (.inr kind)
        · exact flushed.head.fresh (by rw [type]; rintro ⟨⟩) (by rw [kind]; rintro ⟨⟩)
      exact flushed.afterFlushRep_upgradeReq type shared (fun clean => alone clean req (by rw [queue]; rfl) type) fresh

/-! ### `WB_REP` -/

theorem awaitFor_eq_wb {dstate : DState} {id : Fin n} (awaits : awaitFor dstate req id = some .wb) :
    req.msgType = .shReq ∧ req.waitForData = false ∧
      ((dstate = .exclusive ∨ dstate = .modified) ∨ dstate = .shared ∧ req.forwardingFrom = some id) := by
  unfold awaitFor at awaits
  split at awaits
  · cases awaits
  · cases dstate <;> cases type : req.msgType <;> simp_all

/-- A sharer other than the requester writes its copy back for a read that has not been served. -/
structure WritesBack (promise : Promise) (sys : Sys n V) (dir : Dir n V) (cache : Fin n) (rest : List (CacheMsg V))
    (req : ShmemReq n V) (others : List (ShmemReq n V)) : Prop where
  queue : dir.queue = req :: others
  type : req.msgType = .shReq
  unserved : req.waitForData = false
  kind : (dir.getEntry.dstate = .exclusive ∨ dir.getEntry.dstate = .modified) ∨
    dir.getEntry.dstate = .shared ∧ req.forwardingFrom = some cache
  present : dir.getEntry.sharers cache = true
  apart : req.requester ≠ cache
  /-- The copy stays. -/
  shares : Local (Good promise.clean sys.last) (Durable promise sys dir.toDram)
    (.sharer .shared none (queuedOf dir.queue cache)) (sys.llc cache) rest (dir.down cache)

def wbRepEntry (entry : DirectoryEntry n) : DirectoryEntry n := { entry with owner := none, dstate := .shared }

section WritesBack

variable {others : List (ShmemReq n V)} {entry : DirectoryEntry n}

theorem WritesBack.request (back : WritesBack promise sys dir cache rest req others) : req.msgType ≠ .nullifyReq := by
  rw [back.type]
  rintro ⟨⟩

theorem WritesBack.only (back : WritesBack promise sys dir cache rest req others) (ok : EntryOk protocol dir.getEntry)
    (owned : dir.getEntry.dstate = .exclusive ∨ dir.getEntry.dstate = .modified) {id : Fin n}
    (held : dir.getEntry.sharers id = true) : id = cache := by
  obtain ⟨owner, _, only⟩ := ok.owner owned
  exact ((only id).mp held).trans ((only cache).mp back.present).symm

theorem WritesBack.local_requester (back : WritesBack promise sys dir cache rest req others)
    (stable : Stable protocol promise sys dir) : LocalAt promise sys dir (.absent (some req.msgType)) req.requester := by
  have here := stable.core.caches req.requester
  have waiting : roleOf dir.getEntry dir.queue.head? dir.queue req.requester = .absent (some req.msgType) := by
    have queued : queuedOf (req :: others) req.requester = some req.msgType := queuedOf_cons_self back.request
    rw [← queued, ← back.queue]
    rcases back.kind with owned | ⟨shared, forwarding⟩
    · refine roleOf_absent ?_
      cases held : dir.getEntry.sharers req.requester with
      | false => rfl
      | true => exact absurd (back.only stable.core.entry owned held) back.apart
    · refine roleOf_granting ?_
      simp [back.queue, granting, back.request, forwarding]
  rwa [waiting] at here

theorem WritesBack.local_others (back : WritesBack promise sys dir cache rest req others)
    (stable : Stable protocol promise sys dir) (sharers : entry.sharers = Function.update dir.getEntry.sharers req.requester true)
    (dstate : entry.dstate = .shared) (id : Fin n) (other : id ≠ req.requester) :
    LocalAt promise (sys.took cache rest) dir (roleOf entry none dir.queue id) id := by
  have same : entry.sharers id = dir.getEntry.sharers id := by
    rw [sharers, Function.update_of_ne other]
  by_cases sender : id = cache
  · subst sender
    rw [roleOf_settled (same.trans back.present), dstate]
    exact LocalAt.took dir back.shares
  · have here := stable.core.caches id
    refine LocalAt.took_other dir ?_ sender
    cases held : dir.getEntry.sharers id with
    | false =>
      rw [roleOf_absent (same.trans held)]
      rwa [roleOf_absent held] at here
    | true =>
      rcases back.kind with owned | ⟨shared, forwarding⟩
      · exact absurd (back.only stable.core.entry owned held) sender
      · have passes : granting dir.queue.head? id = false := by
          simp [back.queue, granting, Ne.symm other]
        rw [roleOf_settled (same.trans held), dstate]
        rw [roleOf_sharer held passes] at here
        simpa [back.queue, awaitOf, awaitFor, back.unserved, shared, back.type, forwarding, Ne.symm sender] using here

theorem EntryOk.forwarded {requester : Fin n} (sharer : entry.sharers requester = true) (dstate : entry.dstate = .shared)
    (forwarder : entry.forwarder = .core requester) : EntryOk protocol entry where
  uncached := by
    rw [dstate]
    refine ⟨(nomatch ·), fun none => ?_⟩
    rw [none] at sharer
    cases sharer
  owner := by
    rw [dstate]
    rintro (owned | owned) <;> cases owned
  notOwned := by
    rw [dstate]
    rintro ⟨⟩
  forwarder id isForwarder := by
    rw [forwarder] at isForwarder
    cases isForwarder
    exact sharer
  initialised := by
    rw [forwarder]
    rintro _ _ ⟨⟩

theorem WritesBack.admits (back : WritesBack promise sys dir cache rest req others)
    (stable : Stable protocol promise sys dir) (sharers : entry.sharers = Function.update dir.getEntry.sharers req.requester true)
    (dstate : entry.dstate = .shared) (forwarder : entry.forwarder = .core req.requester) :
    Admits protocol promise (sys.took cache rest)
      ((((dir.setEntry (wbRepEntry dir.getEntry)).serving .shReq req.requester).setEntry (wbRepEntry dir.getEntry)).setEntry
        entry) req := by
  have frame : Frame promise (sys.took cache rest) (dir.setEntry (wbRepEntry dir.getEntry)) false := by
    have frame := stable.core.toFrame
    rw [back.queue] at frame
    simp only [List.head?_cons, waits, Option.any_some, back.unserved] at frame
    exact { frame.took with }
  have sharer : entry.sharers req.requester = true := by rw [sharers, Function.update_self]
  exact frame.admits back.queue back.request (.request back.type) (.forwarded sharer dstate forwarder) sharer
    (back.local_others stable sharers dstate) (LocalAt.took_other dir (back.local_requester stable) back.apart)

theorem WritesBack.processWbRepFromL2Cache_eq {data : LineBuf V} (back : WritesBack promise sys dir cache rest req others) :
    processWbRepFromL2Cache protocol dir cache data =
      processShReqFromL2Cache protocol (Dir.next protocol) (dir.setEntry (wbRepEntry dir.getEntry)) req.requester
        (some data) := by
  have isSharer : dir.getEntry.hasSharer cache = true := back.present
  have front : (dir.setEntry (wbRepEntry dir.getEntry)).queue = req :: others := back.queue
  simp only [processWbRepFromL2Cache, Dir.entry_of_sharer back.present, assertThat_of isSharer, ok_bind]
  simp only [wbRepEntry] at front
  simp only [front, processReq, back.type]
  rfl

theorem WritesBack.served {data : LineBuf V} (back : WritesBack promise sys dir cache rest req others)
    (stable : Stable protocol promise sys dir) (sound : Good promise.clean sys.last data)
    (backed : ∀ entry, entry.dstate = .shared → Backed promise (sys.took cache rest)
      ((((dir.setEntry (wbRepEntry dir.getEntry)).serving .shReq req.requester).setEntry (wbRepEntry dir.getEntry)).setEntry
        entry) dir.queue.tail) :
    ∃ after, processShReqFromL2Cache protocol (Dir.next protocol) (dir.setEntry (wbRepEntry dir.getEntry)) req.requester
        (some data) = .ok after ∧ Stable protocol promise (sys.took cache rest) after := by
  cases held : dir.getEntry.sharers req.requester with
  | true =>
    have same : (wbRepEntry dir.getEntry).sharers = Function.update dir.getEntry.sharers req.requester true := by
      rw [← held, Function.update_eq_self]
      rfl
    let forwarded : DirectoryEntry n := { wbRepEntry dir.getEntry with forwarder := .core req.requester }
    have admitted := back.admits stable (show forwarded.sharers = _ from same) rfl rfl
    obtain ⟨after, ran, stable⟩ := admitted.retrieve_data .shRep next_finishes rfl
      (fun waiters demand => .shared sound (back.type ▸ demand)) (backed (wbRepEntry dir.getEntry) rfl)
    refine ⟨after, ?_, stable⟩
    have isSharer : (wbRepEntry dir.getEntry).hasSharer req.requester = true := held
    simp only [processShReqFromL2Cache, Dir.getEntry_setEntry, isSharer, if_true]
    exact ran
  | false =>
    let shared : DirectoryEntry n :=
      { wbRepEntry dir.getEntry with sharers := Function.update dir.getEntry.sharers req.requester true }
    have admitted : Admits protocol promise (sys.took cache rest)
        (((((dir.setEntry (wbRepEntry dir.getEntry)).serving .shReq req.requester).setEntry (wbRepEntry dir.getEntry)).setEntry
          shared).setEntry { shared with forwarder := .core req.requester }) req :=
      back.admits stable rfl rfl rfl
    obtain ⟨after, ran, stable⟩ := admitted.retrieve_data .shRep next_finishes rfl
      (fun waiters demand => .shared sound (back.type ▸ demand)) (backed shared rfl)
    refine ⟨after, ?_, stable⟩
    have isSharer : (wbRepEntry dir.getEntry).hasSharer req.requester = false := held
    have added : (wbRepEntry dir.getEntry).addSharer req.requester = .ok shared := DirectoryEntry.addSharer_of_absent held
    simp only [processShReqFromL2Cache, Dir.getEntry_setEntry, isSharer, added, ok_bind]
    exact ran

end WritesBack

theorem Stable.handle_wbRep {data : LineBuf V} (stable : Stable protocol promise sys dir)
    (sent : sys.up cache = .wbRep data :: rest)
    (nuca : dir.ReadsNuca cache (.wbRep data) → ∀ data, dir.nuca = some data → Good promise.clean sys.last data) :
    ∃ after, processWbRepFromL2Cache protocol dir cache data = .ok after ∧
      Stable protocol promise (sys.took cache rest) after := by
  have here := stable.core.caches cache
  unfold LocalAt at here
  rw [sent] at here
  obtain ⟨dstate, queued, role, sound, kept, shares⟩ := here.pop_wbRep
  obtain ⟨present, passes, rfl, awaits, rfl⟩ := roleOf_eq_sharer role
  have memory : Durable promise sys dir.toDram := by
    by_cases shared : dir.getEntry.dstate = .shared
    · exact stable.dram (.inr (.inl shared))
    · exact kept shared
  cases queue : dir.queue with
  | nil =>
    rw [queue] at awaits
    cases awaits
  | cons req others =>
    rw [queue, List.head?_cons] at awaits
    obtain ⟨type, unserved, kind⟩ := awaitFor_eq_wb awaits.symm
    have request : req.msgType ≠ .nullifyReq := by rw [type]; rintro ⟨⟩
    have apart : req.requester ≠ cache := by
      rintro rfl
      rw [queue, queuedOf_cons_self request, type] at shares
      cases shares.queued_sharer.1
    have back : WritesBack promise sys dir cache rest req others :=
      ⟨queue, type, unserved, kind, present, apart, shares⟩
    rw [back.processWbRepFromL2Cache_eq]
    exact back.served stable sound fun entry shared =>
      ⟨fun retrieves => nuca (retrieves.congr shared.symm), fun _ => memory⟩

/-! ### The DRAM reply -/

theorem Dir.reply_sendDataToNUCA (receiver : Fin n) (msg : DirMsg V) (data : LineBuf V) :
    (dir.reply receiver msg).sendDataToNUCA data = (dir.sendDataToNUCA data).reply receiver msg := by
  unfold Dir.sendDataToNUCA
  change (if dir.hasNuca = true then _ else _) = _
  split <;> rfl

/-- The system once the directory has taken the first reply of DRAM. -/
def Sys.fetched (sys : Sys n V) (rest : List (LineBuf V)) : Sys n V := { sys with fromDram := rest }

theorem Stable.admits_fetched {data : LineBuf V} {more : List (LineBuf V)}
    (stable : Stable protocol promise sys dir) (fetched : sys.fromDram = data :: more) :
    ∃ req others, dir.queue = req :: others ∧ req.waitForData = true ∧
      Admits protocol promise (sys.fetched more) (dir.sendDataToNUCA data) req := by
  have reads := stable.core.reads
  rw [fetched, List.length_cons] at reads
  have waiting : waits dir.queue.head? = true := by
    cases waiting : waits dir.queue.head? with
    | true => rfl
    | false =>
      rw [waiting, Bool.toNat_false] at reads
      omega
  rw [waiting, Bool.toNat_true] at reads
  cases queue : dir.queue with
  | nil =>
    rw [queue] at waiting
    cases waiting
  | cons req others =>
    rw [queue, List.head?_cons, waits, Option.any_some] at waiting
    have head := stable.head req (by rw [queue]; rfl)
    obtain ⟨request, sharer⟩ := head.granting (.inl waiting)
    have unchanged : dir.sendDataToNUCA data =
        { dir with nuca := if dir.hasNuca = true then some data else dir.nuca } := by
      unfold Dir.sendDataToNUCA
      split <;> rfl
    refine ⟨req, others, rfl, waiting, ?_⟩
    rw [unchanged]
    refine { queue := stable.core.queue, reads := ?_, fetched := ?_, log := stable.core.log, nuca := ?_,
             direct := stable.core.direct, front := ?_, request, entry := stable.core.entry, sharer,
             others := fun id other => ?_, requester := ?_ }
    · change dir.toDram.countP DramMsg.isRead + more.length = false.toNat
      rw [Bool.toNat_false]
      omega
    · intro held member
      exact stable.core.fetched held (by rw [fetched]; exact List.mem_cons_of_mem _ member)
    · intro without
      rw [if_neg (by rw [show dir.hasNuca = false from without]; rintro ⟨⟩)]
      exact stable.core.nuca without
    · rw [queue]
      rfl
    · have here := stable.core.caches id
      change LocalAt promise sys dir (roleOf dir.getEntry none dir.queue id) id
      have passes : granting dir.queue.head? id = false := by
        simp [queue, granting, Ne.symm other]
      cases held : dir.getEntry.sharers id with
      | false =>
        rw [roleOf_absent held]
        rwa [roleOf_absent held] at here
      | true =>
        rw [roleOf_settled held]
        rw [roleOf_sharer held passes] at here
        simpa [queue, awaitOf, awaitFor, waiting] using here
    · have here := stable.core.caches req.requester
      have grants : granting dir.queue.head? req.requester = true := by
        simp [queue, granting, request, waiting]
      rw [roleOf_granting grants, queue, queuedOf_cons_self request] at here
      exact here

theorem Stable.handle_dramReply {data : LineBuf V} {more : List (LineBuf V)}
    (stable : Stable protocol promise sys dir) (fetched : sys.fromDram = data :: more) :
    ∃ after, processDRAMReply protocol dir data = .ok after ∧
      Stable protocol promise (sys.fetched more) after := by
  obtain ⟨req, others, queue, waiting, admits⟩ := stable.admits_fetched fetched
  have sound : Good promise.clean sys.last data :=
    stable.core.fetched data (by rw [fetched]; exact List.mem_cons_self ..)
  have head := stable.head req (by rw [queue]; rfl)
  obtain ⟨request, sharer⟩ := head.granting (.inl waiting)
  have stored := Dir.entry_of_sharer sharer
  have getEntry : (dir.sendDataToNUCA data).getEntry = dir.getEntry := by
    unfold Dir.sendDataToNUCA
    split <;> rfl
  have toDram : (dir.sendDataToNUCA data).toDram = dir.toDram := by
    unfold Dir.sendDataToNUCA
    split <;> rfl
  have memory : Durable promise sys dir.toDram := by
    refine stable.dram (.inr (.inr ?_))
    simp [queue, waits, waiting]
  have backed (queue : List (ShmemReq n V)) : Backed promise (sys.fetched more) (dir.sendDataToNUCA data) queue := by
    refine ⟨fun _ held isHeld => ?_, fun _ => toDram ▸ memory⟩
    unfold Dir.sendDataToNUCA at isHeld
    split at isHeld
    case isTrue =>
      cases isHeld
      exact sound
    case isFalse without =>
      have empty := stable.core.nuca (by simpa using without)
      rw [isHeld] at empty
      cases empty
  have finish (reply : DirMsg V)
      (fill : ∀ waiters, Demands req.msgType waiters →
        Fill (Good promise.clean sys.last) (Durable promise sys dir.toDram) dir.getEntry.dstate waiters reply) :
      ∃ after, Dir.next protocol ((dir.reply req.requester reply).sendDataToNUCA data) = .ok after ∧
        Stable protocol promise (sys.fetched more) after := by
    rw [Dir.reply_sendDataToNUCA]
    refine next_finishes _ (admits.complete ?_ (backed _)) (Nat.le_refl _)
    rw [getEntry, toDram]
    exact fill
  cases type : req.msgType with
  | shReq =>
    have unmodified := (head.exclusive waiting).1 type
    cases dstate : dir.getEntry.dstate with
    | shared =>
      obtain ⟨after, ran, stable⟩ := finish (.shRep data) fun waiters demand => by
        rw [dstate]
        exact .shared sound (type ▸ demand)
      exact ⟨after, by simpa [processDRAMReply, queue, stored, type, dstate] using ran, stable⟩
    | exclusive =>
      obtain ⟨after, ran, stable⟩ := finish (.exRep data) fun waiters demand => by
        rw [dstate]
        exact .exclusive sound memory (type ▸ demand)
      exact ⟨after, by simpa [processDRAMReply, queue, stored, type, dstate] using ran, stable⟩
    | modified => exact absurd dstate unmodified
    | uncached => exact absurd dstate head.cached
    | owned => exact absurd dstate stable.core.entry.notOwned
  | exReq | upgradeReq =>
    have dstate := (head.exclusive waiting).2 (by rw [type]; rintro ⟨⟩)
    obtain ⟨after, ran, stable⟩ := finish (.exRep data) fun waiters demand => by
      rw [dstate]
      exact .of_exclusive sound demand (by rw [type]; rintro ⟨⟩)
    exact ⟨after, by simpa [processDRAMReply, queue, stored, type, dstate] using ran, stable⟩
  | nullifyReq => exact absurd type request

/-! ### Entries taken over by other addresses -/

theorem Stable.handle_nullify (stable : Stable protocol promise sys dir) (requester : Fin n)
    (idle : dir.queue = []) (stored : dir.entry.isSome = true) :
    ∃ after, nullifyEntry protocol dir requester = .ok after ∧ Stable protocol promise sys after := by
  let req : ShmemReq n V := { msgType := .nullifyReq, requester }
  have core : Core protocol promise sys (dir.enqueue req) none := by
    have before := stable.core
    rw [idle] at before
    refine { queue := ?_, reads := before.reads, fetched := before.fetched, log := ?_, nuca := before.nuca,
             direct := before.direct, entry := before.entry, caches := fun id => ?_ }
    · have ok := before.queue
      rw [idle] at ok
      change QueueOk _ (dir.queue ++ [req])
      rw [idle]
      exact ok.append ⟨rfl, rfl⟩ rfl (absurd rfl) rfl
    · have logged := replay_enqueued .nullifyReq requester before.log
      simpa [Dir.enqueue, ShmemReq.key, req] using logged
    · change LocalAt promise sys dir (roleOf dir.getEntry none (dir.queue ++ [req]) id) id
      rw [roleOf_enqueue_other (.inr rfl)]
      have here := before.caches id
      rw [idle] at here ⊢
      exact here
  have held : dir.entry = some dir.getEntry := by
    obtain ⟨entry, isEntry⟩ := Option.isSome_iff_exists.mp stored
    simp [Dir.getEntry, isEntry]
  have front : (dir.enqueue req).queue = [req] := by
    simp [Dir.enqueue, idle]
  have alone : ¬Retrieves (dir.enqueue req).getEntry (dir.enqueue req).queue := by
    rw [front]
    exact fun retrieves => retrieves.2
  exact core.process_nullifyReq front rfl ⟨rfl, rfl⟩ held next_finishes
    (fun unowned => stable.dram (unowned.imp_right .inl)) fun retrieves => absurd retrieves alone

end Replies

end Sniper.Directory

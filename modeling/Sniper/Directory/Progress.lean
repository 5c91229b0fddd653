import Sniper.Directory.Deliveries
import Sniper.Directory.Durability

/-! No request is left unanswered.

A state in which no message is under way has nothing left to wait for: the request in
service would wait for DRAM or for a sharer, and the sharer's copy, its channels and the
kind of request say what it still owes.  The one case `Stable` does not settle is an
upgrade whose requester keeps its copy: it also needs that no other sharer was asked to
flush (`Unflushed`), since the handler of `FLUSH_REP` only goes on when no sharer is left. -/

namespace Sniper.Directory

variable {n : Nat} {V : Type}

/-! ### Upgrades wait for invalidations only -/

/-- The first request is an upgrade of a cache that still has its shared copy. -/
structure UpgradeInService (dir : Dir n V) (req : ShmemReq n V) : Prop where
  front : dir.queue.head? = some req
  type : req.msgType = .upgradeReq
  shared : dir.getEntry.dstate = .shared
  sharer : dir.getEntry.sharers req.requester = true

/-- The other sharers, of which there is one, have not been asked to flush and do not flush. -/
def Unflushed (sys : Sys n V) : Prop :=
  ∀ req, UpgradeInService sys.dir req →
    (∃ id, id ≠ req.requester ∧ sys.dir.getEntry.sharers id = true) ∧
    ∀ id, id ≠ req.requester → sys.dir.getEntry.sharers id = true →
      (sys.dir.down id).getLast? ≠ some .flushReq ∧ ∀ data, .flushRep data ∉ sys.up id

/-- An upgrade that is in service after the step has just asked the other sharers. -/
def EndsAsking (dir after : Dir n V) : Prop :=
  ∀ req, UpgradeInService after req →
    after.getEntry.getSharersList ≠ [req.requester] ∧
    ∀ id, id ≠ req.requester → after.getEntry.sharers id = true →
      ∃ earlier, after.down id = dir.down id ++ earlier ++ [.invReq]

section Asking

variable {protocol : Protocol} {next : Dir n V → Except Fault (Dir n V)} {dir before after : Dir n V}
  {req : ShmemReq n V} {rest : List (ShmemReq n V)} {cachedDataBuf : Option (LineBuf V)}

/-- `later` has all the messages of `dir`. -/
def Extends (dir later : Dir n V) : Prop := ∀ id, ∃ more, later.down id = dir.down id ++ more

theorem Extends.sendMsg {receiver : Fin n} {msg : DirMsg V} {later : Dir n V}
    (down : later.down = (dir.sendMsg receiver msg).down) : Extends dir later := by
  intro id
  rw [down]
  by_cases same : id = receiver
  · subst same
    exact ⟨[msg], by simp [Dir.sendMsg]⟩
  · exact ⟨[], by simp [Dir.sendMsg, same]⟩

theorem EndsAsking.earlier (ends : EndsAsking before after) (extend : Extends dir before) : EndsAsking dir after := by
  intro req service
  obtain ⟨others, asked⟩ := ends req service
  refine ⟨others, fun id other present => ?_⟩
  obtain ⟨earlier, sent⟩ := asked id other present
  obtain ⟨more, down⟩ := extend id
  exact ⟨more ++ earlier, by simp only [sent, down, List.append_assoc]⟩

theorem Served.endsAsking (served : Served next dir req cachedDataBuf after) (front : dir.queue = req :: rest)
    (ends : ∀ done after, next done = .ok after → EndsAsking done after) : EndsAsking dir after := by
  cases served with
  | asked msgs asked =>
    rintro req' ⟨front', type, shared, sharer⟩
    rw [asked.queue, front] at front'
    cases front'
    rw [asked.getEntry] at shared sharer ⊢
    obtain ⟨others, each⟩ := asked.upgrade type shared
    refine ⟨others, fun id other present => ⟨[], ?_⟩⟩
    rw [asked.down, each sharer id other present, List.append_nil]
  | forwards forwarder _ type _ _ queue =>
    rintro req' ⟨front', type', _, _⟩
    rw [queue] at front'
    cases front'
    rw [show req.msgType = .upgradeReq from type'] at type
    cases type
  | fetches _ queue _ _ modified =>
    rintro req' ⟨front', type', shared, _⟩
    rw [queue] at front'
    cases front'
    rw [modified type'] at shared
    cases shared
  | replies done reply _ ran _ _ _ down => exact (ends done after ran).earlier (.sendMsg down)
  | drops done _ ran _ _ down => exact (ends done after ran).earlier fun id => ⟨[], by rw [down, List.append_nil]⟩

theorem processNextReqFromL2Cache_endsAsking (size : Nat) (done after : Dir n V)
    (ran : processNextReqFromL2Cache protocol size done = .ok after) : EndsAsking done after := by
  induction size generalizing done after with
  | zero => cases ran
  | succ size ih =>
    unfold processNextReqFromL2Cache at ran
    cases queue : done.queue with
    | nil => simp [queue] at ran
    | cons first rest =>
      simp only [queue] at ran
      cases rest with
      | nil =>
        cases ran
        rintro req ⟨front, _, _, _⟩
        cases front
      | cons req rest =>
        simp only at ran
        split at ran
        case isTrue => cases ran
        case isFalse => exact (processReq_served rfl ran).endsAsking rfl ih

theorem next_endsAsking (done after : Dir n V) (ran : Dir.next protocol done = .ok after) : EndsAsking done after :=
  processNextReqFromL2Cache_endsAsking done.queue.length done after ran

theorem processReq_endsAsking (front : dir.queue = req :: rest)
    (ran : processReq protocol (Dir.next protocol) dir req cachedDataBuf = .ok after) : EndsAsking dir after :=
  (processReq_served front ran).endsAsking front next_endsAsking

end Asking

/-! ### Who can have flushed -/

section Flushes

variable {good : LineBuf V → Prop} {durable : Prop} {role : Role} {llc : Llc V} {up : List (CacheMsg V)}
  {down : List (DirMsg V)} {data : LineBuf V}

theorem Requesting.no_flushRep {waiters : List (MemOp V)} (requesting : Requesting waiters up) :
    .flushRep data ∉ up := by
  cases requesting with
  | idle => simp
  | asked => simp

theorem Upgrading.no_flushRep {queued : Option ReqType} (upgrading : Upgrading queued up) : .flushRep data ∉ up := by
  cases upgrading <;> simp

theorem Local.role_of_flushRep (here : Local good durable role llc up down) (sent : .flushRep data ∈ up) :
    (∃ dstate await queued, role = .sharer dstate await queued ∧
      (dstate = .exclusive ∨ dstate = .modified ∨ dstate = .shared ∧ await = some .upgrade)) ∧
      ∀ msg rest, up = msg :: rest → (∀ msgType, msg ≠ .req msgType) → .flushRep data ∉ rest := by
  cases here with
  | absent requesting => exact absurd sent requesting.no_flushRep
  | upgrading _ _ upgrading => exact absurd sent upgrading.no_flushRep
  | upgradingWroteBack _ _ _ upgrading =>
    rcases List.mem_append.mp sent with sent | sent
    · exact absurd sent upgrading.no_flushRep
    · simp at sent
  | wroteBack | wroteBackUpgrading => simp at sent
  | wroteBackLost _ _ requesting =>
    simp only [List.mem_cons, reduceCtorEq, false_or] at sent
    exact absurd sent requesting.no_flushRep
  | lost loss requesting =>
    rcases List.mem_cons.mp sent with same | sent
    · subst same
      cases loss with
      | flushRep _ owned =>
        refine ⟨⟨_, _, _, rfl, owned⟩, ?_⟩
        rintro _ _ ⟨⟩ _
        exact requesting.no_flushRep
    · exact absurd sent requesting.no_flushRep
  | @upgradingLost await queued _ _ loss up demand lost upgrading =>
    rcases List.mem_append.mp sent with sent | sent
    · exact absurd sent upgrading.no_flushRep
    · obtain rfl := List.mem_singleton.mp sent
      cases lost with
      | flushRep _ owned =>
        refine ⟨⟨_, _, _, rfl, owned⟩, ?_⟩
        intro msg rest first other
        cases upgrading with
        | sent =>
          cases first
          exact absurd rfl (other _)
        | queued =>
          cases first
          simp
  | queued | filled | upgraded | holding => simp at sent

end Flushes

section Flushers

variable {protocol : Protocol} {promise : Promise} {sys : Sys n V} {dir after : Dir n V} {id cache : Fin n}
  {data : LineBuf V} {next : Dir n V → Except Fault (Dir n V)} {req : ShmemReq n V} {rest : List (CacheMsg V)}
  {cachedDataBuf : Option (LineBuf V)}

/-- The cache owns the line, or the first request is the upgrade of another one. -/
structure Flusher (dir : Dir n V) (id : Fin n) : Prop where
  present : dir.getEntry.sharers id = true
  passes : granting dir.queue.head? id = false
  owned : dir.getEntry.dstate = .exclusive ∨ dir.getEntry.dstate = .modified ∨
    dir.getEntry.dstate = .shared ∧ ∃ req, dir.queue.head? = some req ∧ req.msgType = .upgradeReq ∧
      req.waitForData = false ∧ id ≠ req.requester

theorem awaitFor_upgrade_cases {dstate : DState} (awaits : awaitFor dstate req id = some .upgrade) :
    req.msgType = .upgradeReq ∧ req.waitForData = false ∧ id ≠ req.requester := by
  have type := awaitFor_eq_upgrade awaits
  unfold awaitFor at awaits
  split at awaits
  case isTrue => cases awaits
  case isFalse unserved =>
    refine ⟨type, by simpa using unserved, ?_⟩
    rintro rfl
    cases dstate <;> simp [type] at awaits

theorem Stable.flusher (stable : Stable protocol promise sys dir) (sent : .flushRep data ∈ sys.up id) :
    Flusher dir id ∧
      ∀ msg rest, sys.up id = msg :: rest → (∀ msgType, msg ≠ .req msgType) → .flushRep data ∉ rest := by
  obtain ⟨⟨dstate, await, queued, role, owned⟩, first⟩ := Local.role_of_flushRep (stable.core.caches id) sent
  obtain ⟨present, passes, rfl, rfl, -⟩ := roleOf_eq_sharer role
  refine ⟨⟨present, passes, ?_⟩, first⟩
  rcases owned with owned | owned | ⟨shared, awaits⟩
  · exact .inl owned
  · exact .inr (.inl owned)
  · obtain ⟨req, head, awaits⟩ := Option.bind_eq_some_iff.mp awaits
    obtain ⟨type, unserved, other⟩ := awaitFor_upgrade_cases awaits
    exact .inr (.inr ⟨shared, req, head, type, unserved, other⟩)

theorem Flusher.sole (flusher : Flusher dir id) (ok : EntryOk protocol dir.getEntry)
    (owned : dir.getEntry.dstate = .exclusive ∨ dir.getEntry.dstate = .modified)
    (present : dir.getEntry.sharers cache = true) : cache = id := by
  obtain ⟨owner, _, only⟩ := ok.owner owned
  exact ((only cache).mp present).trans ((only id).mp flusher.present).symm

theorem Served.getEntry_of_owned (served : Served next dir req cachedDataBuf after)
    (owned : dir.getEntry.dstate = .exclusive ∨ dir.getEntry.dstate = .modified)
    (other : ¬ (req.msgType = .upgradeReq ∧ dir.getEntry.sharers req.requester = true)) :
    after.getEntry = dir.getEntry := by
  cases served with
  | asked msgs asked => exact asked.getEntry
  | forwards _ _ _ _ shared =>
    rw [shared] at owned
    rcases owned with owned | owned <;> cases owned
  | fetches byOwner => exact absurd (byOwner owned) other
  | replies _ _ byOwner => exact absurd (byOwner owned) other
  | drops _ uncached =>
    rw [uncached] at owned
    rcases owned with owned | owned <;> cases owned

theorem UpgradeInService.not_owned (service : UpgradeInService dir req)
    (owned : dir.getEntry.dstate = .exclusive ∨ dir.getEntry.dstate = .modified) : False := by
  rw [service.shared] at owned
  rcases owned with owned | owned <;> cases owned

theorem Flusher.owned_of_idle (flusher : Flusher dir id) (idle : dir.queue = []) :
    dir.getEntry.dstate = .exclusive ∨ dir.getEntry.dstate = .modified := by
  rcases flusher.owned with owned | owned | ⟨_, _, head, _⟩
  · exact .inl owned
  · exact .inr owned
  · rw [idle] at head
    cases head

end Flushers

/-! ### The directory's steps -/

section Directory

variable {protocol : Protocol} {sys : Sys n V} {dir : Dir n V} {cache : Fin n} {rest : List (CacheMsg V)}
  {req : ShmemReq n V} {others : List (ShmemReq n V)} {data : LineBuf V} {up : Fin n → List (CacheMsg V)}

theorem Stable.unflushed_of_asking {after : Sys n V} (stable : Stable protocol .none sys sys.dir)
    (asking : EndsAsking sys.dir after.dir) (up : ∀ id msg, msg ∈ after.up id → msg ∈ sys.up id)
    (gone : ∀ req id data, UpgradeInService after.dir req → id ≠ req.requester → after.dir.getEntry.sharers id = true →
      .flushRep data ∈ after.up id → ¬ Flusher sys.dir id) : Unflushed after := by
  intro req service
  obtain ⟨others, asked⟩ := asking req service
  refine ⟨?_, fun id other present => ?_⟩
  · by_contra none
    refine others (DirectoryEntry.getSharersList_eq_singleton.mpr fun id => ⟨fun present => ?_, fun same => ?_⟩)
    · by_contra other
      exact none ⟨id, other, present⟩
    · rw [same]
      exact service.sharer
  · obtain ⟨earlier, sent⟩ := asked id other present
    refine ⟨by simp [sent], fun data flushed => ?_⟩
    exact gone req id data service other present flushed (stable.flusher (up id _ flushed)).1

theorem mem_took {id : Fin n} {msg : CacheMsg V} {first : CacheMsg V} (sent : sys.up cache = first :: rest)
    (member : msg ∈ Function.update sys.up cache rest id) : msg ∈ sys.up id := by
  by_cases same : id = cache
  · subst same
    rw [Function.update_self] at member
    rw [sent]
    exact List.mem_cons_of_mem first member
  · rwa [Function.update_of_ne same] at member

theorem Unflushed.keep {after : Sys n V} (unflushed : Unflushed sys)
    (service : ∀ req, UpgradeInService after.dir req → UpgradeInService sys.dir req ∧
      ∃ id, id ≠ req.requester ∧ after.dir.getEntry.sharers id = true)
    (sharers : ∀ id, after.dir.getEntry.sharers id = true → sys.dir.getEntry.sharers id = true)
    (down : after.dir.down = sys.dir.down) (up : ∀ id msg, msg ∈ after.up id → msg ∈ sys.up id) : Unflushed after := by
  intro req inService
  obtain ⟨before, other⟩ := service req inService
  refine ⟨other, fun id other present => ?_⟩
  obtain ⟨unasked, silent⟩ := (unflushed req before).2 id other (sharers id present)
  rw [down]
  exact ⟨unasked, fun data flushed => silent data (up id _ flushed)⟩

theorem Stable.unflushed_req {msgType : ReqType} (stable : Stable protocol .none sys sys.dir) (unflushed : Unflushed sys)
    (sent : sys.up cache = .req msgType :: rest)
    (ran : handleReqFromL2Cache protocol sys.dir cache msgType = .ok dir) :
    Unflushed { sys with dir, up := Function.update sys.up cache rest } := by
  unfold handleReqFromL2Cache at ran
  cases queue : sys.dir.queue with
  | nil =>
    have front : (sys.dir.enqueue { msgType, requester := cache }).queue = [{ msgType, requester := cache }] := by
      simp [Dir.enqueue, queue]
    simp only [front, List.length_singleton, if_true] at ran
    have asking : EndsAsking (sys.dir.enqueue { msgType, requester := cache }) dir := processReq_endsAsking front ran
    refine stable.unflushed_of_asking asking (fun id msg => mem_took sent) ?_
    intro req id data service other present flushed flusher
    have owned := flusher.owned_of_idle queue
    have stays : dir.getEntry = sys.dir.getEntry := by
      refine (processReq_served front ran).getEntry_of_owned owned ?_
      rintro ⟨type, sharer⟩
      have here := stable.core.caches cache
      unfold LocalAt at here
      rw [sent] at here
      rcases here.pop_req with ⟨_, kind, _⟩ | ⟨await, role, _⟩
      · rcases kind with kind | kind <;> rw [kind] at type <;> cases type
      · obtain ⟨_, _, shared, _⟩ := roleOf_eq_sharer role
        rw [← shared] at owned
        rcases owned with owned | owned <;> cases owned
    exact service.not_owned (stays ▸ owned)
  | cons first others =>
    have long : (sys.dir.enqueue { msgType, requester := cache }).queue.length ≠ 1 := by
      simp [Dir.enqueue, queue]
    simp only [long, if_false] at ran
    cases ran
    refine unflushed.keep (fun req service => ?_) (fun _ => id) rfl fun id msg => mem_took sent
    have front := service.front
    simp only [Dir.enqueue, queue, List.cons_append, List.head?_cons] at front
    have before : UpgradeInService sys.dir req := ⟨by rw [queue]; exact front, service.type, service.shared, service.sharer⟩
    exact ⟨before, (unflushed req before).1⟩

theorem Stable.flusher_after {first : CacheMsg V} {id : Fin n} (stable : Stable protocol .none sys sys.dir)
    (sent : sys.up cache = first :: rest) (other : ∀ msgType, first ≠ .req msgType)
    (flushed : .flushRep data ∈ Function.update sys.up cache rest id) : id ≠ cache := by
  rintro rfl
  rw [Function.update_self] at flushed
  have before : .flushRep data ∈ sys.up id := by
    rw [sent]
    exact List.mem_cons_of_mem first flushed
  exact (stable.flusher before).2 first rest sent other flushed

theorem Flusher.absurd_of_upgrade {entry : DirectoryEntry n} {id : Fin n} (flusher : Flusher dir id)
    (ok : EntryOk protocol dir.getEntry) (present : dir.getEntry.sharers cache = true) (apart : id ≠ cache)
    (removes : Removes dir.getEntry entry cache) (queue : dir.queue = req :: others)
    (settled : req.msgType = .upgradeReq → ∀ id, entry.sharers id = true → id = req.requester) : False := by
  have sole (owned : dir.getEntry.dstate = .exclusive ∨ dir.getEntry.dstate = .modified) : False :=
    apart (flusher.sole ok owned present).symm
  rcases flusher.owned with owned | owned | ⟨_, first, head, type, _, other⟩
  · exact sole (.inl owned)
  · exact sole (.inr owned)
  · rw [queue, List.head?_cons] at head
    cases head
    refine other (settled type id ?_)
    rw [removes.present apart]
    exact flusher.present

theorem afterInvRep_cases {entry : DirectoryEntry n} {after : Dir n V} (queue : dir.queue = req :: others)
    (ran : dir.afterInvRep protocol cache entry = .ok after) :
    (after = dir.setEntry entry ∧
      (req.msgType = .upgradeReq → entry.sharers req.requester = true →
        ∃ id, id ≠ req.requester ∧ entry.sharers id = true)) ∨
    (processReq protocol (Dir.next protocol) (dir.setEntry entry) req none = .ok after ∧
      (req.msgType = .upgradeReq → ∀ id, entry.sharers id = true → id = req.requester)) := by
  rw [Dir.afterInvRep, queue] at ran
  cases type : req.msgType with
  | exReq | nullifyReq =>
    simp only [type] at ran
    split at ran
    case isTrue => exact .inr ⟨ran, by rintro ⟨⟩⟩
    case isFalse =>
      cases ran
      exact .inl ⟨rfl, by rintro ⟨⟩⟩
  | shReq =>
    simp only [type] at ran
    split at ran
    case isTrue =>
      cases ran
      exact .inl ⟨rfl, by rintro ⟨⟩⟩
    case isFalse =>
      split at ran
      case isTrue =>
        cases ran
        exact .inl ⟨rfl, by rintro ⟨⟩⟩
      case isFalse => exact .inr ⟨ran, by rintro ⟨⟩⟩
  | upgradeReq =>
    simp only [type] at ran
    by_cases one : entry.getNumSharers = 1
    · simp only [one, if_true] at ran
      cases held : entry.hasSharer req.requester with
      | true =>
        simp only [held, if_true] at ran
        exact .inr ⟨ran, fun _ id present => ((DirectoryEntry.getNumSharers_eq_one held).mp one id).mp present⟩
      | false =>
        simp only [held, Bool.false_eq_true, if_false] at ran
        cases ran
        refine .inl ⟨rfl, fun _ present => ?_⟩
        rw [show entry.sharers req.requester = false from held] at present
        cases present
    · simp only [one, if_false] at ran
      split at ran
      case isTrue none =>
        refine .inr ⟨ran, fun _ id present => ?_⟩
        rw [DirectoryEntry.getNumSharers_eq_zero.mp none id] at present
        cases present
      case isFalse =>
        cases ran
        refine .inl ⟨rfl, fun _ present => ?_⟩
        by_contra alone
        refine one ((DirectoryEntry.getNumSharers_eq_one present).mpr fun id => ⟨fun held => ?_, fun same => same ▸ present⟩)
        by_contra other
        exact alone ⟨id, other, held⟩

theorem Stable.unflushed_invRep (stable : Stable protocol .none sys sys.dir) (unflushed : Unflushed sys)
    (sent : sys.up cache = .invRep :: rest) (ran : processInvRepFromL2Cache protocol sys.dir cache = .ok dir) :
    Unflushed { sys with dir, up := Function.update sys.up cache rest } := by
  have here := stable.core.caches cache
  unfold LocalAt at here
  rw [sent] at here
  obtain ⟨dstate, await, queued, role, clean, -⟩ := here.pop_invRep
  obtain ⟨present, -, rfl, -⟩ := roleOf_eq_sharer role
  have removes := invRepEntry_removes sys.dir.getEntry cache
  rw [processInvRepFromL2Cache_eq present clean] at ran
  cases queue : sys.dir.queue with
  | nil =>
    rw [Dir.afterInvRep, queue] at ran
    cases ran
    intro req service
    have front := service.front
    rw [show (sys.dir.setEntry _).queue = [] from queue] at front
    cases front
  | cons first others =>
    rcases afterInvRep_cases queue ran with ⟨rfl, waits⟩ | ⟨ran, settled⟩
    · have sharers (id : Fin n) (held : (invRepEntry sys.dir.getEntry cache).sharers id = true) :
          sys.dir.getEntry.sharers id = true := by
        by_cases same : id = cache
        · rw [same]
          exact present
        · rwa [removes.present same] at held
      refine unflushed.keep (fun req service => ?_) sharers rfl fun id msg => mem_took sent
      have front := service.front
      rw [show (sys.dir.setEntry _).queue = first :: others from queue] at front
      cases front
      have held : (invRepEntry sys.dir.getEntry cache).sharers first.requester = true := service.sharer
      refine ⟨⟨by rw [queue]; rfl, service.type, ?_, sharers _ held⟩, waits service.type held⟩
      exact (removes.dstate_of_present held).symm.trans service.shared
    · have asking : EndsAsking (sys.dir.setEntry (invRepEntry sys.dir.getEntry cache)) dir :=
        processReq_endsAsking queue ran
      refine stable.unflushed_of_asking asking (fun id msg => mem_took sent) ?_
      intro req id data service other isSharer flushed flusher
      have apart := stable.flusher_after sent (by rintro _ ⟨⟩) flushed
      exact flusher.absurd_of_upgrade stable.core.entry present apart removes queue settled

theorem afterFlushRep_cases {entry : DirectoryEntry n} {after : Dir n V} (queue : dir.queue = req :: others)
    (ran : dir.afterFlushRep protocol data entry = .ok after) :
    (req.msgType = .upgradeReq ∧
      after = (dir.setEntry entry).setFront fun req => { req with dataBuf := some .indeterminate }) ∨
    (∃ started dataBuf, started.queue = req :: others ∧ started.down = dir.down ∧
      processReq protocol (Dir.next protocol) started req dataBuf = .ok after ∧
      (req.msgType = .upgradeReq → ∀ id, entry.sharers id = true → id = req.requester)) := by
  have written : ((dir.setEntry entry).sendDataToDram data).queue = req :: others := by
    rw [Dir.sendDataToDram_queue]
    exact queue
  rw [Dir.afterFlushRep, queue] at ran
  cases type : req.msgType with
  | exReq =>
    simp only [type] at ran
    exact .inr ⟨dir.setEntry entry, some data, queue, rfl, ran, by rintro ⟨⟩⟩
  | shReq | nullifyReq =>
    simp only [type] at ran
    exact .inr ⟨_, _, written, Dir.sendDataToDram_down data, ran, by rintro ⟨⟩⟩
  | upgradeReq =>
    simp only [type] at ran
    split at ran
    case isTrue none =>
      refine .inr ⟨dir.setEntry entry, some data, queue, rfl, ran, fun _ id present => ?_⟩
      rw [DirectoryEntry.getNumSharers_eq_zero.mp none id] at present
      cases present
    case isFalse =>
      cases ran
      exact .inl ⟨rfl, rfl⟩

theorem Stable.unflushed_flushRep (stable : Stable protocol .none sys sys.dir) (unflushed : Unflushed sys)
    (sent : sys.up cache = .flushRep data :: rest)
    (ran : processFlushRepFromL2Cache protocol sys.dir cache data = .ok dir) :
    Unflushed { sys with dir, up := Function.update sys.up cache rest } := by
  have here := stable.core.caches cache
  unfold LocalAt at here
  rw [sent] at here
  obtain ⟨dstate, await, queued, role, kind, -⟩ := here.pop_flushRep
  obtain ⟨present, -, rfl, -⟩ := roleOf_eq_sharer role
  have removes := flushRepEntry_removes sys.dir.getEntry cache
  have zero := removes.getNumSharers_eq_zero stable.core.entry present
  have uncached := removes.uncached stable.core.entry present
  have shared (cached : (flushRepEntry sys.dir.getEntry cache).getNumSharers ≠ 0) : sys.dir.getEntry.dstate = .shared := by
    rcases kind with kind | kind | ⟨kind, _⟩
    · exact absurd (zero.mpr (uncached (.inl kind))) cached
    · exact absurd (zero.mpr (uncached (.inr kind))) cached
    · exact kind
  rw [processFlushRepFromL2Cache_eq present shared] at ran
  cases queue : sys.dir.queue with
  | nil =>
    rw [Dir.afterFlushRep, queue] at ran
    cases ran
    intro req service
    have front := service.front
    rw [show ((sys.dir.setEntry _).sendDataToDram data).queue = [] from (Dir.sendDataToDram_queue data).trans queue] at front
    cases front
  | cons first others =>
    rcases afterFlushRep_cases queue ran with ⟨type, rfl⟩ | ⟨started, dataBuf, front, down, ran, settled⟩
    · -- Before, no sharer but the requester can have flushed, and the requester is none afterwards.
      intro req service
      have front := service.front
      simp only [Dir.setFront, Dir.setEntry, queue, List.modifyHead_cons, List.head?_cons, Option.some.injEq] at front
      subst front
      have held : (flushRepEntry sys.dir.getEntry cache).sharers first.requester = true := service.sharer
      have apart : first.requester ≠ cache := by
        rintro same
        rw [same, removes.absent] at held
        cases held
      have before : UpgradeInService sys.dir first := by
        refine ⟨by rw [queue]; rfl, type, (removes.dstate_of_present held).symm.trans service.shared, ?_⟩
        rwa [← removes.present apart]
      refine absurd ?_ (((unflushed first before).2 cache (Ne.symm apart) present).2 data)
      rw [sent]
      exact List.mem_cons_self
    · have asking : EndsAsking sys.dir dir :=
        (processReq_endsAsking front ran).earlier fun id => ⟨[], by rw [down, List.append_nil]⟩
      refine stable.unflushed_of_asking asking (fun id msg => mem_took sent) ?_
      intro req id data service other isSharer flushed flusher
      have apart := stable.flusher_after sent (by rintro _ ⟨⟩) flushed
      exact flusher.absurd_of_upgrade stable.core.entry present apart removes queue settled

theorem Stable.unflushed_wbRep (stable : Stable protocol .none sys sys.dir)
    (sent : sys.up cache = .wbRep data :: rest)
    (ran : processWbRepFromL2Cache protocol sys.dir cache data = .ok dir) :
    Unflushed { sys with dir, up := Function.update sys.up cache rest } := by
  have here := stable.core.caches cache
  unfold LocalAt at here
  rw [sent] at here
  obtain ⟨dstate, queued, role, -⟩ := here.pop_wbRep
  obtain ⟨present, -⟩ := roleOf_eq_sharer role
  unfold processWbRepFromL2Cache at ran
  simp only [Dir.entry_of_sharer present] at ran
  obtain ⟨_, _, ran⟩ := bind_ok ran
  cases queue : sys.dir.queue with
  | nil =>
    simp only [Dir.setEntry, queue] at ran
    cases ran
  | cons first others =>
    simp only [Dir.setEntry, queue] at ran
    obtain ⟨_, isShReq, ran⟩ := bind_ok ran
    have asking : EndsAsking sys.dir dir := (processReq_endsAsking rfl ran).earlier fun id => ⟨[], by rw [List.append_nil]⟩
    refine stable.unflushed_of_asking asking (fun id msg => mem_took sent) ?_
    intro req id data service other isSharer flushed flusher
    have apart := stable.flusher_after sent (by rintro _ ⟨⟩) flushed
    rcases flusher.owned with owned | owned | ⟨_, head, isHead, type, _⟩
    · exact apart (flusher.sole stable.core.entry (.inl owned) present).symm
    · exact apart (flusher.sole stable.core.entry (.inr owned) present).symm
    · rw [queue, List.head?_cons] at isHead
      cases isHead
      rw [assertThat_ok isShReq] at type
      cases type

theorem Stable.unflushed_dramReply {replies : List (LineBuf V)} (stable : Stable protocol .none sys sys.dir)
    (sent : sys.fromDram = data :: replies) (ran : processDRAMReply protocol sys.dir data = .ok dir) :
    Unflushed { sys with dir, fromDram := replies } := by
  have waiting : waits sys.dir.queue.head? = true := by
    have reads := stable.core.reads
    rw [sent, List.length_cons] at reads
    cases held : waits sys.dir.queue.head? with
    | true => rfl
    | false =>
      rw [held, Bool.toNat_false] at reads
      omega
  unfold processDRAMReply at ran
  cases queue : sys.dir.queue with
  | nil => simp [queue] at ran
  | cons first others =>
    rw [queue, List.head?_cons, waits, Option.any_some] at waiting
    have gone (id : Fin n) (flusher : Flusher sys.dir id) : False := by
      have head := stable.head first (by rw [queue]; rfl)
      obtain ⟨request, granted⟩ := head.granting (.inl waiting)
      have passes := flusher.passes
      have sole (owned : sys.dir.getEntry.dstate = .exclusive ∨ sys.dir.getEntry.dstate = .modified) : False := by
        have same := flusher.sole stable.core.entry owned granted
        rw [queue, List.head?_cons, granting, Option.any_some] at passes
        exact of_decide_eq_false passes ⟨request, same, .inl waiting⟩
      rcases flusher.owned with owned | owned | ⟨_, req, isHead, _, unserved, _⟩
      · exact sole (.inl owned)
      · exact sole (.inr owned)
      · rw [queue, List.head?_cons] at isHead
        cases isHead
        rw [waiting] at unserved
        cases unserved
    have finish {reply : DirMsg V}
        (ran : Dir.next protocol ((sys.dir.reply first.requester reply).sendDataToNUCA data) = .ok dir) :
        Unflushed { sys with dir, fromDram := replies } := by
      have down : ((sys.dir.reply first.requester reply).sendDataToNUCA data).down =
          (sys.dir.sendMsg first.requester reply).down := by
        unfold Dir.sendDataToNUCA
        split <;> rfl
      have asking : EndsAsking sys.dir dir := (next_endsAsking _ _ ran).earlier (.sendMsg down)
      exact stable.unflushed_of_asking asking (fun _ _ => id) fun _ id _ _ _ _ _ => gone id
    cases stored : sys.dir.entry with
    | none => simp [queue, stored] at ran
    | some entry =>
      simp only [queue, stored] at ran
      cases type : first.msgType with
      | shReq | exReq =>
        simp only [type] at ran
        obtain ⟨_, _, ran⟩ := bind_ok ran
        exact finish ran
      | upgradeReq =>
        simp only [type] at ran
        exact finish ran
      | nullifyReq =>
        simp only [type] at ran
        cases ran

theorem Stable.unflushed_nullify {requester : Fin n} (stable : Stable protocol .none sys sys.dir)
    (idle : sys.dir.queue = []) (ran : nullifyEntry protocol sys.dir requester = .ok dir) :
    Unflushed { sys with dir } := by
  have front : (sys.dir.enqueue { msgType := .nullifyReq, requester }).queue = [{ msgType := .nullifyReq, requester }] := by
    simp [Dir.enqueue, idle]
  unfold nullifyEntry at ran
  have asking : EndsAsking (sys.dir.enqueue { msgType := .nullifyReq, requester }) dir := processReq_endsAsking front ran
  refine stable.unflushed_of_asking asking (fun _ _ => id) ?_
  intro req id data service other present flushed flusher
  have owned := flusher.owned_of_idle idle
  have stays : dir.getEntry = sys.dir.getEntry := by
    refine (processReq_served front ran).getEntry_of_owned owned ?_
    rintro ⟨⟨⟩, _⟩
  exact service.not_owned (stays ▸ owned)

end Directory

/-! ### The caches' steps -/

section Caches

variable {good : LineBuf V → Prop} {durable : Prop} {sys after : Sys n V} {cache : Fin n} {protocol : Protocol}
  {hasNuca : Bool} {label : Label n V}

theorem access_sends {op : MemOp V} (ran : sys.processShmemReqFromPrevCache cache op = .ok after) :
    ∃ msgs, Sends sys after cache msgs ∧ ∀ data, .flushRep data ∉ msgs := by
  unfold Sys.processShmemReqFromPrevCache at ran
  simp only at ran
  split at ran
  case isTrue =>
    cases ran
    exact ⟨[], .none rfl rfl rfl, by simp⟩
  case isFalse =>
    split at ran
    case isTrue =>
      cases ran
      exact ⟨[], .none rfl rfl rfl, by simp⟩
    case isFalse =>
      unfold Sys.initiateDirectoryAccess at ran
      simp only at ran
      split at ran
      case isFalse =>
        cases ran
        exact ⟨[], .none rfl rfl rfl, by simp⟩
      case isTrue =>
        split at ran
        case isFalse =>
          cases ran
          exact ⟨[.req .shReq], ⟨rfl, rfl, rfl⟩, by simp⟩
        case isTrue =>
          split at ran
          case isTrue =>
            cases ran
            exact ⟨[.req .upgradeReq], ⟨rfl, rfl, rfl⟩, by simp⟩
          case isFalse =>
            obtain ⟨_, _, ran⟩ := bind_ok ran
            cases ran
            exact ⟨[.req .exReq], ⟨rfl, rfl, rfl⟩, by simp⟩

theorem evict_sends (ran : sys.evict cache = .ok after) :
    ∃ msgs, Sends sys after cache msgs ∧ ∀ data, .flushRep data ∈ msgs → (sys.llc cache).cstate = .modified := by
  unfold Sys.evict at ran
  cases state : (sys.llc cache).cstate with
  | modified =>
    simp only [state] at ran
    cases ran
    exact ⟨[.flushRep (sys.llc cache).data], ⟨rfl, rfl, rfl⟩, fun _ _ => rfl⟩
  | shared | exclusive =>
    simp only [state] at ran
    cases ran
    exact ⟨[.invRep], ⟨rfl, rfl, rfl⟩, by simp⟩
  | invalid | sharedUpgrading | owned =>
    simp only [state] at ran
    cases ran

theorem Local.last_of_flushReq {await : Option Await} {queued : Option ReqType} {llc : Llc V} {up : List (CacheMsg V)}
    {rest : List (DirMsg V)} (here : Local good durable (.sharer .shared await queued) llc up (.flushReq :: rest))
    (valid : llc.cstate ≠ .invalid) : rest = [] := by
  have alone {msgs : List (DirMsg V)} (out : Outstanding await msgs) (first : msgs = .flushReq :: rest) : rest = [] := by
    cases await with
    | none =>
      rw [out] at first
      cases first
    | some await =>
      obtain ⟨msg, one, _⟩ := out
      rw [one] at first
      exact (List.cons.inj first).2.symm
  generalize sent : DirMsg.flushReq :: rest = down at here
  cases here with
  | holding _ _ out => exact alone out sent.symm
  | upgrading _ _ _ out => exact alone out sent.symm
  | filled | lost => exact absurd rfl valid
  | wroteBack | wroteBackUpgrading | upgradingWroteBack | wroteBackLost | upgradingLost => cases sent

theorem Stable.sharer_of_upgrade {req : ShmemReq n V} {id : Fin n} (stable : Stable protocol .none sys sys.dir)
    (service : UpgradeInService sys.dir req) (other : id ≠ req.requester) (present : sys.dir.getEntry.sharers id = true) :
    ∃ await queued, LocalAt .none sys sys.dir (.sharer .shared await queued) id := by
  have here := stable.core.caches id
  have passes : granting sys.dir.queue.head? id = false := by
    rw [service.front, granting, Option.any_some, decide_eq_false_iff_not]
    rintro ⟨_, same, _⟩
    exact other same.symm
  rw [roleOf_sharer present passes, service.shared] at here
  exact ⟨_, _, here⟩

/-- A step of a cache leaves the entry alone, and what it pops and sends keeps the upgrade's sharers unflushed. -/
theorem Unflushed.of_sends {middle : Sys n V} {msgs : List (CacheMsg V)} (unflushed : Unflushed sys)
    (sends : Sends middle after cache msgs) (queue : middle.dir.queue = sys.dir.queue)
    (entry : middle.dir.getEntry = sys.dir.getEntry) (up : middle.up = sys.up)
    (down : ∀ id, (middle.dir.down id).getLast? = some .flushReq → (sys.dir.down id).getLast? = some .flushReq)
    (silent : ∀ req data, UpgradeInService sys.dir req → cache ≠ req.requester → sys.dir.getEntry.sharers cache = true →
      .flushRep data ∉ msgs) : Unflushed after := by
  rintro req ⟨front, type, shared, sharer⟩
  rw [sends.dir, queue] at front
  rw [sends.dir, entry] at shared sharer ⊢
  have before : UpgradeInService sys.dir req := ⟨front, type, shared, sharer⟩
  refine ⟨(unflushed req before).1, fun id other present => ?_⟩
  obtain ⟨unasked, none⟩ := (unflushed req before).2 id other present
  refine ⟨fun asked => unasked (down id asked), fun data flushed => ?_⟩
  rw [sends.up, up] at flushed
  by_cases same : id = cache
  · subst same
    rw [Function.update_self] at flushed
    rcases List.mem_append.mp flushed with flushed | flushed
    · exact none data flushed
    · exact silent req data before other present flushed
  · rw [Function.update_of_ne same] at flushed
    exact none data flushed

theorem Stable.unflushed_evict (stable : Stable protocol .none sys sys.dir) (unflushed : Unflushed sys)
    (ran : sys.evict cache = .ok after) : Unflushed after := by
  obtain ⟨msgs, sends, modified⟩ := evict_sends ran
  refine unflushed.of_sends sends rfl rfl rfl (fun _ => id) fun req data service other present flushed => ?_
  obtain ⟨await, queued, here⟩ := stable.sharer_of_upgrade service other present
  have owned := Local.owned_of_exclusive here (.inr (modified data flushed))
  rcases owned with owned | owned <;> cases owned

theorem Stable.unflushed_toCache {msg : DirMsg V} {rest : List (DirMsg V)} (stable : Stable protocol .none sys sys.dir)
    (unflushed : Unflushed sys) (sent : sys.dir.down cache = msg :: rest)
    (ran : Sys.handleMsgFromDramDirectory
      { sys with dir := { sys.dir with down := Function.update sys.dir.down cache rest } } cache msg = .ok after) :
    Unflushed after := by
  obtain ⟨msgs, sends, _, asked⟩ := deliver_sends ran
  refine unflushed.of_sends sends rfl rfl rfl (fun id last => ?_) fun req data service other present flushed => ?_
  · change (Function.update sys.dir.down cache rest id).getLast? = _ at last
    by_cases same : id = cache
    · subst same
      rw [Function.update_self] at last
      rw [sent, List.getLast?_cons, last]
      rfl
    · rwa [Function.update_of_ne same] at last
  · obtain ⟨rfl, valid⟩ := asked data flushed
    obtain ⟨await, queued, here⟩ := stable.sharer_of_upgrade service other present
    unfold LocalAt at here
    rw [sent] at here
    obtain rfl := here.last_of_flushReq valid
    exact ((unflushed req service).2 cache other present).1 (by rw [sent]; rfl)

theorem Stable.unflushed_step (stable : Stable protocol .none sys sys.dir) (unflushed : Unflushed sys)
    (stepped : sys.step protocol label = .ok after) : Unflushed after := by
  have same {other : Sys n V} (queue : other.dir.queue = sys.dir.queue) (entry : other.dir.getEntry = sys.dir.getEntry)
      (down : other.dir.down = sys.dir.down) (up : other.up = sys.up) : Unflushed other := by
    refine unflushed.keep (fun req service => ?_) (by rw [entry]; exact fun _ => id) down (by rw [up]; exact fun _ _ => id)
    have before : UpgradeInService sys.dir req :=
      ⟨queue ▸ service.front, service.type, entry ▸ service.shared, entry ▸ service.sharer⟩
    refine ⟨before, ?_⟩
    rw [entry]
    exact (unflushed req before).1
  cases label with
  | access cache op =>
    obtain ⟨msgs, sends, silent⟩ := access_sends (liftFault_ok stepped)
    exact unflushed.of_sends sends rfl rfl rfl (fun _ => id) fun _ data _ _ _ => silent data
  | evict cache => exact stable.unflushed_evict unflushed stepped
  | toDirectory cache =>
    cases sent : sys.up cache with
    | nil => simp [Sys.step, sent] at stepped
    | cons msg rest =>
      simp only [Sys.step, sent] at stepped
      obtain ⟨dir, ran, rfl⟩ := withDir_ok stepped
      cases msg with
      | req msgType => exact stable.unflushed_req unflushed sent ran
      | invRep => exact stable.unflushed_invRep unflushed sent ran
      | flushRep data => exact stable.unflushed_flushRep unflushed sent ran
      | wbRep data => exact stable.unflushed_wbRep sent ran
  | toCache cache =>
    cases sent : sys.dir.down cache with
    | nil => simp [Sys.step, sent] at stepped
    | cons msg rest =>
      simp only [Sys.step, sent] at stepped
      exact stable.unflushed_toCache unflushed sent (liftFault_ok stepped)
  | dramServe =>
    cases sent : sys.dir.toDram with
    | nil => simp [Sys.step, sent] at stepped
    | cons msg rest =>
      cases msg <;> simp only [Sys.step, sent, Except.ok.injEq] at stepped <;> subst stepped <;> exact same rfl rfl rfl rfl
  | fromDram =>
    cases sent : sys.fromDram with
    | nil => simp [Sys.step, sent] at stepped
    | cons data rest =>
      simp only [Sys.step, sent] at stepped
      obtain ⟨dir, ran, rfl⟩ := withDir_ok stepped
      exact stable.unflushed_dramReply sent ran
  | allocate =>
    simp only [Sys.step] at stepped
    split at stepped
    case isTrue free =>
      cases stepped
      refine same rfl ?_ rfl rfl
      rw [Dir.getEntry, Dir.getEntry, Option.isNone_iff_eq_none.mp free]
      rfl
    case isFalse => cases stepped
  | nullify requester =>
    simp only [Sys.step] at stepped
    split at stepped
    case isTrue idle =>
      obtain ⟨dir, ran, rfl⟩ := withDir_ok stepped
      exact stable.unflushed_nullify idle.1 ran
    case isFalse => cases stepped
  | nucaEvict dirty =>
    cases held : sys.dir.nuca with
    | none => simp [Sys.step, held] at stepped
    | some data =>
      simp only [Sys.step, held, Except.ok.injEq] at stepped
      subst stepped
      exact same rfl rfl rfl rfl

theorem unflushed_reachable (reached : (machine n V protocol hasNuca).Reachable sys) : Unflushed sys := by
  have both := reached.invariant (fun sys => Stable protocol .none sys sys.dir ∧ Unflushed sys) ?_ ?_
  · exact both.2
  · rintro _ ⟨value, rfl⟩
    refine ⟨.initial False.elim, ?_⟩
    rintro req ⟨front, _⟩
    cases front
  · rintro sys label after ⟨stable, unflushed⟩ _ stepped
    refine ⟨?_, stable.unflushed_step unflushed stepped⟩
    rcases stable.step label ⟨False.elim, False.elim, False.elim, False.elim⟩ with ⟨next, ran, moved⟩ | disabled
    · cases Except.ok.inj (ran.symm.trans stepped)
      exact moved
    · cases disabled.symm.trans stepped

end Caches

/-! ### At rest -/

section Rest

variable {good : LineBuf V → Prop} {durable : Prop} {sys after : Sys n V} {protocol : Protocol} {hasNuca : Bool}

/-- No message is under way. -/
structure Sys.Silent (sys : Sys n V) : Prop where
  down : ∀ cache, sys.dir.down cache = []
  up : ∀ cache, sys.up cache = []
  toDram : sys.dir.toDram = []
  fromDram : sys.fromDram = []

theorem Local.not_silent {dstate : DState} {await : Await} {queued : Option ReqType} {llc : Llc V} :
    ¬ Local good durable (.sharer dstate (some await) queued) llc [] [] := by
  have asks {msgs : List (DirMsg V)} (out : Outstanding (some await) msgs) : msgs ≠ [] := by
    obtain ⟨msg, one, _⟩ := out
    rw [one]
    exact List.cons_ne_nil msg []
  intro here
  generalize sent : ([] : List (CacheMsg V)) = up at here
  generalize received : ([] : List (DirMsg V)) = down at here
  cases here with
  | holding _ _ out => exact asks out received.symm
  | upgrading _ _ _ out => exact asks out received.symm
  | filled => simp at received
  | upgraded => cases received
  | upgradingWroteBack | upgradingLost => simp at sent
  | wroteBack | wroteBackUpgrading | lost | wroteBackLost => cases sent

theorem Local.waiters_of_silent {role : Role} {llc : Llc V} (here : Local good durable role llc [] [])
    (idle : role = .absent none ∨ ∃ dstate, role = .sharer dstate none none) : llc.waiters = [] := by
  generalize sent : ([] : List (CacheMsg V)) = up at here
  generalize received : ([] : List (DirMsg V)) = down at here
  cases here with
  | absent requesting =>
    cases requesting with
    | idle => rfl
    | asked => cases sent
  | holding => rfl
  | queued => rcases idle with idle | ⟨_, idle⟩ <;> cases idle
  | upgrading _ _ upgrading =>
    rcases idle with idle | ⟨_, idle⟩
    · cases idle
    · cases idle
      cases upgrading
      cases sent
  | filled => simp at received
  | upgraded => cases received
  | upgradingWroteBack | upgradingLost => simp at sent
  | wroteBack | wroteBackUpgrading | lost | wroteBackLost => cases sent

/-- The first request waits for a sharer, if it does not wait for DRAM. -/
theorem Stable.awaits {req : ShmemReq n V} (stable : Stable protocol .none sys sys.dir) (unflushed : Unflushed sys)
    (front : sys.dir.queue.head? = some req) (unserved : req.waitForData = false) :
    ∃ id, sys.dir.getEntry.sharers id = true ∧ granting (some req) id = false ∧
      ∃ await, awaitFor sys.dir.getEntry.dstate req id = some await := by
  have head := stable.head req front
  have ok := stable.core.entry
  have some : ∃ id, sys.dir.getEntry.sharers id = true := by
    by_contra none
    refine head.cached (ok.uncached.mpr fun id => ?_)
    cases held : sys.dir.getEntry.sharers id with
    | false => rfl
    | true => exact absurd ⟨id, held⟩ none
  obtain ⟨id, present⟩ := some
  have passes {other : Fin n} (apart : req.forwardingFrom ≠ none → other ≠ req.requester) :
      granting (Option.some req) other = false := by
    rw [granting, Option.any_some, decide_eq_false_iff_not, unserved]
    rintro ⟨_, same, granted | granted⟩
    · cases granted
    · exact apart granted same.symm
  have unforwarded (other : req.msgType ≠ .shReq ∨ sys.dir.getEntry.dstate ≠ .shared) : req.forwardingFrom = none := by
    cases forwarding : req.forwardingFrom with
    | none => rfl
    | some forwarder =>
      obtain ⟨type, shared, _⟩ := head.forwarding forwarder forwarding
      rcases other with other | other
      · exact absurd type other
      · exact absurd shared other
  unfold awaitFor
  simp only [unserved, Bool.false_eq_true, if_false]
  cases dstate : sys.dir.getEntry.dstate with
  | uncached => exact absurd dstate head.cached
  | owned => exact absurd dstate ok.notOwned
  | exclusive | modified =>
    refine ⟨id, present, passes (absurd (unforwarded (.inr (by rw [dstate]; rintro ⟨⟩)))), ?_⟩
    cases req.msgType <;> exact ⟨_, rfl⟩
  | shared =>
    cases type : req.msgType with
    | exReq | nullifyReq =>
      exact ⟨id, present, passes (absurd (unforwarded (.inl (by rw [type]; rintro ⟨⟩)))), _, rfl⟩
    | shReq =>
      cases forwarding : req.forwardingFrom with
      | none => exact absurd dstate (head.shared type unserved forwarding)
      | some forwarder =>
        obtain ⟨_, _, other, held⟩ := head.forwarding forwarder forwarding
        exact ⟨forwarder, held unserved, passes fun _ => other, .wb, if_pos rfl⟩
    | upgradeReq =>
      have single := unforwarded (.inl (by rw [type]; rintro ⟨⟩))
      have apart : ∃ other, other ≠ req.requester ∧ sys.dir.getEntry.sharers other = true := by
        cases held : sys.dir.getEntry.sharers req.requester with
        | true => exact (unflushed req ⟨front, type, dstate, held⟩).1
        | false =>
          refine ⟨id, ?_, present⟩
          rintro rfl
          rw [present] at held
          cases held
      obtain ⟨other, apart, held⟩ := apart
      exact ⟨other, held, passes (absurd single), .upgrade, if_neg (Ne.symm apart)⟩

/-- With no message under way nothing is queued and nobody waits. -/
theorem Stable.answered (stable : Stable protocol .none sys sys.dir) (unflushed : Unflushed sys) (silent : sys.Silent) :
    sys.Quiet ∧ ∀ cache, (sys.llc cache).waiters = [] := by
  have here (id : Fin n) : Local (Good Promise.none.clean sys.last) (Durable .none sys sys.dir.toDram)
      (roleOf sys.dir.getEntry sys.dir.queue.head? sys.dir.queue id) (sys.llc id) [] [] := by
    have caches := stable.core.caches id
    unfold LocalAt at caches
    rwa [silent.up, silent.down] at caches
  have empty : sys.dir.queue = [] := by
    cases queue : sys.dir.queue with
    | nil => rfl
    | cons req others =>
      have front : sys.dir.queue.head? = some req := by rw [queue]; rfl
      have unserved : req.waitForData = false := by
        have reads := stable.core.reads
        rw [silent.toDram, silent.fromDram, front, waits, Option.any_some] at reads
        cases waiting : req.waitForData with
        | false => rfl
        | true =>
          rw [waiting] at reads
          cases reads
      obtain ⟨id, present, passes, await, awaits⟩ := stable.awaits unflushed front unserved
      have sharer := here id
      rw [front, roleOf_sharer present passes, awaitOf, Option.bind_some, awaits] at sharer
      exact absurd sharer Local.not_silent
  refine ⟨⟨empty, silent.down, silent.up, silent.toDram, silent.fromDram⟩, fun cache => (here cache).waiters_of_silent ?_⟩
  rw [empty]
  cases held : sys.dir.getEntry.sharers cache with
  | false => exact .inl (roleOf_absent held)
  | true => exact .inr ⟨_, roleOf_settled held⟩

/-- Every message that is on its way can be handled. -/
theorem Stable.silent_of_stuck (stable : Stable protocol .none sys sys.dir)
    (stuck : ∀ label : Label n V, label.Delivers → sys.step protocol label = .error .disabled) : sys.Silent := by
  have allowed (label : Label n V) : Allowed .none sys label := ⟨False.elim, False.elim, False.elim, False.elim⟩
  refine ⟨fun cache => ?_, fun cache => ?_, ?_, ?_⟩
  · cases sent : sys.dir.down cache with
    | nil => rfl
    | cons msg rest =>
      obtain ⟨after, ran, _⟩ := stable.toCache (allowed _) sent
      have blocked := stuck (.toCache cache) trivial
      simp only [Sys.step, sent, ran, liftFault] at blocked
      cases blocked
  · cases sent : sys.up cache with
    | nil => rfl
    | cons msg rest =>
      obtain ⟨dir, ran, _⟩ := stable.toDirectory (allowed _) sent
      have blocked := stuck (.toDirectory cache) trivial
      simp only [Sys.step, sent, ran, Sys.withDir] at blocked
      cases blocked
  · cases sent : sys.dir.toDram with
    | nil => rfl
    | cons msg rest =>
      have blocked := stuck .dramServe trivial
      cases msg <;> simp only [Sys.step, sent] at blocked <;> cases blocked
  · cases sent : sys.fromDram with
    | nil => rfl
    | cons data rest =>
      obtain ⟨dir, ran, _⟩ := stable.handle_dramReply sent
      have blocked := stuck .fromDram trivial
      simp only [Sys.step, sent, ran, Sys.withDir] at blocked
      cases blocked

/-- From every reachable state the messages under way are handled in a bounded number of
steps, in whatever order, and when none is left every request has been answered. -/
theorem every_request_is_answered (n : Nat) (V : Type) (protocol : Protocol) (hasNuca : Bool) (sys : Sys n V)
    (reached : (machine n V protocol hasNuca).Reachable sys) (labels : List (Label n V)) (after : Sys n V)
    (delivers : ∀ label ∈ labels, label.Delivers) (ran : (machine n V protocol hasNuca).run sys labels = .ok after) :
    labels.length ≤ sys.work ∧
      ((∀ label : Label n V, label.Delivers → (machine n V protocol hasNuca).step after label = .error .disabled) →
        after.Quiet ∧ ∀ cache, (after.llc cache).waiters = []) := by
  refine ⟨Nat.le_trans (Nat.le_add_right _ _) (deliveries_le_work reached delivers ran), fun stuck => ?_⟩
  have reached' := reached.run ran
  have stable := Stable.reachable reached'
  exact stable.answered (unflushed_reachable reached') (stable.silent_of_stuck stuck)

/-- Two readers of a line, and then the write of one of them: its upgrade invalidates the other copy. -/
theorem every_request_is_answered_upgrade : ∃ sys after : Sys 2 Nat,
    (machine 2 Nat .msi false).Reachable sys ∧ (sys.llc 0).waiters ≠ [] ∧ sys.dir.queue ≠ [] ∧
      (machine 2 Nat .msi false).run sys [.toCache 1, .toDirectory 1, .toCache 0] = .ok after ∧
      3 ≤ sys.work ∧ after.Quiet ∧ ∀ cache, (after.llc cache).waiters = [] := by
  have reached : ∃ sys, (machine 2 Nat .msi false).run (.initial false 0)
      [.access 0 .read, .toDirectory 0, .dramServe, .fromDram, .toCache 0, .access 1 .read, .toDirectory 1, .dramServe,
        .fromDram, .toCache 1, .access 0 (.write fun _ => 1), .toDirectory 0] = .ok sys ∧
      (sys.llc 0).waiters ≠ [] ∧ sys.dir.queue ≠ [] ∧
      ∃ after, (machine 2 Nat .msi false).run sys [.toCache 1, .toDirectory 1, .toCache 0] = .ok after ∧
        after.Quiet :=
    ⟨_, rfl, List.cons_ne_nil _ _, List.cons_ne_nil _ _, _, rfl,
      ⟨rfl, Fin.forall_fin_two.mpr ⟨rfl, rfl⟩, Fin.forall_fin_two.mpr ⟨rfl, rfl⟩, rfl, rfl⟩⟩
  obtain ⟨sys, ran, waiting, queued, after, delivered, quiet⟩ := reached
  have reached : (machine 2 Nat .msi false).Reachable sys := .run (.initial ⟨0, rfl⟩) ran
  have delivers : ∀ label ∈ [Label.toCache 1, .toDirectory 1, .toCache 0], (label : Label 2 Nat).Delivers := by
    simp [Label.Delivers]
  obtain ⟨bounded, rest⟩ := every_request_is_answered 2 Nat .msi false sys reached _ after delivers delivered
  refine ⟨sys, after, reached, waiting, queued, delivered, bounded, rest fun label delivery => ?_⟩
  cases label with
  | toDirectory cache => simp [machine, Sys.step, quiet.up]
  | toCache cache => simp [machine, Sys.step, quiet.down]
  | dramServe => simp [machine, Sys.step, quiet.toDram]
  | fromDram => simp [machine, Sys.step, quiet.fromDram]
  | access | evict | allocate | nullify | nucaEvict => exact delivery.elim

end Rest

end Sniper.Directory

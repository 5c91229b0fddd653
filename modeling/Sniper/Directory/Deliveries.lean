import Mathlib
import Sniper.Directory.Coherence

/-! Handling the messages on their way comes to an end.

`Served` lists what serving the first request can do, whatever the state.  `Sys.work`
weighs the messages and the requests so that each handled message takes something off:
a request outweighs the messages its service sends, and the reply to a read outweighs
the upgrade that a waiting write may ask for afterwards. -/

namespace Sniper.Directory

variable {n : Nat} {V : Type}

/-- The steps in which a party handles a message that is on its way. -/
def Label.Delivers : Label n V → Prop
  | .toDirectory _ | .toCache _ | .dramServe | .fromDram => True
  | .access .. | .evict _ | .allocate | .nullify _ | .nucaEvict _ => False

/-! ### What serving a request does -/

/-- The replies that a request of the given type can get. -/
def DirMsg.Answers (msgType : ReqType) : DirMsg V → Prop
  | .exRep _ | .upgradeRep => True
  | .shRep _ => msgType = .shReq
  | .invReq | .flushReq | .wbReq => False

section Served

variable (next : Dir n V → Except Fault (Dir n V)) (dir : Dir n V) (req : ShmemReq n V)
  (cachedDataBuf : Option (LineBuf V)) (after : Dir n V)

structure Asked (msgs : Fin n → List (DirMsg V)) : Prop where
  getEntry : after.getEntry = dir.getEntry
  queue : after.queue = dir.queue
  toDram : after.toDram = dir.toDram
  down : ∀ id, after.down id = dir.down id ++ msgs id
  each : ∀ id, msgs id = [] ∨ ∃ msg, msgs id = [msg] ∧ msg.isRequest = true
  cached : dir.getEntry.dstate ≠ .uncached
  unshared : req.msgType = .shReq → dir.getEntry.dstate ≠ .shared
  given : req.msgType = .exReq ∨ req.msgType = .shReq → cachedDataBuf = none
  upgrade : req.msgType = .upgradeReq → dir.getEntry.dstate = .shared →
    dir.getEntry.getSharersList ≠ [req.requester] ∧
      (dir.getEntry.sharers req.requester = true → ∀ id, id ≠ req.requester → dir.getEntry.sharers id = true →
        msgs id = [.invReq])

/-- A request for an owned line is answered at once only to its owner. -/
def ServedByOwner : Prop :=
  dir.getEntry.dstate = .exclusive ∨ dir.getEntry.dstate = .modified →
    req.msgType = .upgradeReq ∧ dir.getEntry.sharers req.requester = true

inductive Served : Prop where
  | asked (msgs : Fin n → List (DirMsg V)) : Asked dir req cachedDataBuf after msgs → Served
  | forwards (forwarder : Fin n) : cachedDataBuf = none → req.msgType = .shReq → req.forwardingFrom = none →
      dir.getEntry.dstate = .shared → after.queue = { req with forwardingFrom := some forwarder } :: dir.queue.tail →
      after.toDram = dir.toDram → after.down = (dir.sendMsg forwarder .wbReq).down → Served
  | fetches : ServedByOwner dir req → after.queue = { req with waitForData := true } :: dir.queue.tail →
      after.toDram = dir.toDram ++ [.readReq] → after.down = dir.down →
      (req.msgType = .upgradeReq → after.getEntry.dstate = .modified) → Served
  | replies (done : Dir n V) (reply : DirMsg V) : ServedByOwner dir req → next done = .ok after → reply.Answers req.msgType →
      done.queue = dir.queue → done.toDram = dir.toDram → done.down = (dir.sendMsg req.requester reply).down → Served
  | drops (done : Dir n V) : dir.getEntry.dstate = .uncached → next done = .ok after → done.queue = dir.queue → done.toDram = dir.toDram →
      done.down = dir.down → Served

end Served

section Cases

variable {protocol : Protocol} {next : Dir n V → Except Fault (Dir n V)} {dir started after : Dir n V}
  {req : ShmemReq n V} {rest : List (ShmemReq n V)} {cachedDataBuf : Option (LineBuf V)}

/-- `started` is `dir` but for its entry and its log. -/
structure SameWork (dir started : Dir n V) : Prop where
  queue : started.queue = dir.queue
  toDram : started.toDram = dir.toDram
  down : started.down = dir.down

theorem ServedByOwner.of_unowned (unowned : dir.getEntry.dstate = .uncached ∨ dir.getEntry.dstate = .shared) :
    ServedByOwner dir req := by
  rintro (owned | owned) <;> rw [owned] at unowned <;> rcases unowned with unowned | unowned <;> cases unowned

theorem bind_ok {α β : Type} {first : Except Fault α} {then' : α → Except Fault β} {result : β}
    (ran : first >>= then' = .ok result) : ∃ value, first = .ok value ∧ then' value = .ok result := by
  cases first with
  | error fault => cases ran
  | ok value => exact ⟨value, rfl, ran⟩

theorem assertThat_ok {condition : Prop} [Decidable condition] {fault : Fault} {result : Unit}
    (passed : assertThat condition fault = .ok result) : condition := by
  unfold assertThat at passed
  split at passed
  case isTrue holds => exact holds
  case isFalse => cases passed

theorem retrieve_served {replyMsg : LineBuf V → DirMsg V} {dataBuf : Option (LineBuf V)}
    (ran : retrieveDataAndSendToL2Cache protocol next started replyMsg req.requester dataBuf = .ok after)
    (same : SameWork dir started) (front : dir.queue = req :: rest) (answers : ∀ data, (replyMsg data).Answers req.msgType)
    (given : dataBuf = none → cachedDataBuf = none) (owned : ServedByOwner dir req)
    (shares : protocol = .mesif → started.getEntry.dstate = .shared → req.msgType = .shReq ∧ dir.getEntry.dstate = .shared)
    (upgrade : req.msgType = .upgradeReq → started.getEntry.dstate = .modified) :
    Served next dir req cachedDataBuf after := by
  unfold retrieveDataAndSendToL2Cache at ran
  cases stored : started.entry with
  | none => simp [stored] at ran
  | some entry =>
    have getEntry : started.getEntry = entry := by simp [Dir.getEntry, stored]
    rw [getEntry] at shares upgrade
    have front' : started.queue = req :: rest := same.queue.trans front
    cases dataBuf with
    | some data =>
      simp only [stored] at ran
      refine .replies _ (replyMsg data) owned ran (answers data) same.queue same.toDram ?_
      simp [Dir.reply, Dir.sendMsg, Dir.setEntry, same.down]
    | none =>
      cases held : started.nuca with
      | some data =>
        simp only [stored, held] at ran
        refine .replies _ (replyMsg data) owned ran (answers data) same.queue same.toDram ?_
        simp [Dir.reply, Dir.sendMsg, same.down]
      | none =>
        simp only [stored, held, front'] at ran
        split at ran
        case isTrue forwards =>
          obtain ⟨mesif, unforwarded, shared, _⟩ := forwards
          obtain ⟨type, was⟩ := shares mesif shared
          cases forwarder : entry.forwarder with
          | uninitialised | invalid => simp [forwarder] at ran
          | core id =>
            simp only [forwarder, Except.ok.injEq] at ran
            subst ran
            refine .forwards id (given rfl) type unforwarded was ?_ same.toDram ?_
            · simp [Dir.sendMsg, Dir.setFront, front', front]
            · simp [Dir.sendMsg, Dir.setFront, same.down]
        case isFalse =>
          simp only [Except.ok.injEq] at ran
          subst ran
          refine .fetches owned ?_ ?_ same.down fun type => ?_
          · simp [Dir.setFront, front', front]
          · simp [Dir.setFront, same.toDram]
          · rw [← upgrade type, ← getEntry]
            rfl

theorem sendToOwner_asked {msg : DirMsg V} (same : SameWork dir started) (entry : started.getEntry = dir.getEntry)
    (isRequest : msg.isRequest = true) (cached : dir.getEntry.dstate = .exclusive ∨ dir.getEntry.dstate = .modified)
    (given : req.msgType = .exReq ∨ req.msgType = .shReq → cachedDataBuf = none)
    (ran : started.sendToOwner dir.getEntry msg = .ok after) :
    Served next dir req cachedDataBuf after := by
  have unshared : dir.getEntry.dstate ≠ .shared ∧ dir.getEntry.dstate ≠ .uncached := by
    rcases cached with cached | cached <;> rw [cached] <;> exact ⟨by rintro ⟨⟩, by rintro ⟨⟩⟩
  unfold Dir.sendToOwner at ran
  cases owner : dir.getEntry.owner with
  | none => simp [owner] at ran
  | some owner' =>
    simp only [owner, Except.ok.injEq] at ran
    subst ran
    refine .asked (fun id => if id = owner' then [msg] else []) ⟨entry, same.queue, same.toDram, fun id => ?_, fun id => ?_,
      unshared.2, fun _ => unshared.1, given, fun _ shared => absurd shared unshared.1⟩
    · by_cases isOwner : id = owner'
      · subst isOwner
        simp [Dir.sendMsg, same.down]
      · simp [Dir.sendMsg, same.down, isOwner]
    · by_cases isOwner : id = owner'
      · exact .inr ⟨msg, by simp [isOwner], isRequest⟩
      · exact .inl (by simp [isOwner])

theorem sendEach_asked {msg : DirMsg V} {receivers : List (Fin n)} (distinct : receivers.Nodup) (same : SameWork dir started)
    (entry : started.getEntry = dir.getEntry)
    (isRequest : msg.isRequest = true) (shared : dir.getEntry.dstate = .shared) (type : req.msgType ≠ .shReq)
    (given : req.msgType = .exReq → cachedDataBuf = none)
    (upgrade : req.msgType = .upgradeReq → dir.getEntry.getSharersList ≠ [req.requester] ∧
      (dir.getEntry.sharers req.requester = true → ∀ id, id ≠ req.requester → dir.getEntry.sharers id = true →
        (if id ∈ receivers then [msg] else []) = [.invReq])) :
    Served next dir req cachedDataBuf (started.sendEach receivers msg) := by
  rw [Dir.sendEach_eq receivers msg distinct]
  refine .asked (fun id => if id ∈ receivers then [msg] else []) ⟨entry, same.queue, same.toDram, fun id => ?_, fun id => ?_,
    by rw [shared]; rintro ⟨⟩, fun isSh => absurd isSh type, fun isEx => given (isEx.resolve_right type), fun isUp _ => upgrade isUp⟩
  · rw [same.down]
  · by_cases member : id ∈ receivers
    · exact .inr ⟨msg, by simp [member], isRequest⟩
    · exact .inl (by simp [member])

theorem processExReq_served (front : dir.queue = req :: rest) (type : req.msgType = .exReq)
    (ran : processExReqFromL2Cache protocol next dir req.requester cachedDataBuf = .ok after) :
    Served next dir req cachedDataBuf after := by
  have same : SameWork dir ((dir.serving .exReq req.requester).setEntry dir.getEntry) := ⟨rfl, rfl, rfl⟩
  unfold processExReqFromL2Cache at ran
  simp only [Dir.getEntry_setEntry] at ran
  cases dstate : dir.getEntry.dstate with
  | exclusive | modified =>
    simp only [dstate] at ran
    obtain ⟨_, fresh, sent⟩ := bind_ok ran
    exact sendToOwner_asked same rfl rfl (by simp [dstate]) (fun _ => by simpa using assertThat_ok fresh) sent
  | shared =>
    simp only [dstate] at ran
    obtain ⟨_, fresh, sent⟩ := bind_ok ran
    cases sent
    exact sendEach_asked dir.getEntry.getSharersList_nodup same rfl rfl dstate (by rw [type]; rintro ⟨⟩)
      (fun _ => by simpa using assertThat_ok fresh) fun isUp => by rw [type] at isUp; cases isUp
  | uncached =>
    simp only [dstate] at ran
    obtain ⟨added, _, ran⟩ := bind_ok ran
    obtain ⟨owned, _, ran⟩ := bind_ok ran
    refine retrieve_served ran ⟨rfl, rfl, rfl⟩ front (fun _ => trivial) id (.of_unowned (.inl dstate)) (fun _ shared => ?_)
      fun _ => rfl
    cases shared
  | owned =>
    simp only [dstate] at ran
    cases ran

theorem processShReq_served (front : dir.queue = req :: rest) (type : req.msgType = .shReq)
    (ran : processShReqFromL2Cache protocol next dir req.requester cachedDataBuf = .ok after) :
    Served next dir req cachedDataBuf after := by
  have same : SameWork dir ((dir.serving .shReq req.requester).setEntry dir.getEntry) := ⟨rfl, rfl, rfl⟩
  have notUp : req.msgType ≠ .upgradeReq := by rw [type]; rintro ⟨⟩
  unfold processShReqFromL2Cache at ran
  simp only [Dir.getEntry_setEntry] at ran
  cases dstate : dir.getEntry.dstate with
  | exclusive =>
    simp only [dstate] at ran
    obtain ⟨_, _, ran⟩ := bind_ok ran
    obtain ⟨_, fresh, sent⟩ := bind_ok ran
    exact sendToOwner_asked same rfl rfl (.inl dstate) (fun _ => by simpa using assertThat_ok fresh) sent
  | modified =>
    simp only [dstate] at ran
    obtain ⟨_, fresh, sent⟩ := bind_ok ran
    exact sendToOwner_asked same rfl rfl (.inr dstate) (fun _ => by simpa using assertThat_ok fresh) sent
  | shared =>
    simp only [dstate] at ran
    cases held : dir.getEntry.hasSharer req.requester with
    | true =>
      simp only [held, if_true] at ran
      exact retrieve_served ran same front (fun _ => type) id (.of_unowned (.inr dstate)) (fun _ _ => ⟨type, dstate⟩)
        fun isUp => absurd isUp notUp
    | false =>
      simp only [held, Bool.false_eq_true, if_false] at ran
      obtain ⟨added, _, ran⟩ := bind_ok ran
      exact retrieve_served ran ⟨rfl, rfl, rfl⟩ front (fun _ => type) id (.of_unowned (.inr dstate)) (fun _ _ => ⟨type, dstate⟩)
        fun isUp => absurd isUp notUp
  | uncached =>
    simp only [dstate] at ran
    obtain ⟨added, _, ran⟩ := bind_ok ran
    obtain ⟨owned, _, ran⟩ := bind_ok ran
    by_cases msi : protocol = .msi
    · simp only [msi, if_true] at ran
      refine retrieve_served ran ⟨rfl, rfl, rfl⟩ front (fun _ => type) id (.of_unowned (.inl dstate)) (fun mesif _ => ?_)
        fun isUp => absurd isUp notUp
      cases mesif
    · simp only [msi, if_false] at ran
      refine retrieve_served ran ⟨rfl, rfl, rfl⟩ front (fun _ => trivial) id (.of_unowned (.inl dstate)) (fun _ shared => ?_)
        fun isUp => absurd isUp notUp
      cases shared
  | owned =>
    simp only [dstate] at ran
    cases ran

theorem sendUpgradeInvs_asked (same : SameWork dir started) (entry : started.getEntry = dir.getEntry)
    (type : req.msgType = .upgradeReq) (shared : dir.getEntry.dstate = .shared)
    (others : dir.getEntry.getSharersList ≠ [req.requester]) :
    Served next dir req cachedDataBuf (sendUpgradeInvs started dir.getEntry req.requester) := by
  have isUp : req.msgType ≠ .exReq ∧ req.msgType ≠ .shReq := by rw [type]; exact ⟨by rintro ⟨⟩, by rintro ⟨⟩⟩
  have distinct := dir.getEntry.getSharersList_nodup
  have member (id : Fin n) (present : dir.getEntry.sharers id = true) : id ∈ dir.getEntry.getSharersList :=
    DirectoryEntry.mem_getSharersList.mpr present
  unfold sendUpgradeInvs
  cases list : dir.getEntry.getSharersList with
  | nil =>
    refine .asked (fun _ => []) ⟨entry, same.queue, same.toDram, by simp [same.down], fun _ => .inl rfl, by rw [shared]; rintro ⟨⟩,
      fun isSh => absurd isSh isUp.2, fun wrong => absurd wrong (not_or.mpr isUp), fun _ _ => ⟨others, fun _ id _ present => ?_⟩⟩
    rw [list] at member
    cases member id present
  | cons first rest =>
    rw [list] at distinct
    cases held : dir.getEntry.hasSharer req.requester with
    | true =>
      simp only [if_true]
      refine sendEach_asked (distinct.filter _) same entry rfl shared isUp.2 (fun isEx => absurd isEx isUp.1)
        fun _ => ⟨others, fun _ id other present => if_pos ?_⟩
      refine List.mem_filter.mpr ⟨?_, by simpa using other⟩
      rw [← list]
      exact member id present
    | false =>
      simp only [Bool.false_eq_true, if_false]
      obtain ⟨notAgain, distinct⟩ := List.nodup_cons.mp distinct
      rw [Dir.sendEach_eq rest .invReq distinct]
      refine .asked (fun id => if id = first then [.flushReq] else if id ∈ rest then [.invReq] else [])
        ⟨entry, same.queue, same.toDram, fun id => ?_, fun id => ?_, by rw [shared]; rintro ⟨⟩, fun isSh => absurd isSh isUp.2,
          fun wrong => absurd wrong (not_or.mpr isUp), fun _ _ => ⟨others, fun isSharer => ?_⟩⟩
      · by_cases isFirst : id = first
        · subst isFirst
          simp [Dir.sendMsg, same.down, notAgain]
        · simp [Dir.sendMsg, same.down, isFirst]
      · by_cases isFirst : id = first
        · exact .inr ⟨.flushReq, by simp [isFirst], rfl⟩
        · by_cases isRest : id ∈ rest
          · exact .inr ⟨.invReq, by simp [isFirst, isRest], rfl⟩
          · exact .inl (by simp [isFirst, isRest])
      · rw [DirectoryEntry.hasSharer, isSharer] at held
        cases held

theorem processUpgradeReq_served {msgDataBuf : Option (LineBuf V)} (front : dir.queue = req :: rest)
    (type : req.msgType = .upgradeReq)
    (ran : processUpgradeReqFromL2Cache protocol next dir req.requester msgDataBuf cachedDataBuf = .ok after) :
    Served next dir req cachedDataBuf after := by
  have same : SameWork dir ((dir.serving .upgradeReq req.requester).setEntry dir.getEntry) := ⟨rfl, rfl, rfl⟩
  have given (wrong : req.msgType = .exReq ∨ req.msgType = .shReq) : cachedDataBuf = none := by
    rw [type] at wrong
    rcases wrong with wrong | wrong <;> cases wrong
  unfold processUpgradeReqFromL2Cache at ran
  simp only [Dir.getEntry_setEntry] at ran
  cases dstate : dir.getEntry.dstate with
  | exclusive | modified =>
    simp only [dstate] at ran
    cases list : dir.getEntry.getSharersList with
    | nil =>
      simp only [list] at ran
      cases ran
    | cons first others =>
      simp only [list] at ran
      by_cases own : first = req.requester
      · simp only [own, if_true] at ran
        obtain ⟨_, _, ran⟩ := bind_ok ran
        have isSharer : dir.getEntry.sharers req.requester = true :=
          DirectoryEntry.mem_getSharersList.mp (by rw [list, own]; exact List.mem_cons_self)
        exact .replies _ .upgradeRep (fun _ => ⟨type, isSharer⟩) ran trivial rfl rfl rfl
      · simp only [own, if_false] at ran
        exact sendToOwner_asked same rfl rfl (by simp [dstate]) given ran
  | shared =>
    simp only [dstate] at ran
    by_cases alone : dir.getEntry.getSharersList = [req.requester]
    · simp only [alone, if_true] at ran
      obtain ⟨owned, _, ran⟩ := bind_ok ran
      exact .replies _ .upgradeRep (.of_unowned (.inr dstate)) ran trivial rfl rfl rfl
    · simp only [alone, if_false] at ran
      cases ran
      exact sendUpgradeInvs_asked same rfl type dstate alone
  | uncached =>
    simp only [dstate] at ran
    obtain ⟨_, _, ran⟩ := bind_ok ran
    obtain ⟨added, _, ran⟩ := bind_ok ran
    obtain ⟨owned, _, ran⟩ := bind_ok ran
    refine retrieve_served ran ⟨rfl, rfl, rfl⟩ front (fun _ => trivial) (fun none => ?_) (.of_unowned (.inl dstate))
      (fun _ shared => ?_) fun _ => rfl
    · cases cachedDataBuf with
      | none => rfl
      | some data => cases none
    · cases shared
  | owned =>
    simp only [dstate] at ran
    cases ran

theorem processNullifyReq_served (type : req.msgType = .nullifyReq)
    (ran : processNullifyReq next dir req.requester = .ok after) : Served next dir req cachedDataBuf after := by
  have same : SameWork dir (dir.serving .nullifyReq req.requester) := ⟨rfl, rfl, rfl⟩
  have given (wrong : req.msgType = .exReq ∨ req.msgType = .shReq) : cachedDataBuf = none := by
    rw [type] at wrong
    rcases wrong with wrong | wrong <;> cases wrong
  unfold processNullifyReq at ran
  cases stored : dir.entry with
  | none => simp [Dir.serving, stored] at ran
  | some entry =>
    have getEntry : dir.getEntry = entry := by simp [Dir.getEntry, stored]
    have getEntry' : (dir.serving .nullifyReq req.requester).entry = some dir.getEntry := by
      rw [getEntry]
      exact stored
    simp only [getEntry'] at ran
    cases dstate : dir.getEntry.dstate with
    | exclusive | modified =>
      simp only [dstate] at ran
      exact sendToOwner_asked same rfl rfl (by simp [dstate]) given ran
    | shared =>
      simp only [dstate] at ran
      cases ran
      exact sendEach_asked dir.getEntry.getSharersList_nodup same rfl rfl dstate (by rw [type]; rintro ⟨⟩)
        (fun isEx => given (.inl isEx)) fun isUp => by rw [type] at isUp; cases isUp
    | uncached =>
      simp only [dstate] at ran
      exact .drops _ dstate ran rfl rfl rfl
    | owned =>
      simp only [dstate] at ran
      cases ran

theorem processReq_served (front : dir.queue = req :: rest)
    (ran : processReq protocol next dir req cachedDataBuf = .ok after) : Served next dir req cachedDataBuf after := by
  unfold processReq at ran
  cases type : req.msgType with
  | exReq =>
    simp only [type] at ran
    exact processExReq_served front type ran
  | shReq =>
    simp only [type] at ran
    exact processShReq_served front type ran
  | upgradeReq =>
    simp only [type] at ran
    exact processUpgradeReq_served front type ran
  | nullifyReq =>
    simp only [type] at ran
    exact processNullifyReq_served type ran

end Cases

/-! ### The work that is left -/

section Weights

variable (n : Nat)

/-- The reply to a read may be followed by the upgrade of a write that waits behind it. -/
def ReqType.replyWork : ReqType → Nat
  | .shReq => 3 * n + 8
  | .exReq | .upgradeReq | .nullifyReq => 1

/-- A request that has not been served may ask every cache. -/
def ReqType.freshWork (msgType : ReqType) : Nat := msgType.replyWork n + 3 * n + 5

def CacheMsg.work : CacheMsg V → Nat
  | .req msgType => msgType.freshWork n + 1
  | .invRep | .wbRep _ => 1
  | .flushRep _ => 2

def DirMsg.work : DirMsg V → Nat
  | .exRep _ | .upgradeRep => 1
  | .shRep _ => ReqType.replyWork n .shReq
  | .invReq | .flushReq | .wbReq => 3

def DramMsg.work : DramMsg V → Nat
  | .readReq => 2
  | .writeReq _ => 1

end Weights

/-- The request in service has asked for the data, the forwarder or the other caches. -/
def ShmemReq.work (req : ShmemReq n V) : Nat :=
  req.msgType.replyWork n + if req.waitForData then 0 else if req.forwardingFrom ≠ none then 2 else 5

def freshWork (rest : List (ShmemReq n V)) : Nat := (rest.map (·.msgType.freshWork n)).sum

def queueWork : List (ShmemReq n V) → Nat
  | [] => 0
  | req :: rest => req.work + freshWork rest

def channelWork {α : Type} (weight : α → Nat) (channels : Fin n → List α) : Nat :=
  ∑ id, ((channels id).map weight).sum

def Dir.sentWork (dir : Dir n V) : Nat := channelWork (DirMsg.work n) dir.down + (dir.toDram.map DramMsg.work).sum

def Dir.work (dir : Dir n V) : Nat := dir.sentWork + queueWork dir.queue

def Sys.work (sys : Sys n V) : Nat := sys.dir.work + channelWork (CacheMsg.work n) sys.up + sys.fromDram.length

section Work

variable {α : Type} (weight : α → Nat) {channels : Fin n → List α}

theorem channelWork_update (id : Fin n) (list : List α) :
    channelWork weight (Function.update channels id list) + ((channels id).map weight).sum =
      channelWork weight channels + (list.map weight).sum := by
  have updated : (fun other => ((Function.update channels id list other).map weight).sum) =
      Function.update (fun other => ((channels other).map weight).sum) id (list.map weight).sum := by
    funext other
    exact Function.apply_update (fun _ (list : List α) => (list.map weight).sum) channels id list other
  have split : channelWork weight channels =
      ((channels id).map weight).sum + ∑ other ∈ Finset.univ \ {id}, ((channels other).map weight).sum := by
    unfold channelWork
    rw [← Finset.sum_update_of_mem (Finset.mem_univ id), Function.update_eq_self]
  rw [split, channelWork, updated, Finset.sum_update_of_mem (Finset.mem_univ id)]
  omega

theorem channelWork_pop {id : Fin n} {msg : α} {rest : List α} (sent : channels id = msg :: rest) :
    channelWork weight (Function.update channels id rest) + weight msg = channelWork weight channels := by
  have updated : channelWork weight (Function.update channels id rest) + _ = _ := channelWork_update weight id rest
  rw [sent, List.map_cons, List.sum_cons] at updated
  omega

theorem channelWork_push (id : Fin n) (msg : α) :
    channelWork weight (Function.update channels id (channels id ++ [msg])) = channelWork weight channels + weight msg := by
  have updated : channelWork weight (Function.update channels id _) + _ = _ := channelWork_update weight id (channels id ++ [msg])
  rw [List.map_append, List.sum_append, List.map_singleton, List.sum_singleton] at updated
  omega

theorem channelWork_append {after msgs : Fin n → List α} {bound : Nat} (appended : ∀ id, after id = channels id ++ msgs id)
    (small : ∀ id, ((msgs id).map weight).sum ≤ bound) :
    channelWork weight after ≤ channelWork weight channels + n * bound := by
  have total : channelWork weight after = channelWork weight channels + ∑ id, ((msgs id).map weight).sum := by
    simp only [channelWork, appended, List.map_append, List.sum_append, Finset.sum_add_distrib]
  have most : ∑ id, ((msgs id).map weight).sum ≤ ∑ _id : Fin n, bound := Finset.sum_le_sum fun id _ => small id
  rw [Finset.sum_const, Finset.card_univ, Fintype.card_fin, smul_eq_mul] at most
  omega

variable {protocol : Protocol} {next : Dir n V → Except Fault (Dir n V)} {dir after : Dir n V}
  {req : ShmemReq n V} {rest : List (ShmemReq n V)} {cachedDataBuf : Option (LineBuf V)}

theorem DirMsg.Answers.work_le {msgType : ReqType} {reply : DirMsg V} (answers : reply.Answers msgType) :
    reply.work n ≤ msgType.replyWork n := by
  cases reply with
  | exRep | upgradeRep => cases msgType <;> simp [DirMsg.work, ReqType.replyWork]
  | shRep => rw [show msgType = .shReq from answers]; exact Nat.le_refl _
  | invReq | flushReq | wbReq => exact answers.elim

theorem DirMsg.work_request {msg : DirMsg V} (isRequest : msg.isRequest = true) : msg.work n = 3 := by
  cases msg <;> first | rfl | cases isRequest

theorem ShmemReq.work_le (req : ShmemReq n V) : req.work ≤ req.msgType.replyWork n + 5 := by
  unfold ShmemReq.work
  split
  · omega
  · split <;> omega

theorem Dir.sentWork_sendMsg (receiver : Fin n) {msg : DirMsg V} {done : Dir n V} (toDram : done.toDram = dir.toDram)
    (down : done.down = (dir.sendMsg receiver msg).down) : done.sentWork = dir.sentWork + msg.work n := by
  unfold Dir.sentWork
  rw [toDram, down, Dir.sendMsg, channelWork_push]
  omega

theorem Asked.sentWork_le {msgs : Fin n → List (DirMsg V)} (asked : Asked dir req cachedDataBuf after msgs) :
    after.sentWork ≤ dir.sentWork + 3 * n := by
  have small (id : Fin n) : ((msgs id).map (DirMsg.work n)).sum ≤ 3 := by
    rcases asked.each id with none | ⟨msg, one, isRequest⟩
    · simp [none]
    · simp [one, DirMsg.work_request isRequest]
  have more := channelWork_append (DirMsg.work n) asked.down small
  unfold Dir.sentWork
  rw [asked.toDram]
  omega

/-- `next` does no more than the requests behind the first one ask for. -/
def Bounded (next : Dir n V → Except Fault (Dir n V)) : Prop :=
  ∀ done after, next done = .ok after → after.work ≤ done.sentWork + freshWork done.queue.tail

theorem Served.work_cases (served : Served next dir req cachedDataBuf after) (bounded : Bounded next)
    (front : dir.queue = req :: rest) :
    (∃ msgs, Asked dir req cachedDataBuf after msgs) ∨
    (cachedDataBuf = none ∧ req.msgType = .shReq ∧ req.forwardingFrom = none ∧ dir.getEntry.dstate = .shared ∧
      after.work ≤ dir.sentWork + 3 + (req.msgType.replyWork n + 2) + freshWork rest) ∨
    after.work ≤ dir.sentWork + req.msgType.replyWork n + 2 + freshWork rest := by
  cases served with
  | asked msgs asks => exact .inl ⟨msgs, asks⟩
  | forwards forwarder none type unforwarded shared queue toDram down =>
    refine .inr (.inl ⟨none, type, unforwarded, shared, ?_⟩)
    have sent := Dir.sentWork_sendMsg _ toDram down
    have head : ({ req with forwardingFrom := some forwarder } : ShmemReq n V).work ≤ req.msgType.replyWork n + 2 := by
      simp only [ShmemReq.work]
      split <;> simp
    rw [front, List.tail_cons] at queue
    simp only [Dir.work, queue, queueWork, sent, DirMsg.work]
    omega
  | fetches _ queue toDram down =>
    refine .inr (.inr ?_)
    rw [front, List.tail_cons] at queue
    simp only [Dir.work, Dir.sentWork, queue, toDram, down, queueWork, ShmemReq.work, if_true, List.map_append, List.sum_append,
      List.map_singleton, List.sum_singleton, DramMsg.work]
    omega
  | replies done reply _ ran answers queue toDram down =>
    have most := bounded done after ran
    rw [Dir.sentWork_sendMsg _ toDram down, queue, front, List.tail_cons] at most
    have reply := answers.work_le (n := n)
    exact .inr (.inr (by omega))
  | drops done _ ran queue toDram down =>
    have most := bounded done after ran
    rw [queue, front, List.tail_cons] at most
    have same : done.sentWork = dir.sentWork := by rw [Dir.sentWork, Dir.sentWork, toDram, down]
    exact .inr (.inr (by omega))

theorem Served.work_le (served : Served next dir req cachedDataBuf after) (bounded : Bounded next)
    (front : dir.queue = req :: rest) : after.work ≤ dir.sentWork + req.msgType.freshWork n + freshWork rest := by
  have fresh : req.msgType.freshWork n = req.msgType.replyWork n + 3 * n + 5 := rfl
  rcases served.work_cases bounded front with ⟨msgs, asks⟩ | ⟨_, _, _, _, most⟩ | most
  · have sent := asks.sentWork_le
    have head := req.work_le
    simp only [Dir.work, asks.queue, front, queueWork]
    omega
  · omega
  · omega

theorem Served.work_le_again (served : Served next dir req cachedDataBuf after) (bounded : Bounded next)
    (front : dir.queue = req :: rest) (asked : ∀ msgs, ¬ Asked dir req cachedDataBuf after msgs)
    (forwards : cachedDataBuf = none → req.msgType = .shReq → req.forwardingFrom = none → dir.getEntry.dstate ≠ .shared) :
    after.work ≤ dir.sentWork + req.msgType.replyWork n + 2 + freshWork rest := by
  rcases served.work_cases bounded front with ⟨msgs, asks⟩ | ⟨none, type, unforwarded, shared, _⟩ | most
  · exact absurd asks (asked msgs)
  · exact absurd shared (forwards none type unforwarded)
  · exact most

theorem processNextReqFromL2Cache_bounded (size : Nat) : Bounded (processNextReqFromL2Cache (n := n) (V := V) protocol size) := by
  induction size with
  | zero =>
    intro done after ran
    cases ran
  | succ size ih =>
    intro done after ran
    unfold processNextReqFromL2Cache at ran
    cases queue : done.queue with
    | nil => simp [queue] at ran
    | cons first rest =>
      simp only [queue] at ran
      cases rest with
      | nil =>
        cases ran
        exact Nat.le_refl _
      | cons req rest =>
        simp only at ran
        split at ran
        case isTrue => cases ran
        case isFalse =>
          have most := (processReq_served rfl ran).work_le ih rfl
          simp only [freshWork, List.tail_cons, List.map_cons, List.sum_cons, Dir.sentWork] at most ⊢
          omega

theorem next_bounded : Bounded (Dir.next (n := n) (V := V) protocol) :=
  fun done after ran => processNextReqFromL2Cache_bounded done.queue.length done after ran

end Work

/-! ### Every delivery takes work off -/

section Directory

variable {protocol : Protocol} {promise : Promise} {sys : Sys n V} {dir after : Dir n V} {cache : Fin n}
  {req : ShmemReq n V} {rest : List (CacheMsg V)} {others : List (ShmemReq n V)}

theorem queueWork_append (queue : List (ShmemReq n V)) (first : queue ≠ []) (req : ShmemReq n V) :
    queueWork (queue ++ [req]) = queueWork queue + req.msgType.freshWork n := by
  cases queue with
  | nil => exact absurd rfl first
  | cons head rest =>
    simp only [List.cons_append, queueWork, freshWork, List.map_append, List.sum_append, List.map_singleton, List.sum_singleton]
    omega

theorem handleReq_work {msgType : ReqType} (ran : handleReqFromL2Cache protocol dir cache msgType = .ok after) :
    after.work ≤ dir.work + msgType.freshWork n := by
  unfold handleReqFromL2Cache at ran
  cases queue : dir.queue with
  | nil =>
    have front : (dir.enqueue { msgType, requester := cache }).queue = [{ msgType, requester := cache }] := by
      simp [Dir.enqueue, queue]
    simp only [front, List.length_singleton, if_true] at ran
    have most := (processReq_served front ran).work_le next_bounded front
    simp only [Dir.work, queue, queueWork, freshWork, List.map_nil, List.sum_nil] at most ⊢
    exact most
  | cons first more =>
    have long : (dir.enqueue { msgType, requester := cache }).queue.length ≠ 1 := by
      simp [Dir.enqueue, queue]
    simp only [long, if_false] at ran
    cases ran
    have total := queueWork_append dir.queue (by rw [queue]; exact List.cons_ne_nil _ _)
      { msgType, requester := cache : ShmemReq n V }
    simp only [Dir.work, Dir.enqueue, Dir.sentWork] at total ⊢
    omega

theorem ShmemReq.work_waiting (unserved : req.waitForData = false) : req.msgType.replyWork n + 2 ≤ req.work := by
  unfold ShmemReq.work
  rw [if_neg (by simp [unserved])]
  split <;> omega

theorem LeftClean.unserved {entry : DirectoryEntry n} (left : LeftClean protocol promise sys dir cache rest entry req others)
    (request : req.msgType ≠ .shReq) : req.waitForData = false :=
  (left.fresh request).waitForData

theorem LeftClean.work_le {entry : DirectoryEntry n} (left : LeftClean protocol promise sys dir cache rest entry req others)
    (unserved : req.waitForData = false)
    (settled : req.msgType ≠ .shReq → entry.dstate = .uncached ∨
      req.msgType = .upgradeReq ∧ entry.dstate = .shared ∧ entry.getSharersList = [req.requester])
    (forwarded : req.msgType = .shReq → req.forwardingFrom = none → dir.getEntry.dstate ≠ .shared)
    (ran : processReq protocol (Dir.next protocol) (dir.setEntry entry) req none = .ok after) : after.work ≤ dir.work := by
  have front : (dir.setEntry entry).queue = req :: others := left.queue
  have kinds : entry.dstate = .uncached ∨ entry.dstate = .shared := by
    by_cases gone : entry.dstate = .uncached
    · exact .inl gone
    · have stays : entry.dstate = dir.getEntry.dstate := by
        rw [left.removes.dstate] at gone ⊢
        split at gone
        case isTrue => exact absurd rfl gone
        case isFalse some => rw [if_neg some]
      rcases left.clean with shared | exclusive
      · exact .inr (stays.trans shared)
      · exact absurd (left.uncached (.inl exclusive)) gone
  have most := (processReq_served front ran).work_le_again next_bounded front
    (by
      intro msgs asked
      have cached : entry.dstate ≠ .uncached := asked.cached
      have shared := kinds.resolve_left cached
      by_cases isSh : req.msgType = .shReq
      · exact asked.unshared isSh shared
      · obtain ⟨type, _, alone⟩ := (settled isSh).resolve_left cached
        exact (asked.upgrade type shared).1 alone)
    (by
      intro _ type unforwarded shared
      refine forwarded type unforwarded ?_
      have present : entry.getNumSharers ≠ 0 := by
        rw [Ne, left.getNumSharers_eq_zero, show entry.dstate = .shared from shared]
        rintro ⟨⟩
      have kept := left.removes.dstate
      rw [if_neg present] at kept
      exact kept.symm.trans shared)
  have head := ShmemReq.work_waiting unserved
  have work : dir.work = dir.sentWork + (req.work + freshWork others) := by
    rw [Dir.work, left.queue, queueWork]
  have same : (dir.setEntry entry).sentWork = dir.sentWork := rfl
  omega

theorem LeftClean.afterInvRep_work {entry : DirectoryEntry n} (left : LeftClean protocol promise sys dir cache rest entry req others)
    (ran : dir.afterInvRep protocol cache entry = .ok after) : after.work ≤ dir.work := by
  have keep {result : Dir n V} (kept : Except.ok (ε := Fault) (dir.setEntry entry) = .ok result) : result.work ≤ dir.work := by
    cases kept
    exact Nat.le_refl _
  have zero := left.getNumSharers_eq_zero
  rw [Dir.afterInvRep, left.queue] at ran
  cases type : req.msgType with
  | exReq | nullifyReq =>
    have notSh : req.msgType ≠ .shReq := by rw [type]; rintro ⟨⟩
    simp only [type] at ran
    split at ran
    case isTrue gone => exact left.work_le (left.unserved notSh) (fun _ => .inl gone) (absurd · notSh) ran
    case isFalse => exact keep ran
  | upgradeReq =>
    have notSh : req.msgType ≠ .shReq := by rw [type]; rintro ⟨⟩
    simp only [type] at ran
    by_cases one : entry.getNumSharers = 1
    · simp only [one, if_true] at ran
      cases held : entry.hasSharer req.requester with
      | true =>
        simp only [held, if_true] at ran
        have alone := DirectoryEntry.getSharersList_eq_singleton.mpr ((DirectoryEntry.getNumSharers_eq_one held).mp one)
        have cached : entry.dstate ≠ .uncached := by
          rw [Ne, ← zero, one]
          decide
        have shared : entry.dstate = .shared := by
          rw [left.removes.dstate_of_present held]
          exact left.clean.resolve_right fun exclusive => cached (left.uncached (.inl exclusive))
        exact left.work_le (left.unserved notSh) (fun _ => .inr ⟨type, shared, alone⟩) (absurd · notSh) ran
      | false =>
        simp only [held, Bool.false_eq_true, if_false] at ran
        exact keep ran
    · simp only [one, if_false] at ran
      split at ran
      case isTrue none => exact left.work_le (left.unserved notSh) (fun _ => .inl (zero.mp none)) (absurd · notSh) ran
      case isFalse => exact keep ran
  | shReq =>
    simp only [type] at ran
    cases waiting : req.waitForData with
    | true =>
      simp only [waiting, if_true] at ran
      exact keep ran
    | false =>
      simp only [waiting, Bool.false_eq_true, if_false] at ran
      split at ran
      case isTrue => exact keep ran
      case isFalse => exact left.work_le waiting (absurd type) (fun _ => left.head.shared type waiting) ran

theorem Dir.sentWork_sendDataToDram (data : LineBuf V) : (dir.sendDataToDram data).sentWork ≤ dir.sentWork + 1 := by
  unfold Dir.sendDataToDram Dir.sendDataToNUCA
  split
  · exact Nat.le_succ _
  · simp only [Dir.sentWork, List.map_append, List.sum_append, List.map_singleton, List.sum_singleton, DramMsg.work]
    omega

theorem work_le_flushed {flushed : Dir n V} {data : Option (LineBuf V)} (queue : dir.queue = req :: others)
    (front : flushed.queue = req :: others) (sent : flushed.sentWork ≤ dir.sentWork + 1)
    (unserved : req.waitForData = false)
    (fits : flushed.getEntry.dstate = .uncached ∨ (req.msgType = .exReq ∨ req.msgType = .shReq) ∧ data ≠ none)
    (ran : processReq protocol (Dir.next protocol) flushed req data = .ok after) : after.work ≤ dir.work + 1 := by
  have most := (processReq_served front ran).work_le_again next_bounded front
    (by
      intro msgs asked
      obtain ⟨type, some⟩ := fits.resolve_left asked.cached
      exact some (asked.given type))
    (by
      intro none _ _ shared
      rcases fits with uncached | ⟨_, some⟩
      · rw [uncached] at shared
        cases shared
      · exact some none)
  have head := ShmemReq.work_waiting unserved
  have work : dir.work = dir.sentWork + (req.work + freshWork others) := by
    rw [Dir.work, queue, queueWork]
  omega

theorem Stable.flushRep_work {data : LineBuf V} (stable : Stable protocol promise sys dir)
    (sent : sys.up cache = .flushRep data :: rest)
    (ran : processFlushRepFromL2Cache protocol dir cache data = .ok after) : after.work ≤ dir.work + 1 := by
  have here := stable.core.caches cache
  unfold LocalAt at here
  rw [sent] at here
  obtain ⟨dstate, await, queued, role, kind, sound, gone⟩ := here.pop_flushRep
  obtain ⟨present, passes, rfl, awaits, isQueued⟩ := roleOf_eq_sharer role
  have removes := flushRepEntry_removes dir.getEntry cache
  have zero := removes.getNumSharers_eq_zero stable.core.entry present
  have uncached (owned : dir.getEntry.dstate = .exclusive ∨ dir.getEntry.dstate = .modified) :
      (flushRepEntry dir.getEntry cache).dstate = .uncached := removes.uncached stable.core.entry present owned
  have shared (cached : (flushRepEntry dir.getEntry cache).getNumSharers ≠ 0) : dir.getEntry.dstate = .shared := by
    rcases kind with kind | kind | ⟨kind, _⟩
    · exact absurd (zero.mpr (uncached (.inl kind))) cached
    · exact absurd (zero.mpr (uncached (.inr kind))) cached
    · exact kind
  have written : (((dir.setEntry (flushRepEntry dir.getEntry cache)).sendDataToDram data).sentWork) ≤ dir.sentWork + 1 :=
    Dir.sentWork_sendDataToDram data
  rw [processFlushRepFromL2Cache_eq present shared, Dir.afterFlushRep] at ran
  cases queue : dir.queue with
  | nil =>
    simp only [queue] at ran
    cases ran
    simp only [Dir.work, Dir.sendDataToDram_queue, Dir.setEntry, queue, queueWork] at written ⊢
    omega
  | cons req others =>
    rw [queue, List.head?_cons] at passes awaits
    simp only [queue] at ran
    have owned (other : req.msgType ≠ .upgradeReq) :
        dir.getEntry.dstate = .exclusive ∨ dir.getEntry.dstate = .modified := by
      rcases kind with kind | kind | ⟨_, upgrade⟩
      · exact .inl kind
      · exact .inr kind
      · exact absurd (awaitFor_eq_upgrade (awaits.symm.trans upgrade)) other
    have fresh (other : req.msgType ≠ .upgradeReq) : req.waitForData = false :=
      (stable.fresh_of_owned queue present passes (owned other)).waitForData
    cases type : req.msgType with
    | exReq =>
      simp only [type] at ran
      have other : req.msgType ≠ .upgradeReq := by rw [type]; rintro ⟨⟩
      have front : (dir.setEntry (flushRepEntry dir.getEntry cache)).queue = req :: others := queue
      exact work_le_flushed queue front (Nat.le_succ _) (fresh other)
        (.inr ⟨.inl type, Option.some_ne_none data⟩) ran
    | shReq =>
      simp only [type] at ran
      have other : req.msgType ≠ .upgradeReq := by rw [type]; rintro ⟨⟩
      exact work_le_flushed queue (by rw [Dir.sendDataToDram_queue]; exact queue) written (fresh other)
        (.inr ⟨.inr type, Option.some_ne_none data⟩) ran
    | nullifyReq =>
      simp only [type] at ran
      have other : req.msgType ≠ .upgradeReq := by rw [type]; rintro ⟨⟩
      refine work_le_flushed queue (by rw [Dir.sendDataToDram_queue]; exact queue) written (fresh other) (.inl ?_) ran
      rw [Dir.sendDataToDram_getEntry]
      exact uncached (owned other)
    | upgradeReq =>
      simp only [type] at ran
      split at ran
      case isTrue none =>
        have unserved : req.waitForData = false := by
          rcases kind with kind | kind | ⟨kind, _⟩
          · exact (stable.fresh_of_owned queue present passes (.inl kind)).waitForData
          · exact (stable.fresh_of_owned queue present passes (.inr kind)).waitForData
          · exact ((stable.head req (by rw [queue]; rfl)).fresh (by rw [type]; rintro ⟨⟩)
              (by rw [kind]; rintro ⟨⟩)).waitForData
        have front : (dir.setEntry (flushRepEntry dir.getEntry cache)).queue = req :: others := queue
        exact work_le_flushed queue front (Nat.le_succ _) unserved (.inl (zero.mp none)) ran
      case isFalse =>
        cases ran
        simp only [Dir.work, Dir.setFront, Dir.setEntry, Dir.sentWork, queue, List.modifyHead_cons, queueWork, ShmemReq.work]
        omega

theorem Stable.wbRep_work {data : LineBuf V} (stable : Stable protocol promise sys dir)
    (sent : sys.up cache = .wbRep data :: rest)
    (ran : processWbRepFromL2Cache protocol dir cache data = .ok after) : after.work ≤ dir.work := by
  have here := stable.core.caches cache
  unfold LocalAt at here
  rw [sent] at here
  obtain ⟨dstate, queued, role, -⟩ := here.pop_wbRep
  obtain ⟨present, -, -, awaits, -⟩ := roleOf_eq_sharer role
  unfold processWbRepFromL2Cache at ran
  simp only [Dir.entry_of_sharer present] at ran
  obtain ⟨_, _, ran⟩ := bind_ok ran
  cases queue : dir.queue with
  | nil =>
    rw [queue] at awaits
    cases awaits
  | cons req others =>
    rw [queue, List.head?_cons] at awaits
    obtain ⟨type, unserved, _⟩ := awaitFor_eq_wb awaits.symm
    simp only [Dir.setEntry, queue] at ran
    obtain ⟨_, _, ran⟩ := bind_ok ran
    have most := (processReq_served rfl ran).work_le_again next_bounded (rfl : _ = req :: others)
      (fun msgs asked => by cases asked.given (.inr type)) (fun none => by cases none)
    have head := ShmemReq.work_waiting unserved
    have work : dir.work = dir.sentWork + (req.work + freshWork others) := by
      rw [Dir.work, queue, queueWork]
    simp only [Dir.sentWork] at most work
    omega

theorem dramReply_work {data : LineBuf V} (ran : processDRAMReply protocol dir data = .ok after) : after.work ≤ dir.work := by
  unfold processDRAMReply at ran
  cases queue : dir.queue with
  | nil => simp [queue] at ran
  | cons req others =>
    simp only [queue] at ran
    cases stored : dir.entry with
    | none => simp [stored] at ran
    | some entry =>
      simp only [stored] at ran
      have finish {reply : DirMsg V} (ran : Dir.next protocol ((dir.reply req.requester reply).sendDataToNUCA data) = .ok after)
          (answers : reply.Answers req.msgType) : after.work ≤ dir.work := by
        have most := next_bounded _ _ ran
        rw [Dir.reply_sendDataToNUCA] at most
        have same : (dir.sendDataToNUCA data).queue = dir.queue ∧ (dir.sendDataToNUCA data).toDram = dir.toDram ∧
            (dir.sendDataToNUCA data).down = dir.down := by
          unfold Dir.sendDataToNUCA
          split <;> exact ⟨rfl, rfl, rfl⟩
        have sent : ((dir.sendDataToNUCA data).reply req.requester reply).sentWork = dir.sentWork + reply.work n :=
          Dir.sentWork_sendMsg req.requester same.2.1 (by simp only [Dir.reply, Dir.sendMsg, same.2.2])
        have tail : ((dir.sendDataToNUCA data).reply req.requester reply).queue.tail = others := by
          change (dir.sendDataToNUCA data).queue.tail = others
          rw [same.1, queue, List.tail_cons]
        rw [sent, tail] at most
        have small := answers.work_le (n := n)
        have head : req.msgType.replyWork n ≤ req.work := Nat.le_add_right _ _
        have work : dir.work = dir.sentWork + (req.work + freshWork others) := by
          rw [Dir.work, queue, queueWork]
        omega
      cases type : req.msgType with
      | shReq =>
        simp only [type] at ran
        obtain ⟨_, _, ran⟩ := bind_ok ran
        refine finish ran ?_
        split
        · trivial
        · exact type
      | exReq =>
        simp only [type] at ran
        obtain ⟨_, _, ran⟩ := bind_ok ran
        exact finish ran trivial
      | upgradeReq =>
        simp only [type] at ran
        exact finish ran trivial
      | nullifyReq =>
        simp only [type] at ran
        cases ran

end Directory

section Caches

variable {sys after : Sys n V} {cache : Fin n}

/-- The cache has sent at most the given messages, and nothing else has happened outside of it. -/
structure Sends (sys after : Sys n V) (cache : Fin n) (msgs : List (CacheMsg V)) : Prop where
  dir : after.dir = sys.dir
  fromDram : after.fromDram = sys.fromDram
  up : after.up = Function.update sys.up cache (sys.up cache ++ msgs)

theorem Sends.none (dir : after.dir = sys.dir) (fromDram : after.fromDram = sys.fromDram) (up : after.up = sys.up) :
    Sends sys after cache [] := by
  refine ⟨dir, fromDram, ?_⟩
  rw [List.append_nil, Function.update_eq_self]
  exact up

theorem wakeWaiters_sends {waiters : List (MemOp V)} (ran : Sys.wakeWaiters cache waiters sys = .ok after) :
    ∃ msgs, Sends sys after cache msgs ∧ (msgs = [] ∨ (sys.llc cache).cstate = .shared ∧ msgs = [.req .upgradeReq]) := by
  induction waiters generalizing sys with
  | nil =>
    cases ran
    exact ⟨[], .none rfl rfl rfl, .inl rfl⟩
  | cons op rest ih =>
    unfold Sys.wakeWaiters at ran
    simp only at ran
    split at ran
    case isTrue upgrades =>
      cases ran
      exact ⟨[.req .upgradeReq], ⟨rfl, rfl, rfl⟩, .inr ⟨upgrades.2, rfl⟩⟩
    case isFalse stays =>
      split at ran
      case isFalse => cases ran
      case isTrue =>
        obtain ⟨msgs, sends, kind⟩ := ih ran
        refine ⟨msgs, ⟨sends.dir, sends.fromDram, sends.up⟩, kind.imp_right fun both => ⟨?_, both.2⟩⟩
        have shared := both.1
        simp only [Sys.perform_llc, Sys.setLlc_llc] at shared
        split at shared
        · cases shared
        · exact shared

theorem processRep_sends {cstate : CState} {data : LineBuf V}
    (ran : sys.processRepFromDramDirectory cache cstate data = .ok after) :
    ∃ msgs, Sends sys after cache msgs ∧ (msgs = [] ∨ cstate = .shared ∧ msgs = [.req .upgradeReq]) := by
  unfold Sys.processRepFromDramDirectory at ran
  obtain ⟨_, _, ran⟩ := bind_ok ran
  obtain ⟨_, _, ran⟩ := bind_ok ran
  obtain ⟨msgs, sends, kind⟩ := wakeWaiters_sends ran
  refine ⟨msgs, ⟨sends.dir, sends.fromDram, sends.up⟩, ?_⟩
  rwa [Sys.setLlc_llc] at kind

theorem processUpgradeRep_sends (ran : sys.processUpgradeRepFromDramDirectory cache = .ok after) :
    Sends sys after cache [] := by
  unfold Sys.processUpgradeRepFromDramDirectory at ran
  obtain ⟨_, _, ran⟩ := bind_ok ran
  split at ran
  case h_1 => cases ran
  case h_3 => cases ran
  case h_2 =>
    obtain ⟨msgs, sends, kind⟩ := wakeWaiters_sends ran
    rw [Sys.setLlc_llc] at kind
    obtain rfl := kind.resolve_right fun ⟨wrong, _⟩ => by cases wrong
    exact ⟨sends.dir, sends.fromDram, sends.up⟩

/-- What a cache sends when it handles a message weighs less than the message, and it
flushes only what it was asked to flush. -/
theorem deliver_sends {msg : DirMsg V} (ran : sys.handleMsgFromDramDirectory cache msg = .ok after) :
    ∃ msgs, Sends sys after cache msgs ∧ (msgs.map (CacheMsg.work n)).sum < msg.work n ∧
      ∀ data, .flushRep data ∈ msgs → msg = .flushReq ∧ (sys.llc cache).cstate ≠ .invalid := by
  cases msg with
  | exRep data =>
    obtain ⟨msgs, sends, kind⟩ := processRep_sends ran
    obtain rfl := kind.resolve_right fun ⟨wrong, _⟩ => by cases wrong
    exact ⟨[], sends, Nat.one_pos, by simp⟩
  | shRep data =>
    obtain ⟨msgs, sends, kind⟩ := processRep_sends ran
    refine ⟨msgs, sends, ?_⟩
    rcases kind with rfl | ⟨_, rfl⟩
    · exact ⟨Nat.succ_pos _, by simp⟩
    · simp only [List.map_singleton, List.sum_singleton, CacheMsg.work, ReqType.freshWork, ReqType.replyWork, DirMsg.work]
      exact ⟨by omega, by simp⟩
  | upgradeRep => exact ⟨[], processUpgradeRep_sends ran, Nat.one_pos, by simp⟩
  | invReq =>
    simp only [Sys.handleMsgFromDramDirectory, Sys.processInvReqFromDramDirectory] at ran
    split at ran
    case isTrue =>
      cases ran
      exact ⟨[], .none rfl rfl rfl, by simp [DirMsg.work], by simp⟩
    case isFalse =>
      obtain ⟨_, _, ran⟩ := bind_ok ran
      cases ran
      exact ⟨[.invRep], ⟨rfl, rfl, rfl⟩, by simp [CacheMsg.work, DirMsg.work], by simp⟩
  | flushReq =>
    simp only [Sys.handleMsgFromDramDirectory, Sys.processFlushReqFromDramDirectory] at ran
    split at ran
    case isTrue =>
      cases ran
      exact ⟨[], .none rfl rfl rfl, by simp [DirMsg.work], by simp⟩
    case isFalse valid =>
      cases ran
      exact ⟨[.flushRep (sys.llc cache).data], ⟨rfl, rfl, rfl⟩, by simp [CacheMsg.work, DirMsg.work], fun _ _ => ⟨rfl, valid⟩⟩
  | wbReq =>
    simp only [Sys.handleMsgFromDramDirectory, Sys.processWbReqFromDramDirectory] at ran
    split at ran
    case isTrue =>
      cases ran
      exact ⟨[], .none rfl rfl rfl, by simp [DirMsg.work], by simp⟩
    case isFalse =>
      split at ran
      case isTrue =>
        cases ran
        exact ⟨[.wbRep .indeterminate], ⟨rfl, rfl, rfl⟩, by simp [CacheMsg.work, DirMsg.work], by simp⟩
      case isFalse =>
        cases ran
        exact ⟨[.wbRep (sys.llc cache).data], ⟨rfl, rfl, rfl⟩, by simp [CacheMsg.work, DirMsg.work], by simp⟩

end Caches

section Runs

variable {protocol : Protocol} {hasNuca : Bool} {promise : Promise} {sys after : Sys n V} {label : Label n V}

theorem withDir_ok {result : Except Fault (Dir n V)} (ran : sys.withDir result = .ok after) :
    ∃ dir, result = .ok dir ∧ after = { sys with dir } := by
  cases result with
  | error fault => cases ran
  | ok dir =>
    cases ran
    exact ⟨dir, rfl, rfl⟩

theorem liftFault_ok {α : Type} {result : Except Fault α} {value : α} (ran : liftFault result = .ok value) :
    result = .ok value := by
  cases result with
  | error fault => cases ran
  | ok found =>
    cases ran
    rfl

theorem Stable.invRep_work {cache : Fin n} {rest : List (CacheMsg V)} {dir : Dir n V}
    (stable : Stable protocol .none sys sys.dir) (sent : sys.up cache = .invRep :: rest)
    (ran : processInvRepFromL2Cache protocol sys.dir cache = .ok dir) : dir.work ≤ sys.dir.work := by
  have here := stable.core.caches cache
  unfold LocalAt at here
  rw [sent] at here
  obtain ⟨dstate, await, queued, role, clean, kept, gone⟩ := here.pop_invRep
  obtain ⟨present, passes, rfl, -, isQueued⟩ := roleOf_eq_sharer role
  have removes := invRepEntry_removes sys.dir.getEntry cache
  have core := stable.core.remove removes present isQueued gone
  rw [processInvRepFromL2Cache_eq present clean] at ran
  cases queue : sys.dir.queue with
  | nil =>
    rw [Dir.afterInvRep, queue] at ran
    cases ran
    exact Nat.le_refl _
  | cons req others =>
    rw [queue] at core passes
    have left : LeftClean protocol .none sys sys.dir cache rest (invRepEntry sys.dir.getEntry cache) req others :=
      { stable, queue, present, passes, removes, core, clean, memory := False.elim
        nuca := fun _ _ _ _ => False.elim }
    exact left.afterInvRep_work ran

/-- Handling a message takes work off. -/
theorem Stable.work_lt (stable : Stable protocol .none sys sys.dir) (delivers : label.Delivers)
    (stepped : sys.step protocol label = .ok after) : after.work < sys.work := by
  cases label with
  | toDirectory cache =>
    cases sent : sys.up cache with
    | nil => simp [Sys.step, sent] at stepped
    | cons msg rest =>
      simp only [Sys.step, sent] at stepped
      obtain ⟨dir, ran, rfl⟩ := withDir_ok stepped
      have less : dir.work < sys.dir.work + msg.work n := by
        cases msg with
        | req msgType => exact Nat.lt_succ_of_le (handleReq_work ran)
        | invRep => exact Nat.lt_succ_of_le (stable.invRep_work sent ran)
        | flushRep data => exact Nat.lt_succ_of_le (stable.flushRep_work sent ran)
        | wbRep data => exact Nat.lt_succ_of_le (stable.wbRep_work sent ran)
      have popped := channelWork_pop (CacheMsg.work n) sent
      simp only [Sys.work]
      omega
  | toCache cache =>
    cases sent : sys.dir.down cache with
    | nil => simp [Sys.step, sent] at stepped
    | cons msg rest =>
      simp only [Sys.step, sent] at stepped
      obtain ⟨msgs, sends, less, _⟩ := deliver_sends (liftFault_ok stepped)
      have popped := channelWork_pop (DirMsg.work n) sent
      have pushed : _ + ((sys.up cache).map (CacheMsg.work n)).sum = _ :=
        channelWork_update (CacheMsg.work n) cache (sys.up cache ++ msgs)
      rw [List.map_append, List.sum_append] at pushed
      simp only [Sys.work, Dir.work, Dir.sentWork, sends.dir, sends.fromDram, sends.up]
      omega
  | dramServe =>
    cases sent : sys.dir.toDram with
    | nil => simp [Sys.step, sent] at stepped
    | cons msg rest =>
      simp only [Sys.step, sent] at stepped
      cases msg with
      | readReq =>
        cases stepped
        simp only [Sys.work, Dir.work, Dir.sentWork, sent, List.map_cons, List.sum_cons, DramMsg.work, List.length_append,
          List.length_singleton]
        omega
      | writeReq data =>
        cases stepped
        simp only [Sys.work, Dir.work, Dir.sentWork, sent, List.map_cons, List.sum_cons, DramMsg.work]
        omega
  | fromDram =>
    cases sent : sys.fromDram with
    | nil => simp [Sys.step, sent] at stepped
    | cons data rest =>
      simp only [Sys.step, sent] at stepped
      obtain ⟨dir, ran, rfl⟩ := withDir_ok stepped
      have less := dramReply_work ran
      simp only [Sys.work, sent, List.length_cons]
      omega
  | access | evict | allocate | nullify | nucaEvict => exact delivers.elim

/-- Along a run of deliveries the work bounds the deliveries still to come. -/
theorem deliveries_le_work {labels : List (Label n V)} (reached : (machine n V protocol hasNuca).Reachable sys)
    (delivers : ∀ label ∈ labels, label.Delivers)
    (ran : (machine n V protocol hasNuca).run sys labels = .ok after) : labels.length + after.work ≤ sys.work := by
  exact Machine.run_length_add_le _ Sys.work (fun _ label _ reached stepped => reached.step label trivial stepped)
    (fun _ _ _ reached delivers stepped => (Stable.reachable reached).work_lt delivers stepped) reached delivers ran

end Runs

end Sniper.Directory

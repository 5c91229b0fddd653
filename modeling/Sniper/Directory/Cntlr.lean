import Sniper.Directory.Entry

/-! The directory controller's handlers for one address.

Every handler works on `Dir`: the directory entry of the address, its request
queue, and the messages already handed to the network.  All calls of
`processNextReqFromL2Cache` are tail calls, so a handler takes the rest of the
work as the argument `next`. -/

namespace Sniper.Directory

/-- A buffer of one cache line.  The contents are indeterminate before the first
write to the buffer and after it is freed. -/
inductive LineBuf (V : Type) where
  | indeterminate
  | bytes (value : V)
deriving DecidableEq, Repr

def LineBuf.map {V : Type} (store : V → V) : LineBuf V → LineBuf V
  | .indeterminate => .indeterminate
  | .bytes value => .bytes (store value)

/-- The message types a `ShmemReq` can have. -/
inductive ReqType where
  | exReq
  | shReq
  | upgradeReq
  | nullifyReq
deriving DecidableEq, Repr

/-- Messages of the tag directory to a last-level cache. -/
inductive DirMsg (V : Type) where
  | exRep (data : LineBuf V)
  | shRep (data : LineBuf V)
  | upgradeRep
  | invReq
  | flushReq
  | wbReq
deriving DecidableEq, Repr

/-- Messages of the tag directory to the DRAM controller. -/
inductive DramMsg (V : Type) where
  | readReq
  | writeReq (data : LineBuf V)
deriving DecidableEq, Repr

/-- `ShmemReq` with the fields of its message that the controller reads. -/
structure ShmemReq (n : Nat) (V : Type) where
  msgType : ReqType
  requester : Fin n
  dataBuf : Option (LineBuf V) := none
  waitForData : Bool := false
  forwardingFrom : Option (Fin n) := none

/-- What the controller does with the requests of the address, in order. -/
inductive Event (n : Nat) where
  | enqueued (msgType : ReqType) (requester : Fin n)
  | serving (msgType : ReqType) (requester : Fin n)
  | replied (receiver : Fin n)
  | dequeued
deriving DecidableEq, Repr

structure Dir (n : Nat) (V : Type) where
  entry : Option (DirectoryEntry n)
  queue : List (ShmemReq n V)
  down : Fin n → List (DirMsg V)
  toDram : List (DramMsg V)
  hasNuca : Bool
  nuca : Option (LineBuf V)
  log : List (Event n)

variable {n : Nat} {V : Type}

namespace Dir

def sendMsg (dir : Dir n V) (receiver : Fin n) (msg : DirMsg V) : Dir n V :=
  { dir with down := Function.update dir.down receiver (dir.down receiver ++ [msg]) }

/-- The loops that send one request to every cache of a sharers list. -/
def sendEach (dir : Dir n V) (receivers : List (Fin n)) (msg : DirMsg V) : Dir n V :=
  receivers.foldl (fun dir receiver => dir.sendMsg receiver msg) dir

/-- `EX_REP`, `SH_REP` or `UPGRADE_REP`. -/
def reply (dir : Dir n V) (receiver : Fin n) (msg : DirMsg V) : Dir n V :=
  { dir.sendMsg receiver msg with log := dir.log ++ [.replied receiver] }

def serving (dir : Dir n V) (msgType : ReqType) (requester : Fin n) : Dir n V :=
  { dir with log := dir.log ++ [.serving msgType requester] }

def enqueue (dir : Dir n V) (req : ShmemReq n V) : Dir n V :=
  { dir with
    queue := dir.queue ++ [req]
    log := dir.log ++ [.enqueued req.msgType req.requester] }

def setFront (dir : Dir n V) (update : ShmemReq n V → ShmemReq n V) : Dir n V :=
  { dir with queue := dir.queue.modifyHead update }

/-- `getDirectoryEntry`, and `processDirectoryEntryAllocationReq` when there is none. -/
def getEntry (dir : Dir n V) : DirectoryEntry n := dir.entry.getD .new

def setEntry (dir : Dir n V) (entry : DirectoryEntry n) : Dir n V :=
  { dir with entry := some entry }

def sendToOwner (dir : Dir n V) (entry : DirectoryEntry n) (msg : DirMsg V) :
    Except Fault (Dir n V) :=
  match entry.owner with
  | some owner => .ok (dir.sendMsg owner msg)
  | none => .error .sendToInvalidCore

/-- `sendDataToNUCA`: after the write the NUCA cache holds the line. -/
def sendDataToNUCA (dir : Dir n V) (data : LineBuf V) : Dir n V :=
  if dir.hasNuca then { dir with nuca := some data } else dir

def sendDataToDram (dir : Dir n V) (data : LineBuf V) : Dir n V :=
  if dir.hasNuca then dir.sendDataToNUCA data
  else { dir with toDram := dir.toDram ++ [.writeReq data] }

end Dir

section Handlers

variable (protocol : Protocol) (next : Dir n V → Except Fault (Dir n V))

/-- `retrieveDataAndSendToL2Cache`; `replyMsg` is the reply type, `EX_REP` or `SH_REP`. -/
def retrieveDataAndSendToL2Cache (dir : Dir n V) (replyMsg : LineBuf V → DirMsg V)
    (receiver : Fin n) (cachedDataBuf : Option (LineBuf V)) : Except Fault (Dir n V) :=
  match dir.entry with
  | none => .error .noDirectoryEntry
  | some entry =>
    match cachedDataBuf, dir.nuca with
    | some data, _ =>
      next ((dir.setEntry { entry with forwarder := .core receiver }).reply receiver (replyMsg data))
    | none, some data => next (dir.reply receiver (replyMsg data))
    | none, none =>
      match dir.queue with
      | [] => .error .emptyReqQueue
      | req :: _ =>
        if protocol = .mesif ∧ req.forwardingFrom = none ∧ entry.dstate = .shared ∧
            entry.forwarder ≠ .invalid then
          match entry.forwarder with
          | .core forwarder =>
            .ok ((dir.setFront fun req => { req with forwardingFrom := some forwarder }).sendMsg
              forwarder .wbReq)
          | _ => .error .uninitialisedForwarder
        else
          let dir := dir.setFront fun req => { req with waitForData := true }
          .ok { dir with toDram := dir.toDram ++ [.readReq] }

def processNullifyReq (dir : Dir n V) (requester : Fin n) : Except Fault (Dir n V) :=
  let dir := dir.serving .nullifyReq requester
  match dir.entry with
  | none => .error .noDirectoryEntry
  | some entry =>
    match entry.dstate with
    | .exclusive | .modified => dir.sendToOwner entry .flushReq
    | .shared => .ok (dir.sendEach entry.getSharersList .invReq)
    | .uncached => next { dir with entry := none }
    | .owned => .error .unsupportedDState

def processExReqFromL2Cache (dir : Dir n V) (requester : Fin n)
    (cachedDataBuf : Option (LineBuf V)) : Except Fault (Dir n V) := do
  let dir := (dir.serving .exReq requester).setEntry dir.getEntry
  let entry := dir.getEntry
  match entry.dstate with
  | .exclusive | .modified =>
    assertThat (cachedDataBuf.isNone) .cachedDataBuf
    dir.sendToOwner entry .flushReq
  | .shared =>
    assertThat (cachedDataBuf.isNone) .cachedDataBuf
    return dir.sendEach entry.getSharersList .invReq
  | .uncached =>
    let entry ← entry.addSharer requester
    let entry ← entry.setOwner requester
    retrieveDataAndSendToL2Cache protocol next (dir.setEntry { entry with dstate := .modified })
      .exRep requester cachedDataBuf
  | .owned => throw .unsupportedDState

def processShReqFromL2Cache (dir : Dir n V) (requester : Fin n)
    (cachedDataBuf : Option (LineBuf V)) : Except Fault (Dir n V) := do
  let dir := (dir.serving .shReq requester).setEntry dir.getEntry
  let entry := dir.getEntry
  match entry.dstate with
  | .exclusive =>
    assertThat (entry.owner ≠ some requester) .requesterIsOwner
    assertThat (cachedDataBuf.isNone) .cachedDataBuf
    dir.sendToOwner entry .wbReq
  | .modified =>
    assertThat (cachedDataBuf.isNone) .cachedDataBuf
    dir.sendToOwner entry .wbReq
  | .shared =>
    if entry.hasSharer requester then
      retrieveDataAndSendToL2Cache protocol next dir .shRep requester cachedDataBuf
    else
      let entry ← entry.addSharer requester
      retrieveDataAndSendToL2Cache protocol next (dir.setEntry entry) .shRep requester cachedDataBuf
  | .uncached =>
    let entry ← entry.addSharer requester
    let entry ← entry.setOwner requester
    if protocol = .msi then
      retrieveDataAndSendToL2Cache protocol next (dir.setEntry { entry with dstate := .shared })
        .shRep requester cachedDataBuf
    else
      retrieveDataAndSendToL2Cache protocol next (dir.setEntry { entry with dstate := .exclusive })
        .exRep requester cachedDataBuf
  | .owned => throw .unsupportedDState

/-- The requests of an upgrade to the other sharers: when the requester lost its
copy, the first sharer is asked to flush so that the data need not come from DRAM. -/
def sendUpgradeInvs (dir : Dir n V) (entry : DirectoryEntry n) (requester : Fin n) : Dir n V :=
  match entry.getSharersList with
  | [] => dir
  | first :: rest =>
    if entry.hasSharer requester then
      dir.sendEach ((first :: rest).filter (· ≠ requester)) .invReq
    else
      (dir.sendMsg first .flushReq).sendEach rest .invReq

/-- `processUpgradeReqFromL2Cache`; `msgDataBuf` is the data buffer of the request's message. -/
def processUpgradeReqFromL2Cache (dir : Dir n V) (requester : Fin n) (msgDataBuf : Option (LineBuf V))
    (cachedDataBuf : Option (LineBuf V)) : Except Fault (Dir n V) := do
  let dir := (dir.serving .upgradeReq requester).setEntry dir.getEntry
  let entry := dir.getEntry
  match entry.dstate with
  | .exclusive | .modified =>
    match entry.getSharersList with
    | [] => throw .noSharer
    | first :: _ =>
      if first = requester then
        assertThat (entry.owner = some requester) .upgradeOwner
        next ((dir.reply requester .upgradeRep).setEntry { entry with dstate := .modified })
      else
        dir.sendToOwner entry .flushReq
  | .shared =>
    if entry.getSharersList = [requester] then
      let entry ← entry.setOwner requester
      next ((dir.setEntry { entry with dstate := .modified }).reply requester .upgradeRep)
    else
      return sendUpgradeInvs dir entry requester
  | .uncached =>
    assertThat (entry.getSharersList = []) .uncachedWithSharers
    let entry ← entry.addSharer requester
    let entry ← entry.setOwner requester
    retrieveDataAndSendToL2Cache protocol next (dir.setEntry { entry with dstate := .modified })
      .exRep requester (cachedDataBuf <|> msgDataBuf)
  | .owned => throw .unsupportedDState

/-- The dispatch on the type of the request at the head of the queue. -/
def processReq (dir : Dir n V) (req : ShmemReq n V) (cachedDataBuf : Option (LineBuf V)) :
    Except Fault (Dir n V) :=
  match req.msgType with
  | .exReq => processExReqFromL2Cache protocol next dir req.requester cachedDataBuf
  | .shReq => processShReqFromL2Cache protocol next dir req.requester cachedDataBuf
  | .upgradeReq =>
    processUpgradeReqFromL2Cache protocol next dir req.requester req.dataBuf cachedDataBuf
  | .nullifyReq => processNullifyReq next dir req.requester

end Handlers

/-- `processNextReqFromL2Cache`.  Each round removes one request, so the length of
the queue bounds the recursion. -/
def processNextReqFromL2Cache (protocol : Protocol) : Nat → Dir n V → Except Fault (Dir n V)
  | 0, _ => .error .emptyReqQueue
  | fuel + 1, dir =>
    match dir.queue with
    | [] => .error .emptyReqQueue
    | _ :: rest =>
      let dir := { dir with queue := rest, log := dir.log ++ [.dequeued] }
      match rest with
      | [] => .ok dir
      | req :: _ =>
        if req.msgType = .nullifyReq then .error .unrecognizedRequest
        else processReq protocol (processNextReqFromL2Cache protocol fuel) dir req none

section Messages

variable (protocol : Protocol)

/-- The rest of the work after the request at the head of the queue is complete. -/
def Dir.next (dir : Dir n V) : Except Fault (Dir n V) :=
  processNextReqFromL2Cache protocol dir.queue.length dir

/-- `EX_REQ`, `SH_REQ` and `UPGRADE_REQ` in `handleMsgFromL2Cache`. -/
def handleReqFromL2Cache (dir : Dir n V) (sender : Fin n) (msgType : ReqType) :
    Except Fault (Dir n V) :=
  let req : ShmemReq n V := { msgType, requester := sender }
  let dir := dir.enqueue req
  if dir.queue.length = 1 then processReq protocol (Dir.next protocol) dir req none else .ok dir

/-- The `NULLIFY_REQ` that `processDirectoryEntryAllocationReq` issues when another
address takes over this entry. -/
def nullifyEntry (dir : Dir n V) (requester : Fin n) : Except Fault (Dir n V) :=
  let req : ShmemReq n V := { msgType := .nullifyReq, requester }
  processReq protocol (Dir.next protocol) (dir.enqueue req) req none

def processInvRepFromL2Cache (dir : Dir n V) (sender : Fin n) : Except Fault (Dir n V) := do
  match dir.entry with
  | none => throw .noDirectoryEntry
  | some entry =>
    assertThat (entry.dstate = .shared ∨ entry.dstate = .exclusive) .invRepDState
    let entry ← entry.removeSharer sender
    let entry := if entry.forwarder = .core sender then { entry with forwarder := .invalid } else entry
    let entry := if entry.getNumSharers = 0 then { entry with dstate := .uncached } else entry
    let dir := dir.setEntry entry
    match dir.queue with
    | [] => return dir
    | req :: _ =>
      match req.msgType with
      | .exReq | .nullifyReq =>
        if entry.dstate = .uncached then processReq protocol (Dir.next protocol) dir req none
        else return dir
      | .upgradeReq =>
        if entry.getNumSharers = 1 then
          if entry.hasSharer req.requester then
            processReq protocol (Dir.next protocol) dir req none
          else return dir
        else if entry.getNumSharers = 0 then
          processReq protocol (Dir.next protocol) dir req none
        else return dir
      | .shReq =>
        if req.waitForData then return dir
        else if req.forwardingFrom ≠ none ∧ req.forwardingFrom ≠ some sender then return dir
        else processReq protocol (Dir.next protocol) dir req none

def processFlushRepFromL2Cache (dir : Dir n V) (sender : Fin n) (data : LineBuf V) :
    Except Fault (Dir n V) := do
  match dir.entry with
  | none => throw .noDirectoryEntry
  | some entry =>
    assertThat (entry.hasSharer sender) .senderNotSharer
    let entry ← entry.removeSharer sender
    let entry := { entry with forwarder := .invalid, owner := none }
    let entry ←
      if entry.getNumSharers = 0 then pure { entry with dstate := .uncached }
      else do
        assertThat (entry.dstate = .shared) .flushRepDState
        pure entry
    let dir := dir.setEntry entry
    match dir.queue with
    | [] => return dir.sendDataToDram data
    | req :: _ =>
      match req.msgType with
      | .exReq => processReq protocol (Dir.next protocol) dir req (some data)
      | .shReq => processReq protocol (Dir.next protocol) (dir.sendDataToDram data) req (some data)
      | .upgradeReq =>
        if entry.getNumSharers = 0 then
          processReq protocol (Dir.next protocol) dir req (some data)
        else
          -- The request keeps a pointer to the buffer of this message, which
          -- handleMsgFromNetwork frees as soon as the handler returns.
          return dir.setFront fun req => { req with dataBuf := some .indeterminate }
      | .nullifyReq => processReq protocol (Dir.next protocol) (dir.sendDataToDram data) req none

def processWbRepFromL2Cache (dir : Dir n V) (sender : Fin n) (data : LineBuf V) :
    Except Fault (Dir n V) := do
  match dir.entry with
  | none => throw .noDirectoryEntry
  | some entry =>
    assertThat (entry.hasSharer sender) .senderNotSharer
    let dir := dir.setEntry { entry with owner := none, dstate := .shared }
    match dir.queue with
    | [] => throw .wbRepNoRequest
    | req :: _ =>
      assertThat (req.msgType = .shReq) .wbRepReqType
      processReq protocol (Dir.next protocol) dir req (some data)

def processDRAMReply (dir : Dir n V) (data : LineBuf V) : Except Fault (Dir n V) := do
  match dir.queue with
  | [] => throw .emptyReqQueue
  | req :: _ =>
    match dir.entry with
    | none => throw .noDirectoryEntry
    | some entry =>
      let replyMsg : LineBuf V → DirMsg V ←
        match req.msgType with
        | .shReq => do
            assertThat (entry.dstate = .shared ∨ entry.dstate = .exclusive) .dramReplyDState
            pure (if entry.dstate = .exclusive then .exRep else .shRep)
        | .exReq => do
            assertThat (entry.dstate = .modified) .dramReplyDState
            pure .exRep
        | .upgradeReq => pure .exRep
        | .nullifyReq => throw .unrecognizedRequest
      Dir.next protocol ((dir.reply req.requester (replyMsg data)).sendDataToNUCA data)

end Messages

end Sniper.Directory

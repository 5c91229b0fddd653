import Sniper.Cache.State
import Sniper.Directory.Cntlr
import Sniper.Library.Machine

/-! The directory protocol for one cache line.

The parties are `n` last-level caches, the home directory controller and the DRAM
controller.  A last-level cache stands for the private hierarchy below it: its data
is what `updateCacheBlock` would hand out.  Every channel is a FIFO list. -/

namespace Sniper.Directory

/-- Messages of a last-level cache to the tag directory. -/
inductive CacheMsg (V : Type) where
  | req (msgType : ReqType)
  | invRep
  | flushRep (data : LineBuf V)
  | wbRep (data : LineBuf V)
deriving DecidableEq, Repr

/-- One last-level cache: its copy of the line and its `m_directory_waiters` for it. -/
structure Llc (V : Type) where
  cstate : CState
  data : LineBuf V
  waiters : List (MemOp V)

structure Sys (n : Nat) (V : Type) where
  dir : Dir n V
  llc : Fin n → Llc V
  up : Fin n → List (CacheMsg V)
  fromDram : List (LineBuf V)
  dram : LineBuf V
  /-- The value the line should have: the last one written to it. -/
  last : V

/-- Why a step is not taken. -/
inductive Stop where
  | disabled
  | fault (fault : Fault)
deriving DecidableEq, Repr

inductive Label (n : Nat) (V : Type) where
  /-- A request of some core below the cache that misses in its private levels. -/
  | access (cache : Fin n) (op : MemOp V)
  /-- The cache drops the line to make room for another one. -/
  | evict (cache : Fin n)
  /-- The directory handles the next message of the cache. -/
  | toDirectory (cache : Fin n)
  /-- The cache handles the next message of the directory. -/
  | toCache (cache : Fin n)
  /-- The DRAM controller handles the next message of the directory. -/
  | dramServe
  /-- The directory handles the next reply of the DRAM controller. -/
  | fromDram
  /-- The directory takes a free way for the address. -/
  | allocate
  /-- The directory gives the way of the address to another address. -/
  | nullify (requester : Fin n)
  /-- The NUCA cache replaces the line. -/
  | nucaEvict (dirty : Bool)

variable {n : Nat} {V : Type}

def liftFault {α : Type} : Except Fault α → Except Stop α
  | .ok value => .ok value
  | .error fault => .error (.fault fault)

namespace Sys

def initial (hasNuca : Bool) (value : V) : Sys n V where
  dir :=
    { entry := none, queue := [], down := fun _ => [], toDram := [], hasNuca, nuca := none, log := [] }
  llc := fun _ => { cstate := .invalid, data := .indeterminate, waiters := [] }
  up := fun _ => []
  fromDram := []
  dram := .bytes value
  last := value

def setLlc (sys : Sys n V) (cache : Fin n) (llc : Llc V) : Sys n V :=
  { sys with llc := Function.update sys.llc cache llc }

def send (sys : Sys n V) (cache : Fin n) (msg : CacheMsg V) : Sys n V :=
  { sys with up := Function.update sys.up cache (sys.up cache ++ [msg]) }

def perform (sys : Sys n V) (cache : Fin n) (op : MemOp V) : Sys n V :=
  let llc := sys.llc cache
  { sys.setLlc cache { llc with data := llc.data.map op.apply } with last := op.apply sys.last }

def processUpgradeReqToDirectory (sys : Sys n V) (cache : Fin n) : Sys n V :=
  (sys.setLlc cache { sys.llc cache with cstate := .sharedUpgrading }).send cache (.req .upgradeReq)

def initiateDirectoryAccess (sys : Sys n V) (cache : Fin n) (op : MemOp V) : Except Fault (Sys n V) := do
  let llc := sys.llc cache
  let first := llc.waiters.isEmpty
  let sys := sys.setLlc cache { llc with waiters := llc.waiters ++ [op] }
  if first then
    if op.exclusive then
      if llc.cstate = .shared then
        return sys.processUpgradeReqToDirectory cache
      else
        assertThat (llc.cstate = .invalid) .exReqCState
        return sys.send cache (.req .exReq)
    else
      return sys.send cache (.req .shReq)
  else
    return sys

/-- The last-level part of `processShmemReqFromPrevCache`. -/
def processShmemReqFromPrevCache (sys : Sys n V) (cache : Fin n) (op : MemOp V) :
    Except Fault (Sys n V) :=
  let llc := sys.llc cache
  if operationPermissible op llc.cstate then
    .ok (sys.perform cache op)
  else if llc.cstate = .exclusive then
    .ok ((sys.setLlc cache { llc with cstate := .modified }).perform cache op)
  else
    sys.initiateDirectoryAccess cache op

/-- The last part of `insertCacheBlock` for a victim of a last-level cache.  The
replacement policies are meant not to pick a line that is being upgraded, so there is no such
step. -/
def evict (sys : Sys n V) (cache : Fin n) : Except Stop (Sys n V) :=
  let llc := sys.llc cache
  match llc.cstate with
  | .modified => .ok ((sys.setLlc cache { llc with cstate := .invalid }).send cache (.flushRep llc.data))
  | .shared | .exclusive =>
    .ok ((sys.setLlc cache { llc with cstate := .invalid }).send cache .invRep)
  | .invalid | .sharedUpgrading | .owned => .error .disabled

/-- The loop at the end of `handleMsgFromDramDirectory`: wake the waiters in order,
or ask for an upgrade on behalf of the first one that needs it. -/
def wakeWaiters (cache : Fin n) : List (MemOp V) → Sys n V → Except Fault (Sys n V)
  | [], sys => .ok sys
  | op :: rest, sys =>
    let llc := sys.llc cache
    if op.exclusive ∧ llc.cstate = .shared then
      .ok (sys.processUpgradeReqToDirectory cache)
    else if operationPermissible op llc.cstate ∨ llc.cstate = .exclusive then
      let cstate := if op.exclusive then .modified else llc.cstate
      wakeWaiters cache rest ((sys.setLlc cache { llc with cstate, waiters := rest }).perform cache op)
    else
      .error .dataAlreadyGone

/-- `processExRepFromDramDirectory` and `processShRepFromDramDirectory`. -/
def processRepFromDramDirectory (sys : Sys n V) (cache : Fin n) (cstate : CState) (data : LineBuf V) :
    Except Fault (Sys n V) := do
  assertThat (sys.llc cache).waiters.isEmpty.not .noDirectoryWaiter
  assertThat ((sys.llc cache).cstate = .invalid) .alreadyHaveLine
  wakeWaiters cache (sys.llc cache).waiters (sys.setLlc cache { sys.llc cache with cstate, data })

/-- `processUpgradeRepFromDramDirectory`; the message never has data. -/
def processUpgradeRepFromDramDirectory (sys : Sys n V) (cache : Fin n) : Except Fault (Sys n V) := do
  assertThat (sys.llc cache).waiters.isEmpty.not .noDirectoryWaiter
  match (sys.llc cache).cstate with
  | .invalid => throw .upgradeWithoutData
  | .sharedUpgrading =>
    wakeWaiters cache (sys.llc cache).waiters (sys.setLlc cache { sys.llc cache with cstate := .modified })
  | _ => throw .notUpgrading

def processInvReqFromDramDirectory (sys : Sys n V) (cache : Fin n) : Except Fault (Sys n V) := do
  let llc := sys.llc cache
  if llc.cstate = .invalid then
    return sys
  else
    assertThat (llc.cstate ≠ .modified) .modifiedDataLost
    return (sys.setLlc cache { llc with cstate := .invalid }).send cache .invRep

def processFlushReqFromDramDirectory (sys : Sys n V) (cache : Fin n) : Sys n V :=
  let llc := sys.llc cache
  if llc.cstate = .invalid then sys
  else (sys.setLlc cache { llc with cstate := .invalid }).send cache (.flushRep llc.data)

/-- `processWbReqFromDramDirectory`.  In state `SHARED_UPGRADING` the handler does not
call `updateCacheBlock`, so nothing writes the buffer it sends. -/
def processWbReqFromDramDirectory (sys : Sys n V) (cache : Fin n) : Sys n V :=
  let llc := sys.llc cache
  if llc.cstate = .invalid then sys
  else if llc.cstate = .sharedUpgrading then sys.send cache (.wbRep .indeterminate)
  else (sys.setLlc cache { llc with cstate := .shared }).send cache (.wbRep llc.data)

def handleMsgFromDramDirectory (sys : Sys n V) (cache : Fin n) : DirMsg V → Except Fault (Sys n V)
  | .exRep data => sys.processRepFromDramDirectory cache .exclusive data
  | .shRep data => sys.processRepFromDramDirectory cache .shared data
  | .upgradeRep => sys.processUpgradeRepFromDramDirectory cache
  | .invReq => sys.processInvReqFromDramDirectory cache
  | .flushReq => .ok (sys.processFlushReqFromDramDirectory cache)
  | .wbReq => .ok (sys.processWbReqFromDramDirectory cache)

def handleMsgFromL2Cache (protocol : Protocol) (dir : Dir n V) (sender : Fin n) :
    CacheMsg V → Except Fault (Dir n V)
  | .req msgType => handleReqFromL2Cache protocol dir sender msgType
  | .invRep => processInvRepFromL2Cache protocol dir sender
  | .flushRep data => processFlushRepFromL2Cache protocol dir sender data
  | .wbRep data => processWbRepFromL2Cache protocol dir sender data

def withDir (sys : Sys n V) (result : Except Fault (Dir n V)) : Except Stop (Sys n V) :=
  match result with
  | .ok dir => .ok { sys with dir }
  | .error fault => .error (.fault fault)

def step (protocol : Protocol) (sys : Sys n V) : Label n V → Except Stop (Sys n V)
  | .access cache op => liftFault (sys.processShmemReqFromPrevCache cache op)
  | .evict cache => sys.evict cache
  | .toDirectory cache =>
    match sys.up cache with
    | [] => .error .disabled
    | msg :: rest =>
      { sys with up := Function.update sys.up cache rest }.withDir
        (handleMsgFromL2Cache protocol sys.dir cache msg)
  | .toCache cache =>
    match sys.dir.down cache with
    | [] => .error .disabled
    | msg :: rest =>
      liftFault (handleMsgFromDramDirectory
        { sys with dir := { sys.dir with down := Function.update sys.dir.down cache rest } } cache msg)
  | .dramServe =>
    match sys.dir.toDram with
    | [] => .error .disabled
    | .readReq :: rest =>
      .ok { sys with dir := { sys.dir with toDram := rest }, fromDram := sys.fromDram ++ [sys.dram] }
    | .writeReq data :: rest => .ok { sys with dir := { sys.dir with toDram := rest }, dram := data }
  | .fromDram =>
    match sys.fromDram with
    | [] => .error .disabled
    | data :: rest => { sys with fromDram := rest }.withDir (processDRAMReply protocol sys.dir data)
  | .allocate =>
    if sys.dir.entry.isNone then .ok { sys with dir := sys.dir.setEntry .new } else .error .disabled
  | .nullify requester =>
    if sys.dir.queue = [] ∧ sys.dir.entry.isSome then
      sys.withDir (nullifyEntry protocol sys.dir requester)
    else .error .disabled
  | .nucaEvict dirty =>
    match sys.dir.nuca with
    | none => .error .disabled
    | some data =>
      let toDram := if dirty then sys.dir.toDram ++ [.writeReq data] else sys.dir.toDram
      .ok { sys with dir := { sys.dir with nuca := none, toDram } }

end Sys

/-- The protocol with `n` last-level caches, with or without a NUCA cache at the directory. -/
def machine (n : Nat) (V : Type) (protocol : Protocol) (hasNuca : Bool) :
    Machine (Sys n V) (Label n V) Stop where
  initial sys := ∃ value, sys = .initial hasNuca value
  step := Sys.step protocol

end Sniper.Directory

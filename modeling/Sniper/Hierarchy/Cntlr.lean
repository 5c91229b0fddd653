import Sniper.Cache.Storage
import Sniper.Library.Machine

/-! The cache controllers of the private hierarchies below the last-level caches.

The caches form trees: several caches of one level may share a cache of the next one.
Coherence states are all that is modelled of a line; the caches store no data unless faults are
injected.  Replacement policies, timing and statistics are left out: an operation says
which way a new line takes in each cache. -/

namespace Sniper.Hierarchy

/-- The caches of the simulated machine.  A node is a master cache; a core that shares it
talks to it through a controller of its own. -/
structure Topology (Addr : Type) where
  Node : Type
  decEq : DecidableEq Node
  geometry : Node → Geometry Addr
  /-- The next-level caches of a cache, up to its last-level cache. -/
  above : Node → List Node
  /-- `m_prev_cache_cntlrs`. -/
  prev : Node → List Node
  /-- The level of a cache: 0 for the first-level caches, 2 for an `L3_CACHE`. -/
  level : Node → Nat
  /-- Whether the last-level cache accesses DRAM without a directory. -/
  direct : Bool
  /-- Whether the assertion of `CacheSet::getBlockIndexForGivenTag` is on.  The index only selects a
  latency, so without the assertion a lookup has no effect. -/
  checksBlockIndex : Bool
  above_next : ∀ {node next rest}, above node = next :: rest → above next = rest
  mem_prev : ∀ {node next}, node ∈ prev next ↔ (above node).head? = some next
  prev_nodup : ∀ next, (prev next).Nodup
  level_next : ∀ {node next rest}, above node = next :: rest → level next = level node + 1

variable {Addr : Type} [DecidableEq Addr] {t : Topology Addr}

namespace Topology

instance : DecidableEq t.Node := t.decEq

/-- `m_next_cache_cntlr`. -/
def next (t : Topology Addr) (node : t.Node) : Option t.Node := (t.above node).head?

def isL3 (t : Topology Addr) (node : t.Node) : Bool := t.level node = 2

/-- The previous-level caches of a cache but the one of the requester. -/
def others (t : Topology Addr) (node : t.Node) (requester : Option t.Node) : List t.Node :=
  (t.prev node).filter fun prev => some prev ≠ requester

def L1 (t : Topology Addr) : Type := { node : t.Node // t.level node = 0 }

def Llc (t : Topology Addr) : Type := { node : t.Node // t.above node = [] }

end Topology

structure State (t : Topology Addr) where
  cache : (node : t.Node) → Cache (t.geometry node) Unit
  /-- `m_evicting_address`, while `m_evicting_buf` is set. -/
  evicting : t.Node → Option Addr

inductive Fault where
  /-- "writethrough expected a hit at next-level cache but got miss" -/
  | expectedHit
  /-- "Got writeback for non-MODIFIED line" -/
  | writebackNonModified
  /-- "we already have this line, can't add it again" -/
  | alreadyHaveLine
  /-- `assert(blockIndex != -1)` -/
  | blockIndex
  /-- `assert(old_cstate != CacheState::MODIFIED)` and the one below it, in `invalidateCacheBlock` -/
  | invalidateCState
  /-- "MODIFIED data is about to get lost!" -/
  | modifiedDataLost
  /-- "Cannot change block status to %c" -/
  | cannotChangeStatus
  /-- "out_buf passed in but never written to" -/
  | outBufNotWritten
  /-- "Tried to read from next-level cache, but data is already gone", "Line was not there after prefetch" -/
  | dataAlreadyGone
  /-- "Expected block to be there but it wasn't" -/
  | expectedBlock
  /-- "Expected %x to be valid in L1" -/
  | expectedValidInL1
  /-- "evict_address(0x%x), evict_state(%u)" -/
  | evictState
  /-- "Evicted address did not become invalid, now in state %s" -/
  | evictedNotInvalid
  /-- The assertions of `processExReqToDirectory` and `processUpgradeReqToDirectory` -/
  | requestCState
  /-- "Trying to upgrade a block that is not SHARED_UPGRADING but %c (%lx)" -/
  | notUpgrading
  /-- A first-level cache without a next level -/
  | noNextLevel
deriving DecidableEq, Repr

structure Request (t : Topology Addr) where
  op : MemOp Unit
  address : Addr
  /-- The answer of the replacement policy of each cache. -/
  way : (node : t.Node) → Fin (t.geometry node).associativity
  /-- Whether the controller of the requesting core is the one of the master cache. -/
  isMaster : t.Node → Bool
  /-- Whether no other request for the address waits for the directory. -/
  first : Bool
  modeled : Bool

/-- The entry of the `m_prev_cache_cntlrs` of the next level that the requesting controller is. -/
def Request.cntlr (req : Request t) (node : t.Node) : Option t.Node :=
  if req.isMaster node then some node else none

namespace State

def initial (t : Topology Addr) : State t where
  cache := fun node => .empty (t.geometry node) Unit
  evicting := fun _ => none

def setCache (state : State t) (node : t.Node) (cache : Cache (t.geometry node) Unit) : State t :=
  { state with cache := Function.update state.cache node cache }

def setEvicting (state : State t) (node : t.Node) (address : Option Addr) : State t :=
  { state with evicting := Function.update state.evicting node address }

def getCacheBlockInfo (state : State t) (node : t.Node) (address : Addr) : Option (Block Addr Unit) :=
  (state.cache node).peekSingleLine address

def getCacheState (state : State t) (node : t.Node) (address : Addr) : CState :=
  (state.cache node).cstate address

def setCacheState (state : State t) (node : t.Node) (address : Addr) (cstate : CState) : State t :=
  state.setCache node ((state.cache node).setCState address cstate)

/-- `Cache::getBlockIndex` as the controllers use it, on L3 caches only. -/
def getBlockIndex (node : t.Node) (address : Addr) (state : State t) : Except Fault (State t) :=
  if t.isL3 node ∧ t.checksBlockIndex ∧ (state.getCacheBlockInfo node address).isNone then .error .blockIndex
  else .ok state

def invalidateCacheBlock (node : t.Node) (address : Addr) (state : State t) : Except Fault (State t) :=
  let cstate := state.getCacheState node address
  if cstate = .modified ∨ cstate = .invalid then .error .invalidateCState
  else .ok (state.setCache node ((state.cache node).invalidateSingleLine address))

/-- `retrieveCacheBlock`, of which only the assertion is left. -/
def retrieveCacheBlock (node : t.Node) (address : Addr) (state : State t) : Except Fault (State t) :=
  if (state.getCacheBlockInfo node address).isSome then .ok state else .error .expectedBlock

def writeCacheBlock (node : t.Node) (address : Addr) (state : State t) : Except Fault (State t) := do
  let state ← state.getBlockIndex node address
  if state.evicting node = some address then .ok state
  else
    match state.getCacheBlockInfo node address with
    | none => .error .expectedHit
    | some block => if block.cstate = .modified then .ok state else .error .writebackNonModified

/-- The dirty case of `updateCacheBlock`. -/
def writeBackBlock (address : Addr) (outBuf : Bool) (node : t.Node) (state : State t) :
    Except Fault (State t) :=
  if state.getCacheState node address = .modified then do
    let state ← (match t.next node with
      | some next => state.writeCacheBlock next address
      | none => if outBuf then .ok state else .error .modifiedDataLost)
    Except.ok (state.setCacheState node address .shared)
  else .ok state

/-- The change of the state in `updateCacheBlock`. -/
def changeBlock (address : Addr) (newCState : CState) (outBuf : Bool) (node : t.Node) (state : State t) :
    Except Fault (State t) :=
  match newCState with
  | .invalid => state.invalidateCacheBlock node address
  | .shared => .ok (state.setCacheState node address .shared)
  | .modified =>
    if outBuf then .error .outBufNotWritten else .ok (state.setCacheState node address .modified)
  | _ => .error .cannotChangeStatus

/-- The part of `updateCacheBlock` that follows the previous levels.  With an `out_buf` a
last-level cache can be told to become `MODIFIED` only when it is, or the buffer stays unwritten. -/
def updateOwnBlock (address : Addr) (newCState : CState) (outBuf : Bool) (node : t.Node) (state : State t) :
    Except Fault (State t) :=
  match state.getCacheBlockInfo node address with
  | none => if outBuf then .error .outBufNotWritten else .ok state
  | some block =>
    if newCState = block.cstate ∧ outBuf then .ok state
    else do
      let state ← state.writeBackBlock address outBuf node
      state.changeBlock address newCState outBuf node

/-- `updateCacheBlock` on a cache of the given level, with or without an `out_buf`. -/
def updateCacheBlock (address : Addr) (newCState : CState) (outBuf : Bool) :
    (level : Nat) → t.Node → State t → Except Fault (State t)
  | 0, node, state => state.updateOwnBlock address newCState outBuf node
  | level + 1, node, state => do
      let state ← (t.prev node).foldlM
        (fun state prev => updateCacheBlock address newCState false level prev state) state
      state.updateOwnBlock address newCState outBuf node

/-- `updateCacheBlock` on previous-level caches. -/
def updateEach (caches : List t.Node) (address : Addr) (newCState : CState) (state : State t) :
    Except Fault (State t) :=
  caches.foldlM (fun state prev => updateCacheBlock address newCState false (t.level prev) prev state) state

/-- The loops over all previous-level caches but the one of the requester. -/
def updateOthers (node : t.Node) (requester : Option t.Node) (address : Addr) (newCState : CState)
    (state : State t) : Except Fault (State t) :=
  state.updateEach (t.others node requester) address newCState

/-- "now properly get rid of the evicted line": it goes to the next level, to DRAM or to the directory. -/
def getRidOf (node : t.Node) (evicted : Block Addr Unit) (state : State t) : Except Fault (State t) :=
  match t.next node with
  | some next => if evicted.cstate = .modified then state.writeCacheBlock next evicted.tag else .ok state
  | none =>
    if t.direct ∨ evicted.cstate = .modified ∨ evicted.cstate = .shared ∨ evicted.cstate = .exclusive
    then .ok state
    else .error .evictState

/-- What `insertCacheBlock` does about the line that had to go. -/
def evictCacheBlock (node : t.Node) (evicted : Block Addr Unit) (state : State t) :
    Except Fault (State t) := do
  let state ← (state.setEvicting node (some evicted.tag)).updateEach (t.prev node) evicted.tag .invalid
  let state ← (state.setEvicting node none).getRidOf node evicted
  if state.getCacheState node evicted.tag = .invalid then .ok state else .error .evictedNotInvalid

def insertCacheBlock (node : t.Node) (address : Addr) (cstate : CState)
    (way : Fin (t.geometry node).associativity) (state : State t) : Except Fault (State t) :=
  if state.getCacheState node address ≠ .invalid then .error .alreadyHaveLine
  else
    let inserted := (state.cache node).insertSingleLine address () way
    do
      let state ← ((state.setCache node inserted.1).setCacheState node address cstate).getBlockIndex node address
      match inserted.2 with
      | none => .ok state
      | some evicted => state.evictCacheBlock node evicted

def copyDataFromNextLevel (req : Request t) (node next : t.Node) (state : State t) :
    Except Fault (State t) :=
  let cstate := state.getCacheState next req.address
  if operationPermissible req.op cstate = false then .error .dataAlreadyGone
  else
    match state.getCacheBlockInfo node req.address with
    | some _ => state.updateCacheBlock req.address cstate false (t.level node) node
    | none => state.insertCacheBlock node req.address cstate (req.way node)

/-- `initiateDirectoryAccess`, with the requests it sends.  The messages are not modelled. -/
def initiateDirectoryAccess (req : Request t) (node : t.Node) (state : State t) : Except Fault (State t) :=
  if req.first ∧ req.op.exclusive then
    let cstate := state.getCacheState node req.address
    if cstate = .shared then .ok (state.setCacheState node req.address .sharedUpgrading)
    else if cstate = .invalid then .ok state
    else .error .requestCState
  else .ok state

/-- A hit in `processShmemReqFromPrevCache`. -/
def hit (req : Request t) (node : t.Node) (requester : Option t.Node) (state : State t) :
    Except Fault (State t) :=
  let cstate := state.getCacheState node req.address
  match req.op with
  | .read =>
    if cstate = .modified ∨ cstate = .exclusive then state.updateOthers node requester req.address .shared
    else .ok state
  | .readEx => state.updateOthers node requester req.address .invalid
  | .write _ => do
      let state ← (if req.modeled then state.getBlockIndex node req.address else .ok state)
      state.updateOthers node requester req.address .invalid

/-- A miss of the last-level cache in `processShmemReqFromPrevCache`, and whether it was served. -/
def lastLevelMiss (req : Request t) (node : t.Node) (requester : Option t.Node) (state : State t) :
    Except Fault (State t × Bool) :=
  match state.getCacheBlockInfo node req.address with
  | some block =>
    if block.cstate = .exclusive then do
      let state ← state.updateOthers node requester req.address .invalid
      Except.ok (state.setCacheState node req.address .modified, true)
    else if t.direct then .ok (state.setCacheState node req.address .modified, true)
    else do
      let state ← state.initiateDirectoryAccess req node
      Except.ok (state, false)
  | none =>
    if t.direct then do
      let cstate := if req.op.exclusive then .modified else .shared
      let state ← state.insertCacheBlock node req.address cstate (req.way node)
      Except.ok (state, true)
    else do
      let state ← state.initiateDirectoryAccess req node
      Except.ok (state, false)

/-- A cache and its next levels handle a request of a previous-level cache.  The result is false
after a miss in the last-level cache that went to the directory. -/
def processShmemReqFromPrevCache (req : Request t) :
    List t.Node → Option t.Node → State t → Except Fault (State t × Bool)
  | [], _, _ => .error .noNextLevel
  | node :: rest, requester, state =>
    if operationPermissible req.op (state.getCacheState node req.address) then do
      let state ← state.hit req node requester
      let state ← state.retrieveCacheBlock node req.address
      Except.ok (state, true)
    else do
      let block := state.getCacheBlockInfo node req.address
      let state ← (if block.map Block.cstate = some .shared
        then state.updateOthers node requester req.address .invalid else .ok state)
      let (state, served) ← (match rest with
        | [] => state.lastLevelMiss req node requester
        | next :: _ => do
            let state ← (if block.isSome then state.invalidateCacheBlock node req.address else .ok state)
            let (state, served) ← processShmemReqFromPrevCache req rest (req.cntlr node) state
            if served then do
              let state ← state.copyDataFromNextLevel req node next
              Except.ok (state, true)
            else Except.ok (state, false))
      if served then do
        let state ← state.retrieveCacheBlock node req.address
        Except.ok (state, true)
      else Except.ok (state, false)

/-- The end of a miss in `processMemOpFromCore`. -/
def finishMiss (req : Request t) (node next : t.Node) (state : State t) : Except Fault (State t) := do
  let state ← state.copyDataFromNextLevel req node next
  if operationPermissible req.op (state.getCacheState node req.address) then .ok state
  else .error .expectedValidInL1

/-- `processMemOpFromCore` up to its end, or up to the point where it waits for the directory. -/
def processMemOpFromCore (req : Request t) (node : t.Node) (state : State t) : Except Fault (State t) :=
  if operationPermissible req.op (state.getCacheState node req.address) then .ok state
  else
    match t.above node with
    | [] => .error .noNextLevel
    | next :: rest => do
        let state ← (if state.getCacheState node req.address ≠ .invalid
          then state.invalidateCacheBlock node req.address else .ok state)
        let (state, served) ← state.processShmemReqFromPrevCache req (next :: rest) (req.cntlr node)
        if served then state.finishMiss req node next else .ok state

/-- The rest of `processMemOpFromCore` once the directory has answered. -/
def resumeMemOpFromCore (req : Request t) (node : t.Node) (state : State t) : Except Fault (State t) :=
  match t.above node with
  | [] => .error .noNextLevel
  | next :: rest => do
      let (state, served) ← state.processShmemReqFromPrevCache { req with modeled := false } (next :: rest)
        (req.cntlr node)
      if served then state.finishMiss req node next else .error .dataAlreadyGone

/-- `doPrefetch` up to its end, or up to the point where it waits for the directory.  The
requester is the cache itself, which is none of its previous-level caches. -/
def doPrefetch (req : Request t) (node : t.Node) (state : State t) : Except Fault (State t) := do
  let (state, _) ← state.processShmemReqFromPrevCache { req with op := .read } (node :: t.above node) none
  Except.ok state

/-- The rest of `doPrefetch` once the directory has answered. -/
def resumePrefetch (req : Request t) (node : t.Node) (state : State t) : Except Fault (State t) := do
  let (state, served) ← state.processShmemReqFromPrevCache { req with op := .read, modeled := false }
    (node :: t.above node) none
  if served then .ok state else .error .dataAlreadyGone

def processUpgradeRepFromDramDirectory (node : t.Node) (address : Addr) (state : State t) :
    Except Fault (State t) :=
  match state.getCacheState node address with
  | .invalid => state.updateCacheBlock address .modified true (t.level node) node
  | .sharedUpgrading => state.updateCacheBlock address .modified false (t.level node) node
  | _ => .error .notUpgrading

def processInvReqFromDramDirectory (node : t.Node) (address : Addr) (state : State t) :
    Except Fault (State t) :=
  if state.getCacheState node address = .invalid then .ok state
  else state.updateCacheBlock address .invalid false (t.level node) node

def processFlushReqFromDramDirectory (node : t.Node) (address : Addr) (state : State t) :
    Except Fault (State t) :=
  if state.getCacheState node address = .invalid then .ok state
  else state.updateCacheBlock address .invalid true (t.level node) node

def processWbReqFromDramDirectory (node : t.Node) (address : Addr) (state : State t) :
    Except Fault (State t) :=
  let cstate := state.getCacheState node address
  if cstate = .invalid ∨ cstate = .sharedUpgrading then .ok state
  else state.updateCacheBlock address .shared true (t.level node) node

/-- `processUpgradeReqToDirectory`, for the next waiter in `handleMsgFromDramDirectory`. -/
def processUpgradeReqToDirectory (node : t.Node) (address : Addr) (state : State t) :
    Except Fault (State t) :=
  if state.getCacheState node address = .shared then
    .ok (state.setCacheState node address .sharedUpgrading)
  else .error .requestCState

end State

/-- What the cores, the prefetchers and the directory do to the caches. -/
inductive Label (t : Topology Addr) where
  | access (node : t.L1) (req : Request t)
  | resume (node : t.L1) (req : Request t)
  | prefetch (node : t.Node) (req : Request t)
  | resumePrefetch (node : t.Node) (req : Request t)
  | exRep (node : t.Llc) (address : Addr) (way : Fin (t.geometry node.1).associativity)
  | shRep (node : t.Llc) (address : Addr) (way : Fin (t.geometry node.1).associativity)
  | upgradeRep (node : t.Llc) (address : Addr)
  | invReq (node : t.Llc) (address : Addr)
  | flushReq (node : t.Llc) (address : Addr)
  | wbReq (node : t.Llc) (address : Addr)
  | upgradeReq (node : t.Llc) (address : Addr)

def State.step (state : State t) : Label t → Except Fault (State t)
  | .access node req => state.processMemOpFromCore req node.1
  | .resume node req => state.resumeMemOpFromCore req node.1
  | .prefetch node req => state.doPrefetch req node
  | .resumePrefetch node req => state.resumePrefetch req node
  | .exRep node address way => state.insertCacheBlock node.1 address .exclusive way
  | .shRep node address way => state.insertCacheBlock node.1 address .shared way
  | .upgradeRep node address => state.processUpgradeRepFromDramDirectory node.1 address
  | .invReq node address => state.processInvReqFromDramDirectory node.1 address
  | .flushReq node address => state.processFlushReqFromDramDirectory node.1 address
  | .wbReq node address => state.processWbReqFromDramDirectory node.1 address
  | .upgradeReq node address => state.processUpgradeReqToDirectory node.1 address

def machine (t : Topology Addr) : Machine (State t) (Label t) Fault where
  initial state := state = .initial t
  step := State.step

/-- The directory answers a request for a line only while the last-level cache does not
hold it. -/
def Answers (state : State t) : Label t → Prop
  | .exRep node address _ | .shRep node address _ => state.getCacheState node.1 address = .invalid
  | _ => True

end Sniper.Hierarchy

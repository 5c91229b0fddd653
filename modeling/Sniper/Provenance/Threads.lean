import Sniper.Cache.Storage
import Sniper.Library.Machine
import Sniper.Replacement.Recency

/-! The misses of several cores, step by step, and the three global variables of `cache_cntlr.cc` that carry
information about a miss past its function calls.

Every core has an L1 cache, and the L2 and L3 caches may be shared.  A thread works on one access or one prefetch
at a time.  Between two of its steps other threads and the replies of the directory run, and coherence may
change the state of any line. -/

namespace Sniper.Provenance

structure Chip (Addr : Type) where
  Thread : Type
  L2 : Type
  L3 : Type
  decThread : DecidableEq Thread
  decL2 : DecidableEq L2
  decL3 : DecidableEq L3
  l2 : Thread → L2
  l3 : Thread → L3
  /-- The geometry of the L2 caches, whose sets use `lrul2`. -/
  geometry : Geometry Addr
  /-- Whether `m_dram_cntlr` is set in the last-level caches. -/
  direct : Bool

variable {Addr : Type} [DecidableEq Addr] {chip : Chip Addr}

instance : DecidableEq chip.Thread := chip.decThread
instance : DecidableEq chip.L2 := chip.decL2
instance : DecidableEq chip.L3 := chip.decL3

/-- Where the data of an L2 miss came from. -/
inductive Service where
  | l3 | dram | directory
deriving DecidableEq, Repr

/-- What made an L3 cache insert a line. -/
inductive Reply where
  | exRep | shRep | dram
deriving DecidableEq, Repr

/-- What the steps do to the global variables, and what they read from them. -/
inductive Event where
  /-- `processMemOpFromCore` is called. -/
  | accessed (eip : Nat)
  | l1Missed
  | l2Missed
  /-- An L2 cache inserts a line, with the loop bit it gets. -/
  | filled (loopBit : Nat) (service : Service)
  /-- An L3 cache asks the directory. -/
  | requested (eip : Nat)
  /-- An L3 cache inserts a line with the given `eip`, which the request made or a prefetch made. -/
  | inserted (reply : Reply) (eip requestEip : Nat) (isPrefetch : Bool)
deriving DecidableEq, Repr

/-- `l3_hit_flag`, `eip_global` and `eip_global_2`. -/
structure Globals where
  l3HitFlag : Nat
  eipGlobal : Nat
  eipGlobal2 : Nat
deriving DecidableEq, Repr

/-- The assignments to the global variables. -/
def Globals.after (globals : Globals) : Event → Globals
  | .accessed eip => { globals with eipGlobal2 := eip }
  | .l1Missed => { globals with l3HitFlag := 0 }
  | .l2Missed =>
    if globals.l3HitFlag = 0 then { globals with l3HitFlag := 1 }
    else if globals.l3HitFlag = 1 then { globals with l3HitFlag := 0 } else globals
  | .filled _ _ => globals
  | .requested eip => { globals with eipGlobal := eip }
  | .inserted .exRep _ _ _ => { globals with eipGlobal := 0 }
  | .inserted _ _ _ _ => globals

/-- An access that missed in L1, or a prefetch. -/
structure Miss (Addr : Type) where
  op : MemOp Unit
  address : Addr
  eip : Nat
  isPrefetch : Bool
  /-- Whether the request passes through L2, as all but the prefetches of an L3 cache do. -/
  throughL2 : Bool

inductive Phase (Addr : Type) where
  | idle
  | atL1 (miss : Miss Addr)
  /-- Before the lookup in L2, for the first time or once the directory has answered. -/
  | atL2 (miss : Miss Addr) (again : Bool)
  | atL3 (miss : Miss Addr) (again : Bool)
  /-- Before `copyDataFromNextLevel`. -/
  | filling (miss : Miss Addr) (service : Service)
  | waiting (miss : Miss Addr)

/-- The waiters of an L3 cache for an address, and what they wait for. -/
inductive Stage where
  /-- A message to the directory is not answered. -/
  | asked
  /-- The network thread serves the front of the queue. -/
  | serving
  /-- The front of the queue has been woken. -/
  | woken
deriving DecidableEq, Repr

structure Queue (chip : Chip Addr) where
  waiters : List (chip.Thread × Miss Addr)
  stage : Stage

/-- An L2 cache with the fields of its sets. -/
structure L2Cache (geometry : Geometry Addr) where
  cache : Cache geometry Unit
  fields : Fin geometry.sets → Replacement.LoopBits

inductive Fault where
  /-- "we already have this line, can't add it again" -/
  | alreadyHaveLine
  /-- "Tried to read from next-level cache, but data is already gone", "Line was not there after prefetch" -/
  | dataAlreadyGone
  /-- `assert((cstate == CacheState::INVALID))` of `processExReqToDirectory` -/
  | requestCState
  /-- What the replacement policy of L2 reports -/
  | policy (fault : Replacement.Fault)

structure State (chip : Chip Addr) where
  globals : Globals
  phase : chip.Thread → Phase Addr
  l1 : chip.Thread → Addr → CState
  l2 : chip.L2 → L2Cache chip.geometry
  l3 : chip.L3 → Addr → CState
  /-- `m_directory_waiters`. -/
  queue : chip.L3 → Addr → Queue chip
  /-- The events so far, the last one first. -/
  history : List Event

namespace State

def initial (chip : Chip Addr) : State chip where
  globals := ⟨0, 0, 0⟩
  phase := fun _ => .idle
  l1 := fun _ _ => .invalid
  l2 := fun _ => ⟨.empty chip.geometry Unit, fun _ => ⟨Replacement.initialLruBits, fun _ => 0, 0⟩⟩
  l3 := fun _ _ => .invalid
  queue := fun _ _ => ⟨[], .serving⟩
  history := []

def log (event : Event) (state : State chip) : State chip :=
  { state with globals := state.globals.after event, history := event :: state.history }

def setPhase (thread : chip.Thread) (phase : Phase Addr) (state : State chip) : State chip :=
  { state with phase := Function.update state.phase thread phase }

def setL2 (node : chip.L2) (l2 : L2Cache chip.geometry) (state : State chip) : State chip :=
  { state with l2 := Function.update state.l2 node l2 }

def setL3 (node : chip.L3) (address : Addr) (cstate : CState) (state : State chip) : State chip :=
  { state with l3 := Function.update state.l3 node (Function.update (state.l3 node) address cstate) }

def setQueue (node : chip.L3) (address : Addr) (queue : Queue chip) (state : State chip) : State chip :=
  { state with queue := Function.update state.queue node (Function.update (state.queue node) address queue) }

/-- The lookup in L1 of `processMemOpFromCore`.  A miss clears `l3_hit_flag`. -/
def lookupL1 (thread : chip.Thread) (miss : Miss Addr) (state : State chip) : State chip :=
  if operationPermissible miss.op (state.l1 thread miss.address) then state.setPhase thread .idle
  else (state.log .l1Missed).setPhase thread (.atL2 miss false)

/-- The lookup in L2 of `processShmemReqFromPrevCache`.  A miss toggles `l3_hit_flag`. -/
def lookupL2 (thread : chip.Thread) (miss : Miss Addr) (again : Bool) (state : State chip) : State chip :=
  let l2 := state.l2 (chip.l2 thread)
  if operationPermissible miss.op (l2.cache.cstate miss.address) then state.setPhase thread .idle
  else
    ((state.log .l2Missed).setL2 (chip.l2 thread) { l2 with cache := l2.cache.invalidateSingleLine miss.address }).setPhase
      thread (.atL3 miss again)

/-- The end of `processShmemReqFromPrevCache` of L3, once it has the line. -/
def serve (thread : chip.Thread) (miss : Miss Addr) (service : Service) (state : State chip) : State chip :=
  state.setPhase thread (if miss.throughL2 then .filling miss service else .idle)

/-- `initiateDirectoryAccess`, behind the assignment to `eip_global`. -/
def initiateDirectoryAccess (thread : chip.Thread) (miss : Miss Addr) (state : State chip) :
    Except Fault (State chip) :=
  let node := chip.l3 thread
  let queue := state.queue node miss.address
  let cstate := state.l3 node miss.address
  let waiters := queue.waiters ++ [(thread, miss)]
  let waits := (state.log (.requested miss.eip)).setPhase thread (.waiting miss)
  if waiters.length = 1 then
    let sent := waits.setQueue node miss.address ⟨waiters, .asked⟩
    if miss.op.exclusive then
      if cstate = .shared then .ok (sent.setL3 node miss.address .sharedUpgrading)
      else if cstate = .invalid then .ok sent
      else .error .requestCState
    else .ok sent
  else .ok (waits.setQueue node miss.address { queue with waiters })

/-- The lookup in L3 of `processShmemReqFromPrevCache`. -/
def lookupL3 (thread : chip.Thread) (miss : Miss Addr) (again : Bool) (state : State chip) :
    Except Fault (State chip) :=
  let node := chip.l3 thread
  let cstate := state.l3 node miss.address
  let service : Service := if again then .directory else .l3
  if operationPermissible miss.op cstate then .ok (state.serve thread miss service)
  -- "Silent upgrade from E -> M"
  else if cstate = .exclusive then .ok ((state.setL3 node miss.address .modified).serve thread miss service)
  else if chip.direct then
    if cstate = .invalid then
      let inserted := if miss.op.exclusive then .modified else .shared
      .ok (((state.setL3 node miss.address inserted).log (.inserted .dram miss.eip miss.eip miss.isPrefetch)).serve
        thread miss .dram)
    else .ok ((state.setL3 node miss.address .modified).serve thread miss service)
  else if again then .error .dataAlreadyGone
  else state.initiateDirectoryAccess thread miss

def contents (cache : Cache chip.geometry Unit) (set : Fin chip.geometry.sets) : Replacement.Contents := fun way =>
  if small : way < chip.geometry.associativity then (cache.blocks set ⟨way, small⟩).map Block.cstate else none

/-- `insertCacheBlock` of L2: the flag goes to `CacheSetLRUL2::getReplacementIndex`. -/
def insertL2 (thread : chip.Thread) (miss : Miss Addr) (service : Service) (cstate : CState) (state : State chip) :
    Except Fault (State chip) :=
  let l2 := state.l2 (chip.l2 thread)
  let set := chip.geometry.setIndex miss.address
  let call : Replacement.Call := ⟨fun _ => false, state.globals.l3HitFlag, state.globals.eipGlobal2, set⟩
  match (Replacement.CacheSetLRUL2 chip.geometry.associativity 1).getReplacementIndex (contents l2.cache set) call
    (l2.fields set) with
  | .error fault => .error (.policy fault)
  | .ok (fields, index) =>
    if small : index < chip.geometry.associativity then
      let cache := ((l2.cache.insertSingleLine miss.address () ⟨index, small⟩).1).setCState miss.address cstate
      let filled := state.log (.filled (Replacement.LoopBits.loopBit fields index) service)
      .ok (filled.setL2 (chip.l2 thread) ⟨cache, Function.update l2.fields set fields⟩)
    else .error (.policy .outOfBounds)

/-- `copyDataFromNextLevel` of L2. -/
def copyDataFromNextLevel (thread : chip.Thread) (miss : Miss Addr) (service : Service) (state : State chip) :
    Except Fault (State chip) :=
  let l2 := state.l2 (chip.l2 thread)
  let cstate := state.l3 (chip.l3 thread) miss.address
  if operationPermissible miss.op cstate = false then .error .dataAlreadyGone
  else
    match l2.cache.peekSingleLine miss.address with
    | some _ =>
      .ok ((state.setL2 (chip.l2 thread) { l2 with cache := l2.cache.setCState miss.address cstate }).setPhase thread .idle)
    | none => do
        let state ← state.insertL2 thread miss service cstate
        Except.ok (state.setPhase thread .idle)

/-- `processExRepFromDramDirectory` and `processShRepFromDramDirectory`: each reads a global variable of its own, and only
the first one resets it. -/
def processRepFromDramDirectory (node : chip.L3) (address : Addr) (reply : Reply) (cstate : CState) (eip : Nat)
    (state : State chip) : Except Fault (State chip) :=
  let queue := state.queue node address
  match queue.stage, queue.waiters with
  | .asked, (_, miss) :: _ =>
    if state.l3 node address ≠ .invalid then .error .alreadyHaveLine
    else
      .ok (((state.log (.inserted reply eip miss.eip miss.isPrefetch)).setL3 node address cstate).setQueue node address
        { queue with stage := .serving })
  | _, _ => .ok state

def processExRepFromDramDirectory (node : chip.L3) (address : Addr) (state : State chip) :
    Except Fault (State chip) :=
  state.processRepFromDramDirectory node address .exRep .exclusive state.globals.eipGlobal

def processShRepFromDramDirectory (node : chip.L3) (address : Addr) (state : State chip) :
    Except Fault (State chip) :=
  state.processRepFromDramDirectory node address .shRep .shared state.globals.eipGlobal2

def processUpgradeRepFromDramDirectory (node : chip.L3) (address : Addr) (state : State chip) : State chip :=
  let queue := state.queue node address
  if queue.stage = .asked then
    (state.setL3 node address .modified).setQueue node address { queue with stage := .serving }
  else state

/-- One turn of the loop of `handleMsgFromDramDirectory` over the waiters, up to the wakeup. -/
def wakeUpUserThread (node : chip.L3) (address : Addr) (state : State chip) : State chip :=
  let queue := state.queue node address
  match queue.stage, queue.waiters with
  | .serving, (thread, miss) :: _ =>
    if miss.op.exclusive ∧ state.l3 node address = .shared then
      (state.setL3 node address .sharedUpgrading).setQueue node address { queue with stage := .asked }
    else
      (state.setQueue node address { queue with stage := .woken }).setPhase thread
        (if miss.throughL2 then .atL2 miss true else .atL3 miss true)
  | _, _ => state

/-- The rest of the turn, once the thread is done. -/
def dequeue (node : chip.L3) (address : Addr) (state : State chip) : State chip :=
  let queue := state.queue node address
  match queue.stage, queue.waiters with
  | .woken, _ :: rest => state.setQueue node address ⟨rest, .serving⟩
  | _, _ => state

end State

inductive Label (chip : Chip Addr) where
  /-- A core calls `processMemOpFromCore`. -/
  | access (thread : chip.Thread) (op : MemOp Unit) (address : Addr) (eip : Nat)
  /-- A thread calls `doPrefetch` of its L1 or L2 cache, or of its L3 cache. -/
  | doPrefetch (thread : chip.Thread) (address : Addr) (throughL2 : Bool)
  /-- The next step of a thread. -/
  | advance (thread : chip.Thread)
  | exRep (node : chip.L3) (address : Addr)
  | shRep (node : chip.L3) (address : Addr)
  | upgradeRep (node : chip.L3) (address : Addr)
  | wakeUpUserThread (node : chip.L3) (address : Addr)
  | dequeue (node : chip.L3) (address : Addr)
  /-- Other work on the caches changes the state of a line, or uses it. -/
  | changeL1 (thread : chip.Thread) (address : Addr) (cstate : CState)
  | changeL2 (node : chip.L2) (address : Addr) (cstate : CState)
  | changeL3 (node : chip.L3) (address : Addr) (cstate : CState)
  | touchL2 (node : chip.L2) (address : Addr) (writeFlag : Nat)

namespace State

def advance (thread : chip.Thread) (state : State chip) : Except Fault (State chip) :=
  match state.phase thread with
  | .idle | .waiting _ => .ok state
  | .atL1 miss => .ok (state.lookupL1 thread miss)
  | .atL2 miss again => .ok (state.lookupL2 thread miss again)
  | .atL3 miss again => state.lookupL3 thread miss again
  | .filling miss service => state.copyDataFromNextLevel thread miss service

/-- `CacheSet::read_line` and `CacheSet::write_line` of L2, if they find the line. -/
def touchL2 (node : chip.L2) (address : Addr) (writeFlag : Nat) (state : State chip) : Except Fault (State chip) :=
  let l2 := state.l2 node
  let set := chip.geometry.setIndex address
  match l2.cache.find address with
  | none => .ok state
  | some way =>
    match (Replacement.CacheSetLRUL2 chip.geometry.associativity 1).updateReplacementIndex way writeFlag set
      (l2.fields set) with
    | .error fault => .error (.policy fault)
    | .ok fields => .ok (state.setL2 node { l2 with fields := Function.update l2.fields set fields })

def step (state : State chip) : Label chip → Except Fault (State chip)
  | .access thread op address eip =>
    match state.phase thread with
    | .idle => .ok ((state.log (.accessed eip)).setPhase thread (.atL1 ⟨op, address, eip, false, true⟩))
    | _ => .ok state
  | .doPrefetch thread address throughL2 =>
    match state.phase thread with
    | .idle =>
      let miss : Miss Addr := ⟨.read, address, 0, true, throughL2⟩
      .ok (state.setPhase thread (if throughL2 then .atL2 miss false else .atL3 miss false))
    | _ => .ok state
  | .advance thread => state.advance thread
  | .exRep node address => state.processExRepFromDramDirectory node address
  | .shRep node address => state.processShRepFromDramDirectory node address
  | .upgradeRep node address => .ok (state.processUpgradeRepFromDramDirectory node address)
  | .wakeUpUserThread node address => .ok (state.wakeUpUserThread node address)
  | .dequeue node address => .ok (state.dequeue node address)
  | .changeL1 thread address cstate =>
    .ok { state with l1 := Function.update state.l1 thread (Function.update (state.l1 thread) address cstate) }
  | .changeL2 node address cstate =>
    let l2 := state.l2 node
    let cache := if cstate = .invalid then l2.cache.invalidateSingleLine address else l2.cache.setCState address cstate
    .ok (state.setL2 node { l2 with cache })
  | .changeL3 node address cstate => .ok (state.setL3 node address cstate)
  | .touchL2 node address writeFlag => state.touchL2 node address writeFlag

end State

def machine (chip : Chip Addr) : Machine (State chip) (Label chip) Fault where
  initial state := state = .initial chip
  step := State.step

end Sniper.Provenance

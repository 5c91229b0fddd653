import Sniper.Directory.Entry
import Sniper.Library.Machine

/-! The directory cache with its entries as objects on a heap.

An entry is in a way of its set, or in the list of the replaced entries until the last cache has given up the
line.  Of the controller, the request queues are modelled, and the calls it makes. -/

namespace Sniper.Directory.Storage

/-- A `DirectoryEntry` with its address, which is `INVALID_ADDRESS` before `setAddress`. -/
structure Object (n : Nat) (Addr : Type) where
  address : Option Addr
  entry : DirectoryEntry n

inductive Req where
  /-- `EX_REQ`, `SH_REQ` or `UPGRADE_REQ`. -/
  | shmem
  | nullify
deriving DecidableEq, Repr

structure Shape (Addr : Type) where
  associativity : Nat
  setIndex : Addr → Nat

structure State (n : Nat) (Addr : Type) where
  /-- The objects that have been created and not been deleted. -/
  heap : Nat → Option (Object n Addr)
  fresh : Nat
  /-- `m_directory_entry_list`, by set and way. -/
  entryList : Nat → Nat → Option Nat
  /-- `m_replaced_directory_entry_list`. -/
  replaced : List Nat
  replacementPtr : Nat → Nat
  /-- `m_dram_directory_req_queue_list`. -/
  queue : Addr → List Req

variable {n : Nat} {Addr : Type} [DecidableEq Addr] (shape : Shape Addr)

namespace State

def address (state : State n Addr) (object : Nat) : Option Addr := (state.heap object).bind Object.address

def entry (state : State n Addr) (object : Nat) : DirectoryEntry n := ((state.heap object).map Object.entry).getD .new

def createDirectoryEntry (state : State n Addr) : State n Addr × Nat :=
  ({ state with heap := Function.update state.heap state.fresh (some ⟨none, .new⟩), fresh := state.fresh + 1 }, state.fresh)

def setDirectoryEntry (set way object : Nat) (state : State n Addr) : State n Addr :=
  { state with entryList := Function.update state.entryList set (Function.update (state.entryList set) way (some object)) }

/-- `Directory::getDirectoryEntry`: an entry is created when it is first asked for. -/
def entryAt (set way : Nat) (state : State n Addr) : State n Addr × Nat :=
  match state.entryList set way with
  | some object => (state, object)
  | none =>
    let (created, object) := state.createDirectoryEntry
    (created.setDirectoryEntry set way object, object)

def modify (object : Nat) (change : Object n Addr → Object n Addr) (state : State n Addr) : State n Addr :=
  { state with heap := Function.update state.heap object ((state.heap object).map change) }

def setAddress (object : Nat) (address : Addr) (state : State n Addr) : State n Addr :=
  state.modify object fun stored => { stored with address := some address }

/-- The loops over the ways of a set, for an entry with the given address. -/
def search (set : Nat) (wanted : Option Addr) : List Nat → State n Addr → State n Addr × Option (Nat × Nat)
  | [], state => (state, none)
  | way :: rest, state =>
    let (state, object) := state.entryAt set way
    if state.address object = wanted then (state, some (way, object)) else search set wanted rest state

def getDirectoryEntry (address : Addr) (state : State n Addr) : State n Addr × Option Nat :=
  let set := shape.setIndex address
  match state.search set (some address) (List.range shape.associativity) with
  | (state, some (_, object)) => (state, some object)
  | (state, none) =>
    match state.search set none (List.range shape.associativity) with
    | (state, some (_, object)) => (state.setAddress object address, some object)
    | (state, none) => (state, state.replaced.find? fun object => state.address object = some address)

/-- `getReplacementCandidates`, with the 32-bit wrap of the pointer. -/
def getReplacementCandidates (address : Addr) (state : State n Addr) : State n Addr × List Nat :=
  let set := shape.setIndex address
  let ways := (List.range shape.associativity).map fun i =>
    (i + state.replacementPtr set) % 2 ^ 32 % shape.associativity
  let (state, candidates) := ways.foldl (fun (state, candidates) way =>
    let (state, object) := state.entryAt set way
    (state, candidates ++ [object])) (state, [])
  ({ state with replacementPtr := Function.update state.replacementPtr set ((state.replacementPtr set + 1) % 2 ^ 32) },
    candidates)

/-- `m_dram_directory_req_queue_list->size`, for the address of an entry. -/
def size (state : State n Addr) (object : Nat) : Nat := (state.address object).elim 0 fun address => (state.queue address).length

/-- The loop of `processDirectoryEntryAllocationReq`. -/
def replacementCandidate (state : State n Addr) (candidates : List Nat) : Option Nat :=
  candidates.foldl (fun best candidate =>
    if (best.all fun best => (state.entry best).getNumSharers > (state.entry candidate).getNumSharers) ∧
      state.size candidate = 0 then some candidate else best) none

def replaceDirectoryEntry (replacedAddress address : Addr) (state : State n Addr) : Except Fault (State n Addr) :=
  let set := shape.setIndex replacedAddress
  match state.search set (some replacedAddress) (List.range shape.associativity) with
  | (state, some (way, object)) =>
    let (created, new) := { state with replaced := state.replaced ++ [object] }.createDirectoryEntry
    .ok ((created.setAddress new address).setDirectoryEntry set way new)
  | (_, none) => .error .noDirectoryEntry

def invalidateDirectoryEntry (address : Addr) (state : State n Addr) : Except Fault (State n Addr) :=
  match state.replaced.find? fun object => state.address object = some address with
  | some object =>
    .ok { state with heap := Function.update state.heap object none, replaced := state.replaced.erase object }
  | none => .error .noDirectoryEntry

def enqueue (address : Addr) (req : Req) (state : State n Addr) : State n Addr :=
  { state with queue := Function.update state.queue address (state.queue address ++ [req]) }

def dequeue (address : Addr) (state : State n Addr) : State n Addr :=
  { state with queue := Function.update state.queue address (state.queue address).tail }

/-- `processNullifyReq`, without the messages it sends.  The caller goes on with the next request. -/
def processNullifyReq (address : Addr) (state : State n Addr) : Except Fault (State n Addr) :=
  match state.getDirectoryEntry shape address with
  | (_, none) => .error .noDirectoryEntry
  | (state, some object) =>
    if (state.entry object).dstate = .uncached then do
      let state ← state.invalidateDirectoryEntry address
      Except.ok (state.dequeue address)
    else .ok state

def processDirectoryEntryAllocationReq (address : Addr) (state : State n Addr) : Except Fault (State n Addr) :=
  let (state, candidates) := state.getReplacementCandidates shape address
  match (state.replacementCandidate candidates).bind state.address with
  | none => .error .noReplacementCandidate
  | some replacedAddress => do
      let state ← state.replaceDirectoryEntry shape replacedAddress address
      (state.enqueue replacedAddress .nullify).processNullifyReq shape replacedAddress

/-- The start of `processExReqFromL2Cache`, `processShReqFromL2Cache` and `processUpgradeReqFromL2Cache`. -/
def processReqFromL2Cache (address : Addr) (state : State n Addr) : Except Fault (State n Addr) :=
  match state.getDirectoryEntry shape address with
  | (state, some _) => .ok state
  | (state, none) => state.processDirectoryEntryAllocationReq shape address

end State

inductive Label (n : Nat) (Addr : Type) where
  /-- `handleMsgFromL2Cache` looks up the entry, and enqueues a request. -/
  | handleMsg (address : Addr) (isRequest : Bool)
  /-- The request at the front of the queue is processed. -/
  | processReq (address : Addr)
  /-- A handler changes the entry of an address. -/
  | update (address : Addr) (change : DirectoryEntry n → DirectoryEntry n)
  /-- The request at the front of the queue is done. -/
  | dequeue (address : Addr)
  /-- The nullify request at the front of the queue is processed again. -/
  | processNullify (address : Addr)

def State.step (state : State n Addr) : Label n Addr → Except Fault (State n Addr)
  | .handleMsg address isRequest =>
    let state := (state.getDirectoryEntry shape address).1
    .ok (if isRequest then state.enqueue address .shmem else state)
  | .processReq address =>
    if (state.queue address).head? = some .shmem then state.processReqFromL2Cache shape address else .ok state
  | .update address change =>
    match state.getDirectoryEntry shape address with
    | (_, none) => .error .noDirectoryEntry
    | (state, some object) => .ok (state.modify object fun stored => { stored with entry := change stored.entry })
  | .dequeue address =>
    if (state.queue address).head? = some .shmem then .ok (state.dequeue address) else .ok state
  | .processNullify address =>
    if (state.queue address).head? = some .nullify then state.processNullifyReq shape address else .ok state

/-- The constructor leaves `m_replacement_ptrs` unset. -/
def machine (n : Nat) (shape : Shape Addr) : Machine (State n Addr) (Label n Addr) Fault where
  initial state := ∃ replacementPtr, state = ⟨fun _ => none, 0, fun _ _ => none, [], replacementPtr, fun _ => []⟩
  step := State.step shape

end Sniper.Directory.Storage

import Sniper.Cache.Storage
import Sniper.Library.Machine
import Sniper.Library.Outcome
import Mathlib.Algebra.Ring.Nat

/-! The DRAM cache in front of a DRAM controller.

Data is stored, as it is when faults can be injected.  Latencies, statistics and the prefetch MSHR are left
out, so of a `ShmemPerf` only the pointer stays.  The prefetcher is the list of addresses it proposes. -/

namespace Sniper.Dram

variable {Addr V : Type} [DecidableEq Addr] {geometry : Geometry Addr}

inductive Fault where
  /-- "Data Buffer does not exist" -/
  | dataBuffer
  /-- A member of a `ShmemPerf` is read through `NULL`. -/
  | nullPerf
deriving DecidableEq, Repr

/-- `ShmemPerf *` -/
inductive Perf where
  | null
  | shmemPerf
deriving DecidableEq, Repr

/-- `perf->updateTime`, which reads `m_time_last` first of all. -/
def Perf.updateTime : Perf → Except Fault Unit
  | .null => .error .nullPerf
  | .shmemPerf => .ok ()

/-- `DramCntlr`, with the lines of `m_data_map`. -/
structure Cntlr (Addr V : Type) where
  dataMap : Addr → Option V

namespace Cntlr

variable [Zero V]

def initial : Cntlr Addr V := ⟨fun _ => none⟩

/-- What a line holds.  A line nobody has read is created as zeros. -/
def contents (dram : Cntlr Addr V) (address : Addr) : V := (dram.dataMap address).getD 0

/-- The model of the DRAM latencies may be disabled, so `perf` need not be read here. -/
def getDataFromDram (dram : Cntlr Addr V) (address : Addr) : Cntlr Addr V × V :=
  (⟨Function.update dram.dataMap address (some (dram.contents address))⟩, dram.contents address)

def putDataToDram (dram : Cntlr Addr V) (address : Addr) (data : V) : Except Fault (Cntlr Addr V) :=
  match dram.dataMap address with
  | none => .error .dataBuffer
  | some _ => .ok ⟨Function.update dram.dataMap address (some data)⟩

end Cntlr

/-- `DramCache` and the controller behind it. -/
structure State (geometry : Geometry Addr) (V : Type) where
  cache : Cache geometry V
  /-- The lines whose block has the option `PREFETCH`. -/
  prefetched : Addr → Bool
  dram : Cntlr Addr V

/-- `Cache::access_t`, with the data of a store. -/
inductive Access (V : Type) where
  | load
  | store (data : V)

/-- One call, with the answers of the replacement policy and of the prefetcher. -/
structure Call (geometry : Geometry Addr) (V : Type) where
  access : Access V
  address : Addr
  way : Fin geometry.associativity
  prefetchList : List (Addr × Fin geometry.associativity)

/-- `DramCache::accessDataArray`, of whose times nothing is left. -/
def accessDataArray (perf : Perf) : Except Fault Unit := perf.updateTime

namespace State

variable [Zero V]

def initial (geometry : Geometry Addr) (V : Type) [Zero V] : State geometry V :=
  ⟨.empty geometry V, fun _ => false, .initial⟩

/-- `DramCache::insertLine`.  The line that had to go would be written to DRAM with the buffer of the new one. -/
def insertLine (state : State geometry V) (cstate : CState) (address : Addr) (data : V)
    (way : Fin geometry.associativity) : Except Fault (State geometry V) :=
  let inserted := state.cache.insertSingleLine address data way
  let stored := { state with
    cache := inserted.1.setCState address cstate
    prefetched := Function.update state.prefetched address false }
  do
    accessDataArray .null
    match inserted.2 with
    | none => .ok stored
    | some evicted =>
      if evicted.cstate = .modified then do
        let dram ← state.dram.putDataToDram evicted.tag data
        Except.ok { stored with dram }
      else .ok stored

/-- A line that is not there is read from DRAM and inserted. -/
def fetchLine (state : State geometry V) (address : Addr) (way : Fin geometry.associativity) :
    Except Fault (State geometry V) :=
  let result := state.dram.getDataFromDram address
  insertLine { state with dram := result.1 } .shared address result.2 way

/-- The body of the loop of `DramCache::callPrefetcher`. -/
def prefetchLine (state : State geometry V) (line : Addr × Fin geometry.associativity) :
    Except Fault (State geometry V) :=
  match state.cache.peekSingleLine line.1 with
  | some _ => .ok state
  | none => do
      let state ← state.fetchLine line.1 line.2
      Except.ok { state with prefetched := Function.update state.prefetched line.1 true }

def callPrefetcher (onPrefetchHit : Bool) (prefetchList : List (Addr × Fin geometry.associativity))
    (cacheHit prefetchHit : Bool) (state : State geometry V) : Except Fault (State geometry V) :=
  if cacheHit = false ∨ onPrefetchHit ∧ prefetchHit then prefetchList.foldlM prefetchLine state
  else .ok state

/-- `DramCache::doAccess` up to the prefetcher. -/
def demand (state : State geometry V) (perf : Perf) (call : Call geometry V) : Except Fault (State geometry V) := do
  perf.updateTime
  match state.cache.peekSingleLine call.address with
  | some _ =>
    let touched := { state with prefetched := Function.update state.prefetched call.address false }
    accessDataArray perf
    match call.access with
    | .load => .ok touched
    | .store data =>
      .ok { touched with cache := (state.cache.storeSingleLine call.address data).setCState call.address .modified }
  | none =>
    match call.access with
    | .load => state.fetchLine call.address call.way
    | .store data => state.insertLine .modified call.address data call.way

/-- The data that `DramCache::doAccess` leaves in the buffer. -/
def dataBuf (state : State geometry V) (call : Call geometry V) : V :=
  match call.access, state.cache.peekSingleLine call.address with
  | .load, some block => block.data
  | .load, none => state.dram.contents call.address
  | .store data, _ => data

def doAccess (onPrefetchHit : Bool) (state : State geometry V) (perf : Perf) (call : Call geometry V) :
    Except Fault (State geometry V × V) := do
  let cacheHit := (state.cache.peekSingleLine call.address).isSome
  let prefetchHit := cacheHit && state.prefetched call.address
  let after ← state.demand perf call
  let after ← after.callPrefetcher onPrefetchHit call.prefetchList cacheHit prefetchHit
  Except.ok (after, state.dataBuf call)

def getDataFromDram (onPrefetchHit : Bool) (state : State geometry V) (perf : Perf) (address : Addr)
    (way : Fin geometry.associativity) (prefetchList : List (Addr × Fin geometry.associativity)) :
    Except Fault (State geometry V × V) :=
  state.doAccess onPrefetchHit perf { access := .load, address, way, prefetchList }

def putDataToDram (onPrefetchHit : Bool) (state : State geometry V) (address : Addr) (data : V)
    (way : Fin geometry.associativity) (prefetchList : List (Addr × Fin geometry.associativity)) :
    Except Fault (State geometry V) := do
  let result ← state.doAccess onPrefetchHit .null { access := .store data, address, way, prefetchList }
  Except.ok result.1

end State

/-- A call from outside, with the pointer that a reader passes on. -/
inductive Request (geometry : Geometry Addr) (V : Type) where
  | get (perf : Perf) (address : Addr) (way : Fin geometry.associativity)
      (prefetchList : List (Addr × Fin geometry.associativity))
  | put (address : Addr) (data : V) (way : Fin geometry.associativity)
      (prefetchList : List (Addr × Fin geometry.associativity))

/-! ### Transparency -/

section Transparency

variable [Zero V]

def Request.isGet : Request geometry V → Bool
  | .get .. => true
  | .put .. => false

/-- The cache next to the memory that its callers should see. -/
def machine (geometry : Geometry Addr) (V : Type) [Zero V] (onPrefetchHit : Bool) :
    Machine (State geometry V × (Addr → V)) (Request geometry V) Fault where
  initial start := start = (.initial geometry V, fun _ => 0)
  step now request :=
    match request with
    | .get perf address way prefetchList => do
        let result ← now.1.getDataFromDram onPrefetchHit perf address way prefetchList
        Except.ok (result.1, now.2)
    | .put address data way prefetchList => do
        let state ← now.1.putDataToDram onPrefetchHit address data way prefetchList
        Except.ok (state, Function.update now.2 address data)

/-- Each `getDataFromDram` of the calls returns, with what has been put last. -/
def Transparent (onPrefetchHit : Bool) (requests : List (Request geometry V)) : Prop :=
  ∀ before perf address way prefetchList later, requests = before ++ .get perf address way prefetchList :: later →
    ∃ state memory after,
      (machine geometry V onPrefetchHit).run (.initial geometry V, fun _ => 0) before = .ok (state, memory) ∧
        state.getDataFromDram onPrefetchHit perf address way prefetchList = .ok (after, memory address)

omit [Zero V] in
theorem State.insertLine_stops (state : State geometry V) (cstate : CState) (address : Addr) (data : V)
    (way : Fin geometry.associativity) : state.insertLine cstate address data way = .error .nullPerf :=
  rfl

/-- A call that has no `ShmemPerf` stops at once, and one that misses stops when it inserts its line. -/
theorem State.doAccess_stops {state : State geometry V} {perf : Perf} {call : Call geometry V} (onPrefetchHit : Bool)
    (stops : perf = .null ∨ state.cache.peekSingleLine call.address = none) :
    state.doAccess onPrefetchHit perf call = .error .nullPerf := by
  have demanded : state.demand perf call = .error .nullPerf := by
    cases perf with
    | null => rfl
    | shmemPerf =>
      obtain noPerf | missing := stops
      · cases noPerf
      · unfold demand
        rw [missing]
        cases call.access with
        | load =>
          change state.fetchLine call.address call.way = _
          exact insertLine_stops ..
        | store data =>
          change state.insertLine .modified call.address data call.way = _
          exact insertLine_stops ..
  unfold doAccess
  rw [demanded]
  rfl

theorem getDataFromDram_initial (onPrefetchHit : Bool) (perf : Perf) (address : Addr) (way : Fin geometry.associativity)
    (prefetchList : List (Addr × Fin geometry.associativity)) :
    (State.initial geometry V).getDataFromDram onPrefetchHit perf address way prefetchList = .error .nullPerf :=
  State.doAccess_stops onPrefetchHit (.inr Cache.empty_peek)

/-- The first call stops, whichever it is. -/
theorem step_initial (onPrefetchHit : Bool) (memory : Addr → V) (request : Request geometry V) :
    (machine geometry V onPrefetchHit).step (.initial geometry V, memory) request = .error .nullPerf := by
  cases request with
  | get perf address way prefetchList =>
    simp only [machine, getDataFromDram_initial]
    rfl
  | put address data way prefetchList =>
    simp only [machine, State.putDataToDram, State.doAccess_stops onPrefetchHit (.inl rfl)]
    rfl

/-- No sequence of calls is served as by the controller alone, unless nothing is read in it. -/
theorem transparent_iff_noGet (onPrefetchHit : Bool) (requests : List (Request geometry V)) :
    Transparent onPrefetchHit requests ↔ ∀ request ∈ requests, request.isGet = false := by
  constructor
  · intro transparent request member
    cases request with
    | put address data way prefetchList => rfl
    | get perf address way prefetchList =>
      obtain ⟨before, later, split⟩ := List.append_of_mem member
      obtain ⟨state, memory, after, ran, returned⟩ := transparent before perf address way prefetchList later split
      cases before with
      | nil =>
        cases ran
        rw [getDataFromDram_initial] at returned
        cases returned
      | cons first rest =>
        rw [Machine.run, step_initial] at ran
        cases ran
  · intro noGet before perf address way prefetchList later split
    have reads := noGet (.get perf address way prefetchList) (by simp [split])
    cases reads

def oneWay : Geometry (Fin 2) := { sets := 1, associativity := 1, setIndex := fun _ => ⟨0, Nat.one_pos⟩ }

/-- A read of a new cache does not return, with and without a prefetcher. -/
theorem first_read_stops :
    ¬ ∀ (onPrefetchHit : Bool) (requests : List (Request oneWay Nat)), Transparent onPrefetchHit requests := by
  intro transparent
  obtain ⟨state, memory, after, ran, returned⟩ :=
    transparent false [.get .shmemPerf 0 (0 : Fin 1) []] [] .shmemPerf 0 (0 : Fin 1) [] [] rfl
  cases ran
  cases returned

end Transparency

end Sniper.Dram

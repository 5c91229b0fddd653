import Sniper.Cache.Storage
import Sniper.Library.Machine

/-! The NUCA cache of a directory controller: what happens to the data that goes to DRAM through it.

The cache stores data, as it does when faults can be injected.  Latencies and counters are left out. -/

namespace Sniper.Nuca

variable {Addr V : Type} [DecidableEq Addr] {geometry : Geometry Addr}

/-- The variables that `sendDataToNUCA` hands to `NucaCache::write` for its results. -/
structure Eviction (Addr V : Type) where
  eviction : Bool
  evictAddress : Addr
  evictBuf : V

/-- `NucaCache::read`: the data of a hit. -/
def read (cache : Cache geometry V) (address : Addr) : Option V :=
  (cache.peekSingleLine address).map Block.data

/-- `NucaCache::write`.  A hit leaves the variables of the caller as they are. -/
def write (cache : Cache geometry V) (address : Addr) (data : V) (way : Fin geometry.associativity)
    (out : Eviction Addr V) : Cache geometry V × Eviction Addr V :=
  match cache.peekSingleLine address with
  | some _ => ((cache.setCState address .modified).storeSingleLine address data, out)
  | none =>
    let inserted := cache.insertSingleLine address data way
    match inserted.2 with
    | none => (inserted.1, { out with eviction := false })
    | some evicted =>
      -- unless data is dirty, the caller does not write it back
      (inserted.1, ⟨decide (evicted.cstate = .modified), evicted.tag, evicted.data⟩)

/-- What happens to the data of a line outside the NUCA cache. -/
inductive Event (Addr V : Type) where
  /-- `sendDataToDram` is called. -/
  | dirtyWrite (address : Addr) (data : V)
  /-- A `DRAM_WRITE_REQ` is sent. -/
  | dramWriteReq (address : Addr) (data : V)
deriving DecidableEq

/-- The NUCA cache and all events so far, the latest one first. -/
structure State (geometry : Geometry Addr) (V : Type) where
  cache : Cache geometry V
  events : List (Event Addr V)

namespace State

def initial (geometry : Geometry Addr) (V : Type) : State geometry V := ⟨.empty geometry V, []⟩

/-- The `DRAM_WRITE_REQ` of `sendDataToNUCA`, if there is one. -/
def request (state : State geometry V) (address : Addr) (data : V) (way : Fin geometry.associativity)
    (out : Eviction Addr V) : Option (Event Addr V) :=
  let result := (write state.cache address data way out).2
  if result.eviction then some (.dramWriteReq result.evictAddress result.evictBuf) else none

/-- `DramDirectoryCntlr::sendDataToNUCA`, which does not initialise the variables it passes. -/
def sendDataToNUCA (state : State geometry V) (address : Addr) (data : V) (way : Fin geometry.associativity)
    (out : Eviction Addr V) : State geometry V where
  cache := (write state.cache address data way out).1
  events := (state.request address data way out).toList ++ state.events

def sendDataToDram (state : State geometry V) (address : Addr) (data : V) (way : Fin geometry.associativity)
    (out : Eviction Addr V) : State geometry V :=
  sendDataToNUCA { state with events := .dirtyWrite address data :: state.events } address data way out

end State

/-- What the directory does with its NUCA cache.  `out` is what the stack holds. -/
inductive Label (geometry : Geometry Addr) (V : Type) where
  | cleanFill (address : Addr) (data : V) (way : Fin geometry.associativity) (out : Eviction Addr V)
  | dirtyWrite (address : Addr) (data : V) (way : Fin geometry.associativity) (out : Eviction Addr V)
  | read (address : Addr)

def State.step (state : State geometry V) : Label geometry V → State geometry V
  | .cleanFill address data way out => state.sendDataToNUCA address data way out
  | .dirtyWrite address data way out => state.sendDataToDram address data way out
  | .read _ => state

def machine (geometry : Geometry Addr) (V : Type) : Machine (State geometry V) (Label geometry V) Empty where
  initial state := state = .initial geometry V
  step state label := .ok (state.step label)

/-! ### Dirty data -/

/-- The last data written to the line, unless a `DRAM_WRITE_REQ` has carried it away since. -/
def pending [DecidableEq V] : List (Event Addr V) → Addr → Option V
  | [], _ => none
  | .dirtyWrite written data :: rest, address => if written = address then some data else pending rest address
  | .dramWriteReq sent data :: rest, address =>
    if sent = address ∧ pending rest address = some data then none else pending rest address

/-- The data of a line that the cache has `MODIFIED`. -/
def dirtyData (cache : Cache geometry V) (address : Addr) : Option V :=
  (cache.peekSingleLine address).bind fun block => if block.cstate = .modified then some block.data else none

theorem dirtyData_eq_some {cache : Cache geometry V} {address : Addr} {data : V} :
    dirtyData cache address = some data ↔
      ∃ block, cache.peekSingleLine address = some block ∧ block.cstate = .modified ∧ block.data = data := by
  simp [dirtyData, Option.bind_eq_some_iff]

section Write

variable {cache : Cache geometry V} {address : Addr} {data : V} {way : Fin geometry.associativity}
  {out : Eviction Addr V} {block : Block Addr V}

theorem write_hit (found : cache.peekSingleLine address = some block) :
    write cache address data way out =
      ((cache.setCState address .modified).storeSingleLine address data, out) := by
  simp [write, found]

theorem dirtyData_hit (wellFormed : cache.WellFormed) (found : cache.peekSingleLine address = some block)
    (other : Addr) : dirtyData ((cache.setCState address .modified).storeSingleLine address data) other =
      if other = address then some data else dirtyData cache other := by
  have changed : (cache.setCState address .modified).WellFormed := wellFormed.setCState
  rw [dirtyData, changed.peek_storeSingleLine, wellFormed.peek_setCState, wellFormed.peek_setCState]
  by_cases same : other = address
  · simp [same, found]
  · simp [same, dirtyData]

theorem write_miss (absent : cache.peekSingleLine address = none) :
    write cache address data way out = ((cache.insertSingleLine address data way).1,
      match (cache.insertSingleLine address data way).2 with
      | none => { out with eviction := false }
      | some evicted => ⟨decide (evicted.cstate = .modified), evicted.tag, evicted.data⟩) := by
  simp only [write, absent]
  cases (cache.insertSingleLine address data way).2 <;> rfl

theorem dirtyData_miss (wellFormed : cache.WellFormed) (absent : cache.peekSingleLine address = none)
    (other : Addr) : dirtyData (cache.insertSingleLine address data way).1 other =
      if (cache.insertSingleLine address data way).2.map Block.tag = some other then none
      else dirtyData cache other := by
  rw [dirtyData, wellFormed.peek_insertSingleLine absent]
  by_cases same : other = address
  · subst same
    simp [dirtyData, absent]
  · rw [if_neg same]
    split
    · rfl
    · rfl

end Write

theorem State.events_hit {state : State geometry V} {address : Addr} {data : V}
    {way : Fin geometry.associativity} {out : Eviction Addr V} {block : Block Addr V}
    (found : state.cache.peekSingleLine address = some block) (quiet : out.eviction = false) :
    (state.sendDataToNUCA address data way out).events = state.events := by
  simp [State.sendDataToNUCA, State.request, write_hit found, quiet]

/-- The events account for the dirty lines of the cache. -/
structure Accounts [DecidableEq V] (state : State geometry V) : Prop where
  wellFormed : state.cache.WellFormed
  agree : ∀ address, pending state.events address = dirtyData state.cache address

/-- What keeps dirty data safe: a dirty write finds the line, a fill does not (or changes nothing), and the
flag that a hit leaves alone happens to be false. -/
def State.Safe (state : State geometry V) : Label geometry V → Prop
  | .cleanFill address data _ out =>
    match state.cache.peekSingleLine address with
    | some block => block.cstate = .modified ∧ block.data = data ∧ out.eviction = false
    | none => True
  | .dirtyWrite address _ _ out => (state.cache.peekSingleLine address).isSome ∧ out.eviction = false
  | .read _ => True

namespace Accounts

variable [DecidableEq V] {state : State geometry V} {address : Addr} {data : V}
  {way : Fin geometry.associativity} {out : Eviction Addr V}

theorem request_miss (accounts : Accounts state) (absent : state.cache.peekSingleLine address = none)
    {event : Event Addr V} (sent : state.request address data way out = some event) :
    ∃ evicted, event = .dramWriteReq evicted.tag evicted.data ∧
      (state.cache.insertSingleLine address data way).2 = some evicted ∧ evicted.cstate = .modified ∧
      state.cache.peekSingleLine evicted.tag = some evicted ∧ evicted.tag ≠ address := by
  rw [State.request, write_miss absent] at sent
  cases evicts : (state.cache.insertSingleLine address data way).2 with
  | none => simp [evicts] at sent
  | some evicted =>
    simp only [evicts, decide_eq_true_eq, Option.ite_none_right_eq_some, Option.some.injEq] at sent
    obtain ⟨found, apart⟩ := accounts.wellFormed.evicted absent evicts
    exact ⟨evicted, sent.2.symm, rfl, sent.1, found, apart⟩

theorem fill_miss (accounts : Accounts state) (absent : state.cache.peekSingleLine address = none) :
    Accounts (state.sendDataToNUCA address data way out) := by
  have stored : (state.sendDataToNUCA address data way out).cache =
      (state.cache.insertSingleLine address data way).1 := by
    rw [State.sendDataToNUCA, write_miss absent]
  constructor
  · rw [stored]
    exact accounts.wellFormed.insertSingleLine absent
  · intro other
    rw [stored, dirtyData_miss accounts.wellFormed absent]
    cases sent : state.request address data way out with
    | some event =>
      obtain ⟨evicted, isEvent, evicts, modified, found, _⟩ := accounts.request_miss absent sent
      have dirty : pending state.events evicted.tag = some evicted.data := by
        rw [accounts.agree, dirtyData_eq_some]
        exact ⟨evicted, found, modified, rfl⟩
      simp only [State.sendDataToNUCA, sent, isEvent, Option.toList_some, List.cons_append, List.nil_append,
        pending, evicts, Option.map_some, Option.some.injEq]
      by_cases same : evicted.tag = other
      · subst same
        simp [dirty]
      · simp [same, accounts.agree]
    | none =>
      simp only [State.sendDataToNUCA, sent, Option.toList_none, List.nil_append, accounts.agree]
      split
      case isTrue gone =>
        obtain ⟨evicted, evicts, same⟩ := Option.map_eq_some_iff.mp gone
        subst same
        have clean : evicted.cstate ≠ .modified := by
          intro modified
          simp [State.request, write_miss absent, evicts, modified] at sent
        obtain ⟨found, _⟩ := accounts.wellFormed.evicted absent evicts
        simp [dirtyData, found, clean]
      case isFalse => rfl

theorem fill_hit {block : Block Addr V} (accounts : Accounts state)
    (found : state.cache.peekSingleLine address = some block) (quiet : out.eviction = false)
    (modified : block.cstate = .modified) : Accounts (state.sendDataToNUCA address block.data way out) := by
  have stored : (state.sendDataToNUCA address block.data way out).cache =
      (state.cache.setCState address .modified).storeSingleLine address block.data := by
    rw [State.sendDataToNUCA, write_hit found]
  constructor
  · rw [stored]
    exact accounts.wellFormed.setCState.storeSingleLine
  · intro other
    rw [State.events_hit found quiet, stored, dirtyData_hit accounts.wellFormed found, accounts.agree]
    split
    case isTrue same =>
      subst same
      exact dirtyData_eq_some.mpr ⟨block, found, modified, rfl⟩
    case isFalse => rfl

theorem dirtyWrite_hit {block : Block Addr V} (accounts : Accounts state)
    (found : state.cache.peekSingleLine address = some block) (quiet : out.eviction = false) :
    Accounts (state.sendDataToDram address data way out) := by
  have stored : (state.sendDataToDram address data way out).cache =
      (state.cache.setCState address .modified).storeSingleLine address data := by
    rw [State.sendDataToDram, State.sendDataToNUCA, write_hit found]
  constructor
  · rw [stored]
    exact accounts.wellFormed.setCState.storeSingleLine
  · intro other
    have events : (state.sendDataToDram address data way out).events = .dirtyWrite address data :: state.events :=
      State.events_hit found quiet
    rw [events, stored, dirtyData_hit accounts.wellFormed found, pending, accounts.agree]
    simp only [eq_comm]

theorem initial : Accounts (State.initial geometry V) where
  wellFormed := Cache.empty_wellFormed
  agree address := by simp [State.initial, pending, dirtyData, Cache.empty_peek]

theorem step (accounts : Accounts state) {label : Label geometry V} (safe : state.Safe label) :
    Accounts (state.step label) := by
  cases label with
  | cleanFill address data way out =>
    cases found : state.cache.peekSingleLine address with
    | none => exact accounts.fill_miss found
    | some block =>
      simp only [State.Safe, found] at safe
      obtain ⟨modified, same, quiet⟩ := safe
      subst same
      exact accounts.fill_hit found quiet modified
  | dirtyWrite address data way out =>
    obtain ⟨block, found⟩ := Option.isSome_iff_exists.mp safe.1
    exact accounts.dirtyWrite_hit found safe.2
  | read address => exact accounts

theorem reach (reached : (machine geometry V).Reach State.Safe state) : Accounts state := by
  refine reached.invariant Accounts ?_ ?_
  · intro start starts
    exact starts ▸ .initial
  · intro before label after accounts safe stepped
    cases stepped
    exact accounts.step safe

end Accounts

section Claims

variable [DecidableEq V]

theorem pending_of_last {newer older : List (Event Addr V)} {address : Addr} {data : V}
    (last : ∀ later, Event.dirtyWrite address later ∉ newer) :
    pending (newer ++ .dirtyWrite address data :: older) address = some data ∨
      .dramWriteReq address data ∈ newer := by
  induction newer with
  | nil => simp [pending]
  | cons event rest ih =>
    have ih := ih fun later member => last later (List.mem_cons_of_mem _ member)
    rcases ih with kept | sent
    · cases event with
      | dirtyWrite written value =>
        have apart : written ≠ address := by
          intro same
          subst same
          exact last value List.mem_cons_self
        simp [pending, apart, kept]
      | dramWriteReq sent value =>
        by_cases same : sent = address ∧ data = value
        · rw [same.1, same.2]
          exact .inr List.mem_cons_self
        · simp [pending, kept, same]
    · exact .inr (List.mem_cons_of_mem _ sent)

/-- If every dirty write hits, no fill does and no flag on the stack is set, the last dirty write of a line is
in the cache or went to DRAM, and only lines that were evicted dirty go there. -/
theorem dirty_data_is_kept (state : State geometry V) (reached : (machine geometry V).Reach State.Safe state) :
    (∀ newer older address data, state.events = newer ++ .dirtyWrite address data :: older →
      (∀ later, Event.dirtyWrite address later ∉ newer) →
      (∃ block, state.cache.peekSingleLine address = some block ∧ block.cstate = .modified ∧ block.data = data) ∨
        .dramWriteReq address data ∈ newer) ∧
    ∀ label, state.Safe label → ∀ new address data, (state.step label).events = new ++ state.events →
      .dramWriteReq address data ∈ new →
      pending state.events address = some data ∧
        (∃ block, state.cache.peekSingleLine address = some block ∧ block.cstate = .modified ∧ block.data = data) ∧
        (state.step label).cache.peekSingleLine address = none := by
  have accounts := Accounts.reach reached
  constructor
  · intro newer older address data split last
    have kept : pending state.events address = some data ∨ .dramWriteReq address data ∈ newer :=
      split ▸ pending_of_last last
    rw [accounts.agree, dirtyData_eq_some] at kept
    exact kept
  · intro label safe new address data split sent
    cases label with
    | read => simp_all [State.step]
    | dirtyWrite written value way out =>
      obtain ⟨block, found⟩ := Option.isSome_iff_exists.mp safe.1
      have events : (state.step (.dirtyWrite written value way out)).events = .dirtyWrite written value :: state.events :=
        State.events_hit found safe.2
      rw [events, ← List.singleton_append, List.append_cancel_right_eq] at split
      subst split
      simp at sent
    | cleanFill written value way out =>
      cases found : state.cache.peekSingleLine written with
      | some block =>
        simp only [State.Safe, found] at safe
        have events : (state.step (.cleanFill written value way out)).events = state.events :=
          State.events_hit found safe.2.2
        rw [events, List.self_eq_append_left] at split
        subst split
        cases sent
      | none =>
        have events : (state.step (.cleanFill written value way out)).events =
            (state.request written value way out).toList ++ state.events := rfl
        rw [events, List.append_cancel_right_eq] at split
        rw [← split, Option.mem_toList] at sent
        obtain ⟨evicted, isEvent, evicts, modified, stored, apart⟩ := accounts.request_miss found sent
        cases isEvent
        have dirty : dirtyData state.cache evicted.tag = some evicted.data :=
          dirtyData_eq_some.mpr ⟨evicted, stored, modified, rfl⟩
        refine ⟨(accounts.agree _).trans dirty, ⟨evicted, stored, modified, rfl⟩, ?_⟩
        have cache : (state.step (.cleanFill written value way out)).cache =
            (state.cache.insertSingleLine written value way).1 := by
          rw [State.step, State.sendDataToNUCA, write_miss found]
        rw [cache, accounts.wellFormed.peek_insertSingleLine found, if_neg apart, evicts, Option.map_some,
          if_pos rfl]

def oneWay : Geometry (Fin 2) := { sets := 1, associativity := 1, setIndex := fun _ => ⟨0, Nat.one_pos⟩ }

/-- A flag that is not set. -/
def quiet : Eviction (Fin 2) Nat := ⟨false, 0, 0⟩

/-- A line is filled, written and then evicted by another fill. -/
theorem dirty_data_is_kept_until_eviction : ∃ state : State oneWay Nat,
    (machine oneWay Nat).Reach State.Safe state ∧ state.events = [.dirtyWrite 0 7] ∧
      (∃ block, state.cache.peekSingleLine 0 = some block ∧ block.cstate = .modified ∧ block.data = 7) ∧
      state.Safe (.cleanFill 1 3 (0 : Fin 1) quiet) ∧
      (state.step (.cleanFill 1 3 (0 : Fin 1) quiet)).events = [.dramWriteReq 0 7] ++ state.events ∧
      (state.step (.cleanFill 1 3 (0 : Fin 1) quiet)).cache.peekSingleLine 0 = none := by
  have ran : ∃ filled written : State oneWay Nat,
      (State.initial oneWay Nat).Safe (.cleanFill 0 5 (0 : Fin 1) quiet) ∧
      (State.initial oneWay Nat).step (.cleanFill 0 5 (0 : Fin 1) quiet) = filled ∧
      filled.Safe (.dirtyWrite 0 7 (0 : Fin 1) quiet) ∧
      filled.step (.dirtyWrite 0 7 (0 : Fin 1) quiet) = written ∧
      written.events = [.dirtyWrite 0 7] ∧ written.Safe (.cleanFill 1 3 (0 : Fin 1) quiet) ∧
      (written.step (.cleanFill 1 3 (0 : Fin 1) quiet)).events = [.dramWriteReq 0 7] ++ written.events :=
    ⟨_, _, trivial, rfl, ⟨rfl, rfl⟩, rfl, rfl, trivial, rfl⟩
  obtain ⟨filled, written, safeFill, didFill, safeWrite, didWrite, events, safe, sends⟩ := ran
  have reached : (machine oneWay Nat).Reach State.Safe written := by
    refine .step (.dirtyWrite 0 7 (0 : Fin 1) quiet) (.step (.cleanFill 0 5 (0 : Fin 1) quiet) (.initial rfl)
      safeFill (congrArg Except.ok didFill)) safeWrite (congrArg Except.ok didWrite)
  obtain ⟨kept, evicted⟩ := dirty_data_is_kept written reached
  have inside := (kept [] [] 0 7 events (by rintro _ ⟨⟩)).resolve_right (by rintro ⟨⟩)
  have gone := evicted (.cleanFill 1 3 (0 : Fin 1) quiet) safe [.dramWriteReq 0 7] 0 7 sends List.mem_cons_self
  exact ⟨written, reached, events, inside, safe, sends, gone.2.2⟩

/-- A dirty write that misses puts the line into the cache as if it were clean: the next miss drops it. -/
theorem dirty_data_is_dropped : ∃ state : State oneWay Nat,
    (machine oneWay Nat).Reachable state ∧ state.events = [.dirtyWrite 1 8] ++ .dirtyWrite 0 7 :: [] ∧
      (∀ later, Event.dirtyWrite (0 : Fin 2) later ∉ [Event.dirtyWrite (1 : Fin 2) 8]) ∧
      ¬((∃ block, state.cache.peekSingleLine 0 = some block ∧ block.cstate = .modified ∧ block.data = 7) ∨
        Event.dramWriteReq (0 : Fin 2) 7 ∈ [Event.dirtyWrite (1 : Fin 2) 8]) := by
  have ran : ∃ state : State oneWay Nat, (machine oneWay Nat).run (.initial oneWay Nat)
      [.dirtyWrite 0 7 (0 : Fin 1) quiet, .dirtyWrite 1 8 (0 : Fin 1) quiet] = .ok state ∧
      state.events = [.dirtyWrite 1 8] ++ .dirtyWrite 0 7 :: [] ∧ state.cache.peekSingleLine 0 = none :=
    ⟨_, rfl, rfl, rfl⟩
  obtain ⟨state, ran, events, absent⟩ := ran
  refine ⟨state, .run (.initial rfl) ran, events, fun later member => ?_, ?_⟩
  · simp at member
  · simp [absent]

end Claims

end Sniper.Nuca

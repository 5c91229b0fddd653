import Sniper.Hierarchy.Runs

/-! The hierarchy of the usual configuration, and the two assertions about what its caches contain:
inclusion, and the lookups of the L3 cache. -/

namespace Sniper.Hierarchy

/-- The caches of a number of cores with private L1 and L2 caches and one L3 cache. -/
inductive Place (cores : Nat) where
  | l1i (core : Fin cores)
  | l1d (core : Fin cores)
  | l2 (core : Fin cores)
  | l3
deriving DecidableEq

namespace Place

variable {cores : Nat}

def above : Place cores → List (Place cores)
  | .l1i core | .l1d core => [.l2 core, .l3]
  | .l2 _ => [.l3]
  | .l3 => []

def prev : Place cores → List (Place cores)
  | .l1i _ | .l1d _ => []
  | .l2 core => [.l1i core, .l1d core]
  | .l3 => (List.finRange cores).map .l2

def level : Place cores → Nat
  | .l1i _ | .l1d _ => 0
  | .l2 _ => 1
  | .l3 => 2

end Place

variable {Addr : Type}

/-- The wiring of `MemoryManager::MemoryManager` for three levels. -/
def threeLevel (cores : Nat) (geometry : Place cores → Geometry Addr) (direct checksBlockIndex : Bool) :
    Topology Addr where
  Node := Place cores
  decEq := inferInstance
  geometry
  above := Place.above
  prev := Place.prev
  level := Place.level
  direct
  checksBlockIndex
  above_next {node next rest} levels := by
    cases node <;> cases levels <;> rfl
  mem_prev {node next} := by
    cases node <;> cases next <;> simp [Place.above, Place.prev, eq_comm]
  prev_nodup next := by
    cases next with
    | l1i core | l1d core => exact List.nodup_nil
    | l2 core => simp [Place.prev]
    | l3 => exact (List.nodup_finRange cores).map fun first second same => by cases same; rfl
  level_next {node next rest} levels := by
    cases node <;> cases levels <;> rfl

section Claims

variable [DecidableEq Addr]

/-- In every state of every run a line valid in a cache is valid in its next level, a `MODIFIED` one
`MODIFIED`, and none of the assertions that rely on it fails in the next step. -/
theorem inclusion_is_kept (t : Topology Addr) (state : State t) (reached : (machine t).Reach Answers state) :
    (∀ node next line, t.next node = some next →
      ((state.getCacheBlockInfo node line).isSome → (state.getCacheBlockInfo next line).isSome) ∧
      (state.getCacheState node line = .modified → state.getCacheState next line = .modified)) ∧
    ∀ label fault, Answers state label → (machine t).step state label = .error fault →
      fault ≠ .expectedHit ∧ fault ≠ .writebackNonModified ∧ fault ≠ .alreadyHaveLine := by
  have inclusive : state.Inclusive := .reach (fun _ _ => id) reached
  refine ⟨fun node next line isNext => ⟨fun valid => ?_, ?_⟩, fun label fault answers failed => ?_⟩
  · rw [Option.isSome_iff_ne_none, ne_eq, ← inclusive.sound.getCacheState_eq_invalid, ← CState.rank_eq_zero]
      at valid ⊢
    have le := inclusive.ordered line node next isNext
    omega
  · exact (inclusive.ordered line).dirtyIncluded node next isNext
  · have kept : Meets (Fault.Allowed False) (state.step label) State.Inclusive :=
      inclusive.step_meets label answers False.elim False.elim
    have allowed := (kept.of_error failed).1
    refine ⟨?_, ?_, ?_⟩ <;> (intro same; rw [same] at allowed; cases allowed)

def twoWays (cores : Nat) (direct checksBlockIndex : Bool) : Topology (Fin 3) :=
  threeLevel cores (fun _ => { sets := 1, associativity := 2, setIndex := fun _ => 0 }) direct checksBlockIndex

/-- A request that takes the given way wherever the line is missing. -/
def coreRequest {cores : Nat} {direct checksBlockIndex : Bool} (op : MemOp Unit) (line : Fin 3) (way : Fin 2) :
    Request (twoWays cores direct checksBlockIndex) where
  op
  address := line
  way _ := way
  isMaster _ := true
  first := true
  modeled := true

/-- An access of a core to its data cache. -/
def coreAccess {cores : Nat} {direct checksBlockIndex : Bool} (core : Fin cores) (op : MemOp Unit) (line : Fin 3)
    (way : Fin 2) : Label (twoWays cores direct checksBlockIndex) :=
  .access ⟨.l1d core, rfl⟩ (coreRequest op line way)

/-- A line that was written and one that was read, in all caches of a core. -/
theorem inclusion_is_kept_after_write : ∃ state : State (twoWays 1 true false),
    (machine (twoWays 1 true false)).Reach Answers state ∧
      state.getCacheState (.l1d 0) 0 = .modified ∧ state.getCacheState (.l2 0) 0 = .modified ∧
      (state.getCacheBlockInfo .l3 1).isSome := by
  have ran : ∃ state, (machine (twoWays 1 true false)).run (.initial _)
      [coreAccess 0 (.write id) 0 0, coreAccess 0 .read 1 1] = .ok state ∧
      state.getCacheState (.l1d 0) 0 = .modified ∧ (state.getCacheBlockInfo (.l2 0) 1).isSome := by
    refine ⟨_, rfl, ?_, ?_⟩ <;> decide
  obtain ⟨state, ran, modified, valid⟩ := ran
  have reached : (machine (twoWays 1 true false)).Reach Answers state := by
    refine .run (.initial rfl) (fun label member _ => ?_) ran
    rcases List.mem_pair.mp member with same | same <;> subst same <;> trivial
  obtain ⟨included, _⟩ := inclusion_is_kept (twoWays 1 true false) state reached
  exact ⟨state, reached, modified, (included (.l1d 0) (.l2 0) 0 rfl).2 modified,
    (included (.l2 0) .l3 1 rfl).1 valid⟩

/-- If no L3 cache ever drops a line that a cache right below it has `MODIFIED`, every lookup of a
block index finds the tag. -/
theorem block_index_is_found (t : Topology Addr)
    (threeLevels : ∀ cache, t.isL3 cache = true → t.above cache = []) (state : State t)
    (reached : (machine t).Reach (fun state label => Answers state label ∧ state.CleanEvictions label) state)
    (label : Label t) (answers : Answers state label) (clean : state.CleanEvictions label) :
    (machine t).step state label ≠ .error .blockIndex := by
  have inclusive : state.Inclusive := .reach (fun _ _ => And.left) reached
  have kept : Meets (Fault.Allowed True) (state.step label) State.Inclusive :=
    inclusive.step_meets label answers (fun _ => threeLevels) fun _ => clean
  intro failed
  exact (kept.of_error failed).2 trivial rfl

theorem cleanEvictions_access {cores : Nat} {geometry : Place cores → Geometry Addr} {direct checks : Bool}
    {state : State (threeLevel cores geometry direct checks)} {node : (threeLevel cores geometry direct checks).L1}
    {req : Request (threeLevel cores geometry direct checks)}
    (clean : ∀ line, state.victim Place.l3 req.address (req.way Place.l3) = some line → ∀ core,
      state.getCacheState (Place.l2 core) line ≠ .modified) : state.CleanEvictions (.access node req) := by
  intro top _ last _ _ _ line evicts prev isPrev
  cases top with
  | l1i core | l1d core | l2 core => cases last
  | l3 =>
    obtain ⟨core, _, same⟩ := List.mem_map.mp isPrev
    exact same ▸ clean line evicts core

/-- The L3 cache makes room for a third line by dropping the one that was only read. -/
theorem block_index_is_found_for_clean_victim : ∃ state : State (twoWays 1 true true),
    (machine (twoWays 1 true true)).Reach (fun state label => Answers state label ∧ state.CleanEvictions label)
        state ∧
      state.getCacheState (.l2 0) 0 = .modified ∧ state.victim .l3 2 (1 : Fin 2) = some 1 ∧
      (machine (twoWays 1 true true)).step state (coreAccess 0 .read 2 1) ≠ .error .blockIndex := by
  have ran : ∃ written read : State (twoWays 1 true true),
      ((State.initial (twoWays 1 true true)).CleanEvictions (coreAccess 0 (.write id) 0 0) ∧
        (machine (twoWays 1 true true)).step (.initial _) (coreAccess 0 (.write id) 0 0) = .ok written) ∧
      (written.CleanEvictions (coreAccess 0 .read 1 1) ∧
        (machine (twoWays 1 true true)).step written (coreAccess 0 .read 1 1) = .ok read) ∧
      read.CleanEvictions (coreAccess 0 .read 2 1) ∧
      read.getCacheState (.l2 0) 0 = .modified ∧ read.victim .l3 2 (1 : Fin 2) = some 1 := by
    refine ⟨_, _, ⟨cleanEvictions_access ?_, rfl⟩, ⟨cleanEvictions_access ?_, rfl⟩, cleanEvictions_access ?_, ?_, ?_⟩
    all_goals decide
  obtain ⟨written, read, ⟨cleanWrite, wrote⟩, ⟨cleanRead, didRead⟩, clean, modified, evicts⟩ := ran
  have reached : (machine (twoWays 1 true true)).Reach
      (fun state label => Answers state label ∧ state.CleanEvictions label) read :=
    .step (coreAccess 0 .read 1 1)
      (.step (coreAccess 0 (.write id) 0 0) (.initial rfl) ⟨trivial, cleanWrite⟩ wrote) ⟨trivial, cleanRead⟩ didRead
  refine ⟨read, reached, modified, evicts, ?_⟩
  refine block_index_is_found (twoWays 1 true true) ?_ read reached (coreAccess 0 .read 2 1) trivial clean
  intro cache l3
  cases cache with
  | l1i core | l1d core | l2 core => cases l3
  | l3 => rfl

/-- The L3 cache drops the line that the L2 cache has `MODIFIED`: the L2 cache writes it back to a tag that
is no longer there. -/
theorem block_index_of_evicted_line : ∃ state : State (twoWays 1 true true),
    (machine (twoWays 1 true true)).Reach Answers state ∧ Answers state (coreAccess 0 .read 2 0) ∧
      (machine (twoWays 1 true true)).step state (coreAccess 0 .read 2 0) = .error .blockIndex := by
  have ran : ∃ state, (machine (twoWays 1 true true)).run (.initial _)
      [coreAccess 0 (.write id) 0 0, coreAccess 0 .read 1 1] = .ok state ∧
      (machine (twoWays 1 true true)).step state (coreAccess 0 .read 2 0) = .error .blockIndex := ⟨_, rfl, rfl⟩
  obtain ⟨state, ran, failed⟩ := ran
  refine ⟨state, ?_, trivial, failed⟩
  refine .run (.initial rfl) (fun label member _ => ?_) ran
  rcases List.mem_pair.mp member with same | same <;> subst same <;> trivial

end Claims

end Sniper.Hierarchy

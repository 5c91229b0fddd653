import Sniper.Hierarchy.Update

/-! What `insertCacheBlock` does: the new line is there in the given state, the line whose
way it takes is gone from the cache and from all caches below it. -/

namespace Sniper.Hierarchy.State

variable {Addr : Type} [DecidableEq Addr] {t : Topology Addr} {node next other : t.Node}
  {state after : State t} {address line : Addr} {cstate : CState} {tidy : Prop}

def victim (state : State t) (node : t.Node) (address : Addr) (way : Fin (t.geometry node).associativity) :
    Option Addr :=
  ((state.cache node).insertSingleLine address () way).2.map Block.tag

/-- The view after an insertion. -/
def inserted (state : State t) (node : t.Node) (address : Addr) (cstate : CState)
    (way : Fin (t.geometry node).associativity) (other : t.Node) (line : Addr) : CState :=
  if other = node ∧ line = address then cstate
  else if state.victim node address way = some line ∧ t.Below other node then .invalid
  else state.getCacheState other line

def DirtyIncluded (state : State t) (line : Addr) : Prop :=
  ∀ node next, t.next node = some next → state.getCacheState node line = .modified →
    state.getCacheState next line = .modified

/-- An L3 cache drops a line that no cache right below it has `MODIFIED`. -/
def CleanVictim (state : State t) (node : t.Node) (address : Addr)
    (way : Fin (t.geometry node).associativity) : Prop :=
  t.isL3 node = true → ∀ line, state.victim node address way = some line → ∀ prev ∈ t.prev node,
    state.getCacheState prev line ≠ .modified

theorem victim_valid (sound : state.Sound) (absent : state.getCacheState node address = .invalid)
    {way : Fin (t.geometry node).associativity} (evicts : state.victim node address way = some line) :
    line ≠ address ∧ state.getCacheState node line ≠ .invalid := by
  obtain ⟨block, evicted, same⟩ := Option.map_eq_some_iff.mp evicts
  have missing := sound.getCacheState_eq_invalid.mp absent
  obtain ⟨found, apart⟩ := (sound node).evicted missing evicted
  rw [← same]
  refine ⟨apart, fun invalid => ?_⟩
  rw [sound.getCacheState_eq_invalid] at invalid
  have found : state.getCacheBlockInfo node block.tag = some block := found
  rw [invalid] at found
  cases found

theorem inserted_same (sound : state.Sound) (absent : state.getCacheState node address = .invalid)
    {way : Fin (t.geometry node).associativity} :
    state.inserted node address cstate way other address =
      if other = node then cstate else state.getCacheState other address := by
  have kept : state.victim node address way ≠ some address := fun evicts =>
    (victim_valid sound absent evicts).1 rfl
  simp [inserted, kept]

theorem inserted_other {way : Fin (t.geometry node).associativity} (apart : line ≠ address) :
    state.inserted node address cstate way other line =
      if state.victim node address way = some line ∧ t.Below other node then .invalid
      else state.getCacheState other line := by
  simp [inserted, apart]

theorem getRidOf_meets {evicted : Block Addr Unit} (sound : state.Sound)
    (taken : ∀ next, t.next node = some next → evicted.cstate = .modified →
      state.getCacheState next evicted.tag = .modified) :
    Meets (Fault.Allowed tidy) (state.getRidOf node evicted) (· = state) := by
  unfold getRidOf
  cases isNext : t.next node with
  | none => exact .ite (fun _ => .ok rfl) fun _ => .error (Fault.allowed rfl (by rintro ⟨⟩))
  | some next =>
    refine .ite (fun modified => ?_) fun _ => .ok rfl
    have dirty := taken next isNext modified
    exact writeCacheBlock_meets sound (.inl dirty) fun _ _ => dirty

theorem evictCacheBlock_meets {evicted : Block Addr Unit} (sound : state.Sound)
    (idle : state.evicting node = none)
    (dirty : ∀ other next, t.Below other node → other ≠ node → t.next other = some next →
      state.getCacheState other evicted.tag = .modified →
      next = node ∨ state.getCacheState next evicted.tag = .modified)
    (taken : ∀ next, t.next node = some next → evicted.cstate = .modified →
      state.getCacheState next evicted.tag = .modified)
    (clean : tidy → t.isL3 node = true → ∀ prev ∈ t.prev node,
      state.getCacheState prev evicted.tag ≠ .modified) :
    Meets (Fault.Allowed tidy) (state.evictCacheBlock node evicted)
      (state.Becomes (t.Below · node) (state.updated (Topology.Under (t.prev node)) evicted.tag .invalid)) := by
  have apart {other : t.Node} (under : Topology.Under (t.prev node) other) : t.Below other node ∧ other ≠ node := by
    refine ⟨Topology.below_iff.mpr (.inr under), ?_⟩
    intro same
    exact Topology.not_under_prev (same ▸ under)
  let parked := state.setEvicting node (some evicted.tag)
  have previous : Meets (Fault.Allowed tidy) (parked.updateEach (t.prev node) evicted.tag .invalid)
      (parked.Becomes (Topology.Under (t.prev node))
        (parked.updated (Topology.Under (t.prev node)) evicted.tag .invalid)) := by
    refine updateEach_meets (fun _ => id) (t.prev_nodup node) sound ?_ ?_
    · intro other next under isNext modified
      rcases dirty other next (apart under).1 (apart under).2 isNext modified with here | takes
      · exact .inr (by simp [parked, setEvicting, here])
      · exact .inl takes
    · intro holds other next under isNext l3 modified
      rcases dirty other next (apart under).1 (apart under).2 isNext modified with here | takes
      · subst here
        exact absurd modified (clean holds l3 other (t.mem_prev.mpr isNext))
      · exact takes
  refine previous.bind fun mid becomes => ?_
  have view (other : t.Node) (line : Addr) : (mid.setEvicting node none).getCacheState other line =
      state.updated (Topology.Under (t.prev node)) evicted.tag .invalid other line := becomes.view other line
  have restored : (mid.setEvicting node none).evicting = state.evicting := by
    have before : mid.evicting = Function.update state.evicting node (some evicted.tag) := becomes.evicting
    simp only [setEvicting, before, Function.update_idem]
    rw [← idle, Function.update_eq_self]
  have rid : Meets (Fault.Allowed tidy) ((mid.setEvicting node none).getRidOf node evicted)
      (· = mid.setEvicting node none) := by
    refine getRidOf_meets becomes.sound fun next isNext modified => ?_
    rw [view, updated, if_neg (fun both => Topology.not_below_next isNext (apart both.2).1)]
    exact taken next isNext modified
  refine rid.bind fun after same => .ite (fun _ => .ok ?_) fun _ => .error (Fault.allowed rfl (by rintro ⟨⟩))
  subst same
  refine ⟨view, restored, becomes.sound, fun other outside => ?_⟩
  exact becomes.frame other fun under => outside (apart under).1

section Stored

variable {way : Fin (t.geometry node).associativity}

/-- The line has taken the place of the victim, which the lower levels still have. -/
def stored (state : State t) (node : t.Node) (address : Addr) (cstate : CState) (way : Fin (t.geometry node).associativity) : State t :=
  (state.setCache node ((state.cache node).insertSingleLine address () way).1).setCacheState node address cstate

theorem stored_eq : state.stored node address cstate way = state.setCache node
    (((state.cache node).insertSingleLine address () way).1.setCState address cstate) := by
  simp [stored, setCacheState, setCache]

theorem stored_view (sound : state.Sound) (absent : state.getCacheState node address = .invalid) (other : t.Node) (line : Addr) :
    (state.stored node address cstate way).getCacheState other line =
      if other = node ∧ line = address then cstate
      else if state.victim node address way = some line ∧ other = node then .invalid
      else state.getCacheState other line := by
  rw [stored_eq, getCacheState_setCache]
  by_cases same : other = node
  · subst same
    rw [if_pos rfl, (sound other).cstate_insertSingleLine (sound.getCacheState_eq_invalid.mp absent)]
    simp [victim, getCacheState]
  · simp [same]

theorem Sound.stored (sound : state.Sound) (absent : state.getCacheState node address = .invalid) (valid : cstate ≠ .invalid) :
    (state.stored node address cstate way).Sound := by
  rw [stored_eq]
  exact sound.setCache ((sound node).insertSingleLine (sound.getCacheState_eq_invalid.mp absent) valid)

theorem stored_frame (other : t.Node) (outside : ¬t.Below other node) :
    (state.stored node address cstate way).cache other = state.cache other := by
  have apart : other ≠ node := fun same => outside (same ▸ .refl)
  rw [stored_eq]
  exact Function.update_of_ne apart _ _

theorem evictStored_meets {evicted : Block Addr Unit} (sound : state.Sound) (idle : state.evicting node = none)
    (absent : state.getCacheState node address = .invalid) (valid : cstate ≠ .invalid)
    (included : ∀ line, line ≠ address → state.DirtyIncluded line) (clean : tidy → state.CleanVictim node address way)
    (evicts : ((state.cache node).insertSingleLine address () way).2 = some evicted) :
    Meets (Fault.Allowed tidy) ((state.stored node address cstate way).evictCacheBlock node evicted)
      ((state.stored node address cstate way).Becomes (t.Below · node)
        ((state.stored node address cstate way).updated (Topology.Under (t.prev node)) evicted.tag .invalid)) := by
  have some : state.victim node address way = some evicted.tag := by simp [victim, evicts]
  obtain ⟨apart, _⟩ := victim_valid sound absent some
  have block : state.getCacheState node evicted.tag = evicted.cstate :=
    getCacheState_of_block ((sound node).evicted (sound.getCacheState_eq_invalid.mp absent) evicts).1
  have kept {other : t.Node} (different : other ≠ node) :
      (state.stored node address cstate way).getCacheState other evicted.tag = state.getCacheState other evicted.tag := by
    rw [stored_view sound absent, if_neg (fun both => different both.1), if_neg (fun both => different both.2)]
  refine evictCacheBlock_meets (sound.stored absent valid) idle ?_ ?_ ?_
  · intro other next below different isNext modified
    by_cases here : next = node
    · exact .inl here
    · rw [kept different] at modified
      rw [kept here]
      exact .inr (included evicted.tag apart other next isNext modified)
  · intro next isNext modified
    rw [kept (Topology.ne_of_next isNext)]
    exact included evicted.tag apart node next isNext (block.trans modified)
  · intro holds l3 prev isPrev
    have different : prev ≠ node := by
      intro same
      exact Topology.not_below_prev isPrev (same ▸ .refl)
    rw [kept different]
    exact clean holds l3 evicted.tag some prev isPrev

end Stored

/-- `insertCacheBlock` of a line that is not there, when no dirty line lacks a dirty copy in the next level. -/
theorem insertCacheBlock_meets {way : Fin (t.geometry node).associativity} (sound : state.Sound)
    (idle : state.evicting node = none) (absent : state.getCacheState node address = .invalid)
    (valid : cstate ≠ .invalid) (included : ∀ line, line ≠ address → state.DirtyIncluded line)
    (clean : tidy → state.CleanVictim node address way) :
    Meets (Fault.Allowed tidy) (state.insertCacheBlock node address cstate way)
      (state.Becomes (t.Below · node) (state.inserted node address cstate way)) := by
  refine .ite (fun wrong => absurd absent wrong) fun _ => ?_
  have storedSound : (state.stored node address cstate way).Sound := sound.stored absent valid
  have looked : Meets (Fault.Allowed tidy) ((state.stored node address cstate way).getBlockIndex node address)
      (· = state.stored node address cstate way) := by
    refine getBlockIndex_meets storedSound fun _ _ => ?_
    rw [stored_view sound absent, if_pos ⟨rfl, rfl⟩]
    exact valid
  refine looked.bind fun same equal => ?_
  subst equal
  cases evicts : ((state.cache node).insertSingleLine address () way).2 with
  | none =>
    have none : state.victim node address way = none := by simp [victim, evicts]
    refine .ok ⟨fun other line => ?_, rfl, storedSound, stored_frame⟩
    rw [stored_view sound absent, inserted]
    simp [none]
  | some evicted =>
    have some : state.victim node address way = some evicted.tag := by simp [victim, evicts]
    have evictMeets := evictStored_meets sound idle absent valid included clean evicts
    refine evictMeets.mono fun after becomes => ⟨fun other line => ?_, becomes.evicting, becomes.sound, ?_⟩
    · rw [becomes.view, updated, stored_view sound absent, inserted, CState.become_invalid]
      have below : t.Below other node ↔ other = node ∨ Topology.Under (t.prev node) other := Topology.below_iff
      by_cases here : other = node
      · subst here
        simp [Topology.not_under_prev, below]
      · by_cases gone : line = evicted.tag
        · simp [here, gone, some, below]
        · simp [here, gone, some, Ne.symm gone]
    · intro other outside
      exact (becomes.frame other outside).trans (stored_frame other outside)

end Sniper.Hierarchy.State

import Sniper.Hierarchy.Insert

/-! Inclusion and the order of states: a cache never has more rights to a line than its next
level.

Inside an operation the order is broken: a request empties the caches it passes before it
asks the next level.  `Gap` is what holds then. -/

namespace Sniper.Hierarchy.State

variable {Addr : Type} [DecidableEq Addr] {t : Topology Addr} {node next other : t.Node}
  {state after : State t} {address line : Addr} {cstate : CState} {holes : List t.Node} {bound : Nat}
  {tidy : Prop}

def Ordered (state : State t) (line : Addr) : Prop :=
  ∀ node next, t.next node = some next →
    (state.getCacheState node line).rank ≤ (state.getCacheState next line).rank

/-- No copy is `OWNED`, and only last-level caches upgrade. -/
def Usual (state : State t) : Prop :=
  ∀ node line, state.getCacheState node line ≠ .owned ∧
    (state.getCacheState node line = .sharedUpgrading → t.above node = [])

structure Inclusive (state : State t) : Prop where
  sound : state.Sound
  idle : ∀ node, state.evicting node = none
  usual : state.Usual
  ordered : ∀ line, state.Ordered line

/-- The order holds but between the given caches, which are empty, and those right below them. -/
structure Gap (state : State t) (address : Addr) (holes : List t.Node) : Prop where
  sound : state.Sound
  idle : ∀ node, state.evicting node = none
  usual : state.Usual
  others : ∀ line, line ≠ address → state.Ordered line
  order : ∀ node next, t.next node = some next → next ∉ holes →
    (state.getCacheState node address).rank ≤ (state.getCacheState next address).rank
  empty : ∀ hole ∈ holes, state.getCacheState hole address = .invalid

/-- A bound for the rights of the caches right below the empty ones. -/
def Within (state : State t) (address : Addr) (holes : List t.Node) (bound : Nat) : Prop :=
  ∀ node hole, t.next node = some hole → hole ∈ holes → (state.getCacheState node address).rank ≤ bound

theorem Ordered.dirtyIncluded (ordered : state.Ordered line) : state.DirtyIncluded line := by
  intro node next isNext modified
  have le := ordered node next isNext
  rw [modified] at le
  exact CState.rank_eq_three.mp le

theorem Inclusive.gap (inclusive : state.Inclusive) (address : Addr) : state.Gap address [] where
  sound := inclusive.sound
  idle := inclusive.idle
  usual := inclusive.usual
  others line _ := inclusive.ordered line
  order node next isNext _ := inclusive.ordered address node next isNext
  empty := by rintro _ ⟨⟩

theorem Within.nil : state.Within address [] bound := by rintro _ _ _ ⟨⟩

theorem Within.mono {larger : Nat} (within : state.Within address holes bound) (le : bound ≤ larger) :
    state.Within address holes larger :=
  fun node hole isNext member => Nat.le_trans (within node hole isNext member) le

theorem Gap.inclusive (gap : state.Gap address holes) (within : state.Within address holes 0) :
    state.Inclusive where
  sound := gap.sound
  idle := gap.idle
  usual := gap.usual
  ordered line node next isNext := by
    by_cases same : line = address
    · subst same
      by_cases hole : next ∈ holes
      · exact Nat.le_trans (within node next isNext hole) (Nat.zero_le _)
      · exact gap.order node next isNext hole
    · exact gap.others line same node next isNext

theorem Gap.widen (gap : state.Gap address holes) (absent : state.getCacheState node address = .invalid) :
    state.Gap address (node :: holes) where
  sound := gap.sound
  idle := gap.idle
  usual := gap.usual
  others := gap.others
  order other next isNext apart :=
    gap.order other next isNext fun member => apart (List.mem_cons_of_mem _ member)
  empty hole member := by
    rcases List.mem_cons.mp member with same | member
    · exact same ▸ absent
    · exact gap.empty hole member

/-! ### Updates of previous levels -/

theorem Gap.writesBack (gap : state.Gap address holes) (dry : state.Within address holes 2)
    (caches : t.Node → Prop) : state.WritesBack caches address := by
  intro node next _ isNext modified
  by_cases hole : next ∈ holes
  · have le := dry node next isNext hole
    rw [modified] at le
    contradiction
  · have le := gap.order node next isNext hole
    rw [modified] at le
    exact .inl (CState.rank_eq_three.mp le)

theorem Gap.updated {caches : t.Node → Prop} [DecidablePred caches] (gap : state.Gap address holes)
    (closed : ∀ node next, t.next node = some next → caches next → caches node)
    (lowers : cstate = .invalid ∨ cstate = .shared)
    (becomes : state.Becomes caches (state.updated caches address cstate) after) : after.Gap address holes where
  sound := becomes.sound
  idle node := by rw [becomes.evicting, gap.idle]
  usual node line := by
    rw [becomes.view, State.updated, CState.become]
    split
    · split
      · exact ⟨by rintro ⟨⟩, by rintro ⟨⟩⟩
      · rcases lowers with lowers | lowers <;> subst lowers <;> exact ⟨by rintro ⟨⟩, by rintro ⟨⟩⟩
    · exact gap.usual node line
  others line apart node next isNext := by
    rw [becomes.view, becomes.view, State.updated, State.updated, if_neg (fun both => apart both.1),
      if_neg (fun both => apart both.1)]
    exact gap.others line apart node next isNext
  order node next isNext apart := by
    have le := gap.order node next isNext apart
    rw [becomes.view, becomes.view, State.updated, State.updated]
    by_cases above : caches next
    · rw [if_pos ⟨rfl, closed node next isNext above⟩, if_pos ⟨rfl, above⟩]
      exact CState.rank_become_mono le cstate
    · rw [if_neg (fun both : address = address ∧ caches next => above both.2)]
      split
      · exact Nat.le_trans (CState.rank_become_le lowers _) le
      · exact le
  empty hole member := by
    rw [becomes.view, State.updated, gap.empty hole member]
    split <;> rfl

theorem Becomes.within {caches : t.Node → Prop} [DecidablePred caches]
    (becomes : state.Becomes caches (state.updated caches address cstate) after)
    (lowers : cstate = .invalid ∨ cstate = .shared) (within : state.Within address holes bound) :
    after.Within address holes bound := by
  intro node hole isNext member
  rw [becomes.view, State.updated]
  split
  · exact Nat.le_trans (CState.rank_become_le lowers _) (within node hole isNext member)
  · exact within node hole isNext member

theorem Gap.updateOthers_meets {requester : Option t.Node} (gap : state.Gap address holes)
    (dry : state.Within address holes 2) (lowers : cstate = .invalid ∨ cstate = .shared) :
    Meets (Fault.Allowed tidy) (state.updateOthers node requester address cstate) fun after =>
      after.Gap address holes ∧
        state.Becomes (Topology.Under (t.others node requester))
          (state.updated (Topology.Under (t.others node requester)) address cstate) after := by
  have within : ∀ prev ∈ t.others node requester, prev ∈ t.prev node := fun prev member =>
    (List.mem_filter.mp member).1
  have nodup : (t.others node requester).Nodup := (t.prev_nodup node).filter _
  refine (updateEach_meets within nodup gap.sound (gap.writesBack dry _) ?_).mono fun after becomes => ?_
  · intro _ node next under isNext _ modified
    exact (gap.writesBack dry _ node next under isNext modified).resolve_right (by rw [gap.idle]; rintro ⟨⟩)
  · exact ⟨gap.updated (fun _ _ isNext => Topology.Under.of_next isNext) lowers becomes, becomes⟩

theorem Becomes.keeps_self {requester : Option t.Node}
    (becomes : state.Becomes (Topology.Under (t.others node requester))
      (state.updated (Topology.Under (t.others node requester)) address cstate) after)
    (above : t.Below node other) (line : Addr) :
    after.getCacheState other line = state.getCacheState other line := by
  rw [becomes.view, State.updated, if_neg (fun both => Topology.not_under_others above both.2)]

/-! ### A new line -/

theorem Ordered.inserted {way : Fin (t.geometry node).associativity} (ordered : state.Ordered line)
    (apart : line ≠ address)
    (becomes : state.Becomes (t.Below · node) (state.inserted node address cstate way) after) :
    after.Ordered line := by
  intro other next isNext
  rw [becomes.view, becomes.view, inserted_other apart, inserted_other apart]
  by_cases gone : state.victim node address way = some line ∧ t.Below other node
  · rw [if_pos gone]
    exact Nat.zero_le _
  · have kept : ¬(state.victim node address way = some line ∧ t.Below next node) := fun both =>
      gone ⟨both.1, (Topology.below_of_next isNext).mpr (.inr both.2)⟩
    rw [if_neg gone, if_neg kept]
    exact ordered other next isNext

theorem Gap.insertCacheBlock_meets {way : Fin (t.geometry node).associativity}
    (gap : state.Gap address (node :: holes)) (apart : node ∉ holes)
    (proper : cstate ≠ .invalid ∧ cstate ≠ .owned ∧ cstate ≠ .sharedUpgrading)
    (lower : ∀ prev, t.next prev = some node → (state.getCacheState prev address).rank ≤ cstate.rank)
    (upper : ∀ next, t.next node = some next → cstate.rank ≤ (state.getCacheState next address).rank)
    (clean : tidy → state.CleanVictim node address way) :
    Meets (Fault.Allowed tidy) (state.insertCacheBlock node address cstate way) fun after =>
      after.Gap address holes ∧ state.Becomes (t.Below · node) (state.inserted node address cstate way) after := by
  have absent := gap.empty node List.mem_cons_self
  refine (State.insertCacheBlock_meets gap.sound (gap.idle node) absent proper.1
    (fun line different => (gap.others line different).dirtyIncluded) clean).mono fun after becomes => ?_
  have view (other : t.Node) : after.getCacheState other address =
      if other = node then cstate else state.getCacheState other address := by
    rw [becomes.view, inserted_same gap.sound absent]
  refine ⟨?_, becomes⟩
  constructor
  case sound => exact becomes.sound
  case idle => exact fun other => by rw [becomes.evicting, gap.idle]
  case usual =>
    intro other line
    rw [becomes.view, inserted]
    split
    · exact ⟨proper.2.1, fun upgrading => absurd upgrading proper.2.2⟩
    · split
      · exact ⟨by rintro ⟨⟩, by rintro ⟨⟩⟩
      · exact gap.usual other line
  case others => exact fun line different => (gap.others line different).inserted different becomes
  case order =>
    intro other next isNext whole
    rw [view, view]
    by_cases here : other = node
    · subst here
      rw [if_pos rfl, if_neg (Topology.ne_of_next isNext)]
      exact upper next isNext
    · rw [if_neg here]
      by_cases there : next = node
      · subst there
        rw [if_pos rfl]
        exact lower other isNext
      · rw [if_neg there]
        exact gap.order other next isNext (by simp [there, whole])
  case empty =>
    intro hole member
    have different : hole ≠ node := fun same => apart (same ▸ member)
    rw [view, if_neg different]
    exact gap.empty hole (List.mem_cons_of_mem _ member)

theorem permissible_proper {op : MemOp Unit} (permissible : operationPermissible op cstate = true)
    (usual : cstate ≠ .owned) : cstate ≠ .invalid ∧ cstate ≠ .owned ∧ cstate ≠ .sharedUpgrading := by
  unfold operationPermissible at permissible
  cases cstate <;> split at permissible <;> simp_all [CState.readable, CState.writable]

theorem Gap.copyDataFromNextLevel_meets {req : Request t} (gap : state.Gap req.address (node :: holes))
    (apart : node ∉ holes) (isNext : t.next node = some next)
    (within : state.Within req.address (node :: holes) (state.getCacheState next req.address).rank)
    (clean : tidy → state.CleanVictim node req.address (req.way node)) :
    Meets (Fault.Allowed tidy) (state.copyDataFromNextLevel req node next) fun after =>
      after.Gap req.address holes ∧ operationPermissible req.op (after.getCacheState node req.address) = true ∧
        after.Within req.address holes (after.getCacheState node req.address).rank ∧
        state.Becomes (t.Below · node)
          (state.inserted node req.address (state.getCacheState next req.address) (req.way node)) after := by
  have absent := gap.empty node List.mem_cons_self
  unfold copyDataFromNextLevel
  refine .ite (fun _ => .error (Fault.allowed rfl (by rintro ⟨⟩))) fun permissible => ?_
  rw [gap.sound.getCacheState_eq_invalid.mp absent]
  have permissible : operationPermissible req.op (state.getCacheState next req.address) = true := by
    simpa using permissible
  have proper := permissible_proper permissible (gap.usual next req.address).1
  refine (gap.insertCacheBlock_meets apart proper
    (fun prev isPrev => within prev node isPrev List.mem_cons_self) ?_ clean).mono ?_
  · intro upper isUpper
    rw [isNext, Option.some.injEq] at isUpper
    rw [isUpper]
  · rintro after ⟨filled, becomes⟩
    have view (other : t.Node) : after.getCacheState other req.address =
        if other = node then state.getCacheState next req.address else state.getCacheState other req.address := by
      rw [becomes.view, inserted_same gap.sound absent]
    refine ⟨filled, ?_, ?_, becomes⟩
    · rw [view, if_pos rfl]
      exact permissible
    · intro prev hole isHole member
      rw [view, view, if_pos rfl]
      split
      · exact Nat.le_refl _
      · exact within prev hole isHole (List.mem_cons_of_mem _ member)

/-! ### Requests -/

/-- The request is served by the cache: the order holds up to the caches on its way. -/
structure Serves (after : State t) (req : Request t) (node : t.Node) (holes : List t.Node) : Prop where
  gap : after.Gap req.address holes
  permissible : operationPermissible req.op (after.getCacheState node req.address) = true
  within : after.Within req.address holes (after.getCacheState node req.address).rank

/-- What a hit tells the other previous-level caches. -/
inductive Tells (state : State t) (req : Request t) (node : t.Node) (requester : Option t.Node) : State t → Prop where
  | nothing : req.op.exclusive = false → state.getCacheState node req.address ≠ .modified →
      Tells state req node requester state
  | told {after : State t} (cstate : CState) : cstate = .invalid ∨ cstate = .shared ∧ req.op.exclusive = false →
      state.Becomes (Topology.Under (t.others node requester))
        (state.updated (Topology.Under (t.others node requester)) req.address cstate) after →
      Tells state req node requester after

theorem Gap.hit_meets {req : Request t} {requester : Option t.Node} (gap : state.Gap req.address holes)
    (dry : state.Within req.address holes 2) (present : state.getCacheState node req.address ≠ .invalid) :
    Meets (Fault.Allowed tidy) (state.hit req node requester) fun after =>
      after.Gap req.address holes ∧ state.Tells req node requester after := by
  have update {cstate : CState} (lowers : cstate = .invalid ∨ cstate = .shared ∧ req.op.exclusive = false) :
      Meets (Fault.Allowed tidy) (state.updateOthers node requester req.address cstate) fun after =>
        after.Gap req.address holes ∧ state.Tells req node requester after := by
    refine (gap.updateOthers_meets dry (lowers.imp id And.left)).mono ?_
    rintro after ⟨lowered, becomes⟩
    exact ⟨lowered, .told cstate lowers becomes⟩
  unfold hit
  cases operation : req.op with
  | read =>
    refine .ite (fun _ => update (.inr ⟨rfl, by rw [operation]; rfl⟩)) fun clean => .ok ⟨gap, .nothing ?_ ?_⟩
    · rw [operation]
      rfl
    · exact fun modified => clean (.inl modified)
  | readEx => exact update (.inl rfl)
  | write store =>
    have looked : Meets (Fault.Allowed tidy)
        (if req.modeled then state.getBlockIndex node req.address else .ok state) (· = state) :=
      .ite (fun _ => getBlockIndex_meets gap.sound fun _ _ => present) fun _ => .ok rfl
    refine looked.bind fun same equal => ?_
    subst equal
    exact update (.inl rfl)

theorem Tells.serves {req : Request t} {requester : Option t.Node} (tells : state.Tells req node requester after)
    (gap : after.Gap req.address holes)
    (within : state.Within req.address holes (state.getCacheState node req.address).rank)
    (permissible : operationPermissible req.op (state.getCacheState node req.address) = true) :
    after.Serves req node holes := by
  cases tells with
  | nothing => exact ⟨gap, permissible, within⟩
  | told cstate lowers becomes =>
    have here : after.getCacheState node req.address = state.getCacheState node req.address :=
      becomes.keeps_self .refl _
    refine ⟨gap, here ▸ permissible, ?_⟩
    rw [here]
    exact becomes.within (lowers.imp id And.left) within

theorem Gap.raise (gap : state.Gap address holes) (last : t.above node = []) (apart : node ∉ holes)
    (present : state.getCacheState node address ≠ .invalid)
    (more : (state.getCacheState node address).rank ≤ cstate.rank)
    (proper : cstate ≠ .invalid ∧ cstate ≠ .owned) :
    (state.setCacheState node address cstate).Gap address holes ∧
      (∀ other, (state.setCacheState node address cstate).getCacheState other address =
        if other = node then cstate else state.getCacheState other address) := by
  have becomes : state.Becomes _ _ (state.setCacheState node address cstate) := gap.sound.setCacheState proper.1
  have view (other : t.Node) : (state.setCacheState node address cstate).getCacheState other address =
      if other = node then cstate else state.getCacheState other address := by
    rw [becomes.view, CState.become, if_neg present]
    simp
  have elsewhere {line : Addr} (different : line ≠ address) (other : t.Node) :
      (state.setCacheState node address cstate).getCacheState other line = state.getCacheState other line := by
    rw [becomes.view, if_neg (fun both => different both.2)]
  refine ⟨?_, view⟩
  constructor
  case sound => exact becomes.sound
  case idle => exact gap.idle
  case usual =>
    intro other line
    rw [becomes.view, CState.become, if_neg present]
    split
    case isTrue here => exact ⟨proper.2, fun _ => here.1 ▸ last⟩
    case isFalse => exact gap.usual other line
  case others =>
    intro line different other next isNext
    rw [elsewhere different, elsewhere different]
    exact gap.others line different other next isNext
  case order =>
    intro other next isNext whole
    have le := gap.order other next isNext whole
    have lower : other ≠ node := Topology.ne_of_last last isNext
    rw [view, view, if_neg lower]
    split
    case isTrue same =>
      rw [same] at le
      exact Nat.le_trans le more
    case isFalse => exact le
  case empty =>
    intro hole member
    have different : hole ≠ node := fun same => apart (same ▸ member)
    rw [view, if_neg different]
    exact gap.empty hole member

end Sniper.Hierarchy.State

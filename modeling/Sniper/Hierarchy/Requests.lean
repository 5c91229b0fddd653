import Sniper.Hierarchy.Inclusion

/-! Requests on their way through the levels keep inclusion. -/

namespace Sniper.Hierarchy.State

variable {Addr : Type} [DecidableEq Addr] {t : Topology Addr} {node next other : t.Node}
  {state after : State t} {req : Request t} {requester : Option t.Node} {holes : List t.Node}
  {tidy : Prop}

/-- The result of a request: it was served, or it went to the directory and, if nothing was left
below the caches on its way, the order is whole again. -/
def Answered (req : Request t) (node : t.Node) (holes : List t.Node) (clear : Prop)
    (result : State t × Bool) : Prop :=
  match result with
  | (after, true) => after.Serves req node holes
  | (after, false) => clear → after.Inclusive

/-- What a miss of the last-level cache may evict. -/
def Careful (state : State t) (req : Request t) (node : t.Node) : Prop :=
  t.direct = true → state.getCacheState node req.address = .invalid →
    state.CleanVictim node req.address (req.way node)

theorem Gap.initiateDirectoryAccess_meets (gap : state.Gap req.address holes) (last : t.above node = [])
    (apart : node ∉ holes) :
    Meets (Fault.Allowed tidy) (state.initiateDirectoryAccess req node) fun after =>
      state.Within req.address holes 0 → after.Inclusive := by
  unfold initiateDirectoryAccess
  refine .ite (fun _ => .ite (fun shared => ?_) fun _ => .ite (fun _ => ?_) fun _ => .error (Fault.allowed rfl (by rintro ⟨⟩))) fun _ => ?_
  · obtain ⟨raised, view⟩ := gap.raise last apart (by rw [shared]; rintro ⟨⟩)
      (by rw [shared]; exact Nat.le_refl _) (show CState.sharedUpgrading ≠ _ ∧ _ from ⟨by rintro ⟨⟩, by rintro ⟨⟩⟩)
    refine .ok fun within => raised.inclusive fun prev hole isNext member => ?_
    have lower : prev ≠ node := Topology.ne_of_last last isNext
    rw [view, if_neg lower]
    exact within prev hole isNext member
  · exact .ok gap.inclusive
  · exact .ok gap.inclusive

theorem permissible_modified {op : MemOp Unit} : operationPermissible op .modified = true := by
  cases op <;> rfl

theorem rank_lt_two {op : MemOp Unit} {cstate : CState} (missed : operationPermissible op cstate = false)
    (other : cstate ≠ .exclusive) : cstate.rank < 2 := by
  cases cstate with
  | invalid | shared | sharedUpgrading | owned => decide
  | exclusive => exact absurd rfl other
  | modified =>
    rw [permissible_modified] at missed
    cases missed

/-- The state of a line that a miss brings from DRAM. -/
theorem filled_proper (exclusive : Bool) :
    (if exclusive then CState.modified else .shared) ≠ .invalid ∧ (if exclusive then CState.modified else .shared) ≠ .owned ∧
      (if exclusive then CState.modified else .shared) ≠ .sharedUpgrading := by
  split <;> exact ⟨by rintro ⟨⟩, by rintro ⟨⟩, by rintro ⟨⟩⟩

theorem Gap.lastLevelMiss_meets (gap : state.Gap req.address holes) (last : t.above node = [])
    (apart : node ∉ holes) (dry : state.Within req.address holes 2)
    (within : state.Within req.address holes (state.getCacheState node req.address).rank)
    (missed : operationPermissible req.op (state.getCacheState node req.address) = false)
    (careful : tidy → state.Careful req node) :
    Meets (Fault.Allowed tidy) (state.lastLevelMiss req node requester) (Answered req node holes
      (state.Within req.address holes 0 ∨ 2 ≤ (state.getCacheState node req.address).rank)) := by
  have writes {before : State t} (whole : before.Gap req.address holes)
      (bounded : before.Within req.address holes 3)
      (present : before.getCacheState node req.address ≠ .invalid) :
      (before.setCacheState node req.address .modified).Serves req node holes := by
    have most : (before.getCacheState node req.address).rank ≤ CState.modified.rank := by
      cases before.getCacheState node req.address <;> decide
    obtain ⟨raised, view⟩ := whole.raise last apart present most ⟨by rintro ⟨⟩, by rintro ⟨⟩⟩
    refine ⟨raised, ?_, ?_⟩
    · rw [view, if_pos rfl]
      exact permissible_modified
    · intro prev hole isNext member
      have lower : prev ≠ node := Topology.ne_of_last last isNext
      rw [view, view, if_neg lower, if_pos rfl]
      exact bounded prev hole isNext member
  have asks (other : state.getCacheState node req.address ≠ .exclusive) : Meets (Fault.Allowed tidy) (do
      let after ← state.initiateDirectoryAccess req node
      Except.ok (after, false)) (Answered req node holes
        (state.Within req.address holes 0 ∨ 2 ≤ (state.getCacheState node req.address).rank)) := by
    refine (gap.initiateDirectoryAccess_meets last apart).bind fun after inclusive => ?_
    refine .ok fun clear => inclusive (clear.resolve_right ?_)
    exact Nat.not_le.mpr (rank_lt_two missed other)
  unfold lastLevelMiss
  cases stored : state.getCacheBlockInfo node req.address with
  | some block =>
    have current := getCacheState_of_block stored
    have present : state.getCacheState node req.address ≠ .invalid := by
      rw [current]
      exact (gap.sound node).live stored
    refine .ite (fun _ => ?_) fun other => .ite (fun _ => ?_) fun _ => asks (by rw [current]; exact other)
    · have update : Meets (Fault.Allowed tidy) (state.updateOthers node requester req.address .invalid) _ :=
        gap.updateOthers_meets dry (.inl rfl)
      refine update.bind ?_
      rintro after ⟨lowered, becomes⟩
      refine .ok ?_
      refine writes lowered ((becomes.within (.inl rfl) dry).mono (by decide)) ?_
      rw [becomes.keeps_self .refl]
      exact present
    · exact .ok (writes gap (dry.mono (by decide)) present)
  | none =>
    have absent := gap.sound.getCacheState_eq_invalid.mpr stored
    refine .ite (fun direct => ?_) fun _ => asks (by rw [absent]; rintro ⟨⟩)
    have insert : Meets (Fault.Allowed tidy) (state.insertCacheBlock node req.address
        (if req.op.exclusive then .modified else .shared) (req.way node)) _ :=
      (gap.widen absent).insertCacheBlock_meets apart (filled_proper req.op.exclusive)
        (by
          intro prev isNext
          have le := gap.order prev node isNext apart
          rw [absent] at le
          exact Nat.le_trans le (Nat.zero_le _))
        (by
          intro next isNext
          rw [Topology.next, last] at isNext
          cases isNext)
        (fun holds => careful holds direct absent)
    refine insert.bind ?_
    rintro after ⟨filled, becomes⟩
    refine .ok ⟨filled, ?_, ?_⟩
    · rw [becomes.view, inserted_same gap.sound absent, if_pos rfl, operationPermissible]
      cases req.op.exclusive <;> rfl
    · intro prev hole isNext member
      have lower : prev ≠ node := Topology.ne_of_last last isNext
      rw [becomes.view, inserted_same gap.sound absent, if_neg lower]
      have le := within prev hole isNext member
      rw [absent] at le
      exact Nat.le_trans le (Nat.zero_le _)

/-- Nothing is left below the caches on the way of a request, or the next one can serve any request. -/
def Clear (state : State t) (req : Request t) (node : t.Node) (requester : Option t.Node)
    (holes : List t.Node) : Prop :=
  (state.Within req.address holes 0 ∨ 2 ≤ (state.getCacheState node req.address).rank) ∧
    ∀ prev, requester = some prev → state.getCacheState prev req.address = .invalid

theorem retrieveCacheBlock_meets {address : Addr} {post : State t → Prop} (holds : post state) :
    Meets (Fault.Allowed tidy) (state.retrieveCacheBlock node address) post :=
  .ite (fun _ => .ok holds) fun _ => .error (Fault.allowed rfl (by rintro ⟨⟩))

/-- The state of a line in one cache only. -/
structure Emptied (state : State t) (node : t.Node) (address : Addr) (after : State t) : Prop where
  here : ∀ other, after.getCacheState other address =
    if other = node then .invalid else state.getCacheState other address
  lines : ∀ other line, line ≠ address → after.getCacheState other line = state.getCacheState other line
  frame : ∀ other, other ≠ node → after.cache other = state.cache other

theorem Emptied.asker (emptied : state.Emptied node req.address after) (prev : t.Node)
    (isRequester : req.cntlr node = some prev) : after.getCacheState prev req.address = .invalid := by
  unfold Request.cntlr at isRequester
  split at isRequester
  case isTrue =>
    cases isRequester
    rw [emptied.here, if_pos rfl]
  case isFalse => cases isRequester

theorem Gap.leave_meets {address : Addr} (gap : state.Gap address holes) :
    Meets (Fault.Allowed tidy)
      (if (state.getCacheBlockInfo node address).isSome then state.invalidateCacheBlock node address else .ok state)
      fun after => after.Gap address (node :: holes) ∧ state.Emptied node address after := by
  refine .ite (fun _ => .ite (fun _ => .error (Fault.allowed rfl (by rintro ⟨⟩))) fun _ => .ok ?_) fun missing => .ok ?_
  · have becomes : state.Becomes _ _ (state.setCache node ((state.cache node).invalidateSingleLine address)) :=
      gap.sound.invalidate
    have emptied : state.Emptied node address
        (state.setCache node ((state.cache node).invalidateSingleLine address)) := by
      refine ⟨fun other => ?_, fun other line apart => ?_, becomes.frame⟩
      · rw [becomes.view]
        simp
      · rw [becomes.view, if_neg (fun both => apart both.2)]
    refine ⟨?_, emptied⟩
    constructor
    case sound => exact becomes.sound
    case idle => exact gap.idle
    case usual =>
      intro other line
      rw [becomes.view]
      split
      · exact ⟨by rintro ⟨⟩, by rintro ⟨⟩⟩
      · exact gap.usual other line
    case others =>
      intro line apart other next isNext
      rw [emptied.lines other line apart, emptied.lines next line apart]
      exact gap.others line apart other next isNext
    case order =>
      intro other next isNext whole
      obtain ⟨apart, whole⟩ := not_or.mp (mt List.mem_cons.mpr whole)
      rw [emptied.here, emptied.here, if_neg apart]
      split
      · exact Nat.zero_le _
      · exact gap.order other next isNext whole
    case empty =>
      intro hole member
      rw [emptied.here]
      rcases List.mem_cons.mp member with same | member
      · rw [if_pos same]
      · rw [gap.empty hole member, ite_self]
  · have absent : state.getCacheState node address = .invalid := by
      rw [gap.sound.getCacheState_eq_invalid]
      simpa using missing
    refine ⟨gap.widen absent, fun other => ?_, fun _ _ _ => rfl, fun _ _ => rfl⟩
    split
    case isTrue same => rw [same, absent]
    case isFalse => rfl

/-- What holds after the copies next to the one of a requester have been told of an upgrade. -/
structure Readied (state : State t) (req : Request t) (node : t.Node) (requester : Option t.Node)
    (holes : List t.Node) (after : State t) : Prop where
  gap : after.Gap req.address holes
  told : after = state ∧ state.getCacheState node req.address ≠ .shared ∨
    state.Becomes (Topology.Under (t.others node requester))
      (state.updated (Topology.Under (t.others node requester)) req.address .invalid) after

theorem getCacheState_congr {line : Addr} (same : after.cache node = state.cache node) :
    after.getCacheState node line = state.getCacheState node line := by
  rw [getCacheState, same, getCacheState]

theorem Becomes.emptied {address : Addr}
    (becomes : state.Becomes (Topology.Under (t.others node requester))
      (state.updated (Topology.Under (t.others node requester)) address .invalid) after)
    (member : other ∈ t.others node requester) : after.getCacheState other address = .invalid := by
  rw [becomes.view, State.updated, if_pos ⟨rfl, other, member, .refl⟩, CState.become_invalid]

namespace Readied

theorem lowered (readied : state.Readied req node requester holes after) (bound : Nat)
    (within : state.Within req.address holes bound) : after.Within req.address holes bound := by
  rcases readied.told with ⟨same, _⟩ | becomes
  · exact same ▸ within
  · exact becomes.within (.inl rfl) within

theorem frame (readied : state.Readied req node requester holes after) (other : t.Node)
    (above : t.Below node other) : after.cache other = state.cache other := by
  rcases readied.told with ⟨same, _⟩ | becomes
  · rw [same]
  · exact becomes.frame other (Topology.not_under_others above)

theorem lines (readied : state.Readied req node requester holes after) (other : t.Node) (line : Addr)
    (apart : line ≠ req.address) : after.getCacheState other line = state.getCacheState other line := by
  rcases readied.told with ⟨same, _⟩ | becomes
  · rw [same]
  · rw [becomes.view, State.updated, if_neg (fun both => apart both.1)]

theorem emptied (readied : state.Readied req node requester holes after)
    (asker : ∀ prev, requester = some prev → state.getCacheState prev req.address = .invalid)
    (shared : state.getCacheState node req.address = .shared) (prev : t.Node) (isNext : t.next prev = some node) :
    after.getCacheState prev req.address = .invalid := by
  have becomes := readied.told.resolve_left fun both => both.2 shared
  by_cases isRequester : some prev = requester
  · rw [becomes.view, State.updated, asker prev isRequester.symm]
    split <;> rfl
  · exact becomes.emptied (Topology.mem_others.mpr ⟨isNext, isRequester⟩)

theorem keeps (readied : state.Readied req node requester holes after) (above : t.Below node other)
    (line : Addr) : after.getCacheState other line = state.getCacheState other line :=
  getCacheState_congr (readied.frame other above)

end Readied

theorem Gap.ready_meets (gap : state.Gap req.address holes) (dry : state.Within req.address holes 2) :
    Meets (Fault.Allowed tidy)
      (if (state.getCacheBlockInfo node req.address).map Block.cstate = some .shared
        then state.updateOthers node requester req.address .invalid else .ok state)
      (state.Readied req node requester holes) := by
  refine .ite (fun _ => ?_) fun other => .ok ⟨gap, .inl ⟨rfl, fun shared => ?_⟩⟩
  · refine (gap.updateOthers_meets dry (.inl rfl)).mono ?_
    rintro after ⟨lowered, becomes⟩
    exact ⟨lowered, .inr becomes⟩
  · cases stored : state.getCacheBlockInfo node req.address with
    | none =>
      rw [gap.sound.getCacheState_eq_invalid.mpr stored] at shared
      cases shared
    | some block =>
      rw [getCacheState_of_block stored] at shared
      exact absurd (by rw [stored, Option.map_some, shared]) other

theorem Careful.congr {top : t.Node} (careful : state.Careful req top)
    (same : after.cache top = state.cache top) (sound : after.Sound)
    (lines : ∀ other line, line ≠ req.address → after.getCacheState other line = state.getCacheState other line) :
    after.Careful req top := by
  intro direct absent l3 line evicts prev isPrev
  rw [lines prev line (victim_valid sound absent evicts).1]
  have before : state.getCacheState top req.address = .invalid := by rwa [getCacheState_congr same] at absent
  have evicted : state.victim top req.address (req.way top) = some line := by rwa [victim, same] at evicts
  exact careful direct before l3 line evicted prev isPrev

/-- L3 caches are last-level caches, and what a request may evict from the last level above a cache
is clean. -/
def CarefulAbove (state : State t) (req : Request t) (node : t.Node) : Prop :=
  (∀ cache, t.isL3 cache = true → t.above cache = []) ∧
    ∀ top, t.Below node top → t.above top = [] → state.Careful req top

theorem hit_and_retrieve_meets (gap : state.Gap req.address holes) (dry : state.Within req.address holes 2)
    (within : state.Within req.address holes (state.getCacheState node req.address).rank)
    (permissible : operationPermissible req.op (state.getCacheState node req.address) = true) (clear : Prop) :
    Meets (Fault.Allowed tidy) (do
      let state ← state.hit req node requester
      let state ← state.retrieveCacheBlock node req.address
      Except.ok (state, true)) (Answered req node holes clear) := by
  have present := (permissible_proper permissible (gap.usual node req.address).1).1
  refine (gap.hit_meets dry present).bind ?_
  rintro hit ⟨hitGap, tells⟩
  have kept : Meets (Fault.Allowed tidy) (hit.retrieveCacheBlock node req.address) (· = hit) :=
    retrieveCacheBlock_meets rfl
  refine kept.bind fun after same => ?_
  subst same
  exact .ok (tells.serves hitGap within permissible)

theorem retrieve_served_meets {address : Addr} {served : Bool} {post : State t × Bool → Prop}
    (holds : post (state, served)) :
    Meets (Fault.Allowed tidy)
      (if served then do
        let state ← state.retrieveCacheBlock node address
        Except.ok (state, true)
      else Except.ok (state, false)) post := by
  cases served with
  | false => exact .ok holds
  | true =>
    have kept : Meets (Fault.Allowed tidy) (state.retrieveCacheBlock node address) (· = state) :=
      retrieveCacheBlock_meets rfl
    refine kept.bind fun after same => ?_
    subst same
    exact .ok holds

/-- What a cache between the first and the last level leaves to its next level. -/
structure Passes (state : State t) (req : Request t) (node next : t.Node) (requester : Option t.Node)
    (holes : List t.Node) (after : State t) : Prop where
  gap : after.Gap req.address (node :: holes)
  dry : after.Within req.address (node :: holes) 2
  within : after.Within req.address (node :: holes) (after.getCacheState next req.address).rank
  clear : state.Clear req node requester holes → after.Clear req next (req.cntlr node) (node :: holes)
  careful : ∀ top, t.Below next top → state.Careful req top → after.Careful req top

theorem Emptied.passes {ready : State t} (isNext : t.next node = some next)
    (missed : operationPermissible req.op (state.getCacheState node req.address) = false)
    (whole : node ∉ holes ∧ next ∉ holes) (dry : state.Within req.address holes 2)
    (within : state.Within req.address holes (state.getCacheState node req.address).rank)
    (readied : state.Readied req node requester holes ready) (gap : after.Gap req.address (node :: holes))
    (emptied : ready.Emptied node req.address after) : state.Passes req node next requester holes after := by
  have here : ready.getCacheState node req.address = state.getCacheState node req.address :=
    readied.keeps .refl _
  have above : t.Below node next := (Topology.below_of_next isNext).mpr (.inr .refl)
  have upper : after.getCacheState next req.address = state.getCacheState next req.address := by
    rw [emptied.here, if_neg (Topology.ne_of_next isNext), readied.keeps above]
  have climbs : (state.getCacheState node req.address).rank ≤ (after.getCacheState next req.address).rank := by
    have le := readied.gap.order node next isNext whole.2
    rwa [here, readied.keeps above, ← upper] at le
  have lower {prev : t.Node} (isPrev : t.next prev = some node) :
      (after.getCacheState prev req.address).rank ≤ (state.getCacheState node req.address).rank := by
    rw [emptied.here]
    split
    · exact Nat.zero_le _
    · exact here ▸ readied.gap.order prev node isPrev whole.1
  have left {bound : Nat} (before : state.Within req.address holes bound) :
      after.Within req.address holes bound := by
    intro prev hole isHole member
    rw [emptied.here]
    split
    · exact Nat.zero_le _
    · exact readied.lowered bound before prev hole isHole member
  have atMost : (state.getCacheState node req.address).rank ≤ 2 := by
    cases current : state.getCacheState node req.address with
    | modified =>
      rw [current, permissible_modified] at missed
      cases missed
    | invalid | shared | sharedUpgrading | owned | exclusive => decide
  constructor
  case gap => exact gap
  case dry =>
    intro prev hole isHole member
    rcases List.mem_cons.mp member with same | member
    · subst same
      exact Nat.le_trans (lower isHole) atMost
    · exact left dry prev hole isHole member
  case within =>
    intro prev hole isHole member
    rcases List.mem_cons.mp member with same | member
    · subst same
      exact Nat.le_trans (lower isHole) climbs
    · exact Nat.le_trans (left within prev hole isHole member) climbs
  case clear =>
    rintro ⟨nothing, asker⟩
    refine ⟨?_, emptied.asker⟩
    · by_cases more : 2 ≤ (state.getCacheState node req.address).rank
      · exact .inr (Nat.le_trans more climbs)
      · refine .inl fun prev hole isHole member => ?_
        rcases List.mem_cons.mp member with same | member
        · subst same
          cases current : state.getCacheState hole req.address with
          | invalid =>
            have le := lower isHole
            rwa [current] at le
          | shared =>
            rw [emptied.here, readied.emptied asker current prev isHole, ite_self]
            exact Nat.le_refl _
          | sharedUpgrading =>
            have last := (readied.gap.usual hole req.address).2 (here.trans current)
            rw [Topology.next, last] at isNext
            cases isNext
          | owned => exact absurd (here.trans current) (readied.gap.usual hole req.address).1
          | exclusive | modified =>
            rw [current] at more
            exact absurd (by decide) more
        · exact left (nothing.resolve_right more) prev hole isHole member
  case careful =>
    intro top below careful
    have apart : top ≠ node := fun same => Topology.not_below_next isNext (same ▸ below)
    have higher : t.Below node top := (Topology.below_of_next isNext).mpr (.inr below)
    refine careful.congr ((emptied.frame top apart).trans (readied.frame top higher)) gap.sound ?_
    intro other line different
    rw [emptied.lines other line different, readied.lines other line different]

theorem Readied.lastLevelMiss_meets {ready : State t} (readied : state.Readied req node requester holes ready)
    (last : t.above node = []) (whole : node ∉ holes) (dry : state.Within req.address holes 2)
    (within : state.Within req.address holes (state.getCacheState node req.address).rank)
    (missed : operationPermissible req.op (state.getCacheState node req.address) = false)
    (careful : tidy → state.CarefulAbove req node) :
    Meets (Fault.Allowed tidy) (ready.lastLevelMiss req node requester)
      (Answered req node holes (state.Clear req node requester holes)) := by
  have here : ready.getCacheState node req.address = state.getCacheState node req.address := readied.keeps .refl _
  refine (readied.gap.lastLevelMiss_meets last whole (readied.lowered 2 dry) ?_ ?_ ?_).mono ?_
  · rw [here]
    exact readied.lowered _ within
  · rw [here]
    exact missed
  · intro holds
    exact ((careful holds).2 node .refl last).congr (readied.frame node .refl) readied.gap.sound readied.lines
  · rintro ⟨after, served⟩ answered
    cases served with
    | true => exact answered
    | false =>
      rintro ⟨clear, _⟩
      refine answered (clear.imp (readied.lowered 0) fun more => ?_)
      rwa [here]

theorem processShmemReqFromPrevCache_meets (gap : state.Gap req.address holes)
    (low : ∀ hole ∈ holes, t.level hole < t.level node) (dry : state.Within req.address holes 2)
    (within : state.Within req.address holes (state.getCacheState node req.address).rank)
    (careful : tidy → state.CarefulAbove req node) :
    Meets (Fault.Allowed tidy) (state.processShmemReqFromPrevCache req (node :: t.above node) requester)
      (Answered req node holes (state.Clear req node requester holes)) := by
  have whole {node : t.Node} {holes : List t.Node} (low : ∀ hole ∈ holes, t.level hole < t.level node) :
      node ∉ holes := fun member => Nat.lt_irrefl _ (low node member)
  induction node using Topology.above_induction generalizing state requester holes with
  | last node last =>
    rw [last, processShmemReqFromPrevCache]
    refine .ite (fun permissible => hit_and_retrieve_meets gap dry within permissible _) fun missed => ?_
    refine (gap.ready_meets dry).bind fun ready readied => ?_
    have served := readied.lastLevelMiss_meets last (whole low) dry within (by simpa using missed) careful
    refine served.bind ?_
    rintro ⟨after, served⟩ facts
    exact retrieve_served_meets facts
  | step node next isNext ih =>
    have levels := Topology.above_of_next isNext
    have higher := t.level_next levels
    have notHole := whole low
    have above : next ∉ holes := fun member => by
      have lower := low next member
      omega
    rw [levels, processShmemReqFromPrevCache]
    refine .ite (fun permissible => hit_and_retrieve_meets gap dry within permissible _) fun missed => ?_
    have missed : operationPermissible req.op (state.getCacheState node req.address) = false := by
      simpa using missed
    refine (gap.ready_meets dry).bind fun ready readied => ?_
    have block : state.getCacheBlockInfo node req.address = ready.getCacheBlockInfo node req.address := by
      rw [getCacheBlockInfo, getCacheBlockInfo, readied.frame node .refl]
    rw [block]
    have low : ∀ hole ∈ node :: holes, t.level hole < t.level next := by
      intro hole member
      rcases List.mem_cons.mp member with same | member
      · subst same
        omega
      · have lower := low hole member
        omega
    have inner : Meets (Fault.Allowed tidy) (do
        let left ← (if (ready.getCacheBlockInfo node req.address).isSome
          then ready.invalidateCacheBlock node req.address else .ok ready)
        let result ← left.processShmemReqFromPrevCache req (next :: t.above next) (req.cntlr node)
        if result.2 then do
          let mid ← result.1.copyDataFromNextLevel req node next
          Except.ok (mid, true)
        else Except.ok (result.1, false)) (Answered req node holes (state.Clear req node requester holes)) := by
      refine readied.gap.leave_meets.bind ?_
      rintro left ⟨leftGap, emptied⟩
      have passes := emptied.passes isNext missed ⟨notHole, above⟩ dry within readied leftGap
      refine (ih passes.gap low passes.dry passes.within ?_).bind ?_
      · intro holds
        refine ⟨(careful holds).1, fun top below last => passes.careful top below ?_⟩
        exact (careful holds).2 top ((Topology.below_of_next isNext).mpr (.inr below)) last
      · rintro ⟨mid, served⟩ answered
        cases served with
        | false => exact .ok fun clear => answered (passes.clear clear)
        | true =>
          refine (answered.gap.copyDataFromNextLevel_meets notHole isNext answered.within ?_).bind ?_
          · intro holds l3
            rw [Topology.next, (careful holds).1 node l3] at isNext
            cases isNext
          · rintro after ⟨filled, permissible, within, _⟩
            exact .ok ⟨filled, permissible, within⟩
    refine inner.bind ?_
    rintro ⟨after, served⟩ facts
    exact retrieve_served_meets facts

end Sniper.Hierarchy.State

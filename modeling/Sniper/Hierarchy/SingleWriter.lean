import Sniper.Hierarchy.ThreeLevel

/-! Whether a core that has a line `MODIFIED` is the only one that has it, in a tree of caches whose last
level accesses DRAM itself. -/

namespace Sniper.Hierarchy

variable {Addr : Type} [DecidableEq Addr] {t : Topology Addr} {node next other top : t.Node}
  {requester : Option t.Node} {req : Request t} {holes : List t.Node}

namespace State

variable {state mid after : State t} {address : Addr} {cstate : CState} {raised : t.Node → Prop}

def Settled (state : State t) : Prop := ∀ node line, state.getCacheState node line ≠ .sharedUpgrading

/-- A step that takes rights away, except from the given caches. -/
structure Lowers (state : State t) (raised : t.Node → Prop) (after : State t) : Prop where
  modified : ∀ node line, ¬raised node → after.getCacheState node line = .modified →
    state.getCacheState node line = .modified
  invalid : ∀ node line, ¬raised node → state.getCacheState node line = .invalid →
    after.getCacheState node line = .invalid
  settled : state.Settled → after.Settled

theorem Lowers.refl : state.Lowers raised state := ⟨fun _ _ _ => id, fun _ _ _ => id, id⟩

theorem Lowers.trans (first : state.Lowers raised mid) (second : mid.Lowers raised after) :
    state.Lowers raised after where
  modified node line low modified := first.modified node line low (second.modified node line low modified)
  invalid node line low invalid := second.invalid node line low (first.invalid node line low invalid)
  settled settled := second.settled (first.settled settled)

theorem Lowers.of_view (view : ∀ node line, raised node ∧ after.getCacheState node line ≠ .sharedUpgrading ∨
      after.getCacheState node line = state.getCacheState node line ∨ after.getCacheState node line = .invalid ∨
      state.getCacheState node line ≠ .invalid ∧ after.getCacheState node line = .shared) :
    state.Lowers raised after := by
  refine ⟨fun node line low modified => ?_, fun node line low absent => ?_, fun settled node line => ?_⟩
  · rcases view node line with up | same | gone | less
    · exact absurd up.1 low
    · rw [← same, modified]
    · rw [gone] at modified
      cases modified
    · rw [less.2] at modified
      cases modified
  · rcases view node line with up | same | gone | less
    · exact absurd up.1 low
    · rw [same, absent]
    · exact gone
    · exact absurd absent less.1
  · rcases view node line with up | same | gone | less
    · exact up.2
    · rw [same]
      exact settled node line
    · rw [gone]
      rintro ⟨⟩
    · rw [less.2]
      rintro ⟨⟩

theorem Becomes.lowers {caches : t.Node → Prop} [DecidablePred caches]
    (becomes : state.Becomes caches (state.updated caches address cstate) after)
    (less : cstate = .invalid ∨ cstate = .shared) : state.Lowers raised after := by
  refine .of_view fun node line => .inr ?_
  rw [becomes.view, State.updated, CState.become]
  split
  · split
    · exact .inr (.inl rfl)
    · exact .inr (less.imp id fun shared => ⟨by assumption, shared⟩)
  · exact .inl rfl

theorem Becomes.lowers_inserted {way : Fin (t.geometry node).associativity}
    (becomes : state.Becomes (t.Below · node) (state.inserted node address cstate way) after)
    (proper : cstate ≠ .sharedUpgrading) : state.Lowers (· = node) after := by
  refine .of_view fun other line => ?_
  rw [becomes.view, inserted]
  split
  case isTrue here => exact .inl ⟨here.1, proper⟩
  case isFalse =>
    split
    · exact .inr (.inr (.inl rfl))
    · exact .inr (.inl rfl)

theorem Emptied.lowers (emptied : state.Emptied node address after) : state.Lowers raised after := by
  refine .of_view fun other line => .inr ?_
  by_cases same : line = address
  · rw [same, emptied.here]
    split
    · exact .inr (.inl rfl)
    · exact .inl rfl
  · exact .inl (emptied.lines other line same)

theorem Readied.lowers (readied : state.Readied req node requester holes after) : state.Lowers raised after := by
  rcases readied.told with ⟨same, _⟩ | becomes
  · exact same ▸ .refl
  · exact becomes.lowers (.inl rfl)

theorem Tells.lowers (tells : state.Tells req node requester after) : state.Lowers raised after := by
  cases tells with
  | nothing => exact .refl
  | told cstate less becomes => exact becomes.lowers (less.imp id And.left)

def Alone (state : State t) (node : t.Node) (requester : Option t.Node) (address : Addr) : Prop :=
  ∀ other ∈ t.others node requester, state.getCacheState other address = .invalid

theorem Alone.lowers (alone : state.Alone node requester address) (lowers : state.Lowers (· = node) after) :
    after.Alone node requester address := by
  intro other member
  have low : other ≠ node := (Topology.ne_of_next (Topology.mem_others.mp member).1).symm
  exact lowers.invalid other address low (alone other member)

theorem Gap.lastLevelMiss_alone (direct : t.direct = true) (gap : state.Gap req.address holes)
    (last : t.above node = []) (apart : node ∉ holes) (dry : state.Within req.address holes 2)
    (settled : state.Settled)
    (missed : operationPermissible req.op (state.getCacheState node req.address) = false)
    (ready : state.getCacheState node req.address = .shared → state.Alone node requester req.address) :
    Meets (Fault.Allowed False) (state.lastLevelMiss req node requester) fun result =>
      state.Lowers (· = node) result.1 ∧ result.1.Alone node requester req.address := by
  have writes {before : State t} (whole : before.Gap req.address holes)
      (present : before.getCacheState node req.address ≠ .invalid) :
      before.Lowers (· = node) (before.setCacheState node req.address .modified) := by
    have becomes : before.Becomes _ _ (before.setCacheState node req.address .modified) :=
      whole.sound.setCacheState (by rintro ⟨⟩)
    refine .of_view fun other line => ?_
    rw [becomes.view, CState.become, if_neg present]
    split
    case isTrue here => exact .inl ⟨here.1, by rintro ⟨⟩⟩
    case isFalse => exact .inr (.inl rfl)
  unfold lastLevelMiss
  cases stored : state.getCacheBlockInfo node req.address with
  | some block =>
    have current := getCacheState_of_block stored
    have present : state.getCacheState node req.address ≠ .invalid := by
      rw [current]
      exact (gap.sound node).live stored
    refine .ite (fun _ => ?_) fun other => .ite (fun _ => .ok ?_) fun indirect => absurd direct indirect
    · have update : Meets (Fault.Allowed False) (state.updateOthers node requester req.address .invalid) _ :=
        gap.updateOthers_meets dry (.inl rfl)
      refine update.bind ?_
      rintro mid ⟨lowered, becomes⟩
      refine .ok ?_
      have alone : mid.Alone node requester req.address := fun other member => becomes.emptied member
      have more := writes lowered (by rw [becomes.keeps_self .refl]; exact present)
      exact ⟨(becomes.lowers (.inl rfl)).trans more, alone.lowers more⟩
    · have more := writes gap present
      refine ⟨more, (ready ?_).lowers more⟩
      cases now : state.getCacheState node req.address with
      | shared => rfl
      | invalid => exact absurd now present
      | sharedUpgrading => exact absurd now (settled node req.address)
      | owned => exact absurd now (gap.usual node req.address).1
      | exclusive => exact absurd (current.symm.trans now) other
      | modified =>
        rw [now, permissible_modified] at missed
        cases missed
  | none =>
    have absent := gap.sound.getCacheState_eq_invalid.mpr stored
    refine .ite (fun _ => ?_) fun indirect => absurd direct indirect
    have proper := filled_proper req.op.exclusive
    have nobody {prev : t.Node} (isNext : t.next prev = some node) :
        (state.getCacheState prev req.address).rank = 0 := by
      have le := gap.order prev node isNext apart
      rw [absent] at le
      exact Nat.le_zero.mp le
    have insert : Meets (Fault.Allowed False) (state.insertCacheBlock node req.address
        (if req.op.exclusive then .modified else .shared) (req.way node)) _ :=
      (gap.widen absent).insertCacheBlock_meets apart proper
        (fun prev isNext => by rw [nobody isNext]; exact Nat.zero_le _)
        (fun next isNext => by rw [Topology.next, last] at isNext; cases isNext) False.elim
    refine insert.bind ?_
    rintro after ⟨_, becomes⟩
    refine .ok ?_
    have more := becomes.lowers_inserted proper.2.2
    have alone : state.Alone node requester req.address := fun other member =>
      CState.rank_eq_zero.mp (nobody (Topology.mem_others.mp member).1)
    exact ⟨more, alone.lowers more⟩

theorem Tells.alone (tells : state.Tells req node requester after)
    (sharing : req.op.exclusive = false → state.getCacheState node req.address = .modified →
      state.Alone node requester req.address)
    (modified : after.getCacheState node req.address = .modified) : after.Alone node requester req.address := by
  cases tells with
  | nothing reads clean => exact absurd modified clean
  | told cstate less becomes =>
    rcases less with gone | ⟨shared, reads⟩
    · subst gone
      exact fun other member => becomes.emptied member
    · rw [becomes.keeps_self .refl] at modified
      exact (sharing reads modified).lowers (becomes.lowers (.inr shared))

theorem Gap.lastLevel_alone (direct : t.direct = true) (gap : state.Gap req.address holes)
    (last : t.above node = []) (apart : node ∉ holes) (dry : state.Within req.address holes 2)
    (settled : state.Settled) :
    Meets (Fault.Allowed False) (state.processShmemReqFromPrevCache req [node] requester) fun result =>
      state.Lowers (· = node) result.1 ∧
        ((req.op.exclusive = false → state.getCacheState node req.address = .modified →
          state.Alone node requester req.address) →
        result.1.getCacheState node req.address = .modified → result.1.Alone node requester req.address) := by
  rw [processShmemReqFromPrevCache]
  refine .ite (fun permissible => ?_) fun missed => ?_
  · have present := (permissible_proper permissible (gap.usual node req.address).1).1
    refine (gap.hit_meets dry present).bind ?_
    rintro hit ⟨_, tells⟩
    have kept : Meets (Fault.Allowed False) (hit.retrieveCacheBlock node req.address) (· = hit) :=
      retrieveCacheBlock_meets rfl
    refine kept.bind fun after same => .ok ?_
    subst same
    exact ⟨tells.lowers, tells.alone⟩
  · refine (gap.ready_meets dry).bind fun ready readied => ?_
    have lowered : state.Lowers (· = node) ready := readied.lowers
    have here : ready.getCacheState node req.address = state.getCacheState node req.address :=
      readied.keeps .refl _
    have got : Meets (Fault.Allowed False) (ready.lastLevelMiss req node requester) fun result =>
        ready.Lowers (· = node) result.1 ∧ result.1.Alone node requester req.address := by
      refine readied.gap.lastLevelMiss_alone direct last apart (readied.lowered 2 dry) (lowered.settled settled) ?_ ?_
      · rw [here]
        simpa using missed
      · intro shared
        have becomes := readied.told.resolve_left fun both => both.2 (here ▸ shared)
        exact fun other member => becomes.emptied member
    refine got.bind ?_
    rintro ⟨after, served⟩ ⟨more, alone⟩
    refine retrieve_served_meets ?_
    exact ⟨lowered.trans more, fun _ _ => alone⟩

/-- A line that a cache right below the last level has `MODIFIED` is in none of its siblings. -/
structure Single (state : State t) : Prop where
  settled : state.Settled
  alone : ∀ top, t.above top = [] → ∀ first second line, t.next first = some top → t.next second = some top →
    first ≠ second → state.getCacheState first line = .modified → state.getCacheState second line = .invalid

theorem Single.lowers (single : state.Single) (lowers : state.Lowers raised after)
    (apart : ∀ node, raised node → ∀ top, t.above top = [] → t.next node ≠ some top) : after.Single where
  settled := lowers.settled single.settled
  alone top last first second line isFirst isSecond different modified := by
    have before := lowers.modified first line (fun up => apart first up top last isFirst) modified
    exact lowers.invalid second line (fun up => apart second up top last isSecond)
      (single.alone top last first second line isFirst isSecond different before)

theorem Single.inserted {way : Fin (t.geometry node).associativity} (single : state.Single)
    (gap : state.Gap address (node :: holes)) (isNext : t.next node = some top) (apart : top ∉ node :: holes)
    (alone : state.getCacheState top address = .modified → state.Alone top (some node) address)
    (becomes : state.Becomes (t.Below · node)
      (state.inserted node address (state.getCacheState top address) way) after) : after.Single where
  settled := (becomes.lowers_inserted (single.settled top address)).settled single.settled
  alone upper lastUpper first second line isFirst isSecond different modified := by
    have view (other : t.Node) : after.getCacheState other address =
        if other = node then state.getCacheState top address else state.getCacheState other address := by
      rw [becomes.view, inserted_same gap.sound (gap.empty node List.mem_cons_self)]
    by_cases same : line = address
    · subst same
      rw [view] at modified ⊢
      by_cases here : first = node
      · subst here
        rw [if_pos rfl] at modified
        rw [if_neg (Ne.symm different)]
        rw [isNext, Option.some.injEq] at isFirst
        refine alone modified second (Topology.mem_others.mpr ⟨isFirst ▸ isSecond, ?_⟩)
        simpa using Ne.symm different
      · rw [if_neg here] at modified
        by_cases there : second = node
        · subst there
          rw [isNext, Option.some.injEq] at isSecond
          have le := gap.order first top (isSecond ▸ isFirst) apart
          rw [modified] at le
          have member : first ∈ t.others top (some second) :=
            Topology.mem_others.mpr ⟨isSecond ▸ isFirst, by simpa using here⟩
          have gone := alone (CState.rank_eq_three.mp le) first member
          rw [modified] at gone
          cases gone
        · rw [if_neg there]
          exact single.alone upper lastUpper first second line isFirst isSecond different modified
    · rw [becomes.view, inserted_other same] at modified ⊢
      split at modified
      · cases modified
      · rw [single.alone upper lastUpper first second line isFirst isSecond different modified, ite_self]

/-- A read that finds the line neither in the given cache nor in the ones below it, but `MODIFIED` in
the last level, finds it in no other cache right below the last level. -/
def Sharing (state : State t) (req : Request t) (node top : t.Node) : Prop :=
  req.op.exclusive = false → operationPermissible req.op (state.getCacheState node req.address) = false →
    state.getCacheState top req.address = .modified → state.Alone top (some node) req.address

theorem Single.hit_meets (inclusive : state.Inclusive) (single : state.Single)
    (permissible : operationPermissible req.op (state.getCacheState node req.address) = true) :
    Meets (Fault.Allowed False) (do
        let state ← state.hit req node requester
        let state ← state.retrieveCacheBlock node req.address
        Except.ok (state, true)) (fun result => result.1.Single) := by
  have gap := inclusive.gap req.address
  have present := (permissible_proper permissible (gap.usual node req.address).1).1
  refine (gap.hit_meets .nil present).bind ?_
  rintro hit ⟨_, tells⟩
  have kept : Meets (Fault.Allowed False) (hit.retrieveCacheBlock node req.address) (· = hit) :=
    retrieveCacheBlock_meets rfl
  refine kept.bind fun after same => .ok ?_
  subst same
  have lowered : state.Lowers (fun _ => False) after := tells.lowers
  exact single.lowers lowered (by rintro _ ⟨⟩)

theorem Single.request_meets (direct : t.direct = true) (inclusive : state.Inclusive) (single : state.Single)
    (isNext : t.next node = some top) (last : t.above top = []) (master : req.isMaster node = true)
    (sharing : state.Sharing req node top) :
    Meets (Fault.Allowed False) (state.processShmemReqFromPrevCache req [node, top] requester)
      (fun result => result.1.Single) := by
  have gap := inclusive.gap req.address
  have nowhere (upper : t.Node) (isLast : t.above upper = []) : t.next top ≠ some upper := by
    rw [Topology.next, last]
    rintro ⟨⟩
  rw [processShmemReqFromPrevCache]
  refine .ite (fun permissible => single.hit_meets inclusive permissible) fun missed => ?_
  · have missed : operationPermissible req.op (state.getCacheState node req.address) = false := by
      simpa using missed
    refine (gap.ready_meets .nil).bind fun ready readied => ?_
    have block : state.getCacheBlockInfo node req.address = ready.getCacheBlockInfo node req.address := by
      rw [getCacheBlockInfo, getCacheBlockInfo, readied.frame node .refl]
    rw [block]
    have inner : Meets (Fault.Allowed False) (do
        let left ← (if (ready.getCacheBlockInfo node req.address).isSome
          then ready.invalidateCacheBlock node req.address else .ok ready)
        let result ← left.processShmemReqFromPrevCache req [top] (req.cntlr node)
        if result.2 then do
          let mid ← result.1.copyDataFromNextLevel req node top
          Except.ok (mid, true)
        else Except.ok (result.1, false)) (fun result => result.1.Single) := by
      refine readied.gap.leave_meets.bind ?_
      rintro left ⟨leftGap, emptied⟩
      have passes : state.Passes req node top requester [] left :=
        emptied.passes isNext missed ⟨by rintro ⟨⟩, by rintro ⟨⟩⟩ .nil .nil readied leftGap
      have lowered : state.Lowers (fun _ => False) left := readied.lowers.trans emptied.lowers
      have single : left.Single := single.lowers lowered (by rintro _ ⟨⟩)
      have apart : top ∉ [node] := by simpa using Topology.ne_of_next isNext
      have upper : left.getCacheState top req.address = state.getCacheState top req.address := by
        rw [emptied.here, if_neg (Topology.ne_of_next isNext),
          readied.keeps ((Topology.below_of_next isNext).mpr (.inr .refl))]
      rw [show req.cntlr node = some node by rw [Request.cntlr, master, if_pos rfl]]
      have levels : [top] = top :: t.above top := by rw [last]
      have served : Meets (Fault.Allowed False) (left.processShmemReqFromPrevCache req [top] (some node))
          fun result => left.Lowers (· = top) result.1 ∧
            (result.1.getCacheState top req.address = .modified → result.1.Alone top (some node) req.address) := by
        refine (passes.gap.lastLevel_alone direct last apart passes.dry single.settled).mono ?_
        rintro result ⟨lowers, alone⟩
        refine ⟨lowers, alone fun reads modified => ?_⟩
        rw [upper] at modified
        intro other member
        exact lowered.invalid other req.address id (sharing reads missed modified other member)
      have whole : Meets (Fault.Allowed False) (left.processShmemReqFromPrevCache req [top] (some node))
          (Answered req top [node] (left.Clear req top (some node) [node])) := by
        rw [levels]
        refine processShmemReqFromPrevCache_meets passes.gap ?_ passes.dry passes.within False.elim
        intro hole member
        rw [List.mem_singleton.mp member, t.level_next (Topology.above_of_next isNext)]
        exact Nat.lt_succ_self _
      refine (whole.and served).bind ?_
      rintro ⟨mid, served⟩ ⟨answered, lowers, alone⟩
      have single : mid.Single := single.lowers lowers fun other same => same ▸ nowhere
      cases served with
      | false => exact .ok single
      | true =>
        refine (answered.gap.copyDataFromNextLevel_meets (by rintro ⟨⟩) isNext answered.within False.elim).bind ?_
        rintro after ⟨_, _, _, becomes⟩
        exact .ok (single.inserted answered.gap isNext apart alone becomes)
    refine inner.bind ?_
    rintro ⟨after, served⟩ facts
    exact retrieve_served_meets facts

theorem Single.lastLevel_meets (direct : t.direct = true) (inclusive : state.Inclusive) (single : state.Single)
    (last : t.above top = []) :
    Meets (Fault.Allowed False) (state.processShmemReqFromPrevCache req [top] requester)
      (fun result => result.1.Single) := by
  refine ((inclusive.gap req.address).lastLevel_alone direct last (by rintro ⟨⟩) .nil single.settled).mono ?_
  rintro result ⟨lowers, _⟩
  refine single.lowers lowers fun other same upper isLast => ?_
  rw [same, Topology.next, last]
  rintro ⟨⟩

theorem Sharing.emptied (sharing : state.Sharing req next top) (isNext : t.next node = some next)
    (isTop : t.next next = some top) (emptied : state.Emptied node req.address after) :
    after.Sharing req next top := by
  have kept (upper : t.Node) (below : t.Below next upper) :
      after.getCacheState upper req.address = state.getCacheState upper req.address := by
    have apart : upper ≠ node := fun same => Topology.not_below_next isNext (same ▸ below)
    rw [emptied.here, if_neg apart]
  have lowered : state.Lowers (fun _ => False) after := emptied.lowers
  intro reads absent modified other member
  rw [kept next .refl] at absent
  rw [kept top ((Topology.below_of_next isTop).mpr (.inr .refl))] at modified
  exact lowered.invalid other req.address id (sharing reads absent modified other member)

/-- What a first-level cache that has given the line up gets from its next levels. -/
theorem Single.next_meets (direct : t.direct = true) (inclusive : after.Inclusive) (single : state.Single)
    (emptied : state.Emptied node req.address after) (levels : t.above node = [next, top])
    (master : req.isMaster next = true) (sharing : state.Sharing req next top) :
    Meets (Fault.Allowed False) (after.processShmemReqFromPrevCache req [next, top] (req.cntlr node))
      (fun result => result.1.Inclusive ∧ result.1.Single) := by
  have isNext : t.next node = some next := by rw [Topology.next, levels, List.head?_cons]
  have above := t.above_next levels
  have isTop : t.next next = some top := by rw [Topology.next, above, List.head?_cons]
  have lowered : state.Lowers (fun _ => False) after := emptied.lowers
  have served : Meets (Fault.Allowed False)
      (after.processShmemReqFromPrevCache req [next, top] (req.cntlr node)) (fun result => result.1.Single) :=
    (single.lowers lowered (by rintro _ ⟨⟩)).request_meets direct inclusive isTop (t.above_next above) master
      (sharing.emptied isNext isTop emptied)
  have whole : Meets (Fault.Allowed False)
      (after.processShmemReqFromPrevCache req [next, top] (req.cntlr node)) (fun result => result.1.Inclusive) := by
    rw [show [next, top] = next :: t.above next by rw [above]]
    exact inclusive.request_meets emptied.asker False.elim
  exact whole.and served

/-- A step that changes nothing but a first-level cache. -/
theorem Single.firstLevel (single : state.Single) (levels : t.above node = [next, top])
    (inclusive : after.Inclusive) (frame : ∀ other, other ≠ node → after.cache other = state.cache other) :
    after.Single := by
  have lowers : state.Lowers (· = node) after := by
    refine .of_view fun other line => ?_
    by_cases here : other = node
    · refine .inl ⟨here, fun upgrading => ?_⟩
      have isLast := (inclusive.usual other line).2 upgrading
      rw [here, levels] at isLast
      cases isLast
    · exact .inr (.inl (getCacheState_congr (frame other here)))
  refine single.lowers lowers fun other here upper isLast isUpper => ?_
  have isNext : t.next node = some next := by rw [Topology.next, levels, List.head?_cons]
  have above := t.above_next levels
  rw [here, isNext, Option.some.injEq] at isUpper
  rw [isUpper, isLast] at above
  cases above

theorem Single.processMemOpFromCore_meets (direct : t.direct = true) (inclusive : state.Inclusive)
    (single : state.Single) (first : t.level node = 0) (levels : t.above node = [next, top])
    (master : req.isMaster next = true)
    (sharing : operationPermissible req.op (state.getCacheState node req.address) = false →
      state.Sharing req next top) :
    Meets (Fault.Allowed False) (state.processMemOpFromCore req node) Single := by
  have isNext : t.next node = some next := by rw [Topology.next, levels, List.head?_cons]
  unfold processMemOpFromCore
  refine .ite (fun _ => .ok single) fun missed => ?_
  rw [levels]
  refine (inclusive.leave_meets first).bind ?_
  rintro left ⟨leftInclusive, emptied⟩
  refine (single.next_meets direct leftInclusive emptied levels master (sharing (by simpa using missed))).bind ?_
  rintro ⟨mid, done⟩ ⟨midInclusive, midSingle⟩
  cases done with
  | false => exact .ok midSingle
  | true =>
    refine (midInclusive.finishMiss_meets first isNext).mono ?_
    rintro after ⟨afterInclusive, frame⟩
    exact midSingle.firstLevel levels afterInclusive frame

/-- The prefetcher of a first-level cache, which starts at that cache itself. -/
theorem Single.firstLevel_meets (direct : t.direct = true) (inclusive : state.Inclusive)
    (single : state.Single) (first : t.level node = 0) (levels : t.above node = [next, top])
    (master : req.isMaster next = true) (reads : req.op = .read)
    (sharing : operationPermissible req.op (state.getCacheState node req.address) = false →
      state.Sharing req next top) :
    Meets (Fault.Allowed False) (state.processShmemReqFromPrevCache req [node, next, top] none)
      (fun result => result.1.Single) := by
  have isNext : t.next node = some next := by rw [Topology.next, levels, List.head?_cons]
  rw [processShmemReqFromPrevCache]
  refine .ite (fun permissible => single.hit_meets inclusive permissible) fun missed => ?_
  have missed : operationPermissible req.op (state.getCacheState node req.address) = false := by
    simpa using missed
  -- A block that is `SHARED` can be read.
  have unshared : (state.getCacheBlockInfo node req.address).map Block.cstate ≠ some .shared := by
    intro shared
    obtain ⟨block, stored, isShared⟩ := Option.map_eq_some_iff.mp shared
    rw [getCacheState_of_block stored, isShared, reads] at missed
    cases missed
  have ready : Meets (Fault.Allowed False)
      (if (state.getCacheBlockInfo node req.address).map Block.cstate = some .shared
        then state.updateOthers node none req.address .invalid else .ok state) (· = state) := by
    rw [if_neg unshared]
    exact .ok rfl
  have inner : Meets (Fault.Allowed False) (do
      let left ← (if (state.getCacheBlockInfo node req.address).isSome
        then state.invalidateCacheBlock node req.address else .ok state)
      let result ← left.processShmemReqFromPrevCache req [next, top] (req.cntlr node)
      if result.2 then do
        let mid ← result.1.copyDataFromNextLevel req node next
        Except.ok (mid, true)
      else Except.ok (result.1, false)) (fun result => result.1.Single) := by
    refine (inclusive.invalidate_meets first).bind ?_
    rintro left ⟨leftInclusive, emptied⟩
    refine (single.next_meets direct leftInclusive emptied levels master (sharing missed)).bind ?_
    rintro ⟨mid, done⟩ ⟨midInclusive, midSingle⟩
    cases done with
    | false => exact .ok midSingle
    | true =>
      refine (midInclusive.copyDataFromNextLevel_meets first isNext).bind ?_
      rintro after ⟨afterInclusive, frame⟩
      exact .ok (midSingle.firstLevel levels afterInclusive frame)
  refine ready.bind fun ready same => ?_
  rw [same]
  refine inner.bind ?_
  rintro ⟨after, served⟩ facts
  exact retrieve_served_meets facts

end State

section Claims

variable {cores : Nat} {geometry : Place cores → Geometry Addr} {direct checks : Bool}

/-- The cores access memory, each through an L1 and an L2 cache of its own, and the caches prefetch. -/
def CoreAccess : Label (threeLevel cores geometry direct checks) → Prop
  | .access _ req | .prefetch _ req => ∀ node : Place cores, node ≠ .l3 → req.isMaster node = true
  | _ => False

/-- A line that the L3 cache has `MODIFIED` and the L2 cache of a core cannot read is in the L2 cache of
no other core. -/
def State.NoneElsewhere (state : State (threeLevel cores geometry direct checks)) (core : Fin cores)
    (address : Addr) : Prop :=
  (state.getCacheState (.l2 core) address).readable = false → state.getCacheState .l3 address = .modified →
    ∀ other, other ≠ core → state.getCacheState (.l2 other) address = .invalid

/-- A read or a prefetch that misses in the caches of its core, of a line that the L3 cache has `MODIFIED`,
finds no copy in the L2 cache of another core. -/
def State.SharesNothing (state : State (threeLevel cores geometry direct checks)) :
    Label (threeLevel cores geometry direct checks) → Prop
  | .access node req => ∀ core : Fin cores, node.1 = Place.l1i core ∨ node.1 = Place.l1d core →
      req.op.exclusive = false → (state.getCacheState node.1 req.address).readable = false →
      state.NoneElsewhere core req.address
  | .prefetch node req => ∀ core : Fin cores, node ∈ [Place.l1i core, Place.l1d core, Place.l2 core] →
      (state.getCacheState node req.address).readable = false → state.NoneElsewhere core req.address
  | _ => True

theorem State.NoneElsewhere.sharing {state : State (threeLevel cores geometry true checks)} {core : Fin cores}
    {req : Request (threeLevel cores geometry true checks)}
    (nobody : req.op.exclusive = false → state.NoneElsewhere core req.address) :
    state.Sharing req (.l2 core) .l3 := by
  intro reads absent modified other member
  rw [operationPermissible, reads] at absent
  obtain ⟨isNext, different⟩ := Topology.mem_others.mp member
  cases other with
  | l1i core | l1d core | l3 => cases isNext
  | l2 other => exact nobody reads absent modified other fun same => different (by rw [same])

theorem State.Single.doPrefetch_meets {state : State (threeLevel cores geometry true checks)}
    {place : Place cores} {req : Request (threeLevel cores geometry true checks)} (inclusive : state.Inclusive)
    (single : state.Single) (masters : ∀ node : Place cores, node ≠ .l3 → req.isMaster node = true)
    (shares : state.SharesNothing (.prefetch place req)) :
    Meets (Fault.Allowed False) (state.doPrefetch req place) State.Single := by
  have lower (core : Fin cores) (own : place ∈ [Place.l1i core, Place.l1d core, Place.l2 core])
      (absent : (state.getCacheState place req.address).readable = false) :
      state.Sharing { req with op := .read } (.l2 core) .l3 :=
    State.NoneElsewhere.sharing fun _ => shares core own absent
  have asked : Meets (Fault.Allowed False)
      (state.processShmemReqFromPrevCache { req with op := .read }
        (place :: (threeLevel cores geometry true checks).above place) none) (fun result => result.1.Single) := by
    cases place with
    | l1i core | l1d core =>
      exact single.firstLevel_meets rfl inclusive rfl rfl (masters (.l2 core) (by rintro ⟨⟩)) rfl
        (lower core (by simp))
    | l2 core =>
      refine single.request_meets rfl inclusive rfl rfl (masters (.l2 core) (by rintro ⟨⟩)) ?_
      intro reads absent
      exact lower core (by simp) absent reads absent
    | l3 => exact single.lastLevel_meets rfl inclusive rfl
  refine asked.bind ?_
  rintro ⟨after, served⟩ kept
  exact .ok kept

theorem State.Single.access_meets {state : State (threeLevel cores geometry true checks)}
    {label : Label (threeLevel cores geometry true checks)} (inclusive : state.Inclusive) (single : state.Single)
    (allowed : CoreAccess label) (shares : state.SharesNothing label) :
    Meets (Fault.Allowed False) (state.step label) State.Single := by
  cases label with
  | access node req =>
    obtain ⟨place, first⟩ := node
    have request (core : Fin cores) (own : place = .l1i core ∨ place = .l1d core)
        (levels : (threeLevel cores geometry true checks).above place = [Place.l2 core, .l3]) :
        Meets (Fault.Allowed False) (state.processMemOpFromCore req place) State.Single := by
      refine single.processMemOpFromCore_meets rfl inclusive first levels (allowed (.l2 core) (by rintro ⟨⟩)) ?_
      intro missed
      refine State.NoneElsewhere.sharing fun reads => shares core own reads ?_
      rwa [operationPermissible, reads] at missed
    cases place with
    | l1i core => exact request core (.inl rfl) rfl
    | l1d core => exact request core (.inr rfl) rfl
    | l2 core | l3 => cases first
  | prefetch node req => exact single.doPrefetch_meets inclusive allowed shares
  | _ => exact allowed.elim

/-- If no read and no prefetch takes a line that the L3 cache has `MODIFIED` from another core, a line that an L1 cache has
`MODIFIED` is readable in no cache of another core. -/
theorem modified_in_one_core (state : State (threeLevel cores geometry true checks))
    (reached : (machine (threeLevel cores geometry true checks)).Reach
      (fun state label => CoreAccess label ∧ state.SharesNothing label) state)
    (core other : Fin cores) (different : core ≠ other) (line : Addr)
    (modified : state.getCacheState (.l1i core) line = .modified ∨ state.getCacheState (.l1d core) line = .modified) :
    (state.getCacheState (.l1i other) line).readable = false ∧
      (state.getCacheState (.l1d other) line).readable = false ∧
      (state.getCacheState (.l2 other) line).readable = false := by
  have both : state.Inclusive ∧ state.Single := by
    refine reached.invariant (fun state => state.Inclusive ∧ state.Single) ?_ ?_
    · intro start starts
      subst starts
      refine ⟨.initial, fun node line => ?_, fun top _ first second line _ _ _ _ => ?_⟩
      · rw [State.getCacheState_initial]
        rintro ⟨⟩
      · exact State.getCacheState_initial
    · rintro before label after ⟨inclusive, single⟩ ⟨allowed, shares⟩ stepped
      have answers : Answers before label := by
        cases label with
        | access | prefetch => trivial
        | _ => exact allowed.elim
      have kept : Meets (Fault.Allowed False) (before.step label) State.Inclusive :=
        inclusive.step_meets label answers False.elim False.elim
      exact (kept.and (single.access_meets inclusive allowed shares)).of_ok stepped
  obtain ⟨inclusive, single⟩ := both
  have dirty : state.getCacheState (.l2 core) line = .modified := by
    rcases modified with modified | modified
    · exact (inclusive.ordered line).dirtyIncluded (.l1i core) (.l2 core) rfl modified
    · exact (inclusive.ordered line).dirtyIncluded (.l1d core) (.l2 core) rfl modified
  have gone : state.getCacheState (.l2 other) line = .invalid := by
    refine single.alone .l3 rfl (.l2 core) (.l2 other) line rfl rfl (fun same => ?_) dirty
    cases same
    exact different rfl
  have below (node : Place cores) (isNext : (threeLevel cores geometry true checks).next node = some (.l2 other)) :
      state.getCacheState node line = .invalid := by
    have le := inclusive.ordered line node (.l2 other) isNext
    rw [gone] at le
    exact CState.rank_eq_zero.mp (Nat.le_zero.mp le)
  rw [gone, below (.l1i other) rfl, below (.l1d other) rfl]
  exact ⟨rfl, rfl, rfl⟩

/-- One core has read a line, the L2 cache of the other prefetches it, and then that core writes it. -/
theorem modified_in_one_core_after_upgrade : ∃ state : State (twoWays 2 true false),
    (machine (twoWays 2 true false)).Reach (fun state label => CoreAccess label ∧ state.SharesNothing label)
        state ∧
      state.getCacheState (.l1d 1) 0 = .modified ∧ (state.getCacheState (.l2 0) 0).readable = false := by
  have ran : ∃ first second third : State (twoWays 2 true false),
      (State.initial (twoWays 2 true false)).step (coreAccess 0 .read 0 0) = .ok first ∧
      first.step (.prefetch (.l2 1) (coreRequest .read 0 0)) = .ok second ∧ first.getCacheState .l3 0 ≠ .modified ∧
      second.step (coreAccess 1 (.write id) 0 0) = .ok third ∧ third.getCacheState (.l1d 1) 0 = .modified := by
    refine ⟨_, _, _, rfl, rfl, ?_, rfl, ?_⟩ <;> decide
  obtain ⟨first, second, third, readFirst, prefetched, clean, wrote, modified⟩ := ran
  have reached : (machine (twoWays 2 true false)).Reach
      (fun state label => CoreAccess label ∧ state.SharesNothing label) third := by
    refine .step (coreAccess 1 (.write id) 0 0) (.step (.prefetch (.l2 1) (coreRequest .read 0 0))
      (.step (coreAccess 0 .read 0 0) (.initial rfl) ⟨fun _ _ => rfl, ?_⟩ readFirst)
      ⟨fun _ _ => rfl, ?_⟩ prefetched) ⟨fun _ _ => rfl, ?_⟩ wrote
    · intro core own reads absent missed dirty
      have empty : (State.initial (twoWays 2 true false)).getCacheState .l3 0 ≠ .modified := by decide
      exact absurd dirty empty
    · intro core own absent missed dirty
      exact absurd dirty clean
    · intro core own reads
      cases reads
  have alone := modified_in_one_core third reached 1 0 (by decide) 0 (.inr modified)
  exact ⟨third, reached, modified, alone.2.2⟩

/-- A read of a line that another core has written makes it `MODIFIED` in the caches of the reader, while
the writer keeps a copy it can read. -/
theorem reader_becomes_second_owner : ∃ state : State (twoWays 2 true false),
    (machine (twoWays 2 true false)).Reach (fun _ label => CoreAccess label) state ∧
      state.getCacheState (.l1d 1) 0 = .modified ∧ (state.getCacheState (.l1d 0) 0).readable = true ∧
      (state.getCacheState (.l2 0) 0).readable = true := by
  have ran : ∃ state, (machine (twoWays 2 true false)).run (.initial _)
      [coreAccess 0 (.write id) 0 0, coreAccess 1 .read 0 0] = .ok state ∧
      state.getCacheState (.l1d 1) 0 = .modified ∧ (state.getCacheState (.l1d 0) 0).readable = true ∧
      (state.getCacheState (.l2 0) 0).readable = true := by
    refine ⟨_, rfl, ?_, ?_, ?_⟩ <;> decide
  obtain ⟨state, ran, modified, readable⟩ := ran
  refine ⟨state, ?_, modified, readable⟩
  refine .run (.initial rfl) (fun label member _ => ?_) ran
  rcases List.mem_pair.mp member with same | same <;> subst same <;> exact fun _ _ => rfl

end Claims

end Sniper.Hierarchy

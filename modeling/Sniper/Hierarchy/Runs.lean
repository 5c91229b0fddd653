import Sniper.Hierarchy.Requests

/-! Every operation of the cores, the prefetchers and the directory keeps inclusion. -/

namespace Sniper.Hierarchy

variable {Addr : Type} [DecidableEq Addr] {t : Topology Addr} {node next other : t.Node}

namespace State

variable {state after : State t} {req : Request t} {address : Addr} {cstate : CState}
  {tidy : Prop}

theorem Inclusive.writesDirty (inclusive : state.Inclusive) (caches : t.Node → Prop) : state.Tidy caches address :=
  fun node next _ isNext _ => (inclusive.ordered address).dirtyIncluded node next isNext

theorem Inclusive.updateTree_meets {outBuf : Bool} (inclusive : state.Inclusive) (last : t.above node = [])
    (told : cstate = .invalid ∨ cstate = .shared ∨ cstate = .modified) :
    Meets (Fault.Allowed tidy) (state.updateCacheBlock address cstate outBuf (t.level node) node) Inclusive := by
  have writesBack := (inclusive.gap address).writesBack .nil (t.Below · node)
  refine (updateCacheBlock_meets rfl inclusive.sound writesBack fun _ => inclusive.writesDirty _).mono ?_
  intro after becomes
  refine ⟨becomes.sound, fun other => ?_, fun other line => ?_, fun line other next isNext => ?_⟩
  · rw [becomes.evicting, inclusive.idle]
  · rw [becomes.view, updated, CState.become]
    split
    · split
      · exact ⟨by rintro ⟨⟩, by rintro ⟨⟩⟩
      · rcases told with told | told | told <;> subst told <;> exact ⟨by rintro ⟨⟩, by rintro ⟨⟩⟩
    · exact inclusive.usual other line
  · have le := inclusive.ordered line other next isNext
    have together : t.Below other node ↔ t.Below next node := by
      rw [Topology.below_of_next isNext]
      refine or_iff_right fun same => ?_
      exact Topology.ne_of_last last isNext same.symm
    rw [becomes.view, becomes.view, updated, updated]
    by_cases here : line = address ∧ t.Below next node
    · rw [if_pos here, if_pos ⟨here.1, together.mpr here.2⟩]
      exact CState.rank_become_mono le cstate
    · rw [if_neg here, if_neg (fun both => here ⟨both.1, together.mp both.2⟩)]
      exact le

theorem Inclusive.insert_meets {way : Fin (t.geometry node).associativity} (inclusive : state.Inclusive)
    (last : t.above node = []) (absent : state.getCacheState node address = .invalid)
    (proper : cstate ≠ .invalid ∧ cstate ≠ .owned ∧ cstate ≠ .sharedUpgrading)
    (clean : tidy → state.CleanVictim node address way) :
    Meets (Fault.Allowed tidy) (state.insertCacheBlock node address cstate way) Inclusive := by
  refine (((inclusive.gap address).widen absent).insertCacheBlock_meets (by rintro ⟨⟩) proper ?_ ?_ clean).mono ?_
  · intro prev isNext
    have le := inclusive.ordered address prev node isNext
    rw [absent] at le
    exact Nat.le_trans le (Nat.zero_le _)
  · intro next isNext
    rw [Topology.next, last] at isNext
    cases isNext
  · rintro after ⟨gap, _⟩
    exact gap.inclusive .nil

theorem Inclusive.copyDataFromNextLevel_meets (inclusive : state.Inclusive) (first : t.level node = 0)
    (isNext : t.next node = some next) :
    Meets (Fault.Allowed tidy) (state.copyDataFromNextLevel req node next) fun after =>
      after.Inclusive ∧ ∀ other, other ≠ node → after.cache other = state.cache other := by
  have none : t.prev node = [] := Topology.prev_of_level_zero first
  have lowest {prev : t.Node} (isPrev : t.next prev = some node) : False := by
    have member := t.mem_prev.mpr isPrev
    rw [none] at member
    cases member
  have notL3 {way : Fin (t.geometry node).associativity} : state.CleanVictim node req.address way := by
    intro l3
    simp [Topology.isL3, first] at l3
  have only {other : t.Node} (below : t.Below other node) : other = node := by
    rcases below.cases with same | ⟨prev, isPrev, _⟩
    · exact same
    · rw [none] at isPrev
      cases isPrev
  by_cases absent : state.getCacheState node req.address = .invalid
  · have gap := (inclusive.gap req.address).widen absent
    refine (gap.copyDataFromNextLevel_meets (by rintro ⟨⟩) isNext ?_ fun _ => notL3).mono ?_
    · intro prev hole isHole member
      rw [List.mem_singleton.mp member] at isHole
      exact (lowest isHole).elim
    · rintro after ⟨gap, _, _, becomes⟩
      exact ⟨gap.inclusive .nil, fun other apart => becomes.frame other fun below => apart (only below)⟩
  · unfold copyDataFromNextLevel
    refine .ite (fun _ => .error (Fault.allowed rfl (by rintro ⟨⟩))) fun permissible => ?_
    have proper := permissible_proper (by simpa using permissible) (inclusive.usual next req.address).1
    obtain ⟨block, stored⟩ := Option.ne_none_iff_exists'.mp (mt inclusive.sound.getCacheState_eq_invalid.mpr absent)
    rw [stored]
    have writesBack := (inclusive.gap req.address).writesBack .nil (t.Below · node)
    refine (updateCacheBlock_meets rfl inclusive.sound writesBack fun _ => inclusive.writesDirty _).mono ?_
    intro after becomes
    refine ⟨?_, fun other apart => becomes.frame other fun below => apart (only below)⟩
    refine ⟨becomes.sound, fun other => ?_, fun other line => ?_, fun line other upper isUpper => ?_⟩
    · rw [becomes.evicting, inclusive.idle]
    · rw [becomes.view, updated, CState.become]
      split
      · split
        · exact ⟨by rintro ⟨⟩, by rintro ⟨⟩⟩
        · exact ⟨proper.2.1, fun upgrading => absurd upgrading proper.2.2⟩
      · exact inclusive.usual other line
    · have le := inclusive.ordered line other upper isUpper
      have above : ¬t.Below upper node := fun below => lowest (only below ▸ isUpper)
      rw [becomes.view, becomes.view, updated, updated,
        if_neg (fun both : line = req.address ∧ t.Below upper node => above both.2)]
      split
      case isTrue here =>
        have same := only here.2
        subst same
        rw [isNext, Option.some.injEq] at isUpper
        rw [← isUpper, here.1, CState.become]
        split
        · exact Nat.zero_le _
        · exact Nat.le_refl _
      case isFalse => exact le

theorem Inclusive.finishMiss_meets (inclusive : state.Inclusive) (first : t.level node = 0)
    (isNext : t.next node = some next) :
    Meets (Fault.Allowed tidy) (state.finishMiss req node next) fun after =>
      after.Inclusive ∧ ∀ other, other ≠ node → after.cache other = state.cache other := by
  refine (inclusive.copyDataFromNextLevel_meets first isNext).bind fun after keeps => ?_
  exact .ite (fun _ => .ok keeps) fun _ => .error (Fault.allowed rfl (by rintro ⟨⟩))

theorem Inclusive.request_meets {requester : Option t.Node} (inclusive : state.Inclusive)
    (asker : ∀ prev, requester = some prev → state.getCacheState prev req.address = .invalid)
    (careful : tidy → state.CarefulAbove req node) :
    Meets (Fault.Allowed tidy) (state.processShmemReqFromPrevCache req (node :: t.above node) requester)
      (fun result => result.1.Inclusive) := by
  refine (processShmemReqFromPrevCache_meets (inclusive.gap req.address) (by rintro _ ⟨⟩) .nil .nil careful).mono ?_
  rintro ⟨after, served⟩ answered
  cases served with
  | true => exact answered.gap.inclusive .nil
  | false => exact answered ⟨.inl .nil, asker⟩

theorem Inclusive.served_meets {requester : Option t.Node} (inclusive : state.Inclusive)
    (careful : tidy → state.CarefulAbove req node) :
    Meets (Fault.Allowed tidy) (state.processShmemReqFromPrevCache req (node :: t.above node) requester)
      (fun result => result.2 = true → result.1.Inclusive) := by
  refine (processShmemReqFromPrevCache_meets (inclusive.gap req.address) (by rintro _ ⟨⟩) .nil .nil careful).mono ?_
  rintro ⟨after, served⟩ answered
  cases served with
  | true => exact fun _ => answered.gap.inclusive .nil
  | false => rintro ⟨⟩

theorem CarefulAbove.of_next (careful : state.CarefulAbove req node) (isNext : t.next node = some next) :
    state.CarefulAbove req next :=
  ⟨careful.1, fun top below => careful.2 top ((Topology.below_of_next isNext).mpr (.inr below))⟩

theorem Inclusive.invalidate_meets (inclusive : state.Inclusive) (first : t.level node = 0) :
    Meets (Fault.Allowed tidy)
      (if (state.getCacheBlockInfo node address).isSome then state.invalidateCacheBlock node address else .ok state)
      fun after => after.Inclusive ∧ state.Emptied node address after := by
  refine (inclusive.gap address).leave_meets.mono ?_
  rintro after ⟨gap, emptied⟩
  refine ⟨gap.inclusive ?_, emptied⟩
  intro prev hole isHole member
  have isPrev := t.mem_prev.mpr isHole
  rw [List.mem_singleton.mp member, Topology.prev_of_level_zero first] at isPrev
  cases isPrev

theorem Inclusive.leave_meets (inclusive : state.Inclusive) (first : t.level node = 0) :
    Meets (Fault.Allowed tidy)
      (if state.getCacheState node address ≠ .invalid then state.invalidateCacheBlock node address else .ok state)
      fun after => after.Inclusive ∧ state.Emptied node address after := by
  have present : state.getCacheState node address ≠ .invalid ↔
      (state.getCacheBlockInfo node address).isSome := by
    rw [Option.isSome_iff_ne_none, not_iff_not, inclusive.sound.getCacheState_eq_invalid]
  simp only [present]
  exact inclusive.invalidate_meets first

theorem Inclusive.processMemOpFromCore_meets (inclusive : state.Inclusive) (first : t.level node = 0)
    (careful : tidy → state.CarefulAbove req node) :
    Meets (Fault.Allowed tidy) (state.processMemOpFromCore req node) Inclusive := by
  unfold processMemOpFromCore
  refine .ite (fun _ => .ok inclusive) fun _ => ?_
  cases levels : t.above node with
  | nil => exact .error (Fault.allowed rfl (by rintro ⟨⟩))
  | cons next rest =>
    have isNext : t.next node = some next := by simp [Topology.next, levels]
    have rest_eq := t.above_next levels
    subst rest_eq
    refine (inclusive.leave_meets first).bind ?_
    rintro left ⟨inclusive, emptied⟩
    refine (inclusive.request_meets emptied.asker ?_).bind ?_
    · intro holds
      refine ⟨(careful holds).1, fun top below last => ?_⟩
      have apart : top ≠ node := fun same => Topology.not_below_next isNext (same ▸ below)
      exact (((careful holds).of_next isNext).2 top below last).congr (emptied.frame top apart) inclusive.sound
        emptied.lines
    · rintro ⟨mid, served⟩ inclusive
      cases served with
      | false => exact .ok inclusive
      | true => exact (inclusive.finishMiss_meets first isNext).mono fun _ => And.left

theorem Inclusive.resumeMemOpFromCore_meets (inclusive : state.Inclusive) (first : t.level node = 0)
    (careful : tidy → state.CarefulAbove req node) :
    Meets (Fault.Allowed tidy) (state.resumeMemOpFromCore req node) Inclusive := by
  unfold resumeMemOpFromCore
  cases levels : t.above node with
  | nil => exact .error (Fault.allowed rfl (by rintro ⟨⟩))
  | cons next rest =>
    have isNext : t.next node = some next := by simp [Topology.next, levels]
    have rest_eq := t.above_next levels
    subst rest_eq
    have asked : Meets (Fault.Allowed tidy) (state.processShmemReqFromPrevCache { req with modeled := false }
        (next :: t.above next) (req.cntlr node)) (fun result => result.2 = true → result.1.Inclusive) :=
      inclusive.served_meets fun holds => (careful holds).of_next isNext
    refine asked.bind ?_
    rintro ⟨mid, served⟩ kept
    cases served with
    | false => exact .error (Fault.allowed rfl (by rintro ⟨⟩))
    | true => exact ((kept rfl).finishMiss_meets first isNext).mono fun _ => And.left

theorem Inclusive.doPrefetch_meets (inclusive : state.Inclusive) (careful : tidy → state.CarefulAbove req node) :
    Meets (Fault.Allowed tidy) (state.doPrefetch req node) Inclusive := by
  have asked : Meets (Fault.Allowed tidy)
      (state.processShmemReqFromPrevCache { req with op := .read } (node :: t.above node) none)
      (fun result => result.1.Inclusive) := inclusive.request_meets (by rintro _ ⟨⟩) careful
  refine asked.bind ?_
  rintro ⟨after, served⟩ inclusive
  exact .ok inclusive

theorem Inclusive.resumePrefetch_meets (inclusive : state.Inclusive)
    (careful : tidy → state.CarefulAbove req node) :
    Meets (Fault.Allowed tidy) (state.resumePrefetch req node) Inclusive := by
  have asked : Meets (Fault.Allowed tidy)
      (state.processShmemReqFromPrevCache { req with op := .read, modeled := false } (node :: t.above node) none)
      (fun result => result.2 = true → result.1.Inclusive) := inclusive.served_meets careful
  refine asked.bind ?_
  rintro ⟨after, served⟩ kept
  cases served with
  | false => exact .error (Fault.allowed rfl (by rintro ⟨⟩))
  | true => exact .ok (kept rfl)

/-- No L3 cache drops a line that a cache right below it has `MODIFIED`. -/
def CleanEvictions (state : State t) : Label t → Prop
  | .access node req | .resume node req => ∀ top, t.Below node.1 top → t.above top = [] → state.Careful req top
  | .prefetch node req | .resumePrefetch node req =>
    ∀ top, t.Below node top → t.above top = [] → state.Careful req top
  | .exRep node address way | .shRep node address way => state.CleanVictim node.1 address way
  | _ => True

theorem Inclusive.step_meets (inclusive : state.Inclusive) (label : Label t) (answers : Answers state label)
    (last : tidy → ∀ cache, t.isL3 cache = true → t.above cache = [])
    (clean : tidy → state.CleanEvictions label) :
    Meets (Fault.Allowed tidy) (state.step label) Inclusive := by
  cases label with
  | access node req =>
    exact inclusive.processMemOpFromCore_meets node.2 fun holds => ⟨last holds, clean holds⟩
  | resume node req =>
    exact inclusive.resumeMemOpFromCore_meets node.2 fun holds => ⟨last holds, clean holds⟩
  | prefetch node req => exact inclusive.doPrefetch_meets fun holds => ⟨last holds, clean holds⟩
  | resumePrefetch node req => exact inclusive.resumePrefetch_meets fun holds => ⟨last holds, clean holds⟩
  | exRep node address way => exact inclusive.insert_meets node.2 answers ⟨by rintro ⟨⟩, by rintro ⟨⟩, by rintro ⟨⟩⟩ clean
  | shRep node address way => exact inclusive.insert_meets node.2 answers ⟨by rintro ⟨⟩, by rintro ⟨⟩, by rintro ⟨⟩⟩ clean
  | upgradeRep node address =>
    simp only [step, processUpgradeRepFromDramDirectory]
    split
    · exact inclusive.updateTree_meets node.2 (.inr (.inr rfl))
    · exact inclusive.updateTree_meets node.2 (.inr (.inr rfl))
    · exact .error (Fault.allowed rfl (by rintro ⟨⟩))
  | invReq node address =>
    exact .ite (fun _ => .ok inclusive) fun _ => inclusive.updateTree_meets node.2 (.inl rfl)
  | flushReq node address =>
    exact .ite (fun _ => .ok inclusive) fun _ => inclusive.updateTree_meets node.2 (.inl rfl)
  | wbReq node address =>
    exact .ite (fun _ => .ok inclusive) fun _ => inclusive.updateTree_meets node.2 (.inr (.inl rfl))
  | upgradeReq node address =>
    refine .ite (fun shared => .ok ?_) fun _ => .error (Fault.allowed rfl (by rintro ⟨⟩))
    have raised := ((inclusive.gap address).raise node.2 (by rintro ⟨⟩) (by rw [shared]; rintro ⟨⟩)
      (by rw [shared]; exact Nat.le_refl _) (show CState.sharedUpgrading ≠ _ ∧ _ from ⟨by rintro ⟨⟩, by rintro ⟨⟩⟩)).1
    exact raised.inclusive .nil

theorem getCacheState_initial : (State.initial t).getCacheState node address = .invalid := by
  simp [getCacheState, State.initial, Cache.cstate, Cache.empty_peek]

theorem Inclusive.initial : (State.initial t).Inclusive := by
  refine ⟨fun node => Cache.empty_sound, fun _ => rfl, fun node line => ?_, fun line node next _ => ?_⟩
  · rw [getCacheState_initial]
    exact ⟨by rintro ⟨⟩, by rintro ⟨⟩⟩
  · rw [getCacheState_initial]
    exact Nat.zero_le _

theorem Inclusive.reach {guard : State t → Label t → Prop} (allows : ∀ state label, guard state label →
    Answers state label) (reached : (machine t).Reach guard state) : state.Inclusive := by
  refine reached.invariant Inclusive ?_ ?_
  · intro start starts
    exact starts ▸ .initial
  · intro before label after inclusive allowed stepped
    have kept : Meets (Fault.Allowed False) (before.step label) Inclusive :=
      inclusive.step_meets label (allows before label allowed) False.elim False.elim
    exact kept.of_ok stepped

end State

end Sniper.Hierarchy

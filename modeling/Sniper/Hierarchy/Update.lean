import Sniper.Hierarchy.Cntlr
import Sniper.Library.Outcome

/-! What `updateCacheBlock` does: every copy of the line in the cache and below it that is
there changes to the given state, and nothing else changes. -/

namespace Sniper.Hierarchy

variable {Addr : Type} {t : Topology Addr} {node next other : t.Node}

namespace Topology

/-- The first cache is the second one or one of the caches below it. -/
def Below (t : Topology Addr) (node top : t.Node) : Prop := top = node ∨ top ∈ t.above node

instance : Decidable (t.Below node other) := inferInstanceAs (Decidable (_ ∨ _))

theorem above_of_next (isNext : t.next node = some next) : t.above node = next :: t.above next := by
  cases above : t.above node with
  | nil => simp [Topology.next, above] at isNext
  | cons first rest =>
    simp only [Topology.next, above, List.head?_cons, Option.some.injEq] at isNext
    subst isNext
    rw [t.above_next above]

theorem next_of_prev (isPrev : node ∈ t.prev next) : t.next node = some next := t.mem_prev.mp isPrev

theorem level_of_prev (isPrev : node ∈ t.prev next) : t.level next = t.level node + 1 :=
  t.level_next (above_of_next (next_of_prev isPrev))

theorem prev_of_level_zero (first : t.level node = 0) : t.prev node = [] := by
  refine List.eq_nil_iff_forall_not_mem.mpr fun prev isPrev => ?_
  have above := level_of_prev isPrev
  omega

theorem Below.refl : t.Below node node := .inl rfl

theorem below_of_next (isNext : t.next node = some next) :
    t.Below node other ↔ other = node ∨ t.Below next other := by
  unfold Below
  rw [above_of_next isNext, List.mem_cons]

theorem below_of_above_nil (last : t.above node = []) (below : t.Below node other) : other = node := by
  rcases below with same | member
  · exact same
  · rw [last] at member
    cases member

theorem above_induction {motive : t.Node → Prop} (last : ∀ node, t.above node = [] → motive node)
    (step : ∀ node next, t.next node = some next → motive next → motive node) (node : t.Node) :
    motive node := by
  induction levels : t.above node generalizing node with
  | nil => exact last node levels
  | cons next rest ih =>
    exact step node next (by simp [Topology.next, levels]) (ih next (t.above_next levels))

theorem Below.level_le (below : t.Below node other) : t.level node ≤ t.level other := by
  induction node using above_induction with
  | last node levels => rw [below_of_above_nil levels below]
  | step node next isNext ih =>
    rcases (below_of_next isNext).mp below with same | below
    · rw [same]
    · have above := t.level_next (above_of_next isNext)
      have upper := ih below
      omega

theorem Below.prev {prev : t.Node} (below : t.Below other prev) (isPrev : prev ∈ t.prev node) :
    t.Below other node := by
  induction other using above_induction with
  | last other levels =>
    rw [below_of_above_nil levels below] at isPrev
    exact (below_of_next (next_of_prev isPrev)).mpr (.inr .refl)
  | step other next isNext ih =>
    rcases (below_of_next isNext).mp below with same | below
    · subst same
      exact (below_of_next (next_of_prev isPrev)).mpr (.inr .refl)
    · exact (below_of_next isNext).mpr (.inr (ih below))

theorem Below.cases (below : t.Below other node) :
    other = node ∨ ∃ prev ∈ t.prev node, t.Below other prev := by
  induction other using above_induction with
  | last other levels => exact .inl (below_of_above_nil levels below).symm
  | step other next isNext ih =>
    rcases (below_of_next isNext).mp below with same | below
    · exact .inl same.symm
    · rcases ih below with same | ⟨prev, isPrev, below⟩
      · exact .inr ⟨other, t.mem_prev.mpr (same ▸ isNext), .refl⟩
      · exact .inr ⟨prev, isPrev, (below_of_next isNext).mpr (.inr below)⟩

theorem Below.eq_of_level {first second : t.Node} (below : t.Below node first)
    (below' : t.Below node second) (same : t.level first = t.level second) : first = second := by
  induction node using above_induction with
  | last node levels => rw [below_of_above_nil levels below, below_of_above_nil levels below']
  | step node next isNext ih =>
    have above := t.level_next (above_of_next isNext)
    rcases (below_of_next isNext).mp below with here | below
    · rcases (below_of_next isNext).mp below' with here' | below'
      · rw [here, here']
      · have upper := below'.level_le
        rw [here] at same
        omega
    · rcases (below_of_next isNext).mp below' with here' | below'
      · have upper := below.level_le
        rw [here'] at same
        omega
      · exact ih below below'

theorem Below.prev_unique {first second : t.Node} (below : t.Below other first)
    (isPrev : first ∈ t.prev node) (below' : t.Below other second) (isPrev' : second ∈ t.prev node) :
    first = second := by
  refine below.eq_of_level below' ?_
  have above := level_of_prev isPrev
  have above' := level_of_prev isPrev'
  omega

theorem not_below_prev {prev : t.Node} (isPrev : prev ∈ t.prev node) : ¬t.Below node prev := by
  intro below
  have upper := below.level_le
  have above := level_of_prev isPrev
  omega

theorem not_below_next (isNext : t.next node = some next) : ¬t.Below next node := by
  intro below
  have upper := below.level_le
  have above := t.level_next (above_of_next isNext)
  omega

theorem ne_of_last (last : t.above node = []) (isNext : t.next other = some next) : other ≠ node := by
  intro same
  rw [Topology.next, same, last] at isNext
  cases isNext

theorem ne_of_next (isNext : t.next node = some next) : next ≠ node := by
  intro same
  have above := t.level_next (above_of_next isNext)
  rw [same] at above
  omega

def Under (caches : List t.Node) (node : t.Node) : Prop := ∃ top ∈ caches, t.Below node top

instance {caches : List t.Node} : Decidable (Under caches node) := inferInstanceAs (Decidable (∃ _ ∈ _, _))

theorem Under.of_next {caches : List t.Node} (isNext : t.next node = some next) (under : Under caches next) :
    Under caches node := by
  obtain ⟨top, member, below⟩ := under
  exact ⟨top, member, (below_of_next isNext).mpr (.inr below)⟩

theorem not_under_nil : ¬Under (t := t) [] node := by rintro ⟨_, ⟨⟩, -⟩

theorem under_append {caches : List t.Node} :
    Under (caches ++ [next]) node ↔ Under caches node ∨ t.Below node next := by
  simp [Under, or_and_right, exists_or]

theorem not_under {done : List t.Node} {prev : t.Node} (isPrev : prev ∈ t.prev node)
    (others : ∀ top ∈ done, top ∈ t.prev node ∧ top ≠ prev) (below : t.Below other prev) :
    ¬Under done other ∧ ∀ upper, t.next other = some upper → ¬Under done upper := by
  have apart : ¬Under done other := by
    rintro ⟨top, member, belowTop⟩
    exact (others top member).2 (belowTop.prev_unique (others top member).1 below isPrev)
  refine ⟨apart, ?_⟩
  rintro upper isNext ⟨top, member, belowTop⟩
  exact apart ⟨top, member, (below_of_next isNext).mpr (.inr belowTop)⟩

theorem not_under_prev : ¬Under (t.prev node) node := by
  rintro ⟨prev, isPrev, below⟩
  exact not_below_prev isPrev below

theorem mem_others {requester : Option t.Node} :
    other ∈ t.others node requester ↔ t.next other = some node ∧ some other ≠ requester := by
  rw [Topology.others, List.mem_filter, t.mem_prev, Topology.next]
  simp

theorem not_under_others {requester : Option t.Node} (above : t.Below node other) :
    ¬Under (t.others node requester) other := by
  rintro ⟨prev, member, below⟩
  have isPrev := (List.mem_filter.mp member).1
  have upper := above.level_le
  have lower := below.level_le
  have level := level_of_prev isPrev
  omega

theorem below_iff : t.Below other node ↔ other = node ∨ Under (t.prev node) other := by
  constructor
  · exact Below.cases
  · intro either
    rcases either with same | ⟨prev, isPrev, below⟩
    · exact same ▸ .refl
    · exact below.prev isPrev

end Topology

def Fault.aboutInclusion : Fault → Bool
  | .expectedHit | .writebackNonModified | .alreadyHaveLine => true
  | _ => false

/-- Inclusion never fails, and if `tidy` no lookup does. -/
def Fault.Allowed (tidy : Prop) (fault : Fault) : Prop :=
  fault.aboutInclusion = false ∧ (tidy → fault ≠ .blockIndex)

theorem Fault.allowed {tidy : Prop} {fault : Fault} (inclusion : fault.aboutInclusion = false)
    (other : fault ≠ .blockIndex) : fault.Allowed tidy := ⟨inclusion, fun _ => other⟩

namespace State

variable [DecidableEq Addr] {state after : State t} {address line : Addr} {cstate : CState} {tidy : Prop}

def Sound (state : State t) : Prop := ∀ node, (state.cache node).Sound

/-- What a change leaves behind: the states of all lines, and the caches it has not touched. -/
structure Becomes (state : State t) (touched : t.Node → Prop) (view : t.Node → Addr → CState)
    (after : State t) : Prop where
  view : ∀ node line, after.getCacheState node line = view node line
  evicting : after.evicting = state.evicting
  sound : after.Sound
  frame : ∀ node, ¬touched node → after.cache node = state.cache node

theorem Sound.getCacheState_eq_invalid (sound : state.Sound) :
    state.getCacheState node address = .invalid ↔ state.getCacheBlockInfo node address = none :=
  (sound node).cstate_eq_invalid

theorem getCacheState_of_block {block : Block Addr Unit}
    (stored : state.getCacheBlockInfo node address = some block) :
    state.getCacheState node address = block.cstate := by
  have stored : (state.cache node).peekSingleLine address = some block := stored
  simp [getCacheState, Cache.cstate, stored]

theorem getCacheState_setCache {cache : Cache (t.geometry node) Unit} (other : t.Node) (line : Addr) :
    (state.setCache node cache).getCacheState other line =
      if other = node then cache.cstate line else state.getCacheState other line := by
  unfold getCacheState setCache
  by_cases same : other = node
  · subst same
    simp
  · simp [same]

theorem Sound.setCache (sound : state.Sound) {cache : Cache (t.geometry node) Unit} (new : cache.Sound) :
    (state.setCache node cache).Sound := by
  intro other
  by_cases same : other = node
  · subst same
    simpa [State.setCache] using new
  · simpa [State.setCache, same] using sound other

theorem Sound.setCacheState (sound : state.Sound) (valid : cstate ≠ .invalid) :
    state.Becomes (· = node) (fun other line => if other = node ∧ line = address
        then (state.getCacheState node address).become cstate else state.getCacheState other line)
      (state.setCacheState node address cstate) where
  view other line := by
    rw [State.setCacheState, getCacheState_setCache]
    by_cases same : other = node
    · subst same
      rw [if_pos rfl, (sound other).cstate_setCState]
      by_cases sameLine : line = address <;> simp [sameLine, getCacheState]
    · simp [same]
  evicting := rfl
  sound := sound.setCache ((sound node).setCState valid)
  frame _ apart := Function.update_of_ne apart _ _

theorem Sound.invalidate (sound : state.Sound) :
    state.Becomes (· = node) (fun other line => if other = node ∧ line = address then .invalid
        else state.getCacheState other line)
      (state.setCache node ((state.cache node).invalidateSingleLine address)) where
  view other line := by
    rw [getCacheState_setCache]
    by_cases same : other = node
    · subst same
      rw [if_pos rfl, (sound other).cstate_invalidateSingleLine]
      by_cases sameLine : line = address <;> simp [sameLine, getCacheState]
    · simp [same]
  evicting := rfl
  sound := sound.setCache (sound node).invalidateSingleLine
  frame _ apart := Function.update_of_ne apart _ _

section Becomes

variable {touched : t.Node → Prop} {view view' : t.Node → Addr → CState}

theorem Becomes.trans {final : State t} (first : state.Becomes touched view after)
    (second : after.Becomes touched view' final) : state.Becomes touched view' final where
  view := second.view
  evicting := second.evicting.trans first.evicting
  sound := second.sound
  frame node apart := (second.frame node apart).trans (first.frame node apart)

theorem Becomes.congr (becomes : state.Becomes touched view after)
    (same : ∀ node line, view node line = view' node line) : state.Becomes touched view' after :=
  { becomes with view := fun node line => (becomes.view node line).trans (same node line) }

theorem Becomes.mono (becomes : state.Becomes touched view after) (touched' : t.Node → Prop)
    (larger : ∀ node, touched node → touched' node) : state.Becomes touched' view after :=
  { becomes with frame := fun node apart => becomes.frame node fun member => apart (larger node member) }

theorem Becomes.refl (sound : state.Sound) : state.Becomes touched state.getCacheState state :=
  ⟨fun _ _ => rfl, rfl, sound, fun _ _ => rfl⟩

end Becomes

/-- A cache that takes a dirty line has it `MODIFIED`, or is about to drop it. -/
def Takes (state : State t) (node : t.Node) (address : Addr) : Prop :=
  state.getCacheState node address = .modified ∨ state.evicting node = some address

theorem getBlockIndex_meets (sound : state.Sound)
    (present : tidy → t.isL3 node = true → state.getCacheState node address ≠ .invalid) :
    Meets (Fault.Allowed tidy) (state.getBlockIndex node address) (· = state) := by
  refine .ite (fun missing => .error ⟨rfl, fun holds => ?_⟩) fun _ => .ok rfl
  have absent := Option.isNone_iff_eq_none.mp missing.2.2
  exact absurd (sound.getCacheState_eq_invalid.mpr absent) (present holds missing.1)

theorem writeCacheBlock_meets (sound : state.Sound) (takes : state.Takes node address)
    (present : tidy → t.isL3 node = true → state.getCacheState node address = .modified) :
    Meets (Fault.Allowed tidy) (state.writeCacheBlock node address) (· = state) := by
  have looked : Meets (Fault.Allowed tidy) (state.getBlockIndex node address) (· = state) :=
    getBlockIndex_meets sound fun holds l3 => by rw [present holds l3]; rintro ⟨⟩
  refine looked.bind fun same equal => ?_
  subst equal
  refine .ite (fun _ => .ok rfl) fun kept => ?_
  have modified := takes.resolve_right kept
  cases stored : same.getCacheBlockInfo node address with
  | none =>
    rw [sound.getCacheState_eq_invalid.mpr stored] at modified
    cases modified
  | some block =>
    rw [getCacheState_of_block stored] at modified
    simp only [modified, if_true]
    exact .ok rfl

/-- The view after the caches of a set have changed their copies of a line. -/
def updated (state : State t) (caches : t.Node → Prop) [DecidablePred caches] (address : Addr)
    (cstate : CState) (node : t.Node) (line : Addr) : CState :=
  if line = address ∧ caches node then (state.getCacheState node line).become cstate
  else state.getCacheState node line

theorem updated_congr {caches caches' : t.Node → Prop} [DecidablePred caches] [DecidablePred caches']
    (same : ∀ node, caches node ↔ caches' node) (node : t.Node) (line : Addr) :
    state.updated caches address cstate node line = state.updated caches' address cstate node line := by
  simp only [updated, same]

/-- Every dirty copy of the line in the given caches can be written to the next level. -/
def WritesBack (state : State t) (caches : t.Node → Prop) (address : Addr) : Prop :=
  ∀ node next, caches node → t.next node = some next → state.getCacheState node address = .modified →
    state.Takes next address

/-- No dirty copy of the line is written to an L3 cache that does not have it. -/
def Tidy (state : State t) (caches : t.Node → Prop) (address : Addr) : Prop :=
  ∀ node next, caches node → t.next node = some next → t.isL3 next = true →
    state.getCacheState node address = .modified → state.getCacheState next address = .modified

theorem writeBackBlock_meets {outBuf : Bool} (sound : state.Sound)
    (writesBack : state.WritesBack (· = node) address) (clean : tidy → state.Tidy (· = node) address) :
    Meets (Fault.Allowed tidy) (state.writeBackBlock address outBuf node)
      (state.Becomes (· = node) fun other line => if other = node ∧ line = address
        then (state.getCacheState node address).clean else state.getCacheState other line) := by
  refine .ite (fun modified => ?_) fun clean => .ok ((Becomes.refl sound).congr fun other line => ?_)
  · refine Meets.bind (?_ : Meets _ _ (· = state)) fun same equal => ?_
    · cases isNext : t.next node with
      | none => exact .ite (fun _ => .ok rfl) fun _ => .error (Fault.allowed rfl (by rintro ⟨⟩))
      | some next =>
        refine writeCacheBlock_meets sound (writesBack node next rfl isNext modified) fun holds l3 => ?_
        exact clean holds node next rfl isNext l3 modified
    subst equal
    have changed : same.Becomes _ _ (same.setCacheState node address .shared) := sound.setCacheState (by rintro ⟨⟩)
    refine .ok (changed.congr fun other line => ?_)
    simp only [modified]
    rfl
  · split
    case isTrue here => rw [CState.clean, here.1, here.2, if_neg clean]
    case isFalse => rfl

theorem changeBlock_meets {outBuf : Bool} (sound : state.Sound)
    (clean : state.getCacheState node address ≠ .modified) (valid : state.getCacheState node address ≠ .invalid) :
    Meets (Fault.Allowed tidy) (state.changeBlock address cstate outBuf node)
      (state.Becomes (· = node) fun other line => if other = node ∧ line = address then cstate
        else state.getCacheState other line) := by
  have set (new : CState) (some : new ≠ .invalid) :
      state.Becomes (· = node) (fun other line => if other = node ∧ line = address then new
        else state.getCacheState other line) (state.setCacheState node address new) := by
    refine (sound.setCacheState some).congr fun other line => ?_
    rw [CState.become, if_neg valid]
  cases cstate with
  | invalid =>
    exact .ite (fun wrong => absurd wrong (not_or.mpr ⟨clean, valid⟩)) fun _ => .ok sound.invalidate
  | shared => exact .ok (set .shared (by rintro ⟨⟩))
  | modified =>
    exact .ite (fun _ => .error (Fault.allowed rfl (by rintro ⟨⟩))) fun _ => .ok (set .modified (by rintro ⟨⟩))
  | sharedUpgrading | exclusive | owned => exact .error (Fault.allowed rfl (by rintro ⟨⟩))

theorem updateOwnBlock_meets {outBuf : Bool} (sound : state.Sound)
    (writesBack : state.WritesBack (· = node) address) (tidied : tidy → state.Tidy (· = node) address) :
    Meets (Fault.Allowed tidy) (state.updateOwnBlock address cstate outBuf node)
      (state.Becomes (· = node) (state.updated (· = node) address cstate)) := by
  unfold updateOwnBlock
  cases stored : state.getCacheBlockInfo node address with
  | none =>
    refine .ite (fun _ => .error (Fault.allowed rfl (by rintro ⟨⟩))) fun _ =>
      .ok ((Becomes.refl sound).congr fun other line => ?_)
    unfold updated
    split
    case isTrue here =>
      rw [here.1, here.2, sound.getCacheState_eq_invalid.mpr stored]
      rfl
    case isFalse => rfl
  | some block =>
    have current := getCacheState_of_block stored
    have valid := (sound node).live stored
    refine .ite (fun same => .ok ((Becomes.refl sound).congr fun other line => ?_)) fun _ => ?_
    · unfold updated
      split
      case isTrue here => rw [here.1, here.2, current, ← same.1, CState.become, if_neg (same.1 ▸ valid)]
      case isFalse => rfl
    · refine (writeBackBlock_meets sound writesBack tidied).bind fun mid becomes => ?_
      have here : mid.getCacheState node address = block.cstate.clean := by
        rw [becomes.view, if_pos ⟨rfl, rfl⟩, current]
      have clean : mid.getCacheState node address ≠ .modified := by
        rw [here, CState.clean]
        split
        · rintro ⟨⟩
        · assumption
      have valid : mid.getCacheState node address ≠ .invalid := by
        rw [here, CState.clean]
        split
        · rintro ⟨⟩
        · exact valid
      refine (changeBlock_meets becomes.sound clean valid).mono fun after changed => ?_
      refine (becomes.trans changed).congr fun other line => ?_
      rw [becomes.view, updated]
      by_cases same : other = node ∧ line = address
      · rw [if_pos same, if_pos ⟨same.2, same.1⟩, same.1, same.2, current, CState.become, if_neg]
        exact (sound node).live stored
      · rw [if_neg same, if_neg same, if_neg (fun eq => same ⟨eq.2, eq.1⟩)]

theorem foldlM_meets {caches : List t.Node} {step : State t → t.Node → Except Fault (State t)}
    (within : ∀ prev ∈ caches, prev ∈ t.prev node) (nodup : caches.Nodup)
    (each : ∀ prev ∈ caches, ∀ before : State t, before.Sound → before.WritesBack (t.Below · prev) address →
      (tidy → before.Tidy (t.Below · prev) address) → Meets (Fault.Allowed tidy) (step before prev)
        (before.Becomes (t.Below · prev) (before.updated (t.Below · prev) address cstate)))
    (sound : state.Sound) (writesBack : state.WritesBack (Topology.Under caches) address)
    (tidied : tidy → state.Tidy (Topology.Under caches) address) :
    Meets (Fault.Allowed tidy) (caches.foldlM step state)
      (state.Becomes (Topology.Under caches) (state.updated (Topology.Under caches) address cstate)) := by
  refine Meets.foldlM (fun done =>
    state.Becomes (Topology.Under done) (state.updated (Topology.Under done) address cstate)) caches ?_ ?_
  · intro done prev rest before split becomes
    have member : prev ∈ caches := by simp [split]
    have others : ∀ top ∈ done, top ∈ t.prev node ∧ top ≠ prev := by
      intro top isDone
      refine ⟨within top (by simp [split, isDone]), ?_⟩
      rw [split, List.nodup_append] at nodup
      exact nodup.2.2 top isDone prev List.mem_cons_self
    have same {other : t.Node} (below : t.Below other prev) (line : Addr) :
        before.getCacheState other line = state.getCacheState other line ∧
          ∀ upper, t.next other = some upper →
            before.getCacheState upper line = state.getCacheState upper line := by
      obtain ⟨apart, upperApart⟩ := Topology.not_under (within prev member) others below
      refine ⟨?_, fun upper isNext => ?_⟩
      · rw [becomes.view, updated, if_neg (fun both => apart both.2)]
      · rw [becomes.view, updated, if_neg (fun both => upperApart upper isNext both.2)]
    refine (each prev member before becomes.sound ?_ ?_).mono fun after changed => ?_
    · intro other upper below isNext modified
      obtain ⟨here, above⟩ := same below address
      rw [here] at modified
      have takes := writesBack other upper ⟨prev, member, below⟩ isNext modified
      rwa [Takes, above upper isNext, becomes.evicting]
    · intro holds other upper below isNext l3 modified
      obtain ⟨here, above⟩ := same below address
      rw [here] at modified
      rw [above upper isNext]
      exact tidied holds other upper ⟨prev, member, below⟩ isNext l3 modified
    · have wider := becomes.mono (Topology.Under (done ++ [prev])) fun _ under =>
        Topology.under_append.mpr (.inl under)
      have changed := changed.mono (Topology.Under (done ++ [prev])) fun _ below =>
        Topology.under_append.mpr (.inr below)
      refine (wider.trans changed).congr fun other line => ?_
      rw [updated_congr (fun other => Topology.under_append) other line]
      unfold updated
      by_cases below : t.Below other prev
      · rw [(same below line).1]
        simp [below]
      · rw [becomes.view, if_neg (fun both => below both.2), updated]
        simp [below]
  · refine (Becomes.refl sound).congr fun other line => ?_
    rw [updated, if_neg (fun both => Topology.not_under_nil both.2)]

theorem updateCacheBlock_meets {outBuf : Bool} {level : Nat} (isLevel : t.level node = level)
    (sound : state.Sound) (writesBack : state.WritesBack (t.Below · node) address)
    (tidied : tidy → state.Tidy (t.Below · node) address) :
    Meets (Fault.Allowed tidy) (state.updateCacheBlock address cstate outBuf level node)
      (state.Becomes (t.Below · node) (state.updated (t.Below · node) address cstate)) := by
  induction level generalizing node state outBuf with
  | zero =>
    refine (updateOwnBlock_meets sound ?_ ?_).mono fun after becomes =>
      (becomes.mono (t.Below · node) fun _ same => same ▸ .refl).congr ?_
    · intro other upper same
      exact writesBack other upper (same ▸ .refl)
    · intro holds other upper same
      exact tidied holds other upper (same ▸ .refl)
    · intro other line
      refine updated_congr (fun other => ?_) other line
      rw [Topology.below_iff, Topology.prev_of_level_zero isLevel]
      exact (or_iff_left Topology.not_under_nil).symm
  | succ level ih =>
    have below {other : t.Node} (under : Topology.Under (t.prev node) other) : t.Below other node :=
      Topology.below_iff.mpr (.inr under)
    have previous : Meets (Fault.Allowed tidy)
        ((t.prev node).foldlM (fun state prev => updateCacheBlock address cstate false level prev state) state)
        (state.Becomes (Topology.Under (t.prev node))
          (state.updated (Topology.Under (t.prev node)) address cstate)) := by
      refine foldlM_meets (fun _ => id) (t.prev_nodup node) ?_ sound ?_ ?_
      · intro prev isPrev before sound writesBack tidied
        have above := Topology.level_of_prev isPrev
        exact ih (by omega) sound writesBack tidied
      · intro other upper under
        exact writesBack other upper (below under)
      · intro holds other upper under
        exact tidied holds other upper (below under)
    refine previous.bind fun mid becomes => ?_
    have apart : ¬Topology.Under (t.prev node) node := Topology.not_under_prev
    have here : mid.getCacheState node address = state.getCacheState node address := by
      rw [becomes.view, updated, if_neg (fun both => apart both.2)]
    have above {upper : t.Node} (isNext : t.next node = some upper) :
        mid.getCacheState upper address = state.getCacheState upper address := by
      rw [becomes.view, updated, if_neg]
      rintro ⟨_, prev, isPrev, under⟩
      exact apart ⟨prev, isPrev, (Topology.below_of_next isNext).mpr (.inr under)⟩
    refine (updateOwnBlock_meets becomes.sound ?_ ?_).mono fun after changed => ?_
    · intro other upper same isNext modified
      subst same
      rw [here] at modified
      have takes := writesBack other upper .refl isNext modified
      rwa [Takes, above isNext, becomes.evicting]
    · intro holds other upper same isNext l3 modified
      subst same
      rw [here] at modified
      rw [above isNext]
      exact tidied holds other upper .refl isNext l3 modified
    · have wider := becomes.mono (t.Below · node) fun _ => below
      have changed := changed.mono (t.Below · node) fun _ same => same ▸ .refl
      refine (wider.trans changed).congr fun other line => ?_
      rw [updated_congr (fun other => Topology.below_iff) other line]
      unfold updated
      rw [becomes.view, updated]
      by_cases same : other = node
      · simp [same, apart]
      · simp [same]

theorem updateEach_meets {caches : List t.Node} (within : ∀ prev ∈ caches, prev ∈ t.prev node)
    (nodup : caches.Nodup) (sound : state.Sound) (writesBack : state.WritesBack (Topology.Under caches) address)
    (tidied : tidy → state.Tidy (Topology.Under caches) address) :
    Meets (Fault.Allowed tidy) (state.updateEach caches address cstate)
      (state.Becomes (Topology.Under caches) (state.updated (Topology.Under caches) address cstate)) :=
  foldlM_meets within nodup (fun _ _ _ => updateCacheBlock_meets rfl) sound writesBack tidied

end State

end Sniper.Hierarchy

import Sniper.Directory.Bookkeeping

/-! The calls of the controller keep the directory cache well-formed, and leave the replaced entries alone. -/

namespace Sniper.Directory.Storage

variable {n : Nat} {Addr : Type} {shape : Shape Addr} {state middle after : State n Addr} {set way object : Nat}
  {address : Addr} {removed updated : Addr → Prop}

namespace State

/-- What a call of the controller leaves alone: replaced entries, but those of the addresses it removes or updates, and the
address of an entry for as long as the entry lives. -/
structure Frame (removed updated : Addr → Prop) (state after : State n Addr) : Prop where
  listed : ∀ {object address}, object ∈ state.replaced → state.address object = some address → ¬removed address →
    object ∈ after.replaced ∧ after.address object = some address
  kept : ∀ {object address}, object ∈ state.replaced → state.address object = some address → ¬removed address →
    ¬updated address → after.heap object = state.heap object
  named : ∀ {object address}, state.address object = some address →
    after.heap object = none ∨ after.address object = some address
  fresh : state.fresh ≤ after.fresh
  dead : ∀ {object}, object < state.fresh → state.heap object = none → after.heap object = none

theorem address_of_heap (kept : after.heap object = state.heap object) : after.address object = state.address object := by
  rw [State.address, kept, State.address]

namespace Frame

theorem refl (state : State n Addr) : Frame removed updated state state where
  listed listed known _ := ⟨listed, known⟩
  kept _ _ _ _ := rfl
  named known := .inr known
  fresh := Nat.le_refl _
  dead _ missing := missing

theorem trans (wf : state.WellFormed shape) (first : Frame removed updated state middle)
    (second : Frame removed updated middle after) : Frame removed updated state after where
  listed listed known stays := by
    obtain ⟨listedFirst, knownFirst⟩ := first.listed listed known stays
    exact second.listed listedFirst knownFirst stays
  kept listed known stays quiet := by
    obtain ⟨listedFirst, knownFirst⟩ := first.listed listed known stays
    exact (second.kept listedFirst knownFirst stays quiet).trans (first.kept listed known stays quiet)
  named known := by
    rcases first.named known with gone | known'
    · have old := wf.fresh (isSome_of_address known)
      exact .inl (second.dead (Nat.lt_of_lt_of_le old first.fresh) gone)
    · exact second.named known'
  fresh := Nat.le_trans first.fresh second.fresh
  dead small missing := second.dead (Nat.lt_of_lt_of_le small first.fresh) (first.dead small missing)

theorem mono {removed' updated' : Addr → Prop} (frame : Frame removed updated state after)
    (removes : ∀ object address, object ∈ state.replaced → state.address object = some address → removed address →
      removed' address)
    (updates : ∀ object address, object ∈ state.replaced → state.address object = some address → updated address →
      updated' address) :
    Frame removed' updated' state after where
  listed listed known stays := frame.listed listed known fun removes' => stays (removes _ _ listed known removes')
  kept listed known stays quiet :=
    frame.kept listed known (fun removes' => stays (removes _ _ listed known removes'))
      fun updates' => quiet (updates _ _ listed known updates')
  named := frame.named
  fresh := frame.fresh
  dead := frame.dead

theorem of_eq {queued : State n Addr} (frame : Frame removed updated state after) (heap : queued.heap = after.heap)
    (fresh : queued.fresh = after.fresh) (replaced : queued.replaced = after.replaced) :
    Frame removed updated state queued where
  listed listed known stays := by
    rw [State.address, heap, replaced]
    exact frame.listed listed known stays
  kept listed known stays quiet := by
    rw [heap]
    exact frame.kept listed known stays quiet
  named known := by
    rw [State.address, heap]
    exact frame.named known
  fresh := fresh ▸ frame.fresh
  dead small missing := heap ▸ frame.dead small missing

end Frame

theorem Keeps.frame (keeps : state.Keeps after) : Frame removed updated state after where
  listed listed known _ := ⟨keeps.replaced ▸ listed, (address_of_heap (keeps.heap known)).trans known⟩
  kept _ known _ _ := keeps.heap known
  named known := .inr ((address_of_heap (keeps.heap known)).trans known)
  fresh := keeps.fresh
  dead := keeps.dead

theorem Swaps.frame (swaps : state.Swaps after set way object address) (wf : state.WellFormed shape) :
    Frame removed updated state after where
  listed listed known _ := by
    rw [swaps.replaced]
    exact ⟨List.mem_append_left _ listed, (swaps.address_of_live wf (isSome_of_address known)).trans known⟩
  kept _ known _ _ := swaps.heap_of_live wf (isSome_of_address known)
  named known := .inr ((swaps.address_of_live wf (isSome_of_address known)).trans known)
  fresh := by
    rw [swaps.fresh]
    exact Nat.le_succ _
  dead small missing := by rw [swaps.heap, if_neg (by omega), missing]

theorem ne_of_address {other : Nat} {address' : Addr} (known : state.address object = some address)
    (known' : state.address other = some address') (apart : address' ≠ address) : other ≠ object := by
  intro same
  rw [same, known, Option.some.injEq] at known'
  exact apart known'.symm

theorem Deletes.frame (deletes : state.Deletes after object) (known : state.address object = some address)
    (wf : state.WellFormed shape) : Frame (· = address) updated state after where
  listed listed known' stays := by
    have apart := ne_of_address known known' stays
    rw [deletes.replaced, wf.nodup.mem_erase_iff, deletes.address_eq apart]
    exact ⟨⟨apart, listed⟩, known'⟩
  kept _ known' stays _ := by rw [deletes.heap, if_neg (ne_of_address known known' stays)]
  named {other address'} known' := by
    by_cases same : other = object
    · exact .inl (by rw [deletes.heap, if_pos same])
    · exact .inr ((deletes.address_eq same).trans known')
  fresh := Nat.le_of_eq deletes.fresh.symm
  dead small missing := by
    rw [deletes.heap]
    split
    · rfl
    · exact missing

theorem modify_frame (change : DirectoryEntry n → DirectoryEntry n) (known : state.address object = some address) :
    Frame removed (· = address) state (state.modify object fun stored => { stored with entry := change stored.entry }) where
  listed listed known' _ := ⟨listed, (modify_address change _).trans known'⟩
  kept _ known' _ quiet := by simp [modify, ne_of_address known known' quiet]
  named known' := .inr ((modify_address change _).trans known')
  fresh := Nat.le_refl _
  dead {other} _ missing := by
    by_cases same : other = object
    · subst same
      simp [modify, missing]
    · simp [modify, same, missing]

variable [DecidableEq Addr]

/-! ### Calls -/

theorem replaceDirectoryEntry_swaps {replacedAddress : Addr} (wf : state.WellFormed shape)
    (replaced : state.replaceDirectoryEntry shape replacedAddress address = .ok after) :
    ∃ middle way object, middle.WellFormed shape ∧ state.Grows middle ∧ middle.address object = some replacedAddress ∧
      middle.Swaps after (shape.setIndex replacedAddress) way object address := by
  simp only [replaceDirectoryEntry] at replaced
  split at replaced
  case h_1 middle way object searched =>
    cases replaced
    obtain ⟨kept, grows⟩ := search_grows wf (fun _ => List.mem_range.mp) searched
    obtain ⟨_, stored, known⟩ := search_some searched
    refine ⟨middle, way, object, kept, grows, known, stored, ?_, ?_, rfl, rfl⟩
    · intro other
      by_cases own : other = middle.fresh <;>
        simp [setDirectoryEntry, setAddress, modify, createDirectoryEntry, own]
    · intro set' way'
      exact setDirectoryEntry_entryList set' way'
  case h_2 => cases replaced

theorem invalidateDirectoryEntry_deletes (invalidated : state.invalidateDirectoryEntry address = .ok after) :
    ∃ object, state.address object = some address ∧ state.Deletes after object := by
  simp only [invalidateDirectoryEntry] at invalidated
  split at invalidated
  case h_1 object found =>
    cases invalidated
    have same := List.find?_some found
    refine ⟨object, of_decide_eq_true same, List.mem_of_find?_eq_some found, ?_, rfl, rfl, rfl⟩
    intro other
    simp only [Function.update_apply]
  case h_2 => cases invalidated

theorem processNullifyReq_frame (wf : state.WellFormed shape)
    (processed : state.processNullifyReq shape address = .ok after) :
    after.WellFormed shape ∧ Frame (· = address) updated state after := by
  simp only [processNullifyReq] at processed
  split at processed
  case h_1 => cases processed
  case h_2 middle object got =>
    obtain ⟨kept, keeps, _, _⟩ := getDirectoryEntry_spec wf got
    split at processed
    · cases invalidated : middle.invalidateDirectoryEntry address with
      | error fault => simp [invalidated, bind, Except.bind] at processed
      | ok last =>
        simp only [invalidated, bind, Except.bind] at processed
        cases processed
        obtain ⟨object, known, deletes⟩ := invalidateDirectoryEntry_deletes invalidated
        refine ⟨(deletes.wellFormed kept).of_eq rfl rfl rfl rfl, ?_⟩
        exact (Frame.trans wf keeps.frame (deletes.frame known kept)).of_eq rfl rfl rfl
    · cases processed
      exact ⟨kept, keeps.frame⟩

omit [DecidableEq Addr] in
theorem candidates_spec {ways candidates found : List Nat} (wf : state.WellFormed shape)
    (inside : ∀ way ∈ ways, way < shape.associativity)
    (before : ∀ object ∈ candidates, ∃ way, state.entryList set way = some object)
    (collected : ways.foldl (fun (state, candidates) way =>
      let (state, object) := State.entryAt set way state
      (state, candidates ++ [object])) (state, candidates) = (after, found)) :
    after.WellFormed shape ∧ state.Grows after ∧ ∀ object ∈ found, ∃ way, after.entryList set way = some object := by
  induction ways generalizing state candidates with
  | nil =>
    cases collected
    exact ⟨wf, .refl _, before⟩
  | cons way rest ih =>
    have grows : state.Grows (state.entryAt set way).1 := entryAt_grows wf
    have kept : (state.entryAt set way).1.WellFormed shape := entryAt_wellFormed wf (inside way List.mem_cons_self)
    have extended : ∀ object ∈ candidates ++ [(state.entryAt set way).2], ∃ way',
        (state.entryAt set way).1.entryList set way' = some object := by
      intro object member
      rcases List.mem_append.mp member with old | new
      · obtain ⟨way', stored⟩ := before object old
        exact ⟨way', grows.entryList stored⟩
      · exact ⟨way, List.mem_singleton.mp new ▸ entryAt_at⟩
    obtain ⟨keptLast, growsLast, last⟩ :=
      ih kept (fun way member => inside way (List.mem_cons_of_mem _ member)) extended collected
    exact ⟨keptLast, grows.trans growsLast, last⟩

omit [DecidableEq Addr] in
theorem replacementCandidate_mem {candidates : List Nat} (chosen : state.replacementCandidate candidates = some object) :
    object ∈ candidates := by
  have general (rest : List Nat) (best : Option Nat) : ∀ object, rest.foldl (fun best candidate =>
      if (best.all fun best => (state.entry best).getNumSharers > (state.entry candidate).getNumSharers) ∧
        state.size candidate = 0 then some candidate else best) best = some object →
      object ∈ rest ∨ best = some object := by
    induction rest generalizing best with
    | nil => exact fun object found => .inr found
    | cons candidate rest ih =>
      intro object found
      rcases ih _ object found with member | taken
      · exact .inl (List.mem_cons_of_mem _ member)
      · dsimp only at taken
        split at taken
        · cases taken
          exact .inl List.mem_cons_self
        · exact .inr taken
  rcases general candidates none object chosen with member | impossible
  · exact member
  · cases impossible

omit [DecidableEq Addr] in
theorem getReplacementCandidates_spec {candidates : List Nat} (wf : state.WellFormed shape)
    (got : state.getReplacementCandidates shape address = (after, candidates)) :
    after.WellFormed shape ∧ state.Grows after ∧
      ∀ object ∈ candidates, ∃ way, after.entryList (shape.setIndex address) way = some object := by
  have inside : ∀ way ∈ (List.range shape.associativity).map fun i =>
      (i + state.replacementPtr (shape.setIndex address)) % 2 ^ 32 % shape.associativity, way < shape.associativity := by
    intro way member
    obtain ⟨i, isIndex, same⟩ := List.mem_map.mp member
    have positive : 0 < shape.associativity := Nat.zero_lt_of_lt (List.mem_range.mp isIndex)
    exact same ▸ Nat.mod_lt _ positive
  cases got
  obtain ⟨kept, grows, stored⟩ := candidates_spec wf inside (fun _ member => absurd member List.not_mem_nil) rfl
  exact ⟨kept.of_eq rfl rfl rfl rfl, ⟨grows.heap, grows.created, grows.entryList, grows.replaced, grows.fresh, grows.dead⟩,
    stored⟩

theorem processDirectoryEntryAllocationReq_frame (wf : state.WellFormed shape)
    (full : state.Full shape (shape.setIndex address)) (absent : ∀ object, state.address object ≠ some address)
    (processed : state.processDirectoryEntryAllocationReq shape address = .ok after) :
    after.WellFormed shape ∧ Frame removed updated state after := by
  simp only [processDirectoryEntryAllocationReq] at processed
  cases got : state.getReplacementCandidates shape address with
  | mk first candidates =>
    rw [got] at processed
    obtain ⟨wfFirst, growsFirst, inSet⟩ := getReplacementCandidates_spec wf got
    split at processed
    case h_1 => cases processed
    case h_2 replacedAddress chosen =>
      obtain ⟨candidate, isCandidate, known⟩ := Option.bind_eq_some_iff.mp chosen
      obtain ⟨way, stored⟩ := inSet candidate (replacementCandidate_mem isCandidate)
      have sameSet : shape.setIndex replacedAddress = shape.setIndex address := wfFirst.placed stored known
      cases replaced : first.replaceDirectoryEntry shape replacedAddress address with
      | error fault => simp [replaced, bind, Except.bind] at processed
      | ok second =>
        simp only [replaced, bind, Except.bind] at processed
        obtain ⟨middle, way', object, wfMiddle, growsMiddle, knownMiddle, swaps⟩ :=
          replaceDirectoryEntry_swaps wfFirst replaced
        have grows := growsFirst.trans growsMiddle
        have wfSecond : second.WellFormed shape :=
          swaps.wellFormed wfMiddle sameSet.symm (sameSet ▸ full.mono grows)
            (fun object => grows.address_eq object ▸ absent object)
        have wfQueued : (second.enqueue replacedAddress .nullify).WellFormed shape := wfSecond.of_eq rfl rfl rfl rfl
        obtain ⟨wfLast, frameLast⟩ := processNullifyReq_frame wfQueued processed
        refine ⟨wfLast, ?_⟩
        -- The entry that was replaced is not one of those that were in the list before.
        have unlisted : ∀ other address', other ∈ state.replaced → state.address other = some address' →
            address' = replacedAddress → removed address' := by
          intro other address' listed known' same
          rw [same, ← growsFirst.address_eq] at known'
          rw [wfFirst.unique known' known] at listed
          exact absurd (growsFirst.replaced ▸ listed) (wfFirst.apart stored)
        have frameSecond : Frame (· = replacedAddress) updated state (second.enqueue replacedAddress .nullify) :=
          (Frame.trans wf grows.keeps.frame (swaps.frame wfMiddle)).of_eq rfl rfl rfl
        exact (Frame.trans wf frameSecond frameLast).mono unlisted fun _ _ _ _ updates => updates

theorem processReqFromL2Cache_frame (wf : state.WellFormed shape)
    (processed : state.processReqFromL2Cache shape address = .ok after) :
    after.WellFormed shape ∧ Frame removed updated state after := by
  simp only [processReqFromL2Cache] at processed
  split at processed
  case h_1 middle object got =>
    cases processed
    obtain ⟨kept, keeps, _, _⟩ := getDirectoryEntry_spec wf got
    exact ⟨kept, keeps.frame⟩
  case h_2 middle got =>
    obtain ⟨kept, keeps, _, missing⟩ := getDirectoryEntry_spec wf got
    obtain ⟨full, absent⟩ := missing rfl
    obtain ⟨wfLast, frameLast⟩ := processDirectoryEntryAllocationReq_frame kept full absent processed
    exact ⟨wfLast, Frame.trans wf keeps.frame frameLast⟩

end State

def Label.Removes : Label n Addr → Addr → Prop
  | .processNullify address, other => other = address
  | _, _ => False

def Label.Updates : Label n Addr → Addr → Prop
  | .update address _, other => other = address
  | _, _ => False

variable [DecidableEq Addr]

theorem step_frame {label : Label n Addr} (wf : state.WellFormed shape) (stepped : state.step shape label = .ok after) :
    after.WellFormed shape ∧ State.Frame label.Removes label.Updates state after := by
  cases label with
  | handleMsg address isRequest =>
    cases got : state.getDirectoryEntry shape address with
    | mk middle found =>
      simp only [State.step, got] at stepped
      cases stepped
      obtain ⟨kept, keeps, _, _⟩ := State.getDirectoryEntry_spec wf got
      cases isRequest with
      | true => exact ⟨kept.of_eq rfl rfl rfl rfl, keeps.frame.of_eq rfl rfl rfl⟩
      | false => exact ⟨kept, keeps.frame⟩
  | processReq address =>
    simp only [State.step] at stepped
    split at stepped
    · exact State.processReqFromL2Cache_frame wf stepped
    · cases stepped
      exact ⟨wf, .refl _⟩
  | update address change =>
    simp only [State.step] at stepped
    split at stepped
    case h_1 => cases stepped
    case h_2 middle object got =>
      cases stepped
      obtain ⟨kept, keeps, known, _⟩ := State.getDirectoryEntry_spec wf got
      exact ⟨State.modify_wellFormed kept change, .trans wf keeps.frame (State.modify_frame change (known object rfl))⟩
  | dequeue address =>
    simp only [State.step] at stepped
    split at stepped <;> cases stepped
    · exact ⟨wf.of_eq rfl rfl rfl rfl, (State.Frame.refl state).of_eq rfl rfl rfl⟩
    · exact ⟨wf, .refl _⟩
  | processNullify address =>
    simp only [State.step] at stepped
    split at stepped
    · exact State.processNullifyReq_frame wf stepped
    · cases stepped
      exact ⟨wf, .refl _⟩

theorem reachable_wellFormed (reached : (machine n shape).Reachable state) : state.WellFormed shape := by
  refine reached.invariant (State.WellFormed shape) ?_ ?_
  · intro state starts
    obtain ⟨replacementPtr, isInitial⟩ := starts
    subst isInitial
    refine ⟨?_, by rintro _ ⟨⟩, by rintro _ _ _ _ _ ⟨⟩, by rintro _ _ _ ⟨⟩, by rintro _ _ _ ⟨⟩, .nil,
      by rintro _ _ _ _ ⟨⟩, by rintro _ ⟨⟩, by rintro _ _ _ ⟨⟩⟩
    intro object
    simp [State.Held]
  · intro state label next wf _ stepped
    exact (step_frame wf stepped).1

theorem run_frame {labels : List (Label n Addr)} (wf : state.WellFormed shape)
    (removes : ∀ label ∈ labels, ∀ other, label.Removes other → removed other)
    (updates : ∀ label ∈ labels, ∀ other, label.Updates other → updated other)
    (ran : (machine n shape).run state labels = .ok after) :
    after.WellFormed shape ∧ State.Frame removed updated state after := by
  induction labels generalizing state with
  | nil =>
    cases ran
    exact ⟨wf, .refl _⟩
  | cons label rest ih =>
    simp only [Machine.run] at ran
    split at ran
    case h_1 middle stepped =>
      obtain ⟨wfMiddle, frame⟩ := step_frame wf stepped
      have widened : State.Frame removed updated state middle :=
        frame.mono (fun _ address _ _ => removes label List.mem_cons_self address)
          fun _ address _ _ => updates label List.mem_cons_self address
      obtain ⟨wfLast, frameLast⟩ := ih wfMiddle (fun label member => removes label (List.mem_cons_of_mem _ member))
        (fun label member => updates label (List.mem_cons_of_mem _ member)) ran
      exact ⟨wfLast, .trans wf widened frameLast⟩
    case h_2 => cases ran

theorem getDirectoryEntry_finds (wf : state.WellFormed shape) (known : state.address object = some address) :
    ∃ next, state.getDirectoryEntry shape address = (next, some object) ∧ next.heap object = state.heap object := by
  cases got : state.getDirectoryEntry shape address with
  | mk next found =>
    obtain ⟨kept, keeps, isFound, missing⟩ := State.getDirectoryEntry_spec wf got
    have same := keeps.heap known
    have knownNext := (State.address_of_heap same).trans known
    cases found with
    | none => exact absurd knownNext ((missing rfl).2 object)
    | some other => exact ⟨next, by rw [kept.unique (isFound other rfl) knownNext], same⟩

structure Bookkeeping (shape : Shape Addr) (state : State n Addr) : Prop where
  /-- An address has one entry at most. -/
  oneEntry : ∀ {object object' address}, state.Held object → state.Held object' → state.address object = some address →
    state.address object' = some address → object = object'
  /-- An entry is in one way, or once in the list. -/
  onePlace : (∀ {object set way set' way'}, state.entryList set way = some object →
      state.entryList set' way' = some object → set = set' ∧ way = way') ∧
    (∀ {object set way}, state.entryList set way = some object → object ∉ state.replaced) ∧ state.replaced.Nodup
  /-- No entry is lost, and no deleted one is still there. -/
  noneLost : ∀ object, state.Held object ↔ (state.heap object).isSome
  /-- A replaced entry is found until it is invalidated. -/
  found : ∀ {object address}, object ∈ state.replaced → state.address object = some address →
    ∀ labels after, (∀ label ∈ labels, ¬label.Removes address) → (machine n shape).run state labels = .ok after →
      object ∈ after.replaced ∧ ∃ next, after.getDirectoryEntry shape address = (next, some object)
  /-- It keeps its state and its sharers but for what the handlers change. -/
  unchanged : ∀ {object address}, object ∈ state.replaced → state.address object = some address →
    ∀ labels after, (∀ label ∈ labels, ¬label.Removes address ∧ ¬label.Updates address) →
      (machine n shape).run state labels = .ok after →
      ∃ next, after.getDirectoryEntry shape address = (next, some object) ∧ next.heap object = state.heap object
  /-- An entry is handed out for its own address only, which never changes. -/
  handedOut : ∀ {object address next}, state.getDirectoryEntry shape address = (next, some object) →
    next.address object = some address ∧ ∀ labels after address', (machine n shape).run next labels = .ok after →
      after.address object = some address' → address' = address

theorem directoryCache_bookkeeping (reached : (machine n shape).Reachable state) : Bookkeeping shape state := by
  have wf := reachable_wellFormed reached
  constructor
  · intro object object' address _ _ known known'
    exact wf.unique known known'
  · exact ⟨wf.oneWay, wf.apart, wf.nodup⟩
  · exact wf.held_iff
  · intro object address listed known labels after stays ran
    have run : after.WellFormed shape ∧ State.Frame (· ≠ address) (fun _ => True) state after :=
      run_frame wf (fun label member other removes same => stays label member (same ▸ removes))
        (fun _ _ _ _ => trivial) ran
    obtain ⟨wfAfter, frame⟩ := run
    obtain ⟨listedAfter, knownAfter⟩ := frame.listed listed known (fun apart => apart rfl)
    obtain ⟨next, found, _⟩ := getDirectoryEntry_finds wfAfter knownAfter
    exact ⟨listedAfter, next, found⟩
  · intro object address listed known labels after quiet ran
    have run : after.WellFormed shape ∧ State.Frame (· ≠ address) (· ≠ address) state after :=
      run_frame wf (fun label member other removes same => (quiet label member).1 (same ▸ removes))
        (fun label member other updates same => (quiet label member).2 (same ▸ updates)) ran
    obtain ⟨wfAfter, frame⟩ := run
    obtain ⟨_, knownAfter⟩ := frame.listed listed known (fun apart => apart rfl)
    obtain ⟨next, found, same⟩ := getDirectoryEntry_finds wfAfter knownAfter
    exact ⟨next, found, same.trans (frame.kept listed known (fun apart => apart rfl) fun apart => apart rfl)⟩
  · intro object address next got
    obtain ⟨wfNext, _, isFound, _⟩ := State.getDirectoryEntry_spec wf got
    refine ⟨isFound object rfl, ?_⟩
    intro labels after address' ran known
    have run : after.WellFormed shape ∧ State.Frame (fun _ => True) (fun _ => True) next after :=
      run_frame wfNext (fun _ _ _ _ => trivial) (fun _ _ _ _ => trivial) ran
    rcases run.2.named (isFound object rfl) with gone | same
    · simp [State.address, gone] at known
    · rw [same, Option.some.injEq] at known
      exact known.symm

/-- A directory cache of one way: the entry of address 0 is replaced while a cache has the line. -/
theorem directoryCache_bookkeeping_oneWay :
    ∃ state : State 1 Nat, (machine 1 ⟨1, fun _ => 0⟩).Reachable state ∧ state.replaced = [0] ∧
      Bookkeeping ⟨1, fun _ => 0⟩ state := by
  let share : DirectoryEntry 1 → DirectoryEntry 1 := fun entry => { entry with dstate := .shared, sharers := fun _ => true }
  let calls : List (Label 1 Nat) :=
    [.handleMsg 0 true, .processReq 0, .update 0 share, .dequeue 0, .handleMsg 1 true, .processReq 1]
  let start : State 1 Nat := ⟨fun _ => none, 0, fun _ _ => none, [], fun _ => 0, fun _ => []⟩
  obtain ⟨state, ran, listed⟩ : ∃ state, (machine 1 ⟨1, fun _ => 0⟩).run start calls = .ok state ∧ state.replaced = [0] :=
    ⟨_, rfl, rfl⟩
  have reached : (machine 1 ⟨1, fun _ => 0⟩).Reachable state := Machine.Reachable.run (.initial ⟨fun _ => 0, rfl⟩) ran
  exact ⟨state, reached, listed, directoryCache_bookkeeping reached⟩

end Sniper.Directory.Storage

import Sniper.Directory.Storage

/-! Every address has at most one directory entry, and a replaced entry stays until it is invalidated. -/

namespace Sniper.Directory.Storage

variable {n : Nat} {Addr : Type} {shape : Shape Addr} {state next : State n Addr} {set way object : Nat} {address : Addr}

namespace State

def Held (state : State n Addr) (object : Nat) : Prop :=
  (∃ set way, state.entryList set way = some object) ∨ object ∈ state.replaced

def Full (shape : Shape Addr) (state : State n Addr) (set : Nat) : Prop :=
  ∀ way < shape.associativity, ∃ object address, state.entryList set way = some object ∧
    state.address object = some address

structure WellFormed (shape : Shape Addr) (state : State n Addr) : Prop where
  /-- No pointer dangles, and no object is lost. -/
  held_iff : ∀ object, state.Held object ↔ (state.heap object).isSome
  fresh : ∀ {object}, (state.heap object).isSome → object < state.fresh
  oneWay : ∀ {object set way set' way'}, state.entryList set way = some object →
    state.entryList set' way' = some object → set = set' ∧ way = way'
  small : ∀ {object set way}, state.entryList set way = some object → way < shape.associativity
  apart : ∀ {object set way}, state.entryList set way = some object → object ∉ state.replaced
  nodup : state.replaced.Nodup
  placed : ∀ {object set way address}, state.entryList set way = some object → state.address object = some address →
    shape.setIndex address = set
  /-- A set with a replaced entry stays full, so a lookup gets as far as the list. -/
  known : ∀ {object}, object ∈ state.replaced →
    ∃ address, state.address object = some address ∧ state.Full shape (shape.setIndex address)
  unique : ∀ {object object' address}, state.address object = some address →
    state.address object' = some address → object = object'

/-- A step that creates entries without an address. -/
structure Grows (state next : State n Addr) : Prop where
  heap : ∀ {object}, (state.heap object).isSome → next.heap object = state.heap object
  created : ∀ object, state.heap object = none → next.address object = none
  entryList : ∀ {set way object}, state.entryList set way = some object → next.entryList set way = some object
  replaced : next.replaced = state.replaced
  fresh : state.fresh ≤ next.fresh
  /-- An object that was deleted is not created again. -/
  dead : ∀ {object}, object < state.fresh → state.heap object = none → next.heap object = none

theorem isSome_of_address (known : state.address object = some address) : (state.heap object).isSome := by
  cases stored : state.heap object with
  | none => simp [State.address, stored] at known
  | some value => rfl

namespace Grows

theorem refl (state : State n Addr) : state.Grows state where
  heap _ := rfl
  created object missing := by simp [State.address, missing]
  entryList stored := stored
  replaced := rfl
  fresh := Nat.le_refl _
  dead _ missing := missing

theorem address_eq (grows : state.Grows next) (object : Nat) : next.address object = state.address object := by
  cases stored : state.heap object with
  | none => rw [grows.created object stored, State.address, stored, Option.bind_none]
  | some value => rw [State.address, State.address, grows.heap (by simp [stored])]

theorem trans {last : State n Addr} (first : state.Grows next) (second : next.Grows last) : state.Grows last where
  heap stored := by
    have kept := first.heap stored
    rw [second.heap (kept ▸ stored), kept]
  created object missing := by rw [second.address_eq, first.created object missing]
  entryList stored := second.entryList (first.entryList stored)
  replaced := second.replaced.trans first.replaced
  fresh := Nat.le_trans first.fresh second.fresh
  dead small missing := second.dead (Nat.lt_of_lt_of_le small first.fresh) (first.dead small missing)

end Grows

/-! ### The loops over the ways -/

theorem setDirectoryEntry_entryList (set' way' : Nat) :
    (state.setDirectoryEntry set way object).entryList set' way' =
      if set' = set ∧ way' = way then some object else state.entryList set' way' := by
  by_cases sameSet : set' = set
  · subst sameSet
    by_cases sameWay : way' = way <;> simp [setDirectoryEntry, sameWay]
  · simp [setDirectoryEntry, sameSet]

theorem entryAt_at : (state.entryAt set way).1.entryList set way = some (state.entryAt set way).2 := by
  cases stored : state.entryList set way with
  | none => simp [entryAt, stored, setDirectoryEntry, createDirectoryEntry]
  | some object => simp [entryAt, stored]

theorem WellFormed.fresh_none (wf : state.WellFormed shape) : state.heap state.fresh = none := by
  cases stored : state.heap state.fresh with
  | none => rfl
  | some value =>
    have small : state.fresh < state.fresh := wf.fresh (by simp [stored])
    omega

theorem WellFormed.ne_fresh (wf : state.WellFormed shape) (live : (state.heap object).isSome) : object ≠ state.fresh := by
  have small := wf.fresh live
  omega

theorem entryAt_none (stored : state.entryList set way = none) :
    state.entryAt set way = (state.createDirectoryEntry.1.setDirectoryEntry set way state.fresh, state.fresh) := by
  simp [entryAt, stored, createDirectoryEntry]

theorem createDirectoryEntry_heap (object : Nat) :
    state.createDirectoryEntry.1.heap object = if object = state.fresh then some ⟨none, .new⟩ else state.heap object := by
  simp [createDirectoryEntry, Function.update_apply]

theorem entryAt_grows (wf : state.WellFormed shape) : state.Grows (state.entryAt set way).1 := by
  cases stored : state.entryList set way with
  | some object =>
    rw [entryAt, stored]
    exact .refl state
  | none =>
    rw [entryAt_none stored]
    constructor
    · intro object live
      exact (createDirectoryEntry_heap object).trans (if_neg (wf.ne_fresh live))
    · intro object missing
      have created : (state.createDirectoryEntry.1.setDirectoryEntry set way state.fresh).heap object = _ :=
        createDirectoryEntry_heap object
      rw [State.address, created]
      split <;> simp [missing]
    · intro set' way' object taken
      rw [setDirectoryEntry_entryList]
      split
      case isTrue same =>
        rw [same.1, same.2, stored] at taken
        cases taken
      case isFalse => exact taken
    · rfl
    · exact Nat.le_succ _
    · intro object small missing
      exact (createDirectoryEntry_heap object).trans ((if_neg (by omega)).trans missing)

theorem Full.mono (grows : state.Grows next) (full : state.Full shape set) : next.Full shape set := by
  intro way small
  obtain ⟨object, address, stored, known⟩ := full way small
  exact ⟨object, address, grows.entryList stored, (grows.address_eq object).trans known⟩

theorem entryAt_wellFormed (wf : state.WellFormed shape) (isWay : way < shape.associativity) :
    (state.entryAt set way).1.WellFormed shape := by
  have grows : state.Grows (state.entryAt set way).1 := entryAt_grows wf
  cases stored : state.entryList set way with
  | some object =>
    rw [entryAt, stored]
    exact wf
  | none =>
    rw [entryAt_none stored] at grows ⊢
    have inWay {set' way' object : Nat}
        (taken : (state.createDirectoryEntry.1.setDirectoryEntry set way state.fresh).entryList set' way' = some object) :
        (set' = set ∧ way' = way ∧ object = state.fresh) ∨
          (object ≠ state.fresh ∧ state.entryList set' way' = some object) := by
      rw [setDirectoryEntry_entryList] at taken
      split at taken
      case isTrue same => exact .inl ⟨same.1, same.2, (Option.some.inj taken).symm⟩
      case isFalse => exact .inr ⟨wf.ne_fresh ((wf.held_iff object).mp (.inl ⟨_, _, taken⟩)), taken⟩
    have ownAddress : (state.createDirectoryEntry.1.setDirectoryEntry set way state.fresh).address state.fresh = none := by
      rw [grows.created state.fresh wf.fresh_none]
    constructor
    · intro object
      have heap := (createDirectoryEntry_heap object : state.createDirectoryEntry.1.heap object = _)
      show _ ↔ (state.createDirectoryEntry.1.heap object).isSome
      rw [heap]
      by_cases own : object = state.fresh
      · simp only [own, if_true, Option.isSome_some, iff_true]
        exact .inl ⟨set, way, by rw [setDirectoryEntry_entryList, if_pos ⟨rfl, rfl⟩]⟩
      · rw [if_neg own, ← wf.held_iff object]
        constructor
        · rintro (⟨set', way', taken⟩ | listed)
          · obtain ⟨_, _, same⟩ | ⟨_, taken⟩ := inWay taken
            · exact absurd same own
            · exact .inl ⟨set', way', taken⟩
          · exact .inr listed
        · rintro (⟨set', way', taken⟩ | listed)
          · exact .inl ⟨set', way', grows.entryList taken⟩
          · exact .inr listed
    · intro object live
      have live : (state.createDirectoryEntry.1.heap object).isSome := live
      rw [createDirectoryEntry_heap] at live
      show object < state.fresh + 1
      split at live
      case isTrue own => omega
      case isFalse => exact Nat.lt_succ_of_lt (wf.fresh live)
    · intro object set₁ way₁ set₂ way₂ first second
      obtain ⟨sameSet, sameWay, same⟩ | ⟨old, first⟩ := inWay first
      · obtain ⟨sameSet', sameWay', _⟩ | ⟨old, _⟩ := inWay second
        · exact ⟨sameSet.trans sameSet'.symm, sameWay.trans sameWay'.symm⟩
        · exact absurd same old
      · obtain ⟨_, _, same⟩ | ⟨_, second⟩ := inWay second
        · exact absurd same old
        · exact wf.oneWay first second
    · intro object set' way' taken
      obtain ⟨_, same, _⟩ | ⟨_, taken⟩ := inWay taken
      · exact same ▸ isWay
      · exact wf.small taken
    · intro object set' way' taken listed
      obtain ⟨_, _, same⟩ | ⟨_, taken⟩ := inWay taken
      · exact wf.ne_fresh ((wf.held_iff object).mp (.inr listed)) same
      · exact wf.apart taken listed
    · exact wf.nodup
    · intro object set' way' address taken known
      obtain ⟨_, _, same⟩ | ⟨_, taken⟩ := inWay taken
      · rw [same, ownAddress] at known
        cases known
      · exact wf.placed taken ((grows.address_eq object).symm.trans known)
    · intro object listed
      obtain ⟨address, known, full⟩ := wf.known listed
      exact ⟨address, (grows.address_eq object).trans known, full.mono grows⟩
    · intro object object' address first second
      rw [grows.address_eq] at first second
      exact wf.unique first second

section Lookup

variable [DecidableEq Addr] {wanted : Option Addr} {ways : List Nat} {after : State n Addr}

theorem search_cons (rest : List Nat) :
    state.search set wanted (way :: rest) =
      if (state.entryAt set way).1.address (state.entryAt set way).2 = wanted then
        ((state.entryAt set way).1, some (way, (state.entryAt set way).2))
      else (state.entryAt set way).1.search set wanted rest := rfl

theorem search_grows {found : Option (Nat × Nat)} (wf : state.WellFormed shape)
    (inside : ∀ way ∈ ways, way < shape.associativity) (searched : state.search set wanted ways = (after, found)) :
    after.WellFormed shape ∧ state.Grows after := by
  induction ways generalizing state with
  | nil =>
    cases searched
    exact ⟨wf, .refl _⟩
  | cons way rest ih =>
    have grows : state.Grows (state.entryAt set way).1 := entryAt_grows wf
    have kept : (state.entryAt set way).1.WellFormed shape := entryAt_wellFormed wf (inside way List.mem_cons_self)
    rw [search_cons] at searched
    split at searched
    · cases searched
      exact ⟨kept, grows⟩
    · obtain ⟨kept, more⟩ := ih kept (fun way member => inside way (List.mem_cons_of_mem _ member)) searched
      exact ⟨kept, grows.trans more⟩

theorem search_some (searched : state.search set wanted ways = (after, some (way, object))) :
    way ∈ ways ∧ after.entryList set way = some object ∧ after.address object = wanted := by
  induction ways generalizing state with
  | nil => cases searched
  | cons first rest ih =>
    rw [search_cons] at searched
    split at searched
    case isTrue found =>
      cases searched
      exact ⟨List.mem_cons_self, entryAt_at, found⟩
    case isFalse =>
      obtain ⟨member, stored, same⟩ := ih searched
      exact ⟨List.mem_cons_of_mem _ member, stored, same⟩

theorem search_none (wf : state.WellFormed shape) (inside : ∀ way ∈ ways, way < shape.associativity)
    (searched : state.search set wanted ways = (after, none)) (member : way ∈ ways) :
    ∃ object, after.entryList set way = some object ∧ after.address object ≠ wanted := by
  induction ways generalizing state with
  | nil => cases member
  | cons first rest ih =>
    have kept : (state.entryAt set first).1.WellFormed shape := entryAt_wellFormed wf (inside first List.mem_cons_self)
    have insideRest := fun way member => inside way (List.mem_cons_of_mem first member)
    rw [search_cons] at searched
    split at searched
    case isTrue => cases searched
    case isFalse rejected =>
      have grows := (search_grows kept insideRest searched).2
      rcases List.mem_cons.mp member with same | member
      · subst same
        exact ⟨_, grows.entryList entryAt_at, by rwa [grows.address_eq]⟩
      · exact ih kept insideRest searched member

omit [DecidableEq Addr] in
theorem setAddress_address (live : (state.heap object).isSome) : (state.setAddress object address).address object = some address := by
  obtain ⟨value, isValue⟩ := Option.isSome_iff_exists.mp live
  simp [setAddress, modify, State.address, isValue]

omit [DecidableEq Addr] in
theorem setAddress_heap {other : Nat} (apart : other ≠ object) :
    (state.setAddress object address).heap other = state.heap other := by
  simp [setAddress, modify, apart]

omit [DecidableEq Addr] in
theorem setAddress_wellFormed (wf : state.WellFormed shape)
    (stored : state.entryList (shape.setIndex address) way = some object) (free : state.address object = none)
    (absent : ∀ other, state.address other ≠ some address) : (state.setAddress object address).WellFormed shape := by
  have live : (state.heap object).isSome := (wf.held_iff object).mp (.inl ⟨_, _, stored⟩)
  have heap (other : Nat) : ((state.setAddress object address).heap other).isSome = (state.heap other).isSome := by
    by_cases same : other = object <;> simp [setAddress, modify, same]
  have own : (state.setAddress object address).address object = some address := setAddress_address live
  have others {other : Nat} (apart : other ≠ object) :
      (state.setAddress object address).address other = state.address other := by
    rw [State.address, setAddress_heap apart, State.address]
  constructor
  · intro other
    rw [heap]
    exact wf.held_iff other
  · intro other isLive
    rw [heap] at isLive
    exact wf.fresh isLive
  · exact wf.oneWay
  · exact wf.small
  · exact wf.apart
  · exact wf.nodup
  · intro other set' way' address' taken known
    by_cases same : other = object
    · subst same
      rw [own, Option.some.injEq] at known
      rw [← known]
      exact (wf.oneWay stored taken).1
    · rw [others same] at known
      exact wf.placed taken known
  · intro other listed
    obtain ⟨address', known, full⟩ := wf.known listed
    have apart : other ≠ object := by
      intro same
      exact wf.apart stored (same ▸ listed)
    refine ⟨address', (others apart).trans known, ?_⟩
    intro way' small
    obtain ⟨filler, address'', taken, isKnown⟩ := full way' small
    refine ⟨filler, address'', taken, (others ?_).trans isKnown⟩
    intro same
    rw [same, free] at isKnown
    cases isKnown
  · intro first second address' knownFirst knownSecond
    by_cases sameFirst : first = object
    · by_cases sameSecond : second = object
      · rw [sameFirst, sameSecond]
      · rw [sameFirst, own, Option.some.injEq] at knownFirst
        rw [others sameSecond, ← knownFirst] at knownSecond
        exact absurd knownSecond (absent second)
    · by_cases sameSecond : second = object
      · rw [sameSecond, own, Option.some.injEq] at knownSecond
        rw [others sameFirst, ← knownSecond] at knownFirst
        exact absurd knownFirst (absent first)
      · rw [others sameFirst] at knownFirst
        rw [others sameSecond] at knownSecond
        exact wf.unique knownFirst knownSecond

/-- What a call leaves alone: the entries that have an address, and the list. -/
structure Keeps (state next : State n Addr) : Prop where
  heap : ∀ {object address}, state.address object = some address → next.heap object = state.heap object
  replaced : next.replaced = state.replaced
  fresh : state.fresh ≤ next.fresh
  dead : ∀ {object}, object < state.fresh → state.heap object = none → next.heap object = none

omit [DecidableEq Addr] in
theorem Grows.keeps (grows : state.Grows next) : state.Keeps next where
  heap known := grows.heap (isSome_of_address known)
  replaced := grows.replaced
  fresh := grows.fresh
  dead := grows.dead

omit [DecidableEq Addr] in
theorem absent_of_ways (wf : state.WellFormed shape)
    (ways : ∀ way ∈ List.range shape.associativity, ∃ object,
      state.entryList (shape.setIndex address) way = some object ∧ state.address object ≠ some address)
    (list : ∀ object ∈ state.replaced, state.address object ≠ some address) (object : Nat) :
    state.address object ≠ some address := by
  intro known
  rcases (wf.held_iff object).mpr (isSome_of_address known) with ⟨set, way, stored⟩ | listed
  · have isSet := wf.placed stored known
    obtain ⟨other, storedOther, unknown⟩ := ways way (List.mem_range.mpr (wf.small stored))
    rw [isSet, stored, Option.some.injEq] at storedOther
    exact unknown (storedOther ▸ known)
  · exact list object listed known

omit [DecidableEq Addr] in
theorem grown (grows : state.Grows next)
    (stored : ∃ object, state.entryList set way = some object ∧ state.address object ≠ wanted) :
    ∃ object, next.entryList set way = some object ∧ next.address object ≠ wanted := by
  obtain ⟨object, stored, other⟩ := stored
  exact ⟨object, grows.entryList stored, by rwa [grows.address_eq]⟩

theorem getDirectoryEntry_spec {found : Option Nat} (wf : state.WellFormed shape)
    (got : state.getDirectoryEntry shape address = (after, found)) :
    after.WellFormed shape ∧ state.Keeps after ∧ (∀ object, found = some object → after.address object = some address) ∧
      (found = none → after.Full shape (shape.setIndex address) ∧ ∀ object, after.address object ≠ some address) := by
  have inside : ∀ way ∈ List.range shape.associativity, way < shape.associativity := fun _ => List.mem_range.mp
  simp only [getDirectoryEntry] at got
  split at got
  case h_1 middle way object searched =>
    cases got
    obtain ⟨kept, grows⟩ := search_grows wf inside searched
    refine ⟨kept, grows.keeps, ?_, by rintro ⟨⟩⟩
    intro object same
    cases same
    exact (search_some searched).2.2
  case h_2 middle searched =>
    obtain ⟨wfMiddle, growsMiddle⟩ := search_grows wf inside searched
    have missed : ∀ way ∈ List.range shape.associativity, ∃ object,
        middle.entryList (shape.setIndex address) way = some object ∧ middle.address object ≠ some address :=
      fun way member => search_none wf inside searched member
    split at got
    case h_1 last way object searchedFree =>
      cases got
      obtain ⟨wfLast, growsLast⟩ := search_grows wfMiddle inside searchedFree
      obtain ⟨isWay, stored, free⟩ := search_some searchedFree
      have live : (last.heap object).isSome := (wfLast.held_iff object).mp (.inl ⟨_, _, stored⟩)
      have list : ∀ other ∈ last.replaced, last.address other ≠ some address := by
        intro other listed known
        obtain ⟨address', known', full⟩ := wfLast.known listed
        rw [known, Option.some.injEq] at known'
        obtain ⟨filler, _, storedFiller, isKnown⟩ := full way (wfLast.small (known' ▸ stored))
        rw [← known', stored, Option.some.injEq] at storedFiller
        rw [← storedFiller, free] at isKnown
        cases isKnown
      have absent := absent_of_ways wfLast (fun way member => grown growsLast (missed way member)) list
      have grows := growsMiddle.trans growsLast
      have keeps : state.Keeps (last.setAddress object address) := by
        constructor
        · intro other address' known
          have apart : other ≠ object := by
            intro same
            rw [← grows.address_eq, same, free] at known
            cases known
          rw [setAddress_heap apart, grows.heap (isSome_of_address known)]
        · exact grows.replaced
        · exact grows.fresh
        · intro other small missing
          have dead := grows.dead small missing
          have apart : other ≠ object := by
            intro same
            simp [← same, dead] at live
          rw [setAddress_heap apart, dead]
      refine ⟨setAddress_wellFormed wfLast stored free absent, keeps, ?_, by rintro ⟨⟩⟩
      intro object same
      cases same
      exact setAddress_address live
    case h_2 last searchedFree =>
      obtain ⟨wfLast, growsLast⟩ := search_grows wfMiddle inside searchedFree
      have taken : ∀ way ∈ List.range shape.associativity, ∃ object,
          last.entryList (shape.setIndex address) way = some object ∧ last.address object ≠ none :=
        fun way member => search_none wfMiddle inside searchedFree member
      have grows := growsMiddle.trans growsLast
      cases got
      refine ⟨wfLast, grows.keeps, ?_, ?_⟩
      · intro object listed
        have same := List.find?_some listed
        exact of_decide_eq_true same
      · intro unlisted
        constructor
        · intro way small
          obtain ⟨object, stored, named⟩ := taken way (List.mem_range.mpr small)
          obtain ⟨address', known⟩ := Option.ne_none_iff_exists'.mp named
          exact ⟨object, address', stored, known⟩
        · refine absent_of_ways wfLast (fun way member => grown growsLast (missed way member)) ?_
          intro object member known
          exact List.find?_eq_none.mp unlisted object member (decide_eq_true known)

end Lookup

/-! ### Replacement and invalidation -/

section Replacement

variable {after : State n Addr}

/-- A new entry takes the way of another one, which goes to the list. -/
structure Swaps (state after : State n Addr) (set way object : Nat) (address : Addr) : Prop where
  stored : state.entryList set way = some object
  heap : ∀ other, after.heap other = if other = state.fresh then some ⟨some address, .new⟩ else state.heap other
  entryList : ∀ set' way', after.entryList set' way' =
    if set' = set ∧ way' = way then some state.fresh else state.entryList set' way'
  replaced : after.replaced = state.replaced ++ [object]
  fresh : after.fresh = state.fresh + 1

namespace Swaps

variable (swaps : state.Swaps after set way object address)

include swaps

theorem address_self : after.address state.fresh = some address := by
  simp [State.address, swaps.heap]

theorem heap_of_live (wf : state.WellFormed shape) {other : Nat} (live : (state.heap other).isSome) :
    after.heap other = state.heap other := by
  rw [swaps.heap, if_neg (wf.ne_fresh live)]

theorem address_of_live (wf : state.WellFormed shape) {other : Nat} (live : (state.heap other).isSome) :
    after.address other = state.address other := by
  rw [State.address, swaps.heap_of_live wf live, State.address]

theorem inWay (wf : state.WellFormed shape) {set' way' other : Nat} (taken : after.entryList set' way' = some other) :
    (set' = set ∧ way' = way ∧ other = state.fresh) ∨
      (other ≠ state.fresh ∧ other ≠ object ∧ state.entryList set' way' = some other) := by
  rw [swaps.entryList] at taken
  split at taken
  case isTrue same => exact .inl ⟨same.1, same.2, (Option.some.inj taken).symm⟩
  case isFalse elsewhere =>
    refine .inr ⟨wf.ne_fresh ((wf.held_iff other).mp (.inl ⟨_, _, taken⟩)), ?_, taken⟩
    intro same
    exact elsewhere (wf.oneWay taken (same ▸ swaps.stored))

theorem full (wf : state.WellFormed shape) {set' : Nat} (full : state.Full shape set') : after.Full shape set' := by
  intro way' small
  by_cases same : set' = set ∧ way' = way
  · exact ⟨state.fresh, address, by rw [swaps.entryList, if_pos same], swaps.address_self⟩
  · obtain ⟨other, address', taken, known⟩ := full way' small
    refine ⟨other, address', by rw [swaps.entryList, if_neg same, taken], ?_⟩
    rw [swaps.address_of_live wf (isSome_of_address known), known]

theorem held (wf : state.WellFormed shape) (other : Nat) : after.Held other ↔ other = state.fresh ∨ state.Held other := by
  constructor
  · rintro (⟨set', way', taken⟩ | listed)
    · obtain ⟨_, _, own⟩ | ⟨_, _, taken⟩ := swaps.inWay wf taken
      · exact .inl own
      · exact .inr (.inl ⟨set', way', taken⟩)
    · rw [swaps.replaced, List.mem_append, List.mem_singleton] at listed
      rcases listed with listed | same
      · exact .inr (.inr listed)
      · exact .inr (.inl ⟨set, way, same ▸ swaps.stored⟩)
  · rintro (own | ⟨set', way', taken⟩ | listed)
    · exact .inl ⟨set, way, by rw [swaps.entryList, if_pos ⟨rfl, rfl⟩, own]⟩
    · by_cases same : set' = set ∧ way' = way
      · right
        rw [same.1, same.2, swaps.stored, Option.some.injEq] at taken
        rw [swaps.replaced, ← taken]
        exact List.mem_append_right _ (List.mem_singleton_self _)
      · exact .inl ⟨set', way', by rw [swaps.entryList, if_neg same, taken]⟩
    · right
      rw [swaps.replaced]
      exact List.mem_append_left _ listed

theorem wellFormed (wf : state.WellFormed shape) (isSet : shape.setIndex address = set) (isFull : state.Full shape set)
    (absent : ∀ other, state.address other ≠ some address) : after.WellFormed shape := by
  have liveObject : (state.heap object).isSome := (wf.held_iff object).mp (.inl ⟨_, _, swaps.stored⟩)
  have liveOrNew {other : Nat} (live : (after.heap other).isSome) : other = state.fresh ∨ (state.heap other).isSome := by
    rw [swaps.heap] at live
    split at live
    case isTrue own => exact .inl own
    case isFalse => exact .inr live
  constructor
  · intro other
    rw [swaps.held wf, wf.held_iff, swaps.heap]
    split
    case isTrue own => simp [own]
    case isFalse other => simp [other]
  · intro other live
    rw [swaps.fresh]
    rcases liveOrNew live with own | old
    · omega
    · exact Nat.lt_succ_of_lt (wf.fresh old)
  · intro other set₁ way₁ set₂ way₂ first second
    obtain ⟨sameSet, sameWay, own⟩ | ⟨old, _, first⟩ := swaps.inWay wf first
    · obtain ⟨sameSet', sameWay', _⟩ | ⟨old, _, _⟩ := swaps.inWay wf second
      · exact ⟨sameSet.trans sameSet'.symm, sameWay.trans sameWay'.symm⟩
      · exact absurd own old
    · obtain ⟨_, _, own⟩ | ⟨_, _, second⟩ := swaps.inWay wf second
      · exact absurd own old
      · exact wf.oneWay first second
  · intro other set' way' taken
    obtain ⟨_, sameWay, _⟩ | ⟨_, _, taken⟩ := swaps.inWay wf taken
    · exact sameWay ▸ wf.small swaps.stored
    · exact wf.small taken
  · intro other set' way' taken listed
    rw [swaps.replaced, List.mem_append, List.mem_singleton] at listed
    obtain ⟨_, _, own⟩ | ⟨_, apart, taken⟩ := swaps.inWay wf taken
    · rcases listed with listed | same
      · exact wf.ne_fresh ((wf.held_iff other).mp (.inr listed)) own
      · exact wf.ne_fresh liveObject (same ▸ own)
    · rcases listed with listed | same
      · exact wf.apart taken listed
      · exact apart same
  · rw [swaps.replaced, List.nodup_append]
    refine ⟨wf.nodup, List.nodup_singleton _, ?_⟩
    intro other listed last isLast same
    rw [List.mem_singleton] at isLast
    exact wf.apart swaps.stored (isLast ▸ same ▸ listed)
  · intro other set' way' address' taken known
    obtain ⟨sameSet, _, own⟩ | ⟨_, _, taken⟩ := swaps.inWay wf taken
    · rw [own, swaps.address_self, Option.some.injEq] at known
      rw [← known, isSet, sameSet]
    · rw [swaps.address_of_live wf ((wf.held_iff other).mp (.inl ⟨_, _, taken⟩))] at known
      exact wf.placed taken known
  · intro other listed
    rw [swaps.replaced, List.mem_append, List.mem_singleton] at listed
    rcases listed with listed | same
    · obtain ⟨address', known, full⟩ := wf.known listed
      exact ⟨address', (swaps.address_of_live wf (isSome_of_address known)).trans known, swaps.full wf full⟩
    · obtain ⟨filler, address', taken, known⟩ := isFull way (wf.small swaps.stored)
      rw [swaps.stored, Option.some.injEq] at taken
      subst same
      subst taken
      refine ⟨address', (swaps.address_of_live wf liveObject).trans known, ?_⟩
      rw [wf.placed swaps.stored known]
      exact swaps.full wf isFull
  · intro first second address' knownFirst knownSecond
    have named {other : Nat} (known : after.address other = some address') :
        (other = state.fresh ∧ address' = address) ∨ state.address other = some address' := by
      rcases liveOrNew (isSome_of_address known) with own | old
      · rw [own, swaps.address_self, Option.some.injEq] at known
        exact .inl ⟨own, known.symm⟩
      · exact .inr ((swaps.address_of_live wf old).symm.trans known)
    rcases named knownFirst with ⟨ownFirst, same⟩ | oldFirst
    · rcases named knownSecond with ⟨ownSecond, _⟩ | oldSecond
      · rw [ownFirst, ownSecond]
      · exact absurd (same ▸ oldSecond) (absent second)
    · rcases named knownSecond with ⟨_, same⟩ | oldSecond
      · exact absurd (same ▸ oldFirst) (absent first)
      · exact wf.unique oldFirst oldSecond

end Swaps

theorem WellFormed.of_eq (wf : state.WellFormed shape) (heap : next.heap = state.heap) (fresh : next.fresh = state.fresh)
    (entryList : next.entryList = state.entryList) (replaced : next.replaced = state.replaced) :
    next.WellFormed shape := by
  cases next
  cases heap
  cases fresh
  cases entryList
  cases replaced
  exact ⟨wf.held_iff, wf.fresh, wf.oneWay, wf.small, wf.apart, wf.nodup, wf.placed, wf.known, wf.unique⟩

structure Deletes (state after : State n Addr) (object : Nat) : Prop where
  listed : object ∈ state.replaced
  heap : ∀ other, after.heap other = if other = object then none else state.heap other
  entryList : after.entryList = state.entryList
  replaced : after.replaced = state.replaced.erase object
  fresh : after.fresh = state.fresh

theorem Deletes.address_eq (deletes : state.Deletes after object) {other : Nat} (apart : other ≠ object) :
    after.address other = state.address other := by
  rw [State.address, deletes.heap, if_neg apart, State.address]

theorem Deletes.wellFormed (deletes : state.Deletes after object) (wf : state.WellFormed shape) :
    after.WellFormed shape := by
  have alive {other : Nat} (live : (after.heap other).isSome) : other ≠ object ∧ (state.heap other).isSome := by
    rw [deletes.heap] at live
    split at live
    · cases live
    case isFalse apart => exact ⟨apart, live⟩
  have apartOfWay {set' way' other : Nat} (taken : state.entryList set' way' = some other) : other ≠ object := by
    intro same
    exact wf.apart taken (same ▸ deletes.listed)
  have listedIff (other : Nat) : other ∈ after.replaced ↔ other ≠ object ∧ other ∈ state.replaced := by
    rw [deletes.replaced, wf.nodup.mem_erase_iff]
  constructor
  · intro other
    by_cases same : other = object
    · rw [deletes.heap, if_pos same, Option.isSome_none]
      simp only [Bool.false_eq_true, iff_false]
      rintro (⟨set', way', taken⟩ | listed)
      · exact apartOfWay (deletes.entryList ▸ taken) same
      · exact ((listedIff other).mp listed).1 same
    · rw [deletes.heap, if_neg same, ← wf.held_iff other, Held, Held, listedIff, deletes.entryList]
      simp [same]
  · intro other live
    rw [deletes.fresh]
    exact wf.fresh (alive live).2
  · rw [deletes.entryList]
    exact wf.oneWay
  · rw [deletes.entryList]
    exact wf.small
  · intro other set' way' taken listed
    rw [deletes.entryList] at taken
    exact wf.apart taken ((listedIff other).mp listed).2
  · rw [deletes.replaced]
    exact wf.nodup.erase object
  · intro other set' way' address' taken known
    rw [deletes.entryList] at taken
    rw [deletes.address_eq (apartOfWay taken)] at known
    exact wf.placed taken known
  · intro other listed
    obtain ⟨apart, listed⟩ := (listedIff other).mp listed
    obtain ⟨address', known, full⟩ := wf.known listed
    refine ⟨address', (deletes.address_eq apart).trans known, ?_⟩
    intro way' small
    obtain ⟨filler, address'', taken, isKnown⟩ := full way' small
    exact ⟨filler, address'', by rw [deletes.entryList, taken], (deletes.address_eq (apartOfWay taken)).trans isKnown⟩
  · intro first second address' knownFirst knownSecond
    have liveFirst := (alive (isSome_of_address knownFirst)).1
    have liveSecond := (alive (isSome_of_address knownSecond)).1
    rw [deletes.address_eq liveFirst] at knownFirst
    rw [deletes.address_eq liveSecond] at knownSecond
    exact wf.unique knownFirst knownSecond

theorem modify_address (change : DirectoryEntry n → DirectoryEntry n) (other : Nat) :
    (state.modify object fun stored => { stored with entry := change stored.entry }).address other = state.address other := by
  by_cases same : other = object
  · subst same
    cases stored : state.heap other <;> simp [modify, State.address, stored]
  · simp [modify, State.address, same]

theorem modify_wellFormed (wf : state.WellFormed shape) (change : DirectoryEntry n → DirectoryEntry n) :
    (state.modify object fun stored => { stored with entry := change stored.entry }).WellFormed shape := by
  have live (other : Nat) : ((state.modify object fun stored => { stored with entry := change stored.entry }).heap other).isSome =
      (state.heap other).isSome := by
    by_cases same : other = object <;> simp [modify, same]
  have full {set' : Nat} (isFull : state.Full shape set') :
      (state.modify object fun stored => { stored with entry := change stored.entry }).Full shape set' := by
    intro way' small
    obtain ⟨filler, address', taken, known⟩ := isFull way' small
    exact ⟨filler, address', taken, (modify_address change filler).trans known⟩
  constructor
  · intro other
    rw [live]
    exact wf.held_iff other
  · intro other isLive
    rw [live] at isLive
    exact wf.fresh isLive
  · exact wf.oneWay
  · exact wf.small
  · exact wf.apart
  · exact wf.nodup
  · intro other set' way' address' taken known
    rw [modify_address] at known
    exact wf.placed taken known
  · intro other listed
    obtain ⟨address', known, isFull⟩ := wf.known listed
    exact ⟨address', (modify_address change other).trans known, full isFull⟩
  · intro first second address' knownFirst knownSecond
    rw [modify_address] at knownFirst knownSecond
    exact wf.unique knownFirst knownSecond

end Replacement

end State

end Sniper.Directory.Storage

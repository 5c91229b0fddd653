import Sniper.Library.Runs
import Sniper.Performance.ServiceIntervals

/-! Looking a tag up in a `ContentionModel`: the slot that answers, and whether it is the latest one. -/

namespace Sniper.Performance

namespace ContentionModel

/-- A call of `getCompletionTime` in a run of them. -/
def call (queue : ContentionModel) (request : Request) : ContentionModel :=
  (queue.getCompletionTime request.tStart request.tDelay request.tag).2

/-- Whatever the time, a tag that is in service then is answered with a later time: the latest one recorded for it. -/
def TellsLatest (queue : ContentionModel) : Prop :=
  ∀ tag now, (∃ slot ∈ queue.time, slot.2 = tag ∧ now < slot.1) →
    now < queue.getTagCompletionTime tag ∧ IsGreatest { time | (time, tag) ∈ queue.time } (queue.getTagCompletionTime tag)

/-! ### The unit that answers -/

section Answers

variable {slots : List (Nat × Nat)} {tag unit other tEnd : Nat}

def tagOf (slots : List (Nat × Nat)) (unit : Nat) : Nat := (slots.getD unit (0, 0)).2

structure Answers (slots : List (Nat × Nat)) (tag unit : Nat) : Prop where
  inside : unit < slots.length
  holds : tagOf slots unit = tag
  first : ∀ other < unit, tagOf slots other ≠ tag

/-- The unit that answers for a tag is the last one to become free of those with the tag. -/
def Latest (slots : List (Nat × Nat)) : Prop :=
  ∀ tag unit, Answers slots tag unit → ∀ other < slots.length, tagOf slots other = tag → freeAt slots other ≤ freeAt slots unit

theorem slot_mem (inside : unit < slots.length) : (freeAt slots unit, tagOf slots unit) ∈ slots := by
  have found : (freeAt slots unit, tagOf slots unit) = slots[unit] := by simp [freeAt, tagOf, inside]
  rw [found]
  exact List.getElem_mem inside

theorem mem_slots {time : Nat} : (time, tag) ∈ slots ↔ ∃ unit < slots.length, tagOf slots unit = tag ∧ freeAt slots unit = time := by
  rw [List.mem_iff_getElem]
  constructor
  · rintro ⟨unit, inside, found⟩
    exact ⟨unit, inside, by simp [tagOf, inside, found], by simp [freeAt, inside, found]⟩
  · rintro ⟨unit, inside, rfl, rfl⟩
    exact List.mem_iff_getElem.mp (slot_mem inside)

theorem exists_answers (inside : other < slots.length) (holds : tagOf slots other = tag) : ∃ unit, Answers slots tag unit := by
  have exist : ∃ unit, unit < slots.length ∧ tagOf slots unit = tag := ⟨other, inside, holds⟩
  have found := Nat.find_spec exist
  refine ⟨Nat.find exist, found.1, found.2, fun earlier before same => ?_⟩
  exact Nat.find_min exist before ⟨Nat.lt_trans before found.1, same⟩

theorem Answers.getTagCompletionTime {queue : ContentionModel} (answers : Answers queue.time tag unit) :
    queue.getTagCompletionTime tag = freeAt queue.time unit := by
  have inside := answers.inside
  have found : queue.time.find? (fun slot => slot.2 = tag) = some queue.time[unit] := by
    rw [List.find?_eq_some_iff_getElem]
    refine ⟨by simpa [tagOf, inside] using answers.holds, unit, inside, rfl, fun other before => ?_⟩
    have others := answers.first other before
    simpa [tagOf, Nat.lt_trans before inside] using others
  simp [ContentionModel.getTagCompletionTime, found, freeAt, inside]

theorem tellsLatest_iff (queue : ContentionModel) : TellsLatest queue ↔ Latest queue.time := by
  constructor
  · intro tells tag unit answers other inside holds
    rcases Nat.eq_zero_or_pos (freeAt queue.time other) with zero | some
    · omega
    · have member := mem_slots.mpr ⟨other, inside, holds, rfl⟩
      have latest := (tells tag 0 ⟨_, member, rfl, some⟩).2
      rw [answers.getTagCompletionTime] at latest
      exact latest.2 member
  · rintro latest tag now ⟨slot, member, rfl, busy⟩
    obtain ⟨other, inside, holds, time⟩ := mem_slots.mp member
    obtain ⟨unit, answers⟩ := exists_answers inside holds
    rw [answers.getTagCompletionTime]
    have after := latest _ unit answers other inside holds
    refine ⟨by omega, mem_slots.mpr ⟨unit, answers.inside, answers.holds, rfl⟩, ?_⟩
    rintro time recorded
    obtain ⟨recorder, recorderInside, recorderHolds, rfl⟩ := mem_slots.mp recorded
    exact latest _ unit answers recorder recorderInside recorderHolds

/-! ### One call -/

/-- A unit that serves a tag from now on leaves every tag with the latest of its units in front. -/
structure Undisturbed (slots : List (Nat × Nat)) (tag tEnd unit : Nat) : Prop where
  /-- A unit before it that answers for the tag is not free earlier. -/
  earlier : ∀ first < unit, Answers slots tag first → tEnd ≤ freeAt slots first
  /-- If it is going to answer itself, no unit after it with the tag is free later. -/
  later : (∀ first < unit, tagOf slots first ≠ tag) →
    ∀ other < slots.length, unit < other → tagOf slots other = tag → freeAt slots other ≤ tEnd
  /-- If it answered for another tag, the next unit with that tag is the last one to become free of them. -/
  previous : tagOf slots unit ≠ tag → Answers slots (tagOf slots unit) unit →
    ∀ next > unit, tagOf slots next = tagOf slots unit →
      (∀ between > unit, between < next → tagOf slots between ≠ tagOf slots unit) →
      ∀ other < slots.length, unit < other → tagOf slots other = tagOf slots unit → freeAt slots other ≤ freeAt slots next

theorem freeAt_set_same (inside : unit < slots.length) : freeAt (slots.set unit (tEnd, tag)) unit = tEnd := by
  simp [freeAt, inside]

theorem freeAt_set_other (different : other ≠ unit) : freeAt (slots.set unit (tEnd, tag)) other = freeAt slots other := by
  simp [freeAt, Ne.symm different]

theorem tagOf_set_same (inside : unit < slots.length) : tagOf (slots.set unit (tEnd, tag)) unit = tag := by
  simp [tagOf, inside]

theorem tagOf_set_other (different : other ≠ unit) : tagOf (slots.set unit (tEnd, tag)) other = tagOf slots other := by
  simp [tagOf, Ne.symm different]

theorem Undisturbed.of_latest (inside : unit < slots.length) (latest : Latest (slots.set unit (tEnd, tag))) :
    Undisturbed slots tag tEnd unit where
  earlier first before answers := by
    have different := Nat.ne_of_lt before
    have still : Answers (slots.set unit (tEnd, tag)) tag first := by
      refine ⟨by simpa using answers.inside, by rw [tagOf_set_other different, answers.holds], fun other earlier => ?_⟩
      rw [tagOf_set_other (Nat.ne_of_lt (Nat.lt_trans earlier before))]
      exact answers.first other earlier
    have order := latest tag first still unit (by simpa using inside) (tagOf_set_same inside)
    rwa [freeAt_set_same inside, freeAt_set_other different] at order
  later none other otherInside after holds := by
    have answers : Answers (slots.set unit (tEnd, tag)) tag unit := by
      refine ⟨by simpa using inside, tagOf_set_same inside, fun first before => ?_⟩
      rw [tagOf_set_other (Nat.ne_of_lt before)]
      exact none first before
    have different := Nat.ne_of_gt after
    have order := latest tag unit answers other (by simpa using otherInside) (by rw [tagOf_set_other different, holds])
    rwa [freeAt_set_same inside, freeAt_set_other different] at order
  previous another answered next after same between other otherInside otherAfter otherSame := by
    have different := Nat.ne_of_gt after
    have otherDifferent := Nat.ne_of_gt otherAfter
    by_cases nextInside : next < slots.length
    · have answers : Answers (slots.set unit (tEnd, tag)) (tagOf slots unit) next := by
        refine ⟨by simpa using nextInside, by rw [tagOf_set_other different, same], fun first before => ?_⟩
        by_cases here : first = unit
        · rw [here, tagOf_set_same inside]
          exact Ne.symm another
        · rw [tagOf_set_other here]
          rcases Nat.lt_or_gt_of_ne here with below | above
          · exact answered.first first below
          · exact between first above before
      have order := latest _ next answers other (by simpa using otherInside) (by rw [tagOf_set_other otherDifferent, otherSame])
      rwa [freeAt_set_other different, freeAt_set_other otherDifferent] at order
    · exact absurd otherSame (between other otherAfter (by omega))

inductive AnswersSet (slots : List (Nat × Nat)) (tag unit answered first : Nat) : Prop where
  /-- The unit itself, for its new tag. -/
  | self (here : first = unit) (same : answered = tag) (none : ∀ earlier < unit, tagOf slots earlier ≠ tag)
  /-- The one that answered before. -/
  | before (different : first ≠ unit) (answers : Answers slots answered first)
  /-- The next one with the tag that the unit had. -/
  | next (after : unit < first) (another : answered ≠ tag) (answers : Answers slots answered unit)
      (holds : tagOf slots first = answered) (between : ∀ earlier > unit, earlier < first → tagOf slots earlier ≠ answered)

theorem Answers.of_set {answered first : Nat} (inside : unit < slots.length)
    (answers : Answers (slots.set unit (tEnd, tag)) answered first) : AnswersSet slots tag unit answered first := by
  have firstInside : first < slots.length := by simpa using answers.inside
  have before (earlier : Nat) (below : earlier < first) (different : earlier ≠ unit) : tagOf slots earlier ≠ answered := by
    have others := answers.first earlier below
    rwa [tagOf_set_other different] at others
  have holds := answers.holds
  by_cases here : first = unit
  · subst here
    rw [tagOf_set_same inside] at holds
    exact .self rfl holds.symm fun earlier below => holds.symm ▸ before earlier below (Nat.ne_of_lt below)
  · rw [tagOf_set_other here] at holds
    by_cases overwritten : unit < first ∧ tagOf slots unit = answered
    · obtain ⟨after, same⟩ := overwritten
      have another : tag ≠ answered := by
        have others := answers.first unit after
        rwa [tagOf_set_same inside] at others
      exact .next after another.symm
        ⟨inside, same, fun earlier below => before earlier (Nat.lt_trans below after) (Nat.ne_of_lt below)⟩ holds
        fun earlier above below => before earlier below (Nat.ne_of_gt above)
    · refine .before here ⟨firstInside, holds, fun earlier below => ?_⟩
      by_cases earlierHere : earlier = unit
      · exact fun same => overwritten ⟨earlierHere ▸ below, earlierHere ▸ same⟩
      · exact before earlier below earlierHere

theorem Undisturbed.latest (inside : unit < slots.length) (latest : Latest slots) (undisturbed : Undisturbed slots tag tEnd unit) :
    Latest (slots.set unit (tEnd, tag)) := by
  intro answered first answers other otherInside holds
  rw [List.length_set] at otherInside
  by_cases otherHere : other = unit
  · subst otherHere
    rw [tagOf_set_same inside] at holds
    rw [freeAt_set_same inside]
    cases answers.of_set inside with
    | self here _ _ => rw [here, freeAt_set_same inside]
    | before different answeredBefore =>
      rw [freeAt_set_other different]
      rcases Nat.lt_or_gt_of_ne different with below | above
      · exact undisturbed.earlier first below (holds ▸ answeredBefore)
      · exact absurd (tagOf_set_same inside) (holds ▸ answers.first other above)
    | next _ another _ _ _ => exact absurd holds.symm another
  · rw [tagOf_set_other otherHere] at holds
    rw [freeAt_set_other otherHere]
    cases answers.of_set inside with
    | self here same none =>
      rw [here, freeAt_set_same inside]
      rcases Nat.lt_or_gt_of_ne otherHere with below | above
      · exact absurd (holds.trans same) (none other below)
      · exact undisturbed.later none other otherInside above (holds.trans same)
    | before different answeredBefore =>
      rw [freeAt_set_other different]
      exact latest answered first answeredBefore other otherInside holds
    | next after another answeredBefore firstHolds between =>
      obtain rfl := answeredBefore.holds
      rw [freeAt_set_other (Nat.ne_of_gt after)]
      rcases Nat.lt_or_gt_of_ne otherHere with below | above
      · exact absurd holds (answeredBefore.first other below)
      · exact undisturbed.previous another answeredBefore first after firstHolds between other otherInside above holds

end Answers

/-! ### Runs -/

section Runs

variable {queue : ContentionModel} {request : Request}

def unitOf (queue : ContentionModel) (tStart : Nat) : Nat := findUnit tStart queue.time 0 0 (freeAt queue.time 0)

/-- A call that takes a unit leaves every tag with the latest of its units in front. -/
def CallUndisturbed (queue : ContentionModel) (request : Request) : Prop :=
  queue.time ≠ [] → 0 < request.tStart → queue.tLast ≤ request.tStart →
    Undisturbed queue.time request.tag
      (max request.tStart (freeAt queue.time (queue.unitOf request.tStart)) + request.tDelay) (queue.unitOf request.tStart)

def NotOutstanding (queue : ContentionModel) (request : Request) : Prop :=
  ∀ slot ∈ queue.time, slot.2 = request.tag → slot.1 ≤ request.tStart

theorem call_cases (queue : ContentionModel) (request : Request) :
    (call queue request = queue ∧ (queue.time = [] ∨ request.tStart = 0 ∨ request.tStart < queue.tLast)) ∨
    (queue.time ≠ [] ∧ 0 < request.tStart ∧ queue.tLast ≤ request.tStart ∧
      Chosen request.tStart queue.time (queue.unitOf request.tStart) ∧
      (call queue request).time = queue.time.set (queue.unitOf request.tStart)
        (max request.tStart (freeAt queue.time (queue.unitOf request.tStart)) + request.tDelay, request.tag)) := by
  cases slots : queue.time with
  | nil => exact .inl ⟨by simp [call, getCompletionTime, slots], .inl rfl⟩
  | cons first rest =>
    have start : freeAt queue.time 0 = first.1 := by simp [freeAt, slots]
    rw [call, getCompletionTime]
    simp only [slots]
    by_cases zero : request.tStart = 0
    · exact .inl ⟨by rw [if_pos zero], .inr (.inl zero)⟩
    · by_cases early : request.tStart < queue.tLast
      · exact .inl ⟨by rw [if_neg zero, if_pos early], .inr (.inr early)⟩
      · rw [if_neg zero, if_neg early, unitOf, start, ← slots]
        exact .inr ⟨by simp [slots], Nat.pos_of_ne_zero zero, Nat.le_of_not_lt early, findUnit_chosen slots, rfl⟩

theorem latest_call_iff (latest : Latest queue.time) : Latest (call queue request).time ↔ CallUndisturbed queue request := by
  obtain ⟨unchanged, idle⟩ | ⟨some, positive, inOrder, chosen, sets⟩ := call_cases queue request
  · rw [unchanged]
    refine ⟨fun _ slots positive inOrder => ?_, fun _ => latest⟩
    rcases idle with none | zero | early
    · exact absurd none slots
    · omega
    · omega
  · rw [sets]
    constructor
    · exact fun after _ _ _ => .of_latest chosen.inside after
    · exact fun undisturbed => (undisturbed some positive inOrder).latest chosen.inside latest

theorem freeAt_create (units unit : Nat) : freeAt (create units).time unit = 0 := by
  by_cases inside : unit < units
  · simp [freeAt, create, inside]
  · have outside : (List.replicate units ((0, 0) : Nat × Nat))[unit]? = none := by simpa using inside
    simp [freeAt, create, List.getD_eq_getElem?_getD, outside]

theorem latest_create (units : Nat) : Latest (create units).time := by
  intro tag unit _ other _ _
  rw [freeAt_create, freeAt_create]

/-- In every state of a run every tag in service is answered with its latest time if and only if no call puts an earlier
one in front of it. -/
theorem tellsLatest_iff_undisturbed (units : Nat) (requests : List Request) :
    AllStates call TellsLatest (create units) requests ↔ AllSteps call CallUndisturbed (create units) requests := by
  refine allStates_iff_of_exact (fun queue request tells => ?_) ((tellsLatest_iff (create units)).mpr (latest_create units))
  rw [tellsLatest_iff]
  exact latest_call_iff ((tellsLatest_iff queue).mp tells)

/-- Two misses on line 64, the second while the first is in service: at time 12 the first one, over at 11, answers. -/
theorem tellsLatest_twoMisses_fails :
    (call (call (create 2) ⟨1, 10, 64⟩) ⟨5, 10, 64⟩).time = [(11, 64), (15, 64)] ∧
    (call (call (create 2) ⟨1, 10, 64⟩) ⟨5, 10, 64⟩).getTagCompletionTime 64 = 11 ∧
    ¬AllStates call TellsLatest (create 2) [⟨1, 10, 64⟩, ⟨5, 10, 64⟩] := by
  refine ⟨by decide, by decide, fun ⟨_, _, tells⟩ => ?_⟩
  have wrong : 12 < ContentionModel.getTagCompletionTime _ 64 := (tells 64 12 ⟨(15, 64), by decide, rfl, by decide⟩).1
  exact absurd wrong (by decide)

def Falling (slots : List (Nat × Nat)) : Prop :=
  ∀ first other, first < other → other < slots.length → tagOf slots first = tagOf slots other → freeAt slots other ≤ freeAt slots first

theorem Falling.latest {slots : List (Nat × Nat)} (falling : Falling slots) : Latest slots := by
  intro tag unit answers other inside holds
  rcases Nat.lt_trichotomy unit other with after | rfl | before
  · exact falling unit other after inside (by rw [answers.holds, holds])
  · exact Nat.le_refl _
  · exact absurd holds (answers.first other before)

theorem Falling.call (falling : Falling queue.time) (idle : NotOutstanding queue request) : Falling (call queue request).time := by
  obtain ⟨unchanged, -⟩ | ⟨-, -, -, chosen, sets⟩ := call_cases queue request
  · rwa [unchanged]
  · have inside := chosen.inside
    have taken (other : Nat) (otherInside : other < queue.time.length) (same : tagOf queue.time other = request.tag) :
        freeAt queue.time other ≤ request.tStart := by
      exact idle _ (slot_mem otherInside) same
    rw [sets]
    intro first other before otherInside same
    rw [List.length_set] at otherInside
    by_cases here : first = queue.unitOf request.tStart
    · subst here
      have different := Nat.ne_of_gt before
      rw [tagOf_set_same inside, tagOf_set_other different] at same
      rw [freeAt_set_same inside, freeAt_set_other different]
      have free := taken other otherInside same.symm
      omega
    · by_cases otherHere : other = queue.unitOf request.tStart
      · -- No unit before the one that is taken is free, so none has the tag.
        subst otherHere
        rw [tagOf_set_same inside, tagOf_set_other here] at same
        have free := taken first (Nat.lt_trans before otherInside) same
        cases chosen with
        | free _ _ busy =>
          have later := busy first before
          omega
        | busy _ later _ =>
          have later := later first (Nat.lt_trans before otherInside)
          omega
      · rw [tagOf_set_other here, tagOf_set_other otherHere] at same
        rw [freeAt_set_other here, freeAt_set_other otherHere]
        exact falling first other before otherInside same

theorem falling_create (units : Nat) : Falling (create units).time := by
  intro first other _ _ _
  rw [freeAt_create, freeAt_create]

/-- While no call asks for a tag in service, every tag in service is answered with its latest time. -/
theorem tellsLatest_of_notOutstanding (units : Nat) (requests : List Request)
    (idle : AllSteps call NotOutstanding (create units) requests) : AllStates call TellsLatest (create units) requests := by
  have falling : AllStates call (fun queue => Falling queue.time) (create units) requests :=
    idle.allStates (fun _ _ => Falling.call) (falling_create units)
  exact falling.mono fun queue falls => (tellsLatest_iff queue).mpr falls.latest

end Runs

end ContentionModel

end Sniper.Performance

import Sniper.Library.Counting
import Sniper.Performance.ContentionModel
import Mathlib.Data.Nat.Find
import Mathlib.Order.Bounds.Basic

/-! The service intervals of a `ContentionModel`: as many at a time as it has units. -/

namespace Sniper.Performance

namespace ContentionModel

structure Request where
  tStart : Nat
  tDelay : Nat
  tag : Nat
deriving DecidableEq, Repr

structure Service where
  tBegin : Nat
  tEnd : Nat
deriving DecidableEq, Repr

/-- The services of a sequence of calls of `getCompletionTime`. -/
def services (queue : ContentionModel) : List Request → List Service
  | [] => []
  | request :: rest =>
    let (tEnd, after) := queue.getCompletionTime request.tStart request.tDelay request.tag
    ⟨tEnd - request.tDelay, tEnd⟩ :: services after rest

def serve (queue : ContentionModel) (requests : List Request) : ContentionModel :=
  requests.foldl (fun queue request => (queue.getCompletionTime request.tStart request.tDelay request.tag).2) queue

def inService (services : List Service) (time : Nat) : Nat :=
  services.countP fun service => service.tBegin ≤ time ∧ time < service.tEnd

/-- How many of the services are not over at a time. -/
def stillInService (services : List Service) (time : Nat) : Nat :=
  services.countP fun service => time < service.tEnd

structure InOrder (requests : List Request) : Prop where
  positive : ∀ request ∈ requests, 0 < request.tStart
  sorted : requests.Pairwise fun first second => first.tStart ≤ second.tStart

/-- The service begins as soon as fewer than `units` earlier ones are not over, and at no earlier time fewer than
`units` earlier ones overlap. -/
structure BeginsEarliest (units : Nat) (earlier : List Service) (request : Request) (service : Service) : Prop where
  whole : service.tEnd = service.tBegin + request.tDelay
  earliest : ∃ free, IsLeast { time | stillInService earlier time < units } free ∧ service.tBegin = max request.tStart free
  least : IsLeast { time | request.tStart ≤ time ∧ inService earlier time < units } service.tBegin

/-! ### Counts -/

section Counts

variable {earlier : List Service} {time later : Nat}

theorem inService_le_stillInService (earlier : List Service) (time : Nat) : inService earlier time ≤ stillInService earlier time :=
  List.countP_mono_left fun _ _ running => by simp_all

theorem stillInService_antitone (order : time ≤ later) : stillInService earlier later ≤ stillInService earlier time := by
  refine List.countP_mono_left fun service _ running => ?_
  simp only [decide_eq_true_eq] at running ⊢
  omega

theorem stillInService_of_begun (begun : ∀ service ∈ earlier, service.tBegin ≤ time) :
    stillInService earlier time = inService earlier time := by
  refine List.countP_congr fun service member => ?_
  simp [begun service member]

end Counts

/-! ### The invariant -/

/-- How many units are not free at a time. -/
def busy (slots : List (Nat × Nat)) (time : Nat) : Nat := slots.countP fun slot => time < slot.1

/-- What the slots tell of the services so far, from the last start on. -/
structure Accounts (units : Nat) (queue : ContentionModel) (earlier : List Service) : Prop where
  length : queue.time.length = units
  running : ∀ time, queue.tLast ≤ time → inService earlier time = busy queue.time time
  capacity : ∀ time, inService earlier time ≤ units
  begun : ∀ time, queue.tLast ≤ time → (∃ unit < queue.time.length, freeAt queue.time unit ≤ time) →
    ∀ service ∈ earlier, service.tBegin ≤ time

section Accounts

variable {units : Nat} {queue after : ContentionModel} {earlier : List Service} {request : Request} {tEnd : Nat}

theorem busy_lt {slots : List (Nat × Nat)} {time : Nat} :
    busy slots time < slots.length ↔ ∃ unit < slots.length, freeAt slots unit ≤ time := by
  rw [busy, countP_lt_length]
  simp only [decide_eq_false_iff_not, not_lt, List.mem_iff_getElem]
  constructor
  · rintro ⟨_, ⟨unit, inside, rfl⟩, free⟩
    exact ⟨unit, inside, by simpa [freeAt, inside] using free⟩
  · rintro ⟨unit, inside, free⟩
    exact ⟨_, ⟨unit, inside, rfl⟩, by simpa [freeAt, inside] using free⟩

theorem accounts_create (units : Nat) : Accounts units (create units) [] where
  length := by simp [create]
  running time _ := by simp [inService, busy, create, List.countP_replicate]
  capacity time := by simp [inService]
  begun _ _ _ service member := absurd member List.not_mem_nil

/-- What a call in order does: some unit serves the request as soon as it is free. -/
structure Serves (queue after : ContentionModel) (request : Request) (tEnd unit : Nat) : Prop where
  chosen : Chosen request.tStart queue.time unit
  ends : tEnd = max request.tStart (freeAt queue.time unit) + request.tDelay
  sets : after = ⟨queue.time.set unit (tEnd, request.tag), request.tStart⟩

theorem getCompletionTime_serves (some : 0 < queue.time.length) (positive : 0 < request.tStart) (inOrder : queue.tLast ≤ request.tStart)
    (called : queue.getCompletionTime request.tStart request.tDelay request.tag = (tEnd, after)) :
    ∃ unit, Serves queue after request tEnd unit := by
  cases slots : queue.time with
  | nil => simp [slots] at some
  | cons first rest =>
    rw [getCompletionTime] at called
    simp only [slots, if_neg (Nat.ne_of_gt positive), if_neg (Nat.not_lt.mpr inOrder), Prod.mk.injEq] at called
    rw [← slots] at called
    exact ⟨_, findUnit_chosen slots, called.1.symm, by rw [← called.2, ← called.1]⟩

/-- After the last start, a unit that serves on is busy exactly while the new service and the old one are. -/
theorem Accounts.serve (accounts : Accounts units queue earlier) (inOrder : queue.tLast ≤ request.tStart) {unit : Nat}
    (serves : Serves queue after request tEnd unit) :
    Accounts units after (earlier ++ [⟨tEnd - request.tDelay, tEnd⟩]) := by
  obtain ⟨chosen, ends, rfl⟩ := serves
  have inside := chosen.inside
  have found : queue.time[unit]? = some (queue.time.getD unit (0, 0)) := by simp [inside]
  have tBegin : tEnd - request.tDelay = max request.tStart (freeAt queue.time unit) := by omega
  have added (time : Nat) : inService (earlier ++ [⟨tEnd - request.tDelay, tEnd⟩]) time =
      inService earlier time + if max request.tStart (freeAt queue.time unit) ≤ time ∧ time < tEnd then 1 else 0 := by
    rw [inService, inService, List.countP_append, List.countP_singleton, tBegin]
    simp
  have counts (time : Nat) : busy (queue.time.set unit (tEnd, request.tag)) time + (if time < freeAt queue.time unit then 1 else 0) =
      busy queue.time time + if time < tEnd then 1 else 0 := by
    simpa [busy, freeAt] using countP_set_add (tEnd, request.tag) found fun slot => time < slot.1
  have served (time : Nat) (late : request.tStart ≤ time) :
      inService (earlier ++ [⟨tEnd - request.tDelay, tEnd⟩]) time = busy (queue.time.set unit (tEnd, request.tag)) time := by
    have before := accounts.running time (Nat.le_trans inOrder late)
    have after := counts time
    rw [added time, before]
    split at after <;> split at after <;> split <;> omega
  refine ⟨by simp [accounts.length], served, fun time => ?_, fun time late => ?_⟩
  · rcases Nat.lt_or_ge time request.tStart with early | late
    · have room := accounts.capacity time
      rw [added time, if_neg (by omega)]
      exact room
    · rw [served time late, ← accounts.length, ← List.length_set]
      exact List.countP_le_length
  · -- A unit that is free after the call was free before it, or is the one that serves.
    rintro ⟨other, otherInside, free⟩ service member
    dsimp only at free late
    rw [List.length_set] at otherInside
    have freeBefore : freeAt queue.time unit ≤ time := by
      by_cases same : other = unit
      · subst same
        have now : freeAt (queue.time.set other (tEnd, request.tag)) other = tEnd := by simp [freeAt, inside]
        omega
      · have unchanged : freeAt (queue.time.set unit (tEnd, request.tag)) other = freeAt queue.time other := by
          simp [freeAt, Ne.symm same]
        rw [unchanged] at free
        cases chosen with
        | free _ now _ => exact Nat.le_trans now late
        | busy _ _ first => exact Nat.le_trans (first other otherInside) free
    rcases List.mem_append.mp member with old | new
    · exact accounts.begun time (Nat.le_trans inOrder late) ⟨unit, inside, freeBefore⟩ service old
    · rw [List.mem_singleton.mp new, tBegin]
      exact Nat.max_le.mpr ⟨late, freeBefore⟩

theorem Chosen.free_iff {tStart unit time : Nat} {slots : List (Nat × Nat)} (chosen : Chosen tStart slots unit) (late : tStart ≤ time) :
    (∃ other < slots.length, freeAt slots other ≤ time) ↔ freeAt slots unit ≤ time := by
  constructor
  · rintro ⟨other, inside, free⟩
    cases chosen with
    | free _ now _ => exact Nat.le_trans now late
    | busy _ _ first => exact Nat.le_trans (first other inside) free
  · exact fun free => ⟨unit, chosen.inside, free⟩

theorem Accounts.begins (accounts : Accounts units queue earlier) (inOrder : queue.tLast ≤ request.tStart) {unit : Nat}
    (serves : Serves queue after request tEnd unit) : BeginsEarliest units earlier request ⟨tEnd - request.tDelay, tEnd⟩ := by
  obtain ⟨chosen, ends, -⟩ := serves
  have tBegin : tEnd - request.tDelay = max request.tStart (freeAt queue.time unit) := by omega
  have room (time : Nat) (late : request.tStart ≤ time) : inService earlier time < units ↔ freeAt queue.time unit ≤ time := by
    rw [accounts.running time (Nat.le_trans inOrder late), ← accounts.length, busy_lt, chosen.free_iff late]
  have roomStill (time : Nat) (late : request.tStart ≤ time) : stillInService earlier time < units ↔ freeAt queue.time unit ≤ time := by
    rw [← room time late]
    constructor
    · exact Nat.lt_of_le_of_lt (inService_le_stillInService earlier time)
    · intro some
      have free := (room time late).mp some
      have begun := accounts.begun time (Nat.le_trans inOrder late) ⟨unit, chosen.inside, free⟩
      rwa [stillInService_of_begun begun]
  have later : request.tStart ≤ max request.tStart (freeAt queue.time unit) := Nat.le_max_left _ _
  have now : freeAt queue.time unit ≤ max request.tStart (freeAt queue.time unit) := Nat.le_max_right _ _
  refine ⟨by show tEnd = tEnd - request.tDelay + request.tDelay; omega, ?_, ?_⟩
  · have exist : ∃ time, stillInService earlier time < units := ⟨_, (roomStill _ later).mpr now⟩
    refine ⟨Nat.find exist, ⟨Nat.find_spec exist, fun time some => Nat.find_min' exist some⟩, ?_⟩
    have least := Nat.find_min' exist ((roomStill _ later).mpr now)
    have atLeast : max request.tStart (freeAt queue.time unit) ≤ max request.tStart (Nat.find exist) := by
      have fewer := Nat.lt_of_le_of_lt (stillInService_antitone (Nat.le_max_right request.tStart _)) (Nat.find_spec exist)
      have free := (roomStill (max request.tStart (Nat.find exist)) (Nat.le_max_left _ _)).mp fewer
      omega
    show tEnd - request.tDelay = _
    omega
  · rw [tBegin]
    refine ⟨⟨later, (room _ later).mpr now⟩, ?_⟩
    rintro time ⟨late, some⟩
    exact Nat.max_le.mpr ⟨late, (room time late).mp some⟩

end Accounts

/-! ### Sequences of calls -/

variable {units : Nat} {queue : ContentionModel} {earlier : List Service} {request : Request} {requests : List Request}

theorem InOrder.rest (inOrder : InOrder (request :: requests)) : InOrder requests where
  positive other member := inOrder.positive other (List.mem_cons_of_mem _ member)
  sorted := (List.pairwise_cons.mp inOrder.sorted).2

theorem InOrder.later (inOrder : InOrder (request :: requests)) : ∀ other ∈ requests, request.tStart ≤ other.tStart :=
  (List.pairwise_cons.mp inOrder.sorted).1

theorem Accounts.run (accounts : Accounts units queue earlier) (some : 0 < units) (inOrder : InOrder requests)
    (late : ∀ request ∈ requests, queue.tLast ≤ request.tStart) :
    Accounts units (queue.serve requests) (earlier ++ services queue requests) := by
  induction requests generalizing queue earlier with
  | nil => simpa [services, ContentionModel.serve] using accounts
  | cons request rest ih =>
    have now := late request List.mem_cons_self
    have positive := inOrder.positive request List.mem_cons_self
    have slots : 0 < queue.time.length := by rwa [accounts.length]
    obtain ⟨unit, serves⟩ := getCompletionTime_serves slots positive now rfl
    have next := accounts.serve now serves
    have started := congrArg ContentionModel.tLast serves.sets
    rw [services, List.append_cons]
    exact ih next inOrder.rest fun other member => started ▸ inOrder.later other member

theorem serve_tLast_le {time : Nat} (last : queue.tLast ≤ time) (started : ∀ request ∈ requests, request.tStart ≤ time) :
    (queue.serve requests).tLast ≤ time := by
  induction requests generalizing queue with
  | nil => exact last
  | cons request rest ih =>
    have now := started request List.mem_cons_self
    refine ih ?_ fun other member => started other (List.mem_cons_of_mem _ member)
    dsimp only [getCompletionTime]
    split
    · exact last
    · split_ifs
      · exact last
      · exact last
      · exact now

theorem getStartTime_add (queue : ContentionModel) {tStart : Nat} (positive : 0 < tStart) (tDelay tag : Nat) :
    queue.getStartTime tStart + tDelay = (queue.getCompletionTime tStart tDelay tag).1 := by
  cases slots : queue.time with
  | nil => simp [getStartTime, getCompletionTime, slots]
  | cons first rest =>
    simp only [getStartTime, getCompletionTime, slots, if_neg (Nat.ne_of_gt positive)]
    rw [← slots]
    by_cases early : tStart < queue.tLast
    · rw [if_pos early, if_pos early]
    · rw [if_neg early, if_neg early, peekUnit_eq]
      cases findUnit_chosen slots with
      | free inside now _ =>
        have free : ∃ slot ∈ queue.time, slot.1 ≤ tStart := ⟨_, List.getElem_mem inside, by simpa [freeAt, inside] using now⟩
        rw [freeAt] at now
        rw [if_pos free, Nat.max_eq_left now]
      | busy inside later _ =>
        have busy : ¬∃ slot ∈ queue.time, slot.1 ≤ tStart := by
          rintro ⟨slot, member, now⟩
          obtain ⟨other, otherInside, rfl⟩ := List.mem_iff_getElem.mp member
          have after := later other otherInside
          simp [freeAt, otherInside] at after
          omega
        have after := later _ inside
        rw [freeAt] at after
        rw [if_neg busy]
        simp only [if_pos after]
        rw [Nat.max_eq_right (Nat.le_of_lt after)]

/-- With calls in order no more services overlap than there are units, each begins as early as they allow, and
`getStartTime` tells when. -/
theorem contentionModel_capacity (units : Nat) (requests : List Request) (some : 1 ≤ units) (inOrder : InOrder requests) :
    (∀ time, inService (services (create units) requests) time ≤ units) ∧
    (∀ before request rest, requests = before ++ request :: rest →
      let tEnd := (((create units).serve before).getCompletionTime request.tStart request.tDelay request.tag).1
      BeginsEarliest units (services (create units) before) request ⟨tEnd - request.tDelay, tEnd⟩) ∧
    ∀ (queue : ContentionModel) (tStart tDelay tag : Nat), 0 < tStart →
      queue.getStartTime tStart + tDelay = (queue.getCompletionTime tStart tDelay tag).1 := by
  have start (calls : List Request) (inOrder : InOrder calls) :
      Accounts units ((create units).serve calls) (services (create units) calls) := by
    simpa using (accounts_create units).run some inOrder fun request _ => Nat.zero_le _
  refine ⟨(start requests inOrder).capacity, ?_, fun queue tStart tDelay tag positive => getStartTime_add queue positive tDelay tag⟩
  rintro before request rest rfl
  have ordered := List.pairwise_append.mp inOrder.sorted
  have accounts := start before ⟨fun other member => inOrder.positive other (List.mem_append_left _ member), ordered.1⟩
  have positive := inOrder.positive request (List.mem_append_right _ List.mem_cons_self)
  have last : ((create units).serve before).tLast ≤ request.tStart :=
    serve_tLast_le (Nat.zero_le _) fun other member => ordered.2.2 other member request List.mem_cons_self
  have slots : 0 < ((create units).serve before).time.length := by rwa [accounts.length]
  obtain ⟨unit, serves⟩ := getCompletionTime_serves slots positive last rfl
  exact accounts.begins last serves

/-- Three requests at two units: the third one begins when the first is over. -/
theorem contentionModel_capacity_threeRequests :
    services (create 2) [⟨1, 10, 0⟩, ⟨2, 20, 1⟩, ⟨3, 5, 2⟩] = [⟨1, 11⟩, ⟨2, 22⟩, ⟨11, 16⟩] ∧
    (∀ time, inService [⟨1, 11⟩, ⟨2, 22⟩, ⟨11, 16⟩] time ≤ 2) ∧
    BeginsEarliest 2 [⟨1, 11⟩, ⟨2, 22⟩] ⟨3, 5, 2⟩ ⟨11, 16⟩ := by
  have inOrder : InOrder [⟨1, 10, 0⟩, ⟨2, 20, 1⟩, ⟨3, 5, 2⟩] := ⟨by decide, by decide⟩
  obtain ⟨capacity, begins, -⟩ := contentionModel_capacity 2 [⟨1, 10, 0⟩, ⟨2, 20, 1⟩, ⟨3, 5, 2⟩] (by decide) inOrder
  exact ⟨by decide, capacity, begins [⟨1, 10, 0⟩, ⟨2, 20, 1⟩] ⟨3, 5, 2⟩ [] rfl⟩

end ContentionModel

end Sniper.Performance

import Mathlib.Data.List.Basic

/-! Threads that wait in queues, each in at most one place of one queue. -/

namespace Sniper.WaitQueue

variable {Thread Place : Type} [DecidableEq Thread] [DecidableEq Place]

/-- Each thread stands once in the queue of its location, and in no other. -/
def Located (queue : Place → List Thread) (location : Thread → Option Place) : Prop :=
  ∀ thread place, (queue place).count thread = if location thread = some place then 1 else 0

variable {queue : Place → List Thread} {location : Thread → Option Place}

theorem Located.mem_iff (located : Located queue location) {thread : Thread} {place : Place} :
    thread ∈ queue place ↔ location thread = some place := by
  rw [← List.count_pos_iff, located]
  split <;> simp_all

/-- A thread that waits nowhere is put into a queue, at any position. -/
theorem Located.insert (located : Located queue location) {thread : Thread} (place : Place) {front back : List Thread}
    (nowhere : location thread = none) (split : queue place = front ++ back) :
    Located (Function.update queue place (front ++ thread :: back)) (Function.update location thread (some place)) := by
  intro other there
  have before := located other there
  by_cases samePlace : there = place <;> by_cases sameThread : other = thread
  · subst samePlace sameThread
    rw [split, List.count_append, nowhere] at before
    simp only [Function.update_self, List.count_append, List.count_cons_self, if_true]
    simp only [reduceCtorEq, if_false] at before
    omega
  · subst samePlace
    rw [split, List.count_append] at before
    have different : thread ≠ other := fun equal => sameThread equal.symm
    simp only [Function.update_self, Function.update_of_ne sameThread, List.count_append, List.count_cons_of_ne different]
    exact before
  · subst sameThread
    have different : place ≠ there := fun equal => samePlace equal.symm
    rw [nowhere] at before
    simp only [Function.update_self, Function.update_of_ne samePlace, Option.some.injEq, different, if_false]
    simpa using before
  · simp only [Function.update_of_ne samePlace, Function.update_of_ne sameThread]
    exact before

theorem Located.push (located : Located queue location) {thread : Thread} (place : Place) (nowhere : location thread = none) :
    Located (Function.update queue place (queue place ++ [thread])) (Function.update location thread (some place)) :=
  located.insert place nowhere (List.append_nil _).symm

/-- A thread leaves its queue, from any position. -/
theorem Located.remove (located : Located queue location) {thread : Thread} {place : Place} {front back : List Thread}
    (split : queue place = front ++ thread :: back) :
    Located (Function.update queue place (front ++ back)) (Function.update location thread none) := by
  have here : location thread = some place := located.mem_iff.mp (by simp [split])
  intro other there
  have before := located other there
  by_cases samePlace : there = place <;> by_cases sameThread : other = thread
  · subst samePlace sameThread
    rw [split, List.count_append, List.count_cons_self, here] at before
    simp only [Function.update_self, List.count_append, reduceCtorEq, if_false]
    simp only [if_true] at before
    omega
  · subst samePlace
    have different : thread ≠ other := fun equal => sameThread equal.symm
    rw [split, List.count_append, List.count_cons_of_ne different, ← List.count_append] at before
    simp only [Function.update_self, Function.update_of_ne sameThread]
    exact before
  · subst sameThread
    have different : place ≠ there := fun equal => samePlace equal.symm
    rw [here] at before
    simp only [Option.some.injEq, different, if_false] at before
    simpa [Function.update_of_ne samePlace] using before
  · simp only [Function.update_of_ne samePlace, Function.update_of_ne sameThread]
    exact before

theorem Located.pop (located : Located queue location) {thread : Thread} {place : Place} {rest : List Thread}
    (split : queue place = thread :: rest) :
    Located (Function.update queue place rest) (Function.update location thread none) := by
  have first : queue place = [] ++ thread :: rest := split
  exact located.remove first

/-- The threads that have a location are stalled, and every stall is ended by one resumption. -/
structure Sleeping (stalled : Thread → Bool) (stalls resumes : Thread → Nat) (location : Thread → Option Place) : Prop where
  located : ∀ thread, stalled thread = (location thread).isSome
  ledger : ∀ thread, stalls thread = resumes thread + (stalled thread).toNat

namespace Sleeping

variable {stalled : Thread → Bool} {stalls resumes : Thread → Nat} {thread : Thread}

omit [DecidableEq Thread] [DecidableEq Place] in
theorem nowhere (sleeping : Sleeping stalled stalls resumes location) (awake : stalled thread = false) :
    location thread = none := by
  have same := sleeping.located thread
  rw [awake] at same
  exact Option.isNone_iff_eq_none.mp (by simpa using same.symm)

omit [DecidableEq Place] in
theorem stall (sleeping : Sleeping stalled stalls resumes location) (awake : stalled thread = false) (place : Place) :
    Sleeping (Function.update stalled thread true) (Function.update stalls thread (stalls thread + 1)) resumes
      (Function.update location thread (some place)) := by
  constructor
  case located =>
    intro other
    by_cases same : other = thread
    · subst same
      simp
    · simpa [same] using sleeping.located other
  case ledger =>
    intro other
    have before := sleeping.ledger other
    by_cases same : other = thread
    · subst same
      rw [awake] at before
      simpa using before
    · simpa [same] using before

omit [DecidableEq Place] in
theorem resume (sleeping : Sleeping stalled stalls resumes location) (waits : location thread ≠ none) :
    Sleeping (Function.update stalled thread false) stalls (Function.update resumes thread (resumes thread + 1))
      (Function.update location thread none) := by
  constructor
  case located =>
    intro other
    by_cases same : other = thread
    · subst same
      simp
    · simpa [same] using sleeping.located other
  case ledger =>
    intro other
    have before := sleeping.ledger other
    by_cases same : other = thread
    · subst same
      have asleep : stalled other = true := by
        rw [sleeping.located]
        exact Option.isSome_iff_ne_none.mpr waits
      rw [asleep] at before
      simpa using before
    · simpa [same] using before

omit [DecidableEq Place] in
/-- A stalled thread goes from one queue to another. -/
theorem move (sleeping : Sleeping stalled stalls resumes location) (waits : location thread ≠ none) (place : Place) :
    Sleeping stalled stalls resumes (Function.update (Function.update location thread none) thread (some place)) := by
  refine ⟨fun other => ?_, sleeping.ledger⟩
  rw [Function.update_idem, sleeping.located]
  by_cases same : other = thread
  · subst same
    simpa using Option.isSome_iff_ne_none.mpr waits
  · rw [Function.update_of_ne same]

end Sleeping

/-- A stalled thread is in exactly one queue, once. -/
theorem Located.waiting {stalled : Thread → Bool} {stalls resumes : Thread → Nat} {thread : Thread}
    (located : Located queue location) (sleeping : Sleeping stalled stalls resumes location) (asleep : stalled thread = true) :
    ∃ place, (queue place).count thread = 1 ∧ ∀ other, other ≠ place → thread ∉ queue other := by
  rw [sleeping.located] at asleep
  obtain ⟨place, here⟩ := Option.isSome_iff_exists.mp asleep
  refine ⟨place, by rw [located, if_pos here], fun other different there => ?_⟩
  rw [located.mem_iff, here] at there
  exact different (Option.some.inj there).symm

theorem Located.running {stalled : Thread → Bool} {stalls resumes : Thread → Nat} {thread : Thread}
    (located : Located queue location) (sleeping : Sleeping stalled stalls resumes location) (awake : stalled thread = false)
    (place : Place) : thread ∉ queue place := by
  intro there
  rw [located.mem_iff, sleeping.nowhere awake] at there
  cases there

end Sniper.WaitQueue

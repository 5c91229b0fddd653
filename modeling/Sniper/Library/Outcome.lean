/-! Rules for computations that may stop with a reason.

`Meets allowed computation post` says that the computation ends in a value that satisfies
`post`, or stops for a reason that is `allowed`. -/

namespace Sniper

variable {ε : Type u} {α : Type v} {β : Type w} {allowed : ε → Prop}

def Meets (allowed : ε → Prop) (computation : Except ε α) (post : α → Prop) : Prop :=
  match computation with
  | .ok value => post value
  | .error reason => allowed reason

namespace Meets

theorem ok {value : α} {post : α → Prop} (holds : post value) : Meets allowed (.ok value) post := holds

theorem error {reason : ε} {post : α → Prop} (expected : allowed reason) :
    Meets allowed (.error reason) post := expected

/-- Nothing is asked of the value. -/
theorem any (computation : Except ε α) : Meets (fun _ => True) computation fun _ => True := by
  cases computation with
  | ok value => trivial
  | error reason => trivial

/-- The value is the one that the computation ends in. -/
theorem result (computation : Except ε α) : Meets (fun _ => True) computation fun value => computation = .ok value := by
  cases computation with
  | ok value => rfl
  | error reason => trivial

theorem mono {computation : Except ε α} {post weaker : α → Prop} (meets : Meets allowed computation post)
    (weaken : ∀ value, post value → weaker value) : Meets allowed computation weaker := by
  cases computation with
  | ok value => exact weaken value meets
  | error reason => exact meets

/-- More reasons are allowed. -/
theorem widen {wider : ε → Prop} {computation : Except ε α} {post : α → Prop} (meets : Meets allowed computation post)
    (more : ∀ reason, allowed reason → wider reason) : Meets wider computation post := by
  cases computation with
  | ok value => exact meets
  | error reason => exact more reason meets

theorem and {computation : Except ε α} {first second : α → Prop} (meets : Meets allowed computation first)
    (meets' : Meets allowed computation second) :
    Meets allowed computation fun value => first value ∧ second value := by
  cases computation with
  | ok value => exact ⟨meets, meets'⟩
  | error reason => exact meets

theorem bind {β : Type v} {computation : Except ε α} {continuation : α → Except ε β} {mid : α → Prop}
    {post : β → Prop} (first : Meets allowed computation mid)
    (second : ∀ value, mid value → Meets allowed (continuation value) post) :
    Meets allowed (computation >>= continuation) post := by
  cases computation with
  | ok value => exact second value first
  | error reason => exact first

theorem ite {condition : Prop} [Decidable condition] {yes no : Except ε α} {post : α → Prop}
    (holds : condition → Meets allowed yes post) (fails : ¬condition → Meets allowed no post) :
    Meets allowed (if condition then yes else no) post := by
  by_cases decided : condition
  · rw [if_pos decided]
    exact holds decided
  · rw [if_neg decided]
    exact fails decided

/-- A loop: the invariant speaks about the items done so far. -/
theorem foldlM {β : Type v} {step : β → α → Except ε β} (invariant : List α → β → Prop) (items : List α)
    (preserved : ∀ done item rest state, items = done ++ item :: rest → invariant done state →
      Meets allowed (step state item) (invariant (done ++ [item])))
    {start : β} (initially : invariant [] start) :
    Meets allowed (items.foldlM step start) (invariant items) := by
  suffices general : ∀ (rest done : List α) (state : β), items = done ++ rest → invariant done state →
      Meets allowed (rest.foldlM step state) (invariant items) from general items [] start rfl initially
  intro rest
  induction rest with
  | nil =>
    intro done state split holds
    rw [List.append_nil] at split
    exact split ▸ ok holds
  | cons item rest ih =>
    intro done state split holds
    refine bind (preserved done item rest state split holds) fun next kept => ?_
    exact ih (done ++ [item]) next (by rw [split, List.append_assoc]; rfl) kept

/-- Without an allowed reason the computation ends. -/
theorem ends {computation : Except ε α} {post : α → Prop} (meets : Meets allowed computation post)
    (none_ : ∀ reason, ¬allowed reason) : ∃ value, computation = .ok value ∧ post value := by
  cases computation with
  | ok value => exact ⟨value, rfl, meets⟩
  | error reason => exact absurd meets (none_ reason)

theorem of_ok {computation : Except ε α} {post : α → Prop} {value : α}
    (meets : Meets allowed computation post) (result : computation = .ok value) : post value := by
  rw [result] at meets
  exact meets

theorem of_error {computation : Except ε α} {post : α → Prop} {reason : ε}
    (meets : Meets allowed computation post) (result : computation = .error reason) : allowed reason := by
  rw [result] at meets
  exact meets

end Meets

theorem map_eq_ok {function : α → β} {computation : Except ε α} {value : β} (mapped : computation.map function = .ok value) :
    ∃ inner, computation = .ok inner ∧ value = function inner := by
  cases computation with
  | ok inner => exact ⟨inner, rfl, (Except.ok.inj mapped).symm⟩
  | error reason => cases mapped

/-- A list of computations that all end. -/
theorem mapM_ok_iff {computation : α → Except ε β} (list : List α) :
    (∃ results, list.mapM computation = .ok results) ↔ ∀ item ∈ list, ∃ result, computation item = .ok result := by
  induction list with
  | nil => exact ⟨fun _ _ none_ => absurd none_ List.not_mem_nil, fun _ => ⟨[], rfl⟩⟩
  | cons first later ih =>
    rw [List.forall_mem_cons, ← ih, List.mapM_cons]
    cases computation first with
    | error failure =>
      constructor
      · intro mapped
        obtain ⟨_, failed⟩ := mapped
        cases failed
      · intro mapped
        obtain ⟨⟨_, failed⟩, _⟩ := mapped
        cases failed
    | ok result =>
      cases later.mapM computation with
      | error failure =>
        constructor
        · intro mapped
          obtain ⟨_, failed⟩ := mapped
          cases failed
        · intro mapped
          obtain ⟨_, _, failed⟩ := mapped
          cases failed
      | ok results => exact ⟨fun _ => ⟨⟨result, rfl⟩, results, rfl⟩, fun _ => ⟨result :: results, rfl⟩⟩

end Sniper

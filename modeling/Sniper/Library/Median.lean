import Mathlib.Data.List.Sort
import Mathlib.Order.Defs.LinearOrder

/-! Medians of lists. -/

namespace Sniper

variable {α : Type u} [LinearOrder α] {values : List α} {value : α} {place : Nat}

/-- A value is between the two in the middle of the sorted list. -/
def IsMedian (values : List α) (value : α) : Prop :=
  ∃ low high, (values.insertionSort (· ≤ ·))[(values.length - 1) / 2]? = some low ∧
    (values.insertionSort (· ≤ ·))[values.length / 2]? = some high ∧ low ≤ value ∧ value ≤ high

/-- In a sorted list, the elements with a property that smaller ones have as well come first. -/
theorem getElem_iff_lt_countP (holds : α → Bool) (sorted : values.Pairwise (· ≤ ·))
    (closed : ∀ smaller larger, smaller ≤ larger → holds larger = true → holds smaller = true) (inside : place < values.length) :
    holds values[place] = true ↔ place < values.countP holds := by
  induction values generalizing place with
  | nil => cases inside
  | cons first rest ih =>
    obtain ⟨least, sorted⟩ := List.pairwise_cons.mp sorted
    by_cases has : holds first = true
    · rw [List.countP_cons_of_pos has]
      cases place with
      | zero => simp [has]
      | succ place =>
        rw [List.getElem_cons_succ, ih sorted (Nat.lt_of_succ_lt_succ inside)]
        exact (Nat.succ_lt_succ_iff).symm
    · have none_ : (first :: rest).countP holds = 0 := by
        apply List.countP_eq_zero.mpr
        intro other member hasOther
        rcases List.mem_cons.mp member with rfl | inRest
        · exact has hasOther
        · exact has (closed first other (least other inRest) hasOther)
      rw [none_]
      constructor
      · intro hasPlace
        exact absurd hasPlace (List.countP_eq_zero.mp none_ _ (List.getElem_mem inside))
      · intro impossible
        cases impossible

/-- At most half of the values are less than a median, and at most half of them greater. -/
theorem isMedian_iff (nonempty : values ≠ []) : IsMedian values value ↔
    2 * values.countP (· < value) ≤ values.length ∧ 2 * values.countP (value < ·) ≤ values.length := by
  have positive : 0 < values.length := List.length_pos_iff.mpr nonempty
  have perm : (values.insertionSort (· ≤ ·)).Perm values := List.perm_insertionSort _ _
  have sorted : (values.insertionSort (· ≤ ·)).Pairwise (· ≤ ·) := List.pairwise_insertionSort _ _
  have length : (values.insertionSort (· ≤ ·)).length = values.length := perm.length_eq
  have lowInside : (values.length - 1) / 2 < (values.insertionSort (· ≤ ·)).length := by omega
  have highInside : values.length / 2 < (values.insertionSort (· ≤ ·)).length := by omega
  have split : values.length = values.countP (· ≤ value) + values.countP (value < ·) := by
    have parts := values.length_eq_countP_add_countP (fun other => decide (other ≤ value))
    simpa using parts
  -- A place holds at most the value if enough values are at most the value.
  have low := getElem_iff_lt_countP (fun other => decide (other ≤ value)) sorted
    (fun smaller larger le atMost => decide_eq_true (le_trans le (of_decide_eq_true atMost))) lowInside
  have high := getElem_iff_lt_countP (fun other => decide (other < value)) sorted
    (fun smaller larger le below => decide_eq_true (lt_of_le_of_lt le (of_decide_eq_true below))) highInside
  rw [perm.countP_eq, decide_eq_true_eq] at low high
  have isLow : (values.insertionSort (· ≤ ·))[(values.length - 1) / 2] ≤ value ↔ 2 * values.countP (value < ·) ≤ values.length := by
    rw [low]
    omega
  have isHigh : value ≤ (values.insertionSort (· ≤ ·))[values.length / 2] ↔ 2 * values.countP (· < value) ≤ values.length := by
    rw [← not_lt, high]
    omega
  rw [IsMedian, List.getElem?_eq_getElem lowInside, List.getElem?_eq_getElem highInside, ← isLow, ← isHigh]
  constructor
  · intro ⟨low, high, sameLow, sameHigh, below, above⟩
    cases sameLow
    cases sameHigh
    exact ⟨above, below⟩
  · intro ⟨above, below⟩
    exact ⟨_, _, rfl, rfl, below, above⟩

end Sniper

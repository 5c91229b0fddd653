import Mathlib.Data.List.Basic

/-! The last item of a list before a position that passes a test. -/

namespace Sniper

variable {α : Type u} {test : α → Bool} {items : List α} {item : α} {next index : Nat}

def lastBefore (test : α → Bool) (items : List α) : Nat → Option Nat
  | 0 => none
  | index + 1 => if items[index]?.any test then some index else lastBefore test items index

theorem lastBefore_lt (found : lastBefore test items next = some index) : index < next := by
  induction next with
  | zero => cases found
  | succ next ih =>
    rw [lastBefore] at found
    split at found
    case isTrue =>
      cases found
      exact Nat.lt_succ_self index
    case isFalse => exact Nat.lt_succ_of_lt (ih found)

theorem lastBefore_passes (found : lastBefore test items next = some index) : ∃ item, items[index]? = some item ∧ test item = true := by
  induction next with
  | zero => cases found
  | succ next ih =>
    rw [lastBefore] at found
    split at found
    case isTrue passes =>
      cases found
      exact (Option.any_eq_true test _).mp passes
    case isFalse => exact ih found

theorem lastBefore_last (found : lastBefore test items next = some index) {later : Nat} (behind : later < next)
    (there : items[later]? = some item) (passes : test item = true) : later ≤ index := by
  induction next with
  | zero => cases behind
  | succ next ih =>
    rw [lastBefore] at found
    split at found
    case isTrue =>
      cases found
      exact Nat.le_of_lt_succ behind
    case isFalse fails =>
      cases Nat.lt_succ_iff_lt_or_eq.mp behind with
      | inl before => exact ih found before
      | inr same =>
        subst same
        rw [there] at fails
        exact absurd passes fails

theorem lastBefore_exists {earlier : Nat} (behind : earlier < next) (there : items[earlier]? = some item)
    (passes : test item = true) : ∃ index, lastBefore test items next = some index := by
  induction next with
  | zero => cases behind
  | succ next ih =>
    rw [lastBefore]
    split
    case isTrue => exact ⟨next, rfl⟩
    case isFalse fails =>
      cases Nat.lt_succ_iff_lt_or_eq.mp behind with
      | inl before => exact ih before
      | inr same =>
        subst same
        rw [there] at fails
        exact absurd passes fails

/-- One more item. -/
theorem lastBefore_succ (there : items[next]? = some item) :
    lastBefore test items (next + 1) = if test item then some next else lastBefore test items next := by
  rw [lastBefore, there]
  rfl

theorem lastBefore_append (more : List α) (within : next ≤ items.length) :
    lastBefore test (items ++ more) next = lastBefore test items next := by
  induction next with
  | zero => rfl
  | succ next ih =>
    rw [lastBefore, lastBefore, List.getElem?_append_left within, ih (Nat.le_of_succ_le within)]

end Sniper

import Mathlib.Data.List.Count

/-! Counts of the items of a list that pass a test. -/

namespace Sniper

variable {α : Type u} {list : List α} {index : Nat} {old : α}

theorem countP_set_add (new : α) (found : list[index]? = some old) (test : α → Bool) :
    (list.set index new).countP test + (if test old then 1 else 0) = list.countP test + if test new then 1 else 0 := by
  obtain ⟨inside, rfl⟩ := List.getElem?_eq_some_iff.mp found
  rw [List.countP_set inside]
  by_cases holds : test list[index] = true
  · have some : 0 < list.countP test := List.countP_pos_iff.mpr ⟨_, List.getElem_mem inside, holds⟩
    rw [if_pos holds]
    omega
  · rw [if_neg holds]
    omega

/-- Some item fails the test if and only if the count is short. -/
theorem countP_lt_length {test : α → Bool} : list.countP test < list.length ↔ ∃ item ∈ list, test item = false := by
  have most := List.countP_le_length (p := test) (l := list)
  rw [Nat.lt_iff_le_and_ne, and_iff_right most, ne_eq, List.countP_eq_length]
  simp

end Sniper

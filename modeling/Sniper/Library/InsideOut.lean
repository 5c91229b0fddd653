import Mathlib.Logic.Equiv.Set

/-! The inside-out shuffle, which places each new element in a table and moves what stood there to the end. -/

namespace Sniper

variable {ι : Type u} {α : Type v} [DecidableEq ι] {table : ι → α} {places : Set ι} {elements : Set α} {last place : ι} {new : α}

/-- One round, with `last` as the next place of the table. -/
def insideOut (table : ι → α) (last place : ι) (new : α) : ι → α :=
  Function.update (Function.update table last (table place)) place new

theorem insideOut_eq (table : ι → α) (last place : ι) (new : α) :
    insideOut table last place new = Function.update table last new ∘ Equiv.swap last place := by
  funext index
  unfold insideOut
  by_cases isPlace : index = place
  · rw [isPlace, Function.comp, Equiv.swap_apply_right, Function.update_self, Function.update_self]
  · rw [Function.update_of_ne isPlace, Function.comp]
    by_cases isLast : index = last
    · rw [isLast, Equiv.swap_apply_left, Function.update_self, Function.update_of_ne (isLast ▸ Ne.symm isPlace)]
    · rw [Equiv.swap_apply_of_ne_of_ne isLast isPlace, Function.update_of_ne isLast, Function.update_of_ne isLast]

/-- A round keeps the table a bijection, with one more place and one more element. -/
theorem bijOn_insideOut (bijection : Set.BijOn table places elements) (unused : last ∉ places) (chosen : place ∈ insert last places)
    (fresh : new ∉ elements) : Set.BijOn (insideOut table last place new) (insert last places) (insert new elements) := by
  have appended : Set.BijOn (Function.update table last new) places elements := by
    refine bijection.congr fun index member => ?_
    rw [Function.update_of_ne fun isLast : index = last => unused (isLast ▸ member)]
  have isNew : Function.update table last new last = new := Function.update_self last new table
  have extended := appended.insert (isNew.symm ▸ fresh)
  rw [isNew] at extended
  rw [insideOut_eq]
  exact extended.comp (Equiv.swap_bijOn_self (iff_of_true (Set.mem_insert last places) chosen))

end Sniper

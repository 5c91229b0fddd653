import Mathlib.Data.List.Basic
import Mathlib.Data.Nat.ModEq
import Mathlib.Logic.Function.Basic

/-! Stretches of a circular array. -/

namespace Sniper.CircularArray

variable {α : Type u} {slots : Nat → α} {size start count index other : Nat} {value : α}

/-- So many elements from some place on. -/
def stretch (slots : Nat → α) (size start count : Nat) : List α :=
  (List.range count).map fun index => slots ((start + index) % size)

@[simp] theorem stretch_zero : stretch slots size start 0 = [] := rfl

@[simp] theorem length_stretch : (stretch slots size start count).length = count := by
  simp [stretch]

theorem getElem?_stretch (inside : index < count) : (stretch slots size start count)[index]? = some (slots ((start + index) % size)) := by
  simp [stretch, inside]

/-- The place from which a stretch starts, is a place of the array. -/
theorem stretch_mod : stretch slots size (start % size) count = stretch slots size start count := by
  simp [stretch, Nat.mod_add_mod]

theorem stretch_concat : stretch slots size start (count + 1) = stretch slots size start count ++ [slots ((start + count) % size)] := by
  simp [stretch, List.range_succ]

theorem stretch_append (more : Nat) :
    stretch slots size start (count + more) = stretch slots size start count ++ stretch slots size (start + count) more := by
  induction more with
  | zero => simp
  | succ more ih =>
    rw [← Nat.add_assoc, stretch_concat, ih, stretch_concat, List.append_assoc, Nat.add_assoc]

theorem stretch_cons : stretch slots size start (count + 1) = slots (start % size) :: stretch slots size (start + 1) count := by
  rw [Nat.add_comm, stretch_append, stretch_concat, stretch_zero]
  rfl

/-- Places less than a lap apart are different. -/
theorem place_ne (apart : index ≠ other) (near : index < size) (near' : other < size) :
    (start + index) % size ≠ (start + other) % size := by
  intro same
  have congruent : Nat.ModEq size index other := Nat.ModEq.add_left_cancel' start same
  exact apart (Nat.ModEq.eq_of_lt_of_lt congruent near near')

/-- What a stretch does not reach may change. -/
theorem stretch_update_beyond (reach : count ≤ index) (near : index < size) :
    stretch (Function.update slots ((start + index) % size) value) size start count = stretch slots size start count := by
  refine List.map_congr_left fun other member => ?_
  have inside := List.mem_range.mp member
  exact Function.update_of_ne (place_ne (by omega) (by omega) near) ..

theorem stretch_push (room : count < size) :
    stretch (Function.update slots ((start + count) % size) value) size start (count + 1) =
      stretch slots size start count ++ [value] := by
  rw [stretch_concat, stretch_update_beyond (Nat.le_refl _) room, Function.update_self]

theorem stretch_update (inside : index < count) (fits : count ≤ size) :
    stretch (Function.update slots ((start + index) % size) value) size start count =
      (stretch slots size start count).set index value := by
  refine List.ext_getElem? fun other => ?_
  rw [List.getElem?_set, length_stretch]
  by_cases reached : other < count
  · rw [getElem?_stretch reached]
    split
    case isTrue same => rw [same, Function.update_self]
    case isFalse apart =>
      have elsewhere : (start + other) % size ≠ (start + index) % size :=
        place_ne (Ne.symm apart) (Nat.lt_of_lt_of_le reached fits) (Nat.lt_of_lt_of_le inside fits)
      rw [Function.update_of_ne elsewhere, getElem?_stretch reached]
  · have beyond (slots : Nat → α) : (stretch slots size start count)[other]? = none :=
      List.getElem?_eq_none (by simpa using Nat.le_of_not_lt reached)
    rw [beyond, beyond, if_neg (by omega)]

end Sniper.CircularArray

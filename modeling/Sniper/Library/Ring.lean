import Mathlib.Algebra.Order.Group.Unbundled.Int
import Mathlib.Logic.Function.Iterate

/-! Walks that end, and the places of a ring. -/

namespace Sniper

/-! ### Descent -/

section Descent

variable {α : Type u} {advance : α → α} {inside : α → Prop} {remaining : α → Nat} {place : α}

/-- Each step from inside brings the walk one step closer to its end. -/
structure Descends (advance : α → α) (inside : α → Prop) (remaining : α → Nat) : Prop where
  stays : ∀ place, inside place → inside (advance place)
  closer : ∀ place, inside place → remaining place ≠ 0 → remaining (advance place) + 1 = remaining place

namespace Descends

theorem iterate_inside (descends : Descends advance inside remaining) (here : inside place) (count : Nat) :
    inside (advance^[count] place) := by
  induction count with
  | zero => exact here
  | succ count ih =>
    rw [Function.iterate_succ_apply']
    exact descends.stays _ ih

theorem remaining_iterate (descends : Descends advance inside remaining) (here : inside place) {count : Nat}
    (few : count ≤ remaining place) : remaining (advance^[count] place) + count = remaining place := by
  induction count with
  | zero => rfl
  | succ count ih =>
    have before := ih (Nat.le_of_succ_le few)
    have notYet : remaining (advance^[count] place) ≠ 0 := by omega
    have closer := descends.closer _ (descends.iterate_inside here count) notYet
    rw [Function.iterate_succ_apply']
    omega

end Descends

end Descent

/-! ### Rings -/

namespace Ring

variable {size place other target : Int}

/-- The place that is reached at or beyond the ends of a ring. -/
def wrap (size place : Int) : Int := (place + size) % size

/-- The shorter way around. -/
def distance (size place target : Int) : Int := min |place - target| (size - |place - target|)

theorem wrap_of_inside (start : 0 ≤ place) (below : place < size) : wrap size place = place := by
  rw [wrap, Int.add_emod_right, Int.emod_eq_of_lt start below]

theorem wrap_size : wrap size size = 0 := by
  rw [wrap, Int.add_emod_right, Int.emod_self]

theorem wrap_minus_one (positive : 0 < size) : wrap size (-1) = size - 1 := by
  rw [wrap, Int.emod_eq_of_lt] <;> omega

theorem wrap_up (start : 0 ≤ place) (below : place < size) :
    wrap size (place + 1) = if place + 1 = size then 0 else place + 1 := by
  split
  case isTrue atEnd => rw [atEnd, wrap_size]
  case isFalse inner => exact wrap_of_inside (by omega) (by omega)

theorem wrap_down (start : 0 ≤ place) (below : place < size) :
    wrap size (place - 1) = if place = 0 then size - 1 else place - 1 := by
  split
  case isTrue atStart =>
    rw [atStart]
    exact wrap_minus_one (by omega)
  case isFalse inner => exact wrap_of_inside (by omega) (by omega)

theorem distance_cases (size place target : Int) :
    (target ≤ place ∧ distance size place target = min (place - target) (size - (place - target))) ∨
      (place ≤ target ∧ distance size place target = min (target - place) (size - (target - place))) := by
  rcases Int.le_total target place with behind | ahead
  · exact .inl ⟨behind, by rw [distance, abs_of_nonneg (by omega)]⟩
  · exact .inr ⟨ahead, by rw [distance, abs_of_nonpos (by omega), Int.neg_sub]⟩

theorem distance_nonneg (start : 0 ≤ place) (below : place < size) (targetStart : 0 ≤ target) (targetBelow : target < size) :
    0 ≤ distance size place target := by
  obtain ⟨_, same⟩ | ⟨_, same⟩ := distance_cases size place target <;> rw [same] <;> omega

theorem distance_self (positive : 0 ≤ size) : distance size target target = 0 := by
  rw [distance, Int.sub_self, abs_zero]
  omega

theorem distance_up (start : 0 ≤ place) (below : place < size) (targetStart : 0 ≤ target) (targetBelow : target < size) :
    distance size place target ≤ distance size (wrap size (place + 1)) target + 1 := by
  rw [wrap_up start below]
  obtain ⟨_, before⟩ | ⟨_, before⟩ := distance_cases size place target <;>
    obtain ⟨_, after⟩ | ⟨_, after⟩ := distance_cases size (if place + 1 = size then 0 else place + 1) target <;>
      rw [before, after] <;> split at * <;> omega

theorem distance_down (start : 0 ≤ place) (below : place < size) (targetStart : 0 ≤ target) (targetBelow : target < size) :
    distance size place target ≤ distance size (wrap size (place - 1)) target + 1 := by
  rw [wrap_down start below]
  obtain ⟨_, before⟩ | ⟨_, before⟩ := distance_cases size place target <;>
    obtain ⟨_, after⟩ | ⟨_, after⟩ := distance_cases size (if place = 0 then size - 1 else place - 1) target <;>
      rw [before, after] <;> split at * <;> omega

end Ring

end Sniper

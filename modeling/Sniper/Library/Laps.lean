import Mathlib.Algebra.Order.Group.Nat
import Mathlib.Data.Nat.ModEq

/-! Writes to the places of a circular buffer, one after the other: which write a place holds. -/

namespace Sniper

/-- After `now` writes the place of a buffer holds the write with this number. -/
structure Holds (size now place written : Nat) : Prop where
  place_eq : written % size = place
  past : written < now
  recent : now ≤ written + size

namespace Holds

variable {size now place written other : Nat}

theorem place_lt (holds : Holds size now place written) (positive : 0 < size) : place < size :=
  holds.place_eq ▸ Nat.mod_lt _ positive

theorem place_lt_now (holds : Holds size now place written) : place < now :=
  Nat.lt_of_le_of_lt (holds.place_eq ▸ Nat.mod_le written size) holds.past

/-- Of two writes to one place with fewer than a lap between them there is only one. -/
theorem not_between (same : written % size = other % size) (less : written < other) (near : other < written + size) : False := by
  have multiple := Nat.sub_mod_eq_zero_of_mod_eq same.symm
  rw [Nat.mod_eq_of_lt (by omega)] at multiple
  omega

theorem unique (holds : Holds size now place written) (holds' : Holds size now place other) : written = other := by
  have same : written % size = other % size := holds.place_eq.trans holds'.place_eq.symm
  have past := holds.past
  have recent := holds.recent
  have past' := holds'.past
  have recent' := holds'.recent
  rcases Nat.lt_trichotomy written other with less | equal | more
  · exact absurd (by omega) (not_between same less)
  · exact equal
  · exact absurd (by omega) (not_between same.symm more)

/-- The place of an earlier write holds the one that is as many laps later as have passed since. -/
theorem of_earlier (positive : 0 < size) (earlier : written < now) :
    Holds size now (written % size) (written + size * ((now - 1 - written) / size)) where
  place_eq := Nat.add_mul_mod_self_left _ _ _
  past := by
    have most := Nat.mul_div_le (now - 1 - written) size
    omega
  recent := by
    have rest := Nat.lt_mul_div_succ (now - 1 - written) positive
    rw [Nat.mul_succ] at rest
    omega

theorem laps (positive : 0 < size) (earlier : written < now) (holds : Holds size now (written % size) other) :
    other / size = written / size + (now - 1 - written) / size := by
  rw [holds.unique (of_earlier positive earlier), Nat.add_mul_div_left _ _ positive]

theorem laps_eq_zero_iff (positive : 0 < size) (earlier : written < now) :
    (now - 1 - written) / size = 0 ↔ now ≤ written + size := by
  rw [Nat.div_eq_zero_iff_lt positive]
  omega

theorem newest (positive : 0 < size) (now : Nat) : Holds size (now + 1) (now % size) now :=
  ⟨rfl, Nat.lt_succ_self _, by omega⟩

theorem next (holds : Holds size now place written) (elsewhere : place ≠ now % size) : Holds size (now + 1) place written where
  place_eq := holds.place_eq
  past := Nat.lt_succ_of_lt holds.past
  recent := by
    have recent := holds.recent
    have notOver : now ≠ written + size := by
      intro overwritten
      rw [overwritten, Nat.add_mod_right] at elsewhere
      exact elsewhere holds.place_eq.symm
    omega

/-- The places before the next one are in this lap, the others in the lap before. -/
theorem this_lap_or_last (holds : Holds size now place written) (positive : 0 < size) :
    place < now % size ∧ written + now % size = now + place ∨ now % size ≤ place ∧ written + size + now % size = now + place := by
  have past := holds.past
  have recent := holds.recent
  have split := Nat.div_add_mod written size
  have split' := Nat.div_add_mod now size
  rw [holds.place_eq] at split
  have least : written / size ≤ now / size := Nat.div_le_div_right (Nat.le_of_lt past)
  have most : now / size ≤ written / size + 1 := by
    rw [← Nat.add_div_right _ positive]
    exact Nat.div_le_div_right recent
  rcases Nat.lt_or_eq_of_le least with before | same
  · have one : now / size = written / size + 1 := by omega
    rw [one, Nat.mul_succ] at split'
    exact .inr (by omega)
  · rw [← same] at split'
    exact .inl (by omega)

theorem before (holds : Holds size now place written) (positive : 0 < size) (elsewhere : place ≠ now % size) (some : 0 < written) :
    Holds size now ((place + size - 1) % size) (written - 1) where
  place_eq := by
    have step : (place + size - 1) % size = (written + (size - 1)) % size := by
      rw [← holds.place_eq, Nat.add_sub_assoc positive, Nat.mod_add_mod]
    have whole : written + (size - 1) = written - 1 + size := by omega
    rw [step, whole, Nat.add_mod_right]
  past := Nat.lt_of_le_of_lt (Nat.sub_le _ _) holds.past
  recent := by
    have recent := (holds.next elsewhere).recent
    omega

theorem last (positive : 0 < size) (some : 0 < now) : Holds size now ((now % size + size - 1) % size) (now - 1) where
  place_eq := by
    have whole : now + (size - 1) = now - 1 + size := by omega
    rw [Nat.add_sub_assoc positive, Nat.mod_add_mod, whole, Nat.add_mod_right]
  past := by omega
  recent := by omega

/-- Whether an earlier write, less than a lap before one that is held, is held too: a test of places that lets no place
before the next one pass, where it is beyond the one or the one is beyond the next, tells it but in two cases. -/
theorem earlier_iff (holds : Holds size now place written) (positive : 0 < size) {target : Nat} (earlier : target < written)
    (near : written < target + size)
    (passed : ¬((target % size > place ∨ place > now % size) ∧ target % size < now % size)) :
    now ≤ target + size ↔
      ¬(now % size ≤ place ∧ place < target % size) ∧ ¬(place = now % size ∧ target % size < now % size) := by
  have past := holds.past
  have recent := holds.recent
  have lap := holds.this_lap_or_last positive
  have inside := Nat.mod_lt target positive
  constructor
  · intro held
    have target_lap := this_lap_or_last ⟨rfl, Nat.lt_trans earlier past, held⟩ positive
    omega
  · rintro ⟨circled, atHead⟩
    by_contra overwritten
    have next : Holds size now (target % size) (target + size) := ⟨Nat.add_mod_right _ _, by omega, by omega⟩
    have target_lap := next.this_lap_or_last positive
    omega

end Holds

theorem place_succ {size : Nat} (positive : 0 < size) (now : Nat) :
    (now + 1) % size = (if now % size + 1 = size then 0 else now % size + 1) ∧
    (now + 1) / size = (if now % size + 1 = size then now / size + 1 else now / size) := by
  have split := Nat.div_add_mod now size
  have inside := Nat.mod_lt now positive
  by_cases full : now % size + 1 = size
  · rw [if_pos full, if_pos full]
    have next : now + 1 = size * (now / size + 1) := by
      rw [Nat.mul_succ]
      omega
    rw [next, Nat.mul_mod_right, Nat.mul_div_cancel_left _ positive]
    exact ⟨rfl, rfl⟩
  · rw [if_neg full, if_neg full]
    have next : now + 1 = now % size + 1 + size * (now / size) := by omega
    have below : now % size + 1 < size := by omega
    constructor
    · rw [next, Nat.add_mul_mod_self_left, Nat.mod_eq_of_lt below]
    · rw [next, Nat.add_mul_div_left _ _ positive, Nat.div_eq_of_lt below, Nat.zero_add]

end Sniper

import Mathlib.Algebra.Ring.Nat

/-! Blocks of equal size that are dealt out in turn to a number of modules. -/

namespace Sniper.Interleaving

/-- The module of a line. -/
def home (size modules line : Nat) : Nat := line / size % modules

/-- The number of a line among those of its module. -/
def linear (size modules line : Nat) : Nat := line / size / modules * size + line % size

variable {size modules line other target : Nat}

/-- Within a module the numbers increase with the lines. -/
theorem linear_lt (sizePos : 0 < size) (sameHome : home size modules line = home size modules other)
    (later : line < other) : linear size modules line < linear size modules other := by
  have blocks : line / size ≤ other / size := Nat.div_le_div_right (Nat.le_of_lt later)
  have linesOf := Nat.div_add_mod line size
  have othersOf := Nat.div_add_mod other size
  unfold linear
  obtain before | same := Nat.lt_or_eq_of_le blocks
  · have rounds : line / size / modules < other / size / modules := by
      have lineBlock := Nat.div_add_mod (line / size) modules
      have otherBlock := Nat.div_add_mod (other / size) modules
      rw [show line / size % modules = other / size % modules from sameHome] at lineBlock
      exact Nat.lt_of_mul_lt_mul_left (by omega : modules * (line / size / modules) < modules * (other / size / modules))
    have offset := Nat.mod_lt line sizePos
    calc line / size / modules * size + line % size < (line / size / modules + 1) * size := by rw [Nat.succ_mul]; omega
      _ ≤ other / size / modules * size := Nat.mul_le_mul_right size rounds
      _ ≤ other / size / modules * size + other % size := Nat.le_add_right _ _
  · rw [same] at linesOf ⊢
    omega

theorem eq_of_linear (sizePos : 0 < size) (sameHome : home size modules line = home size modules other)
    (same : linear size modules line = linear size modules other) : line = other := by
  obtain before | equal | after := Nat.lt_trichotomy line other
  · exact absurd same (Nat.ne_of_lt (linear_lt sizePos sameHome before))
  · exact equal
  · exact absurd same (Nat.ne_of_gt (linear_lt sizePos sameHome.symm after))

/-- The line after the given one in its module. -/
def next (size modules line : Nat) : Nat :=
  if line % size + 1 < size then line + 1 else (line / size + modules) * size

theorem next_within (within : line % size + 1 < size) :
    (line + 1) / size = line / size ∧ (line + 1) % size = line % size + 1 := by
  have parts := Nat.div_add_mod line size
  apply (Nat.div_mod_unique (by omega)).mpr
  omega

theorem home_next (sizePos : 0 < size) : home size modules (next size modules line) = home size modules line := by
  unfold home next
  split
  case isTrue within => rw [(next_within within).1]
  case isFalse => rw [Nat.mul_div_cancel _ sizePos, Nat.add_mod_right]

theorem linear_next (sizePos : 0 < size) (modulesPos : 0 < modules) :
    linear size modules (next size modules line) = linear size modules line + 1 := by
  have offset := Nat.mod_lt line sizePos
  unfold linear next
  split
  case isTrue within => rw [(next_within within).1, (next_within within).2, Nat.add_assoc]
  case isFalse last =>
    rw [Nat.mul_div_cancel _ sizePos, Nat.mul_mod_left, Nat.add_div_right _ modulesPos, Nat.succ_mul]
    omega

theorem lt_next (sizePos : 0 < size) (modulesPos : 0 < modules) : line < next size modules line := by
  unfold next
  split
  case isTrue => exact Nat.lt_succ_self line
  case isFalse =>
    calc line < line / size * size + size := Nat.lt_div_mul_add sizePos
      _ = (line / size + 1) * size := (Nat.succ_mul _ _).symm
      _ ≤ (line / size + modules) * size := Nat.mul_le_mul_right _ (Nat.add_le_add_left modulesPos _)

/-- No line of the module stands between the two. -/
theorem next_le (sizePos : 0 < size) (sameHome : home size modules line = home size modules other)
    (later : line < other) : next size modules line ≤ other := by
  unfold next
  split
  case isTrue => exact later
  case isFalse last =>
    have offset := Nat.mod_lt line sizePos
    have block : line / size < other / size := by
      apply (Nat.le_div_iff_mul_le sizePos).mpr
      have parts := Nat.div_add_mod line size
      rw [Nat.succ_mul, Nat.mul_comm]
      omega
    have apart : modules ∣ other / size - line / size :=
      Nat.dvd_of_mod_eq_zero (Nat.sub_mod_eq_zero_of_mod_eq sameHome.symm)
    have least := Nat.le_of_dvd (Nat.sub_pos_of_lt block) apart
    exact (Nat.le_div_iff_mul_le sizePos).mp (by omega)

theorem linear_consecutive (sizePos : 0 < size) (modulesPos : 0 < modules)
    (sameHome : home size modules line = home size modules other) (later : line < other)
    (none : ∀ between ≤ other, home size modules between = home size modules line → between ≤ line ∨ other ≤ between) :
    linear size modules other = linear size modules line + 1 := by
  have before := next_le sizePos sameHome later
  have after := @lt_next _ _ line sizePos modulesPos
  have isNext : next size modules line = other := by
    obtain earlier | reached := none _ before (home_next sizePos)
    · omega
    · exact Nat.le_antisymm before reached
  rw [← isNext, linear_next sizePos modulesPos]

/-- The line of a module that has the given number. -/
def lineOf (size modules module target : Nat) : Nat := (target / size * modules + module) * size + target % size

section LineOf

variable {module : Nat}

theorem lineOf_div (sizePos : 0 < size) : lineOf size modules module target / size = target / size * modules + module := by
  unfold lineOf
  rw [Nat.add_comm, Nat.add_mul_div_right _ _ sizePos, Nat.div_eq_of_lt (Nat.mod_lt _ sizePos), Nat.zero_add]

theorem home_lineOf (sizePos : 0 < size) (isModule : module < modules) :
    home size modules (lineOf size modules module target) = module := by
  unfold home
  rw [lineOf_div sizePos, Nat.mul_add_mod_self_right, Nat.mod_eq_of_lt isModule]

theorem linear_lineOf (sizePos : 0 < size) (isModule : module < modules) :
    linear size modules (lineOf size modules module target) = target := by
  have round : (target / size * modules + module) / modules = target / size := by
    rw [Nat.add_comm, Nat.add_mul_div_right _ _ (Nat.zero_lt_of_lt isModule), Nat.div_eq_of_lt isModule, Nat.zero_add]
  have offset : lineOf size modules module target % size = target % size := by
    unfold lineOf
    rw [Nat.mul_add_mod_self_right, Nat.mod_mod]
  unfold linear
  rw [lineOf_div sizePos, round, offset]
  exact Nat.div_add_mod' target size

end LineOf

/-- The numbers up to that of a line are those of the lines of its module up to it. -/
theorem exists_linear (sizePos : 0 < size) (modulesPos : 0 < modules) (before : target ≤ linear size modules line) :
    ∃ earlier ≤ line, home size modules earlier = home size modules line ∧ linear size modules earlier = target := by
  have isModule : home size modules line < modules := Nat.mod_lt _ modulesPos
  have sameHome := @home_lineOf _ _ target _ sizePos isModule
  have isTarget := @linear_lineOf _ _ target _ sizePos isModule
  refine ⟨lineOf size modules (home size modules line) target, Nat.le_of_not_lt fun later => ?_, sameHome, isTarget⟩
  have increases := linear_lt sizePos sameHome.symm later
  omega

end Sniper.Interleaving

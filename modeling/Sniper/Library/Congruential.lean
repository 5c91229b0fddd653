import Mathlib.Data.Int.ModEq
import Mathlib.Logic.Function.Iterate
import Mathlib.Tactic.Ring

/-! Linear congruential generators whose modulus is a power of two.

If the increment is odd and the factor is one more than a multiple of four, the states form a
single cycle. -/

namespace Sniper.Congruential

open Function

def next (factor addend modulus state : Nat) : Nat := (factor * state + addend) % modulus

variable {factor addend : Nat}

/-- The steps without the modulus, taken a power of two at a time. -/
theorem iterate_two_pow (four : factor % 4 = 1) (odd : addend % 2 = 1) (k : Nat) :
    ∃ t s, ∀ state, (fun state => factor * state + addend)^[2 ^ k] state =
      (1 + 2 ^ (k + 2) * t) * state + 2 ^ k * (2 * s + 1) := by
  induction k with
  | zero =>
    refine ⟨factor / 4, addend / 2, fun state => ?_⟩
    have isFactor : 1 + 2 ^ (0 + 2) * (factor / 4) = factor := by omega
    have isAddend : 2 ^ 0 * (2 * (addend / 2) + 1) = addend := by omega
    rw [isFactor, isAddend]
    rfl
  | succ k ih =>
    obtain ⟨t, s, steps⟩ := ih
    refine ⟨t + 2 ^ (k + 1) * t ^ 2, s + 2 ^ k * t * (2 * s + 1), fun state => ?_⟩
    rw [Nat.pow_succ, Nat.mul_two, iterate_add_apply, steps, steps]
    ring

theorem iterate_two_pow_modEq (four : factor % 4 = 1) (odd : addend % 2 = 1) (k state : Nat) :
    (fun state => factor * state + addend)^[2 ^ k] state ≡ state + 2 ^ k [MOD 2 ^ (k + 1)] := by
  obtain ⟨t, s, steps⟩ := iterate_two_pow four odd k
  have split : (1 + 2 ^ (k + 2) * t) * state + 2 ^ k * (2 * s + 1) =
      state + 2 ^ k + 2 ^ (k + 1) * (2 * t * state + s) := by ring
  rw [steps, split]
  simp [Nat.ModEq]

theorem modEq_two_mul {modulus first second : Nat} (same : first ≡ second [MOD modulus]) :
    first ≡ second [MOD modulus * 2] ∨ first + modulus ≡ second [MOD modulus * 2] := by
  obtain ⟨quotient, difference⟩ := (Nat.modEq_iff_dvd.mp same)
  rcases Int.even_or_odd' quotient with ⟨half, even | odd⟩
  · refine .inl (Nat.modEq_iff_dvd.mpr ⟨half, ?_⟩)
    rw [difference, even]
    push_cast
    ring
  · refine .inr (Nat.modEq_iff_dvd.mpr ⟨half, ?_⟩)
    push_cast
    rw [← sub_sub, difference, odd]
    ring

theorem reaches_modEq (four : factor % 4 = 1) (odd : addend % 2 = 1) (k start target : Nat) :
    ∃ n < 2 ^ k, (fun state => factor * state + addend)^[n] start ≡ target [MOD 2 ^ k] := by
  induction k with
  | zero => exact ⟨0, by decide, Nat.modEq_one⟩
  | succ k ih =>
    obtain ⟨n, less, same⟩ := ih
    have double : 2 ^ (k + 1) = 2 ^ k + 2 ^ k := by rw [Nat.pow_succ, Nat.mul_two]
    rcases modEq_two_mul same with there | opposite
    · exact ⟨n, by omega, there⟩
    · refine ⟨2 ^ k + n, by omega, ?_⟩
      rw [iterate_add_apply]
      exact (iterate_two_pow_modEq four odd k _).trans opposite

theorem iterate_next (modulus n state : Nat) : (next factor addend modulus)^[n] state ≡
    (fun state => factor * state + addend)^[n] state [MOD modulus] := by
  induction n with
  | zero => rfl
  | succ n ih =>
    rw [iterate_succ_apply', iterate_succ_apply']
    exact (Nat.mod_modEq _ _).trans ((ih.mul_left factor).add_right addend)

/-- Every state comes up, whatever the seed. -/
theorem reaches (four : factor % 4 = 1) (odd : addend % 2 = 1) {width target : Nat} (start : Nat)
    (small : target < 2 ^ width) :
    ∃ n < 2 ^ width, (next factor addend (2 ^ width))^[n + 1] start = target := by
  obtain ⟨n, less, same⟩ := reaches_modEq four odd width (next factor addend (2 ^ width) start) target
  refine ⟨n, less, ?_⟩
  have reduced : (next factor addend (2 ^ width))^[n + 1] start < 2 ^ width := by
    rw [iterate_succ_apply']
    exact Nat.mod_lt _ (Nat.two_pow_pos width)
  have there := (iterate_next (2 ^ width) n (next factor addend (2 ^ width) start)).trans same
  rw [← iterate_succ_apply] at there
  exact Nat.ModEq.eq_of_lt_of_lt there reduced small

end Sniper.Congruential

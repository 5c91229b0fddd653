import Sniper.Cache.AddressHash
import Sniper.Library.Interleaving

/-! `AddressHomeLookup`: blocks of `2 ^ ahl_param` bytes are dealt out to the home modules in turn. -/

namespace Sniper.CacheBase.AddressHomeLookup

variable {ahl : AddressHomeLookup} {log address : Nat}

/-- `module_num` of `getHome`. -/
def moduleNum (ahl : AddressHomeLookup) (address : Nat) : Nat := (address >>> ahl.ahlParam) % ahl.totalModules

theorem block_of_line (inBlock : log ≤ ahl.ahlParam) : address >>> log / 2 ^ (ahl.ahlParam - log) = address / 2 ^ ahl.ahlParam := by
  rw [Nat.shiftRight_eq_div_pow, Nat.div_div_eq_div_mul, ← Nat.pow_add, Nat.add_sub_cancel' inBlock]

theorem moduleNum_eq (inBlock : log ≤ ahl.ahlParam) :
    ahl.moduleNum address = Interleaving.home (2 ^ (ahl.ahlParam - log)) ahl.totalModules (address >>> log) := by
  unfold moduleNum Interleaving.home
  rw [block_of_line inBlock, Nat.shiftRight_eq_div_pow]

theorem getLinearAddress_line (inBlock : log ≤ ahl.ahlParam) :
    ahl.getLinearAddress address >>> log =
      Interleaving.linear (2 ^ (ahl.ahlParam - log)) ahl.totalModules (address >>> log) := by
  have split : 2 ^ ahl.ahlParam = 2 ^ log * 2 ^ (ahl.ahlParam - log) := by rw [← Nat.pow_add, Nat.add_sub_cancel' inBlock]
  unfold Interleaving.linear
  rw [block_of_line inBlock, getLinearAddress_eq, Nat.shiftRight_eq_div_pow, Nat.shiftRight_eq_div_pow]
  generalize address / 2 ^ ahl.ahlParam / ahl.totalModules = block
  rw [split, Nat.mul_left_comm, Nat.mul_add_div (Nat.two_pow_pos log), Nat.mod_mul_right_div_self]

theorem shiftLeft_le {line : Nat} (upTo : line ≤ address >>> log) : line <<< log ≤ address := by
  rw [Nat.shiftRight_eq_div_pow] at upTo
  rw [Nat.shiftLeft_eq]
  exact (Nat.le_div_iff_mul_le (Nat.two_pow_pos log)).mp upTo

/-- The addresses of one home keep apart, and its lines, of any size up to that of a block, get consecutive numbers:
each gets the number after that of the line before it, and no number before one that is given is left out. -/
theorem getLinearAddress_dense (ahl : AddressHomeLookup) :
    (∀ a < 2 ^ 64, ∀ b < 2 ^ 64, ahl.moduleNum a = ahl.moduleNum b → ahl.getLinearAddress a = ahl.getLinearAddress b → a = b) ∧
      ∀ log ≤ ahl.ahlParam,
        (∀ a < 2 ^ 64, ∀ b < 2 ^ 64, ahl.moduleNum a = ahl.moduleNum b → a >>> log < b >>> log →
          (∀ c < 2 ^ 64, ahl.moduleNum c = ahl.moduleNum a → c >>> log ≤ a >>> log ∨ b >>> log ≤ c >>> log) →
            ahl.getLinearAddress b >>> log = (ahl.getLinearAddress a >>> log) + 1) ∧
        ∀ a < 2 ^ 64, ∀ line ≤ ahl.getLinearAddress a >>> log,
          ∃ b < 2 ^ 64, ahl.moduleNum b = ahl.moduleNum a ∧ ahl.getLinearAddress b >>> log = line := by
  have sizePos (log : Nat) : 0 < 2 ^ (ahl.ahlParam - log) := Nat.two_pow_pos _
  refine ⟨fun a _ b _ home linear => ?_, fun log inBlock => ⟨fun a _ b inSpace home later none => ?_, fun a inSpace line before => ?_⟩⟩
  · have lines := congrArg (fun address => address >>> 0) linear
    simp only [getLinearAddress_line (Nat.zero_le _)] at lines
    rw [moduleNum_eq (Nat.zero_le _), moduleNum_eq (Nat.zero_le _)] at home
    exact Interleaving.eq_of_linear (sizePos 0) home lines
  · rw [moduleNum_eq inBlock, moduleNum_eq inBlock] at home
    rw [getLinearAddress_line inBlock, getLinearAddress_line inBlock]
    refine Interleaving.linear_consecutive (sizePos log) ahl.totalModules_pos home later fun between upTo sameHome => ?_
    have line := none (between <<< log) (Nat.lt_of_le_of_lt (shiftLeft_le upTo) inSpace)
    rw [moduleNum_eq inBlock, moduleNum_eq inBlock, Nat.shiftLeft_shiftRight] at line
    exact line sameHome
  · rw [getLinearAddress_line inBlock] at before
    obtain ⟨earlier, upTo, sameHome, isLine⟩ := Interleaving.exists_linear (sizePos log) ahl.totalModules_pos before
    refine ⟨earlier <<< log, Nat.lt_of_le_of_lt (shiftLeft_le upTo) inSpace, ?_, ?_⟩
    · rw [moduleNum_eq inBlock, moduleNum_eq inBlock, Nat.shiftLeft_shiftRight, sameHome]
    · rw [getLinearAddress_line inBlock, Nat.shiftLeft_shiftRight, isLine]

/-- Lines 0 and 3, of 64 bytes, are dealt out to the first of three modules. -/
theorem getLinearAddress_dense_threeModules :
    getLinearAddress ⟨6, Nat.le_add_right 7 57, 3, Nat.succ_pos 2⟩ 192 >>> 6 =
      (getLinearAddress ⟨6, Nat.le_add_right 7 57, 3, Nat.succ_pos 2⟩ 0 >>> 6) + 1 := by
  refine ((getLinearAddress_dense _).2 6 (Nat.le_refl 6)).1 0 (by decide) 192 (by decide) rfl (by decide) fun c _ home => ?_
  have first : (c >>> 6) % 3 = 0 := home
  omega

end Sniper.CacheBase.AddressHomeLookup

import Mathlib.Algebra.Ring.Nat
import Mathlib.Algebra.Ring.Parity
import Mathlib.Data.Nat.Bitwise
import Mathlib.Data.Nat.Factorization.Basic
import Mathlib.Tactic.Ring

/-! `CacheBase`: how a cache finds the set of an address.

Machine integers are naturals: an `IntPtr` is below `2 ^ 64`, a `UInt32` below `2 ^ 32`. -/

namespace Sniper

/-- `CacheBase::hash_t` -/
inductive AddressHash where
  | mask
  | mod
  | rng1Mod
  | rng2Mod
  | primeDis
  | xorMod
  | merMod
deriving DecidableEq, Repr

namespace CacheBase

inductive Fault where
  /-- "Caches of non-power of 2 size need funky hash function" -/
  | nonPowerOfTwo
  /-- A `%` by zero. -/
  | moduloByZero
deriving DecidableEq, Repr

/-! ## Helpers of the source -/

/-- A test of `floorLog2`, on the position that is found so far and the bits that are left. -/
def floorLog2Test (mask shift : Nat) (found : Nat × Nat) : Nat × Nat :=
  if found.2 &&& mask ≠ 0 then (found.1 + shift, found.2 >>> shift) else found

def floorLog2 (n : Nat) : Int :=
  if n = 0 then -1
  else
    (floorLog2Test 0x00000002 1 (floorLog2Test 0x0000000c 2 (floorLog2Test 0x000000f0 4
      (floorLog2Test 0x0000ff00 8 (floorLog2Test 0xffff0000 16 (0, n)))))).1

/-- The conversion of an `SInt32`. -/
def toUInt32 (value : Int) : Nat := (value % 2 ^ 32).toNat

/-- `- 1` of a `UInt32`. -/
def decrement (value : Nat) : Nat := (value + (2 ^ 32 - 1)) % 2 ^ 32

theorem decrement_eq {value : Nat} (pos : 0 < value) (small : value < 2 ^ 32) : decrement value = value - 1 := by
  unfold decrement
  omega

/-- `>>` of 64 bits, which takes the count modulo 64 as the processor does. -/
def shiftRight (value count : Nat) : Nat := value >>> (count % 64)

def rngSeed (seed : Nat) : Nat := (seed * 2 ^ 16 + 0x330E) % 2 ^ 64

/-- The next state of the generator; the number drawn is this state without its lower 16 bits. -/
def rngNext (state : Nat) : Nat := (0x5DEECE66D * state + 0xB) % 2 ^ 64 &&& (2 ^ 48 - 1)

/-- `AddressHomeLookup`, which has at least one module. -/
structure AddressHomeLookup where
  ahlParam : Nat
  ahlParam_lt : ahlParam < 64
  totalModules : Nat
  totalModules_pos : 0 < totalModules

def AddressHomeLookup.getLinearBlock (ahl : AddressHomeLookup) (address : Nat) : Nat :=
  (address >>> ahl.ahlParam) / ahl.totalModules

def AddressHomeLookup.getLinearAddress (ahl : AddressHomeLookup) (address : Nat) : Nat :=
  ahl.getLinearBlock address <<< ahl.ahlParam ||| (address &&& (2 ^ ahl.ahlParam - 1))

/-! ## The cache -/

structure State where
  numSets : Nat
  logBlocksize : Nat
  logNumSets : Nat
  hash : AddressHash
  ahl : Option AddressHomeLookup

/-- The constructor. -/
def create (numSets cacheBlockSize : Nat) (hash : AddressHash) (ahl : Option AddressHomeLookup) : Except Fault State :=
  if numSets = 2 ^ (floorLog2 numSets).toNat ∨ hash ≠ .mask then
    .ok { numSets, logBlocksize := toUInt32 (floorLog2 cacheBlockSize), logNumSets := toUInt32 (floorLog2 numSets), hash, ahl }
  else .error .nonPowerOfTwo

def State.linearAddress (cache : State) (address : Nat) : Nat :=
  match cache.ahl with
  | some ahl => ahl.getLinearAddress address
  | none => address

def State.blockNum (cache : State) (address : Nat) : Nat :=
  shiftRight (cache.linearAddress address) cache.logBlocksize

def modulo (value modulus : Nat) : Except Fault Nat :=
  if modulus = 0 then .error .moduloByZero else .ok (value % modulus)

/-- The `switch` of `splitAddress`, in 64 bits. -/
def State.hashBlock (cache : State) (blockNum : Nat) : Except Fault Nat :=
  match cache.hash with
  | .mask => .ok (blockNum &&& decrement cache.numSets)
  | .mod => modulo blockNum cache.numSets
  | .rng1Mod => modulo (rngNext (rngSeed blockNum) >>> 16) cache.numSets
  | .rng2Mod => modulo (rngNext (rngNext (rngSeed blockNum)) >>> 16) cache.numSets
  | .primeDis => do
      let si ← modulo blockNum cache.numSets
      let ti := shiftRight blockNum cache.logNumSets
      modulo ((3 * ti + si) % 2 ^ 64) cache.numSets
  | .xorMod => do
      let si ← modulo blockNum cache.numSets
      let ti ← modulo (shiftRight blockNum cache.logNumSets) cache.numSets
      return si ^^^ ti
  | .merMod => modulo blockNum (decrement cache.numSets)

def State.splitAddress (cache : State) (address : Nat) : Except Fault (Nat × Nat) := do
  let setIndex ← cache.hashBlock (cache.blockNum address)
  return (shiftRight address cache.logBlocksize, setIndex % 2 ^ 32)

/-! ## Powers of two -/

theorem and_upper_half {half n : Nat} (small : n < 2 ^ (half + half)) :
    n &&& ((2 ^ half - 1) <<< half) = (n >>> half) <<< half := by
  have upper : n >>> half < 2 ^ half := by
    rw [Nat.shiftRight_eq_div_pow]
    exact Nat.div_lt_of_lt_mul (by rwa [← Nat.pow_add])
  apply Nat.eq_of_testBit_eq
  intro bit
  rw [Nat.testBit_and, Nat.testBit_shiftLeft, Nat.testBit_shiftLeft, Nat.testBit_two_pow_sub_one, Nat.testBit_shiftRight]
  by_cases high : half ≤ bit
  · rw [Nat.add_sub_cancel' high]
    by_cases inside : bit - half < half
    · simp [high, inside]
    · have outside : n.testBit bit = false := by
        apply Nat.testBit_lt_two_pow
        exact Nat.lt_of_lt_of_le small (Nat.pow_le_pow_right (by decide) (by omega))
      simp [outside]
  · simp [high]

/-- The bits that are left, of which the highest one is wanted at the given position. -/
structure Narrowed (position bits : Nat) (found : Nat × Nat) : Prop where
  highest : found.1 + found.2.log2 = position
  small : found.2 < 2 ^ bits
  pos : 0 < found.2

theorem Narrowed.test {position half mask : Nat} {found : Nat × Nat} (narrowed : Narrowed position (half + half) found)
    (isMask : mask = (2 ^ half - 1) <<< half) : Narrowed position half (floorLog2Test mask half found) := by
  obtain ⟨highest, small, pos⟩ := narrowed
  unfold floorLog2Test
  rw [isMask, and_upper_half small, Nat.shiftLeft_eq, Nat.shiftRight_eq_div_pow]
  have twoPow : 0 < 2 ^ half := Nat.two_pow_pos half
  split
  case isTrue high =>
    have large : 2 ^ half ≤ found.2 := by
      apply Nat.le_of_not_lt
      intro low
      rw [Nat.div_eq_of_lt low, Nat.zero_mul] at high
      exact high rfl
    have upper : 0 < found.2 / 2 ^ half := Nat.div_pos large twoPow
    have shifted : found.2.log2 = (found.2 / 2 ^ half).log2 + half := by
      have bounds := (@Nat.log2_eq_iff (found.2 / 2 ^ half) (found.2 / 2 ^ half).log2 (by omega)).mp rfl
      apply (Nat.log2_eq_iff (by omega)).mpr
      constructor
      · rw [Nat.pow_add]
        exact (Nat.le_div_iff_mul_le twoPow).mp bounds.1
      · rw [Nat.add_right_comm, Nat.pow_add]
        exact (Nat.div_lt_iff_lt_mul twoPow).mp bounds.2
    exact ⟨by dsimp only; omega, Nat.div_lt_of_lt_mul (by rwa [← Nat.pow_add]), upper⟩
  case isFalse low =>
    refine ⟨highest, ?_, pos⟩
    apply Nat.lt_of_not_le
    intro large
    have upper : 0 < found.2 / 2 ^ half := Nat.div_pos large twoPow
    exact low (Nat.mul_ne_zero (by omega) (by omega))

theorem floorLog2_eq {n : Nat} (small : n < 2 ^ 32) (pos : 0 < n) : floorLog2 n = n.log2 := by
  have start : Narrowed n.log2 32 (0, n) := ⟨Nat.zero_add _, small, pos⟩
  have bits16 := @Narrowed.test _ 16 0xffff0000 _ start rfl
  have bits8 := @Narrowed.test _ 8 0x0000ff00 _ bits16 rfl
  have bits4 := @Narrowed.test _ 4 0x000000f0 _ bits8 rfl
  have bits2 := @Narrowed.test _ 2 0x0000000c _ bits4 rfl
  have last := @Narrowed.test _ 1 0x00000002 _ bits2 rfl
  unfold floorLog2
  rw [if_neg (Nat.ne_of_gt pos)]
  obtain ⟨highest, small, pos⟩ := last
  rw [show (floorLog2Test 2 1 (floorLog2Test 12 2 (floorLog2Test 240 4 (floorLog2Test 65280 8
    (floorLog2Test 4294901760 16 (0, n)))))).2 = 1 by omega] at highest
  exact_mod_cast highest

/-! ## The xor of two residues -/

/-- What `HASH_XOR_MOD` computes. -/
def xorIndex (sets block : Nat) : Nat := (block % sets) ^^^ (block / 2 ^ sets.log2 % sets)

theorem xor_div_two_pow (x y low : Nat) : (x ^^^ y) / 2 ^ low = (x / 2 ^ low) ^^^ (y / 2 ^ low) := by
  simp only [← Nat.shiftRight_eq_div_pow, Nat.shiftRight_xor_distrib]

theorem xor_one_cases (x : Nat) : x % 2 = 0 ∧ x ^^^ 1 = x + 1 ∨ x % 2 = 1 ∧ x ^^^ 1 = x - 1 := by
  obtain even | odd := Nat.even_or_odd x
  · exact .inl ⟨Nat.even_iff.mp even, Nat.xor_one_of_even even⟩
  · exact .inr ⟨Nat.odd_iff.mp odd, Nat.xor_one_of_odd odd⟩

section Odd

/-! A number of sets that is a power of two, times an odd number. -/

variable {low odd log block : Nat}

theorem xorIndex_upper (isLog : (2 ^ low * odd).log2 = log) (small : block / 2 ^ log < 2 ^ low * odd) :
    xorIndex (2 ^ low * odd) block / 2 ^ low = (block / 2 ^ low % odd) ^^^ (block / 2 ^ (log + low)) := by
  unfold xorIndex
  rw [isLog, xor_div_two_pow, Nat.mod_eq_of_lt small, Nat.mod_mul_right_div_self, Nat.div_div_eq_div_mul, ← Nat.pow_add]

variable (odd log) in
/-- The first multiple of the odd number past the power of two, less one. -/
def firstUpper : Nat := odd * (2 ^ log / odd + 1) - 1

theorem firstUpper_least {upper : Nat} (pos : 0 < odd) (late : 2 ^ log ≤ upper) (last : upper % odd = odd - 1) :
    firstUpper odd log ≤ upper := by
  have divides : upper + 1 = odd * (upper / odd + 1) := by
    have parts := Nat.div_add_mod upper odd
    rw [Nat.mul_add]
    omega
  have quotient : 2 ^ log / odd + 1 ≤ upper / odd + 1 := Nat.succ_le_succ (Nat.div_le_div_right late)
  have multiple := Nat.mul_le_mul_left odd quotient
  unfold firstUpper
  omega

theorem firstUpper_mod (pos : 0 < odd) : firstUpper odd log % odd = odd - 1 := by
  have parts : firstUpper odd log = odd - 1 + odd * (2 ^ log / odd) := by
    unfold firstUpper
    rw [Nat.mul_add]
    omega
  rw [parts, Nat.add_mul_mod_self_left, Nat.mod_eq_of_lt (by omega)]

theorem le_firstUpper (pos : 0 < odd) : 2 ^ log ≤ firstUpper odd log := by
  have rest := Nat.mod_lt (2 ^ log) pos
  have parts := Nat.div_add_mod (2 ^ log) odd
  unfold firstUpper
  rw [Nat.mul_add]
  omega

theorem firstUpper_lt (more : 1 < odd) (below : 2 ^ low * odd < 2 ^ (log + 1)) : firstUpper odd log < 2 ^ (log + 1) := by
  have parts := Nat.mul_div_le (2 ^ log) odd
  unfold firstUpper
  rw [Nat.mul_add]
  cases low with
  | zero =>
    by_cases small : odd ≤ 2 ^ log
    · omega
    · rw [Nat.div_eq_of_lt (by omega)]
      omega
  | succ low =>
    have twice : 2 * odd ≤ 2 ^ (low + 1) * odd :=
      Nat.mul_le_mul_right odd (by have := Nat.two_pow_pos low; omega)
    omega

theorem upper_small {block : Nat} (more : 1 < odd) (below : 2 ^ low * odd < 2 ^ (log + 1))
    (early : block ≤ 2 ^ low * firstUpper odd log) :
    block / 2 ^ low < 2 ^ (log + 1) ∧ block / 2 ^ log < 2 ^ low * odd := by
  have first := firstUpper_lt more below
  have twoPow : 0 < 2 ^ low := Nat.two_pow_pos low
  have upper : block / 2 ^ low < 2 ^ (log + 1) :=
    Nat.lt_of_le_of_lt (Nat.div_le_of_le_mul early) first
  refine ⟨upper, ?_⟩
  have bound : block < 2 ^ log * (2 ^ low * 2) := by
    calc block < 2 ^ (log + 1) * 2 ^ low := (Nat.div_lt_iff_lt_mul twoPow).mp upper
      _ = 2 ^ log * (2 ^ low * 2) := by ring
  calc block / 2 ^ log < 2 ^ low * 2 := Nat.div_lt_of_lt_mul bound
    _ ≤ 2 ^ low * odd := Nat.mul_le_mul_left _ more

theorem xorIndex_upper_cases (isLog : (2 ^ low * odd).log2 = log) (more : 1 < odd)
    (below : 2 ^ low * odd < 2 ^ (log + 1)) (early : block ≤ 2 ^ low * firstUpper odd log) :
    block / 2 ^ low < 2 ^ log ∧ xorIndex (2 ^ low * odd) block / 2 ^ low = block / 2 ^ low % odd ∨
      2 ^ log ≤ block / 2 ^ low ∧ xorIndex (2 ^ low * odd) block / 2 ^ low = (block / 2 ^ low % odd) ^^^ 1 := by
  obtain ⟨upper, small⟩ := upper_small more below early
  rw [xorIndex_upper isLog small, Nat.add_comm log low, Nat.pow_add, ← Nat.div_div_eq_div_mul]
  have twoPow : 0 < 2 ^ log := Nat.two_pow_pos log
  by_cases under : block / 2 ^ low < 2 ^ log
  · rw [Nat.div_eq_of_lt under, Nat.xor_zero]
    exact .inl ⟨under, rfl⟩
  · have late := Nat.le_of_not_lt under
    have one : block / 2 ^ low / 2 ^ log = 1 := by
      have atLeast := Nat.div_pos late twoPow
      have atMost : block / 2 ^ low / 2 ^ log < 2 :=
        (Nat.div_lt_iff_lt_mul twoPow).mpr (by rwa [Nat.mul_comm, ← Nat.pow_succ])
      omega
    rw [one]
    exact .inr ⟨late, rfl⟩

theorem xorIndex_lt (isLog : (2 ^ low * odd).log2 = log) (isOdd : odd % 2 = 1) (more : 1 < odd)
    (below : 2 ^ low * odd < 2 ^ (log + 1)) (early : block < 2 ^ low * firstUpper odd log) :
    xorIndex (2 ^ low * odd) block < 2 ^ low * odd := by
  have twoPow : 0 < 2 ^ low := Nat.two_pow_pos low
  have upper : xorIndex (2 ^ low * odd) block / 2 ^ low < odd := by
    have residue := Nat.mod_lt (block / 2 ^ low) (Nat.zero_lt_of_lt more)
    obtain ⟨-, same⟩ | ⟨late, flipped⟩ := xorIndex_upper_cases isLog more below (Nat.le_of_lt early)
    · rw [same]
      exact residue
    · have notLast : block / 2 ^ low % odd ≠ odd - 1 := by
        intro last
        have least := firstUpper_least (Nat.zero_lt_of_lt more) late last
        have first : block / 2 ^ low < firstUpper odd log := Nat.div_lt_of_lt_mul early
        omega
      obtain ⟨-, next⟩ | ⟨-, previous⟩ := xor_one_cases (block / 2 ^ low % odd)
      · rw [flipped, next]
        omega
      · rw [flipped, previous]
        omega
  rw [Nat.mul_comm (2 ^ low) odd] at upper ⊢
  exact (Nat.div_lt_iff_lt_mul twoPow).mp upper

theorem le_xorIndex (isLog : (2 ^ low * odd).log2 = log) (isOdd : odd % 2 = 1) (more : 1 < odd)
    (below : 2 ^ low * odd < 2 ^ (log + 1)) :
    2 ^ low * odd ≤ xorIndex (2 ^ low * odd) (2 ^ low * firstUpper odd log) := by
  have twoPow : 0 < 2 ^ low := Nat.two_pow_pos low
  have pos := Nat.zero_lt_of_lt more
  have upper : odd ≤ xorIndex (2 ^ low * odd) (2 ^ low * firstUpper odd log) / 2 ^ low := by
    have cases := xorIndex_upper_cases isLog more below (Nat.le_refl (2 ^ low * firstUpper odd log))
    rw [Nat.mul_div_cancel_left _ twoPow, firstUpper_mod pos] at cases
    obtain ⟨early, -⟩ | ⟨-, flipped⟩ := cases
    · exact absurd (le_firstUpper pos) (Nat.not_le.mpr early)
    · obtain ⟨-, next⟩ | ⟨even, -⟩ := xor_one_cases (odd - 1)
      · rw [flipped, next]
        omega
      · omega
  rw [Nat.mul_comm (2 ^ low) odd] at upper ⊢
  exact (Nat.le_div_iff_mul_le twoPow).mp upper

end Odd
def lowestBit (sets : Nat) : Nat := sets.gcd (2 ^ 32)

/-- The first block for which the xor of the residues is not below the number of sets, if that is no power of two. -/
def firstAliased (sets : Nat) : Nat := lowestBit sets * firstUpper (sets / lowestBit sets) sets.log2

theorem odd_factor {sets : Nat} (pos : 0 < sets) (small : sets < 2 ^ 32) (noPower : sets ≠ 2 ^ sets.log2) :
    ∃ low odd, sets = 2 ^ low * odd ∧ odd % 2 = 1 ∧ 1 < odd ∧ lowestBit sets = 2 ^ low := by
  obtain ⟨low, odd, isOdd, parts⟩ := Nat.exists_eq_two_pow_mul_odd (Nat.ne_of_gt pos)
  have odd2 := Nat.odd_iff.mp isOdd
  have more : 1 < odd := by
    apply Nat.lt_of_le_of_ne (by omega)
    intro one
    rw [← one, Nat.mul_one] at parts
    rw [parts, Nat.log2_two_pow] at noPower
    exact noPower rfl
  have lowSmall : low < 32 := by
    apply (Nat.pow_lt_pow_iff_right (by decide : 1 < 2)).mp
    calc 2 ^ low = 2 ^ low * 1 := (Nat.mul_one _).symm
      _ ≤ 2 ^ low * odd := Nat.mul_le_mul_left _ (Nat.le_of_lt more)
      _ < 2 ^ 32 := parts ▸ small
  refine ⟨low, odd, parts, odd2, more, ?_⟩
  have split : 2 ^ 32 = 2 ^ low * 2 ^ (32 - low) := by rw [← Nat.pow_add, Nat.add_sub_cancel' (by omega)]
  have coprime : odd.Coprime (2 ^ (32 - low)) := Nat.Coprime.pow_right _ (Nat.coprime_two_right.mpr isOdd)
  unfold lowestBit
  rw [parts, split, Nat.gcd_mul_left, coprime, Nat.mul_one]

theorem xorIndex_lt_iff {sets last : Nat} (pos : 0 < sets) (small : sets < 2 ^ 32) :
    (∀ block ≤ last, xorIndex sets block < sets) ↔ sets = 2 ^ sets.log2 ∨ last < firstAliased sets := by
  by_cases power : sets = 2 ^ sets.log2
  · refine ⟨fun _ => .inl power, fun _ block _ => ?_⟩
    have residue (value : Nat) : value % sets < 2 ^ sets.log2 := by
      rw [← power]
      exact Nat.mod_lt value pos
    calc xorIndex sets block < 2 ^ sets.log2 := Nat.xor_lt_two_pow (residue _) (residue _)
      _ = sets := power.symm
  · obtain ⟨low, odd, parts, isOdd, more, isLowest⟩ := odd_factor pos small power
    have below : sets < 2 ^ (sets.log2 + 1) := Nat.lt_log2_self
    have first : firstAliased sets = 2 ^ low * firstUpper odd sets.log2 := by
      unfold firstAliased
      rw [isLowest]
      congr 2
      rw [parts, Nat.mul_div_cancel_left _ (Nat.two_pow_pos low)]
    generalize isLog : sets.log2 = log at below first power
    rw [first]
    subst parts
    constructor
    · intro inRange
      refine .inr (Nat.lt_of_not_le fun reached => ?_)
      exact absurd (le_xorIndex isLog isOdd more below) (Nat.not_le.mpr (inRange _ reached))
    · intro early block before
      have late := early.resolve_left power
      exact xorIndex_lt isLog isOdd more below (by omega)

/-! ## The blocks of the address space -/

theorem getLinearAddress_eq (ahl : AddressHomeLookup) (address : Nat) :
    ahl.getLinearAddress address =
      address / 2 ^ ahl.ahlParam / ahl.totalModules * 2 ^ ahl.ahlParam + address % 2 ^ ahl.ahlParam := by
  unfold AddressHomeLookup.getLinearAddress AddressHomeLookup.getLinearBlock
  rw [Nat.and_two_pow_sub_one_eq_mod, Nat.shiftRight_eq_div_pow,
    ← Nat.shiftLeft_add_eq_or_of_lt (Nat.mod_lt _ (Nat.two_pow_pos _)), Nat.shiftLeft_eq]

theorem last_address {param : Nat} (isParam : param < 64) :
    (2 ^ 64 - 1) / 2 ^ param = 2 ^ (64 - param) - 1 ∧ (2 ^ 64 - 1) % 2 ^ param = 2 ^ param - 1 := by
  have split : 2 ^ 64 = 2 ^ param * 2 ^ (64 - param) := by rw [← Nat.pow_add, Nat.add_sub_cancel' (by omega)]
  have twoPow : 0 < 2 ^ param := Nat.two_pow_pos param
  have upper : 0 < 2 ^ (64 - param) := Nat.two_pow_pos _
  have parts : 2 ^ 64 - 1 = 2 ^ param - 1 + 2 ^ param * (2 ^ (64 - param) - 1) := by
    have below : 2 ^ param ≤ 2 ^ param * 2 ^ (64 - param) := Nat.le_mul_of_pos_right _ upper
    rw [Nat.mul_sub, Nat.mul_one, ← split]
    omega
  rw [parts, Nat.add_mul_div_left _ _ twoPow, Nat.add_mul_mod_self_left]
  have small : 2 ^ param - 1 < 2 ^ param := by omega
  rw [Nat.div_eq_of_lt small, Nat.mod_eq_of_lt small, Nat.zero_add]
  exact ⟨rfl, rfl⟩

theorem linearAddress_le (cache : State) {address : Nat} (inSpace : address < 2 ^ 64) :
    cache.linearAddress address ≤ cache.linearAddress (2 ^ 64 - 1) := by
  unfold State.linearAddress
  cases cache.ahl with
  | none => dsimp only; omega
  | some ahl =>
    dsimp only
    have twoPow : 0 < 2 ^ ahl.ahlParam := Nat.two_pow_pos _
    have rest := Nat.mod_lt address twoPow
    rw [getLinearAddress_eq, getLinearAddress_eq, (last_address ahl.ahlParam_lt).2]
    have block : address / 2 ^ ahl.ahlParam / ahl.totalModules ≤ (2 ^ 64 - 1) / 2 ^ ahl.ahlParam / ahl.totalModules :=
      Nat.div_le_div_right (Nat.div_le_div_right (by omega))
    exact Nat.add_le_add (Nat.mul_le_mul_right _ block) (by omega)

theorem exists_linearAddress (cache : State) {linear : Nat} (reached : linear ≤ cache.linearAddress (2 ^ 64 - 1)) :
    ∃ address < 2 ^ 64, cache.linearAddress address = linear := by
  unfold State.linearAddress at reached ⊢
  cases isAhl : cache.ahl with
  | none =>
    rw [isAhl] at reached
    dsimp only at reached ⊢
    exact ⟨linear, by omega, rfl⟩
  | some ahl =>
    rw [isAhl] at reached
    dsimp only at reached ⊢
    have twoPow : 0 < 2 ^ ahl.ahlParam := Nat.two_pow_pos _
    have rest := Nat.mod_lt linear twoPow
    obtain ⟨isLast, lastRest⟩ := last_address ahl.ahlParam_lt
    have block : linear / 2 ^ ahl.ahlParam ≤ (2 ^ (64 - ahl.ahlParam) - 1) / ahl.totalModules := by
      rw [getLinearAddress_eq, isLast, lastRest] at reached
      apply Nat.le_of_lt_succ
      apply (Nat.div_lt_iff_lt_mul twoPow).mpr
      rw [Nat.succ_mul]
      omega
    have whole : linear / 2 ^ ahl.ahlParam * ahl.totalModules ≤ 2 ^ (64 - ahl.ahlParam) - 1 :=
      (Nat.le_div_iff_mul_le ahl.totalModules_pos).mp block
    refine ⟨linear % 2 ^ ahl.ahlParam + 2 ^ ahl.ahlParam * (linear / 2 ^ ahl.ahlParam * ahl.totalModules), ?_, ?_⟩
    · have split : 2 ^ 64 = 2 ^ ahl.ahlParam * 2 ^ (64 - ahl.ahlParam) := by
        rw [← Nat.pow_add, Nat.add_sub_cancel' (Nat.le_of_lt ahl.ahlParam_lt)]
      have upper : 0 < 2 ^ (64 - ahl.ahlParam) := Nat.two_pow_pos _
      have below : linear / 2 ^ ahl.ahlParam * ahl.totalModules + 1 ≤ 2 ^ (64 - ahl.ahlParam) := by omega
      have blocks := Nat.mul_le_mul_left (2 ^ ahl.ahlParam) below
      rw [← split, Nat.mul_add, Nat.mul_one] at blocks
      omega
    · rw [getLinearAddress_eq, Nat.add_mul_div_left _ _ twoPow, Nat.add_mul_mod_self_left, Nat.div_eq_of_lt rest,
        Nat.zero_add, Nat.mul_div_cancel _ ahl.totalModules_pos, Nat.mod_mod, Nat.mul_comm]
      exact Nat.div_add_mod linear _

theorem forall_blockNum {cache : State} {holds : Nat → Prop} :
    (∀ address < 2 ^ 64, holds (cache.blockNum address)) ↔ ∀ block ≤ cache.blockNum (2 ^ 64 - 1), holds block := by
  unfold State.blockNum shiftRight
  simp only [Nat.shiftRight_eq_div_pow]
  generalize cache.logBlocksize % 64 = bits
  have twoPow : 0 < 2 ^ bits := Nat.two_pow_pos bits
  constructor
  · intro all block before
    have reached : block * 2 ^ bits ≤ cache.linearAddress (2 ^ 64 - 1) := (Nat.le_div_iff_mul_le twoPow).mp before
    obtain ⟨address, inSpace, isLinear⟩ := exists_linearAddress cache reached
    have there := all address inSpace
    rwa [isLinear, Nat.mul_div_cancel _ twoPow] at there
  · intro all address inSpace
    exact all _ (Nat.div_le_div_right (linearAddress_le cache inSpace))

/-! ## The set of an address -/

def State.FindsSet (cache : State) (address : Nat) : Prop :=
  ∃ tag setIndex, cache.splitAddress address = .ok (tag, setIndex) ∧ setIndex < cache.numSets

theorem findsSet_iff {cache : State} {address : Nat} :
    cache.FindsSet address ↔ ∃ index, cache.hashBlock (cache.blockNum address) = .ok index ∧ index % 2 ^ 32 < cache.numSets := by
  unfold State.FindsSet State.splitAddress
  cases cache.hashBlock (cache.blockNum address) with
  | error reason => simp [bind, Except.bind]
  | ok index => simp [bind, Except.bind, pure, Except.pure]

theorem findsSet_of_modulo {cache : State} {address value modulus : Nat} (small : cache.numSets < 2 ^ 32)
    (hashed : cache.hashBlock (cache.blockNum address) = modulo value modulus) (pos : 0 < modulus)
    (most : modulus ≤ cache.numSets) : cache.FindsSet address := by
  have residue := Nat.mod_lt value pos
  rw [modulo, if_neg (Nat.ne_of_gt pos)] at hashed
  exact findsSet_iff.mpr ⟨_, hashed, by omega⟩

theorem create_ok {numSets cacheBlockSize : Nat} {hash : AddressHash} {ahl : Option AddressHomeLookup} {cache : State}
    (pos : 0 < numSets) (small : numSets < 2 ^ 32) (created : create numSets cacheBlockSize hash ahl = .ok cache) :
    cache.numSets = numSets ∧ cache.hash = hash ∧ cache.logNumSets = numSets.log2 ∧
      (hash = .mask → numSets = 2 ^ numSets.log2) := by
  unfold create at created
  rw [floorLog2_eq small pos] at created
  split at created
  case isTrue admitted =>
    cases created
    have logSmall : numSets.log2 < 32 := (Nat.log2_lt (Nat.ne_of_gt pos)).mpr small
    refine ⟨rfl, rfl, ?_, fun isMask => admitted.resolve_right fun other => other isMask⟩
    unfold toUInt32
    dsimp only
    omega
  case isFalse => cases created

/-- The set is found for all addresses, but for one set under `HASH_MER_MOD`, and under `HASH_XOR_MOD` for a number of
sets that is no power of two in an address space that gets to the first block where the xor of the residues is too large. -/
theorem splitAddress_findsSet_iff {numSets cacheBlockSize : Nat} {hash : AddressHash} {ahl : Option AddressHomeLookup}
    {cache : State} (pos : 0 < numSets) (small : numSets < 2 ^ 32)
    (created : create numSets cacheBlockSize hash ahl = .ok cache) :
    (∀ address < 2 ^ 64, cache.FindsSet address) ↔
      (hash = .merMod → numSets ≠ 1) ∧
        (hash = .xorMod → numSets = 2 ^ numSets.log2 ∨ cache.blockNum (2 ^ 64 - 1) < firstAliased numSets) := by
  obtain ⟨rfl, rfl, isLog, power⟩ := create_ok pos small created
  have logSmall : cache.numSets.log2 % 64 = cache.numSets.log2 :=
    Nat.mod_eq_of_lt (Nat.lt_trans ((Nat.log2_lt (Nat.ne_of_gt pos)).mpr small) (by decide))
  cases isHash : cache.hash with
  | mask =>
    simp only [reduceCtorEq, false_implies, and_self, iff_true]
    intro address inSpace
    have isPower := power isHash
    have residue := Nat.mod_lt (cache.blockNum address) pos
    have hashed : cache.hashBlock (cache.blockNum address) = .ok (cache.blockNum address % cache.numSets) := by
      simp only [State.hashBlock, isHash, decrement_eq pos small]
      rw [isPower, Nat.and_two_pow_sub_one_eq_mod]
    exact findsSet_iff.mpr ⟨_, hashed, by omega⟩
  | mod | rng1Mod | rng2Mod =>
    simp only [reduceCtorEq, false_implies, and_self, iff_true]
    intro address inSpace
    exact findsSet_of_modulo small (by simp only [State.hashBlock, isHash]; rfl) pos (Nat.le_refl _)
  | primeDis =>
    simp only [reduceCtorEq, false_implies, and_self, iff_true]
    intro address inSpace
    have si : modulo (cache.blockNum address) cache.numSets = .ok (cache.blockNum address % cache.numSets) :=
      if_neg (Nat.ne_of_gt pos)
    exact findsSet_of_modulo small (by simp only [State.hashBlock, isHash, si]; rfl) pos (Nat.le_refl _)
  | xorMod =>
    simp only [reduceCtorEq, false_implies, forall_const, true_and]
    rw [← xorIndex_lt_iff pos small, ← forall_blockNum]
    refine forall₂_congr fun address inSpace => ?_
    have residue (value : Nat) : modulo value cache.numSets = .ok (value % cache.numSets) := if_neg (Nat.ne_of_gt pos)
    have hashed : cache.hashBlock (cache.blockNum address) = .ok (xorIndex cache.numSets (cache.blockNum address)) := by
      simp only [State.hashBlock, isHash, residue, bind, Except.bind, pure, Except.pure, xorIndex]
      rw [shiftRight, isLog, logSmall, Nat.shiftRight_eq_div_pow]
    have index : xorIndex cache.numSets (cache.blockNum address) < 2 ^ 32 :=
      Nat.xor_lt_two_pow (Nat.lt_trans (Nat.mod_lt _ pos) small) (Nat.lt_trans (Nat.mod_lt _ pos) small)
    rw [findsSet_iff, hashed]
    simp only [Except.ok.injEq, exists_eq_left', Nat.mod_eq_of_lt index]
  | merMod =>
    simp only [reduceCtorEq, false_implies, forall_const, and_true]
    constructor
    · intro found one
      obtain ⟨index, hashed, -⟩ := findsSet_iff.mp (found 0 (by decide))
      simp [State.hashBlock, isHash, modulo, decrement, one] at hashed
    · intro more address inSpace
      have isLess := decrement_eq pos small
      exact findsSet_of_modulo small (by simp only [State.hashBlock, isHash]; rfl) (by omega) (by omega)

/-- Three sets and lines of 64 bytes: line 2 is put into set 3. -/
theorem splitAddress_outside : ¬∀ (numSets cacheBlockSize : Nat) (hash : AddressHash) (ahl : Option AddressHomeLookup) (cache : State),
    0 < numSets → numSets < 2 ^ 32 → create numSets cacheBlockSize hash ahl = .ok cache →
      ∀ address < 2 ^ 64, cache.FindsSet address := by
  intro all
  obtain ⟨tag, setIndex, split, below⟩ := all 3 64 .xorMod none ⟨3, 6, 1, .xorMod, none⟩ (by decide) (by decide) rfl 128 (by decide)
  have returned : State.splitAddress ⟨3, 6, 1, .xorMod, none⟩ 128 = .ok (2, 3) := rfl
  rw [returned] at split
  cases split
  exact absurd below (by decide)

/-- Four sets with the xor of residues, and three with the modulus that is one smaller. -/
theorem splitAddress_findsSet_iff_xorMod :
    State.FindsSet ⟨4, 6, 2, .xorMod, none⟩ 448 ∧ State.FindsSet ⟨3, 6, 1, .merMod, none⟩ 448 := by
  have created : create 4 64 .xorMod none = .ok ⟨4, 6, 2, .xorMod, none⟩ := rfl
  have created' : create 3 64 .merMod none = .ok ⟨3, 6, 1, .merMod, none⟩ := rfl
  constructor
  · exact (splitAddress_findsSet_iff (by decide) (by decide) created).mpr
      ⟨fun impossible => absurd impossible (by decide), fun _ => .inl (by decide)⟩ 448 (by decide)
  · exact (splitAddress_findsSet_iff (by decide) (by decide) created').mpr
      ⟨fun _ => by decide, fun impossible => absurd impossible (by decide)⟩ 448 (by decide)

end CacheBase

end Sniper

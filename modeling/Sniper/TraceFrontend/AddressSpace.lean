import Sniper.Cache.AddressHash
import Sniper.Library.InsideOut

/-! `TraceThread::va2pa`: the address spaces of trace threads. -/

namespace Sniper.TraceFrontend

abbrev Table := BitVec 8 → BitVec 8

def paCoreShift : Nat := 48
def paCoreSize : Nat := 16
def paVaMask : BitVec 64 := ~~~(((1#64 <<< paCoreSize) - 1) <<< paCoreShift)
def vaPageShift : Nat := 12
def vaPageMask : BitVec 64 := (1#64 <<< vaPageShift) - 1

/-- A round of the loop that shuffles the table, with the state of the generator. -/
def shuffleRound (i : Nat) (machine : Nat × Table) : Nat × Table :=
  let state := CacheBase.rngNext machine.1
  let j := BitVec.ofNat 8 ((state >>> 16) % (i + 1))
  (state, insideOut machine.2 (BitVec.ofNat 8 i) j (BitVec.ofNat 8 i))

/-- The first rounds, on whatever the memory of the table holds. -/
def shuffleRounds (state : Nat) (memory : Table) : Nat → Nat × Table
  | 0 => (state, Function.update memory 0 0)
  | i + 1 => shuffleRound (i + 1) (shuffleRounds state memory i)

def shuffle (state : Nat) (memory : Table) : Table := (shuffleRounds state memory 255).2

structure Config where
  /-- `traceinput/address_randomization` -/
  addressRandomization : Bool
  /-- `scheduler/type` is "sequential". -/
  appidFromCoreid : Bool

/-- What `va2pa` reads of a trace thread. -/
structure TraceThread where
  config : Config
  addressRandomizationTable : Table
  appId : Int
  /-- The mapping of the trace, if the trace holds physical addresses (`m_trace_has_pa`). -/
  trace : Option (BitVec 64 → BitVec 64)

/-- The constructor, with `m_trace_has_pa` false. -/
def TraceThread.new (config : Config) (memory : Table) (appId : Int) : TraceThread where
  config
  addressRandomizationTable :=
    if config.addressRandomization = true then shuffle (CacheBase.rngSeed (appId % 2 ^ 64).toNat) memory else memory
  appId
  trace := none

def byte (lane : Nat) (word : BitVec 64) : BitVec 8 := word.extractLsb' (8 * lane) 8

/-- `array[lane] = value` -/
def setByte (lane : Nat) (value : BitVec 8) (word : BitVec 64) : BitVec 64 :=
  (word &&& ~~~(255#64 <<< (8 * lane))) ||| (value.setWidth 64 <<< (8 * lane))

def remapByte (table : Table) (lane : Nat) (word : BitVec 64) : BitVec 64 := setByte lane (table (byte lane word)) word

def remapAddress (table : Table) (vaPage : BitVec 64) : BitVec 64 :=
  remapByte table 2 (remapByte table 1 (remapByte table 0 vaPage))

section

variable (thread : TraceThread) (coreId : Int) (va : BitVec 64)

def TraceThread.spaceId : Int := if thread.config.appidFromCoreid = true then coreId else thread.appId

def TraceThread.haddr : BitVec 64 := BitVec.ofInt 64 (thread.spaceId coreId)

/-- The address that is made where the trace has none. -/
def TraceThread.construct : BitVec 64 :=
  if thread.config.addressRandomization = true then
    (thread.haddr coreId <<< paCoreShift) |||
      (remapAddress thread.addressRandomizationTable (va >>> vaPageShift) <<< vaPageShift) ||| (va &&& vaPageMask)
  else (thread.haddr coreId <<< paCoreShift) ||| (va &&& paVaMask)

/-- The physical address, and `*noMapping`. -/
def TraceThread.va2pa : BitVec 64 × Bool :=
  match thread.trace with
  | none => (thread.construct coreId va, false)
  | some mapping => if mapping va ≠ 0 then (mapping va, false) else (thread.construct coreId va, true)

end

/-! ## The table -/

variable {table : Table} {state : Nat} {memory : Table}

def firstBytes (last : Nat) : Set (BitVec 8) := {index | index.toNat ≤ last}

theorem insert_firstBytes {last : Nat} (small : last + 1 < 256) :
    insert (BitVec.ofNat 8 (last + 1)) (firstBytes last) = firstBytes (last + 1) := by
  ext index
  have isNext : (BitVec.ofNat 8 (last + 1)).toNat = last + 1 := by
    rw [BitVec.toNat_ofNat]
    exact Nat.mod_eq_of_lt small
  rw [Set.mem_insert_iff, ← BitVec.toNat_inj, isNext]
  unfold firstBytes
  rw [Set.mem_ofPred_eq, Set.mem_ofPred_eq]
  omega

theorem bijOn_shuffleRounds (rounds : Nat) (small : rounds < 256) :
    Set.BijOn (shuffleRounds state memory rounds).2 (firstBytes rounds) (firstBytes rounds) := by
  induction rounds with
  | zero =>
    have single : firstBytes 0 = {0} := by
      ext index
      rw [Set.mem_singleton_iff, ← BitVec.toNat_inj]
      exact Nat.le_zero
    rw [single, Set.bijOn_singleton]
    exact Function.update_self 0 0 memory
  | succ last ih =>
    have next : BitVec.ofNat 8 (last + 1) ∉ firstBytes last := by
      unfold firstBytes
      rw [Set.mem_ofPred_eq, BitVec.toNat_ofNat, Nat.mod_eq_of_lt small]
      omega
    rw [← insert_firstBytes small]
    refine bijOn_insideOut (ih (Nat.lt_of_succ_lt small)) next ?_ next
    rw [insert_firstBytes small]
    have place := Nat.mod_lt (CacheBase.rngNext (shuffleRounds state memory last).1 >>> 16) (Nat.succ_pos (last + 1))
    unfold firstBytes
    rw [Set.mem_ofPred_eq, BitVec.toNat_ofNat]
    exact Nat.le_trans (Nat.mod_le _ _) (Nat.le_of_lt_succ place)

theorem bijective_shuffle (state : Nat) (memory : Table) : Function.Bijective (shuffle state memory) := by
  have all : firstBytes 255 = Set.univ := Set.eq_univ_of_forall fun index => Nat.le_of_lt_succ index.isLt
  have bijection : Set.BijOn (shuffle state memory) (firstBytes 255) (firstBytes 255) := bijOn_shuffleRounds 255 (by decide)
  rw [all] at bijection
  exact Set.bijOn_univ.mp bijection

/-! ## Bits -/

def Agree (bits : Nat) (word word' : BitVec 64) : Prop := ∀ bit < bits, word.getLsbD bit = word'.getLsbD bit

variable {bits lane : Nat} {value : BitVec 8} {word word' : BitVec 64}

theorem agree_iff : Agree bits word word' ↔ word.toNat % 2 ^ bits = word'.toNat % 2 ^ bits := by
  constructor
  · intro agree
    apply Nat.eq_of_testBit_eq
    intro bit
    rw [Nat.testBit_mod_two_pow, Nat.testBit_mod_two_pow, BitVec.testBit_toNat, BitVec.testBit_toNat]
    by_cases inside : bit < bits
    · rw [agree bit inside]
    · rw [decide_eq_false inside, Bool.false_and, Bool.false_and]
  · intro same bit inside
    have atBit := congrArg (fun number => number.testBit bit) same
    simpa only [Nat.testBit_mod_two_pow, BitVec.testBit_toNat, decide_eq_true inside, Bool.true_and] using atBit

theorem getLsbD_byte (bit : Nat) : (byte lane word).getLsbD bit = (decide (bit < 8) && word.getLsbD (8 * lane + bit)) := by
  unfold byte
  rw [BitVec.getLsbD_extractLsb']

theorem getLsbD_ones (width bit : Nat) (inside : width ≤ 64) : (BitVec.ofNat 64 (2 ^ width - 1)).getLsbD bit = decide (bit < width) := by
  rw [BitVec.getLsbD_ofNat, Nat.testBit_two_pow_sub_one]
  by_cases below : bit < width
  · rw [decide_eq_true below, decide_eq_true (Nat.lt_of_lt_of_le below inside)]
    rfl
  · rw [decide_eq_false below, Bool.and_false]

theorem getLsbD_setByte (inside : lane < 8) (bit : Nat) :
    (setByte lane value word).getLsbD bit = if bit / 8 = lane then value.getLsbD (bit % 8) else word.getLsbD bit := by
  have ones := getLsbD_ones 8 (bit - 8 * lane) (by decide)
  unfold setByte
  simp only [BitVec.getLsbD_or, BitVec.getLsbD_and, BitVec.getLsbD_not, BitVec.getLsbD_shiftLeft, BitVec.getLsbD_setWidth]
  rw [show (255#64).getLsbD (bit - 8 * lane) = decide (bit - 8 * lane < 8) from ones]
  split
  case isTrue isLane =>
    have place : bit - 8 * lane = bit % 8 := by omega
    have small := Nat.mod_lt bit (Nat.succ_pos 7)
    rw [place, decide_eq_true (by omega : bit < 64), decide_eq_false (by omega : ¬bit < 8 * lane), decide_eq_true small,
      decide_eq_true (by omega : bit % 8 < 64)]
    simp
  case isFalse outside =>
    by_cases below : bit < 8 * lane
    · rw [decide_eq_true (by omega : bit < 64), decide_eq_true below]
      simp
    · have above : ¬bit - 8 * lane < 8 := by omega
      have none : value.getLsbD (bit - 8 * lane) = false := BitVec.getLsbD_of_ge value _ (Nat.le_of_not_lt above)
      rw [decide_eq_false above, none]
      by_cases small : bit < 64
      · simp [small]
      · rw [BitVec.getLsbD_of_ge word bit (Nat.le_of_not_lt small)]
        simp

theorem byte_eq_iff : byte lane word = byte lane word' ↔ ∀ bit, bit / 8 = lane → word.getLsbD bit = word'.getLsbD bit := by
  constructor
  · intro same bit isLane
    have atBit := congrArg (fun value => value.getLsbD (bit % 8)) same
    simp only [getLsbD_byte, Nat.mod_lt bit (Nat.succ_pos 7), decide_true, Bool.true_and] at atBit
    rw [← isLane, Nat.div_add_mod] at atBit
    exact atBit
  · intro agree
    apply BitVec.eq_of_getLsbD_eq
    intro bit inside
    rw [getLsbD_byte, getLsbD_byte, agree (8 * lane + bit) (by omega)]

theorem agree_remapByte_iff (injective : Function.Injective table) (inside : lane < 8) (within : 8 * (lane + 1) ≤ bits) :
    Agree bits (remapByte table lane word) (remapByte table lane word') ↔ Agree bits word word' := by
  unfold Agree remapByte
  simp only [getLsbD_setByte inside]
  constructor
  · intro agree bit small
    have mapped : table (byte lane word) = table (byte lane word') := by
      apply BitVec.eq_of_getLsbD_eq
      intro bit inByte
      have atBit := agree (8 * lane + bit) (by omega)
      rw [if_pos (by omega), if_pos (by omega)] at atBit
      rwa [Nat.mul_add_mod, Nat.mod_eq_of_lt inByte] at atBit
    by_cases isLane : bit / 8 = lane
    · exact byte_eq_iff.mp (injective mapped) bit isLane
    · simpa only [if_neg isLane] using agree bit small
  · intro agree bit small
    have same : byte lane word = byte lane word' := byte_eq_iff.mpr fun bit isLane => agree bit (by omega)
    rw [same, agree bit small]

theorem agree_remapAddress_iff (injective : Function.Injective table) (within : 24 ≤ bits) :
    Agree bits (remapAddress table word) (remapAddress table word') ↔ Agree bits word word' := by
  unfold remapAddress
  rw [agree_remapByte_iff injective (by decide) within, agree_remapByte_iff injective (by decide) (by omega),
    agree_remapByte_iff injective (by decide) (by omega)]

theorem getLsbD_remapAddress_of_le {bit : Nat} (above : 24 ≤ bit) : (remapAddress table word).getLsbD bit = word.getLsbD bit := by
  unfold remapAddress remapByte
  rw [getLsbD_setByte (by decide), if_neg (by omega), getLsbD_setByte (by decide), if_neg (by omega),
    getLsbD_setByte (by decide), if_neg (by omega)]

/-! ## Addresses -/

variable {thread : TraceThread} {coreId : Int} {va va' : BitVec 64} {bit : Nat}

theorem getLsbD_paVaMask (small : bit < 64) : paVaMask.getLsbD bit = decide (bit < 48) := by
  have ones := getLsbD_ones 16 (bit - 48) (by decide)
  have isMask : paVaMask = ~~~(65535#64 <<< 48) := rfl
  rw [isMask, BitVec.getLsbD_not, BitVec.getLsbD_shiftLeft, show (65535#64).getLsbD (bit - 48) = _ from ones]
  by_cases low : bit < 48
  · simp [low, small]
  · simp [low, small, show bit - 48 < 16 by omega]

theorem getLsbD_vaPageMask : vaPageMask.getLsbD bit = decide (bit < 12) := getLsbD_ones 12 bit (by decide)

theorem getLsbD_construct_low (low : bit < 48) :
    (thread.construct coreId va).getLsbD bit =
      if thread.config.addressRandomization = true ∧ 12 ≤ bit then
        (remapAddress thread.addressRandomizationTable (va >>> vaPageShift)).getLsbD (bit - 12)
      else va.getLsbD bit := by
  have small : bit < 64 := by omega
  unfold TraceThread.construct paCoreShift vaPageShift
  by_cases randomized : thread.config.addressRandomization = true
  · rw [if_pos randomized]
    by_cases offset : bit < 12
    · rw [if_neg fun both => Nat.not_le_of_lt offset both.2]
      simp only [BitVec.getLsbD_or, BitVec.getLsbD_shiftLeft, BitVec.getLsbD_and, getLsbD_vaPageMask, low, offset, decide_true,
        Bool.not_true, Bool.and_false, Bool.false_and, Bool.false_or, Bool.and_true]
    · rw [if_pos ⟨randomized, Nat.le_of_not_lt offset⟩]
      simp only [BitVec.getLsbD_or, BitVec.getLsbD_shiftLeft, BitVec.getLsbD_and, getLsbD_vaPageMask, low, offset, small,
        decide_true, decide_false, Bool.not_true, Bool.not_false, Bool.and_false, Bool.false_and, Bool.false_or, Bool.or_false,
        Bool.true_and]
  · rw [if_neg randomized, if_neg fun both => randomized both.1]
    simp only [BitVec.getLsbD_or, BitVec.getLsbD_shiftLeft, BitVec.getLsbD_and, getLsbD_paVaMask small, low, decide_true,
      Bool.not_true, Bool.and_false, Bool.false_and, Bool.false_or, Bool.and_true]

theorem getLsbD_construct_high (high : 48 ≤ bit) (small : bit < 64) :
    (thread.construct coreId va).getLsbD bit =
      ((thread.haddr coreId).getLsbD (bit - 48) || (thread.config.addressRandomization && va.getLsbD bit)) := by
  have notLow : ¬bit < 48 := Nat.not_lt_of_le high
  unfold TraceThread.construct paCoreShift vaPageShift
  by_cases randomized : thread.config.addressRandomization = true
  · have notOffset : ¬bit < 12 := by omega
    have above : (remapAddress thread.addressRandomizationTable (va >>> 12)).getLsbD (bit - 12) = va.getLsbD bit := by
      rw [getLsbD_remapAddress_of_le (by omega), BitVec.getLsbD_ushiftRight, Nat.add_sub_cancel' (by omega)]
    rw [if_pos randomized, randomized]
    simp only [BitVec.getLsbD_or, BitVec.getLsbD_shiftLeft, BitVec.getLsbD_and, getLsbD_vaPageMask, notLow, notOffset, small, above,
      decide_true, decide_false, Bool.not_false, Bool.and_false, Bool.or_false, Bool.true_and]
  · rw [if_neg randomized, Bool.eq_false_iff.mpr randomized, Bool.false_and]
    simp only [BitVec.getLsbD_or, BitVec.getLsbD_shiftLeft, BitVec.getLsbD_and, getLsbD_paVaMask small, notLow, small, decide_true,
      decide_false, Bool.not_false, Bool.and_false, Bool.or_false, Bool.true_and]

theorem construct_offset : thread.construct coreId va &&& vaPageMask = va &&& vaPageMask := by
  apply BitVec.eq_of_getLsbD_eq
  intro bit _
  rw [BitVec.getLsbD_and, BitVec.getLsbD_and, getLsbD_vaPageMask]
  by_cases offset : bit < 12
  · rw [getLsbD_construct_low (by omega), if_neg fun both => Nat.not_le_of_lt offset both.2]
  · rw [decide_eq_false offset, Bool.and_false, Bool.and_false]

theorem agree_construct_iff (injective : thread.config.addressRandomization = true → Function.Injective thread.addressRandomizationTable) :
    Agree 48 (thread.construct coreId va) (thread.construct coreId va') ↔ Agree 48 va va' := by
  by_cases randomized : thread.config.addressRandomization = true
  · have pages : Agree 36 (remapAddress thread.addressRandomizationTable (va >>> vaPageShift))
        (remapAddress thread.addressRandomizationTable (va' >>> vaPageShift)) ↔ Agree 36 (va >>> vaPageShift) (va' >>> vaPageShift) :=
      agree_remapAddress_iff (injective randomized) (by decide)
    constructor
    · intro agree bit low
      have atBit := agree bit low
      by_cases offset : bit < 12
      · rwa [getLsbD_construct_low low, getLsbD_construct_low low, if_neg fun both => Nat.not_le_of_lt offset both.2,
          if_neg fun both => Nat.not_le_of_lt offset both.2] at atBit
      · have page : Agree 36 (va >>> vaPageShift) (va' >>> vaPageShift) := by
          refine pages.mp fun bit inPage => ?_
          have atBit := agree (bit + 12) (by omega)
          rwa [getLsbD_construct_low (by omega), getLsbD_construct_low (by omega), if_pos ⟨randomized, by omega⟩,
            if_pos ⟨randomized, by omega⟩, Nat.add_sub_cancel] at atBit
        have atPage := page (bit - 12) (by omega)
        rwa [BitVec.getLsbD_ushiftRight, BitVec.getLsbD_ushiftRight, vaPageShift, Nat.add_sub_cancel' (by omega)] at atPage
    · intro agree bit low
      rw [getLsbD_construct_low low, getLsbD_construct_low low]
      split
      case isTrue page =>
        refine pages.mpr (fun bit inPage => ?_) (bit - 12) (by omega)
        rw [BitVec.getLsbD_ushiftRight, BitVec.getLsbD_ushiftRight, vaPageShift, agree (12 + bit) (by omega)]
      case isFalse => exact agree bit low
  · have unchanged (va : BitVec 64) (bit : Nat) (low : bit < 48) : (thread.construct coreId va).getLsbD bit = va.getLsbD bit := by
      rw [getLsbD_construct_low low, if_neg fun both => randomized both.1]
    constructor
    · intro agree bit low
      rw [← unchanged va bit low, ← unchanged va' bit low, agree bit low]
    · intro agree bit low
      rw [unchanged va bit low, unchanged va' bit low, agree bit low]

theorem eq_of_agree_of_upper (agree : Agree 48 word word') (upper : word >>> paCoreShift = word' >>> paCoreShift) : word = word' := by
  apply BitVec.eq_of_getLsbD_eq
  intro bit _
  by_cases low : bit < 48
  · exact agree bit low
  · have atBit := congrArg (fun word => word.getLsbD (bit - 48)) upper
    simp only [BitVec.getLsbD_ushiftRight, paCoreShift] at atBit
    rwa [Nat.add_sub_cancel' (Nat.le_of_not_lt low)] at atBit

def WithinId (id : Int) (va : BitVec 64) : Prop := ∀ bit < 16, va.getLsbD (48 + bit) = true → id.toNat.testBit bit = true

/-- Two addresses of a thread stay apart, and in the thread's own address space. -/
structure Separates (thread : TraceThread) (coreId : Int) (va va' : BitVec 64) : Prop where
  space : ∀ address ∈ [va, va'], (((thread.va2pa coreId address).1 >>> paCoreShift).toNat : Int) = thread.spaceId coreId
  offset : ∀ address ∈ [va, va'], (thread.va2pa coreId address).1 &&& vaPageMask = address &&& vaPageMask
  apart : (thread.va2pa coreId va).1 = (thread.va2pa coreId va').1 ↔ va.toNat % 2 ^ 48 = va'.toNat % 2 ^ 48

section

variable (nonnegative : 0 ≤ thread.spaceId coreId) (small : thread.spaceId coreId < 2 ^ 16)

include nonnegative small

theorem getLsbD_haddr (bit : Nat) : (thread.haddr coreId).getLsbD bit = (thread.spaceId coreId).toNat.testBit bit := by
  have value : (thread.haddr coreId).toNat = (thread.spaceId coreId).toNat := by
    unfold TraceThread.haddr
    rw [BitVec.toNat_ofInt]
    omega
  rw [← BitVec.testBit_toNat, value]

theorem testBit_upper (inside : bit < 16) : ((thread.construct coreId va) >>> paCoreShift).toNat.testBit bit =
    ((thread.spaceId coreId).toNat.testBit bit || (thread.config.addressRandomization && va.getLsbD (48 + bit))) := by
  rw [BitVec.testBit_toNat, BitVec.getLsbD_ushiftRight, paCoreShift, getLsbD_construct_high (by omega) (by omega),
    Nat.add_sub_cancel_left, getLsbD_haddr nonnegative small]

theorem space_iff : (((thread.construct coreId va) >>> paCoreShift).toNat : Int) = thread.spaceId coreId ↔
    (thread.config.addressRandomization = true → WithinId (thread.spaceId coreId) va) := by
  constructor
  · intro isSpace randomized bit inside set
    have upper : ((thread.construct coreId va) >>> paCoreShift).toNat.testBit bit = _ := testBit_upper nonnegative small inside
    rw [randomized, set, Bool.and_true, Bool.or_true] at upper
    rw [← isSpace, Int.toNat_natCast, upper]
  · intro within
    have same : ((thread.construct coreId va) >>> paCoreShift).toNat = (thread.spaceId coreId).toNat := by
      apply Nat.eq_of_testBit_eq
      intro bit
      by_cases inside : bit < 16
      · rw [testBit_upper nonnegative small inside, Bool.or_eq_left_iff_imp, Bool.and_eq_true]
        exact fun both => within both.1 bit inside both.2
      · have above : 2 ^ 16 ≤ 2 ^ bit := Nat.pow_le_pow_right (Nat.succ_pos 1) (Nat.le_of_not_lt inside)
        rw [BitVec.testBit_toNat, BitVec.getLsbD_ushiftRight, BitVec.getLsbD_of_ge _ _ (by unfold paCoreShift; omega)]
        exact (Nat.testBit_lt_two_pow (by omega)).symm
    omega

end

theorem TraceThread.bijective_table (config : Config) (memory : Table) (appId : Int) (randomized : config.addressRandomization = true) :
    Function.Bijective (TraceThread.new config memory appId).addressRandomizationTable := by
  unfold TraceThread.new
  rw [if_pos randomized]
  exact bijective_shuffle _ memory

/-- The shuffle gives a permutation; two addresses of a thread stay apart and in its space exactly when a randomized address has no
upper bits that its id lacks. -/
theorem separates_iff (config : Config) (memory : Table) (appId coreId : Int) (va va' : BitVec 64)
    (nonnegative : 0 ≤ (TraceThread.new config memory appId).spaceId coreId)
    (small : (TraceThread.new config memory appId).spaceId coreId < 2 ^ 16) :
    (∀ seed memory, Function.Bijective (shuffle (CacheBase.rngSeed seed) memory)) ∧
        Separates (TraceThread.new config memory appId) coreId va va' ↔
      (config.addressRandomization = true →
        ∀ address ∈ [va, va'], WithinId ((TraceThread.new config memory appId).spaceId coreId) address) := by
  constructor
  · rintro ⟨_, separates⟩ randomized address member
    exact (space_iff nonnegative small).mp (separates.space address member) randomized
  · intro within
    have space : ∀ address ∈ [va, va'], _ := fun address member =>
      (space_iff nonnegative small).mpr fun randomized => within randomized address member
    have agree : Agree 48 ((TraceThread.new config memory appId).construct coreId va)
        ((TraceThread.new config memory appId).construct coreId va') ↔ Agree 48 va va' :=
      agree_construct_iff fun randomized => (TraceThread.bijective_table config memory appId randomized).injective
    refine ⟨fun seed memory => bijective_shuffle _ memory, space, fun _ _ => construct_offset, ?_⟩
    rw [← agree_iff, ← agree]
    constructor
    · intro same bit _
      exact congrArg (fun address => address.getLsbD bit) same
    · intro low
      have here := space va (by simp)
      have there := space va' (by simp)
      exact eq_of_agree_of_upper low (BitVec.eq_of_toNat_eq (Int.natCast_inj.mp (here.trans there.symm)))

/-- Without randomization the kernel half of app 3 lies in its own space, and with it an address that has the upper bits of the
app. -/
theorem separates_iff_kernel :
    Separates (TraceThread.new ⟨false, false⟩ (fun _ => 0) 3) 0 0xffffffffff600000 0x00007fffffffffff ∧
      Separates (TraceThread.new ⟨true, false⟩ (fun _ => 0) 3) 0 0x0002000012345678 0x00007fffffffffff := by
  constructor
  · exact ((separates_iff ⟨false, false⟩ (fun _ => 0) 3 0 0xffffffffff600000 0x00007fffffffffff (by decide) (by decide)).mpr nofun).2
  · have upper : WithinId 3 0x0002000012345678 := by
      unfold WithinId
      decide
    have within : ∀ address ∈ [(0x0002000012345678 : BitVec 64), 0x00007fffffffffff], WithinId 3 address :=
      List.forall_mem_cons.mpr ⟨upper, List.forall_mem_singleton.mpr (by unfold WithinId; decide)⟩
    exact ((separates_iff ⟨true, false⟩ (fun _ => 0) 3 0 0x0002000012345678 0x00007fffffffffff (by decide) (by decide)).mpr
      fun _ => within).2

/-- A randomized address of the vsyscall page is in the address space of no app but 65535. -/
theorem not_separates_vsyscall :
    ¬∀ (config : Config) (memory : Table) (appId coreId : Int) (va va' : BitVec 64),
      0 ≤ (TraceThread.new config memory appId).spaceId coreId → (TraceThread.new config memory appId).spaceId coreId < 2 ^ 16 →
        (∀ seed memory, Function.Bijective (shuffle (CacheBase.rngSeed seed) memory)) ∧
          Separates (TraceThread.new config memory appId) coreId va va' := by
  intro all
  have separates := (all ⟨true, false⟩ (fun _ => 0) 3 0 0xffffffffff600000 0 (by decide) (by decide)).2
  have isSpace := separates.space 0xffffffffff600000 (by simp)
  have within := (space_iff (by decide) (by decide)).mp isSpace rfl 15 (by decide) (by decide)
  exact absurd within (by decide)

end Sniper.TraceFrontend

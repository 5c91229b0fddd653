import Sniper.Library.Runs
import Mathlib.Data.List.Nodup

/-! `SpinLoopDetector`: backward control transfers between which no register changes.

`registers`, `lastRegisters` and `stored` are not in the source: they hold the register file, what it was at the last
`commitBCT` of each address, and whether a non-silent store has been made since then. -/

namespace Sniper.System.SpinLoopDetector

def sdtMaxSize : Nat := 16

structure RubEntry where
  reg : UInt16
  oldValue : UInt64
  mask : BitVec 16
deriving DecidableEq, Repr

structure SdtEntry where
  eip : UInt64
  id : Nat
  icount : UInt64
  tcount : UInt64
deriving DecidableEq, Repr

structure Detector where
  /-- The register update buffer, with at most one entry for a register. -/
  rub : List RubEntry
  sdt : List SdtEntry
  sdtBitmask : BitVec 16
  sdtNextid : Nat
deriving DecidableEq, Repr

/-- `1 << id` -/
def idBit (id : Nat) : BitVec 16 := 1#16 <<< id

def RubEntry.has (id : Nat) (entry : RubEntry) : Bool := entry.mask &&& idBit id != 0

def bitmaskOf (sdt : List SdtEntry) : BitVec 16 := sdt.foldl (fun mask entry => mask ||| idBit entry.id) 0

/-- An unknown transfer joins the table. -/
def addEntry (eip icount tcount : UInt64) (detector : Detector) : Detector :=
  let sdt := detector.sdt ++ [⟨eip, detector.sdtNextid, icount, tcount⟩]
  let sdt := if sdtMaxSize < sdt.length then sdt.tail else sdt
  { detector with sdt, sdtBitmask := bitmaskOf sdt, sdtNextid := (detector.sdtNextid + 1) % sdtMaxSize }

def resetId (id : Nat) (rub : List RubEntry) : List RubEntry :=
  rub.map fun entry => if entry.has id then { entry with mask := entry.mask &&& ~~~idBit id } else entry

/-- The entry of the table that `commitBCT` finds. -/
def findEntry (eip : UInt64) (detector : Detector) : Option SdtEntry := detector.sdt.find? fun entry => entry.eip == eip

/-- The counts that `updateSpinCount` is called with, if a spin loop is detected. -/
def spinCount (eip icount tcount : UInt64) (detector : Detector) : Option (UInt64 × UInt64) :=
  match findEntry eip detector with
  | none => none
  | some entry => if detector.rub.any (RubEntry.has entry.id) then none else some (icount - entry.icount, tcount - entry.tcount)

/-- A known transfer: the buffer forgets its id, and its counts start again. -/
def refresh (found : SdtEntry) (icount tcount : UInt64) (detector : Detector) : Detector :=
  { detector with
    rub := resetId found.id detector.rub
    sdt := detector.sdt.map fun entry => if entry = found then { entry with icount, tcount } else entry }

def commitBCT (eip icount tcount : UInt64) (detector : Detector) : Detector :=
  match findEntry eip detector with
  | none => addEntry eip icount tcount detector
  | some found => refresh found icount tcount detector

def commitNonSilentStore (detector : Detector) : Detector := { detector with sdt := [], rub := [] }

def commitRegisterWrite (reg : UInt16) (oldValue value : UInt64) (detector : Detector) : Detector :=
  match detector.rub.find? fun entry => entry.reg == reg with
  | none => if value ≠ oldValue then { detector with rub := ⟨reg, oldValue, detector.sdtBitmask⟩ :: detector.rub } else detector
  | some found =>
    if value = found.oldValue then { detector with rub := detector.rub.filter fun entry => entry.reg != reg }
    else if value ≠ oldValue then
      { detector with
        rub := detector.rub.map fun entry =>
          if entry.reg = reg then { entry with mask := entry.mask ||| detector.sdtBitmask } else entry }
    else detector

/-! ## Runs -/

structure State where
  detector : Detector
  registers : UInt16 → UInt64
  lastRegisters : UInt64 → Option (UInt16 → UInt64)
  stored : UInt64 → Bool

inductive Event where
  | bct (eip icount tcount : UInt64)
  | registerWrite (reg : UInt16) (value : UInt64)
  | nonSilentStore

def step (state : State) : Event → State
  | .bct eip icount tcount =>
    { state with
      detector := commitBCT eip icount tcount state.detector
      lastRegisters := Function.update state.lastRegisters eip (some state.registers)
      stored := Function.update state.stored eip false }
  | .registerWrite reg value =>
    { state with
      detector := commitRegisterWrite reg (state.registers reg) value state.detector
      registers := Function.update state.registers reg value }
  | .nonSilentStore => { state with detector := commitNonSilentStore state.detector, stored := fun _ => true }

def start (registers : UInt16 → UInt64) : State := ⟨⟨[], [], 0, 0⟩, registers, fun _ => none, fun _ => false⟩

def Erases (reg : UInt16) (value : UInt64) (detector : Detector) : Prop :=
  ∃ found, detector.rub.find? (fun entry => entry.reg == reg) = some found ∧ value = found.oldValue

/-- Spin Condition 1: a spin is reported only if the registers are what they were at the last transfer to the same address,
and no non-silent store has been made since. -/
def ReportsRightly (state : State) : Prop :=
  ∀ eip icount tcount, (spinCount eip icount tcount state.detector).isSome = true →
    state.lastRegisters eip = some state.registers ∧ state.stored eip = false

/-- A register write that takes an entry out of the buffer brings the register back to what it was at the last transfer of
each loop in the table. -/
def Restores (state : State) : Event → Prop
  | .registerWrite reg value =>
    Erases reg value state.detector →
      ∀ loop ∈ state.detector.sdt, ∀ registers, state.lastRegisters loop.eip = some registers → registers reg = value
  | .bct _ _ _ | .nonSilentStore => True

/-! ## Ids -/

theorem getLsbD_idBit {id : Nat} (small : id < 16) (bit : Nat) : (idBit id).getLsbD bit = decide (id = bit) := by
  have isPower : idBit id = BitVec.twoPow 16 id := rfl
  rw [isPower, BitVec.getLsbD_twoPow]
  simp [small]

theorem has_iff {id : Nat} {entry : RubEntry} (small : id < 16) : entry.has id = true ↔ entry.mask.getLsbD id = true := by
  have isPower : idBit id = BitVec.twoPow 16 id := rfl
  unfold RubEntry.has
  rw [isPower, BitVec.and_twoPow, bne_iff_ne]
  split
  case isTrue set =>
    refine ⟨fun _ => set, fun _ zero => ?_⟩
    have bit := congrArg (fun mask => mask.getLsbD id) zero
    rw [← isPower, getLsbD_idBit small] at bit
    simp at bit
  case isFalse unset => exact ⟨fun different => absurd rfl different, fun set => absurd set unset⟩

theorem getLsbD_bitmask {sdt : List SdtEntry} (mask : BitVec 16) (bit : Nat) :
    (sdt.foldl (fun mask entry => mask ||| idBit entry.id) mask).getLsbD bit = true ↔
      mask.getLsbD bit = true ∨ ∃ loop ∈ sdt, (idBit loop.id).getLsbD bit = true := by
  induction sdt generalizing mask with
  | nil => simp
  | cons first rest ih =>
    rw [List.foldl_cons, ih, BitVec.getLsbD_or, Bool.or_eq_true, List.exists_mem_cons_iff, or_assoc]

structure Numbered (detector : Detector) (first : Nat) : Prop where
  few : detector.sdt.length ≤ 16
  ids : detector.sdt.map SdtEntry.id = (List.range detector.sdt.length).map fun place => (first + place) % 16
  next : detector.sdtNextid = (first + detector.sdt.length) % 16

section Numbered

variable {detector : Detector} {first : Nat} {loop other : SdtEntry} {eip icount tcount : UInt64}

theorem Numbered.small (numbered : Numbered detector first) (member : loop ∈ detector.sdt) : loop.id < 16 := by
  have isId : loop.id ∈ detector.sdt.map SdtEntry.id := List.mem_map_of_mem member
  rw [numbered.ids] at isId
  obtain ⟨place, _, equal⟩ := List.mem_map.mp isId
  omega

theorem Numbered.congr {later : Detector} (numbered : Numbered detector first) (sdt : later.sdt = detector.sdt)
    (next : later.sdtNextid = detector.sdtNextid) : Numbered later first :=
  ⟨by rw [sdt]; exact numbered.few, by rw [sdt]; exact numbered.ids, by rw [sdt, next]; exact numbered.next⟩

theorem Numbered.unique (numbered : Numbered detector first) (member : loop ∈ detector.sdt) (member' : other ∈ detector.sdt)
    (same : loop.id = other.id) : loop = other := by
  have distinct : (detector.sdt.map SdtEntry.id).Nodup := by
    rw [numbered.ids]
    refine List.nodup_range.map_on fun place inRange place' inRange' equal => ?_
    have few := numbered.few
    rw [List.mem_range] at inRange inRange'
    omega
  exact List.inj_on_of_nodup_map distinct member member' same

theorem Numbered.addEntry (numbered : Numbered detector first) (eip icount tcount : UInt64) :
    ∃ first, Numbered (addEntry eip icount tcount detector) first := by
  have few := numbered.few
  have ids : (detector.sdt ++ [(⟨eip, detector.sdtNextid, icount, tcount⟩ : SdtEntry)]).map SdtEntry.id =
      (List.range (detector.sdt.length + 1)).map fun place => (first + place) % 16 := by
    rw [List.map_append, numbered.ids, List.range_succ, List.map_append, numbered.next]
    rfl
  unfold SpinLoopDetector.addEntry sdtMaxSize
  dsimp only
  split
  case isTrue full =>
    rw [List.length_append, List.length_singleton] at full
    have length : detector.sdt.length = 16 := by omega
    refine ⟨first + 1, ?_, ?_, ?_⟩
    · simp [length]
    · dsimp only
      rw [List.map_tail, ids, List.range_succ_eq_map, List.map_cons, List.tail_cons, List.map_map, List.length_tail,
        List.length_append, List.length_singleton, Nat.add_sub_cancel]
      apply List.map_congr_left
      intro place _
      simp only [Function.comp]
      omega
    · simp only [numbered.next, List.length_tail, List.length_append, List.length_singleton]
      omega
  case isFalse room =>
    rw [List.length_append, List.length_singleton] at room
    refine ⟨first, ?_, ?_, ?_⟩
    · simp only [List.length_append, List.length_singleton]
      omega
    · simp only [List.length_append, List.length_singleton]
      exact ids
    · simp only [numbered.next, List.length_append, List.length_singleton]
      omega

theorem Numbered.refresh (numbered : Numbered detector first) (found : SdtEntry) (icount tcount : UInt64) :
    Numbered (refresh found icount tcount detector) first := by
  have ids : (detector.sdt.map fun entry => if entry = found then { entry with icount, tcount } else entry).map SdtEntry.id =
      detector.sdt.map SdtEntry.id := by
    rw [List.map_map]
    apply List.map_congr_left
    intro entry _
    dsimp only [Function.comp]
    split <;> rfl
  unfold SpinLoopDetector.refresh
  refine ⟨?_, ?_, ?_⟩
  · dsimp only
    rw [List.length_map]
    exact numbered.few
  · dsimp only
    rw [ids, numbered.ids, List.length_map]
  · dsimp only
    rw [List.length_map]
    exact numbered.next

theorem mem_refresh {found : SdtEntry} (member : loop ∈ (refresh found icount tcount detector).sdt) :
    ∃ old ∈ detector.sdt, loop.id = old.id ∧ loop.eip = old.eip := by
  obtain ⟨old, before, isNew⟩ := List.mem_map.mp member
  refine ⟨old, before, ?_⟩
  rw [← isNew]
  split
  case isTrue => exact ⟨rfl, rfl⟩
  case isFalse => exact ⟨rfl, rfl⟩

theorem mem_addEntry (member : loop ∈ (addEntry eip icount tcount detector).sdt) :
    loop ∈ detector.sdt ∨ loop = ⟨eip, detector.sdtNextid, icount, tcount⟩ := by
  have appended : loop ∈ detector.sdt ++ [⟨eip, detector.sdtNextid, icount, tcount⟩] := by
    unfold addEntry at member
    dsimp only at member
    split at member
    case isTrue => exact List.mem_of_mem_tail member
    case isFalse => exact member
  simpa using appended

end Numbered

/-! ## What the buffer records -/

def Marked (id : Nat) (reg : UInt16) (rub : List RubEntry) : Prop :=
  ∃ entry ∈ rub, entry.reg = reg ∧ entry.mask.getLsbD id = true

variable {id : Nat} {reg written : UInt16} {oldValue value : UInt64} {detector : Detector}

theorem commitRegisterWrite_frame (reg : UInt16) (oldValue value : UInt64) (detector : Detector) :
    (commitRegisterWrite reg oldValue value detector).sdt = detector.sdt ∧
      (commitRegisterWrite reg oldValue value detector).sdtBitmask = detector.sdtBitmask ∧
        (commitRegisterWrite reg oldValue value detector).sdtNextid = detector.sdtNextid := by
  unfold commitRegisterWrite
  repeat' split
  all_goals exact ⟨rfl, rfl, rfl⟩

theorem commitRegisterWrite_silent (silent : value = oldValue) (kept : ¬Erases reg value detector) :
    commitRegisterWrite reg oldValue value detector = detector := by
  unfold commitRegisterWrite
  split
  case h_1 => exact if_neg fun different => different silent
  case h_2 found isFound => rw [if_neg fun erased => kept ⟨found, isFound, erased⟩, if_neg fun different => different silent]

theorem marked_commitRegisterWrite (covered : detector.sdtBitmask.getLsbD id = true) (changed : value ≠ oldValue)
    (kept : ¬Erases reg value detector) : Marked id reg (commitRegisterWrite reg oldValue value detector).rub := by
  unfold commitRegisterWrite
  split
  case h_1 =>
    rw [if_pos changed]
    exact ⟨_, List.mem_cons_self, rfl, covered⟩
  case h_2 found isFound =>
    have isReg : found.reg = reg := by simpa using List.find?_some isFound
    rw [if_neg fun erased => kept ⟨found, isFound, erased⟩, if_pos changed]
    refine ⟨_, List.mem_map_of_mem (List.mem_of_find?_eq_some isFound), ?_⟩
    rw [if_pos isReg]
    refine ⟨isReg, ?_⟩
    rw [BitVec.getLsbD_or, covered, Bool.or_true]

theorem Marked.commitRegisterWrite (marked : Marked id written detector.rub) (other : written ≠ reg) :
    Marked id written (commitRegisterWrite reg oldValue value detector).rub := by
  obtain ⟨entry, member, isReg, set⟩ := marked
  have notReg : entry.reg ≠ reg := isReg ▸ other
  unfold SpinLoopDetector.commitRegisterWrite
  split
  case h_1 =>
    split
    case isTrue => exact ⟨entry, List.mem_cons_of_mem _ member, isReg, set⟩
    case isFalse => exact ⟨entry, member, isReg, set⟩
  case h_2 =>
    split
    case isTrue => exact ⟨entry, List.mem_filter.mpr ⟨member, bne_iff_ne.mpr notReg⟩, isReg, set⟩
    case isFalse =>
      split
      case isTrue => exact ⟨entry, List.mem_map.mpr ⟨entry, member, if_neg notReg⟩, isReg, set⟩
      case isFalse => exact ⟨entry, member, isReg, set⟩

theorem Marked.resetId {other : Nat} {rub : List RubEntry} (marked : Marked id reg rub) (small : other < 16)
    (different : id ≠ other) : Marked id reg (resetId other rub) := by
  obtain ⟨entry, member, isReg, set⟩ := marked
  refine ⟨_, List.mem_map_of_mem member, ?_⟩
  split
  case isTrue =>
    have inRange : id < 16 := BitVec.lt_of_getLsbD set
    refine ⟨isReg, ?_⟩
    dsimp only
    rw [BitVec.getLsbD_and, set, BitVec.getLsbD_not, getLsbD_idBit small, decide_eq_false different.symm, decide_eq_true inRange]
    rfl
  case isFalse => exact ⟨isReg, set⟩

/-- Every change of a register since the last transfer of a loop is recorded for the loop. -/
structure Invariant (state : State) : Prop where
  numbered : ∃ first, Numbered state.detector first
  covered : ∀ loop ∈ state.detector.sdt, state.detector.sdtBitmask.getLsbD loop.id = true
  recorded : ∀ loop ∈ state.detector.sdt, state.stored loop.eip = false ∧
    ∃ registers, state.lastRegisters loop.eip = some registers ∧
      ∀ reg, state.registers reg ≠ registers reg → Marked loop.id reg state.detector.rub

variable {state : State}

theorem Invariant.reportsRightly (holds : Invariant state) : ReportsRightly state := by
  intro eip icount tcount reports
  obtain ⟨first, numbered⟩ := holds.numbered
  unfold spinCount at reports
  split at reports
  case h_1 => cases reports
  case h_2 loop found =>
    have member := List.mem_of_find?_eq_some found
    have isEip : loop.eip = eip := by simpa using List.find?_some found
    obtain ⟨notStored, registers, isLast, changes⟩ := holds.recorded loop member
    rw [isEip] at notStored isLast
    split at reports
    case isTrue => cases reports
    case isFalse unmarked =>
      refine ⟨?_, notStored⟩
      rw [isLast]
      congr 1
      funext reg
      by_contra different
      obtain ⟨entry, within, _, set⟩ := changes reg fun same => different same.symm
      exact unmarked (List.any_eq_true.mpr ⟨entry, within, (has_iff (numbered.small member)).mpr set⟩)

theorem Invariant.bct (holds : Invariant state) (eip icount tcount : UInt64) : Invariant (step state (.bct eip icount tcount)) := by
  obtain ⟨first, numbered⟩ := holds.numbered
  cases found : findEntry eip state.detector with
  | none =>
    have added : commitBCT eip icount tcount state.detector = addEntry eip icount tcount state.detector := by
      simp only [commitBCT, found]
    simp only [step, added]
    have numbered' := numbered.addEntry eip icount tcount
    constructor
    case numbered => exact numbered'
    case covered =>
      intro loop member
      obtain ⟨_, numbered'⟩ := numbered'
      have small := numbered'.small member
      have isMask : (addEntry eip icount tcount state.detector).sdtBitmask =
          bitmaskOf (addEntry eip icount tcount state.detector).sdt := rfl
      dsimp only
      rw [isMask, bitmaskOf, getLsbD_bitmask]
      exact .inr ⟨loop, member, by simp [getLsbD_idBit small]⟩
    case recorded =>
      intro loop member
      dsimp only at member ⊢
      by_cases same : loop.eip = eip
      · rw [same, Function.update_self, Function.update_self]
        exact ⟨rfl, state.registers, rfl, fun reg different => absurd rfl different⟩
      · rw [Function.update_of_ne same, Function.update_of_ne same]
        obtain old | new := mem_addEntry member
        · exact holds.recorded loop old
        · exact absurd (congrArg SdtEntry.eip new) same
  | some known =>
    have added : commitBCT eip icount tcount state.detector = refresh known icount tcount state.detector := by
      simp only [commitBCT, found, refresh]
    have member := List.mem_of_find?_eq_some found
    have isEip : known.eip = eip := by simpa using List.find?_some found
    simp only [step, added]
    constructor
    case numbered => exact ⟨first, numbered.refresh known icount tcount⟩
    case covered =>
      intro loop within
      obtain ⟨old, before, isId, _⟩ := mem_refresh within
      rw [isId]
      exact holds.covered old before
    case recorded =>
      intro loop within
      obtain ⟨old, before, isId, isOldEip⟩ := mem_refresh within
      rw [isOldEip, isId]
      dsimp only
      by_cases same : old.eip = eip
      · rw [same, Function.update_self, Function.update_self]
        exact ⟨rfl, state.registers, rfl, fun reg different => absurd rfl different⟩
      · rw [Function.update_of_ne same, Function.update_of_ne same]
        obtain ⟨notStored, registers, isLast, changes⟩ := holds.recorded old before
        refine ⟨notStored, registers, isLast, fun reg different => ?_⟩
        refine (changes reg different).resetId (numbered.small member) fun sameId => same ?_
        rw [numbered.unique before member sameId, isEip]

theorem Invariant.registerWrite (holds : Invariant state) {reg : UInt16} {value : UInt64}
    (restores : Restores state (.registerWrite reg value)) : Invariant (step state (.registerWrite reg value)) := by
  obtain ⟨first, numbered⟩ := holds.numbered
  have kept := commitRegisterWrite_frame reg (state.registers reg) value state.detector
  constructor
  case numbered => exact ⟨first, numbered.congr kept.1 kept.2.2⟩
  case covered =>
    intro loop member
    simp only [step, kept.1, kept.2.1] at member ⊢
    exact holds.covered loop member
  case recorded =>
    intro loop member
    simp only [step, kept.1] at member ⊢
    obtain ⟨notStored, registers, isLast, changes⟩ := holds.recorded loop member
    refine ⟨notStored, registers, isLast, fun written different => ?_⟩
    by_cases same : written = reg
    · rw [same, Function.update_self] at different
      rw [same]
      have kept : ¬Erases reg value state.detector := fun erases => different (restores erases loop member registers isLast).symm
      by_cases silent : value = state.registers reg
      · rw [commitRegisterWrite_silent silent kept]
        exact changes reg fun equal => different (silent.trans equal)
      · exact marked_commitRegisterWrite (holds.covered loop member) silent kept
    · rw [Function.update_of_ne same] at different
      exact (changes written different).commitRegisterWrite same

theorem Invariant.step (holds : Invariant state) (event : Event) (restores : Restores state event) :
    Invariant (step state event) := by
  cases event with
  | bct eip icount tcount => exact holds.bct eip icount tcount
  | registerWrite reg value => exact holds.registerWrite restores
  | nonSilentStore =>
    obtain ⟨first, numbered⟩ := holds.numbered
    exact ⟨⟨first + state.detector.sdt.length, Nat.zero_le _, rfl, numbered.next⟩, nofun, nofun⟩

theorem invariant_start (registers : UInt16 → UInt64) : Invariant (start registers) :=
  ⟨⟨0, Nat.zero_le _, rfl, rfl⟩, nofun, nofun⟩

/-- Where each register write that takes an entry out of the buffer restores the register, the spins reported are spins. -/
theorem reportsRightly_of_restores (registers : UInt16 → UInt64) (events : List Event)
    (restores : AllSteps SpinLoopDetector.step Restores (start registers) events) :
    AllStates SpinLoopDetector.step ReportsRightly (start registers) events :=
  (restores.allStates (fun _ event holds => holds.step event) (invariant_start registers)).mono
    fun _ holds => holds.reportsRightly

/-- A spin of one loop, with a register that is written twice and restored. -/
theorem reportsRightly_of_restores_spin :
    AllStates SpinLoopDetector.step ReportsRightly (start fun _ => 0)
      [.bct 64 0 0, .registerWrite 1 5, .registerWrite 1 0, .bct 64 3 30] := by
  refine reportsRightly_of_restores _ _ ⟨trivial, ?_, ?_, trivial, trivial⟩
  · rintro ⟨found, isFound, _⟩
    cases isFound
  · rintro - loop member registers isLast
    have isLoop : loop = ⟨64, 0, 0, 0⟩ := List.mem_singleton.mp member
    rw [isLoop] at isLast
    cases isLast
    rfl

/-- A register that goes back to its old value only in the second round is taken out of the buffer, as if it had not changed. -/
theorem not_reportsRightly_alternating :
    ¬∀ (registers : UInt16 → UInt64) (events : List Event),
      AllStates SpinLoopDetector.step ReportsRightly (start registers) events := by
  intro all
  have states := all (fun _ => 0) [.bct 64 0 0, .registerWrite 1 5, .bct 64 2 20, .registerWrite 1 0]
  -- the entry of register 1 still holds the value of the first round
  have reports := states.2.2.2.2 64 4 40 rfl
  have restored := congrFun (Option.some.inj reports.1) 1
  exact absurd restored (by decide)

end Sniper.System.SpinLoopDetector

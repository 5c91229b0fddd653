import Sniper.Library.Congruential
import Sniper.Replacement.Recency

/-! The policies that walk over the ways, follow a tree or draw a way. -/

namespace Sniper.Replacement

/-! ### Round robin -/

/-- `CacheSetRoundRobin::getReplacementIndex`: the pointer moves before the block it points to is tested.  After
one round of recursive calls the pointer is back where it was. -/
def roundRobin (associativity : Nat) (set : Contents) : (calls : Nat) → (replacementIndex : Nat) →
    Except Fault (Nat × Nat)
  | 0, _ => .error .diverges
  | calls + 1, replacementIndex =>
    let moved := if replacementIndex = 0 then associativity - 1 else replacementIndex - 1
    if isValidReplacement set moved then .ok (moved, replacementIndex)
    else roundRobin associativity set calls moved

/-- `CacheSetRoundRobin`, for `round_robin`. -/
def CacheSetRoundRobin (associativity : Nat) : Policy where
  associativity
  State := Nat
  constructed replacementIndex := replacementIndex = associativity - 1
  getReplacementIndex set _ := roundRobin associativity set associativity
  updateReplacementIndex _ _ _ := .ok
  updateLoopBitPolicy _ _ := id

/-! ### Walks from a pointer -/

/-- The next value of a `UInt8` pointer. -/
def advance (associativity pointer : Nat) : Nat := (pointer + 1) % associativity % 256

/-- The first way from the pointer on that is accepted, with the pointer behind it. -/
def walk (associativity : Nat) (accepts : Nat → Bool) : (steps : Nat) → (pointer : Nat) → Option (Nat × Nat)
  | 0, _ => none
  | steps + 1, pointer =>
    if accepts pointer then some (pointer, advance associativity pointer)
    else walk associativity accepts steps (advance associativity pointer)

/-- The fields of `CacheSetNMRU`. -/
structure Nmru where
  lruBits : Nat → Nat
  replacementPointer : Nat

/-- `CacheSetNMRU`, for `nmru`. -/
def CacheSetNMRU (associativity : Nat) : Policy where
  associativity
  State := Nmru
  constructed fields := fields = ⟨initialLruBits, 0⟩
  getReplacementIndex set _ fields :=
    match firstInvalid associativity set with
    | some way => .ok ({ fields with lruBits := moveToMRU associativity way fields.lruBits }, way)
    | none =>
      let accepts := fun way => fields.lruBits way != 0 && isValidReplacement set way
      match walk associativity accepts associativity fields.replacementPointer with
      | some (way, replacementPointer) =>
        .ok (⟨moveToMRU associativity way fields.lruBits, replacementPointer⟩, way)
      | none => .error .findingLruBits
  updateReplacementIndex accessedIndex _ _ fields :=
    .ok { fields with lruBits := moveToMRU associativity accessedIndex fields.lruBits }
  updateLoopBitPolicy _ _ := id

/-- The fields of `CacheSetNRU`. -/
structure Nru where
  lruBits : Nat → Nat
  numBitsSet : Nat
  replacementPointer : Nat

/-- `CacheSetNRU::updateReplacementIndex`. -/
def Nru.touch (associativity : Nat) (fields : Nru) (accessedIndex : Nat) : Nru :=
  let numBitsSet := (fields.numBitsSet + 1) % 256
  if numBitsSet = associativity then { fields with lruBits := fun _ => 0, numBitsSet := 0 }
  else { fields with lruBits := Function.update fields.lruBits accessedIndex 1, numBitsSet }

/-- `CacheSetNRU`, for `nru`. -/
def CacheSetNRU (associativity : Nat) : Policy where
  associativity
  State := Nru
  constructed fields := fields = ⟨fun _ => 0, 0, 0⟩
  getReplacementIndex set _ fields :=
    match firstInvalid associativity set with
    | some way => .ok (fields.touch associativity way, way)
    | none =>
      let haveZeroBit := (List.range associativity).any fun way =>
        fields.lruBits way == 0 && isValidReplacement set way
      let accepts := fun way => (fields.lruBits way == 0 || !haveZeroBit) && isValidReplacement set way
      match walk associativity accepts associativity fields.replacementPointer with
      | some (way, replacementPointer) =>
        .ok ({ fields with replacementPointer }.touch associativity way, way)
      | none => .error .findingLruBits
  updateReplacementIndex accessedIndex _ _ fields := .ok (fields.touch associativity accessedIndex)
  updateLoopBitPolicy _ _ := id

/-! ### Trees -/

/-- The leaf the bits of `CacheSetPLRU` point to. -/
def plruLeaf (associativity : Nat) (b : Nat → Nat) : Nat :=
  if associativity = 4 then
    if b 0 = 0 then if b 1 = 0 then 0 else 1
    else if b 2 = 0 then 2 else 3
  else
    if b 0 = 0 then
      if b 1 = 0 then if b 2 = 0 then 0 else 1
      else if b 3 = 0 then 2 else 3
    else
      if b 4 = 0 then if b 5 = 0 then 4 else 5
      else if b 6 = 0 then 6 else 7

/-- The bits that `CacheSetPLRU::updateReplacementIndex` writes, with their values. -/
def plruPath (associativity accessedIndex : Nat) : List (Nat × Nat) :=
  if associativity = 4 then
    match accessedIndex with
    | 0 => [(0, 1), (1, 1)]
    | 1 => [(0, 1), (1, 0)]
    | 2 => [(0, 0), (2, 1)]
    | 3 => [(0, 0), (2, 0)]
    | _ => []
  else
    match accessedIndex with
    | 0 => [(0, 1), (1, 1), (2, 1)]
    | 1 => [(0, 1), (1, 1), (2, 0)]
    | 2 => [(0, 1), (1, 0), (3, 1)]
    | 3 => [(0, 1), (1, 0), (3, 0)]
    | 4 => [(0, 0), (4, 1), (5, 1)]
    | 5 => [(0, 0), (4, 1), (5, 0)]
    | 6 => [(0, 0), (4, 0), (6, 1)]
    | 7 => [(0, 0), (4, 0), (6, 0)]
    | _ => []

def plruTouch (associativity accessedIndex : Nat) (b : Nat → Nat) : Nat → Nat :=
  (plruPath associativity accessedIndex).foldl (fun b (bit, value) => Function.update b bit value) b

/-- `CacheSetPLRU`, for `plru`.  The constructor accepts four and eight ways. -/
def CacheSetPLRU (associativity : Nat) : Policy where
  associativity
  State := Nat → Nat
  constructed b := (associativity = 4 ∨ associativity = 8) ∧ b = fun _ => 0
  getReplacementIndex set _ b :=
    match firstInvalid associativity set with
    | some way => .ok (plruTouch associativity way b, way)
    | none =>
      let way := plruLeaf associativity b
      if isValidReplacement set way then .ok (plruTouch associativity way b, way) else .error .invalidCandidate
  updateReplacementIndex accessedIndex _ _ b := .ok (plruTouch associativity accessedIndex b)
  updateLoopBitPolicy _ _ := id

/-! ### Re-reference intervals -/

/-- The fields of `CacheSetSRRIP`, and the attempts of the current call. -/
structure Srrip where
  rripBits : Nat → Nat
  replacementPointer : Nat
  attempt : Nat

namespace Srrip

variable (associativity rripMax numAttempts : Nat)

def rripInsert : Nat := (rripMax + 255) % 256

/-- The inner loop of `CacheSetSRRIP::getReplacementIndex`, with the way it chooses.  A rejected block costs one
turn of the loop, and the pointer stays. -/
def scan (isInLowerLevelCache : Nat → Bool) : (turns : Nat) → Srrip → Srrip × Option Nat
  | 0, fields => (fields, none)
  | turns + 1, fields =>
    let index := fields.replacementPointer
    if rripMax ≤ fields.rripBits index then
      if fields.attempt + 1 < numAttempts ∧ isInLowerLevelCache index then
        scan isInLowerLevelCache turns
          { fields with rripBits := Function.update fields.rripBits index 0, attempt := fields.attempt + 1 }
      else
        ({ fields with
            rripBits := Function.update fields.rripBits index (rripInsert rripMax)
            replacementPointer := advance associativity index }, some index)
    else scan isInLowerLevelCache turns { fields with replacementPointer := advance associativity index }

/-- "Increment all RRIP counters until one hits RRIP_MAX". -/
def age (fields : Srrip) : Srrip :=
  { fields with rripBits := fun way =>
      if way < associativity ∧ fields.rripBits way < rripMax then fields.rripBits way + 1
      else fields.rripBits way }

/-- The outer loop of `CacheSetSRRIP::getReplacementIndex`. -/
def rounds (isInLowerLevelCache : Nat → Bool) : (left : Nat) → Srrip → Option (Srrip × Nat)
  | 0, _ => none
  | left + 1, fields =>
    match scan associativity rripMax numAttempts isInLowerLevelCache associativity fields with
    | (after, some index) => some (after, index)
    | (after, none) => rounds isInLowerLevelCache left (age associativity rripMax after)

end Srrip

/-- `CacheSetSRRIP`, for `srrip` and `srrip_qbs`. -/
def CacheSetSRRIP (associativity rripMax numAttempts : Nat) : Policy where
  associativity
  State := Srrip
  constructed fields := fields = ⟨fun _ => Srrip.rripInsert rripMax, 0, 0⟩
  getReplacementIndex set call fields :=
    match firstInvalid associativity set with
    | some way =>
      .ok ({ fields with rripBits := Function.update fields.rripBits way (Srrip.rripInsert rripMax) }, way)
    | none =>
      let found := Srrip.rounds associativity rripMax numAttempts call.isInLowerLevelCache (rripMax + 1)
        { fields with attempt := 0 }
      match found with
      | some (after, way) => if isValidReplacement set way then .ok (after, way) else .error .invalidCandidate
      | none => .error .findingReplacementIndex
  updateReplacementIndex accessedIndex _ _ fields := do
    increment associativity (fields.rripBits accessedIndex)
    Except.ok { fields with
      rripBits := Function.update fields.rripBits accessedIndex (fields.rripBits accessedIndex - 1) }
  updateLoopBitPolicy _ _ := id

/-! ### Random choice -/

/-- `Random::next` changes the seed. -/
def nextSeed : Nat → Nat := Congruential.next 1103515245 12345 (2 ^ 32)

/-- `Random::next`, and the way it stands for. -/
def drawnWay (associativity seed : Nat) : Nat := seed / 65536 % 32768 % associativity

/-- `CacheSetRandom::getReplacementIndex`.  There are no more seeds than calls. -/
def drawWay (associativity : Nat) (set : Contents) : (calls : Nat) → (seed : Nat) → Except Fault (Nat × Nat)
  | 0, _ => .error .diverges
  | calls + 1, seed =>
    let way := drawnWay associativity (nextSeed seed)
    if isValidReplacement set way then .ok (nextSeed seed, way) else drawWay associativity set calls (nextSeed seed)

/-- `CacheSetRandom`, for `random`.  The seed is the time. -/
def CacheSetRandom (associativity : Nat) : Policy where
  associativity
  State := Nat
  constructed seed := seed < 2 ^ 32
  getReplacementIndex set _ seed :=
    match firstInvalid associativity set with
    | some way => .ok (seed, way)
    | none => drawWay associativity set (2 ^ 32) seed
  updateReplacementIndex _ _ _ := .ok
  updateLoopBitPolicy _ _ := id

end Sniper.Replacement

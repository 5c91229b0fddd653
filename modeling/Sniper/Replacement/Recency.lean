import Sniper.Replacement.Policy

/-! The policies that keep the ways in order of their last use, in bits of type `UInt8`. -/

namespace Sniper.Replacement

variable {associativity : Nat}

/-- `m_lru_bits` as the constructors leave them. -/
def initialLruBits (way : Nat) : Nat := way % 256

/-- `moveToMRU`.  A bit that grows stays below another one, so it does not overflow. -/
def moveToMRU (associativity accessedIndex : Nat) (lruBits : Nat → Nat) (way : Nat) : Nat :=
  if way = accessedIndex then 0
  else if way < associativity ∧ lruBits way < lruBits accessedIndex then lruBits way + 1
  else lruBits way

/-- The search for the largest bits among the given ways that may be replaced. -/
def findLru (ways : List Nat) (candidate : Nat → Bool) (lruBits : Nat → Nat) : Nat :=
  (ways.foldl (fun (index, maxBits) way =>
    if maxBits < lruBits way ∧ candidate way then (way, lruBits way) else (index, maxBits)) (0, 0)).1

/-- The loops over `m_num_attempts`, with the index they return.  A block that a lower level has is moved to
the front, unless this is the last attempt. -/
def attemptLoop (associativity : Nat) (select : (Nat → Nat) → Except Fault Nat) (isInLowerLevelCache : Nat → Bool) :
    (attempts : Nat) → (Nat → Nat) → Except Fault ((Nat → Nat) × Option Nat)
  | 0, lruBits => .ok (lruBits, none)
  | rest + 1, lruBits => do
      let index ← select lruBits
      if index < associativity then
        let moved := moveToMRU associativity index lruBits
        if 0 < rest ∧ isInLowerLevelCache index then
          attemptLoop associativity select isInLowerLevelCache rest moved
        else .ok (moved, some index)
      else .error .findingLruBits

/-- `CacheSetInfoLRU::increment`, of which only the assertion is left. -/
def increment (associativity index : Nat) : Except Fault Unit :=
  if index < associativity then .ok () else .error .indexOfAccess

/-- What `getReplacementIndex` of the LRU policies does with the bits. -/
def replaceLru (associativity numAttempts : Nat) (set : Contents) (call : Call) (lruBits : Nat → Nat) :
    Except Fault ((Nat → Nat) × Nat) :=
  match firstInvalid associativity set with
  | some way => .ok (moveToMRU associativity way lruBits, way)
  | none => do
      let select := fun lruBits => .ok (findLru (List.range associativity) (isValidReplacement set) lruBits)
      let (lruBits, found) ← attemptLoop associativity select call.isInLowerLevelCache numAttempts lruBits
      match found with
      | some index => .ok (lruBits, index)
      | none => .error .shouldNotReachHere

/-- `CacheSetLRU`, for `lru` and `lru_qbs`.  With its `printf` commented out, the test of the flag guards the
statistics. -/
def CacheSetLRU (associativity numAttempts : Nat) : Policy where
  associativity
  State := Nat → Nat
  constructed lruBits := lruBits = initialLruBits
  getReplacementIndex := replaceLru associativity numAttempts
  updateReplacementIndex accessedIndex writeFlag _ lruBits := do
    if writeFlag = 1 then increment associativity (lruBits accessedIndex)
    Except.ok (moveToMRU associativity accessedIndex lruBits)
  updateLoopBitPolicy _ _ := id

/-- `CacheSetLRUNEW`, for `lrunew`. -/
def CacheSetLRUNEW (associativity numAttempts : Nat) : Policy where
  associativity
  State := Nat → Nat
  constructed lruBits := lruBits = initialLruBits
  getReplacementIndex := replaceLru associativity numAttempts
  updateReplacementIndex accessedIndex _ _ lruBits := do
    increment associativity (lruBits accessedIndex)
    Except.ok (moveToMRU associativity accessedIndex lruBits)
  updateLoopBitPolicy _ _ := id

/-- The fields of `CacheSetLRUL2` and `CacheSetLRUL3`. -/
structure LoopBits where
  lruBits : Nat → Nat
  loopBit : Nat → Nat
  /-- `global_loop_bit_writeback`, which L2 sets share. -/
  writeback : Nat

/-- The loop bit of a way an L2 set has chosen. -/
def LoopBits.takeWay (fields : LoopBits) (call : Call) (way : Nat) : LoopBits where
  lruBits := fields.lruBits
  loopBit := if call.l3HitFlag = 0 then Function.update fields.loopBit way 0
    else if call.l3HitFlag = 1 then Function.update fields.loopBit way 1 else fields.loopBit
  writeback := fields.loopBit way

/-- `CacheSetLRUL2`, for `lrul2`. -/
def CacheSetLRUL2 (associativity numAttempts : Nat) : Policy where
  associativity
  State := LoopBits
  constructed fields := fields.lruBits = initialLruBits ∧ fields.loopBit = fun _ => 0
  getReplacementIndex set call fields := do
    let (lruBits, way) ← replaceLru associativity numAttempts set call fields.lruBits
    Except.ok ({ fields.takeWay call way with lruBits }, way)
  updateReplacementIndex accessedIndex writeFlag _ fields := do
    increment associativity (fields.lruBits accessedIndex)
    Except.ok { fields with
      lruBits := moveToMRU associativity accessedIndex fields.lruBits
      loopBit := if writeFlag = 1 then Function.update fields.loopBit accessedIndex 0 else fields.loopBit }
  updateLoopBitPolicy _ _ := id

/-- `CacheSetLRUL3`, for `lrul3`.  Loop blocks are searched once no attempt for another one is left. -/
def CacheSetLRUL3 (associativity numAttempts : Nat) : Policy where
  associativity
  State := LoopBits
  constructed fields := fields.lruBits = initialLruBits ∧ fields.loopBit = fun _ => 0
  getReplacementIndex set call fields :=
    match firstInvalid associativity set with
    | some way =>
      .ok ({ fields with
        lruBits := moveToMRU associativity way fields.lruBits
        loopBit := Function.update fields.loopBit way 0 }, way)
    | none => do
        let selectNonLoop := fun lruBits => .ok (findLru (List.range associativity)
          (fun way => isValidReplacement set way && fields.loopBit way == 0) lruBits)
        let (lruBits, found) ←
          attemptLoop associativity selectNonLoop call.isInLowerLevelCache numAttempts fields.lruBits
        match found with
        | some index => Except.ok ({ fields with lruBits }, index)
        | none =>
          let select := fun lruBits =>
            .ok (findLru (List.range associativity) (isValidReplacement set) lruBits)
          let (lruBits, found) ← attemptLoop associativity select call.isInLowerLevelCache numAttempts lruBits
          match found with
          | some index =>
            Except.ok ({ fields with lruBits, loopBit := Function.update fields.loopBit index 0 }, index)
          | none => .error .shouldNotReachHere
  updateReplacementIndex accessedIndex _ _ fields := do
    increment associativity (fields.lruBits accessedIndex)
    Except.ok { fields with lruBits := moveToMRU associativity accessedIndex fields.lruBits }
  updateLoopBitPolicy index loopbit fields :=
    { fields with loopBit := Function.update fields.loopBit index loopbit }

/-- The fields of `CacheSetPHC`, with the predictor table `m_state` that all sets share. -/
structure Phc where
  lruBits : Nat → Nat
  ti : Nat → Nat
  cost : Nat → Nat
  state : Nat → Nat

namespace Phc

def sramWays : Nat := 4

def isSampler (setIndex : Nat) : Bool := setIndex % 32 == 0

/-- What a sampler set learns from the block it gives up. -/
def train (fields : Phc) (way eip : Nat) : Phc where
  lruBits := fields.lruBits
  ti := Function.update fields.ti way (eip % 256)
  cost := Function.update fields.cost way 24
  state :=
    let entry := fields.ti way
    if 20 < fields.cost way ∧ fields.state entry < 3 then
      Function.update fields.state entry (fields.state entry + 1)
    else if fields.cost way < 20 ∧ 0 < fields.state entry then
      Function.update fields.state entry (fields.state entry - 1)
    else fields.state

/-- The partition for the instruction: it is hot from `state_threshold` on. -/
def isCold (fields : Phc) (eip : Nat) : Bool := fields.state (eip % 256) < 2

/-- A search for a block that is not valid among the first ways. -/
def searchInvalid (associativity ways : Nat) (set : Contents) : Except Fault (Option Nat) :=
  match firstInvalid (min ways associativity) set with
  | some way => .ok (some way)
  | none => if ways ≤ associativity then .ok none else .error .outOfBounds

def selectIn (associativity : Nat) (ways : List Nat) (set : Contents) (lruBits : Nat → Nat) : Except Fault Nat :=
  if ways.all (· < associativity) then .ok (findLru ways (isValidReplacement set) lruBits) else .error .outOfBounds

def sttRam (associativity : Nat) : List Nat := (List.range associativity).filter (sramWays ≤ ·)

def replaceSampler (associativity numAttempts : Nat) (set : Contents) (call : Call) (fields : Phc) :
    Except Fault (Phc × Nat) :=
  match firstInvalid associativity set with
  | some way =>
    .ok ({ fields.train way call.eip with lruBits := moveToMRU associativity way fields.lruBits }, way)
  | none => do
      let (lruBits, found) ← attemptLoop associativity (selectIn associativity (List.range sramWays) set)
        call.isInLowerLevelCache numAttempts fields.lruBits
      match found with
      | some index => .ok ({ fields.train index call.eip with lruBits }, index)
      | none => .error .shouldNotReachHere

def replaceOther (associativity numAttempts : Nat) (set : Contents) (call : Call) (fields : Phc) :
    Except Fault (Phc × Nat) := do
  let proper ← (if fields.isCold call.eip
    then .ok ((sttRam associativity).find? fun way => (set way).isNone)
    else searchInvalid associativity sramWays set)
  match proper.or (firstInvalid associativity set) with
  | some way => .ok ({ fields with lruBits := moveToMRU associativity way fields.lruBits }, way)
  | none =>
    let ways := if fields.isCold call.eip then sttRam associativity else List.range sramWays
    let (lruBits, found) ← attemptLoop associativity (selectIn associativity ways set)
      call.isInLowerLevelCache numAttempts fields.lruBits
    match found with
    | some index => .ok ({ fields with lruBits }, index)
    | none => .error .shouldNotReachHere

end Phc

/-- `CacheSetPHC`, for `phc`. -/
def CacheSetPHC (associativity numAttempts : Nat) : Policy where
  associativity
  State := Phc
  constructed fields := fields.lruBits = initialLruBits ∧ fields.ti = (fun _ => 0) ∧ fields.cost = fun _ => 0
  getReplacementIndex set call fields :=
    if Phc.isSampler call.setIndex then Phc.replaceSampler associativity numAttempts set call fields
    else Phc.replaceOther associativity numAttempts set call fields
  updateReplacementIndex accessedIndex writeFlag setIndex fields := do
    increment associativity (fields.lruBits accessedIndex)
    let cost :=
      if Phc.isSampler setIndex then
        if writeFlag = 1 then Function.update fields.cost accessedIndex ((fields.cost accessedIndex + 24) % 256)
        else if writeFlag = 0 then Function.update fields.cost accessedIndex ((fields.cost accessedIndex + 255) % 256)
        else fields.cost
      else fields.cost
    Except.ok { fields with lruBits := moveToMRU associativity accessedIndex fields.lruBits, cost }
  updateLoopBitPolicy _ _ := id

/-- `CacheSetMRU`, for `mru`. -/
def CacheSetMRU (associativity : Nat) : Policy where
  associativity
  State := Nat → Nat
  constructed lruBits := lruBits = initialLruBits
  getReplacementIndex set _ lruBits :=
    match firstInvalid associativity set with
    | some way => .ok (moveToMRU associativity way lruBits, way)
    | none =>
      let found := (List.range associativity).findSome? fun target =>
        (List.range associativity).find? fun way => lruBits way == target && isValidReplacement set way
      match found with
      | some way => .ok (moveToMRU associativity way lruBits, way)
      | none => .error .findingLruBits
  updateReplacementIndex accessedIndex _ _ lruBits := .ok (moveToMRU associativity accessedIndex lruBits)
  updateLoopBitPolicy _ _ := id

end Sniper.Replacement

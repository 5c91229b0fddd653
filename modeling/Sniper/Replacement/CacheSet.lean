import Sniper.Replacement.Policy
import Mathlib.Algebra.Ring.Nat

/-! `CacheSet` and `Cache`: the tags and states of the blocks, with the replacement policy of the sets.

The data of the blocks is left out.  The set of a block follows from its tag. -/

namespace Sniper.Replacement

/-- `(IntPtr) ~0`, which marks a block that is not valid. -/
def invalidTag : Nat := 2 ^ 64 - 1

abbrev Tag := { tag : Nat // tag ≠ invalidTag }

structure CacheBlockInfo where
  tag : Nat
  cstate : CState
deriving DecidableEq, Repr

namespace CacheBlockInfo

/-- What the constructor and `invalidate` leave. -/
def invalid : CacheBlockInfo := ⟨invalidTag, .invalid⟩

def isValid (block : CacheBlockInfo) : Bool := block.tag ≠ invalidTag

end CacheBlockInfo

structure CacheSet (policy : Policy) where
  /-- `m_cache_block_info_array`. -/
  blocks : Nat → CacheBlockInfo
  fields : policy.State

namespace CacheSet

variable {policy : Policy}

def contents (set : CacheSet policy) : Contents := fun way =>
  if (set.blocks way).isValid then some (set.blocks way).cstate else none

/-- The ways are searched from the last one. -/
def find (set : CacheSet policy) (tag : Nat) : Option Nat :=
  (List.range policy.associativity).reverse.find? fun way => (set.blocks way).tag = tag

/-- What `read_line` and `write_line` tell the policy. -/
def useLine (set : CacheSet policy) (lineIndex writeFlag : Nat) (updateReplacement : Bool) (setIndex : Nat) :
    Except Fault (CacheSet policy) :=
  if updateReplacement then do
    let fields ← policy.updateReplacementIndex lineIndex writeFlag setIndex set.fields
    Except.ok { set with fields }
  else .ok set

def readLine (set : CacheSet policy) (lineIndex : Nat) (updateReplacement : Bool) (setIndex : Nat) :
    Except Fault (CacheSet policy) :=
  set.useLine lineIndex 0 updateReplacement setIndex

def writeLine (set : CacheSet policy) (lineIndex : Nat) (updateReplacement : Bool) (setIndex : Nat) :
    Except Fault (CacheSet policy) :=
  set.useLine lineIndex 1 updateReplacement setIndex

def setBlock (set : CacheSet policy) (way : Nat) (block : CacheBlockInfo) : CacheSet policy :=
  { set with blocks := Function.update set.blocks way block }

def invalidate (set : CacheSet policy) (tag : Nat) : CacheSet policy :=
  match set.find tag with
  | some way => set.setBlock way .invalid
  | none => set

/-- The set with the new block, and the block that is evicted. -/
def insert2 (set : CacheSet policy) (block : CacheBlockInfo) (call : Call) :
    Except Fault (CacheSet policy × Option CacheBlockInfo) := do
  let (fields, index) ← policy.getReplacementIndex set.contents call set.fields
  let evicted := if (set.blocks index).isValid then some (set.blocks index) else none
  Except.ok ({ set with fields }.setBlock index block, evicted)

/-- The last way with the tag counts. -/
def updateLoopBitSet (set : CacheSet policy) (tag loopbit : Nat) : CacheSet policy :=
  match set.find tag with
  | some index => { set with fields := policy.updateLoopBitPolicy index loopbit set.fields }
  | none => set

end CacheSet

/-- `Cache::access_t`. -/
inductive AccessType where
  | load
  | store
deriving DecidableEq, Repr

/-- `m_sets`. -/
structure Cache (policy : Policy) where
  sets : Nat → CacheSet policy

namespace Cache

variable {policy : Policy} (splitTag : Nat → Nat)

def setSet (cache : Cache policy) (setIndex : Nat) (set : CacheSet policy) : Cache policy :=
  ⟨Function.update cache.sets setIndex set⟩

/-- `accessSingleLine`, with the way of the line that is found. -/
def accessSingleLine (cache : Cache policy) (tag : Nat) (accessType : AccessType) (updateReplacement : Bool) :
    Except Fault (Cache policy × Option Nat) :=
  let setIndex := splitTag tag
  let set := cache.sets setIndex
  match set.find tag with
  | none => .ok (cache, none)
  | some lineIndex => do
      let after ← match accessType with
        | .load => set.readLine lineIndex updateReplacement setIndex
        | .store => set.writeLine lineIndex updateReplacement setIndex
      Except.ok (cache.setSet setIndex after, some lineIndex)

/-- `insertSingleLine`, with the block that is evicted. -/
def insertSingleLine (cache : Cache policy) (tag : Nat) (call : Call) :
    Except Fault (Cache policy × Option CacheBlockInfo) := do
  let setIndex := splitTag tag
  let (set, evicted) ← (cache.sets setIndex).insert2 ⟨tag, .invalid⟩ { call with setIndex }
  Except.ok (cache.setSet setIndex set, evicted)

/-- `setCState` on the block of a tag, if it is there. -/
def setCState (cache : Cache policy) (tag : Nat) (cstate : CState) : Cache policy :=
  let set := cache.sets (splitTag tag)
  match set.find tag with
  | some way => cache.setSet (splitTag tag) (set.setBlock way { set.blocks way with cstate })
  | none => cache

end Cache

section Find

variable {policy : Policy} {lines : CacheSet policy} {tag way : Nat}

theorem find_some (found : lines.find tag = some way) :
    way < policy.associativity ∧ (lines.blocks way).tag = tag := by
  have member := List.mem_of_find?_eq_some found
  have same := List.find?_some found
  exact ⟨by simpa using member, by simpa using same⟩

theorem find_none (missing : lines.find tag = none) (small : way < policy.associativity) :
    (lines.blocks way).tag ≠ tag := by
  have other := List.find?_eq_none.mp missing way (by simpa using small)
  simpa using other

end Find

end Sniper.Replacement

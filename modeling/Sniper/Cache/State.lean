/-! The coherence states of a cache line and of a directory entry. -/

namespace Sniper

/-- `CacheState::cstate_t`, without the states used only for reporting. -/
inductive CState where
  | invalid
  | shared
  | sharedUpgrading
  | exclusive
  | owned
  | modified
deriving DecidableEq, Repr

namespace CState

def readable : CState → Bool
  | .modified | .owned | .shared | .exclusive => true
  | .invalid | .sharedUpgrading => false

def writable : CState → Bool
  | .modified => true
  | _ => false

def clean (cstate : CState) : CState := if cstate = .modified then .shared else cstate

/-- The state of a line that is told to change to the given one: a line that is not there stays
away. -/
def become (old new : CState) : CState := if old = .invalid then .invalid else new

@[simp] theorem become_invalid (old : CState) : old.become .invalid = .invalid := by
  unfold become
  split <;> rfl

/-- How much a state permits. -/
def rank : CState → Nat
  | .invalid => 0
  | .shared | .sharedUpgrading | .owned => 1
  | .exclusive => 2
  | .modified => 3

theorem rank_eq_zero {cstate : CState} : cstate.rank = 0 ↔ cstate = .invalid := by
  cases cstate <;> simp [rank]

theorem rank_eq_three {cstate : CState} : 3 ≤ cstate.rank ↔ cstate = .modified := by
  cases cstate <;> simp [rank]

theorem rank_become_mono {first second : CState} (le : first.rank ≤ second.rank) (new : CState) :
    (first.become new).rank ≤ (second.become new).rank := by
  unfold become
  split
  · exact Nat.zero_le _
  · split
    case isTrue valid invalid =>
      rw [invalid] at le
      exact absurd (rank_eq_zero.mp (Nat.le_zero.mp le)) valid
    case isFalse => exact Nat.le_refl _

theorem rank_become_le {new : CState} (lowers : new = .invalid ∨ new = .shared) (old : CState) :
    (old.become new).rank ≤ old.rank := by
  rcases lowers with lowers | lowers <;> subst lowers <;> cases old <;> decide

end CState

/-- `Core::mem_op_t`.  A write replaces some bytes of the line, so it carries a
function from the old contents of the line to the new ones. -/
inductive MemOp (V : Type) where
  | read
  | readEx
  | write (store : V → V)

namespace MemOp

variable {V : Type}

def exclusive : MemOp V → Bool
  | .read => false
  | .readEx | .write _ => true

def apply : MemOp V → V → V
  | .read, value | .readEx, value => value
  | .write store, value => store value

end MemOp

/-- `CacheCntlr::operationPermissibleinCache`. -/
def operationPermissible {V : Type} (op : MemOp V) (cstate : CState) : Bool :=
  if op.exclusive then cstate.writable else cstate.readable

end Sniper

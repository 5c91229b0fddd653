import Sniper.Cache.State
import Sniper.Library.Machine
import Mathlib.Logic.Function.Basic

/-! A cache set as its replacement policy sees it.

Ways are numbered from zero.  A way holds the coherence state of its block, or nothing while the block is
not valid. -/

namespace Sniper.Replacement

abbrev Contents := Nat → Option CState

def isValidReplacement (set : Contents) (index : Nat) : Bool := set index ≠ some .sharedUpgrading

/-- The first way whose block is not valid. -/
def firstInvalid (associativity : Nat) (set : Contents) : Option Nat :=
  (List.range associativity).find? fun way => (set way).isNone

inductive Fault where
  /-- "Should not reach here" -/
  | shouldNotReachHere
  /-- "Error Finding LRU bits" -/
  | findingLruBits
  /-- "Error finding replacement index" -/
  | findingReplacementIndex
  /-- "PLRU selected an invalid replacement candidate", "SRRIP selected an invalid replacement candidate" -/
  | invalidCandidate
  /-- "Index(%d) >= Associativity(%d)" -/
  | indexOfAccess
  /-- A read behind the end of an array -/
  | outOfBounds
  /-- A search that never ends -/
  | diverges
deriving DecidableEq, Repr

/-- The arguments of `getReplacementIndex`. -/
structure Call where
  /-- The answers of the controller about the blocks of the set. -/
  isInLowerLevelCache : Nat → Bool
  l3HitFlag : Nat
  eip : Nat
  setIndex : Nat

/-- The virtual functions of `CacheSet`, with the fields of the class that implements them. -/
structure Policy where
  associativity : Nat
  State : Type
  /-- What the constructor may leave. -/
  constructed : State → Prop
  getReplacementIndex : Contents → Call → State → Except Fault (State × Nat)
  updateReplacementIndex : (accessedIndex writeFlag setIndex : Nat) → State → Except Fault State
  updateLoopBitPolicy : (index loopbit : Nat) → State → State

inductive Label where
  /-- `CacheSet::insert2`. -/
  | insert (call : Call) (cstate : CState)
  /-- `CacheSet::read_line` and `CacheSet::write_line` on a line that was found. -/
  | access (way writeFlag setIndex : Nat)
  | setCState (way : Nat) (cstate : CState)
  | invalidate (way : Nat)
  /-- `CacheSet::updateLoopBitSet` on a line that was found. -/
  | updateLoopBit (way loopbit : Nat)

namespace Policy

variable {policy : Policy}

def step (policy : Policy) (now : Contents × policy.State) : Label → Except Fault (Contents × policy.State)
  | .insert call cstate => do
      let (state, index) ← policy.getReplacementIndex now.1 call now.2
      Except.ok (Function.update now.1 index (some cstate), state)
  | .access way writeFlag setIndex =>
    if way < policy.associativity ∧ (now.1 way).isSome then do
      let state ← policy.updateReplacementIndex way writeFlag setIndex now.2
      Except.ok (now.1, state)
    else .ok now
  | .setCState way cstate => .ok (Function.update now.1 way ((now.1 way).map fun _ => cstate), now.2)
  | .invalidate way => .ok (Function.update now.1 way none, now.2)
  | .updateLoopBit way loopbit =>
    if way < policy.associativity ∧ (now.1 way).isSome then .ok (now.1, policy.updateLoopBitPolicy way loopbit now.2) else .ok now

theorem step_insert {now next : Contents × policy.State} {call : Call} {cstate : CState}
    (stepped : policy.step now (.insert call cstate) = .ok next) :
    ∃ index, policy.getReplacementIndex now.1 call now.2 = .ok (next.2, index) ∧
      next.1 = Function.update now.1 index (some cstate) := by
  cases result : policy.getReplacementIndex now.1 call now.2 with
  | error reason => simp [step, result, bind, Except.bind] at stepped
  | ok value =>
    simp only [step, result] at stepped
    cases stepped
    exact ⟨value.2, rfl, rfl⟩

theorem step_access {now next : Contents × policy.State} {way writeFlag setIndex : Nat}
    (stepped : policy.step now (.access way writeFlag setIndex) = .ok next) :
    (way < policy.associativity ∧ (now.1 way).isSome) ∧ next.1 = now.1 ∧
        policy.updateReplacementIndex way writeFlag setIndex now.2 = .ok next.2 ∨
      ¬(way < policy.associativity ∧ (now.1 way).isSome) ∧ next = now := by
  simp only [step] at stepped
  split at stepped
  case isTrue found =>
    cases result : policy.updateReplacementIndex way writeFlag setIndex now.2 with
    | error reason => simp [result, bind, Except.bind] at stepped
    | ok value =>
      simp only [result] at stepped
      cases stepped
      exact .inl ⟨found, rfl, rfl⟩
  case isFalse missing =>
    cases stepped
    exact .inr ⟨missing, rfl⟩

def machine (policy : Policy) : Machine (Contents × policy.State) Label Fault where
  initial start := start.1 = (fun _ => none) ∧ policy.constructed start.2
  step := policy.step

def Replaces (policy : Policy) (set : Contents) (call : Call) (state : policy.State) : Prop :=
  ∃ after index, policy.getReplacementIndex set call state = .ok (after, index) ∧ index < policy.associativity ∧
    isValidReplacement set index = true

/-- Whether every call does, in all states the policy can be in and for all full sets with a block that
may be replaced. -/
def AlwaysReplaces (policy : Policy) : Prop :=
  ∀ contents state, policy.machine.Reachable (contents, state) →
    ∀ set : Contents, (∀ way < policy.associativity, (set way).isSome) →
      (∃ way < policy.associativity, isValidReplacement set way = true) →
      ∀ call, policy.Replaces set call state

theorem invariant (policy : Policy) {contents : Contents} {state : policy.State} (invariant : policy.State → Prop)
    (initially : ∀ state, policy.constructed state → invariant state)
    (replaced : ∀ set call state after index, policy.getReplacementIndex set call state = .ok (after, index) →
      invariant state → invariant after)
    (updated : ∀ way < policy.associativity, ∀ writeFlag setIndex state after,
      policy.updateReplacementIndex way writeFlag setIndex state = .ok after → invariant state → invariant after)
    (looped : ∀ way loopbit state, invariant state → invariant (policy.updateLoopBitPolicy way loopbit state))
    (reached : policy.machine.Reachable (contents, state)) : invariant state := by
  have kept : ∀ now, policy.machine.Reachable now → invariant now.2 := by
    intro now reached
    refine reached.invariant (fun now => invariant now.2) ?_ ?_
    · intro start starts
      exact initially start.2 starts.2
    intro before label after holds _ stepped
    cases label with
    | insert call cstate =>
      obtain ⟨index, result, _⟩ := step_insert stepped
      exact replaced _ _ _ _ _ result holds
    | access way writeFlag setIndex =>
      obtain ⟨found, _, result⟩ | ⟨_, same⟩ := step_access stepped
      · exact updated way found.1 _ _ _ _ result holds
      · exact same ▸ holds
    | setCState way cstate =>
      cases stepped
      exact holds
    | invalidate way =>
      cases stepped
      exact holds
    | updateLoopBit way loopbit =>
      simp only [machine, step] at stepped
      split at stepped
      · cases stepped
        exact looped way loopbit _ holds
      · cases stepped
        exact holds
  exact kept (contents, state) reached

end Policy

/-! ### Sets -/

section Sets

variable {associativity way : Nat} {set : Contents}

theorem firstInvalid_eq_none (full : ∀ way < associativity, (set way).isSome) :
    firstInvalid associativity set = none := by
  refine List.find?_eq_none.mpr fun way member => ?_
  simp [Option.isSome_iff_ne_none.mp (full way (List.mem_range.mp member))]

theorem firstInvalid_eq_some (small : way < associativity) (invalid : set way = none)
    (valid : ∀ other < way, (set other).isSome) : firstInvalid associativity set = some way := by
  rw [firstInvalid, List.find?_range_eq_some]
  refine ⟨by simp [invalid], List.mem_range.mpr small, fun other less => ?_⟩
  simp [valid other less]

theorem firstInvalid_lt (invalid : firstInvalid associativity set = some way) : way < associativity :=
  List.mem_range.mp (List.mem_of_find?_eq_some invalid)

/-- All blocks but one wait for an upgrade. -/
def onlyWay (way : Nat) : Contents := fun other => some (if other = way then .shared else .sharedUpgrading)

def allBut (way : Nat) : Contents := fun other => some (if other = way then .sharedUpgrading else .shared)

theorem onlyWay_valid (other : Nat) : isValidReplacement (onlyWay way) other = true ↔ other = way := by
  simp [isValidReplacement, onlyWay]

theorem allBut_valid (other : Nat) : isValidReplacement (allBut way) other = true ↔ other ≠ way := by
  simp [isValidReplacement, allBut]

theorem onlyWay_firstInvalid : firstInvalid associativity (onlyWay way) = none :=
  firstInvalid_eq_none fun _ _ => rfl

theorem allBut_firstInvalid : firstInvalid associativity (allBut way) = none :=
  firstInvalid_eq_none fun _ _ => rfl

end Sets

theorem Policy.AlwaysReplaces.only {policy : Policy} {way : Nat} {contents : Contents}
    {state : policy.State} (always : policy.AlwaysReplaces)
    (reached : policy.machine.Reachable (contents, state)) (small : way < policy.associativity) (call : Call) :
    ∃ after, policy.getReplacementIndex (onlyWay way) call state = .ok (after, way) := by
  obtain ⟨after, index, result, _, valid⟩ := always contents state reached (onlyWay way) (fun _ _ => rfl)
    ⟨way, small, (onlyWay_valid way).mpr rfl⟩ call
  exact ⟨after, (onlyWay_valid index).mp valid ▸ result⟩

theorem Policy.AlwaysReplaces.rest {policy : Policy} {way other : Nat} {contents : Contents}
    {state : policy.State} (always : policy.AlwaysReplaces)
    (reached : policy.machine.Reachable (contents, state)) (small : other < policy.associativity)
    (apart : other ≠ way) (call : Call) :
    ∃ after index, policy.getReplacementIndex (allBut way) call state = .ok (after, index) ∧ index ≠ way := by
  obtain ⟨after, index, result, _, valid⟩ := always contents state reached (allBut way) (fun _ _ => rfl)
    ⟨other, small, (allBut_valid other).mpr apart⟩ call
  exact ⟨after, index, result, (allBut_valid index).mp valid⟩

theorem Policy.reach_second_way {policy : Policy} {start : policy.State}
    (lastUsed : policy.State → Nat → Prop) (constructed : policy.constructed start)
    (two : 2 ≤ policy.associativity) (call : Call)
    (fills : ∀ set state way, firstInvalid policy.associativity set = some way →
      ∃ after, policy.getReplacementIndex set call state = .ok (after, way) ∧ lastUsed after way) :
    ∃ contents state, policy.machine.Reachable (contents, state) ∧ lastUsed state 1 := by
  have empty : firstInvalid policy.associativity (fun _ => none) = some 0 :=
    firstInvalid_eq_some (by omega) rfl (by rintro _ ⟨⟩)
  obtain ⟨first, gotFirst, _⟩ := fills _ start 0 empty
  let filled : Contents := Function.update (fun _ => none) 0 (some .shared)
  have next : firstInvalid policy.associativity filled = some 1 := by
    refine firstInvalid_eq_some (by omega) (by simp [filled]) fun other less => ?_
    have zero : other = 0 := by omega
    simp [zero, filled]
  obtain ⟨second, gotSecond, used⟩ := fills filled first 1 next
  have afterFirst : policy.step ((fun _ => none), start) (.insert call .shared) = .ok (filled, first) := by
    simp [step, gotFirst, filled, bind, Except.bind]
  have afterSecond : policy.step (filled, first) (.insert call .shared) =
      .ok (Function.update filled 1 (some .shared), second) := by
    simp [step, gotSecond, bind, Except.bind]
  have begins : policy.machine.Reachable ((fun _ => none), start) := .initial ⟨rfl, constructed⟩
  have fillsFirst : policy.machine.Reachable (filled, first) := .step (.insert call .shared) begins trivial afterFirst
  exact ⟨_, second, .step (.insert call .shared) fillsFirst trivial afterSecond, used⟩

end Sniper.Replacement

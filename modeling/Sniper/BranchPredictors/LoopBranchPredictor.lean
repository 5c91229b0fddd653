import Sniper.Library.Runs
import Mathlib.Algebra.Ring.Int.Defs
import Mathlib.Algebra.Ring.Nat
import Mathlib.Logic.Function.Basic
import Mathlib.Tactic.SplitIfs

/-! `LoopBranchPredictor`: entries that count the equal outcomes of a branch up to the one that ends its loop. -/

namespace Sniper.BranchPredictors

/-! ### `SaturatingPredictor` -/

/-- A counter of `n` bits. -/
structure SaturatingPredictor (n : Nat) where
  counter : Int
  lower : -2 ^ (n - 1) ≤ counter
  upper : counter ≤ 2 ^ (n - 1) - 1
deriving DecidableEq, Repr

namespace SaturatingPredictor

variable {n : Nat}

def predict (predictor : SaturatingPredictor n) : Bool := 0 ≤ predictor.counter

theorem pow_pos (n : Nat) : (0 : Int) < 2 ^ (n - 1) := Int.pow_pos (by decide)

def reset (n : Nat) (prediction : Bool) : SaturatingPredictor n :=
  if prediction then ⟨2 ^ (n - 1) - 1, by have := pow_pos n; omega, Int.le_refl _⟩
  else ⟨-2 ^ (n - 1), Int.le_refl _, by have := pow_pos n; omega⟩

def increment (predictor : SaturatingPredictor n) : SaturatingPredictor n :=
  if most : predictor.counter = 2 ^ (n - 1) - 1 then predictor
  else ⟨predictor.counter + 1, by have := predictor.lower; omega, by have := predictor.upper; omega⟩

def decrement (predictor : SaturatingPredictor n) : SaturatingPredictor n :=
  if least : predictor.counter = -2 ^ (n - 1) then predictor
  else ⟨predictor.counter - 1, by have := predictor.lower; omega, by have := predictor.upper; omega⟩

def update (predictor : SaturatingPredictor n) (actual : Bool) : SaturatingPredictor n :=
  if actual then predictor.increment else predictor.decrement

theorem predict_reset (n : Nat) (prediction : Bool) : (reset n prediction).predict = prediction := by
  have positive := pow_pos n
  cases prediction
  · refine decide_eq_false ?_
    show ¬(0 : Int) ≤ -2 ^ (n - 1)
    omega
  · refine decide_eq_true ?_
    show (0 : Int) ≤ 2 ^ (n - 1) - 1
    omega

theorem predict_update (predictor : SaturatingPredictor 1) (actual : Bool) : (predictor.update actual).predict = actual := by
  obtain ⟨counter, lower, upper⟩ := predictor
  simp only [Nat.sub_self, Int.pow_zero] at lower upper
  cases actual
  · simp [update, decrement, predict]
    split_ifs <;> simp <;> omega
  · simp [update, increment, predict]
    split_ifs <;> simp <;> omega

end SaturatingPredictor

/-! ### `LoopBranchPredictor` -/

inductive BranchType where
  | invalidBranch
  | directBranch
  | indirectBranch
  | unconditionalBranch
  | conditionalBranch
deriving DecidableEq, Repr

structure BranchPredictorReturnValue where
  prediction : Bool
  hit : Bool
  target : UInt64
  type : BranchType
deriving DecidableEq, Repr

namespace LoopBranchPredictor

structure Entry where
  tag : Fin 64
  previousActual : Bool
  enabled : Bool
  predictor : SaturatingPredictor 1
  lru : UInt64
  count : UInt32
  limit : UInt32
deriving DecidableEq, Repr

end LoopBranchPredictor

open LoopBranchPredictor in
/-- A predictor with 64 entries in each way. -/
structure LoopBranchPredictor where
  lruUseCount : UInt64
  /-- `m_ways`: at each index, the entry of each way. -/
  ways : Fin 64 → List Entry

namespace LoopBranchPredictor

/-- An entry that has not been allocated. -/
def Entry.initial : Entry := ⟨0, false, false, ⟨0, by decide, by decide⟩, 0, 0, 0⟩

def create (numWays : Nat) : LoopBranchPredictor := ⟨0, fun _ => List.replicate numWays Entry.initial⟩

def genIndexTag (ip : UInt64) : Fin 64 × Fin 64 :=
  (Fin.ofNat 64 (ip >>> 4 &&& 0x3F).toNat, Fin.ofNat 64 (ip >>> 10 &&& 0x3F).toNat)

namespace Entry

def predictionMatch (entry : Entry) (actual : Bool) : Bool :=
  if entry.count = entry.limit then entry.predictor.predict != actual else entry.predictor.predict == actual

/-- The counter, the limit and the enable flag while the branch keeps its direction. -/
def sameDirection (entry : Entry) (actual : Bool) : UInt32 × UInt32 × Bool :=
  if !entry.predictionMatch actual then
    if entry.count < entry.limit then (0, entry.count, entry.enabled)
    else (entry.count + 1, entry.count + 1, false)
  else if entry.count = entry.limit then (0, entry.limit, entry.enabled)
  else (entry.count + 1, entry.limit, entry.enabled)

/-- What `update` does with the entry that has the tag, but for the use count. -/
def train (entry : Entry) (actual : Bool) : Entry :=
  let (sameDirectionCounter, sameDirectionLimit, sameDirectionEnabled) := entry.sameDirection actual
  let same := { entry with count := sameDirectionCounter, limit := sameDirectionLimit, enabled := sameDirectionEnabled }
  let next :=
    if entry.previousActual == actual && actual == !entry.predictor.predict then
      { entry with count := 1, limit := 1, predictor := entry.predictor.update actual, enabled := false }
    else if entry.previousActual != actual && actual == !entry.predictor.predict then
      if !entry.enabled then { entry with enabled := true, count := 0 } else same
    else same
  { next with previousActual := actual }

/-- What `update` does with the entry that it replaces, but for the use count. -/
def allocate (entry : Entry) (tag : Fin 64) (actual : Bool) : Entry :=
  { entry with tag := tag, predictor := .reset 1 actual, previousActual := actual, count := 1, limit := 1 }

def enables (entry : Entry) (actual : Bool) : Bool :=
  entry.previousActual != actual && actual == !entry.predictor.predict && !entry.enabled

def prediction (entry : Entry) : Bool :=
  if entry.count = entry.limit then !entry.predictor.predict else entry.predictor.predict

end Entry

/-- The way that `lookup` finds. -/
def hitWay (predictor : LoopBranchPredictor) (ip : UInt64) : Option Nat :=
  (predictor.ways (genIndexTag ip).1).findIdx? fun entry => entry.enabled && entry.tag == (genIndexTag ip).2

/-- The way that `update` finds. -/
def tagWay (predictor : LoopBranchPredictor) (ip : UInt64) : Option Nat :=
  (predictor.ways (genIndexTag ip).1).findIdx? fun entry => entry.tag == (genIndexTag ip).2

/-- The loop over the ways for the least recently used one, given the best one before. -/
def leastRecent : List Entry → (way lruWay : Nat) → (lru : UInt64) → Nat
  | [], _, lruWay, _ => lruWay
  | entry :: rest, way, lruWay, lru =>
    if entry.lru < lru then leastRecent rest (way + 1) way entry.lru else leastRecent rest (way + 1) lruWay lru

/-- The way that `update` replaces. -/
def lruWay (predictor : LoopBranchPredictor) (ip : UInt64) : Nat :=
  match predictor.ways (genIndexTag ip).1 with
  | [] => 0
  | first :: rest => leastRecent (first :: rest) 0 0 first.lru

/-- A change of one entry, which is then the most recently used one. -/
def use (predictor : LoopBranchPredictor) (index : Fin 64) (way : Nat) (change : Entry → Entry) : LoopBranchPredictor where
  lruUseCount := predictor.lruUseCount + 1
  ways := Function.update predictor.ways index
    ((predictor.ways index).modify way fun entry => { change entry with lru := predictor.lruUseCount })

def lookup (predictor : LoopBranchPredictor) (ip : UInt64) : BranchPredictorReturnValue × LoopBranchPredictor :=
  match predictor.hitWay ip with
  | none => (⟨false, false, 0, .invalidBranch⟩, predictor)
  | some way =>
    let entry := (predictor.ways (genIndexTag ip).1).getD way Entry.initial
    (⟨entry.prediction, true, 0, .invalidBranch⟩, predictor.use (genIndexTag ip).1 way id)

def update (predictor : LoopBranchPredictor) (actual : Bool) (ip : UInt64) : LoopBranchPredictor :=
  match predictor.tagWay ip with
  | some way => predictor.use (genIndexTag ip).1 way fun entry => entry.train actual
  | none => predictor.use (genIndexTag ip).1 (predictor.lruWay ip) fun entry => entry.allocate (genIndexTag ip).2 actual

/-! ### What the functions change -/

section Changes

variable {predictor : LoopBranchPredictor} {entry : Entry} {index other : Fin 64} {way : Nat} {change : Entry → Entry} {ip : UInt64}

@[simp] theorem use_ways_other (different : other ≠ index) : (predictor.use index way change).ways other = predictor.ways other :=
  Function.update_of_ne different _ _

@[simp] theorem use_ways_same : (predictor.use index way change).ways index =
    (predictor.ways index).modify way fun entry => { change entry with lru := predictor.lruUseCount } :=
  Function.update_self _ _ _

theorem use_getElem? {place : Nat} (found : ((predictor.use index way change).ways other)[place]? = some entry) :
    (predictor.ways other)[place]? = some entry ∧ ¬(other = index ∧ place = way) ∨
    other = index ∧ place = way ∧ ∃ old, (predictor.ways index)[way]? = some old ∧
      entry = { change old with lru := predictor.lruUseCount } := by
  by_cases same : other = index
  · subst same
    rw [use_ways_same, List.getElem?_modify] at found
    by_cases here : way = place
    · subst here
      cases old : (predictor.ways other)[way]? with
      | none => simp [old] at found
      | some before =>
        rw [old] at found
        simp only [↓reduceIte, Option.map_eq_map, Option.map_some, Option.some.injEq] at found
        exact .inr ⟨rfl, rfl, before, rfl, found.symm⟩
    · simp only [if_neg here, id_map'] at found
      exact .inl ⟨by simpa using found, fun both => here both.2.symm⟩
  · rw [use_ways_other same] at found
    exact .inl ⟨found, fun both => same both.1⟩

theorem train_tag (entry : Entry) (actual : Bool) : (entry.train actual).tag = entry.tag := by
  unfold Entry.train
  split_ifs <;> rfl

theorem train_enabled {actual : Bool} (enabled : (entry.train actual).enabled = true) :
    entry.enabled = true ∨ entry.enables actual = true := by
  have kept : (entry.sameDirection actual).2.2 = true → entry.enabled = true := by
    unfold Entry.sameDirection
    split_ifs <;> simp
  rw [Entry.train] at enabled
  by_cases turned : (entry.previousActual == actual && actual == !entry.predictor.predict) = true
  · simp [turned] at enabled
  · by_cases changed : (entry.previousActual != actual && actual == !entry.predictor.predict) = true
    · cases before : entry.enabled with
      | true => exact .inl rfl
      | false => exact .inr (by rw [Entry.enables, changed, before]; rfl)
    · simp only [turned, changed] at enabled
      exact .inl (kept enabled)

end Changes

end LoopBranchPredictor

end Sniper.BranchPredictors

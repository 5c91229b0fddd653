import Sniper.Library.CircularArray
import Sniper.Library.Median
import Sniper.Library.Outcome
import Mathlib.Algebra.BigOperators.Group.List.Basic
import Mathlib.Data.UInt

/-! `MovingArithmeticMean` and `MovingMedian`: averages of the last values, which a circular array holds. -/

namespace Sniper

open CircularArray

namespace MovingAverage

inductive Fault where
  /-- The assertion on `m_max_value`. -/
  | differentModuli
  | outOfBounds
  | divisionByZero
deriving DecidableEq, Repr

/-- Numbers have 32 bits. -/
structure ModuloNum where
  value : Nat
  maxValue : Nat
deriving DecidableEq, Repr

namespace ModuloNum

variable {num other : ModuloNum} {value : Nat}

/-- `value % m_max_value` -/
def reduce (value maxValue : Nat) : Except Fault Nat :=
  if maxValue = 0 then .error .divisionByZero else .ok (value % maxValue)

/-- `operator+` -/
def add (num other : ModuloNum) : Except Fault ModuloNum := do
  if num.maxValue = other.maxValue then
    let value ← reduce ((num.value + other.value) % 2 ^ 32) num.maxValue
    return ⟨value, num.maxValue⟩
  else throw .differentModuli

/-- `operator-` -/
def sub (num other : ModuloNum) : Except Fault ModuloNum :=
  if num.maxValue = other.maxValue then
    .ok ⟨if other.value ≤ num.value then num.value - other.value
      else (num.maxValue + 2 ^ 32 - other.value + num.value) % 2 ^ 32, num.maxValue⟩
  else .error .differentModuli

/-- `operator+` for a `UInt32`. -/
def addValue (num : ModuloNum) (value : Nat) : Except Fault ModuloNum := do
  let value ← reduce value num.maxValue
  num.add ⟨value, num.maxValue⟩

end ModuloNum

end MovingAverage

open MovingAverage

/-- `MovingAverage<SubsecondTime>` -/
structure MovingAverage where
  /-- `m_num_list`, of `m_max_window_size + 1` numbers. -/
  numList : Nat → UInt64
  maxWindowSize : Nat
  currWindowFront : ModuloNum
  currWindowBack : ModuloNum

namespace MovingAverage

/-- The size of `m_num_list`. -/
def numListSize (maxWindowSize : Nat) : Nat := (maxWindowSize + 1) % 2 ^ 32

/-- The constructor. -/
def create (maxWindowSize : Nat) : MovingAverage where
  numList _ := 0
  maxWindowSize := maxWindowSize
  currWindowFront := ⟨0, numListSize maxWindowSize⟩
  currWindowBack := ⟨0, numListSize maxWindowSize⟩

/-- `m_num_list[index]` -/
def read (average : MovingAverage) (index : Nat) : Except Fault UInt64 :=
  if index < numListSize average.maxWindowSize then .ok (average.numList index) else .error .outOfBounds

/-- `m_num_list[index] = number` -/
def write (average : MovingAverage) (index : Nat) (number : UInt64) : Except Fault MovingAverage :=
  if index < numListSize average.maxWindowSize then
    .ok { average with numList := Function.update average.numList index number }
  else .error .outOfBounds

def addToWindow (average : MovingAverage) (nextNum : UInt64) : Except Fault MovingAverage := do
  let average ← average.write average.currWindowBack.value nextNum
  let currWindowBack ← average.currWindowBack.addValue 1
  if currWindowBack = average.currWindowFront then
    let currWindowFront ← average.currWindowFront.addValue 1
    return { average with currWindowBack, currWindowFront }
  else return { average with currWindowBack }

def currWindowSize (average : MovingAverage) : Except Fault Nat := do
  let size ← average.currWindowBack.sub average.currWindowFront
  return size.value

end MovingAverage

structure MovingArithmeticMean where
  average : MovingAverage
  sum : UInt64

namespace MovingArithmeticMean

def create (maxWindowSize : Nat) : MovingArithmeticMean := ⟨.create maxWindowSize, 0⟩

def update (mean : MovingArithmeticMean) (nextNum : UInt64) : Except Fault MovingArithmeticMean := do
  let size ← mean.average.currWindowSize
  let sum ← if size = mean.average.maxWindowSize then do
      let oldest ← mean.average.read mean.average.currWindowFront.value
      Except.ok (mean.sum - oldest)
    else .ok mean.sum
  let average ← mean.average.addToWindow nextNum
  return ⟨average, sum + nextNum⟩

def compute (mean : MovingArithmeticMean) : Except Fault UInt64 := do
  let size ← mean.average.currWindowSize
  if size = 0 then throw .divisionByZero else return mean.sum / UInt64.ofNat size

end MovingArithmeticMean

structure MovingMedian where
  average : MovingAverage

namespace MovingMedian

def create (maxWindowSize : Nat) : MovingMedian := ⟨.create maxWindowSize⟩

def update (median : MovingMedian) (nextNum : UInt64) : Except Fault MovingMedian := do
  let average ← median.average.addToWindow nextNum
  return ⟨average⟩

def compute (median : MovingMedian) : Except Fault UInt64 := do
  let size ← median.average.currWindowSize
  let medianIndex ← median.average.currWindowFront.addValue (size / 2)
  median.average.read medianIndex.value

end MovingMedian

/-! ## The window -/

namespace MovingAverage

variable {average : MovingAverage} {maxWindowSize : Nat} {window values : List UInt64}

/-- The last values, oldest first. -/
def lastValues (maxWindowSize : Nat) (values : List UInt64) : List UInt64 := values.drop (values.length - maxWindowSize)

@[simp] theorem length_lastValues : (lastValues maxWindowSize values).length = values.length - (values.length - maxWindowSize) :=
  List.length_drop

/-- The array holds the last values, from its front on. -/
structure Holds (maxWindowSize : Nat) (average : MovingAverage) (values : List UInt64) : Prop where
  positive : 0 < maxWindowSize
  fits : maxWindowSize + 1 < 2 ^ 32
  size : average.maxWindowSize = maxWindowSize
  front : average.currWindowFront = ⟨(values.length - maxWindowSize) % (maxWindowSize + 1), maxWindowSize + 1⟩
  back : average.currWindowBack = ⟨values.length % (maxWindowSize + 1), maxWindowSize + 1⟩
  numbers : stretch average.numList (maxWindowSize + 1) (values.length - maxWindowSize) (lastValues maxWindowSize values).length =
    lastValues maxWindowSize values

theorem addValue_eq {num : ModuloNum} {value : Nat} (modulus : num.maxValue = maxWindowSize + 1) (small : value < maxWindowSize + 1) :
    num.addValue value = .ok ⟨(num.value + value) % 2 ^ 32 % (maxWindowSize + 1), maxWindowSize + 1⟩ := by
  have reduced (value : Nat) : ModuloNum.reduce value (maxWindowSize + 1) = .ok (value % (maxWindowSize + 1)) :=
    if_neg (Nat.succ_ne_zero _)
  simp only [ModuloNum.addValue, ModuloNum.add, modulus, reduced, bind, Except.bind, if_true, pure, Except.pure,
    Nat.mod_eq_of_lt small]

theorem addValue_one {num : ModuloNum} {count : Nat} (fits : maxWindowSize + 1 < 2 ^ 32) (positive : 0 < maxWindowSize)
    (isNum : num = ⟨count % (maxWindowSize + 1), maxWindowSize + 1⟩) :
    num.addValue 1 = .ok ⟨(count + 1) % (maxWindowSize + 1), maxWindowSize + 1⟩ := by
  have inside : count % (maxWindowSize + 1) < maxWindowSize + 1 := Nat.mod_lt _ (Nat.succ_pos _)
  have small : count % (maxWindowSize + 1) + 1 < 2 ^ 32 := by omega
  subst isNum
  rw [addValue_eq rfl (by omega), Nat.mod_eq_of_lt small, Nat.mod_add_mod]

theorem numListSize_eq (fits : maxWindowSize + 1 < 2 ^ 32) : numListSize maxWindowSize = maxWindowSize + 1 := Nat.mod_eq_of_lt fits

theorem lastValues_concat (maxWindowSize : Nat) (number : UInt64) : lastValues maxWindowSize (values ++ [number]) =
    (lastValues maxWindowSize values ++ [number]).drop (if values.length < maxWindowSize then 0 else 1) := by
  have start : values.length - maxWindowSize ≤ values.length := Nat.sub_le _ _
  rw [lastValues, lastValues, ← List.drop_append_of_le_length start, List.drop_drop, List.length_append, List.length_singleton]
  congr 1
  split <;> omega

def written (average : MovingAverage) (place : Nat) (number : UInt64) : MovingAverage :=
  { average with numList := Function.update average.numList place number }

namespace Holds

theorem create (positive : 0 < maxWindowSize) (fits : maxWindowSize + 1 < 2 ^ 32) : Holds maxWindowSize (create maxWindowSize) [] := by
  refine ⟨positive, fits, rfl, ?_, ?_, ?_⟩ <;> simp [MovingAverage.create, numListSize_eq fits, lastValues]

theorem currWindowSize (holds : Holds maxWindowSize average values) :
    average.currWindowSize = .ok (lastValues maxWindowSize values).length := by
  have fits := holds.fits
  have distance (front back count : Nat) (inside : front < maxWindowSize + 1) (few : count < maxWindowSize + 1)
      (isBack : (front + count) % (maxWindowSize + 1) = back) :
      (if front ≤ back then back - front else (maxWindowSize + 1 + 2 ^ 32 - front + back) % 2 ^ 32) = count := by
    by_cases wraps : front + count < maxWindowSize + 1
    · rw [Nat.mod_eq_of_lt wraps] at isBack
      rw [if_pos (by omega)]
      omega
    · rw [Nat.mod_eq_sub_mod (Nat.le_of_not_lt wraps), Nat.mod_eq_of_lt (by omega)] at isBack
      rw [if_neg (by omega)]
      omega
  rw [MovingAverage.currWindowSize, holds.back, holds.front, ModuloNum.sub, if_pos rfl, length_lastValues]
  refine congrArg Except.ok (distance _ _ _ (Nat.mod_lt _ (Nat.succ_pos _)) (by omega) ?_)
  rw [Nat.mod_add_mod]
  congr 1
  omega

theorem read (holds : Holds maxWindowSize average values) {index : Nat} {number : UInt64}
    (there : (lastValues maxWindowSize values)[index]? = some number) :
    average.read ((values.length - maxWindowSize + index) % (maxWindowSize + 1)) = .ok number := by
  have inside : index < (lastValues maxWindowSize values).length := (List.getElem?_eq_some_iff.mp there).1
  rw [← holds.numbers, getElem?_stretch inside] at there
  rw [MovingAverage.read, holds.size, numListSize_eq holds.fits, if_pos (Nat.mod_lt _ (Nat.succ_pos _)), Option.some.inj there]

theorem write (holds : Holds maxWindowSize average values) (number : UInt64) :
    average.write average.currWindowBack.value number =
      .ok (written average (values.length % (maxWindowSize + 1)) number) := by
  have place : average.currWindowBack.value = values.length % (maxWindowSize + 1) := by rw [holds.back]
  have isSlot : average.currWindowBack.value < numListSize average.maxWindowSize := by
    rw [place, holds.size, numListSize_eq holds.fits]
    exact Nat.mod_lt _ (Nat.succ_pos _)
  rw [MovingAverage.write, if_pos isSlot, place, written]

theorem stretch_written (holds : Holds maxWindowSize average values) (number : UInt64) :
    stretch (written average (values.length % (maxWindowSize + 1)) number).numList (maxWindowSize + 1) (values.length - maxWindowSize)
      ((lastValues maxWindowSize values).length + 1) = lastValues maxWindowSize values ++ [number] := by
  have count := @length_lastValues maxWindowSize values
  have behind : values.length = values.length - maxWindowSize + (lastValues maxWindowSize values).length := by omega
  have room : (lastValues maxWindowSize values).length < maxWindowSize + 1 := by omega
  have slot : (written average (values.length % (maxWindowSize + 1)) number).numList = Function.update average.numList
      ((values.length - maxWindowSize + (lastValues maxWindowSize values).length) % (maxWindowSize + 1)) number := by rw [← behind]; rfl
  rw [slot, stretch_push room, holds.numbers]

theorem comesRound_iff (holds : Holds maxWindowSize average values) :
    ⟨(values.length + 1) % (maxWindowSize + 1), maxWindowSize + 1⟩ = average.currWindowFront ↔ ¬values.length < maxWindowSize := by
  rw [holds.front, ModuloNum.mk.injEq, and_iff_left rfl]
  constructor
  · intro place filling
    rw [Nat.mod_eq_of_lt (by omega), Nat.mod_eq_of_lt (by omega)] at place
    omega
  · intro full
    have lap : values.length + 1 = values.length - maxWindowSize + (maxWindowSize + 1) := by omega
    rw [lap, Nat.add_mod_right]

theorem addToWindow (holds : Holds maxWindowSize average values) (number : UInt64) :
    ∃ next, average.addToWindow number = .ok next ∧ Holds maxWindowSize next (values ++ [number]) := by
  have fits := holds.fits
  have positive := holds.positive
  have length : (values ++ [number]).length = values.length + 1 := by rw [List.length_append, List.length_singleton]
  have pushed := holds.stretch_written number
  have back : (written average (values.length % (maxWindowSize + 1)) number).currWindowBack.addValue 1 =
      .ok ⟨(values.length + 1) % (maxWindowSize + 1), maxWindowSize + 1⟩ := addValue_one fits positive holds.back
  simp only [MovingAverage.addToWindow, holds.write number, back, bind, Except.bind]
  split
  case isTrue round =>
    have full := holds.comesRound_iff.mp round
    have moved : (written average (values.length % (maxWindowSize + 1)) number).currWindowFront.addValue 1 =
        .ok ⟨(values.length - maxWindowSize + 1) % (maxWindowSize + 1), maxWindowSize + 1⟩ := addValue_one fits positive holds.front
    have next : values.length + 1 - maxWindowSize = values.length - maxWindowSize + 1 := by omega
    simp only [moved]
    refine ⟨_, rfl, positive, fits, holds.size, ?_, ?_, ?_⟩
    · rw [length, next]
    · rw [length]
    · rw [lastValues_concat, if_neg full, ← pushed, length, next, stretch_cons]
      simp only [List.drop_succ_cons, List.drop_zero, length_stretch]
  case isFalse apart =>
    have filling : values.length < maxWindowSize := by
      by_contra full
      exact apart (holds.comesRound_iff.mpr full)
    refine ⟨_, rfl, positive, fits, holds.size, ?_, ?_, ?_⟩
    · rw [length, Nat.sub_eq_zero_of_le (show values.length + 1 ≤ maxWindowSize from filling)]
      exact holds.front.trans (by rw [Nat.sub_eq_zero_of_le (Nat.le_of_lt filling)])
    · rw [length]
    · rw [lastValues_concat, if_pos filling, List.drop_zero, ← pushed, length, length_stretch]
      congr 1
      omega

end Holds

theorem foldlM_holds {Average : Type} {update : Average → UInt64 → Except Fault Average} {start : Average}
    (invariant : Average → List UInt64 → Prop) (starts : invariant start [])
    (updates : ∀ average values number, invariant average values →
      ∃ next, update average number = .ok next ∧ invariant next (values ++ [number])) (values : List UInt64) :
    ∃ average, values.foldlM update start = .ok average ∧ invariant average values := by
  have ends : Meets (fun _ => False) (values.foldlM update start) fun average => invariant average values := by
    refine Meets.foldlM (fun done average => invariant average done) values (fun done number rest average split holds => ?_) starts
    obtain ⟨next, isNext, holds'⟩ := updates average done number holds
    rw [isNext]
    exact holds'
  exact ends.ends fun _ => id

end MovingAverage

namespace MovingArithmeticMean

variable {mean : MovingArithmeticMean} {maxWindowSize : Nat} {values : List UInt64}

/-- The sum is that of the window, modulo `2 ^ 64`. -/
structure Holds (maxWindowSize : Nat) (mean : MovingArithmeticMean) (values : List UInt64) : Prop where
  average : mean.average.Holds maxWindowSize values
  sum : mean.sum = (lastValues maxWindowSize values).sum

theorem Holds.update (holds : Holds maxWindowSize mean values) (number : UInt64) :
    ∃ next, mean.update number = .ok next ∧ Holds maxWindowSize next (values ++ [number]) := by
  obtain ⟨average, added, holds'⟩ := holds.average.addToWindow number
  have positive := holds.average.positive
  have count := @length_lastValues maxWindowSize values
  rw [MovingArithmeticMean.update, holds.average.currWindowSize, holds.average.size]
  by_cases filling : values.length < maxWindowSize
  · have few : ¬(lastValues maxWindowSize values).length = maxWindowSize := by omega
    refine ⟨⟨average, mean.sum + number⟩, ?_, holds', ?_⟩
    · simp only [bind, Except.bind, if_neg few, added]
      rfl
    · rw [lastValues_concat, if_pos filling, List.drop_zero, List.sum_append, holds.sum, List.sum_singleton]
  · have full : (lastValues maxWindowSize values).length = maxWindowSize := by omega
    obtain ⟨oldest, rest, parts⟩ := List.exists_cons_of_length_pos (full ▸ positive)
    have read : mean.average.read mean.average.currWindowFront.value = .ok oldest := by
      have there := holds.average.read (show (lastValues maxWindowSize values)[0]? = some oldest by rw [parts]; rfl)
      rw [holds.average.front]
      exact there
    refine ⟨⟨average, mean.sum - oldest + number⟩, ?_, holds', ?_⟩
    · simp only [bind, Except.bind, if_pos full, read, added]
      rfl
    · rw [lastValues_concat, if_neg filling, parts, List.cons_append, List.drop_succ_cons, List.drop_zero, List.sum_append,
        List.sum_singleton, holds.sum, parts, List.sum_cons, UInt64.add_comm oldest, UInt64.add_sub_cancel]

theorem toNat_sum (numbers : List UInt64) : numbers.sum.toNat = (numbers.map UInt64.toNat).sum % 2 ^ 64 := by
  induction numbers with
  | nil => rfl
  | cons number rest ih => rw [List.sum_cons, UInt64.toNat_add, ih, List.map_cons, List.sum_cons, Nat.add_mod_mod]

/-- The mean of the last values, rounded down. -/
def Right (maxWindowSize : Nat) (values : List UInt64) : Prop :=
  ∃ mean result, values.foldlM update (create maxWindowSize) = .ok mean ∧ mean.compute = .ok result ∧
    result.toNat = ((lastValues maxWindowSize values).map UInt64.toNat).sum / (lastValues maxWindowSize values).length

theorem right (positive : 0 < maxWindowSize) (fits : maxWindowSize + 1 < 2 ^ 32) (nonempty : values ≠ [])
    (small : ((lastValues maxWindowSize values).map UInt64.toNat).sum < 2 ^ 64) : Right maxWindowSize values := by
  have starts : Holds maxWindowSize (create maxWindowSize) [] := ⟨.create positive fits, by rw [lastValues, List.drop_nil]; rfl⟩
  obtain ⟨mean, ran, holds⟩ := foldlM_holds (Holds maxWindowSize) starts
    (fun _ _ number holds => holds.update number) values
  have some_ : 0 < values.length := List.length_pos_iff.mpr nonempty
  have count := @length_lastValues maxWindowSize values
  have isPositive : ¬(lastValues maxWindowSize values).length = 0 := by omega
  have isWord : (UInt64.ofNat (lastValues maxWindowSize values).length).toNat = (lastValues maxWindowSize values).length := by
    rw [UInt64.toNat_ofNat']
    exact Nat.mod_eq_of_lt (by omega)
  refine ⟨mean, mean.sum / UInt64.ofNat (lastValues maxWindowSize values).length, ran, ?_, ?_⟩
  · simp only [compute, holds.average.currWindowSize, bind, Except.bind, if_neg isPositive]
    rfl
  · rw [UInt64.toNat_div, isWord, holds.sum, toNat_sum, Nat.mod_eq_of_lt small]

end MovingArithmeticMean

namespace MovingMedian

variable {median : MovingMedian} {maxWindowSize : Nat} {values : List UInt64}

theorem update_holds (holds : median.average.Holds maxWindowSize values) (number : UInt64) :
    ∃ next, median.update number = .ok next ∧ next.average.Holds maxWindowSize (values ++ [number]) := by
  obtain ⟨average, added, holds'⟩ := holds.addToWindow number
  refine ⟨⟨average⟩, ?_, holds'⟩
  simp only [update, added, bind, Except.bind]
  rfl

/-- The place in the window, by age, of the number that is read after so many updates: the one in the middle, unless the sum of the
front and half of the size overflows. -/
def middleIndex (maxWindowSize count : Nat) : Nat :=
  let size := min count maxWindowSize
  let front := (count - maxWindowSize) % (maxWindowSize + 1)
  if front + size / 2 < 2 ^ 32 then size / 2 else size + size / 2 + 1 - 2 ^ 32

theorem middleIndex_lt {count : Nat} (positive : 0 < maxWindowSize) (fits : maxWindowSize + 1 < 2 ^ 32) (some_ : 0 < count) :
    middleIndex maxWindowSize count < min count maxWindowSize := by
  simp only [middleIndex]
  split <;> omega

theorem slot_middleIndex {count : Nat} (fits : maxWindowSize + 1 < 2 ^ 32) :
    ((count - maxWindowSize) % (maxWindowSize + 1) + min count maxWindowSize / 2) % 2 ^ 32 % (maxWindowSize + 1) =
      (count - maxWindowSize + middleIndex maxWindowSize count) % (maxWindowSize + 1) := by
  simp only [middleIndex]
  have inside : (count - maxWindowSize) % (maxWindowSize + 1) < maxWindowSize + 1 := Nat.mod_lt _ (Nat.succ_pos _)
  split
  case isTrue small => rw [Nat.mod_eq_of_lt small, Nat.mod_add_mod]
  case isFalse large =>
    -- Only the front of a full window is not 0.
    have full : min count maxWindowSize = maxWindowSize := by
      by_contra filling
      have none_ : count - maxWindowSize = 0 := by omega
      rw [none_, Nat.zero_mod] at large
      omega
    rw [full] at large ⊢
    rw [← Nat.mod_add_mod (count - maxWindowSize)]
    generalize (count - maxWindowSize) % (maxWindowSize + 1) = front at *
    have around : front + (maxWindowSize + maxWindowSize / 2 + 1 - 2 ^ 32) =
        front + maxWindowSize / 2 - 2 ^ 32 + (maxWindowSize + 1) := by omega
    have wraps : (front + maxWindowSize / 2) % 2 ^ 32 = front + maxWindowSize / 2 - 2 ^ 32 := by omega
    rw [around, Nat.add_mod_right, wraps]

theorem compute_eq (holds : median.average.Holds maxWindowSize values) {number : UInt64}
    (there : (lastValues maxWindowSize values)[middleIndex maxWindowSize values.length]? = some number) :
    median.compute = .ok number := by
  have size : (lastValues maxWindowSize values).length = min values.length maxWindowSize := by
    rw [length_lastValues]
    omega
  have index : median.average.currWindowFront.addValue (min values.length maxWindowSize / 2) =
      .ok ⟨(values.length - maxWindowSize + middleIndex maxWindowSize values.length) % (maxWindowSize + 1), maxWindowSize + 1⟩ := by
    rw [← slot_middleIndex holds.fits, holds.front]
    exact addValue_eq rfl (by omega)
  simp only [compute, holds.currWindowSize, size, bind, Except.bind, index]
  exact holds.read there

/-- A median of the last values. -/
def Right (maxWindowSize : Nat) (values : List UInt64) : Prop :=
  ∃ median result, values.foldlM update (create maxWindowSize) = .ok median ∧ median.compute = .ok result ∧
    IsMedian ((lastValues maxWindowSize values).map UInt64.toNat) result.toNat

/-- Of the window, at most half of the numbers are less than the one at some place, and at most half of them greater. -/
def Balanced (index : Nat) (numbers : List Nat) : Prop :=
  ∀ middle, numbers[index]? = some middle →
    2 * numbers.countP (· < middle) ≤ numbers.length ∧ 2 * numbers.countP (middle < ·) ≤ numbers.length

theorem right_iff (positive : 0 < maxWindowSize) (fits : maxWindowSize + 1 < 2 ^ 32) (nonempty : values ≠ []) :
    Right maxWindowSize values ↔
      Balanced (middleIndex maxWindowSize values.length) ((lastValues maxWindowSize values).map UInt64.toNat) := by
  have starts : (create maxWindowSize).average.Holds maxWindowSize [] := .create positive fits
  obtain ⟨median, ran, holds⟩ := foldlM_holds (fun (median : MovingMedian) values => median.average.Holds maxWindowSize values)
    starts (fun _ _ number holds => update_holds holds number) values
  have small := middleIndex_lt positive fits (List.length_pos_iff.mpr nonempty)
  have inside : middleIndex maxWindowSize values.length < (lastValues maxWindowSize values).length := by
    rw [length_lastValues]
    omega
  have there : (lastValues maxWindowSize values)[middleIndex maxWindowSize values.length]? = some _ := List.getElem?_eq_getElem inside
  have computed := compute_eq holds there
  have isMiddle : ((lastValues maxWindowSize values).map UInt64.toNat)[middleIndex maxWindowSize values.length]? =
      some ((lastValues maxWindowSize values)[middleIndex maxWindowSize values.length].toNat) := by
    rw [List.getElem?_map, there]
    rfl
  have isList : (lastValues maxWindowSize values).map UInt64.toNat ≠ [] := by
    intro empty
    rw [List.map_eq_nil_iff.mp empty] at inside
    exact Nat.not_lt_zero _ inside
  constructor
  · intro ⟨median', result, ran', computed', isMedian⟩
    cases ran.symm.trans ran'
    cases computed.symm.trans computed'
    intro middle found
    cases isMiddle.symm.trans found
    exact (isMedian_iff isList).mp isMedian
  · intro balanced
    exact ⟨median, _, ran, computed, (isMedian_iff isList).mpr (balanced _ isMiddle)⟩

/-- The size of the array overflows, so that no number fits. -/
theorem not_right_of_last (nonempty : values ≠ []) : ¬Right (2 ^ 32 - 1) values := by
  intro ⟨median, result, ran, _⟩
  cases values with
  | nil => exact nonempty rfl
  | cons first rest =>
    have fails : (first :: rest).foldlM update (create (2 ^ 32 - 1)) = .error .outOfBounds := rfl
    cases fails.symm.trans ran

theorem balanced_of_short {index : Nat} {numbers : List Nat} (short : numbers.length ≤ 2) : Balanced index numbers := by
  intro middle found
  have member : middle ∈ numbers := List.mem_of_getElem? found
  have fewer (holds : Nat → Bool) (fails : holds middle = false) : numbers.countP holds < numbers.length := by
    apply Nat.lt_of_le_of_ne List.countP_le_length
    intro all
    exact absurd (List.countP_eq_length.mp all middle member) (by simp [fails])
  have less := fewer (· < middle) (by simp)
  have greater := fewer (middle < ·) (by simp)
  omega

theorem not_right_of_three (large : 2 < maxWindowSize) (fits : maxWindowSize + 1 < 2 ^ 32) : ¬Right maxWindowSize [1, 3, 2] := by
  have front : [(1 : UInt64), 3, 2].length - maxWindowSize = 0 := Nat.sub_eq_zero_of_le large
  have window : lastValues maxWindowSize [1, 3, 2] = [1, 3, 2] := by
    rw [lastValues, front, List.drop_zero]
  have size : min [(1 : UInt64), 3, 2].length maxWindowSize = 3 := Nat.min_eq_left large
  have index : middleIndex maxWindowSize [(1 : UInt64), 3, 2].length = 1 := by
    rw [middleIndex, front, size, Nat.zero_mod]
    rfl
  rw [right_iff (Nat.zero_lt_of_lt large) fits (List.cons_ne_nil _ _), index, window]
  intro balanced
  exact absurd (balanced 3 rfl).1 (by decide)

end MovingMedian

namespace MovingAverage

/-- Both averages of the last values are right. -/
def AveragesRight (maxWindowSize : Nat) (values : List UInt64) : Prop :=
  MovingArithmeticMean.Right maxWindowSize values ∧ MovingMedian.Right maxWindowSize values

/-- The averages are right if and only if the array has a size and the number that is picked by its age is a median: the mean always is,
if the array has a size. -/
theorem averages_right_iff (maxWindowSize : Nat) (values : List UInt64) (positive : 0 < maxWindowSize) (isWord : maxWindowSize < 2 ^ 32)
    (nonempty : values ≠ []) (small : ((lastValues maxWindowSize values).map UInt64.toNat).sum < 2 ^ 64) :
    AveragesRight maxWindowSize values ↔ maxWindowSize ≠ 2 ^ 32 - 1 ∧
      MovingMedian.Balanced (MovingMedian.middleIndex maxWindowSize values.length)
        ((lastValues maxWindowSize values).map UInt64.toNat) := by
  by_cases last : maxWindowSize = 2 ^ 32 - 1
  · subst last
    constructor
    · intro right
      exact absurd right.2 (MovingMedian.not_right_of_last nonempty)
    · intro condition
      exact absurd rfl condition.1
  · have fits : maxWindowSize + 1 < 2 ^ 32 := by omega
    rw [AveragesRight, and_iff_right (MovingArithmeticMean.right positive fits nonempty small), and_iff_right last]
    exact MovingMedian.right_iff positive fits nonempty

/-- Numbers that grow, and any numbers in a window of two. -/
theorem averages_right_growing : AveragesRight 3 [1, 2, 3, 4] ∧ AveragesRight 2 [1, 3, 2] := by
  constructor
  · have right := averages_right_iff 3 [1, 2, 3, 4] (by decide) (by decide) (List.cons_ne_nil _ _) (by decide)
    refine right.mpr ⟨by decide, ?_⟩
    intro middle found
    cases found
    decide
  · have right := averages_right_iff 2 [1, 3, 2] (by decide) (by decide) (List.cons_ne_nil _ _) (by decide)
    exact right.mpr ⟨by decide, MovingMedian.balanced_of_short (by decide)⟩

/-- Of the last three numbers, 3 is not a median. -/
theorem averages_wrong : ¬∀ maxWindowSize values, 0 < maxWindowSize → maxWindowSize + 1 < 2 ^ 32 → values ≠ [] →
    ((lastValues maxWindowSize values).map UInt64.toNat).sum < 2 ^ 64 → AveragesRight maxWindowSize values := by
  intro always
  have right := (always 3 [1, 3, 2] (by decide) (by decide) (List.cons_ne_nil _ _) (by decide)).2
  exact MovingMedian.not_right_of_three (by decide) (by decide) right

/-- For windows of one or two numbers the averages are always right, for larger ones not. -/
theorem averages_alwaysRight_iff {maxWindowSize : Nat} (positive : 0 < maxWindowSize) (isWord : maxWindowSize < 2 ^ 32) :
    (∀ values, values ≠ [] → ((lastValues maxWindowSize values).map UInt64.toNat).sum < 2 ^ 64 → AveragesRight maxWindowSize values) ↔
      maxWindowSize ≤ 2 := by
  constructor
  · intro always
    by_contra large
    by_cases last : maxWindowSize = 2 ^ 32 - 1
    · subst last
      exact MovingMedian.not_right_of_last (List.cons_ne_nil 1 []) (always [1] (List.cons_ne_nil _ _) (by decide)).2
    · have small : ((lastValues maxWindowSize [1, 3, 2]).map UInt64.toNat).sum < 2 ^ 64 := by
        have front : [(1 : UInt64), 3, 2].length - maxWindowSize = 0 := Nat.sub_eq_zero_of_le (Nat.lt_of_not_le large)
        rw [lastValues, front]
        decide
      have fits : maxWindowSize + 1 < 2 ^ 32 := by omega
      exact MovingMedian.not_right_of_three (Nat.lt_of_not_le large) fits (always [1, 3, 2] (List.cons_ne_nil _ _) small).2
  · intro short values nonempty small
    have fits : maxWindowSize + 1 < 2 ^ 32 := by omega
    have few : ((lastValues maxWindowSize values).map UInt64.toNat).length ≤ 2 := by
      rw [List.length_map, length_lastValues]
      omega
    exact ⟨MovingArithmeticMean.right positive fits nonempty small,
      (MovingMedian.right_iff positive fits nonempty).mpr (MovingMedian.balanced_of_short few)⟩

end MovingAverage

end Sniper

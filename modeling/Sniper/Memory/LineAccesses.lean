import Sniper.Performance.MicroOp
import Mathlib.Algebra.Ring.Nat

/-! `Core::initiateMemoryAccess`: an access goes to the caches one line at a time. -/

namespace Sniper.Core

open Performance

/-- What `coreInitiateMemoryAccess` is asked for; the arguments that all lines of an access have in common are left out. -/
structure LineAccess where
  line : Nat
  offset : Nat
  /-- `none` is `NULL`. -/
  dataBuf : Option Nat
  size : Nat
deriving DecidableEq, Repr

/-- Addresses have 64 bits, sizes 32. -/
structure Request where
  address : Nat
  dataBuf : Option Nat
  dataSize : Nat
deriving DecidableEq, Repr

namespace Request

variable (blockSize : Nat) (request : Request)

def endAddr : Nat := (request.address + request.dataSize) % 2 ^ 64

def beginAligned : Nat := request.address - request.address % blockSize

def endAligned : Nat := request.endAddr - request.endAddr % blockSize

/-- The offset and the size at a line, when some bytes are done. -/
def lineAccess (line done : Nat) : LineAccess :=
  let currOffset := if line = request.beginAligned blockSize then request.address % blockSize else 0
  let currSize :=
    if line = request.endAligned blockSize then (request.endAddr % blockSize + 2 ^ 32 - currOffset) % 2 ^ 32
    else blockSize - currOffset
  ⟨line, currOffset, request.dataBuf.map (· + done), currSize⟩

end Request

structure Progress (Mem : Type) where
  memory : Mem
  /-- The bytes that `curr_data_buffer_head` has passed. -/
  done : Nat
  hitWhere : HitWhere

def furthest (hitWhere thisHitWhere : HitWhere) : HitWhere :=
  if hitWhere = .unknown ∨ (thisHitWhere ≠ .unknown ∧ hitWhere.ctorIdx < thisHitWhere.ctorIdx) then thisHitWhere else hitWhere

variable {Mem : Type} (coreInitiateMemoryAccess : LineAccess → Mem → HitWhere × Mem)

def Progress.issue (access : LineAccess) (progress : Progress Mem) : Progress Mem :=
  let (thisHitWhere, memory) := coreInitiateMemoryAccess access progress.memory
  ⟨memory, progress.done + access.size, furthest progress.hitWhere thisHitWhere⟩

def Progress.start (memory : Mem) : Progress Mem := ⟨memory, 0, .unknown⟩

def Progress.result (progress : Progress Mem) : HitWhere × Mem := (progress.hitWhere, progress.memory)

/-- The loop over the lines, if it ends within some iterations. -/
def lineLoop (blockSize : Nat) (request : Request) : Nat → Nat → Progress Mem → Option (Progress Mem)
  | 0, _, _ => none
  | fuel + 1, line, progress =>
    if line ≤ request.endAligned blockSize then
      let access := request.lineAccess blockSize line progress.done
      let next := (line + blockSize) % 2 ^ 64
      if line = request.endAligned blockSize ∧ access.size = 0 then lineLoop blockSize request fuel next progress
      else lineLoop blockSize request fuel next (progress.issue coreInitiateMemoryAccess access)
    else some progress

/-- Where the access hit, and the memory after it; `memComponent` is the cache that the core accesses. -/
def initiateMemoryAccess (blockSize : Nat) (memComponent : HitWhere) (fuel : Nat) (request : Request) (memory : Mem) :
    Option (HitWhere × Mem) :=
  if request.dataSize = 0 then some (memComponent, memory)
  else
    (lineLoop coreInitiateMemoryAccess blockSize request fuel (request.beginAligned blockSize) (.start memory)).map Progress.result

/-! ### The lines of an access -/

/-- The accesses, one after the other, are to the bytes from some address on. -/
def Covers (request : Request) : Nat → List LineAccess → Prop
  | address, [] => address = request.address + request.dataSize
  | address, access :: rest => access.line + access.offset = address ∧
      access.dataBuf = request.dataBuf.map (· + (address - request.address)) ∧ Covers request (address + access.size) rest

/-- The accesses are to the bytes of a request, and to each of their lines once. -/
structure Splits (blockSize : Nat) (request : Request) (accesses : List LineAccess) : Prop where
  covers : Covers request request.address accesses
  inLine : ∀ access ∈ accesses, blockSize ∣ access.line ∧ 0 < access.size ∧ access.offset + access.size ≤ blockSize
  ascending : (accesses.map (·.line)).Pairwise (· < ·)
  touched : ∀ line, line ∈ accesses.map (·.line) ↔
    blockSize ∣ line ∧ line < request.address + request.dataSize ∧ request.address < line + blockSize

def Progress.issueAll (accesses : List LineAccess) (progress : Progress Mem) : Progress Mem :=
  accesses.foldl (fun progress access => progress.issue coreInitiateMemoryAccess access) progress

/-- The access ends after it has split the request. -/
def SplitExactly (blockSize : Nat) (memComponent : HitWhere) (request : Request) (memory : Mem) : Prop :=
  ∃ (fuel : Nat) (accesses : List LineAccess), Splits blockSize request accesses ∧
    initiateMemoryAccess coreInitiateMemoryAccess blockSize memComponent fuel request memory =
      some ((Progress.start memory).issueAll coreInitiateMemoryAccess accesses).result

def Request.within (request : Request) (blockSize line : Nat) : LineAccess :=
  ⟨line, max request.address line - line, request.dataBuf.map (· + (max request.address line - request.address)),
    min (request.address + request.dataSize) (line + blockSize) - max request.address line⟩

def Request.lines (request : Request) (blockSize : Nat) : Nat → Nat → List LineAccess
  | 0, _ => []
  | count + 1, line => request.within blockSize line :: request.lines blockSize count (line + blockSize)

structure Left (blockSize : Nat) (request : Request) (count line : Nat) : Prop where
  aligned : blockSize ∣ line
  positive : 0 < blockSize
  first : request.address < line + blockSize
  enough : request.address + request.dataSize ≤ line + blockSize * count
  few : line + blockSize * count < request.address + request.dataSize + blockSize

variable {coreInitiateMemoryAccess} {blockSize count line : Nat} {request : Request}

theorem Left.next (left : Left blockSize request (count + 1) line) : Left blockSize request count (line + blockSize) := by
  obtain ⟨aligned, positive, first, enough, few⟩ := left
  rw [Nat.mul_succ] at enough few
  exact ⟨Nat.dvd_add aligned (Nat.dvd_refl _), positive, by omega, by omega, by omega⟩

theorem Left.line_lt (left : Left blockSize request (count + 1) line) : line < request.address + request.dataSize := by
  have few := left.few
  rw [Nat.mul_succ] at few
  have := Nat.zero_le (blockSize * count)
  omega

theorem Left.covers (left : Left blockSize request count line) :
    Covers request (min (request.address + request.dataSize) (max request.address line)) (request.lines blockSize count line) := by
  induction count generalizing line with
  | zero =>
    have enough := left.enough
    rw [Nat.mul_zero] at enough
    rw [Request.lines, Covers]
    omega
  | succ count ih =>
    have here := left.line_lt
    have first := left.first
    have positive := left.positive
    have rest := ih left.next
    have after : min (request.address + request.dataSize) (max request.address (line + blockSize)) =
        min (request.address + request.dataSize) (max request.address line) + (request.within blockSize line).size := by
      dsimp only [Request.within]
      omega
    rw [after] at rest
    rw [Request.lines, Covers]
    refine ⟨?_, ?_, rest⟩
    · dsimp only [Request.within]
      omega
    · rw [Nat.min_eq_right (by omega)]
      rfl

theorem Left.inLine (left : Left blockSize request count line) (some_ : 0 < request.dataSize) :
    ∀ access ∈ request.lines blockSize count line,
      line ≤ access.line ∧ blockSize ∣ access.line ∧ 0 < access.size ∧ access.offset + access.size ≤ blockSize := by
  induction count generalizing line with
  | zero => exact fun _ member => absurd member List.not_mem_nil
  | succ count ih =>
    intro access member
    have here := left.line_lt
    have first := left.first
    have positive := left.positive
    cases List.mem_cons.mp member with
    | inl same =>
      subst same
      dsimp only [Request.within]
      exact ⟨Nat.le_refl line, left.aligned, by omega, by omega⟩
    | inr later =>
      obtain ⟨below, inLine⟩ := ih left.next access later
      exact ⟨by omega, inLine⟩

theorem Left.ascending (left : Left blockSize request count line) (some_ : 0 < request.dataSize) :
    ((request.lines blockSize count line).map (·.line)).Pairwise (· < ·) := by
  induction count generalizing line with
  | zero => exact .nil
  | succ count ih =>
    refine .cons ?_ (ih left.next)
    intro other member
    obtain ⟨access, later, rfl⟩ := List.mem_map.mp member
    have below := (left.next.inLine some_ access later).1
    have positive := left.positive
    dsimp only [Request.within]
    omega

theorem Left.touched (left : Left blockSize request count line) (other : Nat) :
    other ∈ (request.lines blockSize count line).map (·.line) ↔
      blockSize ∣ other ∧ line ≤ other ∧ other < request.address + request.dataSize := by
  induction count generalizing line with
  | zero =>
    have enough := left.enough
    rw [Nat.mul_zero] at enough
    simp only [Request.lines, List.map_nil, List.not_mem_nil, false_iff]
    omega
  | succ count ih =>
    have here := left.line_lt
    have positive := left.positive
    rw [Request.lines, List.map_cons, List.mem_cons, ih left.next]
    constructor
    · intro member
      cases member with
      | inl same =>
        subst same
        exact ⟨left.aligned, Nat.le_refl _, here⟩
      | inr later => exact ⟨later.1, by omega, later.2.2⟩
    · rintro ⟨aligned, notBefore, before⟩
      cases Nat.eq_or_lt_of_le notBefore with
      | inl same => exact .inl same.symm
      | inr after =>
        have apart : line + blockSize ≤ other := by
          obtain ⟨first, rfl⟩ := left.aligned
          obtain ⟨second, rfl⟩ := aligned
          rw [← Nat.mul_succ]
          exact Nat.mul_le_mul_left _ (Nat.lt_of_mul_lt_mul_left after)
        exact .inr ⟨aligned, apart, before⟩

theorem Left.splits (left : Left blockSize request count (request.beginAligned blockSize)) (some_ : 0 < request.dataSize) :
    Splits blockSize request (request.lines blockSize count (request.beginAligned blockSize)) := by
  have start : request.beginAligned blockSize ≤ request.address := Nat.sub_le _ _
  refine ⟨?_, fun access member => (left.inLine some_ access member).2, left.ascending some_, fun other => ?_⟩
  · have covers := left.covers
    rw [Nat.max_eq_left start, Nat.min_eq_right (Nat.le_add_right _ _)] at covers
    exact covers
  · rw [left.touched]
    have first := left.first
    constructor
    · rintro ⟨aligned, notBefore, before⟩
      exact ⟨aligned, before, by omega⟩
    · rintro ⟨aligned, before, after⟩
      refine ⟨aligned, ?_, before⟩
      obtain ⟨second, rfl⟩ := aligned
      obtain ⟨begin_, isBegin⟩ := left.aligned
      rw [isBegin] at start ⊢
      refine Nat.mul_le_mul_left _ (Nat.le_of_lt_succ (Nat.lt_of_mul_lt_mul_left (a := blockSize) ?_))
      rw [Nat.mul_succ]
      omega

/-! ### The loop -/

section Loop

variable {exponent : Nat} {progress : Progress Mem}

structure Fits (blockSize : Nat) (request : Request) : Prop where
  positive : 0 < blockSize
  /-- Sizes of lines have 32 bits. -/
  small : blockSize < 2 ^ 32
  fits : request.address + request.dataSize + blockSize < 2 ^ 64

theorem Fits.endAddr (fits : Fits blockSize request) : request.endAddr = request.address + request.dataSize :=
  Nat.mod_eq_of_lt (by have := fits.fits; omega)

theorem endAligned_dvd (blockSize : Nat) (request : Request) : blockSize ∣ request.endAligned blockSize :=
  Nat.dvd_sub_mod _

theorem beginAligned_dvd (blockSize : Nat) (request : Request) : blockSize ∣ request.beginAligned blockSize :=
  Nat.dvd_sub_mod _

theorem beginAligned_le (blockSize : Nat) (request : Request) : request.beginAligned blockSize ≤ request.address := Nat.sub_le _ _

theorem Fits.address_lt (fits : Fits blockSize request) : request.address < request.beginAligned blockSize + blockSize := by
  have below := Nat.mod_lt request.address fits.positive
  rw [Request.beginAligned]
  omega

theorem Fits.last (fits : Fits blockSize request) :
    request.endAligned blockSize ≤ request.address + request.dataSize ∧
      request.endAligned blockSize + request.endAddr % blockSize = request.address + request.dataSize ∧
      request.endAddr % blockSize < blockSize := by
  have least := Nat.mod_le request.endAddr blockSize
  have below := Nat.mod_lt request.endAddr fits.positive
  have same := fits.endAddr
  rw [Request.endAligned]
  omega

theorem add_le_of_multiples {first second : Nat} (aligned : blockSize ∣ first) (aligned' : blockSize ∣ second) (before : first < second) :
    first + blockSize ≤ second := by
  obtain ⟨begin_, rfl⟩ := aligned
  obtain ⟨end_, rfl⟩ := aligned'
  rw [← Nat.mul_succ]
  exact Nat.mul_le_mul_left _ (Nat.lt_of_mul_lt_mul_left before)

theorem Fits.le_last (fits : Fits blockSize request) (left : Left blockSize request (count + 1) line) :
    line ≤ request.endAligned blockSize := by
  by_contra after
  have apart := add_le_of_multiples (endAligned_dvd blockSize request) left.aligned (Nat.lt_of_not_le after)
  have here := left.line_lt
  obtain ⟨-, last, below⟩ := fits.last
  omega

theorem Fits.lineAccess (fits : Fits blockSize request) (left : Left blockSize request (count + 1) line) (some_ : 0 < request.dataSize)
    (begun : request.beginAligned blockSize ≤ line) :
    request.lineAccess blockSize line (max request.address line - request.address) = request.within blockSize line := by
  have here := left.line_lt
  have small := fits.small
  obtain ⟨-, last, below⟩ := fits.last
  have offset : (if line = request.beginAligned blockSize then request.address % blockSize else 0) = max request.address line - line := by
    have first := beginAligned_le blockSize request
    have begin_ := Nat.mod_le request.address blockSize
    split
    case isTrue same =>
      rw [same, Nat.max_eq_left first, Request.beginAligned, Nat.sub_sub_self begin_]
    case isFalse other =>
      have apart := add_le_of_multiples (beginAligned_dvd blockSize request) left.aligned (by omega)
      have address := fits.address_lt
      omega
  have first := left.first
  have atLast := fits.le_last left
  simp only [Request.lineAccess, Request.within, LineAccess.mk.injEq, offset, true_and]
  split
  case isTrue same =>
    have rest : request.endAddr % blockSize + 2 ^ 32 - (max request.address line - line) =
        min (request.address + request.dataSize) (line + blockSize) - max request.address line + 2 ^ 32 := by
      omega
    rw [rest, Nat.add_mod_right, Nat.mod_eq_of_lt (by omega)]
  case isFalse other =>
    have apart := add_le_of_multiples left.aligned (endAligned_dvd blockSize request) (by omega)
    omega

theorem Fits.lineLoop (fits : Fits blockSize request) (left : Left blockSize request count line) (some_ : 0 < request.dataSize)
    (begun : request.beginAligned blockSize ≤ line)
    (isDone : progress.done = min (request.address + request.dataSize) (max request.address line) - request.address) :
    lineLoop coreInitiateMemoryAccess blockSize request (count + 2) line progress =
      some (progress.issueAll coreInitiateMemoryAccess (request.lines blockSize count line)) := by
  have bounded := fits.fits
  obtain ⟨-, last, below⟩ := fits.last
  induction count generalizing line progress with
  | zero =>
    have enough := left.enough
    have few := left.few
    rw [Nat.mul_zero] at enough few
    rw [Core.lineLoop]
    split
    case isFalse => rfl
    case isTrue inside =>
      -- the request ends where a line begins
      have atEnd : line = request.endAligned blockSize := by omega
      have nothing : (request.lineAccess blockSize line progress.done).size = 0 := by
        have later : line ≠ request.beginAligned blockSize := by
          have := beginAligned_le blockSize request
          omega
        simp only [Request.lineAccess, if_pos atEnd, if_neg later]
        have zero : request.endAddr % blockSize = 0 := by omega
        rw [zero]
        decide
      simp only [if_pos (And.intro atEnd nothing)]
      rw [Core.lineLoop, if_neg]
      · rfl
      · rw [Nat.mod_eq_of_lt (by omega)]
        have positive := fits.positive
        omega
  | succ count ih =>
    have here := left.line_lt
    have first := left.first
    have atLast := fits.le_last left
    rw [Core.lineLoop, if_pos atLast]
    have done : progress.done = max request.address line - request.address := by omega
    have access := fits.lineAccess left some_ begun
    have size : (request.within blockSize line).size =
        min (request.address + request.dataSize) (line + blockSize) - max request.address line := rfl
    have positive := fits.positive
    simp only [done, access]
    rw [if_neg (by omega), Nat.mod_eq_of_lt (by omega), ih left.next (Nat.le_trans begun (Nat.le_add_right _ _))]
    · rfl
    · simp only [Progress.issue, done, size]
      omega

theorem Fits.left (fits : Fits blockSize request) (some_ : 0 < request.dataSize) :
    ∃ count, Left blockSize request count (request.beginAligned blockSize) := by
  have first := beginAligned_le blockSize request
  have positive := fits.positive
  refine ⟨(request.address + request.dataSize - request.beginAligned blockSize + (blockSize - 1)) / blockSize,
    beginAligned_dvd blockSize request, positive, fits.address_lt, ?_, ?_⟩
  · have quotient := Nat.lt_div_mul_add (a := request.address + request.dataSize - request.beginAligned blockSize + (blockSize - 1)) positive
    rw [Nat.mul_comm] at quotient
    omega
  · have quotient := Nat.mul_div_le (request.address + request.dataSize - request.beginAligned blockSize + (blockSize - 1)) blockSize
    omega

theorem endAligned_atEnd {exponent : Nat} (small : exponent < 64)
    (atEnd : request.address + request.dataSize = 2 ^ 64 - 2 ^ exponent) :
    request.endAligned (2 ^ exponent) = 2 ^ 64 - 2 ^ exponent := by
  have divides : 2 ^ exponent ∣ 2 ^ 64 := Nat.pow_dvd_pow 2 (Nat.le_of_lt small)
  have positive := Nat.two_pow_pos exponent
  have endAddr : request.endAddr = 2 ^ 64 - 2 ^ exponent := by
    rw [Request.endAddr, atEnd, Nat.mod_eq_of_lt (by omega)]
  rw [Request.endAligned, endAddr, Nat.mod_eq_zero_of_dvd (Nat.dvd_sub divides (Nat.dvd_refl _)), Nat.sub_zero]

/-- Where the request ends with the address space but for one line, the address of the next line is 0. -/
theorem lineLoop_none {exponent : Nat} (small : exponent < 64) (atEnd : request.address + request.dataSize = 2 ^ 64 - 2 ^ exponent)
    (aligned : 2 ^ exponent ∣ line) (inside : line ≤ request.endAligned (2 ^ exponent)) (fuel : Nat) :
    Core.lineLoop coreInitiateMemoryAccess (2 ^ exponent) request fuel line progress = none := by
  have divides : 2 ^ exponent ∣ 2 ^ 64 := Nat.pow_dvd_pow 2 (Nat.le_of_lt small)
  have last := endAligned_atEnd small atEnd
  induction fuel generalizing line progress with
  | zero => rfl
  | succ fuel ih =>
    have next : 2 ^ exponent ∣ (line + 2 ^ exponent) % 2 ^ 64 ∧ (line + 2 ^ exponent) % 2 ^ 64 ≤ request.endAligned (2 ^ exponent) := by
      refine ⟨(Nat.dvd_mod_iff divides).mpr (Nat.dvd_add aligned (Nat.dvd_refl _)), ?_⟩
      rw [last] at inside ⊢
      cases Nat.eq_or_lt_of_le inside with
      | inl same =>
        rw [same, Nat.sub_add_cancel (Nat.le_of_dvd (Nat.two_pow_pos 64) divides), Nat.mod_self]
        exact Nat.zero_le _
      | inr before =>
        have apart := add_le_of_multiples aligned (Nat.dvd_sub divides (Nat.dvd_refl _)) before
        rw [Nat.mod_eq_of_lt (by omega)]
        exact apart
    rw [Core.lineLoop, if_pos inside]
    dsimp only
    split
    case isTrue => exact ih next.1 next.2
    case isFalse => exact ih next.1 next.2

theorem initiateMemoryAccess_none {exponent : Nat} (small : exponent < 64) (some_ : 0 < request.dataSize)
    (atEnd : request.address + request.dataSize = 2 ^ 64 - 2 ^ exponent) (memComponent : HitWhere) (fuel : Nat) (memory : Mem) :
    initiateMemoryAccess coreInitiateMemoryAccess (2 ^ exponent) memComponent fuel request memory = none := by
  have begun : request.beginAligned (2 ^ exponent) ≤ request.endAligned (2 ^ exponent) := by
    have first := beginAligned_le (2 ^ exponent) request
    rw [endAligned_atEnd small atEnd]
    omega
  rw [initiateMemoryAccess, if_neg (Nat.ne_of_gt some_), lineLoop_none small atEnd (beginAligned_dvd _ request) begun]
  rfl

end Loop

/-- A request is split exactly if and only if it does not end where the last line of the address space begins. -/
theorem splitExactly_iff (coreInitiateMemoryAccess : LineAccess → Mem → HitWhere × Mem) (exponent : Nat) (small : exponent < 32)
    (memComponent : HitWhere) (request : Request) (memory : Mem) (some_ : 0 < request.dataSize)
    (bounded : request.address + request.dataSize ≤ 2 ^ 64 - 2 ^ exponent) :
    SplitExactly coreInitiateMemoryAccess (2 ^ exponent) memComponent request memory ↔
      request.address + request.dataSize ≠ 2 ^ 64 - 2 ^ exponent := by
  constructor
  · intro split atEnd
    obtain ⟨fuel, accesses, -, ended⟩ := split
    rw [initiateMemoryAccess_none (by omega) some_ atEnd] at ended
    cases ended
  · intro before
    have fits : Fits (2 ^ exponent) request :=
      ⟨Nat.two_pow_pos exponent, Nat.pow_lt_pow_right Nat.one_lt_two small, by omega⟩
    obtain ⟨count, left⟩ := fits.left some_
    refine ⟨count + 2, _, left.splits some_, ?_⟩
    have first := beginAligned_le (2 ^ exponent) request
    rw [initiateMemoryAccess, if_neg (Nat.ne_of_gt some_), fits.lineLoop left some_ (Nat.le_refl _)]
    · rfl
    · rw [Nat.max_eq_left first, Nat.min_eq_right (Nat.le_add_right _ _), Nat.sub_self]
      rfl

def listed (access : LineAccess) (accesses : List LineAccess) : HitWhere × List LineAccess := (.l1Own, accesses ++ [access])

theorem splitExactly_fourLines : SplitExactly listed (2 ^ 6) .l1Own ⟨60, some 4096, 140⟩ [] :=
  (splitExactly_iff listed 6 (by decide) .l1Own ⟨60, some 4096, 140⟩ [] (by decide) (by decide)).mpr (by decide)

/-- The access to the last line but one does not end. -/
theorem access_wraps : ¬ ∀ (exponent : Nat) (request : Request), exponent < 32 → 0 < request.dataSize →
    request.address + request.dataSize ≤ 2 ^ 64 - 2 ^ exponent → SplitExactly listed (2 ^ exponent) .l1Own request [] := by
  intro splits
  obtain ⟨fuel, accesses, -, ended⟩ := splits 6 ⟨2 ^ 64 - 128, none, 64⟩ (by decide) (by decide) (by decide)
  rw [initiateMemoryAccess_none (by decide) (by decide) (by decide)] at ended
  cases ended

end Sniper.Core

import Sniper.Library.LeastSearch
import Mathlib.Algebra.Ring.Nat
import Mathlib.Data.Fin.Basic
import Mathlib.Data.List.Nodup
import Mathlib.Order.Fin.Basic

/-! `CacheCntlr::cleanupMshr`, which keeps the MSHR entries that complete last. -/

namespace Sniper.CacheCntlr

open LeastSearch

abbrev SubsecondTime := Fin (2 ^ 64)

/-- `SubsecondTime::MaxTime()` -/
def maxTime : SubsecondTime := Fin.last _

structure MshrEntry where
  tIssue : SubsecondTime
  tComplete : SubsecondTime
deriving DecidableEq, Repr

/-- `std::unordered_map`, in the order of its iteration. -/
@[ext] structure Mshr where
  entries : List (Nat × MshrEntry)
  nodup : (entries.map Prod.fst).Nodup
deriving DecidableEq, Repr

namespace Mshr

def size (mshr : Mshr) : Nat := mshr.entries.length

def erase (mshr : Mshr) (address : Nat) : Mshr where
  entries := mshr.entries.filter (·.1 ≠ address)
  nodup := mshr.nodup.sublist (List.filter_sublist.map _)

/-- The address that a round of `cleanupMshr` erases. -/
def addressMin (mshr : Mshr) : Nat :=
  (mshr.entries.foldl (fun (addressMin, timeMin) (address, entry) =>
    if entry.tComplete < timeMin then (address, entry.tComplete) else (addressMin, timeMin)) (0, maxTime)).1

/-- `cleanupMshr`, if it returns within so many rounds. -/
def cleanupMshr : Nat → Mshr → Option Mshr
  | 0, _ => none
  | rounds + 1, mshr => if 8 < mshr.size then (mshr.erase mshr.addressMin).cleanupMshr rounds else some mshr

variable {mshr after : Mshr} {address : Nat} {line : Nat × MshrEntry}

/-! ### One round -/

theorem mem_erase : line ∈ (mshr.erase address).entries ↔ line ∈ mshr.entries ∧ line.1 ≠ address := by
  simp [erase]

theorem erase_entries (member : line ∈ mshr.entries) : (mshr.erase line.1).entries = mshr.entries.erase line := by
  have nodup : mshr.entries.Nodup := List.Nodup.of_map _ mshr.nodup
  rw [nodup.erase_eq_filter]
  apply List.filter_congr
  intro other inEntries
  have sameKey : other.1 = line.1 ↔ other = line :=
    ⟨fun same => List.inj_on_of_nodup_map mshr.nodup inEntries member same, fun same => same ▸ rfl⟩
  by_cases same : other = line <;> simp [sameKey, same]

theorem erase_missing (missing : ∀ line ∈ mshr.entries, line.1 ≠ address) : mshr.erase address = mshr := by
  apply Mshr.ext
  rw [erase, List.filter_eq_self]
  intro line member
  simpa using missing line member

theorem addressMin_cases (mshr : Mshr) :
    mshr.addressMin = 0 ∧ (∀ line ∈ mshr.entries, line.2.tComplete = maxTime) ∨
      ∃ first ∈ mshr.entries, first.1 = mshr.addressMin ∧ first.2.tComplete < maxTime ∧
        ∀ line ∈ mshr.entries, first.2.tComplete ≤ line.2.tComplete := by
  have searched : mshr.addressMin = (search (0, maxTime) (mshr.entries.map fun line => (line.1, line.2.tComplete))).1 := by
    rw [← foldl_eq_search]
    rfl
  rw [searched]
  rcases search_cases (0, maxTime) (mshr.entries.map fun line => (line.1, line.2.tComplete)) with ⟨same, above⟩ | ⟨lower, least⟩
  · left
    refine ⟨by rw [same], ?_⟩
    intro line member
    exact Fin.last_le_iff.mp (above _ (List.mem_map_of_mem member))
  · right
    obtain ⟨first, member, isFirst⟩ := List.mem_map.mp least.mem
    rw [← isFirst] at lower least ⊢
    exact ⟨first, member, rfl, lower, fun line inEntries => least.le _ (List.mem_map_of_mem inEntries)⟩

/-! ### Entries that never complete -/

def unfinished (mshr : Mshr) : Nat := mshr.entries.countP (·.2.tComplete = maxTime)

/-- Address 0, the default of the search, has an entry that never completes. -/
def ZeroUnfinished (mshr : Mshr) : Prop := ∃ entry, (0, entry) ∈ mshr.entries ∧ entry.tComplete = maxTime

/-- The entries that never complete fit, unless address 0 has one of them to give up. -/
def Fits (mshr : Mshr) : Prop := mshr.unfinished ≤ 8 ∨ mshr.unfinished = 9 ∧ mshr.ZeroUnfinished

theorem size_erase (member : line ∈ mshr.entries) : (mshr.erase line.1).size = mshr.size - 1 := by
  rw [size, erase_entries member, List.length_erase_of_mem member, size]

theorem unfinished_erase (member : line ∈ mshr.entries) :
    (mshr.erase line.1).unfinished = mshr.unfinished - if line.2.tComplete = maxTime then 1 else 0 := by
  have whole := (List.perm_cons_erase member).countP_eq (fun line => decide (line.2.tComplete = maxTime))
  rw [List.countP_cons] at whole
  simp only [decide_eq_true_eq] at whole
  rw [unfinished, unfinished, erase_entries member, whole, Nat.add_sub_cancel]

theorem unfinished_all (all : ∀ line ∈ mshr.entries, line.2.tComplete = maxTime) : mshr.unfinished = mshr.size := by
  rw [unfinished, size, List.countP_eq_length]
  intro line member
  simpa using all line member

theorem unfinished_le (mshr : Mshr) : mshr.unfinished ≤ mshr.size := List.countP_le_length

theorem fits_round (large : 8 < mshr.size) : (mshr.erase mshr.addressMin).Fits ↔ mshr.Fits := by
  rcases mshr.addressMin_cases with ⟨isZero, all⟩ | ⟨first, member, isMin, completes, -⟩
  · rw [isZero]
    by_cases zero : mshr.ZeroUnfinished
    · -- The entry of address 0 goes, and no other one can.
      obtain ⟨entry, member, never⟩ := zero
      have left : (mshr.erase 0).unfinished = mshr.size - 1 := by
        have erased := unfinished_erase member
        rw [if_pos never, unfinished_all all] at erased
        exact erased
      have gone : ¬(mshr.erase 0).ZeroUnfinished := by
        intro ⟨other, stays, _⟩
        exact (mem_erase.mp stays).2 rfl
      have was : mshr.ZeroUnfinished := ⟨entry, member, never⟩
      rw [Fits, Fits, left, unfinished_all all]
      simp only [gone, was, and_false, or_false, and_true]
      omega
    · have missing : ∀ line ∈ mshr.entries, line.1 ≠ 0 := by
        intro line member isKey
        exact zero ⟨line.2, isKey ▸ member, all line member⟩
      rw [erase_missing missing]
  · have finite : ¬first.2.tComplete = maxTime := Fin.ne_of_lt completes
    have kept : (mshr.erase mshr.addressMin).unfinished = mshr.unfinished := by
      rw [← isMin, unfinished_erase member, if_neg finite, Nat.sub_zero]
    have stays : (mshr.erase mshr.addressMin).ZeroUnfinished ↔ mshr.ZeroUnfinished := by
      constructor
      · intro ⟨entry, inErased, never⟩
        exact ⟨entry, (mem_erase.mp inErased).1, never⟩
      · intro ⟨entry, inEntries, never⟩
        refine ⟨entry, mem_erase.mpr ⟨inEntries, ?_⟩, never⟩
        intro isKey
        have same : (0, entry) = first := List.inj_on_of_nodup_map mshr.nodup inEntries member (isKey.trans isMin.symm)
        exact finite (same ▸ never)
    rw [Fits, Fits, kept, stays]

theorem size_round (fits : mshr.Fits) (large : 8 < mshr.size) : (mshr.erase mshr.addressMin).size = mshr.size - 1 := by
  rcases mshr.addressMin_cases with ⟨isZero, all⟩ | ⟨first, member, isMin, -, -⟩
  · rw [Fits, unfinished_all all] at fits
    obtain ⟨-, entry, member, -⟩ := fits.resolve_left (Nat.not_le_of_lt large)
    rw [isZero]
    exact size_erase member
  · rw [← isMin]
    exact size_erase member

theorem round_erases (member : line ∈ mshr.entries) (erased : line ∉ (mshr.erase mshr.addressMin).entries) :
    ∀ other ∈ mshr.entries, line.2.tComplete ≤ other.2.tComplete := by
  intro other inEntries
  have isKey : line.1 = mshr.addressMin := by
    by_contra different
    exact erased (mem_erase.mpr ⟨member, different⟩)
  rcases mshr.addressMin_cases with ⟨-, all⟩ | ⟨first, isEntry, isMin, -, least⟩
  · rw [all line member, all other inEntries]
  · have same : line = first := List.inj_on_of_nodup_map mshr.nodup member isEntry (isKey.trans isMin.symm)
    rw [same]
    exact least other inEntries

/-! ### All rounds -/

/-- At most 8 entries are left, and the others complete no later. -/
structure KeepsLast (mshr after : Mshr) : Prop where
  few : after.size ≤ 8
  kept : after.entries ⊆ mshr.entries
  last : ∀ removed ∈ mshr.entries, removed ∉ after.entries → ∀ kept ∈ after.entries, removed.2.tComplete ≤ kept.2.tComplete

theorem cleanupMshr_keepsLast {rounds : Nat} (returned : mshr.cleanupMshr rounds = some after) : KeepsLast mshr after := by
  induction rounds generalizing mshr with
  | zero => cases returned
  | succ rounds ih =>
    rw [cleanupMshr] at returned
    split at returned
    case isTrue =>
      have keeps := ih returned
      refine ⟨keeps.few, fun line member => (mem_erase.mp (keeps.kept member)).1, ?_⟩
      intro removed member gone other stays
      by_cases erased : removed ∈ (mshr.erase mshr.addressMin).entries
      · exact keeps.last removed erased gone other stays
      · exact round_erases member erased other (mem_erase.mp (keeps.kept stays)).1
    case isFalse small =>
      cases returned
      exact ⟨Nat.le_of_not_lt small, fun _ => id, fun removed member gone => absurd member gone⟩

theorem cleanupMshr_returns (fits : mshr.Fits) : ∃ after, mshr.cleanupMshr (mshr.size + 1) = some after := by
  suffices returns : ∀ size (mshr : Mshr), mshr.size = size → mshr.Fits → ∃ after, mshr.cleanupMshr (size + 1) = some after from
    returns _ mshr rfl fits
  intro size
  induction size with
  | zero =>
    intro mshr empty _
    exact ⟨mshr, by rw [cleanupMshr, empty, if_neg (by decide)]⟩
  | succ size ih =>
    intro mshr isSize fits
    rw [cleanupMshr]
    by_cases large : 8 < mshr.size
    · rw [if_pos large]
      apply ih
      · rw [size_round fits large, isSize, Nat.add_sub_cancel]
      · exact (fits_round large).mpr fits
    · exact ⟨mshr, if_neg large⟩

theorem cleanupMshr_loops (rounds : Nat) (stuck : ¬mshr.Fits) : mshr.cleanupMshr rounds = none := by
  induction rounds generalizing mshr with
  | zero => rfl
  | succ rounds ih =>
    have large : 8 < mshr.size := by
      by_contra small
      exact stuck (.inl (Nat.le_trans mshr.unfinished_le (Nat.le_of_not_lt small)))
    rw [cleanupMshr, if_pos large]
    exact ih (mt (fits_round large).mp stuck)

/-- The loop returns, and keeps the entries that complete last, if and only if the entries that never complete fit. -/
theorem cleanupMshr_returns_iff (mshr : Mshr) :
    (∃ rounds after, mshr.cleanupMshr rounds = some after ∧ KeepsLast mshr after) ↔
      mshr.unfinished ≤ 8 ∨ mshr.unfinished = 9 ∧ mshr.ZeroUnfinished := by
  constructor
  · intro ⟨rounds, after, returned, _⟩
    by_contra stuck
    rw [cleanupMshr_loops rounds stuck] at returned
    cases returned
  · intro fits
    obtain ⟨after, returned⟩ := cleanupMshr_returns fits
    exact ⟨_, after, returned, cleanupMshr_keepsLast returned⟩

/-- Nine misses that never complete. -/
def nineUnfinished : Mshr where
  entries := (List.range' 1 9).map fun line => (64 * line, ⟨0, maxTime⟩)
  nodup := by decide

theorem nineUnfinished_loops : ¬∀ mshr : Mshr, ∃ rounds after, mshr.cleanupMshr rounds = some after ∧ KeepsLast mshr after := by
  intro always
  obtain ⟨rounds, after, returned, -⟩ := always nineUnfinished
  have stuck : ¬nineUnfinished.Fits := by
    rintro (few | ⟨-, entry, member, -⟩)
    · exact absurd few (by decide)
    · have isKey : 0 ∈ nineUnfinished.entries.map Prod.fst := List.mem_map_of_mem member
      exact absurd isKey (by decide)
  rw [cleanupMshr_loops rounds stuck] at returned
  cases returned

end Mshr

end Sniper.CacheCntlr

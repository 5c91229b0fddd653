import Sniper.Directory.Entry
import Sniper.Library.Machine
import Mathlib.Data.Fintype.Card

/-! Directory entries of the `limitless` scheme: the sharers that do not fit in the hardware are left to a software trap. -/

namespace Sniper.Directory

/-- The size of `DirectorySharersBitset` or `DirectorySharersVector`, as `createDirectoryEntry` chooses it. -/
def sharersSize (maxNumSharers : Nat) : Nat :=
  if maxNumSharers ≤ 64 then 64
  else if maxNumSharers ≤ 128 then 128
  else if maxNumSharers ≤ 256 then 256
  else if maxNumSharers ≤ 1024 then 1024
  else maxNumSharers

/-- `DirectoryEntryLimitless` over a container of some size. -/
structure DirectoryEntryLimitless (size : Nat) where
  sharers : Fin size → Bool
  softwareTrapEnabled : Bool
  softwareTrapPenalty : Nat

inductive LimitlessFault where
  | alreadySharer
  | replyExpected
  | notSharer
deriving DecidableEq, Repr

namespace DirectoryEntryLimitless

variable {size : Nat}

def new (softwareTrapPenalty : Nat) : DirectoryEntryLimitless size where
  sharers := fun _ => false
  softwareTrapEnabled := false
  softwareTrapPenalty := softwareTrapPenalty

def hasSharer (entry : DirectoryEntryLimitless size) (id : Fin size) : Bool := entry.sharers id

/-- The second component of `getSharersList`; the first one is always `false`. -/
def getSharersList (entry : DirectoryEntryLimitless size) : List (Fin size) := (List.finRange size).filter entry.sharers

/-- `count` of the container. -/
def getNumSharers (entry : DirectoryEntryLimitless size) : Nat := (List.finRange size).countP entry.sharers

def getLatency (entry : DirectoryEntryLimitless size) : Nat :=
  if entry.softwareTrapEnabled then entry.softwareTrapPenalty else 0

/-- `addSharer`, which always returns `true`.  The test is on the size of the container. -/
def addSharer (maxHwSharers : Nat) (entry : DirectoryEntryLimitless size) (id : Fin size) :
    Except LimitlessFault (DirectoryEntryLimitless size) :=
  if entry.sharers id then .error .alreadySharer
  else .ok { entry with
    softwareTrapEnabled := if size = maxHwSharers then true else entry.softwareTrapEnabled
    sharers := Function.update entry.sharers id true }

def removeSharer (entry : DirectoryEntryLimitless size) (id : Fin size) (replyExpected : Bool) :
    Except LimitlessFault (DirectoryEntryLimitless size) :=
  if replyExpected then .error .replyExpected
  else if entry.sharers id then .ok { entry with sharers := Function.update entry.sharers id false }
  else .error .notSharer

end DirectoryEntryLimitless

inductive EntryCall (size : Nat) where
  | addSharer (id : Fin size)
  | removeSharer (id : Fin size) (replyExpected : Bool)
  | getLatency
deriving DecidableEq, Repr

/-- An entry of a directory with `max_hw_sharers`. -/
def limitless (size maxHwSharers softwareTrapPenalty : Nat) : Machine (DirectoryEntryLimitless size) (EntryCall size) LimitlessFault where
  initial entry := entry = .new softwareTrapPenalty
  step entry
    | .addSharer id => entry.addSharer maxHwSharers id
    | .removeSharer id replyExpected => entry.removeSharer id replyExpected
    | .getLatency => .ok entry

/-! ### What the calls mean -/

section Calls

variable {size : Nat}

def EntryCall.change (sharers : Finset (Fin size)) : EntryCall size → Finset (Fin size)
  | .addSharer id => insert id sharers
  | .removeSharer id _ => sharers.erase id
  | .getLatency => sharers

/-- The cores that are added and not removed. -/
def held (calls : List (EntryCall size)) : Finset (Fin size) := calls.foldl EntryCall.change ∅

/-- At some point more cores are held than the hardware has room for. -/
def Exceeds (maxHwSharers : Nat) (calls : List (EntryCall size)) : Prop :=
  ∃ first rest, calls = first ++ rest ∧ maxHwSharers < (held first).card

structure DirectoryEntryLimitless.Describes (entry : DirectoryEntryLimitless size) (sharers : Finset (Fin size)) : Prop where
  hasSharer : ∀ id, entry.hasSharer id = true ↔ id ∈ sharers
  getNumSharers : entry.getNumSharers = sharers.card
  getSharersList : entry.getSharersList = (List.finRange size).filter (· ∈ sharers)

open Classical in
structure DirectoryEntryLimitless.Right (entry : DirectoryEntryLimitless size) (maxHwSharers softwareTrapPenalty : Nat)
    (calls : List (EntryCall size)) : Prop where
  latency : entry.getLatency = if Exceeds maxHwSharers calls then softwareTrapPenalty else 0
  sharers : entry.Describes (held calls)

/-- The container has another size and the hardware always has room, or it has just this size and no core was added. -/
def TrapUnneeded (maxHwSharers : Nat) (calls : List (EntryCall size)) : Prop :=
  (size ≠ maxHwSharers ∧ ∀ first rest, calls = first ++ rest → (held first).card ≤ maxHwSharers) ∨
    (size = maxHwSharers ∧ ∀ id, .addSharer id ∉ calls)

end Calls

/-! ### Runs -/

section Runs

variable {size maxHwSharers softwareTrapPenalty : Nat} {entry next : DirectoryEntryLimitless size} {sharers : Finset (Fin size)}
  {call : EntryCall size} {calls : List (EntryCall size)}

theorem describes_of_sharers (same : ∀ id, entry.sharers id = true ↔ id ∈ sharers) : entry.Describes sharers where
  hasSharer := same
  getNumSharers := by
    rw [DirectoryEntryLimitless.getNumSharers, List.countP_eq_length_filter,
      ← List.toFinset_card_of_nodup ((List.nodup_finRange size).filter _)]
    congr 1
    ext id
    simp [same]
  getSharersList := by
    refine List.filter_congr fun id _ => ?_
    simp only [← same, Bool.decide_eq_true]

structure Steps (maxHwSharers : Nat) (entry next : DirectoryEntryLimitless size) (call : EntryCall size) : Prop where
  sharers : ∀ sharers : Finset (Fin size), (∀ id, entry.sharers id = true ↔ id ∈ sharers) →
    ∀ id, next.sharers id = true ↔ id ∈ call.change sharers
  trap : next.softwareTrapEnabled = true ↔
    entry.softwareTrapEnabled = true ∨ size = maxHwSharers ∧ ∃ id, call = .addSharer id
  penalty : next.softwareTrapPenalty = entry.softwareTrapPenalty

theorem step_spec (stepped : (limitless size maxHwSharers softwareTrapPenalty).step entry call = .ok next) :
    Steps maxHwSharers entry next call := by
  cases call with
  | addSharer id =>
    simp only [limitless, DirectoryEntryLimitless.addSharer] at stepped
    split at stepped
    case isTrue => cases stepped
    case isFalse absent =>
      cases stepped
      refine ⟨fun sharers same other => ?_, ?_, rfl⟩
      · by_cases isNew : other = id
        · simp [isNew, EntryCall.change]
        · simp [isNew, EntryCall.change, same]
      · simp only [EntryCall.addSharer.injEq, exists_eq', and_true]
        split <;> simp_all
  | removeSharer id replyExpected =>
    simp only [limitless, DirectoryEntryLimitless.removeSharer] at stepped
    split at stepped
    case isTrue => cases stepped
    case isFalse =>
      split at stepped
      case isFalse => cases stepped
      case isTrue present =>
        cases stepped
        refine ⟨fun sharers same other => ?_, by simp, rfl⟩
        by_cases isOld : other = id
        · simp [isOld, EntryCall.change]
        · simp [isOld, EntryCall.change, same]
  | getLatency =>
    cases stepped
    exact ⟨fun _ same => same, by simp, rfl⟩

theorem run_spec (ran : (limitless size maxHwSharers softwareTrapPenalty).run entry calls = .ok next)
    (same : ∀ id, entry.sharers id = true ↔ id ∈ sharers) :
    (∀ id, next.sharers id = true ↔ id ∈ calls.foldl EntryCall.change sharers) ∧
      (next.softwareTrapEnabled = true ↔
        entry.softwareTrapEnabled = true ∨ size = maxHwSharers ∧ ∃ id, .addSharer id ∈ calls) ∧
      next.softwareTrapPenalty = entry.softwareTrapPenalty := by
  induction calls generalizing entry sharers with
  | nil =>
    cases ran
    exact ⟨same, by simp, rfl⟩
  | cons call rest ih =>
    cases stepped : (limitless size maxHwSharers softwareTrapPenalty).step entry call with
    | error reason => simp [Machine.run, stepped] at ran
    | ok mid =>
      simp only [Machine.run, stepped] at ran
      have step := step_spec stepped
      obtain ⟨sharers', trap, penalty⟩ := ih ran (step.sharers sharers same)
      refine ⟨sharers', ?_, penalty.trans step.penalty⟩
      rw [trap, step.trap, or_assoc, ← and_or_left]
      simp only [List.mem_cons, exists_or, eq_comm]

theorem not_exceeds_size (calls : List (EntryCall size)) : ¬Exceeds size calls := by
  rintro ⟨first, rest, -, more⟩
  have most := Finset.card_le_univ (held first)
  rw [Fintype.card_fin] at most
  omega

/-- The queries are always right; the latency is right if and only if the trap is not needed or costs nothing. -/
theorem limitless_right_iff (size maxHwSharers softwareTrapPenalty : Nat) (calls : List (EntryCall size))
    (entry : DirectoryEntryLimitless size)
    (ran : (limitless size maxHwSharers softwareTrapPenalty).run (.new softwareTrapPenalty) calls = .ok entry) :
    entry.Right maxHwSharers softwareTrapPenalty calls ↔ softwareTrapPenalty = 0 ∨ TrapUnneeded maxHwSharers calls := by
  have nobody : ∀ id, (DirectoryEntryLimitless.new softwareTrapPenalty : DirectoryEntryLimitless size).sharers id = true ↔
      id ∈ (∅ : Finset (Fin size)) := by simp [DirectoryEntryLimitless.new]
  obtain ⟨sharers, trap, penalty⟩ := run_spec ran nobody
  have described : entry.Describes (held calls) := describes_of_sharers sharers
  have trap : entry.softwareTrapEnabled = true ↔ size = maxHwSharers ∧ ∃ id, .addSharer id ∈ calls := by
    simpa [DirectoryEntryLimitless.new] using trap
  have penalty : entry.softwareTrapPenalty = softwareTrapPenalty := penalty
  have unneeded : TrapUnneeded maxHwSharers calls ↔ (entry.softwareTrapEnabled = true ↔ Exceeds maxHwSharers calls) := by
    rw [trap, TrapUnneeded]
    by_cases full : size = maxHwSharers
    · subst full
      simp [not_exceeds_size]
    · simp [full, Exceeds, not_lt]
  rw [unneeded]
  constructor
  · intro right
    have latency := right.latency
    rw [DirectoryEntryLimitless.getLatency, penalty] at latency
    by_cases enabled : entry.softwareTrapEnabled = true <;> by_cases exceeds : Exceeds maxHwSharers calls
    · exact .inr (iff_of_true enabled exceeds)
    · rw [if_pos enabled, if_neg exceeds] at latency
      exact .inl latency
    · rw [if_neg enabled, if_pos exceeds] at latency
      exact .inl latency.symm
    · exact .inr (iff_of_false enabled exceeds)
  · intro allowed
    refine ⟨?_, described⟩
    rw [DirectoryEntryLimitless.getLatency, penalty]
    obtain free | same := allowed
    · simp [free]
    · by_cases exceeds : Exceeds maxHwSharers calls
      · rw [if_pos exceeds, if_pos (same.mpr exceeds)]
      · rw [if_neg exceeds, if_neg (mt same.mp exceeds)]

def twoSharers : List (EntryCall 64) :=
  [.addSharer ⟨3, by decide⟩, .addSharer ⟨5, by decide⟩, .removeSharer ⟨3, by decide⟩ false]

theorem limitless_right_twoSharers : ∃ entry, (limitless 64 4 200).run (.new 200) twoSharers = .ok entry ∧
    (entry.Right 4 200 twoSharers ↔ 200 = 0 ∨ TrapUnneeded 4 twoSharers) :=
  ⟨_, rfl, limitless_right_iff 64 4 200 _ _ rfl⟩

def fiveSharers : List (EntryCall 64) := (List.finRange 5).map fun core => .addSharer (core.castLE (by decide))

/-- Five of sixteen cores share a line and the hardware has room for four: the trap is not taken. -/
theorem limitless_fiveSharers_untrapped : sharersSize 16 = 64 ∧
    ∃ entry, (limitless 64 4 200).run (.new 200) fiveSharers = .ok entry ∧ entry.getLatency = 0 ∧
      ¬entry.Right 4 200 fiveSharers := by
  refine ⟨rfl, _, rfl, rfl, fun right => ?_⟩
  have exceeds : Exceeds 4 fiveSharers := ⟨_, [], (List.append_nil _).symm, by decide⟩
  have latency := right.latency
  rw [if_pos exceeds] at latency
  exact absurd latency (by decide)

end Runs

end Sniper.Directory

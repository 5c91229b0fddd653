import Mathlib.Data.Fintype.Pi
import Mathlib.Data.List.FinRange
import Mathlib.Logic.Function.Basic

/-! Directory entries of the `full_map` scheme, one sharer bit per last-level cache. -/

namespace Sniper.Directory

/-- `DirectoryState::dstate_t`. -/
inductive DState where
  | uncached
  | shared
  | exclusive
  | owned
  | modified
deriving DecidableEq, Repr

/-- `CoherencyProtocol::type_t`. -/
inductive Protocol where
  | msi
  | mesi
  | mesif
deriving DecidableEq, Repr

/-- `m_forwarder_id`.  The constructor of `DirectoryEntry` leaves it unset. -/
inductive Forwarder (n : Nat) where
  | uninitialised
  | invalid
  | core (id : Fin n)
deriving DecidableEq, Repr

/-- The assertions, `LOG_ASSERT_ERROR`s and `LOG_PRINT_ERROR`s of the directory
controller, its entries and the last-level caches' message handlers. -/
inductive Fault where
  | addSharer
  | removeSharer
  | ownerNotSharer
  | sendToInvalidCore
  | noDirectoryEntry
  | cachedDataBuf
  | requesterIsOwner
  | uninitialisedForwarder
  | unsupportedDState
  | noSharer
  | upgradeOwner
  | uncachedWithSharers
  | emptyReqQueue
  | unrecognizedRequest
  | dramReplyDState
  | invRepDState
  | flushRepDState
  | senderNotSharer
  | wbRepReqType
  | wbRepNoRequest
  | noDirectoryWaiter
  | alreadyHaveLine
  | upgradeWithoutData
  | notUpgrading
  | modifiedDataLost
  | exReqCState
  | dataAlreadyGone
  | noReplacementCandidate
deriving DecidableEq, Repr

def assertThat (condition : Prop) [Decidable condition] (fault : Fault) : Except Fault Unit :=
  if condition then .ok () else .error fault

@[simp] theorem assertThat_of {condition : Prop} [Decidable condition] {fault : Fault}
    (holds : condition) : assertThat condition fault = .ok () := by
  simp [assertThat, holds]

@[simp] theorem ok_bind {α β ε : Type} (value : α) (next : α → Except ε β) :
    (Except.ok value >>= next) = next value := rfl

/-- `DirectoryEntryLimitedNoBroadcast` as `Directory::createDirectoryEntry` builds
it for `full_map`. -/
structure DirectoryEntry (n : Nat) where
  dstate : DState
  owner : Option (Fin n)
  forwarder : Forwarder n
  sharers : Fin n → Bool

namespace DirectoryEntry

variable {n : Nat}

def new : DirectoryEntry n where
  dstate := .uncached
  owner := none
  forwarder := .uninitialised
  sharers := fun _ => false

def hasSharer (entry : DirectoryEntry n) (id : Fin n) : Bool := entry.sharers id

/-- The second component of `getSharersList`; the first, the broadcast flag, is
always `false` for this entry type. -/
def getSharersList (entry : DirectoryEntry n) : List (Fin n) :=
  (List.finRange n).filter entry.sharers

def getNumSharers (entry : DirectoryEntry n) : Nat := entry.getSharersList.length

/-- `addSharer`.  With `full_map` the entry has room for every cache
(`getNumSharers_lt`), so the call never returns `false`. -/
def addSharer (entry : DirectoryEntry n) (id : Fin n) : Except Fault (DirectoryEntry n) := do
  assertThat (entry.sharers id = false) .addSharer
  return { entry with sharers := Function.update entry.sharers id true }

def removeSharer (entry : DirectoryEntry n) (id : Fin n) : Except Fault (DirectoryEntry n) := do
  assertThat (entry.sharers id = true) .removeSharer
  return { entry with sharers := Function.update entry.sharers id false }

def setOwner (entry : DirectoryEntry n) (id : Fin n) : Except Fault (DirectoryEntry n) := do
  assertThat (entry.sharers id = true) .ownerNotSharer
  return { entry with owner := some id }

theorem addSharer_of_absent {entry : DirectoryEntry n} {id : Fin n} (absent : entry.sharers id = false) :
    entry.addSharer id = .ok { entry with sharers := Function.update entry.sharers id true } := by
  simp [addSharer, absent, pure, Except.pure]

theorem removeSharer_of_present {entry : DirectoryEntry n} {id : Fin n} (present : entry.sharers id = true) :
    entry.removeSharer id = .ok { entry with sharers := Function.update entry.sharers id false } := by
  simp [removeSharer, present, pure, Except.pure]

theorem setOwner_of_present {entry : DirectoryEntry n} {id : Fin n} (present : entry.sharers id = true) :
    entry.setOwner id = .ok { entry with owner := some id } := by
  simp [setOwner, present, pure, Except.pure]

theorem mem_getSharersList {entry : DirectoryEntry n} {id : Fin n} :
    id ∈ entry.getSharersList ↔ entry.sharers id = true := by
  simp [getSharersList]

theorem getSharersList_nodup (entry : DirectoryEntry n) : entry.getSharersList.Nodup :=
  (List.nodup_finRange n).filter _

theorem getNumSharers_eq_zero {entry : DirectoryEntry n} :
    entry.getNumSharers = 0 ↔ ∀ id, entry.sharers id = false := by
  simp only [getNumSharers, List.length_eq_zero_iff, List.eq_nil_iff_forall_not_mem,
    mem_getSharersList, Bool.not_eq_true]

/-- `max_hw_sharers` is the number of caches, so a cache that is not a sharer
always finds room. -/
theorem getNumSharers_lt {entry : DirectoryEntry n} {id : Fin n}
    (absent : entry.sharers id = false) : entry.getNumSharers < n := by
  have shorter : entry.getSharersList.length < (List.finRange n).length :=
    List.length_filter_lt_length_iff_exists.mpr ⟨id, List.mem_finRange id, by simp [absent]⟩
  simpa [getNumSharers] using shorter

theorem getSharersList_eq_singleton {entry : DirectoryEntry n} {id : Fin n} :
    entry.getSharersList = [id] ↔ ∀ other, entry.sharers other = true ↔ other = id := by
  constructor
  · intro only other
    rw [← mem_getSharersList, only, List.mem_singleton]
  · intro only
    refine (List.perm_singleton.mp ?_)
    refine (List.perm_ext_iff_of_nodup entry.getSharersList_nodup (List.nodup_singleton id)).mpr ?_
    intro other
    rw [mem_getSharersList, List.mem_singleton, only]

theorem getNumSharers_eq_one {entry : DirectoryEntry n} {id : Fin n}
    (present : entry.sharers id = true) :
    entry.getNumSharers = 1 ↔ ∀ other, entry.sharers other = true ↔ other = id := by
  rw [← getSharersList_eq_singleton]
  constructor
  · intro one
    obtain ⟨only, single⟩ := List.length_eq_one_iff.mp one
    have member := mem_getSharersList.mpr present
    rw [single, List.mem_singleton] at member
    rw [single, member]
  · intro single
    simp [getNumSharers, single]

end DirectoryEntry

end Sniper.Directory

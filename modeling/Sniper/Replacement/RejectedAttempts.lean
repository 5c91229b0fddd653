import Sniper.Replacement.RereferenceIntervals
import Sniper.Replacement.Selection

/-! When `CacheSetSRRIP` finds a way in every full set, whatever blocks are rejected. -/

namespace Sniper.Replacement

open Srrip

variable {associativity rripMax numAttempts : Nat} {fields : Srrip}

/-- The fields at which a call in a full set chooses the way at the pointer. -/
def srripSearch (associativity rripMax numAttempts : Nat) (call : Call) (fields : Srrip) : Option Srrip :=
  searchRounds associativity rripMax numAttempts call.isInLowerLevelCache (rripMax + 1) { fields with attempt := 0 }

/-- Every call in a full set returns a way whose counter is at the maximum when it is chosen, and no counter is ever
above the maximum. -/
def SrripReturns (associativity rripMax numAttempts : Nat) : Prop :=
  ∀ (contents : Contents) (fields : Srrip),
    (CacheSetSRRIP associativity rripMax numAttempts).machine.Reachable (contents, fields) →
    (∀ way < associativity, fields.rripBits way ≤ rripMax) ∧
    ((∀ way < associativity, (contents way).isSome ∧ isValidReplacement contents way = true) → ∀ call,
      ∃ chosen, srripSearch associativity rripMax numAttempts call fields = some chosen ∧
        chosen.replacementPointer < associativity ∧ chosen.rripBits chosen.replacementPointer = rripMax ∧
        (CacheSetSRRIP associativity rripMax numAttempts).getReplacementIndex contents call fields =
          .ok (take associativity rripMax chosen, chosen.replacementPointer))

theorem srripChosen_search (call : Call) :
    srripChosen associativity rripMax numAttempts fields call =
      (srripSearch associativity rripMax numAttempts call fields).map fun chosen =>
        (take associativity rripMax chosen, chosen.replacementPointer) :=
  rounds_search _ _ _ _ _ _

theorem srrip_full {contents : Contents} {call : Call} {chosen : Srrip} (full : firstInvalid associativity contents = none)
    (found : srripSearch associativity rripMax numAttempts call fields = some chosen)
    (valid : isValidReplacement contents chosen.replacementPointer = true) :
    (CacheSetSRRIP associativity rripMax numAttempts).getReplacementIndex contents call fields =
      .ok (take associativity rripMax chosen, chosen.replacementPointer) := by
  have returned : srripChosen associativity rripMax numAttempts fields call =
      (srripSearch associativity rripMax numAttempts call fields).map fun chosen =>
        (take associativity rripMax chosen, chosen.replacementPointer) := srripChosen_search call
  rw [found, srripChosen] at returned
  simp [CacheSetSRRIP, full, returned, valid]

/-! ### The counters over a run -/

/-- What a run preserves.  With more counter values than ways the line that was inserted last keeps a high counter, since
no access to it is counted. -/
structure SrripKeeps (associativity rripMax : Nat) (fields : Srrip) : Prop where
  pointer : fields.replacementPointer < associativity
  bounded : ∀ way < associativity, fields.rripBits way ≤ rripMax
  recent : associativity < rripMax → ∃ way < associativity, associativity ≤ fields.rripBits way

theorem rripInsert_eq (some_ : 0 < rripMax) (byte : rripMax < 256) : rripInsert rripMax = rripMax - 1 := by
  unfold rripInsert
  omega

theorem SrripKeeps.inserted {way pointer attempt : Nat} (some_ : 0 < rripMax) (byte : rripMax < 256) (small : way < associativity)
    (inside : pointer < associativity) (bounded : ∀ way < associativity, fields.rripBits way ≤ rripMax) :
    SrripKeeps associativity rripMax ⟨Function.update fields.rripBits way (rripInsert rripMax), pointer, attempt⟩ := by
  have inserted := rripInsert_eq some_ byte
  refine ⟨inside, ?_, ?_⟩
  · intro other otherSmall
    by_cases same : other = way
    · subst same
      simp only [Function.update_self]
      omega
    · simpa only [Function.update_of_ne same] using bounded other otherSmall
  · intro large
    refine ⟨way, small, ?_⟩
    simp only [Function.update_self]
    omega

theorem SrripKeeps.chosen {call : Call} {chosen : Srrip} (positive : 0 < associativity)
    (keeps : SrripKeeps associativity rripMax fields)
    (found : srripSearch associativity rripMax numAttempts call fields = some chosen) :
    chosen.replacementPointer < associativity ∧ (∀ way < associativity, chosen.rripBits way ≤ rripMax) ∧
      chosen.rripBits chosen.replacementPointer = rripMax := by
  let inside : Srrip → Prop := fun fields =>
    fields.replacementPointer < associativity ∧ ∀ way < associativity, fields.rripBits way ≤ rripMax
  have starts : inside { fields with attempt := 0 } := ⟨keeps.pointer, keeps.bounded⟩
  have rejects : ∀ fields, inside fields → inside { fields with
      rripBits := Function.update fields.rripBits fields.replacementPointer 0, attempt := fields.attempt + 1 } := by
    intro fields holds
    refine ⟨holds.1, fun way small => ?_⟩
    by_cases same : way = fields.replacementPointer
    · subst same
      simp
    · simpa only [Function.update_of_ne same] using holds.2 way small
  have ages : ∀ fields, inside fields → inside (age associativity rripMax fields) := by
    intro fields holds
    refine ⟨holds.1, fun way small => ?_⟩
    have bounded := holds.2 way small
    simp only [age]
    split <;> omega
  obtain ⟨holds, top⟩ :=
    searchRounds_invariant inside (fun fields holds => ⟨advance_lt positive, holds.2⟩) rejects ages starts found
  exact ⟨holds.1, holds.2, Nat.le_antisymm (holds.2 _ holds.1) top⟩

theorem srrip_keeps {contents : Contents} (positive : 0 < associativity) (some_ : 0 < rripMax) (byte : rripMax < 256)
    (reached : (CacheSetSRRIP associativity rripMax numAttempts).machine.Reachable (contents, fields)) :
    SrripKeeps associativity rripMax fields := by
  have inserted := rripInsert_eq some_ byte
  refine Policy.invariant (CacheSetSRRIP associativity rripMax numAttempts) (SrripKeeps associativity rripMax) ?_ ?_ ?_ ?_ reached
  · intro start starts
    rw [show start = Srrip.mk (fun _ => rripInsert rripMax) 0 0 from starts]
    refine ⟨positive, fun _ _ => ?_, fun large => ⟨0, positive, ?_⟩⟩
    · show rripInsert rripMax ≤ rripMax
      omega
    · show associativity ≤ rripInsert rripMax
      omega
  · intro set call fields after index result keeps
    have keeps : SrripKeeps associativity rripMax fields := keeps
    cases full : firstInvalid associativity set with
    | some way =>
      simp only [CacheSetSRRIP, full] at result
      cases result
      exact .inserted some_ byte (firstInvalid_lt full) keeps.pointer keeps.bounded
    | none =>
      have returned := (srripChosen_search call).symm.trans (srrip_chosen full result)
      obtain ⟨chosen, found, isTaken⟩ := Option.map_eq_some_iff.mp returned
      cases isTaken
      obtain ⟨inside, bounded, _⟩ := keeps.chosen positive found
      exact .inserted some_ byte inside (advance_lt positive) bounded
  · intro way small writeFlag setIndex fields after result keeps
    have keeps : SrripKeeps associativity rripMax fields := keeps
    simp only [CacheSetSRRIP, increment] at result
    split at result
    case isTrue low =>
      cases result
      refine ⟨keeps.pointer, ?_, ?_⟩
      · intro other otherSmall
        have bounded := keeps.bounded other otherSmall
        by_cases same : other = way
        · subst same
          simp only [Function.update_self]
          omega
        · simpa only [Function.update_of_ne same] using bounded
      · intro large
        obtain ⟨recent, isWay, high⟩ := keeps.recent large
        refine ⟨recent, isWay, ?_⟩
        have apart : recent ≠ way := by
          intro same
          subst same
          omega
        simpa only [Function.update_of_ne apart] using high
    case isFalse => cases result
  · intro way loopbit fields keeps
    exact keeps

theorem srrip_returns (positive : 0 < associativity) (fits : associativity ≤ 256) (some_ : 0 < rripMax) (byte : rripMax < 256)
    (enough : 2 * (numAttempts - 1) < associativity ∨ associativity < rripMax ∧ 2 * (numAttempts - 1) = associativity) :
    SrripReturns associativity rripMax numAttempts := by
  intro contents fields reached
  have keeps := srrip_keeps positive some_ byte reached
  refine ⟨keeps.bounded, fun full call => ?_⟩
  cases found : srripSearch associativity rripMax numAttempts call fields with
  | some chosen =>
    obtain ⟨inside, _, top⟩ := keeps.chosen positive found
    have valid := (full _ inside).2
    exact ⟨chosen, rfl, inside, top, srrip_full (firstInvalid_eq_none fun way small => (full way small).1) found valid⟩
  | none =>
    have starts : Searching associativity rripMax numAttempts fields.rripBits 0 { fields with attempt := 0 } := by
      refine ⟨keeps.pointer, Nat.zero_le _, (lowCount_zero _).le, fun _ way small => ⟨rfl, keeps.bounded way small⟩⟩
    obtain ⟨half, tight⟩ := searchRounds_none positive fits starts (Nat.zero_add _) found
    cases enough with
    | inl few => omega
    | inr exact_ =>
      obtain ⟨recent, isWay, high⟩ := keeps.recent exact_.1
      have low := tight exact_.2.symm recent isWay
      omega

end Sniper.Replacement

import Sniper.BranchPredictors.LoopBranchPredictor

/-! When a hit of a `LoopBranchPredictor` rests on what an update of its branch has seen. -/

namespace Sniper.BranchPredictors

namespace LoopBranchPredictor

inductive Call where
  | lookup (ip : UInt64)
  | update (actual : Bool) (ip : UInt64)
deriving DecidableEq, Repr

/-- A predictor, and the ways that an update has enabled since they were last allocated. -/
structure Traced where
  predictor : LoopBranchPredictor
  earned : Fin 64 → Nat → Bool

namespace Traced

def start (numWays : Nat) : Traced := ⟨create numWays, fun _ _ => false⟩

/-- What an update makes of the ways that are enabled since their allocation. -/
def afterUpdate (traced : Traced) (actual : Bool) (ip : UInt64) : Fin 64 → Nat → Bool :=
  fun index way =>
    if index ≠ (genIndexTag ip).1 then traced.earned index way
    else match traced.predictor.tagWay ip with
      | some found =>
        if way = found then
          traced.earned index way || ((traced.predictor.ways index).getD way Entry.initial).enables actual
        else traced.earned index way
      | none => if way = traced.predictor.lruWay ip then false else traced.earned index way

def step (traced : Traced) : Call → Traced
  | .lookup ip => { traced with predictor := (traced.predictor.lookup ip).2 }
  | .update actual ip => ⟨traced.predictor.update actual ip, traced.afterUpdate actual ip⟩

/-- A lookup hits no way but one that an update has enabled since its allocation. -/
def Trusted (traced : Traced) : Prop :=
  ∀ ip, (traced.predictor.lookup ip).1.hit = true →
    ∃ way, traced.predictor.hitWay ip = some way ∧ traced.earned (genIndexTag ip).1 way = true

/-- An update that finds no way with its tag replaces an entry that is not enabled. -/
def ReplacesDisabled (traced : Traced) : Call → Prop
  | .lookup _ => True
  | .update _ ip => traced.predictor.tagWay ip = none →
      ∀ entry, (traced.predictor.ways (genIndexTag ip).1)[traced.predictor.lruWay ip]? = some entry → entry.enabled = false

/-- Every enabled entry has been enabled since its allocation. -/
def Earned (traced : Traced) : Prop :=
  ∀ index way entry, (traced.predictor.ways index)[way]? = some entry → entry.enabled = true → traced.earned index way = true

variable {traced : Traced} {ip : UInt64}

theorem lookup_hit : (traced.predictor.lookup ip).1.hit = true ↔ ∃ way, traced.predictor.hitWay ip = some way := by
  rw [lookup]
  cases traced.predictor.hitWay ip with
  | none => simp
  | some way => simp

theorem hitWay_enabled {way : Nat} (hit : traced.predictor.hitWay ip = some way) :
    ∃ entry, (traced.predictor.ways (genIndexTag ip).1)[way]? = some entry ∧ entry.enabled = true := by
  obtain ⟨inside, enabled, -⟩ := List.findIdx?_eq_some_iff_getElem.mp hit
  exact ⟨_, List.getElem?_eq_getElem inside, (Bool.and_eq_true_iff.mp enabled).1⟩

theorem Earned.trusted (earned : Earned traced) : Trusted traced := by
  intro ip hit
  obtain ⟨way, found⟩ := lookup_hit.mp hit
  obtain ⟨entry, stored, enabled⟩ := hitWay_enabled found
  exact ⟨way, found, earned _ way entry stored enabled⟩

theorem earned_start (numWays : Nat) : Earned (start numWays) := by
  intro index way entry stored enabled
  have initial := List.eq_of_mem_replicate (List.mem_of_getElem? stored)
  simp [initial, Entry.initial] at enabled

theorem Earned.lookup (earned : Earned traced) (ip : UInt64) : Earned (traced.step (.lookup ip)) := by
  intro index way entry stored enabled
  dsimp only [step] at stored ⊢
  rw [LoopBranchPredictor.lookup] at stored
  cases found : traced.predictor.hitWay ip with
  | none =>
    rw [found] at stored
    exact earned index way entry stored enabled
  | some hit =>
    rw [found] at stored
    rcases use_getElem? stored with ⟨before, -⟩ | ⟨rfl, rfl, old, before, rfl⟩
    · exact earned index way entry before enabled
    · exact earned _ _ old before enabled

theorem Earned.update (earned : Earned traced) {actual : Bool} (replaces : ReplacesDisabled traced (.update actual ip)) :
    Earned (traced.step (.update actual ip)) := by
  intro index way entry stored enabled
  dsimp only [step, afterUpdate] at stored ⊢
  rw [LoopBranchPredictor.update] at stored
  cases found : traced.predictor.tagWay ip with
  | none =>
    rw [found] at stored
    rcases use_getElem? stored with ⟨before, another⟩ | ⟨rfl, rfl, old, before, rfl⟩
    · have kept := earned index way entry before enabled
      by_cases elsewhere : index = (genIndexTag ip).1
      · have different : way ≠ traced.predictor.lruWay ip := fun same => another ⟨elsewhere, same⟩
        rwa [if_neg (not_not.mpr elsewhere), if_neg different]
      · rwa [if_pos elsewhere]
    · have disabled := replaces found old before
      have still : old.enabled = true := enabled
      simp [disabled] at still
  | some tagged =>
    rw [found] at stored
    rcases use_getElem? stored with ⟨before, another⟩ | ⟨rfl, rfl, old, before, rfl⟩
    · have kept := earned index way entry before enabled
      by_cases elsewhere : index = (genIndexTag ip).1
      · have different : way ≠ tagged := fun same => another ⟨elsewhere, same⟩
        simpa only [if_neg (not_not.mpr elsewhere), if_neg different] using kept
      · rwa [if_pos elsewhere]
    · have read : (traced.predictor.ways (genIndexTag ip).1).getD way Entry.initial = old := by
        rw [List.getD_eq_getElem?_getD, before, Option.getD_some]
      simp only [ne_eq, not_true_eq_false, ↓reduceIte, read, Bool.or_eq_true]
      rcases train_enabled enabled with already | now
      · exact .inl (earned _ way old before already)
      · exact .inr now

theorem trusted_replaces (actual : Bool) (trusted : Trusted (traced.step (.update actual ip))) :
    ReplacesDisabled traced (.update actual ip) := by
  intro none entry stored
  by_contra enabled
  rw [Bool.not_eq_false] at enabled
  have inside := (List.getElem?_eq_some_iff.mp stored).1
  have missing := List.findIdx?_eq_none_iff.mp none
  have ways : (traced.step (.update actual ip)).predictor.ways (genIndexTag ip).1 =
      (traced.predictor.ways (genIndexTag ip).1).modify (traced.predictor.lruWay ip) fun entry =>
        { entry.allocate (genIndexTag ip).2 actual with lru := traced.predictor.lruUseCount } := by
    simp [step, LoopBranchPredictor.update, none]
  have hits : (traced.step (.update actual ip)).predictor.hitWay ip = some (traced.predictor.lruWay ip) := by
    rw [hitWay, ways, List.findIdx?_eq_some_iff_getElem]
    refine ⟨by simpa using inside, ?_, fun other before => ?_⟩
    · obtain ⟨_, same⟩ := List.getElem?_eq_some_iff.mp stored
      simp [Entry.allocate, same, enabled]
    · have otherInside : other < (traced.predictor.ways (genIndexTag ip).1).length := Nat.lt_trans before inside
      have another := missing _ (List.getElem_mem otherInside)
      have different : traced.predictor.lruWay ip ≠ other := Nat.ne_of_gt before
      simp_all
  obtain ⟨way, found, earned⟩ := trusted ip (lookup_hit.mpr ⟨_, hits⟩)
  rw [hits, Option.some.injEq] at found
  subst found
  simp [step, afterUpdate, none] at earned

/-- In every state of a run a lookup hits no way but one that an update has enabled since its allocation if and only if
no update replaces an enabled entry. -/
theorem trusted_iff_replacesDisabled (numWays : Nat) (calls : List Call) :
    AllStates step Trusted (start numWays) calls ↔ AllSteps step ReplacesDisabled (start numWays) calls := by
  have preserved (traced : Traced) (call : Call) (earned : Earned traced) (replaces : ReplacesDisabled traced call) :
      Earned (traced.step call) := by
    cases call with
    | lookup ip => exact earned.lookup ip
    | update actual ip => exact earned.update replaces
  refine allStates_iff_allSteps (fun traced call earned _ => preserved traced call earned) (fun traced call earned _ => ?_)
    (earned_start numWays) (earned_start numWays).trusted
  refine ⟨fun trusted => ?_, fun replaces => (preserved traced call earned replaces).trusted⟩
  cases call with
  | lookup ip => exact trivial
  | update actual ip => exact trusted_replaces actual trusted

/-- Branch 0x400 is enabled, 0x800 takes the other way, and 0xC00 replaces 0x400. -/
def replacement : List Call := [.update true 0x400, .update false 0x400, .update true 0x800, .update true 0xC00]

/-- The first lookup of 0xC00 hits. -/
theorem replacement_untrusted :
    ((replacement.foldl step (start 2)).predictor.lookup 0xC00).1.hit = true ∧
    (replacement.foldl step (start 2)).predictor.hitWay 0xC00 = some 0 ∧
    (replacement.foldl step (start 2)).earned 0 0 = false ∧
    ¬AllStates step Trusted (start 2) replacement := by
  refine ⟨by decide, by decide, by decide, ?_⟩
  rintro ⟨-, -, -, -, trusted⟩
  obtain ⟨way, found, earned⟩ := trusted 0xC00 (by decide)
  cases found.symm.trans (show _ = some 0 by decide)
  exact absurd earned (by decide)

end Traced

end LoopBranchPredictor

end Sniper.BranchPredictors

import Mathlib.Logic.Basic

/-! Values set for all indices of a name or for one of them, and the one that is in force. -/

namespace Sniper

/-- A value for the indices of a name; no index is all of them. -/
structure Setting (κ : Type u) (ι : Type v) (β : Type w) where
  name : κ
  index : Option ι
  value : β

namespace Setting

variable {κ : Type u} {ι : Type v} {β : Type w} [DecidableEq κ] [DecidableEq ι] {setting : Setting κ ι β}
  {history : List (Setting κ ι β)} {name other : κ} {index index' : Option ι}

def isFor (name : κ) (index : Option ι) (setting : Setting κ ι β) : Bool := setting.name = name ∧ setting.index = index

/-! A history has the last setting first. -/

def lastDefault (name : κ) (history : List (Setting κ ι β)) : Option β := (history.find? (isFor name none)).map value

/-- The last value for an index since the last one for all of them. -/
def lastSince (name : κ) (index : Option ι) (history : List (Setting κ ι β)) : Option β :=
  ((history.takeWhile fun setting => !setting.isFor name none).find? (isFor name index)).map value

def inForce (name : κ) (index : Option ι) (history : List (Setting κ ι β)) : Option β :=
  (lastSince name index history).or (lastDefault name history)

/-- A name with values for single indices only. -/
def OverridesOnly (name : κ) (history : List (Setting κ ι β)) : Prop :=
  (∃ setting ∈ history, setting.name = name) ∧ ∀ setting ∈ history, setting.name = name → setting.index ≠ none

theorem isFor_iff : setting.isFor name index = true ↔ setting.name = name ∧ setting.index = index :=
  decide_eq_true_iff

@[simp] theorem lastDefault_nil : lastDefault name ([] : List (Setting κ ι β)) = none := rfl

@[simp] theorem lastSince_nil : lastSince name index ([] : List (Setting κ ι β)) = none := rfl

theorem lastDefault_cons : lastDefault name (setting :: history) =
    if setting.name = name ∧ setting.index = none then some setting.value else lastDefault name history := by
  unfold lastDefault
  rw [List.find?_cons]
  by_cases same : setting.name = name ∧ setting.index = none
  · simp only [isFor_iff.mpr same, if_pos same, Option.map_some]
  · simp only [Bool.eq_false_iff.mpr (mt isFor_iff.mp same), if_neg same]

theorem lastSince_cons : lastSince name index (setting :: history) =
    if setting.name = name ∧ setting.index = none then none
    else if setting.name = name ∧ setting.index = index then some setting.value else lastSince name index history := by
  unfold lastSince
  by_cases default : setting.name = name ∧ setting.index = none
  · simp only [List.takeWhile_cons, isFor_iff.mpr default, if_pos default]
    rfl
  · have later : setting.isFor name none = false := Bool.eq_false_iff.mpr (mt isFor_iff.mp default)
    simp only [List.takeWhile_cons, later, Bool.not_false, if_true, if_neg default, List.find?_cons]
    by_cases same : setting.name = name ∧ setting.index = index
    · simp only [isFor_iff.mpr same, if_pos same, Option.map_some]
    · simp only [Bool.eq_false_iff.mpr (mt isFor_iff.mp same), if_neg same]

/-- For all indices there is the default only. -/
theorem lastSince_none : lastSince name none history = none := by
  induction history with
  | nil => rfl
  | cons setting history ih =>
    rw [lastSince_cons, ih]
    split <;> rfl

theorem inForce_none : inForce name none history = lastDefault name history := by
  rw [inForce, lastSince_none, Option.none_or]

theorem lastDefault_isSome : (lastDefault name history).isSome ↔ ∃ setting ∈ history, setting.name = name ∧ setting.index = none := by
  simp only [lastDefault, Option.isSome_map, List.find?_isSome, isFor_iff]

/-- Without a default, all values of a name count. -/
theorem lastSince_isSome (missing : lastDefault name history = none) :
    (∃ index, (lastSince name (some index) history).isSome) ↔ ∃ setting ∈ history, setting.name = name := by
  induction history with
  | nil => simp
  | cons setting history ih =>
    rw [lastDefault_cons] at missing
    by_cases default : setting.name = name ∧ setting.index = none
    · simp [default] at missing
    · rw [if_neg default] at missing
      simp only [lastSince_cons, if_neg default, List.mem_cons, exists_eq_or_imp, ← ih missing]
      by_cases same : setting.name = name
      · obtain ⟨index, isIndex⟩ := Option.ne_none_iff_exists'.mp fun none_ => default ⟨same, none_⟩
        refine iff_of_true ⟨index, ?_⟩ (.inl same)
        rw [if_pos ⟨same, isIndex⟩]
        rfl
      · simp [same]

theorem overridesOnly_iff : OverridesOnly name history ↔
    lastDefault name history = none ∧ ∃ index, (lastSince name (some index) history).isSome := by
  have missing : lastDefault name history = none ↔ ∀ setting ∈ history, setting.name = name → setting.index ≠ none := by
    rw [← Option.not_isSome_iff_eq_none, lastDefault_isSome]
    simp only [not_exists, not_and, ne_eq]
  unfold OverridesOnly
  rw [← missing, and_comm]
  exact and_congr_right fun none_ => (lastSince_isSome none_).symm

end Setting

end Sniper

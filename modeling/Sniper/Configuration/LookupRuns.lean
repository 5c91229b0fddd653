import Sniper.Configuration.LookupSteps
import Mathlib.Data.List.Induction

/-! Which settings the lookups of a run find. -/

namespace Sniper.Configuration.Lookups

variable {caseSensitive : Bool} {root next : Section} {keys : Keys} {names : List Text} {iname name value : Text}
  {index : Option Nat} {place : List Text × Text} {before later : List Operation}

section Holds

variable {history : List (Setting (List Text × Text) Nat Key)} {setting : Setting (List Text × Text) Nat Key}

/-- The keys of a section have the settings of a name. -/
structure Keys.Holds (history : List (Setting (List Text × Text) Nat Key)) (place : List Text × Text) (keys : Keys) : Prop where
  default : keys.keys.find place.2 = (Setting.lastDefault place history).map some
  override : ∀ index, keys.element place.2 index = Setting.lastSince place (some index) history
  array : (keys.arrayKeys.find place.2).isSome ↔ ∃ index, (Setting.lastSince place (some index) history).isSome

theorem Keys.Holds.cons_of_ne (holds : keys.Holds history place) (different : setting.name ≠ place) :
    keys.Holds (setting :: history) place := by
  constructor <;> simp only [Setting.lastDefault_cons, Setting.lastSince_cons, different, false_and, if_false]
  · exact holds.default
  · exact holds.override
  · exact holds.array

theorem Keys.Holds.addKey_of_ne (holds : keys.Holds history (names, iname)) (different : iname ≠ fold caseSensitive name)
    (value : Text) (index : Option Nat) : (keys.addKey caseSensitive name value index).Holds history (names, iname) := by
  have default : (keys.addKey caseSensitive name value index).keys.find iname = keys.keys.find iname := by
    cases index with
    | none => exact (OrderedMap.find_insert_of_ne different).trans (OrderedMap.find_erase_of_ne different)
    | some index => rfl
  have array : (keys.addKey caseSensitive name value index).arrayKeys.find iname = keys.arrayKeys.find iname := by
    cases index with
    | none => exact OrderedMap.find_erase_of_ne different
    | some index => exact OrderedMap.find_insert_of_ne different
  constructor
  · exact default.trans holds.default
  · intro index
    rw [Keys.element, array]
    exact holds.override index
  · rw [array]
    exact holds.array

theorem resized_getElem (array : List (Option Key)) (index other : Nat) (key : Key) :
    ((array ++ List.replicate (index + 1 - array.length) none).set index (some key))[other]?.join =
      if index = other then some key else array[other]?.join := by
  rw [List.getElem?_set]
  by_cases same : index = other
  · have inside : index < (array ++ List.replicate (index + 1 - array.length) none).length := by
      simp only [List.length_append, List.length_replicate]
      omega
    rw [if_pos same, if_pos same, if_pos inside]
    rfl
  · simp only [same, if_false]
    by_cases held : other < array.length
    · rw [List.getElem?_append_left held]
    · rw [List.getElem?_append_right (Nat.le_of_not_lt held), List.getElem?_replicate,
        List.getElem?_eq_none (Nat.le_of_not_lt held)]
      split <;> rfl

theorem Keys.Holds.addKey_self (holds : keys.Holds history (names, fold caseSensitive name)) (value : Text) (index : Option Nat) :
    (keys.addKey caseSensitive name value index).Holds
      (⟨(names, fold caseSensitive name), index, ⟨name, value⟩⟩ :: history) (names, fold caseSensitive name) := by
  cases index with
  | none =>
    have array : (keys.addKey caseSensitive name value none).arrayKeys.find (fold caseSensitive name) = none :=
      OrderedMap.find_erase_self
    constructor
    · rw [Setting.lastDefault_cons, if_pos ⟨rfl, rfl⟩]
      exact OrderedMap.find_insert_self
    · intro index
      rw [Setting.lastSince_cons, if_pos ⟨rfl, rfl⟩, Keys.element, array]
      rfl
    · simp only [Setting.lastSince_cons, and_self, if_true, array]
      simp
  | some added =>
    have single : ¬((names, fold caseSensitive name) = (names, fold caseSensitive name) ∧ some added = none) :=
      fun both => Option.some_ne_none added both.2
    have array : (keys.addKey caseSensitive name value (some added)).arrayKeys.find (fold caseSensitive name) =
        some _ := OrderedMap.find_insert_self
    constructor
    · rw [Setting.lastDefault_cons, if_neg single]
      exact holds.default
    · intro index
      rw [Setting.lastSince_cons, if_neg single, Keys.element, array, ← holds.override index, Option.bind_some, resized_getElem]
      simp only [true_and, Option.some.injEq, Keys.element]
      cases keys.arrayKeys.find (fold caseSensitive name) <;> simp
    · refine iff_of_true (by rw [array]; rfl) ⟨added, ?_⟩
      rw [Setting.lastSince_cons, if_neg single, if_pos ⟨rfl, rfl⟩]
      rfl

/-! ### What a lookup finds -/

theorem Keys.Holds.hasKey_iff (holds : keys.Holds history (names, fold caseSensitive name)) :
    keys.hasKey caseSensitive name index = true ↔
      (Setting.inForce (names, fold caseSensitive name) index history).isSome ∨
        index = none ∧ Setting.OverridesOnly (names, fold caseSensitive name) history := by
  have default : (keys.keys.find (fold caseSensitive name)).isSome =
      (Setting.lastDefault (names, fold caseSensitive name) history).isSome := by
    rw [holds.default, Option.isSome_map]
  cases index with
  | none =>
    simp only [Keys.hasKey, Bool.or_eq_true, default, holds.array, Setting.inForce_none, Setting.overridesOnly_iff, true_and]
    cases Setting.lastDefault (names, fold caseSensitive name) history <;> simp
  | some index =>
    simp only [Keys.hasKey, Bool.or_eq_true, default, holds.override, Setting.inForce, Option.isSome_or]
    simp

theorem Keys.Holds.getKey_of_inForce {key : Key} (holds : keys.Holds history (names, fold caseSensitive name))
    (found : Setting.inForce (names, fold caseSensitive name) index history = some key) :
    keys.getKey caseSensitive name index = (some key, keys) := by
  have default (last : Setting.lastDefault (names, fold caseSensitive name) history = some key) :
      keys.indexKeys (fold caseSensitive name) = (some key, keys) := by
    rw [Keys.indexKeys, holds.default, last]
    rfl
  cases index with
  | none => exact default (Setting.inForce_none.symm.trans found)
  | some index =>
    simp only [Keys.getKey, holds.override]
    cases since : Setting.lastSince (names, fold caseSensitive name) (some index) history with
    | none =>
      rw [Setting.inForce, since, Option.none_or] at found
      exact default found
    | some last =>
      rw [Setting.inForce, since, Option.some_or] at found
      rw [Option.some.inj found]

theorem Keys.Holds.getKey_of_overridesOnly (holds : keys.Holds history (names, fold caseSensitive name))
    (overrides : Setting.OverridesOnly (names, fold caseSensitive name) history) :
    (keys.getKey caseSensitive name none).1 = none := by
  simp only [Keys.getKey, Keys.indexKeys, holds.default, (Setting.overridesOnly_iff.mp overrides).1]
  rfl

end Holds

/-! ### The answers depend on the keys only -/

def SameKeys (root next : Section) : Prop := ∀ path, next.keysAt path = root.keysAt path

theorem SameKeys.perform (same : SameKeys root next) (caseSensitive : Bool) (operation : Operation) :
    (perform caseSensitive next operation).1 = (perform caseSensitive root operation).1 ∧
      SameKeys (perform caseSensitive root operation).2 (perform caseSensitive next operation).2 := by
  have has (path : Text) (index : Option Nat) :
      (hasKey caseSensitive path index next).1 = (hasKey caseSensitive path index root).1 := by
    rw [hasKey_fst, hasKey_fst, same]
  cases operation with
  | addKey path value index =>
    refine ⟨rfl, fun other => ?_⟩
    simp only [Lookups.perform, addKey_keysAt, same other]
  | hasKey path index =>
    refine ⟨congrArg (fun found => Except.ok (Answer.has found)) (has path index), fun other => ?_⟩
    simp only [Lookups.perform, hasKey_keysAt, same other]
  | getKey path index =>
    have got : (getKey caseSensitive path index next).1 = (getKey caseSensitive path index root).1 := by
      rw [getKey_fst, getKey_fst, has, same]
    refine ⟨congrArg (Except.map Answer.got) got, fun other => ?_⟩
    simp only [Lookups.perform, getKey_keysAt, has, same other]

theorem SameKeys.answers (same : SameKeys root next) (later : List Operation) :
    answers caseSensitive next later = answers caseSensitive root later := by
  induction later generalizing root next with
  | nil => rfl
  | cons operation later ih =>
    obtain ⟨answer, keys⟩ := same.perform caseSensitive operation
    simp only [Lookups.answers, answer, ih keys]

/-! ### Runs -/

def Holds (caseSensitive : Bool) (before : List Operation) (root : Section) : Prop :=
  ∀ place : List Text × Text, (root.keysAt place.1).Holds (history caseSensitive before) place

/-- The lookup of a name with overrides only. -/
def Unset (caseSensitive : Bool) (before : List Operation) (path : Text) (index : Option Nat) : Prop :=
  index = none ∧ Setting.OverridesOnly (pathName caseSensitive path) (history caseSensitive before)

theorem getKey_of_not_hasKey {path : Text} (missing : ¬(hasKey caseSensitive path index root).1 = true) :
    (getKey caseSensitive path index root).1 = .error .notFound ∧ SameKeys root (getKey caseSensitive path index root).2 := by
  refine ⟨by rw [getKey_fst, if_neg missing], fun other => ?_⟩
  rw [getKey_keysAt, if_neg fun both => missing both.2]

section Lookup

variable {path : Text} (holds : Holds caseSensitive before root)
include holds

theorem Holds.hasKey_iff : (hasKey caseSensitive path index root).1 = true ↔
    (Setting.inForce (pathName caseSensitive path) index (history caseSensitive before)).isSome ∨
      Unset caseSensitive before path index := by
  rw [hasKey_fst]
  exact (holds (pathName caseSensitive path)).hasKey_iff

theorem Holds.getKey_of_inForce {key : Key}
    (found : Setting.inForce (pathName caseSensitive path) index (history caseSensitive before) = some key) :
    (getKey caseSensitive path index root).1 = .ok (some key) ∧ SameKeys root (getKey caseSensitive path index root).2 := by
  have has : (hasKey caseSensitive path index root).1 = true := holds.hasKey_iff.mpr (.inl (Option.isSome_of_eq_some found))
  have got : (root.keysAt (pathName caseSensitive path).1).getKey caseSensitive (splitPath path).2 index =
      (some key, root.keysAt (pathName caseSensitive path).1) := (holds (pathName caseSensitive path)).getKey_of_inForce found
  refine ⟨by rw [getKey_fst, if_pos has, got], fun other => ?_⟩
  rw [getKey_keysAt]
  split
  case isTrue here => rw [here.1, got]
  case isFalse => rfl

theorem Holds.getKey_sameKeys (careful : ¬Unset caseSensitive before path index) :
    SameKeys root (getKey caseSensitive path index root).2 := by
  cases found : Setting.inForce (pathName caseSensitive path) index (history caseSensitive before) with
  | some key => exact (holds.getKey_of_inForce found).2
  | none =>
    apply (getKey_of_not_hasKey _).2
    rw [holds.hasKey_iff, found]
    exact not_or.mpr ⟨Bool.false_ne_true, careful⟩

theorem Holds.getKey_of_unset (unset : Unset caseSensitive before path index) :
    (getKey caseSensitive path index root).1 = .ok none := by
  have has : (hasKey caseSensitive path index root).1 = true := holds.hasKey_iff.mpr (.inr unset)
  obtain ⟨rfl, overrides⟩ := unset
  rw [getKey_fst, if_pos has]
  exact congrArg Except.ok ((holds (pathName caseSensitive path)).getKey_of_overridesOnly overrides)

theorem Holds.promise_iff : Promise caseSensitive before root path index ↔ ¬Unset caseSensitive before path index := by
  have later : SameKeys root (hasKey caseSensitive path index root).2 := fun _ => hasKey_keysAt path
  have asked : (getKey caseSensitive path index (hasKey caseSensitive path index root).2).1 =
      (getKey caseSensitive path index root).1 := by
    rw [getKey_fst, getKey_fst, hasKey_fst, hasKey_fst, later]
  constructor
  · intro promise unset
    have has : (hasKey caseSensitive path index root).1 = true := holds.hasKey_iff.mpr (.inr unset)
    obtain ⟨key, got⟩ := promise.agrees.mp has
    rw [asked, holds.getKey_of_unset unset] at got
    cases got
  · intro careful
    have has : (hasKey caseSensitive path index root).1 = true ↔
        (Setting.inForce (pathName caseSensitive path) index (history caseSensitive before)).isSome :=
      holds.hasKey_iff.trans (or_iff_left careful)
    constructor
    · rw [asked, has, Option.isSome_iff_exists]
      constructor
      · intro ⟨key, found⟩
        exact ⟨key, (holds.getKey_of_inForce found).1⟩
      · intro ⟨key, got⟩
        by_contra missing
        rw [← Option.isSome_iff_exists, ← has] at missing
        cases (getKey_of_not_hasKey missing).1.symm.trans got
    · intro key got
      rw [asked] at got
      by_cases found : (hasKey caseSensitive path index root).1 = true
      · obtain ⟨last, inForce⟩ := Option.isSome_iff_exists.mp (has.mp found)
        cases (holds.getKey_of_inForce inForce).1.symm.trans got
        exact inForce
      · cases (getKey_of_not_hasKey found).1.symm.trans got
    · intro other same
      have place := pathName_congr same
      have name : fold caseSensitive (splitPath other).2 = fold caseSensitive (splitPath path).2 := congrArg Prod.snd place
      have hasSame : (hasKey caseSensitive other index root).1 = (hasKey caseSensitive path index root).1 := by
        rw [hasKey_fst, hasKey_fst, place, Keys.hasKey_congr name]
      refine ⟨hasSame, ?_⟩
      rw [getKey_fst, getKey_fst, hasSame, place, Keys.getKey_congr name]
    · exact fun operations => ⟨later.answers operations, (holds.getKey_sameKeys careful).answers operations⟩

end Lookup

theorem holds_nil : Holds caseSensitive [] .empty := by
  intro place
  rw [Section.keysAt_empty]
  constructor
  · rfl
  · exact fun _ => rfl
  · simp [Keys.empty, history]

theorem Holds.of_sameKeys (holds : Holds caseSensitive before root) (same : SameKeys root next) (operation : Operation)
    (sets : setting caseSensitive operation = none) : Holds caseSensitive (before ++ [operation]) next := by
  intro place
  rw [same, history, List.filterMap_append, List.filterMap_cons, sets, List.filterMap_nil, List.append_nil]
  exact holds place

theorem Holds.addKey (holds : Holds caseSensitive before root) (path value : Text) (index : Option Nat) :
    Holds caseSensitive (before ++ [.addKey path value index]) (addKey caseSensitive path value index root) := by
  intro (names, iname)
  have added : history caseSensitive (before ++ [.addKey path value index]) =
      ⟨pathName caseSensitive path, index, ⟨(splitPath path).2, value⟩⟩ :: history caseSensitive before := by
    simp [history, setting]
  rw [added, addKey_keysAt]
  by_cases inSection : names = (pathName caseSensitive path).1
  · rw [if_pos inSection]
    subst inSection
    by_cases same : iname = fold caseSensitive (splitPath path).2
    · subst same
      exact (holds _).addKey_self value index
    · exact ((holds _).addKey_of_ne same value index).cons_of_ne fun equal => same (congrArg Prod.snd equal).symm
  · rw [if_neg inSection]
    exact (holds (names, iname)).cons_of_ne fun equal => inSection (congrArg Prod.fst equal).symm

theorem Holds.step {operation : Operation} (holds : Holds caseSensitive before root)
    (careful : ∀ path, lookup operation = some (path, none) →
      ¬Setting.OverridesOnly (pathName caseSensitive path) (history caseSensitive before))
    (stepped : (machine caseSensitive).step root operation = .ok next) :
    Holds caseSensitive (before ++ [operation]) next := by
  cases operation with
  | addKey path value index =>
    cases stepped
    exact holds.addKey path value index
  | hasKey path index =>
    cases stepped
    exact holds.of_sameKeys (fun _ => hasKey_keysAt path) _ rfl
  | getKey path index =>
    have set : ¬Unset caseSensitive before path index := fun unset => careful path (by rw [lookup, unset.1]) unset.2
    have same := holds.getKey_sameKeys set
    have isNext : (getKey caseSensitive path index root).2 = next := by
      simp only [machine, Lookups.perform] at stepped
      cases got : (getKey caseSensitive path index root).1 with
      | error fault => simp [got, Except.map] at stepped
      | ok pointer =>
        rw [got] at stepped
        exact Except.ok.inj stepped
    exact isNext ▸ holds.of_sameKeys same _ rfl

theorem holds_run (careful : ∀ earlier operation root, Performs caseSensitive before earlier operation root →
      ∀ path, lookup operation = some (path, none) →
        ¬Setting.OverridesOnly (pathName caseSensitive path) (history caseSensitive earlier))
    (ran : (machine caseSensitive).run .empty before = .ok root) : Holds caseSensitive before root := by
  induction before using List.reverseRecOn generalizing root with
  | nil =>
    cases ran
    exact holds_nil
  | append_singleton earlier operation ih =>
    obtain ⟨middle, ranEarlier, stepped⟩ := Machine.run_concat_iff.mp ran
    have sooner : Holds caseSensitive earlier middle := by
      apply ih _ ranEarlier
      intro first other state ⟨⟨later, parts⟩, performed⟩
      exact careful first other state ⟨⟨later ++ [operation], by simp [parts]⟩, performed⟩
    exact sooner.step (careful earlier operation middle ⟨⟨[], rfl⟩, ranEarlier⟩) stepped

/-- The lookups of a run keep their promises if and only if none of them is of overrides only. -/
theorem keepsPromises_iff (operations : List Operation) :
    KeepsPromises caseSensitive operations ↔ DefaultsFirst caseSensitive operations := by
  constructor
  · intro keeps
    have careful (count : Nat) : ∀ before operation root, before.length = count →
        Performs caseSensitive operations before operation root → ∀ path, lookup operation = some (path, none) →
          ¬Setting.OverridesOnly (pathName caseSensitive path) (history caseSensitive before) := by
      induction count using Nat.strong_induction_on with
      | h count ih =>
        intro before operation root length performs path looksUp overrides
        have holds : Holds caseSensitive before root := by
          apply holds_run _ performs.2
          intro earlier other state ⟨⟨between, parts⟩, ran⟩
          obtain ⟨later, all⟩ := performs.1
          apply ih earlier.length _ earlier other state rfl ⟨⟨between ++ operation :: later, by simp [all, parts]⟩, ran⟩
          simp only [← length, parts, List.length_append, List.length_cons]
          omega
        exact holds.promise_iff.mp (keeps before operation root performs path none looksUp) ⟨rfl, overrides⟩
    exact fun before operation root => careful before.length before operation root rfl
  · intro careful before operation root performs path index looksUp
    have holds : Holds caseSensitive before root := by
      apply holds_run _ performs.2
      intro earlier other state ⟨⟨between, parts⟩, ran⟩
      obtain ⟨later, all⟩ := performs.1
      exact careful earlier other state ⟨⟨between ++ operation :: later, by simp [all, parts]⟩, ran⟩
    apply holds.promise_iff.mpr
    intro ⟨noIndex, overrides⟩
    exact careful before operation root performs path (noIndex ▸ looksUp) overrides

/-- An override alone: there is a key without an index, and it is null. -/
theorem override_without_default : ¬KeepsPromises false [.addKey "net/hops".toList ['2'] (some 0), .getKey "net/hops".toList none] := by
  intro keeps
  have promise := keeps [.addKey "net/hops".toList ['2'] (some 0)] (.getKey "net/hops".toList none) _ ⟨⟨[], rfl⟩, rfl⟩ _ none rfl
  obtain ⟨key, got⟩ := promise.agrees.mp (by decide)
  cases got

end Sniper.Configuration.Lookups

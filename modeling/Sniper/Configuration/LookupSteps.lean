import Sniper.Configuration.Lookups
import Sniper.Configuration.Tree

/-! The keys of each section after an operation, and the settings they hold. -/

namespace Sniper.Configuration.Lookups

variable {caseSensitive : Bool} {root root' : Section} {keys : Keys} {path names : List Text} {iname name value : Text}
  {index : Option Nat}

/-! ### The section of a path -/

@[simp] theorem Section.keysAt_empty : Section.empty.keysAt path = .empty := by
  cases path <;> rfl

theorem Section.keysAt_cons (keys : Keys) (subSections : Text → Option Section) :
    (Section.mk keys subSections).keysAt (iname :: path) = ((subSections iname).getD .empty).keysAt path := by
  rw [Section.keysAt]
  cases subSections iname with
  | none => exact Section.keysAt_empty.symm
  | some found => rfl

section getSection

variable {α : Type} (use : Keys → α × Keys)

theorem Section.getSection_fst (names : List Text) (root : Section) : (root.getSection caseSensitive use names).1 =
    (use (root.keysAt (names.map (fold caseSensitive)))).1 := by
  induction names generalizing root with
  | nil => cases root; rfl
  | cons name names ih =>
    cases root with
    | mk keys subSections => rw [List.map_cons, Section.keysAt_cons, ← ih]; rfl

theorem Section.keysAt_getSection (names : List Text) (root : Section) :
    (root.getSection caseSensitive use names).2.keysAt path =
      if path = names.map (fold caseSensitive) then (use (root.keysAt path)).2 else root.keysAt path := by
  induction names generalizing root path with
  | nil =>
    cases root
    cases path <;> rfl
  | cons name names ih =>
    cases root with
    | mk keys subSections =>
      cases path with
      | nil => rfl
      | cons iname path =>
        simp only [Section.getSection, Section.keysAt_cons, List.map_cons, List.cons.injEq]
        by_cases same : iname = fold caseSensitive name
        · subst same
          simp only [Function.update_self, Option.getD_some, ih, true_and]
        · simp only [Function.update_of_ne same, same, false_and, if_false]

end getSection

theorem hasKey_fst (path : Text) : (hasKey caseSensitive path index root).1 =
    (root.keysAt (pathName caseSensitive path).1).hasKey caseSensitive (splitPath path).2 index :=
  Section.getSection_fst _ _ _

theorem hasKey_keysAt (key : Text) : (hasKey caseSensitive key index root).2.keysAt path = root.keysAt path :=
  (Section.keysAt_getSection _ _ _).trans (ite_self _)

theorem getKey_fst (path : Text) : (getKey caseSensitive path index root).1 =
    if (hasKey caseSensitive path index root).1 then
      .ok ((root.keysAt (pathName caseSensitive path).1).getKey caseSensitive (splitPath path).2 index).1
    else .error .notFound := by
  rw [hasKey_fst, getKey, Section.getSection_fst]
  exact apply_ite Prod.fst ..

theorem getKey_keysAt (key : Text) : (getKey caseSensitive key index root).2.keysAt path =
    if path = (pathName caseSensitive key).1 ∧ (hasKey caseSensitive key index root).1 then
      ((root.keysAt path).getKey caseSensitive (splitPath key).2 index).2
    else root.keysAt path := by
  rw [hasKey_fst, getKey, Section.keysAt_getSection]
  by_cases same : path = (pathName caseSensitive key).1
  · rw [same]
    simp only [true_and]
    exact (if_pos rfl).trans (apply_ite Prod.snd ..)
  · have elsewhere : path ≠ (splitPath key).1.map (fold caseSensitive) := same
    rw [if_neg elsewhere, if_neg (not_and_of_not_left _ same)]

theorem addKey_keysAt (key value : Text) : (addKey caseSensitive key value index root).keysAt path =
    if path = (pathName caseSensitive key).1 then (root.keysAt path).addKey caseSensitive (splitPath key).2 value index
    else root.keysAt path :=
  Section.keysAt_getSection _ _ _

/-! ### The spelling of a path -/

theorem toLower_eq_slash (c : Char) : c.toLower = '/' ↔ c = '/' := by
  unfold Char.toLower
  split
  case isTrue upper =>
    have least : 65 ≤ c.val.toNat := upper.1
    have most : c.val.toNat ≤ 90 := upper.2
    have distance : ('a'.val - 'A'.val).toNat = 32 := rfl
    constructor
    · intro slash
      have lower : (c.val + ('a'.val - 'A'.val)).toNat = 47 := congrArg (fun c : Char => c.val.toNat) slash
      rw [UInt32.toNat_add, distance] at lower
      omega
    · intro slash
      have value : c.val.toNat = 47 := congrArg (fun c : Char => c.val.toNat) slash
      omega
  case isFalse => rfl

theorem splitOn_fold (text : Text) : (fold caseSensitive text).splitOn '/' = (text.splitOn '/').map (fold caseSensitive) := by
  cases caseSensitive with
  | true => exact (List.map_id _).symm
  | false =>
    have folds : ∀ text, fold false text = text.map Char.toLower := fun _ => rfl
    induction text with
    | nil => rfl
    | cons c text ih =>
      rw [folds] at ih ⊢
      rw [List.map_cons, List.splitOn_cons_eq_if_modifyHead, List.splitOn_cons_eq_if_modifyHead, ih]
      by_cases slash : c = '/'
      · simp [slash, folds]
      · have lower : c.toLower ≠ '/' := mt (toLower_eq_slash c).mp slash
        obtain ⟨first, rest, parts⟩ := List.exists_cons_of_ne_nil (List.splitOn_ne_nil '/' text)
        simp [slash, lower, parts, folds]

theorem pathName_eq (path : Text) : pathName caseSensitive path =
    (((path.splitOn '/').map (fold caseSensitive)).dropLast, ((path.splitOn '/').map (fold caseSensitive)).getLastD []) := by
  obtain ⟨first, last, parts⟩ := (List.eq_nil_or_concat (path.splitOn '/')).resolve_left (List.splitOn_ne_nil '/' path)
  simp [pathName, splitPath, parts]

theorem pathName_congr {path other : Text} (same : fold caseSensitive other = fold caseSensitive path) :
    pathName caseSensitive other = pathName caseSensitive path := by
  rw [pathName_eq, pathName_eq, ← splitOn_fold, ← splitOn_fold, same]

theorem Keys.hasKey_congr {other : Text} (same : fold caseSensitive other = fold caseSensitive name) :
    keys.hasKey caseSensitive other index = keys.hasKey caseSensitive name index := by
  cases index <;> simp only [Keys.hasKey, same]

theorem Keys.getKey_congr {other : Text} (same : fold caseSensitive other = fold caseSensitive name) :
    keys.getKey caseSensitive other index = keys.getKey caseSensitive name index := by
  cases index <;> simp only [Keys.getKey, same]

end Sniper.Configuration.Lookups

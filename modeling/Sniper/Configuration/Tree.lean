import Sniper.Configuration.Terminals

/-! The sections of a tree by their paths. -/

namespace Sniper.Configuration

variable {caseSensitive : Bool} {iname other name : Text} {sections : SectionList} {path names : List Text}
  {contents new : Contents} {entry : List Text × Contents}

/-- The keys of a section are found under their own names, and an array has an element. -/
structure Contents.WellFormed (caseSensitive : Bool) (contents : Contents) : Prop where
  keys : ∀ entry ∈ contents.keys.entries,
    fold caseSensitive entry.2.name = entry.1 ∧ ∀ c ∈ entry.2.name, nameChar c = true
  elements : ∀ entry ∈ contents.arrayKeys.entries, ∀ key, some key ∈ entry.2 →
    fold caseSensitive key.name = entry.1 ∧ ∀ c ∈ key.name, nameChar c = true
  someElement : ∀ entry ∈ contents.arrayKeys.entries, ∃ key, some key ∈ entry.2

namespace SectionList

/-- The sections in the order in which they are written, with the names on the way to them. -/
def flatten : SectionList → List (List Text × Contents)
  | nil => []
  | cons _ name contents subSections others =>
    ([name], contents) :: (subSections.flatten.map (fun entry => (name :: entry.1, entry.2)) ++ others.flatten)

/-- Each section has a name of its own. -/
def WellFormed (caseSensitive : Bool) : SectionList → Prop
  | nil => True
  | cons iname name contents subSections others =>
    (fold caseSensitive name = iname ∧ name ≠ [] ∧ ∀ c ∈ name, nameChar c = true) ∧ contents.WellFormed caseSensitive ∧
      subSections.WellFormed caseSensitive ∧ others.find iname = none ∧ others.WellFormed caseSensitive

/-! ### Finding sections -/

@[simp] theorem contentsAt_nil : sections.contentsAt [] = .empty := by
  simp [contentsAt]

theorem contentsAt_cons : sections.contentsAt (iname :: path) =
    ((sections.find iname).map fun found => if path = [] then found.1 else found.2.contentsAt path).getD .empty := by
  rw [contentsAt]
  cases sections.find iname <;> rfl

theorem contentsAt_congr {sections' : SectionList} (same : sections'.find iname = sections.find iname) :
    sections'.contentsAt (iname :: path) = sections.contentsAt (iname :: path) := by
  rw [contentsAt_cons, contentsAt_cons, same]

theorem find_cons_of_ne {subSections others : SectionList} (different : iname ≠ other) :
    (cons iname name contents subSections others).find other = others.find other := by
  simp only [find, different, if_false]

theorem find_modify_self (change : Contents × SectionList → Contents × SectionList) :
    (sections.modify iname change).find iname = (sections.find iname).map change := by
  induction sections with
  | nil => rfl
  | cons iname' name contents subSections others _ ih =>
    by_cases same : iname' = iname
    · simp [modify, find, same]
    · simp [modify, find, same, ih]

theorem find_modify_of_ne (different : other ≠ iname) (change : Contents × SectionList → Contents × SectionList) :
    (sections.modify iname change).find other = sections.find other := by
  induction sections with
  | nil => rfl
  | cons iname' name contents subSections others _ ih =>
    by_cases same : iname' = iname
    · subst same
      simp [modify, find, different.symm]
    · simp [modify, find, same, ih]

theorem find_addSubsection_self (missing : sections.find iname = none) :
    (sections.addSubsection iname name).find iname = some (.empty, nil) := by
  induction sections with
  | nil => simp [addSubsection, find]
  | cons iname' name' contents subSections others _ ih =>
    have different : iname' ≠ iname := by
      intro same
      simp [find, same] at missing
    simp only [find, different, if_false] at missing
    unfold addSubsection
    split
    case isTrue => simp [find]
    case isFalse => simp [find, different, ih missing]

theorem find_addSubsection_of_ne (different : other ≠ iname) :
    (sections.addSubsection iname name).find other = sections.find other := by
  induction sections with
  | nil => simp [addSubsection, find, different.symm]
  | cons iname' name' contents subSections others _ ih =>
    unfold addSubsection
    split
    case isTrue => simp [find, different.symm]
    case isFalse => simp [find, ih]

theorem find_added (sections : SectionList) (iname name : Text) :
    ∃ added found, added = (if (sections.find iname).isSome then sections else sections.addSubsection iname name) ∧
      added.find iname = some found ∧ (∀ other, other ≠ iname → added.find other = sections.find other) ∧
      ∀ path, sections.contentsAt (iname :: path) = if path = [] then found.1 else found.2.contentsAt path := by
  cases there : sections.find iname with
  | some found =>
    refine ⟨sections, found, by simp, there, fun _ _ => rfl, ?_⟩
    intro path
    rw [contentsAt_cons, there]
    rfl
  | none =>
    refine ⟨_, (.empty, nil), rfl, by simpa using find_addSubsection_self there,
      fun other different => by simpa using find_addSubsection_of_ne different, ?_⟩
    intro path
    rw [contentsAt_cons, there]
    cases path <;> simp [contentsAt, find]

theorem contentsAt_setContents (caseSensitive : Bool) (new : Contents) (names : List Text) (some_ : names ≠ [])
    (sections : SectionList) (path : List Text) :
    (sections.setContents caseSensitive new names).contentsAt path =
      if path = names.map (fold caseSensitive) then new else sections.contentsAt path := by
  induction names generalizing path sections with
  | nil => exact absurd rfl some_
  | cons name names ih =>
    obtain ⟨added, found, isAdded, there, others, before⟩ := find_added sections (fold caseSensitive name) name
    rw [setContents]
    simp only [← isAdded]
    cases path with
    | nil => simp
    | cons iname path =>
      by_cases same : iname = fold caseSensitive name
      · subst same
        rw [contentsAt_cons, find_modify_self, there, before]
        by_cases last : names = []
        · cases path <;> simp [last]
        · cases path with
          | nil => simp [last]
          | cons other path => simp [last, ih]
      · rw [contentsAt_congr ((find_modify_of_ne same _).trans (others iname same))]
        simp [same]

/-! ### The sections as they are written -/

theorem flatten_cons {subSections others : SectionList} :
    entry ∈ (cons iname name contents subSections others).flatten ↔
      entry = ([name], contents) ∨ (∃ below ∈ subSections.flatten, entry = (name :: below.1, below.2)) ∨
        entry ∈ others.flatten := by
  simp only [flatten, List.mem_cons, List.mem_append, List.mem_map, eq_comm]

theorem flatten_head (wellFormed : sections.WellFormed caseSensitive) (member : entry ∈ sections.flatten) :
    ∃ name rest, entry.1 = name :: rest ∧ sections.find (fold caseSensitive name) ≠ none := by
  induction sections with
  | nil => cases member
  | cons iname name contents subSections others _ ih =>
    obtain ⟨named, _, _, alone, rest⟩ := wellFormed
    obtain same | ⟨below, _, same⟩ | behind := flatten_cons.mp member
    · exact ⟨name, [], by rw [same], by simp [find, named.1]⟩
    · exact ⟨name, below.1, by rw [same], by simp [find, named.1]⟩
    · obtain ⟨name', tail, isPath, there⟩ := ih rest behind
      refine ⟨name', tail, isPath, ?_⟩
      unfold find
      split
      · exact Option.some_ne_none _
      · exact there

theorem contentsAt_mem (wellFormed : sections.WellFormed caseSensitive) (member : entry ∈ sections.flatten) :
    sections.contentsAt (entry.1.map (fold caseSensitive)) = entry.2 := by
  induction sections generalizing entry with
  | nil => cases member
  | cons iname name contents subSections others below_ ih =>
    obtain ⟨named, _, below, alone, rest⟩ := wellFormed
    obtain same | ⟨inner, inside, same⟩ | behind := flatten_cons.mp member
    · simp [same, contentsAt_cons, find, named.1]
    · obtain ⟨_, tail, isPath, _⟩ := flatten_head below inside
      have deeper := below_ below inside
      simp only [same, List.map_cons, contentsAt_cons, find, named.1, if_true, Option.map_some, Option.getD_some]
      rw [if_neg (by simp [isPath])]
      exact deeper
    · have found := ih rest behind
      obtain ⟨name', tail, isPath, there⟩ := flatten_head rest behind
      rw [isPath] at found ⊢
      rw [List.map_cons] at found ⊢
      have different : iname ≠ fold caseSensitive name' := by
        intro same
        exact there (same ▸ alone)
      rw [contentsAt_congr (find_cons_of_ne different)]
      exact found

theorem contentsAt_not_mem (wellFormed : sections.WellFormed caseSensitive)
    (missing : ∀ entry ∈ sections.flatten, entry.1.map (fold caseSensitive) ≠ path) :
    sections.contentsAt path = .empty := by
  induction sections generalizing path with
  | nil => cases path <;> simp [contentsAt, find]
  | cons iname name contents subSections others below_ ih =>
    obtain ⟨named, _, below, _, rest⟩ := wellFormed
    cases path with
    | nil => exact contentsAt_nil
    | cons first path =>
      by_cases same : iname = first
      · subst same
        have deeper : path ≠ [] := by
          intro last
          exact missing _ (flatten_cons.mpr (.inl rfl)) (by simp [last, named.1])
        simp only [contentsAt_cons, find, if_true, Option.map_some, Option.getD_some, deeper, if_false]
        apply below_ below
        intro inner inside same
        exact missing _ (flatten_cons.mpr (.inr (.inl ⟨inner, inside, rfl⟩))) (by simp [same, named.1])
      · rw [contentsAt_congr (find_cons_of_ne same)]
        exact ih rest fun entry member => missing entry (flatten_cons.mpr (.inr (.inr member)))

theorem flatten_pairwise (wellFormed : sections.WellFormed caseSensitive) :
    sections.flatten.Pairwise fun entry other => entry.1.map (fold caseSensitive) ≠ other.1.map (fold caseSensitive) := by
  induction sections with
  | nil => exact .nil
  | cons iname name contents subSections others below_ ih =>
    obtain ⟨named, _, below, alone, rest⟩ := wellFormed
    have apart : ∀ entry ∈ others.flatten, ∀ tail, iname :: tail ≠ entry.1.map (fold caseSensitive) := by
      intro entry member tail same
      obtain ⟨name', _, isPath, there⟩ := flatten_head rest member
      rw [isPath, List.map_cons] at same
      exact there ((List.cons.inj same).1 ▸ alone)
    refine List.pairwise_cons.mpr ⟨?_, List.pairwise_append.mpr ⟨?_, ih rest, ?_⟩⟩
    · intro entry member same
      cases List.mem_append.mp member with
      | inl inside =>
        obtain ⟨inner, inside, isEntry⟩ := List.mem_map.mp inside
        obtain ⟨_, tail, isPath, _⟩ := flatten_head below inside
        simp [← isEntry, isPath] at same
      | inr behind => exact apart entry behind [] (by simpa [named.1] using same)
    · apply List.pairwise_map.mpr
      exact (below_ below).imp fun different same => different (List.cons.inj same).2
    · intro entry inside entry' behind same
      obtain ⟨inner, inside, isEntry⟩ := List.mem_map.mp inside
      exact apart entry' behind (inner.1.map (fold caseSensitive)) (by simpa [← isEntry, named.1] using same)

theorem wellFormed_mem (wellFormed : sections.WellFormed caseSensitive) (member : entry ∈ sections.flatten) :
    entry.1 ≠ [] ∧ (∀ name ∈ entry.1, name ≠ [] ∧ ∀ c ∈ name, nameChar c = true) ∧ entry.2.WellFormed caseSensitive := by
  induction sections generalizing entry with
  | nil => cases member
  | cons iname name contents subSections others below_ ih =>
    obtain ⟨named, keys, below, _, rest⟩ := wellFormed
    obtain rfl | ⟨inner, inside, rfl⟩ | behind := flatten_cons.mp member
    · exact ⟨List.cons_ne_nil name [], fun name' member => List.mem_singleton.mp member ▸ named.2, keys⟩
    · obtain ⟨_, names, contents⟩ := below_ below inside
      exact ⟨List.cons_ne_nil name inner.1, List.forall_mem_cons.mpr ⟨named.2, names⟩, contents⟩
    · exact ih rest behind

end SectionList

end Sniper.Configuration

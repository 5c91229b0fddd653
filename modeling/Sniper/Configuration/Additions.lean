import Sniper.Configuration.Tree

/-! Adding keys to named sections gives trees whose keys live in named sections. -/

namespace Sniper.Configuration

variable {caseSensitive : Bool} {contents new : Contents} {name iname : Text} {sections : SectionList} {config : Config}

theorem Contents.empty_wellFormed : Contents.empty.WellFormed caseSensitive :=
  ⟨fun _ member => absurd member List.not_mem_nil, fun _ member => absurd member List.not_mem_nil,
    fun _ member => absurd member List.not_mem_nil⟩

theorem Contents.WellFormed.addKey (wellFormed : contents.WellFormed caseSensitive) (chars : ∀ c ∈ name, nameChar c = true)
    (value : Text) (index : Option Nat) : (contents.addKey caseSensitive name value index).WellFormed caseSensitive := by
  cases index with
  | none =>
    refine ⟨fun entry member => ?_, fun entry member => ?_, fun entry member => ?_⟩
    · obtain rfl | ⟨held, _⟩ := OrderedMap.mem_insert.mp member
      · exact ⟨rfl, chars⟩
      · exact wellFormed.keys entry held
    · exact wellFormed.elements entry (OrderedMap.mem_erase.mp member).1
    · exact wellFormed.someElement entry (OrderedMap.mem_erase.mp member).1
  | some index =>
    refine ⟨wellFormed.keys, fun entry member => ?_, fun entry member => ?_⟩
    · obtain rfl | ⟨held, _⟩ := OrderedMap.mem_insert.mp member
      · intro key inside
        cases List.mem_or_eq_of_mem_set inside with
        | inr added =>
          cases added
          exact ⟨rfl, chars⟩
        | inl resized =>
          cases List.mem_append.mp resized with
          | inr missing => cases List.eq_of_mem_replicate missing
          | inl before =>
            cases found : contents.arrayKeys.find (fold caseSensitive name) with
            | none => simp [found] at before
            | some array =>
              rw [found] at before
              exact wellFormed.elements _ (OrderedMap.find_eq_some.mp found) key before
      · exact wellFormed.elements entry held
    · obtain rfl | ⟨held, _⟩ := OrderedMap.mem_insert.mp member
      · refine ⟨⟨name, value⟩, List.mem_set ?_ _⟩
        simp only [List.length_append, List.length_replicate]
        omega
      · exact wellFormed.someElement entry held

namespace SectionList

theorem WellFormed.addSubsection (wellFormed : sections.WellFormed caseSensitive)
    (named : fold caseSensitive name = iname ∧ name ≠ [] ∧ ∀ c ∈ name, nameChar c = true)
    (missing : sections.find iname = none) : (sections.addSubsection iname name).WellFormed caseSensitive := by
  induction sections with
  | nil => exact ⟨named, Contents.empty_wellFormed, trivial, rfl, trivial⟩
  | cons iname' name' contents subSections others _ ih =>
    have different : iname' ≠ iname := by
      intro same
      simp [find, same] at missing
    obtain ⟨named', keys, below, alone, rest⟩ := wellFormed
    unfold SectionList.addSubsection
    split
    case isTrue => exact ⟨named, Contents.empty_wellFormed, trivial, missing, named', keys, below, alone, rest⟩
    case isFalse =>
      rw [find_cons_of_ne different] at missing
      exact ⟨named', keys, below, (find_addSubsection_of_ne different).trans alone, ih rest missing⟩

theorem WellFormed.modify {change : Contents × SectionList → Contents × SectionList}
    (wellFormed : sections.WellFormed caseSensitive)
    (keeps : ∀ found, found.1.WellFormed caseSensitive → found.2.WellFormed caseSensitive →
      (change found).1.WellFormed caseSensitive ∧ (change found).2.WellFormed caseSensitive) :
    (sections.modify iname change).WellFormed caseSensitive := by
  induction sections with
  | nil => trivial
  | cons iname' name contents subSections others _ ih =>
    obtain ⟨named, keys, below, alone, rest⟩ := wellFormed
    unfold SectionList.modify
    split
    case isTrue =>
      obtain ⟨keys, below⟩ := keeps (contents, subSections) keys below
      exact ⟨named, keys, below, alone, rest⟩
    case isFalse different => exact ⟨named, keys, below, (find_modify_of_ne different change).trans alone, ih rest⟩

theorem WellFormed.setContents (wellFormed : sections.WellFormed caseSensitive) (keys : new.WellFormed caseSensitive)
    (names : List Text) (named : ∀ name ∈ names, name ≠ [] ∧ ∀ c ∈ name, nameChar c = true) :
    (sections.setContents caseSensitive new names).WellFormed caseSensitive := by
  induction names generalizing sections with
  | nil => exact wellFormed
  | cons name names ih =>
    have added : (if (sections.find (fold caseSensitive name)).isSome then sections
        else sections.addSubsection (fold caseSensitive name) name).WellFormed caseSensitive := by
      split
      case isTrue => exact wellFormed
      case isFalse missing =>
        exact wellFormed.addSubsection ⟨rfl, named name List.mem_cons_self⟩ (Option.not_isSome_iff_eq_none.mp missing)
    apply added.modify
    intro found foundKeys below
    split
    · exact ⟨keys, below⟩
    · exact ⟨foundKeys, ih below fun other member => named other (List.mem_cons_of_mem name member)⟩

theorem WellFormed.contentsAt (wellFormed : sections.WellFormed caseSensitive) (path : List Text) :
    (sections.contentsAt path).WellFormed caseSensitive := by
  by_cases there : ∃ entry ∈ sections.flatten, entry.1.map (fold caseSensitive) = path
  · obtain ⟨entry, member, isPath⟩ := there
    rw [← isPath, contentsAt_mem wellFormed member]
    exact (wellFormed_mem wellFormed member).2.2
  · rw [contentsAt_not_mem wellFormed fun entry member same => there ⟨entry, member, same⟩]
    exact Contents.empty_wellFormed

end SectionList

structure Config.WellFormed (caseSensitive : Bool) (config : Config) : Prop where
  root : config.contents = .empty
  sections : config.sections.WellFormed caseSensitive

theorem Config.empty_wellFormed : Config.empty.WellFormed caseSensitive := ⟨rfl, trivial⟩

theorem Config.WellFormed.addKey {path : Text} (wellFormed : config.WellFormed caseSensitive) (names : List Text)
    (parts : path.splitOn '/' = names ++ [name]) (inSection : names ≠ [])
    (named : ∀ name ∈ names, name ≠ [] ∧ ∀ c ∈ name, nameChar c = true) (chars : ∀ c ∈ name, nameChar c = true) (value : Text)
    (index : Option Nat) : (config.addKey caseSensitive path value index).WellFormed caseSensitive := by
  unfold Config.addKey
  simp only [parts, List.dropLast_concat, inSection, if_false, List.getLastD_concat]
  refine ⟨wellFormed.root, wellFormed.sections.setContents ?_ _ named⟩
  apply Contents.WellFormed.addKey _ chars
  unfold Config.contentsAt
  split
  · rw [wellFormed.root]
    exact Contents.empty_wellFormed
  · exact wellFormed.sections.contentsAt _

end Sniper.Configuration

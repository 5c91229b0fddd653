import Sniper.Configuration.Neighbours
import Sniper.Configuration.Tree

/-! How the sections of a saved tree are parsed. -/

namespace Sniper.Configuration

variable {casts : Casts} {caseSensitive : Bool} {text rest : Text} {contents : Contents}
  {entry : List Text × Contents} {entries : List (List Text × Contents)}

def joined (path : List Text) : Text := List.intercalate ['/'] path

def showSection (casts : Casts) (entry : List Text × Contents) : Text :=
  '[' :: joined entry.1 ++ [']', '\n'] ++ showContents casts entry.2

def sectionNode (casts : Casts) (entry : List Text × Contents) : SectionNode :=
  ⟨'[' :: joined entry.1 ++ [']'], entry.2.lines.map (Line.node casts)⟩

structure SectionWellFormed (caseSensitive : Bool) (entry : List Text × Contents) : Prop where
  path : entry.1 ≠ []
  names : ∀ name ∈ entry.1, name ≠ [] ∧ ∀ c ∈ name, nameChar c = true
  contents : entry.2.WellFormed caseSensitive

/-- All lines have names and stand next to lines that they may stand next to. -/
def Contents.Readable (casts : Casts) (contents : Contents) : Prop :=
  (∀ line ∈ contents.lines, line.name ≠ []) ∧ contents.lines.IsChain (Line.Follows casts)

/-! ### The text of a tree -/

theorem joined_cons_cons (name other : Text) (path : List Text) :
    joined (name :: other :: path) = name ++ '/' :: joined (other :: path) := by
  simp [joined, List.intercalate_cons_cons]

theorem fullPath_joined (parent : List Text) (name : Text) :
    fullPath (if parent = [] then none else some (joined parent)) name = joined (parent ++ [name]) := by
  induction parent with
  | nil => simp [fullPath, joined]
  | cons first parent ih =>
    cases parent with
    | nil => simp [fullPath, joined]
    | cons second parent =>
      simp only [fullPath, reduceCtorEq, if_false, List.cons_append, joined_cons_cons, List.append_assoc] at ih ⊢
      rw [ih]

theorem saveSections_eq (casts : Casts) (parent : List Text) (sections : SectionList) :
    saveSections casts (if parent = [] then none else some (joined parent)) sections =
      sections.flatten.flatMap fun entry => showSection casts (parent ++ entry.1, entry.2) := by
  induction sections generalizing parent with
  | nil => rfl
  | cons iname name contents subSections others below ih =>
    have inner := below (parent ++ [name])
    rw [if_neg (by simp)] at inner
    simp only [saveSections, fullPath_joined, inner, ih, SectionList.flatten, List.flatMap_cons, List.flatMap_append,
      List.flatMap_map, showSection, List.append_assoc, List.cons_append, List.nil_append]

theorem saveTreeAs_eq (casts : Casts) (sections : SectionList) :
    saveTreeAs casts ⟨.empty, sections⟩ = '\n' :: sections.flatten.flatMap (showSection casts) := by
  have written := saveSections_eq casts [] sections
  simp only [if_true, List.nil_append] at written
  simp [saveTreeAs, written, showContents, Contents.empty, OrderedMap.empty]

/-! ### The lines of a section -/

theorem Contents.WellFormed.lines (wellFormed : contents.WellFormed caseSensitive) :
    ∀ line ∈ contents.lines, line.WellFormed := by
  intro line member
  cases List.mem_append.mp member with
  | inl single =>
    obtain ⟨entry, held, rfl⟩ := List.mem_map.mp single
    refine ⟨(wellFormed.keys entry held).2, ?_⟩
    intro elements isArray
    cases isArray
  | inr array =>
    obtain ⟨entry, held, rfl⟩ := List.mem_map.mp array
    constructor
    · intro c inName
      cases found : entry.2.findSome? id with
      | none => simp [Line.name, found] at inName
      | some key =>
        obtain ⟨element, inside, isKey⟩ := List.exists_of_findSome?_eq_some found
        simp only [Line.name, found, Option.map_some, Option.getD_some] at inName
        exact (wellFormed.elements entry held key (isKey ▸ inside)).2 c inName
    · intro elements isArray
      cases isArray
      obtain ⟨key, inside⟩ := wellFormed.someElement entry held
      exact List.ne_nil_of_mem inside

/-! ### The name of a section -/

theorem joined_chars {path : List Text} (names : ∀ name ∈ path, ∀ c ∈ name, nameChar c = true) :
    ∀ c ∈ joined path, nameChar c = true ∨ c = '/' := by
  induction path with
  | nil =>
    intro c member
    cases member
  | cons name path ih =>
    have others := ih fun other member => names other (List.mem_cons_of_mem name member)
    intro c member
    cases path with
    | nil =>
      rw [joined, List.intercalate_singleton] at member
      exact .inl (names name List.mem_cons_self c member)
    | cons next path =>
      rw [joined_cons_cons] at member
      cases List.mem_append.mp member with
      | inl first => exact .inl (names name List.mem_cons_self c first)
      | inr behind =>
        cases List.mem_cons.mp behind with
        | inl slash => exact .inr slash
        | inr deeper => exact others c deeper

theorem joined_ne_nil (wellFormed : SectionWellFormed caseSensitive entry) : joined entry.1 ≠ [] := by
  have some_ := wellFormed.path
  have names := wellFormed.names
  cases isPath : entry.1 with
  | nil => exact absurd isPath some_
  | cons name path =>
    rw [isPath] at names
    cases path with
    | nil =>
      rw [joined, List.intercalate_singleton]
      exact (names name List.mem_cons_self).1
    | cons next path =>
      rw [joined_cons_cons]
      exact List.append_ne_nil_of_right_ne_nil _ (List.cons_ne_nil _ _)

theorem joined_inside (wellFormed : SectionWellFormed caseSensitive entry) :
    ∀ c ∈ joined entry.1, c ≠ ']' ∧ c ≠ '\\' := by
  intro c member
  cases joined_chars (fun name member => (wellFormed.names name member).2) c member with
  | inl name =>
    have plain := plain_of (nameChar_plain name)
    exact ⟨plain.notClose, plain.notBackslash⟩
  | inr slash =>
    subst slash
    decide

theorem confixBody_inside {word : Text} (inside : ∀ c ∈ word, c ≠ ']' ∧ c ≠ '\\') (rest : Text) :
    confixBody ']' false (word ++ ']' :: rest) = some (word, rest) := by
  induction word with
  | nil => simp [confixBody]
  | cons c word ih =>
    have here := inside c List.mem_cons_self
    simp [confixBody, here, ih fun other member => inside other (List.mem_cons_of_mem c member)]

theorem sectionEnd_entries (wellFormed : ∀ entry ∈ entries, SectionWellFormed caseSensitive entry) :
    SectionEnd ('\n' :: entries.flatMap (showSection casts)) := by
  cases entries with
  | nil => exact .inl rfl
  | cons entry entries =>
    have entryWellFormed := wellFormed entry List.mem_cons_self
    cases isPath : joined entry.1 with
    | nil => exact absurd isPath (joined_ne_nil entryWellFormed)
    | cons c path =>
      have named := (joined_inside entryWellFormed c (by simp [isPath])).1
      refine .inr ⟨c, path ++ [']', '\n'] ++ showContents casts entry.2 ++ entries.flatMap (showSection casts), named, ?_⟩
      rw [skip_newline, List.flatMap_cons, showSection, isPath]
      simp [skip, isSpace]

/-! ### One section -/

theorem rSection_congr {text' : Text} (same : skip false text = skip false text') : rSection text = rSection text' := by
  simp only [rSection, same]

theorem length_lines (casts : Casts) (lines : List Line) : lines.length ≤ (lines.flatMap (Line.show_ casts)).length := by
  induction lines with
  | nil => exact Nat.le_refl 0
  | cons line lines ih =>
    obtain ⟨c, behind, isBody, _⟩ := line.body_cons casts
    simp only [List.flatMap_cons, List.length_append, List.length_cons, Line.show_, isBody]
    omega

theorem rSection_show (casts : Casts) (wellFormed : SectionWellFormed caseSensitive entry) (rest : Text) :
    ∃ fuel behind, entry.2.lines.length ≤ fuel ∧
      skip false behind = skip false (entry.2.lines.flatMap (Line.show_ casts) ++ '\n' :: rest) ∧
      rSection (showSection casts entry ++ rest) =
        some (⟨'[' :: joined entry.1 ++ [']'], (rKeys fuel behind).1⟩, (rKeys fuel behind).2) := by
  have contents := showContents_eq casts wellFormed.contents.lines
  have heading := confixBody_inside (joined_inside wellFormed)
    ('\n' :: (entry.2.lines.flatMap (Line.show_ casts) ++ '\n' :: rest))
  have length := length_lines casts entry.2.lines
  have bracket : ∀ text : Text, skip false ('[' :: text) = '[' :: text := fun _ => rfl
  refine ⟨('\n' :: (entry.2.lines.flatMap (Line.show_ casts) ++ '\n' :: rest)).length,
    '\n' :: (entry.2.lines.flatMap (Line.show_ casts) ++ '\n' :: rest), ?_, skip_newline false _, ?_⟩
  · simp only [List.length_cons, List.length_append]
    omega
  · simp only [rSection, showSection, contents, List.cons_append, List.append_assoc, List.nil_append,
      bracket, confix, if_true, heading, Option.map_some]

theorem rSection_readable (wellFormed : SectionWellFormed caseSensitive entry) (readable : entry.2.Readable casts)
    (ends : SectionEnd ('\n' :: rest)) :
    ∃ behind, skip false behind = skip false rest ∧
      rSection (showSection casts entry ++ rest) = some (sectionNode casts entry, behind) := by
  obtain ⟨fuel, behind, enough, same, found⟩ := rSection_show casts wellFormed rest
  obtain ⟨keys, left⟩ := rKeys_lines ends wellFormed.contents.lines readable.1 readable.2 fuel enough same
  refine ⟨(rKeys fuel behind).2, left.trans (skip_newline false rest), ?_⟩
  rw [found, keys]
  rfl

theorem rSection_fails (wellFormed : SectionWellFormed caseSensitive entry) (unreadable : ¬entry.2.Readable casts)
    (ends : SectionEnd ('\n' :: rest)) :
    ∃ node behind, rSection (showSection casts entry ++ rest) = some (node, behind) ∧ ∃ key ∈ node.keys, key.Fails := by
  obtain ⟨fuel, behind, enough, same, found⟩ := rSection_show casts wellFormed rest
  exact ⟨_, _, found, rKeys_fails ends wellFormed.contents.lines unreadable fuel enough same⟩

/-! ### All sections -/

theorem rConfig_sections (wellFormed : ∀ entry ∈ entries, SectionWellFormed caseSensitive entry)
    (readable : ∀ entry ∈ entries, entry.2.Readable casts) (fuel : Nat) (enough : entries.length ≤ fuel)
    (same : skip false text = skip false (entries.flatMap (showSection casts))) :
    (rConfig fuel text).1 = entries.map (sectionNode casts) ∧ skip false (rConfig fuel text).2 = [] := by
  induction entries generalizing fuel text with
  | nil =>
    cases fuel with
    | zero => exact ⟨rfl, same⟩
    | succ fuel =>
      have stops : rSection text = none := (rSection_congr same).trans rfl
      simp only [rConfig, stops]
      exact ⟨rfl, same⟩
  | cons entry entries ih =>
    obtain ⟨fuel, rfl⟩ := Nat.exists_eq_add_of_le' (Nat.le_trans (Nat.le_add_left 1 entries.length) enough)
    have others : ∀ other ∈ entries, SectionWellFormed caseSensitive other :=
      fun other member => wellFormed other (List.mem_cons_of_mem entry member)
    obtain ⟨behind, left, read⟩ := rSection_readable (wellFormed entry List.mem_cons_self)
      (readable entry List.mem_cons_self) (sectionEnd_entries others)
    rw [← List.flatMap_cons, ← rSection_congr same] at read
    have tail := ih others (fun other member => readable other (List.mem_cons_of_mem entry member)) fuel
      (Nat.le_of_succ_le_succ enough) left
    simp only [rConfig, read, List.map_cons, tail, and_self]

theorem rConfig_fails (wellFormed : ∀ entry ∈ entries, SectionWellFormed caseSensitive entry)
    (unreadable : ∃ entry ∈ entries, ¬entry.2.Readable casts) (fuel : Nat) (enough : entries.length ≤ fuel)
    (same : skip false text = skip false (entries.flatMap (showSection casts))) :
    ∃ node ∈ (rConfig fuel text).1, ∃ key ∈ node.keys, key.Fails := by
  induction entries generalizing fuel text with
  | nil =>
    obtain ⟨entry, member, _⟩ := unreadable
    cases member
  | cons entry entries ih =>
    obtain ⟨fuel, rfl⟩ := Nat.exists_eq_add_of_le' (Nat.le_trans (Nat.le_add_left 1 entries.length) enough)
    have others : ∀ other ∈ entries, SectionWellFormed caseSensitive other :=
      fun other member => wellFormed other (List.mem_cons_of_mem entry member)
    have here := wellFormed entry List.mem_cons_self
    by_cases readable : entry.2.Readable casts
    · obtain ⟨behind, left, read⟩ := rSection_readable here readable (sectionEnd_entries others)
      rw [← List.flatMap_cons, ← rSection_congr same] at read
      have later : ∃ other ∈ entries, ¬other.2.Readable casts := by
        obtain ⟨other, member, fails⟩ := unreadable
        cases List.mem_cons.mp member with
        | inl first => exact absurd (first ▸ readable) fails
        | inr behind => exact ⟨other, behind, fails⟩
      obtain ⟨node, member, fails⟩ := ih others later fuel (Nat.le_of_succ_le_succ enough) left
      simp only [rConfig, read]
      exact ⟨node, List.mem_cons_of_mem _ member, fails⟩
    · obtain ⟨node, behind, read, fails⟩ := rSection_fails here readable (sectionEnd_entries others)
      rw [← List.flatMap_cons, ← rSection_congr same] at read
      simp only [rConfig, read]
      exact ⟨node, List.mem_cons_self, fails⟩

theorem length_sections (casts : Casts) (entries : List (List Text × Contents)) :
    entries.length ≤ (entries.flatMap (showSection casts)).length := by
  induction entries with
  | nil => exact Nat.le_refl 0
  | cons entry entries ih =>
    simp only [List.flatMap_cons, List.length_append, List.length_cons, showSection]
    omega

theorem rFile_readable (wellFormed : ∀ entry ∈ entries, SectionWellFormed caseSensitive entry)
    (readable : ∀ entry ∈ entries, entry.2.Readable casts) :
    rFile ('\n' :: entries.flatMap (showSection casts)) = some (entries.map (sectionNode casts)) := by
  obtain ⟨nodes, left⟩ := rConfig_sections wellFormed readable ('\n' :: entries.flatMap (showSection casts)).length
    (Nat.le_succ_of_le (length_sections casts entries)) (skip_newline false _)
  simp only [rFile, nodes, left, if_true]

theorem rFile_fails {nodes : List SectionNode} (wellFormed : ∀ entry ∈ entries, SectionWellFormed caseSensitive entry)
    (unreadable : ∃ entry ∈ entries, ¬entry.2.Readable casts)
    (parsed : rFile ('\n' :: entries.flatMap (showSection casts)) = some nodes) :
    ∃ node ∈ nodes, ∃ key ∈ node.keys, key.Fails := by
  have fails := rConfig_fails wellFormed unreadable ('\n' :: entries.flatMap (showSection casts)).length
    (Nat.le_succ_of_le (length_sections casts entries)) (skip_newline false _)
  simp only [rFile] at parsed
  split at parsed
  case isTrue =>
    cases parsed
    exact fails
  case isFalse => cases parsed

end Sniper.Configuration

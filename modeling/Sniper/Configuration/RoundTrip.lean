import Sniper.Configuration.Additions
import Sniper.Configuration.Reading

/-! Which trees are the same after they are saved and loaded. -/

namespace Sniper.Configuration

variable {casts : Casts} {caseSensitive : Bool} {contents loaded : Contents} {iname : Text} {config : Config}
  {entry : List Text × Contents} {entries : List (List Text × Contents)}

/-- An override that is empty is that of a default value that is empty. -/
def Contents.EmptyDefaults (contents : Contents) : Prop :=
  ∀ entry ∈ contents.arrayKeys.entries, ∀ key, some key ∈ entry.2 → key.value = [] →
    ∃ default, contents.keys.find entry.1 = some default ∧ default.value = []

structure Contents.Savable (casts : Casts) (contents : Contents) : Prop where
  readable : contents.Readable casts
  emptyDefaults : contents.EmptyDefaults

def Agree (caseSensitive : Bool) (config loaded : Config) : Prop :=
  ∀ path index, (loaded.getKey caseSensitive path index).map Key.value = (config.getKey caseSensitive path index).map Key.value

/-! ### Keys of a section -/

theorem Contents.getKey_element {index : Nat} {key : Key} (found : contents.element iname index = some key) :
    contents.getKey iname (some index) = .ok key := by
  simp [Contents.getKey, Contents.hasKey, found]

theorem Contents.getKey_noElement {index : Nat} (missing : contents.element iname index = none) :
    contents.getKey iname (some index) = ((contents.keys.find iname).map Except.ok).getD (.error .notFound) := by
  cases found : contents.keys.find iname with
  | none => simp [Contents.getKey, Contents.hasKey, missing, found]
  | some key => simp [Contents.getKey, Contents.hasKey, missing, found, Contents.default]

theorem Contents.getKey_default {key : Key} (found : contents.keys.find iname = some key) :
    contents.getKey iname none = .ok key := by
  simp [Contents.getKey, Contents.hasKey, found, Contents.default]

theorem Contents.getKey_noDefault (missing : contents.keys.find iname = none) :
    contents.getKey iname none = .error (if (contents.arrayKeys.find iname).isSome then .nullKey else .notFound) := by
  cases found : contents.arrayKeys.find iname <;>
    simp [Contents.getKey, Contents.hasKey, missing, found, Contents.default]

theorem Contents.element_mem {index : Nat} {key : Key} (found : contents.element iname index = some key) :
    ∃ array, (iname, array) ∈ contents.arrayKeys.entries ∧ some key ∈ array := by
  obtain ⟨array, isArray, inside⟩ := Option.bind_eq_some_iff.mp found
  exact ⟨array, OrderedMap.find_eq_some.mp isArray, List.mem_of_getElem? (Option.join_eq_some_iff.mp inside)⟩

theorem Contents.mem_element {array : List (Option Key)} {key : Key} (member : (iname, array) ∈ contents.arrayKeys.entries)
    (inside : some key ∈ array) : ∃ index, contents.element iname index = some key := by
  obtain ⟨index, isElement⟩ := List.getElem?_of_mem inside
  refine ⟨index, ?_⟩
  simp [Contents.element, OrderedMap.find_eq_some.mpr member, isElement]

theorem ReadBack.getKey (readBack : ReadBack contents loaded) (wellFormed : contents.WellFormed caseSensitive)
    (emptyDefaults : contents.EmptyDefaults) (iname : Text) (index : Option Nat) :
    (loaded.getKey iname index).map Key.value = (contents.getKey iname index).map Key.value := by
  cases index with
  | none =>
    cases found : contents.keys.find iname with
    | some key => rw [Contents.getKey_default found, Contents.getKey_default (readBack.keys ▸ found)]
    | none =>
      rw [Contents.getKey_noDefault found, Contents.getKey_noDefault (readBack.keys ▸ found)]
      have same : (loaded.arrayKeys.find iname).isSome = (contents.arrayKeys.find iname).isSome := by
        rw [Bool.eq_iff_iff, readBack.arrays]
        constructor
        · intro read
          obtain ⟨array, isArray, _⟩ := read
          rw [isArray]
          rfl
        · intro there
          obtain ⟨array, isArray⟩ := Option.isSome_iff_exists.mp there
          have member := OrderedMap.find_eq_some.mp isArray
          obtain ⟨key, inside⟩ := wellFormed.someElement _ member
          refine ⟨array, isArray, key, inside, ?_⟩
          intro nothing
          obtain ⟨default, isDefault, _⟩ := emptyDefaults _ member key inside nothing
          cases found.symm.trans isDefault
      rw [same]
  | some index =>
    have read := readBack.element iname index
    cases found : contents.element iname index with
    | none =>
      rw [found] at read
      rw [Contents.getKey_noElement found, Contents.getKey_noElement (Option.map_eq_none_iff.mp read), readBack.keys]
    | some key =>
      obtain ⟨array, member, inside⟩ := Contents.element_mem found
      rw [found] at read
      rw [Contents.getKey_element found]
      by_cases nothing : key.value = []
      · obtain ⟨default, isDefault, empty⟩ := emptyDefaults _ member key inside nothing
        have missing : loaded.element iname index = none := by simpa [Option.filter, nothing] using read
        rw [Contents.getKey_noElement missing, readBack.keys, isDefault]
        simp [Except.map, nothing, empty]
      · have kept : (loaded.element iname index).map Key.value = some key.value := by simpa [Option.filter, nothing] using read
        obtain ⟨other, isOther, same⟩ := Option.map_eq_some_iff.mp kept
        rw [Contents.getKey_element isOther]
        simp [Except.map, same]

theorem ReadBack.emptyDefault (readBack : ReadBack contents loaded) {array : List (Option Key)} {key : Key}
    (member : (iname, array) ∈ contents.arrayKeys.entries) (inside : some key ∈ array) (nothing : key.value = [])
    (agree : ∀ index, (loaded.getKey iname index).map Key.value = (contents.getKey iname index).map Key.value) :
    ∃ default, contents.keys.find iname = some default ∧ default.value = [] := by
  obtain ⟨index, found⟩ := Contents.mem_element member inside
  have read := readBack.element iname index
  have missing : loaded.element iname index = none := by simpa [Option.filter, found, nothing] using read
  have same := agree (some index)
  rw [Contents.getKey_element found, Contents.getKey_noElement missing, readBack.keys] at same
  cases isDefault : contents.keys.find iname with
  | none =>
    rw [isDefault] at same
    cases same
  | some default =>
    rw [isDefault] at same
    refine ⟨default, rfl, ?_⟩
    simpa [Except.map, nothing] using same

/-! ### Loading -/

theorem splitOn_joined {path : List Text} (some_ : path ≠ []) (names : ∀ name ∈ path, ∀ c ∈ name, nameChar c = true) :
    (joined path).splitOn '/' = path := by
  apply List.splitOn_intercalate '/' _ some_
  intro name member slash
  exact (plain_of (nameChar_plain (names name member '/' slash))).notSlash rfl

theorem evalSection_node (casts : Casts) (wellFormed : SectionWellFormed caseSensitive entry)
    (readable : entry.2.Readable casts) (config : Config) :
    evalSection caseSensitive config (sectionNode casts entry) =
      .ok { config with
        sections := config.sections.setContents caseSensitive
          (entry.2.lines.foldl (Line.add caseSensitive) (config.contentsAt (entry.1.map (fold caseSensitive)))) entry.1 } := by
  have path : ('[' :: joined entry.1 ++ [']']).tail.dropLast.splitOn '/' = entry.1 := by
    rw [List.cons_append, List.tail_cons, List.dropLast_concat]
    exact splitOn_joined wellFormed.path fun name member => (wellFormed.names name member).2
  simp only [evalSection, sectionNode, path]
  rw [evalKeys_nodes casts entry.2.lines wellFormed.contents.lines readable.1]
  rfl

theorem evalSections_nodes (wellFormed : ∀ entry ∈ entries, SectionWellFormed caseSensitive entry)
    (readable : ∀ entry ∈ entries, entry.2.Readable casts)
    (apart : entries.Pairwise fun entry other => entry.1.map (fold caseSensitive) ≠ other.1.map (fold caseSensitive))
    (config : Config) (fresh : ∀ entry ∈ entries, config.sections.contentsAt (entry.1.map (fold caseSensitive)) = .empty) :
    ∃ loaded, (entries.map (sectionNode casts)).foldlM (evalSection caseSensitive) config = .ok loaded ∧
      loaded.contents = config.contents ∧
      (∀ entry ∈ entries, loaded.sections.contentsAt (entry.1.map (fold caseSensitive)) = entry.2.readBack caseSensitive) ∧
      ∀ path, (∀ entry ∈ entries, entry.1.map (fold caseSensitive) ≠ path) →
        loaded.sections.contentsAt path = config.sections.contentsAt path := by
  induction entries generalizing config with
  | nil => exact ⟨config, rfl, rfl, fun entry member => absurd member List.not_mem_nil, fun _ _ => rfl⟩
  | cons entry entries ih =>
    have here := wellFormed entry List.mem_cons_self
    obtain ⟨first, others⟩ := List.pairwise_cons.mp apart
    have start : config.contentsAt (entry.1.map (fold caseSensitive)) = .empty := by
      rw [Config.contentsAt, if_neg (by simpa using here.path)]
      exact fresh entry List.mem_cons_self
    have read := evalSection_node casts here (readable entry List.mem_cons_self) config
    rw [start] at read
    have at_ := SectionList.contentsAt_setContents caseSensitive (entry.2.readBack caseSensitive) entry.1 here.path
      config.sections
    obtain ⟨loaded, isLoaded, root, keys, kept⟩ := ih (fun other member => wellFormed other (List.mem_cons_of_mem entry member))
      (fun other member => readable other (List.mem_cons_of_mem entry member)) others
      { config with sections := config.sections.setContents caseSensitive (entry.2.readBack caseSensitive) entry.1 }
      fun other member => by
        rw [at_, if_neg (Ne.symm (first other member))]
        exact fresh other (List.mem_cons_of_mem entry member)
    refine ⟨loaded, ?_, root, ?_, ?_⟩
    · rw [List.map_cons, List.foldlM_cons, read]
      exact isLoaded
    · intro other member
      cases List.mem_cons.mp member with
      | inl same =>
        rw [same, kept _ fun later behind => Ne.symm (first later behind), at_, if_pos rfl]
      | inr behind => exact keys other behind
    · intro path missing
      rw [kept path fun other member => missing other (List.mem_cons_of_mem entry member), at_,
        if_neg (Ne.symm (missing entry List.mem_cons_self))]

theorem Config.WellFormed.flatten (wellFormed : config.WellFormed caseSensitive) :
    ∀ entry ∈ config.sections.flatten, SectionWellFormed caseSensitive entry := by
  intro entry member
  obtain ⟨path, names, contents⟩ := SectionList.wellFormed_mem wellFormed.sections member
  exact ⟨path, names, contents⟩

theorem Config.WellFormed.saveTreeAs (wellFormed : config.WellFormed caseSensitive) (casts : Casts) :
    saveTreeAs casts config = '\n' :: config.sections.flatten.flatMap (showSection casts) := by
  have same : config = ⟨.empty, config.sections⟩ := by rw [← wellFormed.root]
  rw [same]
  exact saveTreeAs_eq casts config.sections

theorem load_readable (wellFormed : config.WellFormed caseSensitive)
    (readable : ∀ entry ∈ config.sections.flatten, entry.2.Readable casts) :
    ∃ loaded, loadConfigFromString caseSensitive .empty (saveTreeAs casts config) = .ok loaded ∧ loaded.contents = .empty ∧
      (∀ entry ∈ config.sections.flatten,
        loaded.sections.contentsAt (entry.1.map (fold caseSensitive)) = entry.2.readBack caseSensitive) ∧
      ∀ path, (∀ entry ∈ config.sections.flatten, entry.1.map (fold caseSensitive) ≠ path) →
        loaded.sections.contentsAt path = .empty := by
  have entries := wellFormed.flatten
  have nothing : ∀ path, SectionList.nil.contentsAt path = .empty := by
    intro path
    cases path <;> rfl
  obtain ⟨loaded, isLoaded, root, keys, kept⟩ := evalSections_nodes entries readable
    (SectionList.flatten_pairwise wellFormed.sections) .empty fun entry _ => nothing _
  refine ⟨loaded, ?_, root, keys, fun path missing => (kept path missing).trans (nothing path)⟩
  rw [wellFormed.saveTreeAs, loadConfigFromString, rFile_readable entries readable]
  exact isLoaded

theorem load_unreadable (wellFormed : config.WellFormed caseSensitive)
    (unreadable : ∃ entry ∈ config.sections.flatten, ¬entry.2.Readable casts) :
    ∃ fault, loadConfigFromString caseSensitive .empty (saveTreeAs casts config) = .error fault := by
  rw [wellFormed.saveTreeAs, loadConfigFromString]
  cases parsed : rFile ('\n' :: config.sections.flatten.flatMap (showSection casts)) with
  | none => exact ⟨.parserError, rfl⟩
  | some nodes =>
    obtain ⟨node, member, key, held, fails⟩ := rFile_fails wellFormed.flatten unreadable parsed
    apply foldlM_fails _ nodes member
    intro before
    obtain ⟨fault, failed⟩ := foldlM_fails (evalKey_fails caseSensitive fails) node.keys held
      (before.contentsAt (((node.name.tail.dropLast).splitOn '/').map (fold caseSensitive)))
    refine ⟨fault, ?_⟩
    simp only [evalSection, failed]
    rfl

/-! ### Saving and loading -/

theorem Config.getKey_joined {path : List Text} {name : Text} (config : Config)
    (names : ∀ name ∈ path, ∀ c ∈ name, nameChar c = true) (nameChars : ∀ c ∈ name, nameChar c = true) (index : Option Nat) :
    config.getKey caseSensitive (joined (path ++ [name])) index =
      (config.contentsAt (path.map (fold caseSensitive))).getKey (fold caseSensitive name) index := by
  have split : (joined (path ++ [name])).splitOn '/' = path ++ [name] := by
    apply splitOn_joined (by simp)
    intro other member
    cases List.mem_append.mp member with
    | inl inside => exact names other inside
    | inr last => exact List.mem_singleton.mp last ▸ nameChars
  simp [Config.getKey, split]

/-- The saved text is read into the same tree if and only if the sections are savable. -/
theorem saved_loads_back (wellFormed : config.WellFormed caseSensitive) :
    (∃ loaded, loadConfigFromString caseSensitive .empty (saveTreeAs casts config) = .ok loaded ∧
        Agree caseSensitive config loaded) ↔
      ∀ entry ∈ config.sections.flatten, entry.2.Savable casts := by
  constructor
  · intro result
    obtain ⟨loaded, isLoaded, agree⟩ := result
    have readable : ∀ entry ∈ config.sections.flatten, entry.2.Readable casts := by
      intro entry member
      by_contra unreadable
      obtain ⟨fault, failed⟩ := load_unreadable wellFormed ⟨entry, member, unreadable⟩
      cases isLoaded.symm.trans failed
    obtain ⟨same, isSame, _, keys, _⟩ := load_readable wellFormed readable
    cases isLoaded.symm.trans isSame
    intro entry member
    refine ⟨readable entry member, ?_⟩
    intro array held key inside nothing
    have section_ := wellFormed.flatten entry member
    have named := section_.contents.elements array held key inside
    have path : entry.1.map (fold caseSensitive) ≠ [] := by simpa using section_.path
    have back := Contents.readBack_of_readable section_.contents (readable entry member)
    apply back.emptyDefault held inside nothing
    intro index
    have at_ := agree (joined (entry.1 ++ [key.name])) index
    have names := fun name member => (section_.names name member).2
    rwa [Config.getKey_joined loaded names named.2, Config.getKey_joined config names named.2, named.1, Config.contentsAt,
      Config.contentsAt, if_neg path, if_neg path, keys entry member,
      SectionList.contentsAt_mem wellFormed.sections member] at at_
  · intro savable
    obtain ⟨loaded, isLoaded, root, keys, others⟩ := load_readable wellFormed fun entry member => (savable entry member).readable
    refine ⟨loaded, isLoaded, ?_⟩
    intro path index
    have sections : ∀ names iname, ((loaded.contentsAt names).getKey iname index).map Key.value =
        ((config.contentsAt names).getKey iname index).map Key.value := by
      intro names iname
      by_cases top : names = []
      · rw [Config.contentsAt, Config.contentsAt, if_pos top, if_pos top, root, wellFormed.root]
      rw [Config.contentsAt, Config.contentsAt, if_neg top, if_neg top]
      by_cases there : ∃ entry ∈ config.sections.flatten, entry.1.map (fold caseSensitive) = names
      · obtain ⟨entry, member, isPath⟩ := there
        have section_ := wellFormed.flatten entry member
        rw [← isPath, keys entry member, SectionList.contentsAt_mem wellFormed.sections member]
        exact (Contents.readBack_of_readable section_.contents (savable entry member).readable).getKey section_.contents
          (savable entry member).emptyDefaults iname index
      · have missing : ∀ entry ∈ config.sections.flatten, entry.1.map (fold caseSensitive) ≠ names :=
          fun entry member same => there ⟨entry, member, same⟩
        rw [others names missing, SectionList.contentsAt_not_mem wellFormed.sections missing]
    exact sections _ _

/-- Casts that do not fail. -/
def allCasts : Casts := ⟨fun _ => true, fun _ => true⟩

def oneArray : Config :=
  (Config.empty.addKey true ['a', '/', 'n'] ['5'] none).addKey true ['a', '/', 'b'] ['1'] (some 1)

theorem letter_named {c : Char} (letter : nameChar c = true) : ∀ name ∈ [[c]], name ≠ [] ∧ ∀ c ∈ name, nameChar c = true := by
  intro name member
  cases List.mem_singleton.mp member
  exact ⟨List.cons_ne_nil c [], List.forall_mem_singleton.mpr letter⟩

theorem oneArray_wellFormed : oneArray.WellFormed true :=
  (Config.empty_wellFormed.addKey [['a']] rfl (List.cons_ne_nil _ _) (letter_named rfl) (List.forall_mem_singleton.mpr rfl) _
      _).addKey
    [['a']] rfl (List.cons_ne_nil _ _) (letter_named rfl) (List.forall_mem_singleton.mpr rfl) _ _

theorem oneArray_loads_back :
    ∃ loaded, loadConfigFromString true .empty (saveTreeAs allCasts oneArray) = .ok loaded ∧ Agree true oneArray loaded := by
  apply (saved_loads_back oneArray_wellFormed).mpr
  intro entry member
  cases List.mem_singleton.mp member
  refine ⟨⟨by decide, List.isChain_cons_cons.mpr ⟨fun span => absurd span.2 (by decide), .singleton _⟩⟩, ?_⟩
  intro array held key inside nothing
  cases List.mem_singleton.mp held
  have overrides : some key ∈ [none, some (Key.mk ['b'] ['1'])] := inside
  simp only [List.mem_cons, reduceCtorEq, Option.some.injEq, List.not_mem_nil, or_false, false_or] at overrides
  rw [overrides] at nothing
  cases nothing

def twoArrays : Config :=
  (Config.empty.addKey true ['a', '/', 'b'] ['1'] (some 0)).addKey true ['a', '/', 'c'] ['2'] (some 0)

theorem twoArrays_wellFormed : twoArrays.WellFormed true :=
  (Config.empty_wellFormed.addKey [['a']] rfl (List.cons_ne_nil _ _) (letter_named rfl) (List.forall_mem_singleton.mpr rfl) _
      _).addKey
    [['a']] rfl (List.cons_ne_nil _ _) (letter_named rfl) (List.forall_mem_singleton.mpr rfl) _ _

/-- The last separator of the first array takes the name of the second key. -/
theorem twoArrays_lost : twoArrays.WellFormed true ∧
    ¬∃ loaded, loadConfigFromString true .empty (saveTreeAs allCasts twoArrays) = .ok loaded ∧ Agree true twoArrays loaded := by
  have failed : loadConfigFromString true .empty (saveTreeAs allCasts twoArrays) = .error .keyNameExpected := by rfl
  refine ⟨twoArrays_wellFormed, ?_⟩
  intro result
  obtain ⟨loaded, isLoaded, _⟩ := result
  cases isLoaded.symm.trans failed

end Sniper.Configuration

import Sniper.Configuration.SectionTexts
import Mathlib.Data.List.Chain

/-! What the lines of a section become when they are read again. -/

namespace Sniper.Configuration

variable {casts : Casts} {caseSensitive : Bool} {contents loaded : Contents} {line : Line} {name iname : Text}
  {elements : List (Option Key)}

/-- The overrides of a name from an index on; an empty value is no override. -/
def Contents.addElements (caseSensitive : Bool) (name : Text) : List (Option Key) → (index : Nat) → Contents → Contents
  | [], _, contents => contents
  | none :: elements, index, contents => addElements caseSensitive name elements (index + 1) contents
  | some key :: elements, index, contents =>
    addElements caseSensitive name elements (index + 1)
      (if key.value = [] then contents else contents.addKey caseSensitive name key.value (some index))

/-- What a line adds to the keys of its section. -/
def Line.add (caseSensitive : Bool) (contents : Contents) (line : Line) : Contents :=
  match line with
  | .single key => contents.addKey caseSensitive key.name key.value none
  | .array elements => contents.addElements caseSensitive line.name elements 0

/-- The loaded keys of a section are the saved ones without the elements that are empty. -/
structure ReadBack (contents loaded : Contents) : Prop where
  keys : loaded.keys = contents.keys
  element : ∀ iname index, (loaded.element iname index).map Key.value =
    ((contents.element iname index).map Key.value).filter (· ≠ [])
  arrays : ∀ iname, (loaded.arrayKeys.find iname).isSome ↔
    ∃ array, contents.arrayKeys.find iname = some array ∧ ∃ key, some key ∈ array ∧ key.value ≠ []

/-! ### Nodes -/

theorem evalItems_elements (casts : Casts) (elements : List (Option Key)) (index : Nat) (contents : Contents) :
    evalItems caseSensitive name (elements.flatMap (elementItems casts)) index contents =
      contents.addElements caseSensitive name elements index := by
  induction elements generalizing index contents with
  | nil => rfl
  | cons element elements ih =>
    cases element with
    | none => exact ih (index + 1) contents
    | some key =>
      simp only [List.flatMap_cons, elementItems, List.cons_append, List.nil_append, evalItems, unEscapeText_showValue,
        ih, Contents.addElements]

theorem evalKey_node (casts : Casts) (caseSensitive : Bool) (wellFormed : line.WellFormed) (named : line.name ≠ []) (contents : Contents) :
    evalKey caseSensitive contents (line.node casts) = .ok (line.add caseSensitive contents) := by
  have plain := (Line.plain wellFormed named).unEscape
  cases line with
  | single key =>
    have isName : unEscapeText key.name = key.name := plain
    simp only [evalKey, Line.node, Line.data, Line.name, isName, unEscapeText_showValue, Line.add]
  | array elements =>
    simp only [evalKey, Line.node, Line.data, plain, evalItems_elements, Line.add]

theorem evalKeys_nodes (casts : Casts) (lines : List Line) (wellFormed : ∀ line ∈ lines, line.WellFormed)
    (named : ∀ line ∈ lines, line.name ≠ []) (contents : Contents) :
    (lines.map (Line.node casts)).foldlM (evalKey caseSensitive) contents =
      .ok (lines.foldl (Line.add caseSensitive) contents) := by
  induction lines generalizing contents with
  | nil => rfl
  | cons line lines ih =>
    have read := evalKey_node casts caseSensitive (wellFormed line List.mem_cons_self)
      (named line List.mem_cons_self) contents
    rw [List.map_cons, List.foldlM_cons, read]
    exact ih (fun other member => wellFormed other (List.mem_cons_of_mem line member))
      (fun other member => named other (List.mem_cons_of_mem line member)) _

theorem evalKey_fails (caseSensitive : Bool) {node : KeyNode} (fails : node.Fails) (contents : Contents) :
    ∃ fault, evalKey caseSensitive contents node = .error fault := by
  cases isName : node.name with
  | none =>
    by_cases nothing : node.data = .empty
    · exact ⟨.keyChildren, by simp [evalKey, isName, nothing]⟩
    · exact ⟨.keyNameExpected, by simp [evalKey, isName, nothing]⟩
  | some keyName =>
    cases fails with
    | inl nameless => cases isName.symm.trans nameless
    | inr span => exact ⟨.unexpectedNode, by simp [evalKey, isName, span]⟩

theorem foldlM_fails {α β ε : Type} {step : β → α → Except ε β} {bad : α} (fails : ∀ state, ∃ fault, step state bad = .error fault)
    (list : List α) (member : bad ∈ list) (state : β) : ∃ fault, list.foldlM step state = .error fault := by
  induction list generalizing state with
  | nil => cases member
  | cons first list ih =>
    rw [List.foldlM_cons]
    cases stepped : step state first with
    | error fault => exact ⟨fault, rfl⟩
    | ok next =>
      cases List.mem_cons.mp member with
      | inl same =>
        obtain ⟨fault, failed⟩ := fails state
        cases (same ▸ stepped).symm.trans failed
      | inr behind => exact ih behind next

/-! ### Elements -/

theorem element_addKey (value : Text) (index index' : Nat) :
    (contents.addKey caseSensitive name value (some index)).element iname index' =
      if iname = fold caseSensitive name ∧ index' = index then some ⟨name, value⟩ else contents.element iname index' := by
  by_cases same : iname = fold caseSensitive name
  · subst same
    simp only [Contents.element, Contents.addKey, OrderedMap.find_insert_self, Option.bind_some, List.getElem?_set,
      List.length_append, List.length_replicate, true_and]
    by_cases here : index' = index
    · subst here
      have long : index' < ((contents.arrayKeys.find (fold caseSensitive name)).getD []).length +
          (index' + 1 - ((contents.arrayKeys.find (fold caseSensitive name)).getD []).length) := by omega
      simp [long]
    · rw [if_neg (Ne.symm here), if_neg here, List.getElem?_append]
      cases contents.arrayKeys.find (fold caseSensitive name) with
      | none =>
        simp only [Option.getD_none, List.length_nil, Nat.not_lt_zero, if_false, Nat.sub_zero, List.getElem?_replicate,
          Option.bind_none]
        split <;> rfl
      | some array =>
        simp only [Option.getD_some, Option.bind_some]
        split
        case isTrue => rfl
        case isFalse outside =>
          rw [List.getElem?_eq_none (Nat.le_of_not_lt outside), List.getElem?_replicate]
          split <;> rfl
  · simp [Contents.element, Contents.addKey, OrderedMap.find_insert_of_ne same, same]

theorem keys_addElements (elements : List (Option Key)) (index : Nat) (contents : Contents) :
    (contents.addElements caseSensitive name elements index).keys = contents.keys := by
  induction elements generalizing index contents with
  | nil => rfl
  | cons element elements ih =>
    cases element with
    | none => exact ih (index + 1) contents
    | some key =>
      rw [Contents.addElements, ih]
      split <;> rfl

theorem element_addElements_of_ne (different : iname ≠ fold caseSensitive name) (elements : List (Option Key))
    (index index' : Nat) (contents : Contents) :
    (contents.addElements caseSensitive name elements index).element iname index' = contents.element iname index' := by
  induction elements generalizing index contents with
  | nil => rfl
  | cons element elements ih =>
    cases element with
    | none => exact ih (index + 1) contents
    | some key =>
      rw [Contents.addElements, ih]
      split
      · rfl
      · simp [element_addKey, different]

theorem element_addElements_before {index index' : Nat} (before : index' < index) (elements : List (Option Key))
    (contents : Contents) :
    (contents.addElements caseSensitive name elements index).element iname index' = contents.element iname index' := by
  induction elements generalizing index contents with
  | nil => rfl
  | cons element elements ih =>
    cases element with
    | none => exact ih (Nat.lt_succ_of_lt before) contents
    | some key =>
      rw [Contents.addElements, ih (Nat.lt_succ_of_lt before)]
      split
      · rfl
      · simp [element_addKey, Nat.ne_of_lt before]

def override (name : Text) (elements : List (Option Key)) (offset : Nat) : Option Key :=
  (elements[offset]?.join.filter fun key => key.value ≠ []).map fun key => ⟨name, key.value⟩

theorem element_addElements (caseSensitive : Bool) (name : Text) (elements : List (Option Key)) (index offset : Nat) (contents : Contents) :
    (contents.addElements caseSensitive name elements index).element (fold caseSensitive name) (index + offset) =
      (override name elements offset).or (contents.element (fold caseSensitive name) (index + offset)) := by
  induction elements generalizing index offset contents with
  | nil => rfl
  | cons element elements ih =>
    cases offset with
    | zero =>
      cases element with
      | none => exact element_addElements_before (Nat.lt_succ_self index) elements contents
      | some key =>
        rw [Contents.addElements, element_addElements_before (Nat.lt_succ_self (index + 0))]
        by_cases nothing : key.value = []
        · simp [override, Option.filter, nothing]
        · simp [override, Option.filter, nothing, element_addKey]
    | succ offset =>
      have moved : index + (offset + 1) = index + 1 + offset := by omega
      cases element with
      | none => exact moved ▸ ih (index + 1) offset contents
      | some key =>
        rw [Contents.addElements, moved, ih]
        split
        · rfl
        · have other : index + 1 + offset ≠ index := by omega
          simp [override, element_addKey, other]

theorem arrays_addElements (elements : List (Option Key)) (index : Nat) (contents : Contents) :
    ((contents.addElements caseSensitive name elements index).arrayKeys.find iname).isSome ↔
      (contents.arrayKeys.find iname).isSome ∨
        iname = fold caseSensitive name ∧ ∃ key, some key ∈ elements ∧ key.value ≠ [] := by
  induction elements generalizing index contents with
  | nil => simp [Contents.addElements]
  | cons element elements ih =>
    cases element with
    | none => simp [Contents.addElements, ih]
    | some key =>
      rw [Contents.addElements, ih]
      by_cases nothing : key.value = []
      · simp [nothing]
      · by_cases same : iname = fold caseSensitive name
        · subst same
          simp [nothing, Contents.addKey]
        · simp [nothing, same, Contents.addKey, OrderedMap.find_insert_of_ne same]

/-! ### Sections -/

/-- The keys of a section that its lines give to a section without keys. -/
def Contents.readBack (caseSensitive : Bool) (contents : Contents) : Contents :=
  contents.lines.foldl (Line.add caseSensitive) .empty

theorem foldl_single (wellFormed : contents.WellFormed caseSensitive) :
    (contents.keys.entries.map fun entry => Line.single entry.2).foldl (Line.add caseSensitive) .empty =
      ⟨contents.keys, .empty⟩ := by
  have added : ∀ (entries : List (Text × Key)) (keys : OrderedMap Text Key),
      (∀ entry ∈ entries, fold caseSensitive entry.2.name = entry.1) →
      (entries.map fun entry => Line.single entry.2).foldl (Line.add caseSensitive) ⟨keys, .empty⟩ =
        ⟨entries.foldl (fun map entry => map.insert entry.1 entry.2) keys, .empty⟩ := by
    intro entries
    induction entries with
    | nil => exact fun _ _ => rfl
    | cons entry entries ih =>
      intro keys names
      have name := names entry List.mem_cons_self
      have others := ih (keys.insert entry.1 entry.2) fun other member => names other (List.mem_cons_of_mem entry member)
      rw [List.map_cons, List.foldl_cons, List.foldl_cons, ← others]
      simp only [Line.add, Contents.addKey, name]
      rfl
  have all := added contents.keys.entries .empty fun entry member => (wellFormed.keys entry member).1
  rw [OrderedMap.foldl_insert_empty] at all
  exact all

theorem Contents.Readable.arrays (readable : contents.Readable casts) :
    contents.arrayKeys = .empty ∨ ∃ entry, contents.arrayKeys.entries = [entry] := by
  have chain := List.IsChain.right_of_append readable.2
  cases isArrays : contents.arrayKeys.entries with
  | nil => exact .inl (OrderedMap.ext isArrays)
  | cons first others =>
    cases others with
    | nil => exact .inr ⟨first, rfl⟩
    | cons second others =>
      rw [isArrays] at chain
      exact (List.isChain_cons_cons.mp chain).1.elim

theorem find_arrays_singleton {entry : Text × List (Option Key)} (isArrays : contents.arrayKeys.entries = [entry])
    (iname : Text) : contents.arrayKeys.find iname = if iname = entry.1 then some entry.2 else none := by
  unfold OrderedMap.find
  rw [isArrays]
  by_cases same : iname = entry.1
  · simp [same]
  · simp [same, Ne.symm same]

theorem Contents.readBack_of_readable (wellFormed : contents.WellFormed caseSensitive) (readable : contents.Readable casts) :
    ReadBack contents (contents.readBack caseSensitive) := by
  have singles := foldl_single wellFormed
  unfold Contents.readBack Contents.lines
  rw [List.foldl_append, singles]
  obtain nothing | ⟨entry, isArrays⟩ := readable.arrays
  · rw [nothing]
    refine ⟨rfl, fun iname index => ?_, fun iname => ?_⟩
    · simp [Contents.element, nothing, OrderedMap.empty, OrderedMap.find]
    · simp [nothing, OrderedMap.empty, OrderedMap.find]
  · have find := find_arrays_singleton isArrays
    have member : entry ∈ contents.arrayKeys.entries := isArrays ▸ List.mem_singleton_self entry
    have name : fold caseSensitive (Line.array entry.2).name = entry.1 := by
      obtain ⟨key, inside⟩ := wellFormed.someElement entry member
      cases found : entry.2.findSome? id with
      | none => exact absurd (List.findSome?_eq_none_iff.mp found _ inside) (Option.some_ne_none key)
      | some first =>
        obtain ⟨element, held, isFirst⟩ := List.exists_of_findSome?_eq_some found
        simp only [Line.name, found, Option.map_some, Option.getD_some]
        exact (wellFormed.elements entry member first (isFirst ▸ held)).1
    simp only [isArrays, List.map_cons, List.map_nil, List.foldl_cons, List.foldl_nil, Line.add]
    refine ⟨keys_addElements entry.2 0 _, fun iname index => ?_, fun iname => ?_⟩
    · by_cases same : iname = entry.1
      · have read := element_addElements caseSensitive (Line.array entry.2).name entry.2 0 index ⟨contents.keys, .empty⟩
        rw [name, Nat.zero_add] at read
        rw [same, read]
        simp only [Contents.element, find, if_true, Option.bind_some, OrderedMap.find_empty, Option.bind_none, Option.or_none,
          override, Option.map_map]
        cases entry.2[index]?.join with
        | none => rfl
        | some key => by_cases nothing : key.value = [] <;> simp [Option.filter, nothing]
      · rw [element_addElements_of_ne (by rwa [name])]
        simp [Contents.element, find, same]
    · rw [arrays_addElements, name, find]
      by_cases same : iname = entry.1
      · simp [same]
      · simp [same]

end Sniper.Configuration

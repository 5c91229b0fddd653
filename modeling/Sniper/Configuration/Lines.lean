import Sniper.Configuration.Values

/-! How the lines of a section are parsed. -/

namespace Sniper.Configuration

variable {casts : Casts} {text text' rest : Text}

/-- A line of a section: a default value or the overrides of a key. -/
inductive Line where
  | single (key : Key)
  | array (elements : List (Option Key))

def Contents.lines (contents : Contents) : List Line :=
  contents.keys.entries.map (fun entry => .single entry.2) ++ contents.arrayKeys.entries.map fun entry => .array entry.2

/-- The nodes of an element of an array. -/
def elementItems (casts : Casts) (element : Option Key) : List Item :=
  match element with
  | some key => [.value (showValue casts key.value), .separator]
  | none => [.separator]

namespace Line

def name : Line → Text
  | .single key => key.name
  | .array elements => ((elements.findSome? id).map Key.name).getD []

def body (casts : Casts) : Line → Text
  | .single key => [' ', '=', ' '] ++ showValue casts key.value ++ ['\n']
  | .array elements => ['[', ']', ' ', '=', ' '] ++ elements.flatMap (showElement casts) ++ ['\n']

def show_ (casts : Casts) (line : Line) : Text := line.name ++ line.body casts

/-- What is written between the equals sign and the end of the line. -/
def shown (casts : Casts) : Line → Text
  | .single key => showValue casts key.value
  | .array elements => elements.flatMap (showElement casts)

def data (casts : Casts) : Line → Data
  | .single key => .value (showValue casts key.value)
  | .array elements => .array (elements.flatMap (elementItems casts))

def node (casts : Casts) (line : Line) : KeyNode := ⟨some line.name, line.data casts⟩

/-- A name that needs no quotes, and an array with an element. -/
structure WellFormed (line : Line) : Prop where
  name : ∀ c ∈ line.name, nameChar c = true
  elements : ∀ elements, line = .array elements → elements ≠ []

end Line

theorem showName_eq {name : Text} (chars : ∀ c ∈ name, nameChar c = true) : showName name = name := by
  have plain : ¬(' ' ∈ name ∨ '"' ∈ name) := by
    intro special
    cases special with
    | inl space => exact absurd (chars _ space) (by decide)
    | inr quote => exact absurd (chars _ quote) (by decide)
  simp [showName, plain]

theorem Line.show_single {key : Key} (wellFormed : (Line.single key).WellFormed) :
    showKey casts key = (Line.single key).show_ casts := by
  have name : showName key.name = key.name := showName_eq wellFormed.name
  simp [showKey, Line.show_, Line.name, Line.body, name]

theorem Line.show_array {elements : List (Option Key)} (wellFormed : (Line.array elements).WellFormed) :
    showArray casts elements = (Line.array elements).show_ casts := by
  have name := showName_eq wellFormed.name
  unfold showArray arrayName Line.show_ Line.body
  cases found : elements.findSome? id with
  | none => simp [Line.name, found]
  | some key =>
    simp only [Line.name, found, Option.map_some, Option.getD_some] at name
    simp [Line.name, found, name]

theorem showContents_eq (casts : Casts) {contents : Contents} (wellFormed : ∀ line ∈ contents.lines, line.WellFormed) :
    showContents casts contents = contents.lines.flatMap (Line.show_ casts) ++ ['\n'] := by
  have keys : contents.keys.entries.flatMap (fun entry => showKey casts entry.2) =
      contents.keys.entries.flatMap fun entry => (Line.single entry.2).show_ casts := by
    apply List.flatMap_congr
    intro entry member
    exact Line.show_single (wellFormed _ (List.mem_append_left _ (List.mem_map_of_mem member)))
  have arrays : contents.arrayKeys.entries.flatMap (fun entry => showArray casts entry.2) =
      contents.arrayKeys.entries.flatMap fun entry => (Line.array entry.2).show_ casts := by
    apply List.flatMap_congr
    intro entry member
    exact Line.show_array (wellFormed _ (List.mem_append_right _ (List.mem_map_of_mem member)))
  simp only [showContents, keys, arrays, Contents.lines, List.flatMap_append, List.flatMap_map]

/-! ### Texts that differ in what is skipped -/

theorem rString_congr (same : skip false text = skip false text') : rString text = rString text' := by
  simp only [rString, same]

theorem rKey_congr (same : skip false text = skip false text') : rKey text = rKey text' := by
  have equals : rEquals text = rEquals text' := by simp only [rEquals, same]
  have strings := rString_congr same
  simp only [rKey, rKeyName, strings]
  cases rString text' with
  | none => simp only [equals]
  | some found => rfl

/-! ### Names -/

theorem Line.plain {line : Line} (wellFormed : line.WellFormed) (named : line.name ≠ []) : PlainWord line.name :=
  ⟨named, fun c member => plain_of (nameChar_plain (wellFormed.name c member))⟩

theorem Line.skip_body (casts : Casts) (line : Line) (rest : Text) :
    (∃ behind, skip false (line.body casts ++ rest) = '=' :: behind) ∨
      ∃ behind, skip false (line.body casts ++ rest) = '[' :: ']' :: behind := by
  cases line with
  | single key => exact .inl ⟨_, rfl⟩
  | array elements => exact .inr ⟨_, rfl⟩

theorem Line.rString_body (line : Line) (rest : Text) : rString (line.body casts ++ rest) = none := by
  obtain ⟨behind, skipped⟩ | ⟨behind, skipped⟩ := line.skip_body casts rest
  · simp [rString, skipped, confix, token, tokenChar]
  · simp [rString, skipped, confix, token, tokenChar]

theorem Line.rString_show {line : Line} (wellFormed : line.WellFormed) (named : line.name ≠ []) (rest : Text) :
    rString (line.show_ casts ++ rest) = some (line.name, line.body casts ++ rest) := by
  have outside : ∀ c, (line.body casts ++ rest).head? = some c → tokenChar c = false := by
    intro c head
    cases line with
    | single key =>
      cases head
      decide
    | array elements =>
      cases head
      decide
  rw [Line.show_, List.append_assoc]
  exact (plain wellFormed named).rString outside

/-! ### What follows a line -/

def NoComma (text : Text) : Prop := ∀ c, (skip false text).head? = some c → c ≠ ','

theorem Line.noComma_body (line : Line) (rest : Text) : NoComma (line.body casts ++ rest) := by
  intro c next
  obtain ⟨behind, skipped⟩ | ⟨behind, skipped⟩ := line.skip_body casts rest
  · rw [skipped] at next
    cases next
    decide
  · rw [skipped] at next
    cases next
    decide

theorem separated_noComma (noComma : NoComma text) (fuel : Nat) : separated fuel text = ([], text) := by
  cases fuel with
  | zero => rfl
  | succ fuel =>
    unfold separated
    cases skipped : skip false text with
    | nil => rfl
    | cons c behind =>
      have other : c ≠ ',' := noComma c (by rw [skipped]; rfl)
      simp [other]

/-! ### Default values -/

theorem rString_line (casts : Casts) (value rest : Text) :
    rString (showValue casts value ++ '\n' :: rest) = some (showValue casts value, '\n' :: rest) := by
  apply rString_showValue
  intro c head
  cases head
  decide

theorem rValueArray_showValue (value : Text) (noComma : NoComma rest) :
    rValueArray (showValue casts value ++ '\n' :: rest) = none := by
  have next : NoComma ('\n' :: rest) := by
    intro c
    rw [skip_newline]
    exact noComma c
  have found := rString_line casts value rest
  simp [rValueArray, rValueSingleOrEmpty, found, separated_noComma next]

theorem rValue_single (value : Text) (noComma : NoComma rest) (noSpan : ¬(casts.isLong value = true ∧ SpanFollows rest)) :
    rValue (showValue casts value ++ '\n' :: rest) = (.value (showValue casts value), '\n' :: rest) := by
  have found := rString_line casts value rest
  have none_ : rValueSpan (showValue casts value ++ '\n' :: rest) = none := by
    cases span : rValueSpan (showValue casts value ++ '\n' :: rest) with
    | none => rfl
    | some behind => exact absurd ((rValueSpan_isSome value).mp (by rw [span]; rfl)) noSpan
  simp [rValue, rValueArray_showValue value noComma, none_, found]

theorem rValue_span (value : Text) (noComma : NoComma rest) (span : casts.isLong value = true ∧ SpanFollows rest) :
    (rValue (showValue casts value ++ '\n' :: rest)).1 = .span := by
  obtain ⟨behind, found⟩ := Option.isSome_iff_exists.mp ((rValueSpan_isSome value).mpr span)
  simp [rValue, rValueArray_showValue value noComma, found]

/-! ### Arrays -/

theorem rValueSingleOrEmpty_element (casts : Casts) (element : Option Key) :
    ∃ items, elementItems casts element = items ++ [.separator] ∧
      ∀ rest, rValueSingleOrEmpty (showElement casts element ++ rest) = (items, ',' :: rest) := by
  cases element with
  | some key =>
    refine ⟨[.value (showValue casts key.value)], rfl, fun rest => ?_⟩
    have found : rString (showValue casts key.value ++ ',' :: rest) = some (showValue casts key.value, ',' :: rest) := by
      apply rString_showValue
      intro c head
      cases head
      decide
    simp [rValueSingleOrEmpty, showElement, found]
  | none =>
    refine ⟨[], rfl, fun rest => ?_⟩
    simp [rValueSingleOrEmpty, showElement, rString, skip, isSpace, confix, token, tokenChar]

theorem length_showElements (casts : Casts) (elements : List (Option Key)) :
    elements.length ≤ (elements.flatMap (showElement casts)).length := by
  induction elements with
  | nil => exact Nat.le_refl 0
  | cons element elements ih =>
    have comma : 1 ≤ (showElement casts element).length := by
      cases element <;> simp [showElement]
    simp only [List.flatMap_cons, List.length_append, List.length_cons]
    omega

theorem separated_elements (casts : Casts) (noComma : NoComma (rValueSingleOrEmpty ('\n' :: rest)).2) (elements : List (Option Key))
    (fuel : Nat) (enough : elements.length < fuel) :
    separated fuel (',' :: (elements.flatMap (showElement casts) ++ '\n' :: rest)) =
      (.separator :: (elements.flatMap (elementItems casts) ++ (rValueSingleOrEmpty ('\n' :: rest)).1),
        (rValueSingleOrEmpty ('\n' :: rest)).2) := by
  induction elements generalizing fuel with
  | nil =>
    obtain ⟨fuel, rfl⟩ := Nat.exists_eq_add_of_lt enough
    simp [separated, skip, isSpace, separated_noComma noComma]
  | cons element elements ih =>
    obtain ⟨fuel, rfl⟩ := Nat.exists_eq_succ_of_ne_zero (Nat.ne_of_gt (Nat.zero_lt_of_lt enough))
    obtain ⟨items, isItems, parsed⟩ := rValueSingleOrEmpty_element casts element
    have others := ih fuel (Nat.lt_of_succ_lt_succ enough)
    simp [separated, skip, isSpace, parsed, others, isItems]

theorem rValueArray_elements (casts : Casts) (noComma : NoComma (rValueSingleOrEmpty ('\n' :: rest)).2) {elements : List (Option Key)}
    (some_ : elements ≠ []) :
    rValueArray (elements.flatMap (showElement casts) ++ '\n' :: rest) =
      some (elements.flatMap (elementItems casts) ++ (rValueSingleOrEmpty ('\n' :: rest)).1,
        (rValueSingleOrEmpty ('\n' :: rest)).2) := by
  cases elements with
  | nil => exact absurd rfl some_
  | cons element elements =>
    obtain ⟨items, isItems, parsed⟩ := rValueSingleOrEmpty_element casts element
    have length := length_showElements casts elements
    have others := separated_elements casts noComma elements
      (',' :: (elements.flatMap (showElement casts) ++ '\n' :: rest)).length (by simp only [List.length_cons, List.length_append]; omega)
    unfold rValueArray
    rw [List.flatMap_cons, List.append_assoc, parsed]
    simp only [others]
    simp [isItems]

theorem dropWhile_elements (casts : Casts) {elements : List (Option Key)} (some_ : elements ≠ []) (rest : Text) :
    (elements.flatMap (showElement casts) ++ rest).dropWhile isSpace = elements.flatMap (showElement casts) ++ rest := by
  cases elements with
  | nil => exact absurd rfl some_
  | cons element elements =>
    cases element with
    | some key =>
      simp only [List.flatMap_cons, showElement, List.append_assoc]
      exact dropWhile_showValue casts key.value _
    | none => simp [showElement, isSpace]

/-! ### Whole lines -/

theorem Line.rEquals_body {line : Line} (wellFormed : line.WellFormed) (rest : Text) :
    rEquals (line.body casts ++ rest) = some (line.shown casts ++ '\n' :: rest) := by
  cases line with
  | single key =>
    have starts := dropWhile_showValue casts key.value ('\n' :: rest)
    simp [Line.body, Line.shown, rEquals, skip, isSpace, dropArrays, starts]
  | array elements =>
    have starts := dropWhile_elements casts (wellFormed.elements elements rfl) ('\n' :: rest)
    simp [Line.body, Line.shown, rEquals, skip, isSpace, dropArrays, starts]

theorem Line.rKey_body {line : Line} (wellFormed : line.WellFormed) (rest : Text) :
    rKey (line.body casts ++ rest) =
      some (⟨none, (rValue (line.shown casts ++ '\n' :: rest)).1⟩, (rValue (line.shown casts ++ '\n' :: rest)).2) := by
  simp [rKey, rKeyName, line.rString_body, rEquals_body wellFormed]

theorem Line.rKey_show {line : Line} (wellFormed : line.WellFormed) (named : line.name ≠ []) (rest : Text) :
    rKey (line.show_ casts ++ rest) =
      some (⟨some line.name, (rValue (line.shown casts ++ '\n' :: rest)).1⟩,
        (rValue (line.shown casts ++ '\n' :: rest)).2) := by
  simp [rKey, rKeyName, rString_show wellFormed named, rEquals_body wellFormed]

/-- What may come behind a line. -/
def Line.Precedes (casts : Casts) (line : Line) (rest : Text) : Prop :=
  match line with
  | .single key => ¬(casts.isLong key.value = true ∧ SpanFollows rest)
  | .array _ => rString rest = none

theorem rValueSingleOrEmpty_none (none_ : rString rest = none) :
    rValueSingleOrEmpty ('\n' :: rest) = ([], '\n' :: rest) := by
  have same : rString ('\n' :: rest) = rString rest := rString_congr (skip_newline false _)
  simp [rValueSingleOrEmpty, same, none_]

theorem NoComma.newline (noComma : NoComma rest) : NoComma ('\n' :: rest) := by
  intro c
  rw [skip_newline]
  exact noComma c

theorem Line.rKey_node {line : Line} (wellFormed : line.WellFormed) (named : line.name ≠ []) (noComma : NoComma rest)
    (precedes : line.Precedes casts rest) :
    rKey (line.show_ casts ++ rest) = some (line.node casts, '\n' :: rest) := by
  rw [rKey_show wellFormed named]
  cases line with
  | single key => simp [Line.shown, Line.node, Line.data, rValue_single key.value noComma precedes]
  | array elements =>
    have end_ := rValueSingleOrEmpty_none precedes
    have found := rValueArray_elements casts (end_.symm ▸ noComma.newline : NoComma (rValueSingleOrEmpty ('\n' :: rest)).2)
      (wellFormed.elements elements rfl)
    rw [end_, List.append_nil] at found
    simp [Line.shown, Line.node, Line.data, rValue, found]

theorem Line.rKey_array {elements : List (Option Key)} {next : Line} (wellFormed : (Line.array elements).WellFormed)
    (named : (Line.array elements).name ≠ []) (nextWellFormed : next.WellFormed) (rest : Text) :
    ∃ node behind, rKey ((Line.array elements).show_ casts ++ (next.show_ casts ++ rest)) = some (node, behind) ∧
      rKey behind = rKey (next.body casts ++ rest) := by
  rw [rKey_show wellFormed named]
  refine ⟨_, _, rfl, ?_⟩
  have tail : ∃ items behind, rValueSingleOrEmpty ('\n' :: (next.show_ casts ++ rest)) = (items, behind) ∧
      skip false behind = skip false (next.body casts ++ rest) := by
    by_cases nextNamed : next.name = []
    · have same : next.show_ casts ++ rest = next.body casts ++ rest := by simp [Line.show_, nextNamed]
      rw [same]
      exact ⟨_, _, rValueSingleOrEmpty_none (next.rString_body rest), skip_newline false _⟩
    · have found : rString ('\n' :: (next.show_ casts ++ rest)) = some (next.name, next.body casts ++ rest) :=
        (rString_congr (skip_newline false _)).trans (rString_show nextWellFormed nextNamed rest)
      refine ⟨[.value next.name], next.body casts ++ rest, ?_, rfl⟩
      simp only [rValueSingleOrEmpty, found]
  obtain ⟨items, behind, tail, same⟩ := tail
  have noComma : NoComma behind := by
    intro c
    rw [same]
    exact next.noComma_body rest c
  have found := rValueArray_elements casts (tail.symm ▸ noComma : NoComma (rValueSingleOrEmpty ('\n' :: (next.show_ casts ++ rest))).2)
    (wellFormed.elements elements rfl)
  rw [tail] at found
  simp only [Line.shown, rValue, found]
  exact rKey_congr same

end Sniper.Configuration

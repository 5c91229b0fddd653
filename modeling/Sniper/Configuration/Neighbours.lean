import Sniper.Configuration.Lines

/-! Which lines of a section may stand next to each other. -/

namespace Sniper.Configuration

variable {casts : Casts} {text rest : Text} {line next : Line} {lines : List Line}

def endsSpan (name : Text) : Bool := name.head? = some '-' && (longP name.tail).isSome

/-- No other line may come behind an array, and none that ends a span behind an integer. -/
def Line.Follows (casts : Casts) (line next : Line) : Prop :=
  match line with
  | .single key => ¬(casts.isLong key.value = true ∧ endsSpan next.name = true)
  | .array _ => False

def KeyNode.Fails (node : KeyNode) : Prop := node.name = none ∨ node.data = .span

def SectionEnd (rest : Text) : Prop :=
  skip false rest = [] ∨ ∃ c behind, c ≠ ']' ∧ skip false rest = '[' :: c :: behind

/-! ### The end of a section -/

theorem SectionEnd.rString (ends : SectionEnd rest) : rString rest = none := by
  obtain end_ | ⟨c, behind, _, next⟩ := ends
  · simp [Configuration.rString, end_, confix, token]
  · simp [Configuration.rString, next, confix, token, tokenChar]

theorem SectionEnd.rKey (ends : SectionEnd rest) : rKey rest = none := by
  have noName := ends.rString
  obtain end_ | ⟨c, behind, named, next⟩ := ends
  · simp [Configuration.rKey, rKeyName, noName, rEquals, end_, dropArrays]
  · simp [Configuration.rKey, rKeyName, noName, rEquals, next, dropArrays, named, isSpace]

theorem SectionEnd.noComma (ends : SectionEnd rest) : NoComma rest := by
  intro first head
  obtain end_ | ⟨c, behind, _, next⟩ := ends
  · rw [end_] at head
    cases head
  · rw [next] at head
    cases head
    decide

theorem SectionEnd.not_spanFollows (ends : SectionEnd rest) : ¬SpanFollows rest := by
  intro span
  obtain ⟨number, minus, _⟩ := span
  obtain end_ | ⟨c, behind, _, next⟩ := ends
  · cases end_.symm.trans minus
  · cases next.symm.trans minus

theorem SectionEnd.precedes (ends : SectionEnd rest) (line : Line) : line.Precedes casts rest := by
  cases line with
  | single key => exact fun span => ends.not_spanFollows span.2
  | array elements => exact ends.rString

/-! ### The next line -/

theorem Line.noComma_show (wellFormed : next.WellFormed) (rest : Text) : NoComma (next.show_ casts ++ rest) := by
  by_cases named : next.name = []
  · rw [Line.show_, named]
    exact next.noComma_body rest
  · intro c head
    have plain := Line.plain wellFormed named
    rw [Line.show_, List.append_assoc, plain.skip, List.head?_append_of_ne_nil _ named] at head
    exact (plain.plain c (List.mem_of_mem_head? head)).notComma

theorem Line.body_cons (casts : Casts) (line : Line) : ∃ c behind, line.body casts = c :: behind ∧ c.isDigit = false := by
  cases line with
  | single key => exact ⟨' ', _, rfl, by decide⟩
  | array elements => exact ⟨'[', _, rfl, by decide⟩

theorem Line.longP_body (casts : Casts) (line : Line) (rest : Text) : longP (skip false (line.body casts ++ rest)) = none := by
  obtain ⟨behind, skipped⟩ | ⟨behind, skipped⟩ := line.skip_body casts rest
  · simp [skipped, longP, integerP, dropSign]
  · simp [skipped, longP, integerP, dropSign]

theorem Line.spanFollows_show (wellFormed : next.WellFormed) :
    SpanFollows (next.show_ casts ++ rest) ↔ endsSpan next.name = true := by
  have shown : next.show_ casts ++ rest = next.name ++ (next.body casts ++ rest) := List.append_assoc _ _ _
  rw [shown]
  have chars := wellFormed.name
  cases isName : next.name with
  | nil =>
    obtain ⟨behind, skipped⟩ | ⟨behind, skipped⟩ := next.skip_body casts rest
    · simp [SpanFollows, skipped, endsSpan]
    · simp [SpanFollows, skipped, endsSpan]
  | cons first name =>
    rw [isName] at chars
    have plain := fun c member => plain_of (nameChar_plain (chars c member))
    have skipped := skip_plain (plain first List.mem_cons_self) (name ++ (next.body casts ++ rest))
    have number : (longP (skip false (name ++ (next.body casts ++ rest)))).isSome = (longP name).isSome := by
      by_cases nothing : name = []
      · rw [nothing, List.nil_append, Line.longP_body]
        rfl
      · have word : PlainWord name := ⟨nothing, fun c member => plain c (List.mem_cons_of_mem first member)⟩
        obtain ⟨c, behind, isBody, notDigit⟩ := next.body_cons casts
        rw [word.skip, isBody, List.cons_append, longP_append nothing _ notDigit, Option.isSome_map]
    simp only [SpanFollows, List.cons_append, skipped, endsSpan, List.head?_cons, List.tail_cons, Bool.and_eq_true,
      decide_eq_true_eq, Option.some.injEq, List.cons.injEq]
    constructor
    · intro span
      obtain ⟨_, ⟨minus, rfl⟩, isNumber⟩ := span
      exact ⟨minus, number ▸ isNumber⟩
    · intro span
      exact ⟨_, ⟨span.1, rfl⟩, number.symm ▸ span.2⟩

theorem Line.Follows.precedes (follows : line.Follows casts next) (wellFormed : next.WellFormed) (rest : Text) :
    line.Precedes casts (next.show_ casts ++ rest) := by
  cases line with
  | single key => exact fun span => follows ⟨span.1, (Line.spanFollows_show wellFormed).mp span.2⟩
  | array elements => exact follows.elim

/-! ### All lines of a section -/

theorem noComma_lines (ends : SectionEnd rest) (wellFormed : ∀ line ∈ lines, line.WellFormed) :
    NoComma (lines.flatMap (Line.show_ casts) ++ rest) := by
  cases lines with
  | nil => exact ends.noComma
  | cons next lines =>
    rw [List.flatMap_cons, List.append_assoc]
    exact Line.noComma_show (wellFormed next List.mem_cons_self) _

theorem precedes_lines (ends : SectionEnd rest) (wellFormed : ∀ line ∈ lines, line.WellFormed)
    (chain : (line :: lines).IsChain (Line.Follows casts)) :
    line.Precedes casts (lines.flatMap (Line.show_ casts) ++ rest) := by
  cases lines with
  | nil => exact ends.precedes line
  | cons next lines =>
    rw [List.flatMap_cons, List.append_assoc]
    exact (List.isChain_cons_cons.mp chain).1.precedes (wellFormed next List.mem_cons_self) _

theorem rKeys_lines (ends : SectionEnd rest) (wellFormed : ∀ line ∈ lines, line.WellFormed)
    (named : ∀ line ∈ lines, line.name ≠ []) (chain : lines.IsChain (Line.Follows casts)) (fuel : Nat)
    (enough : lines.length ≤ fuel) (same : skip false text = skip false (lines.flatMap (Line.show_ casts) ++ rest)) :
    (rKeys fuel text).1 = lines.map (Line.node casts) ∧ skip false (rKeys fuel text).2 = skip false rest := by
  induction lines generalizing fuel text with
  | nil =>
    cases fuel with
    | zero => exact ⟨rfl, same⟩
    | succ fuel =>
      have stops : rKey text = none := (rKey_congr same).trans ends.rKey
      simp only [rKeys, stops]
      exact ⟨rfl, same⟩
  | cons line lines ih =>
    obtain ⟨fuel, rfl⟩ := Nat.exists_eq_add_of_le' (Nat.le_trans (Nat.le_add_left 1 lines.length) enough)
    have others : ∀ other ∈ lines, other.WellFormed := fun other member => wellFormed other (List.mem_cons_of_mem line member)
    have read : rKey text = some (line.node casts, '\n' :: (lines.flatMap (Line.show_ casts) ++ rest)) := by
      rw [rKey_congr same, List.flatMap_cons, List.append_assoc]
      exact Line.rKey_node (wellFormed line List.mem_cons_self) (named line List.mem_cons_self) (noComma_lines ends others)
        (precedes_lines ends others chain)
    have tail := ih others (fun other member => named other (List.mem_cons_of_mem line member)) (List.IsChain.of_cons chain) fuel
      (Nat.le_of_succ_le_succ enough) (skip_newline false _)
    simp only [rKeys, read, List.map_cons, tail, and_self]

/-- Two lines that may not stand next to each other, or a line without a name, leave a node that fails. -/
theorem rKeys_fails (ends : SectionEnd rest) (wellFormed : ∀ line ∈ lines, line.WellFormed)
    (bad : ¬((∀ line ∈ lines, line.name ≠ []) ∧ lines.IsChain (Line.Follows casts))) (fuel : Nat)
    (enough : lines.length ≤ fuel) (same : skip false text = skip false (lines.flatMap (Line.show_ casts) ++ rest)) :
    ∃ node ∈ (rKeys fuel text).1, node.Fails := by
  induction lines generalizing fuel text with
  | nil => exact absurd ⟨fun line member => absurd member List.not_mem_nil, .nil⟩ bad
  | cons line lines ih =>
    obtain ⟨fuel, rfl⟩ := Nat.exists_eq_add_of_le' (Nat.le_trans (Nat.le_add_left 1 lines.length) enough)
    have lineWellFormed := wellFormed line List.mem_cons_self
    have others : ∀ other ∈ lines, other.WellFormed := fun other member => wellFormed other (List.mem_cons_of_mem line member)
    have read := rKey_congr same
    rw [List.flatMap_cons, List.append_assoc] at read
    by_cases named : line.name = []
    · have unnamed : line.show_ casts = line.body casts := by simp [Line.show_, named]
      rw [unnamed, Line.rKey_body lineWellFormed] at read
      simp only [rKeys, read]
      exact ⟨_, List.mem_cons_self, .inl rfl⟩
    cases lines with
    | nil =>
      refine absurd ⟨?_, .singleton line⟩ bad
      intro other member
      cases List.mem_singleton.mp member
      exact named
    | cons next lines =>
      have nextWellFormed := others next List.mem_cons_self
      by_cases follows : line.Follows casts next
      · rw [Line.rKey_node lineWellFormed named (noComma_lines ends others)] at read
        · obtain ⟨node, member, fails⟩ := ih others (fun good => bad ⟨List.forall_mem_cons.mpr ⟨named, good.1⟩,
            List.isChain_cons_cons.mpr ⟨follows, good.2⟩⟩) fuel (Nat.le_of_succ_le_succ enough) (skip_newline false _)
          simp only [rKeys, read]
          exact ⟨node, List.mem_cons_of_mem _ member, fails⟩
        · rw [List.flatMap_cons, List.append_assoc]
          exact follows.precedes nextWellFormed _
      · rw [List.flatMap_cons, List.append_assoc] at read
        cases line with
        | single key =>
          have span := not_not.mp follows
          rw [Line.rKey_show lineWellFormed named] at read
          simp only [rKeys, read]
          exact ⟨_, List.mem_cons_self, .inr (rValue_span key.value (Line.noComma_show nextWellFormed _)
            ⟨span.1, (Line.spanFollows_show nextWellFormed).mpr span.2⟩)⟩
        | array elements =>
          obtain ⟨node, behind, isNode, nameless⟩ := Line.rKey_array lineWellFormed named nextWellFormed
            (lines.flatMap (Line.show_ casts) ++ rest)
          obtain ⟨fuel, rfl⟩ := Nat.exists_eq_add_of_le' (Nat.le_trans (Nat.le_add_left 1 lines.length)
            (Nat.le_of_succ_le_succ enough))
          rw [isNode] at read
          rw [Line.rKey_body nextWellFormed] at nameless
          simp only [rKeys, read, nameless]
          exact ⟨_, List.mem_cons_of_mem _ List.mem_cons_self, .inl rfl⟩

end Sniper.Configuration

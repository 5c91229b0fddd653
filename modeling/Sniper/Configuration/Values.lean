import Sniper.Configuration.Terminals

/-! How values are parsed as they are written. -/

namespace Sniper.Configuration

variable {casts : Casts} {text rest : Text}

/-! ### Values -/

theorem showValue_cases (casts : Casts) (value : Text) :
    casts.numeric value = true ∧ showValue casts value = value ∧ PlainWord value ∨
      casts.numeric value = false ∧ showValue casts value = quoted value := by
  cases numeric : casts.numeric value with
  | false => exact .inr ⟨rfl, by simp [showValue, numeric, quoted]⟩
  | true =>
    have chars : value ≠ [] ∧ ∀ c ∈ value, numberChar c = true := by
      simp only [Casts.numeric, Bool.or_eq_true, Bool.and_eq_true, decide_eq_true_eq] at numeric
      cases numeric with
      | inl real => exact realP_chars real.1
      | inr long => exact integerP_chars long.1
    exact .inl ⟨rfl, by simp [showValue, numeric], chars.1, fun c member => plain_of (numberChar_plain (chars.2 c member))⟩

theorem rString_showValue (casts : Casts) (value : Text) (outside : ∀ c, rest.head? = some c → tokenChar c = false) :
    rString (showValue casts value ++ rest) = some (showValue casts value, rest) := by
  obtain ⟨_, same, plain⟩ | ⟨_, same⟩ := showValue_cases casts value
  · rw [same]
    exact plain.rString outside
  · rw [same]
    exact rString_quoted value rest

theorem unEscapeText_showValue (value : Text) : unEscapeText (showValue casts value) = value := by
  obtain ⟨_, same, plain⟩ | ⟨_, same⟩ := showValue_cases casts value
  · rw [same]
    exact plain.unEscape
  · rw [same]
    exact unEscapeText_quoted value

theorem dropWhile_showValue (casts : Casts) (value rest : Text) :
    (showValue casts value ++ rest).dropWhile isSpace = showValue casts value ++ rest := by
  obtain ⟨_, same, plain⟩ | ⟨_, same⟩ := showValue_cases casts value
  · rw [same]
    cases value with
    | nil => exact absurd rfl plain.nonempty
    | cons c value => simp [(plain.plain c List.mem_cons_self).notSpace]
  · rw [same]
    simp [quoted, isSpace]

/-! ### Spans -/

theorem takeWhile_append_of_outside {accepts : Char → Bool} {c : Char} (word rest : Text) (outside : accepts c = false) :
    (word ++ c :: rest).takeWhile accepts = word.takeWhile accepts ∧
      (word ++ c :: rest).dropWhile accepts = word.dropWhile accepts ++ c :: rest := by
  induction word with
  | nil => simp [outside]
  | cons first word ih =>
    cases inside : accepts first with
    | true => simp [inside, ih]
    | false => simp [inside]

theorem longP_append {c : Char} {word : Text} (some_ : word ≠ []) (rest : Text) (outside : c.isDigit = false) :
    longP (word ++ c :: rest) = (longP word).map (· ++ c :: rest) := by
  have unsigned : dropSign (word ++ c :: rest) = dropSign word ++ c :: rest := by
    cases word with
    | nil => exact absurd rfl some_
    | cons first word =>
      unfold dropSign
      dsimp only [List.cons_append]
      split <;> rfl
  have head : (word ++ c :: rest).head? = word.head? := List.head?_append_of_ne_nil _ some_
  obtain ⟨taken, dropped⟩ := takeWhile_append_of_outside (dropSign word) rest outside
  unfold longP integerP
  rw [unsigned, head]
  simp only [taken, dropped]
  split_ifs <;> rfl

theorem realP_rest {word : Text} (real : realP word = true) {c : Char} {behind : Text}
    (isRest : (dropSign word).dropWhile Char.isDigit = c :: behind) : c ≠ '-' := by
  intro minus
  subst minus
  simp only [realP, isRest, Bool.and_eq_true] at real
  have exponent := real.2
  simp [fractionP, exponentP] at exponent

def Casts.isLong (casts : Casts) (value : Text) : Bool := casts.numeric value && longP value = some []

def SpanFollows (rest : Text) : Prop := ∃ behind, skip false rest = '-' :: behind ∧ (longP (skip false behind)).isSome

theorem rValueSpan_isSome (value : Text) :
    (rValueSpan (showValue casts value ++ '\n' :: rest)).isSome ↔ casts.isLong value = true ∧ SpanFollows rest := by
  obtain ⟨numeric, same, plain⟩ | ⟨text_, same⟩ := showValue_cases casts value
  · rw [same]
    have parsed := longP_append plain.nonempty rest (show ('\n').isDigit = false by decide)
    unfold rValueSpan
    rw [plain.skip, parsed]
    cases long : longP value with
    | none => simp [Casts.isLong, long]
    | some behind =>
      cases behind with
      | nil =>
        have behind := skip_newline false rest
        simp only [Option.map_some, List.nil_append, Option.bind_eq_bind, Option.bind_some, behind, Casts.isLong, numeric,
          long, decide_true, Bool.and_self, true_and, SpanFollows]
        cases skipped : skip false rest with
        | nil => simp
        | cons c after =>
          by_cases minus : c = '-'
          · simp [minus]
          · simp [minus]
      | cons c behind =>
        have rest_ := (integerP_eq_some.mp long).2
        have notMinus : c ≠ '-' := by
          simp only [Casts.numeric, long, Option.some.injEq, reduceCtorEq, decide_false, Bool.false_and, Bool.or_false,
            Bool.and_eq_true] at numeric
          exact realP_rest numeric.1 rest_
        have member : c ∈ value := by
          cases value with
          | nil => exact absurd rfl plain.nonempty
          | cons first value =>
            have inside : c ∈ dropSign (first :: value) := by
              have sublist := List.dropWhile_sublist Char.isDigit (l := dropSign (first :: value))
              rw [rest_] at sublist
              exact sublist.subset List.mem_cons_self
            unfold dropSign at inside
            dsimp only at inside
            split at inside
            · exact List.mem_cons_of_mem _ inside
            · exact inside
        have skipped := skip_plain (plain.plain c member) (behind ++ '\n' :: rest)
        simp [Casts.isLong, long, skipped, notMinus]
  · rw [same]
    have skipped : skip false (quoted value ++ '\n' :: rest) = quoted value ++ '\n' :: rest := by
      simp [quoted, skip, isSpace]
    have notLong : longP (quoted value ++ '\n' :: rest) = none := by
      simp [quoted, longP, integerP, dropSign]
    unfold rValueSpan
    rw [skipped, notLong]
    simp [Casts.isLong, text_]

end Sniper.Configuration

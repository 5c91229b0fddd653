import Sniper.Configuration.File

/-! What the terminals of the grammar make of names and values as they are written. -/

namespace Sniper.Configuration

variable {c : Char} {text rest word : Text}

/-! ### Characters -/

/-- Letters, digits, `_` and `-`. -/
def nameChar (c : Char) : Bool := c.isAlphanum || c = '_' || c = '-'

def numberChar (c : Char) : Bool := c.isDigit || c = '+' || c = '-' || c = '.' || c = 'e' || c = 'E'

/-- A character that ends nothing and starts neither a quoted string nor a comment. -/
def plainChar (c : Char) : Bool :=
  tokenChar c && !isSpace c && c ≠ '#' && c ≠ '"' && c ≠ '\\' && c ≠ '/' && c ≠ '[' && c ≠ ']' && c ≠ ',' && c ≠ '='

theorem isDigit_lt (digit : c.isDigit = true) : c.toNat < 128 := by
  simp only [Char.isDigit, ge_iff_le, Bool.and_eq_true, decide_eq_true_eq, UInt32.le_iff_toNat_le] at digit
  exact Nat.lt_of_le_of_lt digit.2 (by decide)

theorem isAlphanum_lt (alphanum : c.isAlphanum = true) : c.toNat < 128 := by
  have letterOrDigit : ((c.isUpper || c.isLower) || c.isDigit) = true := alphanum
  rw [Bool.or_eq_true, Bool.or_eq_true] at letterOrDigit
  obtain (upper | lower) | digit := letterOrDigit
  · have bounds : c.val ≥ 'A'.val ∧ c.val ≤ 'Z'.val := of_decide_eq_true upper
    exact Nat.lt_of_le_of_lt (UInt32.le_iff_toNat_le.mp bounds.2) (by decide)
  · have bounds : (decide (c.val ≥ 'a'.val) && decide (c.val ≤ 'z'.val)) = true := lower
    rw [Bool.and_eq_true, decide_eq_true_eq, decide_eq_true_eq] at bounds
    exact Nat.lt_of_le_of_lt (UInt32.le_iff_toNat_le.mp bounds.2) (by decide)
  · exact isDigit_lt digit

theorem of_ascii (property : Char → Bool) (small : c.toNat < 128)
    (all : ∀ code < 128, property (Char.ofNat code) = true) : property c = true := by
  rw [← Char.ofNat_toNat c]
  exact all c.toNat small

theorem nameChar_plain (name : nameChar c = true) : plainChar c = true := by
  have small : c.toNat < 128 := by
    simp only [nameChar, Bool.or_eq_true, decide_eq_true_eq] at name
    obtain (alphanum | underscore) | hyphen := name
    · exact isAlphanum_lt alphanum
    · rw [underscore]
      decide
    · rw [hyphen]
      decide
  have holds : (!nameChar c || plainChar c) = true :=
    of_ascii (fun c => !nameChar c || plainChar c) small (by decide +kernel)
  simpa [name] using holds

theorem numberChar_plain (number : numberChar c = true) : plainChar c = true := by
  have small : c.toNat < 128 := by
    simp only [numberChar, Bool.or_eq_true, decide_eq_true_eq] at number
    obtain ((((digit | plus) | minus) | dot) | lower) | upper := number
    · exact isDigit_lt digit
    · rw [plus]
      decide
    · rw [minus]
      decide
    · rw [dot]
      decide
    · rw [lower]
      decide
    · rw [upper]
      decide
  have holds : (!numberChar c || plainChar c) = true :=
    of_ascii (fun c => !numberChar c || plainChar c) small (by decide +kernel)
  simpa [number] using holds

structure Plain (c : Char) : Prop where
  token : tokenChar c = true
  notSpace : isSpace c = false
  notHash : c ≠ '#'
  notQuote : c ≠ '"'
  notBackslash : c ≠ '\\'
  notSlash : c ≠ '/'
  notOpen : c ≠ '['
  notClose : c ≠ ']'
  notComma : c ≠ ','
  notEquals : c ≠ '='

theorem plain_of (plain : plainChar c = true) : Plain c := by
  simp only [plainChar, Bool.and_eq_true, Bool.not_eq_true', decide_eq_true_eq] at plain
  obtain ⟨⟨⟨⟨⟨⟨⟨⟨⟨token, notSpace⟩, notHash⟩, notQuote⟩, notBackslash⟩, notSlash⟩, notOpen⟩, notClose⟩, notComma⟩, notEquals⟩ :=
    plain
  exact ⟨token, notSpace, notHash, notQuote, notBackslash, notSlash, notOpen, notClose, notComma, notEquals⟩

structure PlainWord (word : Text) : Prop where
  nonempty : word ≠ []
  plain : ∀ c ∈ word, Plain c

/-! ### Words -/

theorem skip_newline (inComment : Bool) (rest : Text) : skip inComment ('\n' :: rest) = skip false rest := by
  cases inComment <;> simp [skip, isSpace]

theorem skip_plain (plain : Plain c) (rest : Text) : skip false (c :: rest) = c :: rest := by
  simp [skip, plain.notSpace, plain.notHash]

theorem PlainWord.skip (plain : PlainWord word) (rest : Text) : skip false (word ++ rest) = word ++ rest := by
  cases word with
  | nil => exact absurd rfl plain.nonempty
  | cons c word => exact skip_plain (plain.plain c List.mem_cons_self) _

theorem takeWhile_word {accepts : Char → Bool} (inside : ∀ c ∈ word, accepts c = true)
    (outside : ∀ c, rest.head? = some c → accepts c = false) :
    (word ++ rest).takeWhile accepts = word ∧ (word ++ rest).dropWhile accepts = rest := by
  rw [List.takeWhile_append_of_pos inside, List.dropWhile_append_of_pos inside]
  cases rest with
  | nil => exact ⟨List.append_nil _, rfl⟩
  | cons c tail =>
    have stops := outside c rfl
    simp [stops]

theorem PlainWord.token (plain : PlainWord word) (outside : ∀ c, rest.head? = some c → tokenChar c = false) :
    token (word ++ rest) = some (word, rest) := by
  obtain ⟨taken, dropped⟩ := takeWhile_word (fun c member => (plain.plain c member).token) outside
  unfold Configuration.token
  simp only [taken, dropped, plain.nonempty, if_false]

theorem PlainWord.confix (plain : PlainWord word) : confix '"' '"' (word ++ rest) = none := by
  cases word with
  | nil => exact absurd rfl plain.nonempty
  | cons c word =>
    have notQuote := (plain.plain c List.mem_cons_self).notQuote
    simp [Configuration.confix, notQuote]

theorem PlainWord.rString (plain : PlainWord word) (outside : ∀ c, rest.head? = some c → tokenChar c = false) :
    rString (word ++ rest) = some (word, rest) := by
  unfold Configuration.rString
  rw [plain.skip rest, plain.confix]
  exact plain.token outside

/-! ### Quoted strings -/

theorem confixBody_escape (text rest : Text) :
    confixBody '"' false (escapeText text ++ '"' :: rest) = some (escapeText text, rest) := by
  induction text with
  | nil => simp [escapeText, confixBody]
  | cons c text ih =>
    have body : escapeText (c :: text) = (if c = '\\' || c = '"' then ['\\', c] else [c]) ++ escapeText text := rfl
    rw [body]
    split
    case isTrue escaped =>
      simp only [Bool.or_eq_true, decide_eq_true_eq] at escaped
      have notHex : ¬(c = 'x' ∨ c = 'X') := by
        cases escaped with
        | inl backslash => simp [backslash]
        | inr quote => simp [quote]
      simp [confixBody, notHex, ih]
    case isFalse unescaped =>
      simp only [Bool.or_eq_true, decide_eq_true_eq, not_or] at unescaped
      simp [confixBody, unescaped, ih]

def quoted (text : Text) : Text := '"' :: escapeText text ++ ['"']

theorem rString_quoted (text rest : Text) : rString (quoted text ++ rest) = some (quoted text, rest) := by
  have skipped : skip false (quoted text ++ rest) = quoted text ++ rest := by
    simp [quoted, skip, isSpace]
  have body := confixBody_escape text rest
  unfold rString
  rw [skipped]
  simp [quoted, confix, body]

theorem unEscape_escapeText (text : Text) : unEscape false (escapeText text) = text := by
  induction text with
  | nil => rfl
  | cons c text ih =>
    have body : escapeText (c :: text) = (if c = '\\' || c = '"' then ['\\', c] else [c]) ++ escapeText text := rfl
    rw [body]
    split
    case isTrue escaped =>
      simp only [Bool.or_eq_true, decide_eq_true_eq] at escaped
      have same : unEscapeChar c = c := by
        cases escaped with
        | inl backslash =>
          rw [backslash]
          decide
        | inr quote =>
          rw [quote]
          decide
      simp [unEscape, same, ih]
    case isFalse unescaped =>
      simp only [Bool.or_eq_true, decide_eq_true_eq, not_or] at unescaped
      simp [unEscape, unescaped.1, ih]

theorem unEscapeText_quoted (text : Text) : unEscapeText (quoted text) = text := by
  have inner : (quoted text).tail.dropLast = escapeText text := by simp [quoted]
  have ends : 2 ≤ (quoted text).length ∧ (quoted text).head? = some '"' ∧ (quoted text).getLast? = some '"' := by
    refine ⟨by simp [quoted], rfl, ?_⟩
    exact List.getLast?_concat
  unfold unEscapeText
  rw [if_pos ends, inner]
  exact unEscape_escapeText text

theorem PlainWord.unEscape (plain : PlainWord word) : unEscapeText word = word := by
  have kept : ∀ word : Text, (∀ c ∈ word, Plain c) → Configuration.unEscape false word = word := by
    intro word
    induction word with
    | nil => exact fun _ => rfl
    | cons c word ih =>
      intro all
      have notBackslash := (all c List.mem_cons_self).notBackslash
      simp [Configuration.unEscape, notBackslash, ih fun other member => all other (List.mem_cons_of_mem c member)]
  have unquoted : ¬(2 ≤ word.length ∧ word.head? = some '"' ∧ word.getLast? = some '"') := by
    intro ends
    have member := List.mem_of_mem_head? (Option.mem_def.mpr ends.2.1)
    exact (plain.plain _ member).notQuote rfl
  unfold unEscapeText
  rw [if_neg unquoted]
  exact kept word plain.plain

/-! ### Numbers -/

theorem dropSign_mem (member : c ∈ text) : c ∈ dropSign text ∨ c = '-' ∨ c = '+' := by
  cases text with
  | nil => cases member
  | cons first rest =>
    unfold dropSign
    by_cases sign : (first = '-' || first = '+') = true
    · simp only [sign, if_true]
      simp only [Bool.or_eq_true, decide_eq_true_eq] at sign
      cases List.mem_cons.mp member with
      | inl same => exact .inr (same ▸ sign)
      | inr inRest => exact .inl inRest
    · simp only [sign]
      exact .inl member

theorem mem_takeWhile_or_dropWhile (accepts : Char → Bool) (member : c ∈ text) :
    accepts c = true ∨ c ∈ text.dropWhile accepts := by
  rw [← List.takeWhile_append_dropWhile (p := accepts) (l := text)] at member
  cases List.mem_append.mp member with
  | inl taken => exact .inl (List.all_eq_true.mp List.all_takeWhile c taken)
  | inr dropped => exact .inr dropped

theorem numberChar_digit (digit : c.isDigit = true) : numberChar c = true := by
  simp [numberChar, digit]

theorem numberChar_sign (sign : c = '-' ∨ c = '+') : numberChar c = true := by
  cases sign with
  | inl minus => simp [numberChar, minus]
  | inr plus => simp [numberChar, plus]

theorem integerP_eq_some {bits : Nat} :
    integerP bits text = some rest ↔
      ((dropSign text).takeWhile Char.isDigit ≠ [] ∧
        digitsValue ((dropSign text).takeWhile Char.isDigit) ≤
          if text.head? = some '-' then 2 ^ (bits - 1) else 2 ^ (bits - 1) - 1) ∧
      (dropSign text).dropWhile Char.isDigit = rest := by
  simp only [integerP, Bool.or_eq_true, decide_eq_true_eq]
  generalize (if text.head? = some '-' then 2 ^ (bits - 1) else 2 ^ (bits - 1) - 1) = most
  rw [← Nat.not_lt, ← not_or]
  by_cases fails : (dropSign text).takeWhile Char.isDigit = [] ∨
    most < digitsValue ((dropSign text).takeWhile Char.isDigit)
  · simp only [fails, if_true, not_true_eq_false, false_and, reduceCtorEq]
  · simp only [fails, if_false, not_false_eq_true, true_and, Option.some.injEq]

theorem integerP_chars {bits : Nat} (whole : integerP bits text = some []) : text ≠ [] ∧ ∀ c ∈ text, numberChar c = true := by
  obtain ⟨some_, nothing⟩ := integerP_eq_some.mp whole
  constructor
  · intro none_
    subst none_
    exact absurd rfl some_.1
  · intro c member
    cases dropSign_mem member with
    | inl inRest =>
      cases mem_takeWhile_or_dropWhile Char.isDigit inRest with
      | inl digit => exact numberChar_digit digit
      | inr behind =>
        rw [nothing] at behind
        cases behind
    | inr sign => exact numberChar_sign sign

theorem exponentP_chars (exponent : exponentP text = true) (member : c ∈ text) : numberChar c = true := by
  cases text with
  | nil => cases member
  | cons e rest =>
    simp only [exponentP, Bool.and_eq_true, Bool.or_eq_true, decide_eq_true_eq] at exponent
    cases List.mem_cons.mp member with
    | inl same =>
      cases exponent.1 with
      | inl lower => simp [numberChar, same, lower]
      | inr upper => simp [numberChar, same, upper]
    | inr inRest => exact (integerP_chars exponent.2).2 c inRest

theorem fractionP_mem (member : c ∈ text) : numberChar c = true ∨ c ∈ (fractionP text).2 := by
  unfold fractionP
  split
  case isTrue dot =>
    obtain ⟨tail, isDot⟩ := List.head?_eq_some_iff.mp dot
    subst isDot
    cases List.mem_cons.mp member with
    | inl same => simp [numberChar, same]
    | inr inTail =>
      cases mem_takeWhile_or_dropWhile Char.isDigit inTail with
      | inl digit => exact .inl (numberChar_digit digit)
      | inr behind => exact .inr behind
  case isFalse => exact .inr member

theorem realP_chars (whole : realP text = true) : text ≠ [] ∧ ∀ c ∈ text, numberChar c = true := by
  simp only [realP, Bool.and_eq_true] at whole
  constructor
  · intro none_
    subst none_
    exact absurd whole.1 (by decide)
  · intro c member
    cases dropSign_mem member with
    | inr sign => exact numberChar_sign sign
    | inl inNumber =>
      cases mem_takeWhile_or_dropWhile Char.isDigit inNumber with
      | inl digit => exact numberChar_digit digit
      | inr inRest =>
        cases fractionP_mem inRest with
        | inl number => exact number
        | inr behind => exact exponentP_chars whole.2 behind

end Sniper.Configuration

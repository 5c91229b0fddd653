import Sniper.Configuration.Section
import Mathlib.Algebra.Ring.Nat

/-! The grammar `config_parser`, with the semantics of Boost.Spirit: ordered choice, greedy repetition, and white space
and comments skipped outside lexemes.

A rule returns what it matches and the text behind it.  Matches of length zero leave no node in the tree. -/

namespace Sniper.Configuration

/-! ### Terminals -/

/-- `space_p` -/
def isSpace (c : Char) : Bool := c = ' ' || ('\t' ≤ c && c ≤ '\r')

/-- The skipper `space_p | comment_p("#")`, from within a comment or not. -/
def skip : (inComment : Bool) → Text → Text
  | _, [] => []
  | true, c :: rest => skip (c ≠ '\n' && c ≠ '\r') rest
  | false, c :: rest => if isSpace c then skip false rest else if c = '#' then skip true rest else c :: rest

/-- `alnum_p | (punct_p - ch_p('=') - ch_p(',') - ch_p('[') - ch_p(']'))` -/
def tokenChar (c : Char) : Bool := '!' ≤ c && c ≤ '~' && c ≠ '=' && c ≠ ',' && c ≠ '[' && c ≠ ']'

def isHexDigit (c : Char) : Bool := c.isDigit || ('a' ≤ c && c ≤ 'f') || ('A' ≤ c && c ≤ 'F')

/-- One or two hexadecimal digits of a character. -/
def startsHex : Text → Bool
  | [] => false
  | [c] => isHexDigit c
  | c :: c' :: _ => isHexDigit c && (!isHexDigit c' || ('0' ≤ c && c ≤ '7'))

/-- `*lex_escape_ch_p` up to the closing character of a `confix_p`, behind a backslash or not.  A hexadecimal escape needs
its digits. -/
def confixBody (close : Char) : (escaped : Bool) → Text → Option (Text × Text)
  | _, [] => none
  | true, c :: rest =>
    if (c = 'x' || c = 'X') && !startsHex rest then none
    else (confixBody close false rest).map fun (body, after) => (c :: body, after)
  | false, c :: rest =>
    if c = close then some ([], rest)
    else (confixBody close (c = '\\') rest).map fun (body, after) => (c :: body, after)

/-- `confix_p`, as one node with the characters around it. -/
def confix (first close : Char) (text : Text) : Option (Text × Text) :=
  match text with
  | [] => none
  | c :: rest =>
    if c = first then (confixBody close false rest).map fun (body, after) => (first :: body ++ [close], after) else none

def token (text : Text) : Option (Text × Text) :=
  let word := text.takeWhile tokenChar
  if word = [] then none else some (word, text.dropWhile tokenChar)

/-- `r_string`: "Strings and names may either be "quoted" or not." -/
def rString (text : Text) : Option (Text × Text) :=
  match confix '"' '"' (skip false text) with
  | some found => some found
  | none => token (skip false text)

/-- A sign of a number, with what is behind it. -/
def dropSign (text : Text) : Text :=
  match text with
  | [] => []
  | c :: rest => if c = '-' || c = '+' then rest else c :: rest

def digitsValue (digits : Text) : Nat := digits.foldl (fun value c => 10 * value + (c.toNat - '0'.toNat)) 0

/-- A signed decimal number of so many bits, `int_p` and `long_p`. -/
def integerP (bits : Nat) (text : Text) : Option Text :=
  let digits := (dropSign text).takeWhile Char.isDigit
  let most := if text.head? = some '-' then 2 ^ (bits - 1) else 2 ^ (bits - 1) - 1
  if digits = [] || most < digitsValue digits then none else some ((dropSign text).dropWhile Char.isDigit)

def longP : Text → Option Text := integerP 64

/-- The digits behind a decimal point, if there is one, and what follows. -/
def fractionP (text : Text) : Text × Text :=
  if text.head? = some '.' then (text.tail.takeWhile Char.isDigit, text.tail.dropWhile Char.isDigit) else ([], text)

/-- Nothing, or an exponent. -/
def exponentP (text : Text) : Bool :=
  match text with
  | [] => true
  | c :: exponent => (c = 'e' || c = 'E') && integerP 32 exponent = some []

/-- Whether `real_p` matches the whole text. -/
def realP (text : Text) : Bool :=
  let whole := (dropSign text).takeWhile Char.isDigit
  let (fraction, rest) := fractionP ((dropSign text).dropWhile Char.isDigit)
  !(whole = [] && fraction = []) && exponentP rest

/-! ### Values -/

/-- The children of a `keyValueArrayID` node. -/
inductive Item where
  | separator
  | value (text : Text)
deriving DecidableEq, Repr

inductive Data where
  | empty
  | value (text : Text)
  | array (items : List Item)
  | span
deriving DecidableEq, Repr

def rValueSingleOrEmpty (text : Text) : List Item × Text :=
  match rString text with
  | some (value, rest) => ([.value value], rest)
  | none => ([], text)

/-- `*(access_node_d[ ch_p(',') ][Name(keySeparatorID)] >> r_value_single_or_empty)` -/
def separated : (fuel : Nat) → Text → List Item × Text
  | 0, text => ([], text)
  | fuel + 1, text =>
    match skip false text with
    | [] => ([], text)
    | c :: rest =>
      if c = ',' then
        let (value, rest) := rValueSingleOrEmpty rest
        let (items, rest) := separated fuel rest
        (.separator :: (value ++ items), rest)
      else ([], text)

/-- `r_value_array2` -/
def rValueArray (text : Text) : Option (List Item × Text) :=
  let (first, rest) := rValueSingleOrEmpty text
  let (items, rest) := separated rest.length rest
  if items = [] then none else some (first ++ items, rest)

def rValueSpan (text : Text) : Option Text := do
  match skip false (← longP (skip false text)) with
  | [] => none
  | c :: rest => if c = '-' then longP (skip false rest) else none

/-- `!r_value` -/
def rValue (text : Text) : Data × Text :=
  match rValueArray text with
  | some (items, rest) => (.array items, rest)
  | none =>
    match rValueSpan text with
    | some rest => (.span, rest)
    | none =>
      match rString text with
      | some (value, rest) => (.value value, rest)
      | none => (.empty, text)

/-! ### Keys and sections -/

/-- `*r_key_array` -/
def dropArrays : Text → Text
  | [] => []
  | [c] => [c]
  | c :: c' :: rest => if c = '[' && c' = ']' then dropArrays rest else c :: c' :: rest

/-- `lexeme_d[ no_node_d[ *r_key_array ] >> no_node_d[ *space_p ] >> root_node_d[ ch_p('=') ] >> no_node_d[ *space_p ] ]` -/
def rEquals (text : Text) : Option Text :=
  match (dropArrays (skip false text)).dropWhile isSpace with
  | [] => none
  | c :: rest => if c = '=' then some (rest.dropWhile isSpace) else none

structure KeyNode where
  name : Option Text
  data : Data
deriving DecidableEq, Repr

/-- `!r_string` -/
def rKeyName (text : Text) : Option Text × Text :=
  match rString text with
  | some (name, rest) => (some name, rest)
  | none => (none, text)

def rKey (text : Text) : Option (KeyNode × Text) :=
  let (name, rest) := rKeyName text
  (rEquals rest).map fun rest =>
    let (data, rest) := rValue rest
    (⟨name, data⟩, rest)

/-- `*r_key_node` -/
def rKeys : (fuel : Nat) → Text → List KeyNode × Text
  | 0, text => ([], text)
  | fuel + 1, text =>
    match rKey text with
    | none => ([], text)
    | some (key, rest) =>
      let (keys, rest) := rKeys fuel rest
      (key :: keys, rest)

structure SectionNode where
  /-- With the brackets around it. -/
  name : Text
  keys : List KeyNode
deriving DecidableEq, Repr

def rSection (text : Text) : Option (SectionNode × Text) :=
  (confix '[' ']' (skip false text)).map fun (name, rest) =>
    let (keys, rest) := rKeys rest.length rest
    (⟨name, keys⟩, rest)

def rConfig : (fuel : Nat) → Text → List SectionNode × Text
  | 0, text => ([], text)
  | fuel + 1, text =>
    match rSection text with
    | none => ([], text)
    | some (node, rest) =>
      let (nodes, rest) := rConfig fuel rest
      (node :: nodes, rest)

/-- `r_file`, if it matches the whole text. -/
def rFile (text : Text) : Option (List SectionNode) :=
  let (nodes, rest) := rConfig text.length text
  if skip false rest = [] then some nodes else none

end Sniper.Configuration

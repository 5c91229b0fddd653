import Sniper.Configuration.Grammar

/-! `ConfigFile`: a tree is written as a text, and a text is read into a tree. -/

namespace Sniper.Configuration

/-! ### Reading -/

def unEscapeChar (c : Char) : Char :=
  if c = 'b' then '\x08' else if c = 'r' then '\r' else if c = 'f' then '\x0c' else if c = 't' then '\t'
  else if c = 'n' then '\n' else c

def unEscape : (backslash : Bool) → Text → Text
  | _, [] => []
  | true, c :: rest => unEscapeChar c :: unEscape false rest
  | false, c :: rest => if c = '\\' then unEscape true rest else c :: unEscape false rest

/-- `ConfigFile::unEscapeText`, which removes the quotes around the text. -/
def unEscapeText (source : Text) : Text :=
  if 2 ≤ source.length ∧ source.head? = some '"' ∧ source.getLast? = some '"' then unEscape false source.tail.dropLast
  else unEscape false source

/-- The children of a `keyValueArrayID` node: an element that is empty is left out. -/
def evalItems (caseSensitive : Bool) (name : Text) : List Item → (index : Nat) → Contents → Contents
  | [], _, contents => contents
  | .separator :: items, index, contents => evalItems caseSensitive name items (index + 1) contents
  | .value text :: items, index, contents =>
    let value := unEscapeText text
    evalItems caseSensitive name items index
      (if value = [] then contents else contents.addKey caseSensitive name value (some index))

/-- A `keyID` node in `ConfigFile::evalTree`.  Without a name its first child, if it has one, is the value. -/
def evalKey (caseSensitive : Bool) (contents : Contents) (node : KeyNode) : Except Fault Contents :=
  match node.name with
  | none => if node.data = .empty then .error .keyChildren else .error .keyNameExpected
  | some keyName =>
    let name := unEscapeText keyName
    match node.data with
    | .empty => .ok (contents.addKey caseSensitive name [] none)
    | .value text => .ok (contents.addKey caseSensitive name (unEscapeText text) none)
    | .array items => .ok (evalItems caseSensitive name items 0 contents)
    | .span => .error .unexpectedNode

/-- A `sectionNameID` node in `ConfigFile::evalTree`. -/
def evalSection (caseSensitive : Bool) (config : Config) (node : SectionNode) : Except Fault Config := do
  let path := (node.name.tail.dropLast).splitOn '/'
  let contents ← node.keys.foldlM (evalKey caseSensitive) (config.contentsAt (path.map (fold caseSensitive)))
  return { config with sections := config.sections.setContents caseSensitive contents path }

def loadConfigFromString (caseSensitive : Bool) (config : Config) (text : Text) : Except Fault Config :=
  match rFile text with
  | none => .error .parserError
  | some nodes => nodes.foldlM (evalSection caseSensitive) config

/-! ### Writing -/

def escapeText (source : Text) : Text := source.flatMap fun c => if c = '\\' || c = '"' then ['\\', c] else [c]

/-- `boost::lexical_cast` to `double` and to `SInt64`, as far as it fails. -/
structure Casts where
  float : Text → Bool
  int : Text → Bool

/-- `getFloatValid() || getIntValid()` of a key with this value. -/
def Casts.numeric (casts : Casts) (value : Text) : Bool :=
  (realP value && casts.float value) || (longP value = some [] && casts.int value)

def showName (name : Text) : Text :=
  if ' ' ∈ name ∨ '"' ∈ name then '"' :: escapeText name ++ ['"'] else name

def showValue (casts : Casts) (value : Text) : Text :=
  if casts.numeric value then value else '"' :: escapeText value ++ ['"']

def showKey (casts : Casts) (key : Key) : Text :=
  showName key.name ++ [' ', '=', ' '] ++ showValue casts key.value ++ ['\n']

/-- The first element that is there has the name. -/
def arrayName (array : List (Option Key)) : Text :=
  match array.findSome? id with
  | some key => showName key.name
  | none => []

def showElement (casts : Casts) (element : Option Key) : Text :=
  match element with
  | some key => showValue casts key.value ++ [',']
  | none => [',']

def showArray (casts : Casts) (array : List (Option Key)) : Text :=
  arrayName array ++ ['[', ']', ' ', '=', ' '] ++ array.flatMap (showElement casts) ++ ['\n']

def showContents (casts : Casts) (contents : Contents) : Text :=
  (contents.keys.entries.flatMap fun entry => showKey casts entry.2) ++
    (contents.arrayKeys.entries.flatMap fun entry => showArray casts entry.2) ++ ['\n']

/-- `Section::getFullPath` of a subsection. -/
def fullPath (parent : Option Text) (name : Text) : Text :=
  match parent with
  | none => name
  | some path => path ++ '/' :: name

/-- `ConfigFile::SaveTreeAs` for the subsections of the root or of a path. -/
def saveSections (casts : Casts) (parent : Option Text) : SectionList → Text
  | .nil => []
  | .cons _ name contents subSections others =>
    let path := fullPath parent name
    '[' :: path ++ [']', '\n'] ++ showContents casts contents ++ saveSections casts (some path) subSections ++
      saveSections casts parent others

def saveTreeAs (casts : Casts) (config : Config) : Text :=
  showContents casts config.contents ++ saveSections casts none config.sections

end Sniper.Configuration

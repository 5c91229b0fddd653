import Sniper.Library.OrderedMap
import Mathlib.Data.Char
import Mathlib.Data.List.Lex

/-! `Section`, `Key` and the tree of a `Config`.

The maps of a section keep their keys in the order of the strings. -/

namespace Sniper.Configuration

abbrev Text := List Char

inductive Fault where
  /-- "Configuration value %s not found." -/
  | notFound
  /-- The key of a map that has none is read. -/
  | nullKey
  /-- `parserError(info.stop)` -/
  | parserError
  /-- "Internal parser error: Expected one or two keyID children, not " -/
  | keyChildren
  /-- "Internal parser error: Expected the first entry to be a keyNameID" -/
  | keyNameExpected
  /-- "Internal parser error: Unexpected node type" -/
  | unexpectedNode
deriving DecidableEq, Repr

structure Key where
  name : Text
  value : Text
deriving DecidableEq, Repr

/-- `boost::to_lower`, unless the case counts. -/
def fold (caseSensitive : Bool) (name : Text) : Text := if caseSensitive then name else name.map Char.toLower

structure Contents where
  /-- The default values. -/
  keys : OrderedMap Text Key
  /-- The overriding values. -/
  arrayKeys : OrderedMap Text (List (Option Key))

namespace Contents

def empty : Contents := ⟨.empty, .empty⟩

def element (contents : Contents) (iname : Text) (index : Nat) : Option Key :=
  (contents.arrayKeys.find iname).bind fun array => array[index]?.join

/-- `Section::addKeyInternal`.  No index is `UINT64_MAX`. -/
def addKey (caseSensitive : Bool) (contents : Contents) (name value : Text) (index : Option Nat) : Contents :=
  let iname := fold caseSensitive name
  match index with
  | none => ⟨contents.keys.insert iname ⟨name, value⟩, contents.arrayKeys.erase iname⟩
  | some index =>
    let array := (contents.arrayKeys.find iname).getD []
    let resized := array ++ List.replicate (index + 1 - array.length) none
    { contents with arrayKeys := contents.arrayKeys.insert iname (resized.set index (some ⟨name, value⟩)) }

def hasKey (contents : Contents) (iname : Text) (index : Option Nat) : Bool :=
  match index with
  | none => (contents.keys.find iname).isSome || (contents.arrayKeys.find iname).isSome
  | some index => (contents.element iname index).isSome || (contents.keys.find iname).isSome

/-- The default value of a name, or a null pointer. -/
def default (contents : Contents) (iname : Text) : Except Fault Key :=
  match contents.keys.find iname with
  | some key => .ok key
  | none => .error .nullKey

/-- `Section::getKey` where `Section::hasKey` holds. -/
def getKey (contents : Contents) (iname : Text) (index : Option Nat) : Except Fault Key :=
  if contents.hasKey iname index then
    match index with
    | none => contents.default iname
    | some index =>
      match contents.element iname index with
      | some key => .ok key
      | none => contents.default iname
  else .error .notFound

end Contents

/-- `SectionList`: each section with its name in the map, its own name, its keys and its subsections. -/
inductive SectionList where
  | nil
  | cons (iname name : Text) (contents : Contents) (subSections others : SectionList)

namespace SectionList

def find (iname : Text) : SectionList → Option (Contents × SectionList)
  | nil => none
  | cons iname' _ contents subSections others => if iname' = iname then some (contents, subSections) else others.find iname

/-- `Section::addSubsection` for a name that the map does not have. -/
def addSubsection (iname name : Text) : SectionList → SectionList
  | nil => cons iname name .empty nil nil
  | cons iname' name' contents subSections others =>
    if iname < iname' then cons iname name .empty nil (cons iname' name' contents subSections others)
    else cons iname' name' contents subSections (others.addSubsection iname name)

def modify (iname : Text) (change : Contents × SectionList → Contents × SectionList) : SectionList → SectionList
  | nil => nil
  | cons iname' name contents subSections others =>
    if iname' = iname then
      let changed := change (contents, subSections)
      cons iname' name changed.1 changed.2 others
    else cons iname' name contents subSections (others.modify iname change)

/-- The keys of the section at a path; a section that is not there has none. -/
def contentsAt : List Text → SectionList → Contents
  | [], _ => .empty
  | iname :: rest, sections =>
    match sections.find iname with
    | none => .empty
    | some (contents, subSections) => if rest = [] then contents else contentsAt rest subSections

/-- New keys for the section that `Config::getSection_unsafe` finds or adds at a path. -/
def setContents (caseSensitive : Bool) (new : Contents) : List Text → SectionList → SectionList
  | [], sections => sections
  | name :: rest, sections =>
    let iname := fold caseSensitive name
    let sections := if (sections.find iname).isSome then sections else sections.addSubsection iname name
    sections.modify iname fun found =>
      if rest = [] then (new, found.2) else (found.1, setContents caseSensitive new rest found.2)

end SectionList

/-- The tree below `m_root`. -/
structure Config where
  contents : Contents
  sections : SectionList

namespace Config

def empty : Config := ⟨.empty, .nil⟩

def contentsAt (config : Config) (path : List Text) : Contents :=
  if path = [] then config.contents else config.sections.contentsAt path

/-- `Config::getKey`: the last element of the path is the name of the key. -/
def getKey (caseSensitive : Bool) (config : Config) (path : Text) (index : Option Nat) : Except Fault Key :=
  let pathElements := (path.splitOn '/').map (fold caseSensitive)
  (config.contentsAt pathElements.dropLast).getKey (pathElements.getLastD []) index

/-- `Config::addKeyInternal` -/
def addKey (caseSensitive : Bool) (config : Config) (path value : Text) (index : Option Nat) : Config :=
  let pathElements := path.splitOn '/'
  let name := pathElements.getLastD []
  let section_ := pathElements.dropLast
  if section_ = [] then { config with contents := config.contents.addKey caseSensitive name value index }
  else
    let contents := config.contentsAt (section_.map (fold caseSensitive))
    { config with
      sections := config.sections.setContents caseSensitive (contents.addKey caseSensitive name value index) section_ }

end Config

end Sniper.Configuration

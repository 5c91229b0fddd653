import Sniper.Configuration.Section
import Sniper.Library.Overrides
import Sniper.Library.Machine

/-! Lookups in a `Config` while it is in use: what `getKey` and `hasKey` leave behind in the maps of the sections. -/

namespace Sniper.Configuration.Lookups

/-- The keys of a `Section`; the pointer to a key may be null. -/
structure Keys where
  keys : OrderedMap Text (Option Key)
  arrayKeys : OrderedMap Text (List (Option Key))

namespace Keys

def empty : Keys := ⟨.empty, .empty⟩

/-- The override of an index that is there and not null. -/
def element (keys : Keys) (iname : Text) (index : Nat) : Option Key :=
  (keys.arrayKeys.find iname).bind fun array => array[index]?.join

/-- `Section::addKeyInternal`.  No index is `UINT64_MAX`. -/
def addKey (caseSensitive : Bool) (name value : Text) (index : Option Nat) (keys : Keys) : Keys :=
  let iname := fold caseSensitive name
  match index with
  | none => ⟨(keys.keys.erase iname).insert iname (some ⟨name, value⟩), keys.arrayKeys.erase iname⟩
  | some index =>
    let array := (keys.arrayKeys.find iname).getD []
    let resized := array ++ List.replicate (index + 1 - array.length) none
    { keys with arrayKeys := keys.arrayKeys.insert iname (resized.set index (some ⟨name, value⟩)) }

/-- `m_keys[iname]`: a name that is missing is inserted, with a null pointer. -/
def indexKeys (iname : Text) (keys : Keys) : Option Key × Keys :=
  match keys.keys.find iname with
  | some pointer => (pointer, keys)
  | none => (none, { keys with keys := keys.keys.insert iname none })

def getKey (caseSensitive : Bool) (name : Text) (index : Option Nat) (keys : Keys) : Option Key × Keys :=
  let iname := fold caseSensitive name
  match index with
  | none => keys.indexKeys iname
  | some index =>
    match keys.element iname index with
    | some key => (some key, keys)
    | none => keys.indexKeys iname

def hasKey (caseSensitive : Bool) (name : Text) (index : Option Nat) (keys : Keys) : Bool :=
  let iname := fold caseSensitive name
  match index with
  | none => (keys.keys.find iname).isSome || (keys.arrayKeys.find iname).isSome
  | some index => (keys.element iname index).isSome || (keys.keys.find iname).isSome

end Keys

/-- A `Section` with its subsections by their names in the map. -/
inductive Section where
  | mk (keys : Keys) (subSections : Text → Option Section)

namespace Section

def empty : Section := .mk .empty fun _ => none

/-- `Config::getSection_unsafe`, and what is then done with the keys of the section.  The sections that are not there are
added on the way. -/
def getSection {α : Type} (caseSensitive : Bool) (use : Keys → α × Keys) : List Text → Section → α × Section
  | [], .mk keys subSections =>
    let used := use keys
    (used.1, .mk used.2 subSections)
  | name :: rest, .mk keys subSections =>
    let iname := fold caseSensitive name
    let found := (subSections iname).getD .empty
    let used := getSection caseSensitive use rest found
    (used.1, .mk keys (Function.update subSections iname (some used.2)))

/-- The keys of the section at a path; a section that is not there has none. -/
def keysAt : List Text → Section → Keys
  | [], .mk keys _ => keys
  | iname :: rest, .mk _ subSections =>
    match subSections iname with
    | none => .empty
    | some found => found.keysAt rest

end Section

/-! ### Config -/

/-- `Config::splitPath`: the section of a path and the name of its key. -/
def splitPath (path : Text) : List Text × Text :=
  let pathElements := path.splitOn '/'
  (pathElements.dropLast, pathElements.getLastD [])

/-- `Config::addKeyInternal` -/
def addKey (caseSensitive : Bool) (path value : Text) (index : Option Nat) (root : Section) : Section :=
  let pathPair := splitPath path
  (root.getSection caseSensitive (fun keys => ((), keys.addKey caseSensitive pathPair.2 value index)) pathPair.1).2

def hasKey (caseSensitive : Bool) (path : Text) (index : Option Nat) (root : Section) : Bool × Section :=
  let pathPair := splitPath path
  root.getSection caseSensitive (fun keys => (keys.hasKey caseSensitive pathPair.2 index, keys)) pathPair.1

/-- `Config::getKey`: the pointer whose key is returned.  The program ends where there is no key. -/
def getKey (caseSensitive : Bool) (path : Text) (index : Option Nat) (root : Section) : Except Fault (Option Key) × Section :=
  let pathPair := splitPath path
  root.getSection caseSensitive (fun keys =>
    if keys.hasKey caseSensitive pathPair.2 index then
      let found := keys.getKey caseSensitive pathPair.2 index
      (.ok found.1, found.2)
    else (.error .notFound, keys)) pathPair.1

inductive Operation where
  | addKey (path value : Text) (index : Option Nat)
  | hasKey (path : Text) (index : Option Nat)
  | getKey (path : Text) (index : Option Nat)
deriving DecidableEq, Repr

inductive Answer where
  | added
  | has (found : Bool)
  | got (pointer : Option Key)
deriving DecidableEq, Repr

def perform (caseSensitive : Bool) (root : Section) : Operation → Except Fault Answer × Section
  | .addKey path value index => (.ok .added, addKey caseSensitive path value index root)
  | .hasKey path index =>
    let found := hasKey caseSensitive path index root
    (.ok (.has found.1), found.2)
  | .getKey path index =>
    let found := getKey caseSensitive path index root
    (found.1.map .got, found.2)

/-- A `Config` in use. -/
def machine (caseSensitive : Bool) : Machine Section Operation Fault where
  initial root := root = .empty
  step root operation :=
    let performed := perform caseSensitive root operation
    performed.1.map fun _ => performed.2

/-- The answers to a sequence of operations, up to the end of the program. -/
def answers (caseSensitive : Bool) : Section → List Operation → List (Except Fault Answer)
  | _, [] => []
  | root, operation :: later =>
    let performed := perform caseSensitive root operation
    performed.1 :: match performed.1 with
      | .ok _ => answers caseSensitive performed.2 later
      | .error _ => []

/-! ### What the keys are for -/

def pathName (caseSensitive : Bool) (path : Text) : List Text × Text :=
  let pathPair := splitPath path
  (pathPair.1.map (fold caseSensitive), fold caseSensitive pathPair.2)

def setting (caseSensitive : Bool) : Operation → Option (Setting (List Text × Text) Nat Key)
  | .addKey path value index => some ⟨pathName caseSensitive path, index, ⟨(splitPath path).2, value⟩⟩
  | _ => none

/-- The settings of a sequence of operations, the last one first. -/
def history (caseSensitive : Bool) (operations : List Operation) : List (Setting (List Text × Text) Nat Key) :=
  (operations.filterMap (setting caseSensitive)).reverse

/-- The path and the index that an operation looks up. -/
def lookup : Operation → Option (Text × Option Nat)
  | .addKey .. => none
  | .hasKey path index => some (path, index)
  | .getKey path index => some (path, index)

/-- An operation of a sequence that is performed, with the operations before it. -/
def Performs (caseSensitive : Bool) (operations before : List Operation) (operation : Operation) (root : Section) : Prop :=
  (∃ later, operations = before ++ operation :: later) ∧ (machine caseSensitive).run .empty before = .ok root

/-- What a lookup promises after the operations before it. -/
structure Promise (caseSensitive : Bool) (before : List Operation) (root : Section) (path : Text) (index : Option Nat) : Prop where
  /-- `hasKey` tells whether `getKey` then finds a key. -/
  agrees : (hasKey caseSensitive path index root).1 = true ↔
    ∃ key, (getKey caseSensitive path index (hasKey caseSensitive path index root).2).1 = .ok (some key)
  /-- The key is the one that was set last. -/
  latest : ∀ key, (getKey caseSensitive path index (hasKey caseSensitive path index root).2).1 = .ok (some key) →
    Setting.inForce (pathName caseSensitive path) index (history caseSensitive before) = some key
  /-- The case of a path does not matter. -/
  spelled : ∀ other, fold caseSensitive other = fold caseSensitive path →
    (hasKey caseSensitive other index root).1 = (hasKey caseSensitive path index root).1 ∧
      (getKey caseSensitive other index root).1 = (getKey caseSensitive path index root).1
  /-- The lookups leave all later answers as they are. -/
  quiet : ∀ later, answers caseSensitive (hasKey caseSensitive path index root).2 later = answers caseSensitive root later ∧
    answers caseSensitive (getKey caseSensitive path index root).2 later = answers caseSensitive root later

def KeepsPromises (caseSensitive : Bool) (operations : List Operation) : Prop :=
  ∀ before operation root, Performs caseSensitive operations before operation root →
    ∀ path index, lookup operation = some (path, index) → Promise caseSensitive before root path index

/-- No lookup without an index is made for a name that has overrides but no default. -/
def DefaultsFirst (caseSensitive : Bool) (operations : List Operation) : Prop :=
  ∀ before operation root, Performs caseSensitive operations before operation root →
    ∀ path, lookup operation = some (path, none) →
      ¬Setting.OverridesOnly (pathName caseSensitive path) (history caseSensitive before)

end Sniper.Configuration.Lookups

import Sniper.Directory.Runs

/-! The directory controller with all its addresses.

The lines of different addresses meet only in the ways of the directory cache: an
address without a way takes a free one, or the way of the address that
`processDirectoryEntryAllocationReq` picks, which then has to give up its entry. -/

namespace Sniper.Directory

variable {n : Nat} {V Addr : Type}

/-- A controller: every address with its caches and channels, and the directory cache. -/
structure Controller (n : Nat) (V Addr : Type) where
  line : Addr → Sys n V
  /-- The ways of each set, with the addresses whose entries are in them. -/
  ways : Nat → List (Option Addr)
  /-- `m_replacement_ptrs`; the constructor does not initialise them. -/
  replacementPtr : Nat → Nat

namespace Controller

variable (ctl : Controller n V Addr)

def size (address : Addr) : Nat := (ctl.line address).dir.queue.length

def getNumSharers (address : Addr) : Nat := (ctl.line address).dir.getEntry.getNumSharers

/-- `getReplacementCandidates`, with the 32-bit wrap of the pointer. -/
def getReplacementCandidates (set : Nat) : List Addr :=
  let ways := ctl.ways set
  (List.range ways.length).filterMap fun i =>
    (ways[(i + ctl.replacementPtr set) % 2 ^ 32 % ways.length]?).join

/-- The loop of `processDirectoryEntryAllocationReq`: the candidate with the fewest
sharers among those without requests. -/
def replacementCandidate : List Addr → Option Addr → Option Addr
  | [], best => best
  | candidate :: rest, best =>
    let fewer : Bool := match best with
      | none => true
      | some best => ctl.getNumSharers best > ctl.getNumSharers candidate
    replacementCandidate rest (if fewer ∧ ctl.size candidate = 0 then some candidate else best)

variable [DecidableEq Addr]

def setLine (address : Addr) (line : Sys n V) : Controller n V Addr :=
  { ctl with line := Function.update ctl.line address line }

/-- Whether the entry of the address is in the directory cache or has to be: an entry
that is being nullified is in `m_replaced_directory_entry_list`. -/
def needsWay (set : Nat) (address : Addr) : Bool :=
  let dir := (ctl.line address).dir
  dir.entry.isSome ∧ (dir.queue.head?.map (·.msgType)) ≠ some .nullifyReq ∧
    some address ∉ ctl.ways set

/-- The part of `getDirectoryEntry` and `processDirectoryEntryAllocationReq` that finds a
way for the address. -/
def takeWay (protocol : Protocol) (set : Nat) (address : Addr) (requester : Fin n) :
    Except Stop (Controller n V Addr) :=
  if none ∈ ctl.ways set then
    .ok { ctl with ways := Function.update ctl.ways set ((ctl.ways set).replace none (some address)) }
  else
    match ctl.replacementCandidate (ctl.getReplacementCandidates set) none with
    | none => .error (.fault .noReplacementCandidate)
    | some replaced =>
      match (ctl.line replaced).step protocol (.nullify requester) with
      | .error stop => .error stop
      | .ok line =>
        .ok
          { ctl.setLine replaced line with
            ways := Function.update ctl.ways set
              ((ctl.ways set).replace (some replaced) (some address))
            replacementPtr := Function.update ctl.replacementPtr set
              ((ctl.replacementPtr set + 1) % 2 ^ 32) }

/-- A step of one address.  `requester` is the cache whose request allocates the entry,
if the step does; it is only passed on in the `NULLIFY_REQ`. -/
def step (protocol : Protocol) (setIndex : Addr → Nat) (requester : Fin n)
    (address : Addr) (label : Label n V) : Except Stop (Controller n V Addr) :=
  match (ctl.line address).step protocol label with
  | .error stop => .error stop
  | .ok line =>
    let ctl := ctl.setLine address line
    if ctl.needsWay (setIndex address) address then
      ctl.takeWay protocol (setIndex address) address requester
    else .ok ctl

end Controller

/-- A step of a controller: the address, its step and the requester. -/
structure ControllerLabel (n : Nat) (V Addr : Type) where
  address : Addr
  label : Label n V
  requester : Fin n

variable [DecidableEq Addr]

/-- The controller with directory cache sets of `associativity` ways. -/
def controller (n : Nat) (V : Type) (protocol : Protocol) (hasNuca : Bool) (setIndex : Addr → Nat)
    (associativity : Nat) :
    Machine (Controller n V Addr) (ControllerLabel n V Addr) Stop where
  initial ctl :=
    (∀ address, (machine n V protocol hasNuca).initial (ctl.line address)) ∧
      ∀ set, ctl.ways set = List.replicate associativity none
  step ctl label := ctl.step protocol setIndex label.requester label.address label.label

section Lines

variable {protocol : Protocol} {hasNuca : Bool} {setIndex : Addr → Nat} {associativity : Nat} {ctl after : Controller n V Addr}

theorem Controller.setLine_reachable (address : Addr) {line : Sys n V}
    (lines : ∀ address, (machine n V protocol hasNuca).Reachable (ctl.line address))
    (reached : (machine n V protocol hasNuca).Reachable line) (other : Addr) :
    (machine n V protocol hasNuca).Reachable ((ctl.setLine address line).line other) := by
  by_cases same : other = address
  · subst same
    simpa [Controller.setLine] using reached
  · simpa [Controller.setLine, same] using lines other

theorem Controller.takeWay_reachable {set : Nat} {address : Addr} {requester : Fin n}
    (lines : ∀ address, (machine n V protocol hasNuca).Reachable (ctl.line address))
    (taken : ctl.takeWay protocol set address requester = .ok after) (other : Addr) :
    (machine n V protocol hasNuca).Reachable (after.line other) := by
  unfold Controller.takeWay at taken
  split at taken
  · cases taken
    exact lines other
  · split at taken
    · cases taken
    case h_2 replaced _ =>
      cases stepped : (ctl.line replaced).step protocol (.nullify requester) with
      | error stop => simp [stepped] at taken
      | ok line =>
        simp only [stepped, Except.ok.injEq] at taken
        subst taken
        refine Controller.setLine_reachable replaced lines ?_ other
        exact .step (.nullify requester) (lines replaced) trivial stepped

theorem Controller.line_reachable (reached : (controller n V protocol hasNuca setIndex associativity).Reachable ctl)
    (address : Addr) : (machine n V protocol hasNuca).Reachable (ctl.line address) := by
  revert address
  refine reached.invariant (fun ctl => ∀ address, (machine n V protocol hasNuca).Reachable (ctl.line address))
    ?_ ?_
  · intro ctl initial address
    exact .initial (initial.1 address)
  · intro ctl label next lines _ stepped
    simp only [controller, Controller.step] at stepped
    cases moved : (ctl.line label.address).step protocol label.label with
    | error stop => simp [moved] at stepped
    | ok line =>
      have reached : (machine n V protocol hasNuca).Reachable line :=
        .step label.label (lines label.address) trivial moved
      have lines := Controller.setLine_reachable label.address lines reached
      simp only [moved] at stepped
      split at stepped
      · exact Controller.takeWay_reachable lines stepped
      · cases stepped
        exact lines

end Lines

end Sniper.Directory

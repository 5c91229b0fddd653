import Sniper.Library.Runs
import Sniper.Performance.IssuePorts
import Sniper.Performance.RobContention
import Mathlib.Data.Fintype.Fin

/-! The micro-operations that the contention model of a Nehalem core lets issue in a cycle, and the ports they take. -/

namespace Sniper.Performance.NehalemCycle

/-! ### What a class takes -/

section Classes

variable {cycle : NehalemCycle} {port : NehalemPort}

def ownPort : NehalemPort → Bool
  | .port05 | .port015 => false
  | _ => true

/-- The classes that `ports_generic` counts. -/
def isGeneric : NehalemPort → Bool
  | .port0 | .port1 | .port5 | .port015 => true
  | _ => false

/-- The classes that `ports_generic05` counts. -/
def isGeneric05 : NehalemPort → Bool
  | .port0 | .port5 | .port05 => true
  | _ => false

structure HasRoom (cycle : NehalemCycle) (port : NehalemPort) : Prop where
  own : ownPort port = true → cycle.ports port = false
  generic : isGeneric port = true → cycle.portsGeneric < 3
  generic05 : isGeneric05 port = true → cycle.portsGeneric05 < 2

theorem hasRoom_iff : cycle.HasRoom port ↔ (ownPort port = true → cycle.ports port = false) ∧
    (isGeneric port = true → cycle.portsGeneric < 3) ∧ (isGeneric05 port = true → cycle.portsGeneric05 < 2) :=
  ⟨fun room => ⟨room.own, room.generic, room.generic05⟩, fun room => ⟨room.1, room.2.1, room.2.2⟩⟩

instance : Decidable (cycle.HasRoom port) := decidable_of_iff' _ hasRoom_iff

/-- The ports and the counters with one more micro-operation of a class. -/
def take (cycle : NehalemCycle) (port : NehalemPort) : NehalemCycle :=
  { cycle with
    ports := fun other => if ownPort port = true ∧ other = port then true else cycle.ports other
    portsGeneric := cycle.portsGeneric + if isGeneric port then 1 else 0
    portsGeneric05 := cycle.portsGeneric05 + if isGeneric05 port then 1 else 0 }

theorem tryPort_eq (cycle : NehalemCycle) (port : NehalemPort) :
    cycle.tryPort port = if cycle.HasRoom port then some (cycle.take port) else none := by
  split
  case isTrue has =>
    obtain ⟨own, generic, generic05⟩ := has
    cases port <;>
      simp [ownPort, isGeneric, isGeneric05] at own generic generic05 <;>
      simp [tryPort, take, takePort, ownPort, isGeneric, isGeneric05, own, generic, generic05]
  case isFalse has =>
    rw [hasRoom_iff] at has
    cases port <;> simp [ownPort, isGeneric, isGeneric05] at has <;> simpa [tryPort] using has

theorem tryIssue_eq {uop : DynamicMicroOp} (class_ : uop.port = .nehalem port) (cycle : NehalemCycle) :
    cycle.tryIssue uop =
      if cycle.HasRoom port then .ok (aluFree cycle.aluUsedUntil uop cycle.now, cycle.take port) else .ok (false, cycle) := by
  rw [tryIssue, class_]
  simp only [tryPort_eq]
  by_cases room : cycle.HasRoom port
  · rw [if_pos room, if_pos room]
    rfl
  · rw [if_neg room, if_neg room]

theorem tryIssue_boomV1 {uop : DynamicMicroOp} {other : BoomV1Port} (class_ : uop.port = .boomV1 other) (cycle : NehalemCycle) :
    cycle.tryIssue uop = .error .wrongType := by
  rw [tryIssue, class_]

end Classes

/-! ### A cycle -/

/-- A cycle, and the classes of the micro-operations that may issue in it, the last one first. -/
structure Issued where
  cycle : NehalemCycle
  classes : List NehalemPort

inductive Call
  | tryIssue (uop : DynamicMicroOp)
  | doIssue (period : Nat) (uop : DynamicMicroOp)
deriving DecidableEq, Repr

namespace Issued

def step (issued : Issued) : Call → Issued
  | .tryIssue uop =>
    match uop.port, issued.cycle.tryIssue uop with
    | .nehalem port, .ok (true, cycle) => ⟨cycle, port :: issued.classes⟩
    | _, .ok (_, cycle) => ⟨cycle, issued.classes⟩
    | _, .error _ => issued
  | .doIssue period uop =>
    match issued.cycle.doIssue period uop with
    | .ok cycle => ⟨cycle, issued.classes⟩
    | .error _ => issued

def initCycle (now : Nat) (alu : Alu → Nat) : Issued := ⟨robContentionNehalem.initCycle now alu, []⟩

/-- The classes that allow a port of 0, 1 and 5 only. -/
def isPort015 : NehalemPort → Bool
  | .port2 | .port34 => false
  | _ => true

/-- Each of the micro-operations has a port of its own that its class allows. -/
structure Feasible (issued : Issued) : Prop where
  assigned : ∃ served : Fin issued.classes.length → IssuePort, served.Injective ∧
    ∀ index, served index ∈ (issued.classes.get index).allowed
  three : issued.classes.countP isPort015 ≤ 3

/-- Where the counters, the port and the unit let a micro-operation of ports 0, 1 and 5 issue, fewer than three have. -/
def BelowThree (issued : Issued) : Call → Prop
  | .tryIssue uop => ∀ port, uop.port = .nehalem port → isPort015 port = true → issued.cycle.HasRoom port →
      aluFree issued.cycle.aluUsedUntil uop issued.cycle.now = true → issued.classes.countP isPort015 < 3
  | .doIssue .. => True

/-- What the ports and the counters tell of the micro-operations that may issue. -/
structure Tallied (issued : Issued) : Prop where
  own : ∀ port, ownPort port = true → issued.classes.count port ≤ if issued.cycle.ports port then 1 else 0
  generic05 : issued.classes.countP isGeneric05 ≤ issued.cycle.portsGeneric05
  most : issued.cycle.portsGeneric05 ≤ 2

section Runs

variable {issued : Issued} {port : NehalemPort} {uop : DynamicMicroOp} {call : Call}

theorem countP_eq (classes : List NehalemPort) :
    classes.countP isGeneric05 = classes.count .port0 + classes.count .port5 + classes.count .port05 ∧
    classes.countP isPort015 = classes.count .port0 + classes.count .port1 + classes.count .port5 + classes.count .port05 +
      classes.count .port015 := by
  induction classes with
  | nil => exact ⟨rfl, rfl⟩
  | cons port rest ih => cases port <;> simp [List.countP_cons, isGeneric05, isPort015] <;> omega

theorem feasible_iff_portsSuffice : Feasible issued ↔ PortsSuffice (issued.classes.count ·) 1 := by
  have counted (which : NehalemPort) :
      (Finset.univ.filter fun index => issued.classes.get index = which).card = issued.classes.count which :=
    Fin.card_filter_univ_eq_vector_get_eq_count which ⟨issued.classes, rfl⟩
  rw [← servable_iff_portsSuffice counted, servable_one]
  constructor
  · exact fun feasible => feasible.assigned
  · intro assigned
    refine ⟨assigned, ?_⟩
    have most := ((servable_iff_portsSuffice counted).mp (servable_one.mpr assigned)).ports015
    rw [(countP_eq issued.classes).2]
    exact most

theorem Tallied.feasible_iff (tallied : Tallied issued) : Feasible issued ↔ issued.classes.countP isPort015 ≤ 3 := by
  have own (port : NehalemPort) (takes : ownPort port = true) : issued.classes.count port ≤ 1 := by
    refine (tallied.own port takes).trans ?_
    split
    case isTrue => exact Nat.le_refl 1
    case isFalse => exact Nat.zero_le 1
  have pair := tallied.generic05.trans tallied.most
  obtain ⟨two, three⟩ := countP_eq issued.classes
  rw [two] at pair
  rw [feasible_iff_portsSuffice, three]
  exact ⟨fun enough => enough.ports015,
    fun most => ⟨own _ rfl, own _ rfl, own _ rfl, own _ rfl, own _ rfl, pair, most⟩⟩

theorem step_tryIssue (class_ : uop.port = .nehalem port) :
    issued.step (.tryIssue uop) =
      if issued.cycle.HasRoom port then
        ⟨issued.cycle.take port,
          if aluFree issued.cycle.aluUsedUntil uop issued.cycle.now then port :: issued.classes else issued.classes⟩
      else issued := by
  rw [step, class_, tryIssue_eq class_]
  by_cases room : issued.cycle.HasRoom port
  · rw [if_pos room, if_pos room]
    cases aluFree issued.cycle.aluUsedUntil uop issued.cycle.now with
    | true => rfl
    | false => rfl
  · rw [if_neg room, if_neg room]

theorem step_tryIssue_boomV1 {other : BoomV1Port} (class_ : uop.port = .boomV1 other) : issued.step (.tryIssue uop) = issued := by
  rw [step, class_, tryIssue_boomV1 class_]

theorem step_doIssue (issued : Issued) (period : Nat) (uop : DynamicMicroOp) :
    ∃ alu, issued.step (.doIssue period uop) = ⟨{ issued.cycle with aluUsedUntil := alu }, issued.classes⟩ := by
  cases class_ : uop.port with
  | nehalem port => exact ⟨useAlu issued.cycle.aluUsedUntil period uop issued.cycle.now, by rw [step, doIssue, class_]⟩
  | boomV1 port => exact ⟨issued.cycle.aluUsedUntil, by rw [step, doIssue, class_]⟩

theorem tallied_initCycle (now : Nat) (alu : Alu → Nat) : Tallied (initCycle now alu) :=
  ⟨fun _ _ => Nat.zero_le _, Nat.le_refl 0, Nat.zero_le 2⟩

theorem Tallied.take (tallied : Tallied issued) (room : issued.cycle.HasRoom port) :
    Tallied ⟨issued.cycle.take port, port :: issued.classes⟩ where
  own := by
    intro other takes
    have before := tallied.own other takes
    show (port :: issued.classes).count other ≤
      if (if ownPort port = true ∧ other = port then true else issued.cycle.ports other) = true then 1 else 0
    by_cases same : other = port
    · subst same
      rw [room.own takes] at before
      rw [List.count_cons_self, if_pos (if_pos ⟨takes, rfl⟩)]
      exact Nat.succ_le_succ before
    · have kept : (if ownPort port = true ∧ other = port then true else issued.cycle.ports other) = issued.cycle.ports other :=
        if_neg fun both => same both.2
      rw [List.count_cons_of_ne (Ne.symm same), kept]
      exact before
  generic05 := by
    rw [List.countP_cons]
    exact Nat.add_le_add_right tallied.generic05 _
  most := by
    have fits := room.generic05
    have most := tallied.most
    show issued.cycle.portsGeneric05 + (if isGeneric05 port then 1 else 0) ≤ 2
    split
    case isTrue counted => exact fits counted
    case isFalse => exact most

theorem Tallied.of_cons {cycle : NehalemCycle} {classes : List NehalemPort} (tallied : Tallied ⟨cycle, port :: classes⟩) :
    Tallied ⟨cycle, classes⟩ where
  own := fun other takes => (List.count_le_count_cons).trans (tallied.own other takes)
  generic05 := by
    have before := tallied.generic05
    rw [List.countP_cons] at before
    exact Nat.le_of_add_right_le before
  most := tallied.most

theorem Tallied.step (tallied : Tallied issued) : Tallied (issued.step call) := by
  cases call with
  | doIssue period uop =>
    obtain ⟨alu, after⟩ := step_doIssue issued period uop
    rw [after]
    exact ⟨tallied.own, tallied.generic05, tallied.most⟩
  | tryIssue uop =>
    cases class_ : uop.port with
    | boomV1 other => rwa [step_tryIssue_boomV1 class_]
    | nehalem port =>
      rw [step_tryIssue class_]
      split
      case isFalse => exact tallied
      case isTrue room =>
        split
        case isTrue => exact tallied.take room
        case isFalse => exact (tallied.take room).of_cons

theorem Feasible.step_iff (tallied : Tallied issued) (feasible : Feasible issued) :
    Feasible (issued.step call) ↔ issued.BelowThree call := by
  have three := feasible.three
  rw [tallied.step.feasible_iff]
  cases call with
  | doIssue period uop =>
    obtain ⟨alu, after⟩ := step_doIssue issued period uop
    rw [after]
    exact iff_of_true three trivial
  | tryIssue uop =>
    cases class_ : uop.port with
    | boomV1 other =>
      rw [step_tryIssue_boomV1 class_]
      exact iff_of_true three fun port other_ => by rw [class_] at other_; cases other_
    | nehalem port =>
      rw [step_tryIssue class_]
      have below : issued.BelowThree (.tryIssue uop) ↔ (isPort015 port = true → issued.cycle.HasRoom port →
          aluFree issued.cycle.aluUsedUntil uop issued.cycle.now = true → issued.classes.countP isPort015 < 3) := by
        simp only [BelowThree, class_, CorePort.nehalem.injEq, forall_eq']
      rw [below]
      split
      case isFalse none_ => exact iff_of_true three fun _ room => absurd room none_
      case isTrue room =>
        split
        case isFalse busy => exact iff_of_true three fun _ _ free => absurd free busy
        case isTrue free =>
          show (port :: issued.classes).countP isPort015 ≤ 3 ↔ _
          rw [List.countP_cons]
          cases counted : isPort015 port with
          | true =>
            simp only [if_true, room, free, forall_const]
            exact Nat.succ_le_iff
          | false => simpa using three

/-- The micro-operations that may issue have ports of their own after every call of a cycle if and only if none of ports 0,
1 and 5 is let issue after three of them. -/
theorem feasible_iff_belowThree (now : Nat) (alu : Alu → Nat) (calls : List Call) :
    AllStates step Feasible (initCycle now alu) calls ↔ AllSteps step BelowThree (initCycle now alu) calls := by
  have starts := tallied_initCycle now alu
  exact allStates_iff_allSteps (fun _ _ tallied _ _ => tallied.step) (fun _ _ tallied feasible => feasible.step_iff tallied) starts
    (starts.feasible_iff.mpr (Nat.zero_le 3))

/-- A micro-operation that needs no unit. -/
def plain (port : NehalemPort) : DynamicMicroOp where
  microOp := ⟨.execute, [], [], [], false, false, false⟩
  sequenceNumber := 0
  address := 0
  squashed := false
  intraInstructionDependencies := 0
  microOpTypeOffset := 0
  dependencies := []
  execLatency := 1
  branchMispredicted := false
  dCacheHitWhere := .unknown
  iCacheHitWhere := .l1i
  iCacheLatency := 0
  last := true
  port := .nehalem port
  alu := .none
  aluLatency := 0

/-- Two of class 05 and three of class 015 issue to ports 0, 1 and 5. -/
theorem fiveIssued_not_feasible : ¬ ∀ now alu calls, AllStates step Feasible (initCycle now alu) calls := by
  intro always
  have feasible := (always 0 (fun _ => 0) [.tryIssue (plain .port05), .tryIssue (plain .port05), .tryIssue (plain .port015),
    .tryIssue (plain .port015), .tryIssue (plain .port015)]).2.2.2.2.2
  exact absurd feasible.three (by decide)

end Runs

end Issued

/-! ### Refused micro-operations -/

section Refusals

variable {cycle : NehalemCycle} {uop : DynamicMicroOp}

/-- The answers to micro-operations that are tried one after the other. -/
def answers (cycle : NehalemCycle) : List DynamicMicroOp → List (Except Fault Bool)
  | [] => []
  | uop :: rest =>
    match cycle.tryIssue uop with
    | .ok (answer, next) => .ok answer :: answers next rest
    | .error fault => .error fault :: answers cycle rest

/-- A micro-operation that is refused takes nothing, and those tried after it are answered as without it. -/
def RefusedFree (cycle : NehalemCycle) (uop : DynamicMicroOp) : Prop :=
  ∀ after, cycle.tryIssue uop = .ok (false, after) →
    after.ports = cycle.ports ∧ after.portsGeneric = cycle.portsGeneric ∧ after.portsGeneric05 = cycle.portsGeneric05 ∧
    ∀ others, after.answers others = cycle.answers others

/-- There is room at the ports for the micro-operation, and its unit is in use. -/
def BlockedAfterPort (cycle : NehalemCycle) (uop : DynamicMicroOp) : Prop :=
  ∃ port, uop.port = .nehalem port ∧ cycle.HasRoom port ∧ aluFree cycle.aluUsedUntil uop cycle.now = false

theorem take_differs {port : NehalemPort} (room : cycle.HasRoom port) : ¬((cycle.take port).ports = cycle.ports ∧
    (cycle.take port).portsGeneric = cycle.portsGeneric ∧ (cycle.take port).portsGeneric05 = cycle.portsGeneric05) := by
  rintro ⟨ports, generic, generic05⟩
  cases own : ownPort port with
  | true =>
    have taken := congrFun ports port
    rw [room.own own] at taken
    simp [take, own] at taken
  | false =>
    cases port <;> simp [ownPort] at own <;> simp [take, isGeneric, isGeneric05] at generic generic05

/-- A refusal takes nothing but where the micro-operation is blocked on its unit after a port was found. -/
theorem refusedFree_iff (cycle : NehalemCycle) (uop : DynamicMicroOp) : cycle.RefusedFree uop ↔ ¬cycle.BlockedAfterPort uop := by
  cases class_ : uop.port with
  | boomV1 other =>
    refine iff_of_true (fun after refused => ?_) ?_
    · rw [tryIssue_boomV1 class_] at refused
      cases refused
    · rintro ⟨port, same, -⟩
      rw [class_] at same
      cases same
  | nehalem port =>
    have answer := tryIssue_eq class_ cycle
    have blocked : cycle.BlockedAfterPort uop ↔ cycle.HasRoom port ∧ aluFree cycle.aluUsedUntil uop cycle.now = false := by
      simp only [BlockedAfterPort, class_, CorePort.nehalem.injEq, exists_eq_left']
    rw [blocked]
    by_cases room : cycle.HasRoom port
    · rw [if_pos room] at answer
      cases free : aluFree cycle.aluUsedUntil uop cycle.now with
      | true =>
        refine iff_of_true (fun after refused => ?_) (by simp)
        rw [answer, free] at refused
        cases refused
      | false =>
        refine iff_of_false (fun takes => ?_) (not_not_intro ⟨room, rfl⟩)
        rw [free] at answer
        obtain ⟨ports, generic, generic05, -⟩ := takes _ answer
        exact take_differs room ⟨ports, generic, generic05⟩
    · rw [if_neg room] at answer
      refine iff_of_true (fun after refused => ?_) fun both => room both.1
      rw [answer] at refused
      cases refused
      exact ⟨rfl, rfl, rfl, fun _ => rfl⟩

/-- The unit is in use until cycle 5, and the port 1 that the micro-operation was refused at is not given to the next one. -/
theorem port1_takenByRefused :
    ¬ ∀ cycle uop, RefusedFree cycle uop := by
  intro always
  have refused := always (robContentionNehalem.initCycle 0 fun _ => 5) { Issued.plain .port1 with alu := .trig } _ rfl
  exact absurd (refused.2.2.2 [Issued.plain .port1]) (by decide)

end Refusals

end Sniper.Performance.NehalemCycle

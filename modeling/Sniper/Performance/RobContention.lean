import Sniper.Performance.MicroOp

/-! The issue ports of a cycle, and the units that stay in use for longer.

`initCycle` clears the ports, so only `alu_used_until` lives from one cycle to
the next. -/

namespace Sniper.Performance

/-- `RobContention`, with the state of one cycle. -/
structure RobContention (Cycle : Type) where
  initCycle : Nat → (Alu → Nat) → Cycle
  tryIssue : DynamicMicroOp → Cycle → Except Fault (Bool × Cycle)
  noMore : Cycle → Bool
  /-- Given the period of the core. -/
  doIssue : Nat → DynamicMicroOp → Cycle → Except Fault Cycle
  aluUsedUntil : Cycle → Alu → Nat
  noMore_initCycle : ∀ now alu, noMore (initCycle now alu) = false
  aluUsedUntil_initCycle : ∀ now alu, aluUsedUntil (initCycle now alu) = alu

def aluFree (usedUntil : Alu → Nat) (uop : DynamicMicroOp) (now : Nat) : Bool :=
  uop.alu = .none || usedUntil uop.alu ≤ now

def useAlu (usedUntil : Alu → Nat) (period : Nat) (uop : DynamicMicroOp) (now : Nat) : Alu → Nat :=
  if uop.alu = .none then usedUntil
  else fun alu => if alu = uop.alu then now + uop.aluLatency * period else usedUntil alu

structure NehalemCycle where
  now : Nat
  ports : NehalemPort → Bool
  portsGeneric : Nat
  portsGeneric05 : Nat
  aluUsedUntil : Alu → Nat

namespace NehalemCycle

def takePort (cycle : NehalemCycle) (port : NehalemPort) : NehalemCycle :=
  { cycle with ports := fun other => if other = port then true else cycle.ports other }

/-- Port contention; `none` if the port is taken. -/
def tryPort (cycle : NehalemCycle) (port : NehalemPort) : Option NehalemCycle :=
  match port with
  | .port015 =>
    if cycle.portsGeneric ≥ 3 then none else some { cycle with portsGeneric := cycle.portsGeneric + 1 }
  | .port05 =>
    if cycle.portsGeneric05 ≥ 2 then none else some { cycle with portsGeneric05 := cycle.portsGeneric05 + 1 }
  | .port2 => if cycle.ports port then none else some (cycle.takePort port)
  | .port34 => if cycle.ports port then none else some (cycle.takePort port)
  | .port1 =>
    if cycle.ports port || cycle.portsGeneric ≥ 3 then none
    else some { cycle.takePort port with portsGeneric := cycle.portsGeneric + 1 }
  | .port0 | .port5 =>
    if cycle.ports port || cycle.portsGeneric ≥ 3 || cycle.portsGeneric05 ≥ 2 then none
    else
      some { cycle.takePort port with
        portsGeneric := cycle.portsGeneric + 1, portsGeneric05 := cycle.portsGeneric05 + 1 }

def tryIssue (uop : DynamicMicroOp) (cycle : NehalemCycle) : Except Fault (Bool × NehalemCycle) :=
  match uop.port with
  | .boomV1 _ => .error .wrongType
  | .nehalem port =>
    match cycle.tryPort port with
    | none => .ok (false, cycle)
    -- A port that was found stays taken when the unit is in use.
    | some taken => .ok (aluFree taken.aluUsedUntil uop taken.now, taken)

def doIssue (period : Nat) (uop : DynamicMicroOp) (cycle : NehalemCycle) : Except Fault NehalemCycle :=
  match uop.port with
  | .boomV1 _ => .error .wrongType
  | .nehalem _ => .ok { cycle with aluUsedUntil := useAlu cycle.aluUsedUntil period uop cycle.now }

end NehalemCycle

def robContentionNehalem : RobContention NehalemCycle where
  initCycle now alu := ⟨now, fun _ => false, 0, 0, alu⟩
  tryIssue := NehalemCycle.tryIssue
  noMore cycle := cycle.ports .port2 && cycle.ports .port34 && cycle.portsGeneric ≥ 3
  doIssue := NehalemCycle.doIssue
  aluUsedUntil cycle := cycle.aluUsedUntil
  noMore_initCycle _ _ := rfl
  aluUsedUntil_initCycle _ _ := rfl

structure BoomV1Cycle where
  now : Nat
  ports : BoomV1Port → Bool
  portsGeneric012 : Nat
  aluUsedUntil : Alu → Nat

namespace BoomV1Cycle

def tryPort (cycle : BoomV1Cycle) (port : BoomV1Port) : Option BoomV1Cycle :=
  match port with
  | .port012 =>
    if cycle.portsGeneric012 ≥ 3 then none else some { cycle with portsGeneric012 := cycle.portsGeneric012 + 1 }
  | .port0 | .port1 | .port2 =>
    if cycle.ports port || cycle.portsGeneric012 ≥ 3 then none
    else
      some { cycle with
        ports := fun other => if other = port then true else cycle.ports other
        portsGeneric012 := cycle.portsGeneric012 + 1 }

def tryIssue (uop : DynamicMicroOp) (cycle : BoomV1Cycle) : Except Fault (Bool × BoomV1Cycle) :=
  match uop.port with
  | .nehalem _ => .error .wrongType
  | .boomV1 port =>
    match cycle.tryPort port with
    | none => .ok (false, cycle)
    | some taken => .ok (aluFree taken.aluUsedUntil uop taken.now, taken)

def doIssue (period : Nat) (uop : DynamicMicroOp) (cycle : BoomV1Cycle) : Except Fault BoomV1Cycle :=
  match uop.port with
  | .nehalem _ => .error .wrongType
  | .boomV1 _ => .ok { cycle with aluUsedUntil := useAlu cycle.aluUsedUntil period uop cycle.now }

end BoomV1Cycle

def robContentionBoomV1 : RobContention BoomV1Cycle where
  initCycle now alu := ⟨now, fun _ => false, 0, alu⟩
  tryIssue := BoomV1Cycle.tryIssue
  noMore cycle := cycle.ports .port2 && cycle.portsGeneric012 ≥ 3
  doIssue := BoomV1Cycle.doIssue
  aluUsedUntil cycle := cycle.aluUsedUntil
  noMore_initCycle _ _ := rfl
  aluUsedUntil_initCycle _ _ := rfl

end Sniper.Performance

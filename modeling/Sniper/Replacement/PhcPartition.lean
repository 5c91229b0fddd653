import Sniper.Replacement.PhcCaches

/-! Where `CacheSetPHC` looks for a victim: in STT-RAM for a cold instruction, in SRAM for a hot one. -/

namespace Sniper.Replacement

open Recency

variable {associativity : Nat} {set : Contents} {call : Call} {fields : Phc}

/-- The ways for an instruction: `SRAM_ways` are the first four. -/
def InPartition (associativity : Nat) (state : Nat → Nat) (eip way : Nat) : Prop :=
  if state (eip % 256) < 2 then 4 ≤ way ∧ way < associativity else way < 4

namespace Phc

def ways (fields : Phc) (associativity eip : Nat) : List Nat :=
  if fields.isCold eip then sttRam associativity else List.range sramWays

theorem mem_ways {eip way : Nat} : way ∈ fields.ways associativity eip ↔ InPartition associativity fields.state eip way := by
  unfold ways isCold InPartition
  by_cases cold : fields.state (eip % 256) < 2
  · simp only [cold, decide_true, if_true, sttRam, List.mem_filter, List.mem_range, decide_eq_true_eq]
    exact and_comm
  · simp [cold, sramWays]

theorem ways_lt {eip : Nat} (four : 4 ≤ associativity) : ∀ way ∈ fields.ways associativity eip, way < associativity := by
  intro way member
  rw [mem_ways, InPartition] at member
  split at member <;> omega

end Phc

def builtPhcCaches (associativity : Nat) : PhcCaches associativity where
  sets _ := ⟨⟨fun _ => .invalid, ⟨initialLruBits, fun _ => 0, fun _ => 0, fun _ => 0⟩⟩, [], fun _ => none⟩
  state _ := 0

theorem builtPhcCaches_reachable (associativity : Nat) :
    (phcCaches associativity).Reachable (builtPhcCaches associativity) :=
  .initial ⟨fun _ => ⟨fun _ => rfl, ⟨rfl, rfl, rfl⟩, rfl, rfl⟩, rfl⟩

end Sniper.Replacement

import Sniper.Directory.Controller

/-! Safety of the directory protocol: one writer or many readers, no fault, and a
directory that agrees with itself. -/

namespace Sniper.Directory

variable {n : Nat} {V : Type}

def Promise.none : Promise := ⟨False, False, id⟩

theorem Stable.reachable {protocol : Protocol} {hasNuca : Bool} {sys : Sys n V}
    (reached : (machine n V protocol hasNuca).Reachable sys) : Stable protocol .none sys sys.dir :=
  .reach (fun _ _ => True) (fun _ _ _ _ => ⟨False.elim, False.elim, False.elim, False.elim⟩)
    False.elim reached

section Copies

variable {good : LineBuf V → Prop} {durable : Prop} {role : Role} {llc : Llc V}
  {up : List (CacheMsg V)} {down : List (DirMsg V)}

theorem Local.owned_of_exclusive (here : Local good durable role llc up down)
    (exclusive : llc.cstate = .exclusive ∨ llc.cstate = .modified) : role.Owned := by
  cases here with
  | holding holds =>
    refine holds.owned fun shared => ?_
    subst shared
    rcases exclusive with exclusive | exclusive <;> cases exclusive
  | absent | queued | filled | upgraded | upgrading | wroteBack | wroteBackUpgrading | upgradingWroteBack
  | lost | wroteBackLost | upgradingLost => rcases exclusive with exclusive | exclusive <;> cases exclusive

theorem Local.sharer_of_readable (here : Local good durable role llc up down)
    (readable : llc.cstate.readable = true) : ∃ dstate await queued, role = .sharer dstate await queued := by
  cases here with
  | absent | queued => cases readable
  | filled | upgraded | holding | upgrading | wroteBack | wroteBackUpgrading | upgradingWroteBack
  | lost | wroteBackLost | upgradingLost => exact ⟨_, _, _, rfl⟩

end Copies

theorem Stable.single_writer {protocol : Protocol} {promise : Promise} {sys : Sys n V} {writer other : Fin n}
    (stable : Stable protocol promise sys sys.dir) (different : writer ≠ other)
    (exclusive : (sys.llc writer).cstate = .exclusive ∨ (sys.llc writer).cstate = .modified) :
    (sys.llc other).cstate.readable = false := by
  obtain ⟨present, _, owned⟩ := roleOf_owned ((stable.core.caches writer).owned_of_exclusive exclusive)
  obtain ⟨owner, _, only⟩ := stable.core.entry.owner owned
  cases readable : (sys.llc other).cstate.readable with
  | false => rfl
  | true =>
    obtain ⟨dstate, await, queued, role⟩ := (stable.core.caches other).sharer_of_readable readable
    have held := (roleOf_eq_sharer role).1
    exact absurd (((only writer).mp present).trans ((only other).mp held).symm) different

/-- In every state of every run no cache can read a line that another cache holds
exclusively, and no assertion of the protocol fails in the next step. -/
theorem exclusive_copy_is_alone (n : Nat) (V : Type) (protocol : Protocol) (hasNuca : Bool) (sys : Sys n V)
    (reached : (machine n V protocol hasNuca).Reachable sys) :
    (∀ writer other, writer ≠ other →
      (sys.llc writer).cstate = .exclusive ∨ (sys.llc writer).cstate = .modified →
      (sys.llc other).cstate.readable = false) ∧
    ∀ label fault, (machine n V protocol hasNuca).step sys label ≠ .error (.fault fault) := by
  have stable := Stable.reachable reached
  refine ⟨fun _ _ => stable.single_writer, fun label fault failed => ?_⟩
  rcases stable.step label ⟨False.elim, False.elim, False.elim, False.elim⟩ with
    ⟨after, ran, _⟩ | disabled
  · have wrong := ran.symm.trans failed
    cases wrong
  · have wrong := disabled.symm.trans failed
    cases wrong

/-- The write of one of two caches, from the miss to the copy it modifies. -/
theorem exclusive_copy_is_alone_after_write : ∃ sys : Sys 2 Nat,
    (machine 2 Nat .mesi false).Reachable sys ∧ (sys.llc 0).cstate = .modified ∧
      (sys.llc 1).cstate.readable = false ∧
      ∀ label fault, (machine 2 Nat .mesi false).step sys label ≠ .error (.fault fault) := by
  have reached : ∃ sys, (machine 2 Nat .mesi false).run (.initial false 0)
      [.access 0 (.write fun _ => 1), .toDirectory 0, .dramServe, .fromDram, .toCache 0] = .ok sys ∧
      (sys.llc 0).cstate = .modified := ⟨_, rfl, rfl⟩
  obtain ⟨sys, ran, modified⟩ := reached
  have reached : (machine 2 Nat .mesi false).Reachable sys := .run (.initial ⟨0, rfl⟩) ran
  obtain ⟨alone, safe⟩ := exclusive_copy_is_alone 2 Nat .mesi false sys reached
  exact ⟨sys, reached, modified, alone 0 1 (by decide) (.inr modified), safe⟩

variable {Addr : Type} [DecidableEq Addr]

/-- Every entry of a directory controller is consistent, and every request is served
in turn, answered exactly once to its requester and removed as soon as it is answered. -/
theorem controller_is_consistent (n : Nat) (V : Type) (protocol : Protocol) (hasNuca : Bool)
    (setIndex : Addr → Nat) (associativity : Nat) (ctl : Controller n V Addr)
    (reached : (controller n V protocol hasNuca setIndex associativity).Reachable ctl) (address : Addr) :
    (∀ entry, (ctl.line address).dir.entry = some entry →
      (entry.dstate = .uncached ↔ entry.getNumSharers = 0) ∧
      (entry.dstate = .exclusive ∨ entry.dstate = .modified →
        ∃ owner, entry.owner = some owner ∧ entry.getSharersList = [owner])) ∧
    replay (ctl.line address).dir.log = some ((ctl.line address).dir.queue.map ShmemReq.key, false) := by
  have stable := Stable.reachable (Controller.line_reachable reached address)
  refine ⟨fun entry stored => ?_, stable.core.log⟩
  have ok := stable.core.entry
  rw [Dir.getEntry, stored, Option.getD_some] at ok
  refine ⟨?_, fun owned => ?_⟩
  · rw [ok.uncached, DirectoryEntry.getNumSharers_eq_zero]
  · obtain ⟨owner, isOwner, only⟩ := ok.owner owned
    exact ⟨owner, isOwner, DirectoryEntry.getSharersList_eq_singleton.mpr only⟩

/-- Two addresses that share the only way of the directory cache: the second one takes
the way of the first, whose owner is asked to flush. -/
theorem controller_is_consistent_one_way : ∃ ctl : Controller 2 Nat Bool,
    (controller 2 Nat .mesi false (fun _ => 0) 1).Reachable ctl ∧
      (ctl.line false).dir.queue.map ShmemReq.key = [(.nullifyReq, 1)] ∧
      (ctl.line false).dir.entry.map (·.dstate) = some .modified ∧
      replay (ctl.line false).dir.log = some ((ctl.line false).dir.queue.map ShmemReq.key, false) := by
  have reached : ∃ ctl, (controller 2 Nat .mesi false (fun _ => 0) 1).run
      { line := fun _ => .initial false 0, ways := fun _ => [none], replacementPtr := fun _ => 0 }
      [⟨false, .access 0 (.write fun _ => 1), 0⟩, ⟨false, .toDirectory 0, 0⟩, ⟨false, .dramServe, 0⟩,
        ⟨false, .fromDram, 0⟩, ⟨true, .access 1 .read, 1⟩, ⟨true, .toDirectory 1, 1⟩] = .ok ctl ∧
      (ctl.line false).dir.queue.map ShmemReq.key = [(.nullifyReq, 1)] ∧
      (ctl.line false).dir.entry.map (·.dstate) = some .modified := ⟨_, rfl, rfl, rfl⟩
  obtain ⟨ctl, ran, queue, dstate⟩ := reached
  have reached : (controller 2 Nat .mesi false (fun _ => 0) 1).Reachable ctl :=
    .run (.initial ⟨fun _ => ⟨0, rfl⟩, fun _ => rfl⟩) ran
  exact ⟨ctl, reached, queue, dstate,
    (controller_is_consistent 2 Nat .mesi false (fun _ => 0) 1 ctl reached false).2⟩

end Sniper.Directory

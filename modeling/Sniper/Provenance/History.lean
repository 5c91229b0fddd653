import Sniper.Provenance.Events

/-! When the loop bits and the `eip` values that the caches store are those of the misses they belong to. -/

namespace Sniper.Provenance

/-- A property of every event of a history and the events before it. -/
def Throughout (property : Event → List Event → Prop) : List Event → Prop
  | [] => True
  | event :: before => property event before ∧ Throughout property before

/-- The L2 misses since the last L1 miss, of all cores. -/
def l2Misses : List Event → Nat
  | [] => 0
  | .l1Missed :: _ => 0
  | .l2Missed :: before => l2Misses before + 1
  | _ :: before => l2Misses before

/-- The `eip` of the last access of any core. -/
def lastAccess : List Event → Nat
  | [] => 0
  | .accessed eip :: _ => eip
  | _ :: before => lastAccess before

/-- The `eip` of the last request of an L3 cache to the directory, or 0 once an `EX_REP` has come since. -/
def lastRequest : List Event → Nat
  | [] => 0
  | .requested eip :: _ => eip
  | .inserted .exRep _ _ _ :: _ => 0
  | _ :: before => lastRequest before

structure Recall (globals : Globals) (history : List Event) : Prop where
  l3HitFlag : globals.l3HitFlag = l2Misses history % 2
  eipGlobal : globals.eipGlobal = lastRequest history
  eipGlobal2 : globals.eipGlobal2 = lastAccess history

/-- What an event has taken from the global variables, in terms of the events before it. -/
def Event.Recalls : Event → List Event → Prop
  | .filled loopBit _, before => loopBit = l2Misses before % 2
  | .inserted .exRep eip _ _, before => eip = lastRequest before
  | .inserted .shRep eip _ _, before => eip = lastAccess before
  | .inserted .dram eip requestEip _, _ => eip = requestEip
  | _, _ => True

section Runs

variable {globals : Globals} {history : List Event}

theorem Recall.after (recalled : Recall globals history) (event : Event) :
    Recall (globals.after event) (event :: history) := by
  obtain ⟨flag, request, access⟩ := recalled
  cases event with
  | accessed eip => exact ⟨flag, request, rfl⟩
  | l1Missed => exact ⟨rfl, request, access⟩
  | l2Missed =>
    simp only [Globals.after]
    split_ifs with clear set
    · refine ⟨?_, request, access⟩
      simp only [l2Misses]
      omega
    · refine ⟨?_, request, access⟩
      simp only [l2Misses]
      omega
    · omega
  | filled loopBit service => exact ⟨flag, request, access⟩
  | requested eip => exact ⟨flag, rfl, access⟩
  | inserted reply eip requestEip isPrefetch =>
    cases reply with
    | exRep => exact ⟨flag, rfl, access⟩
    | shRep => exact ⟨flag, request, access⟩
    | dram => exact ⟨flag, request, access⟩

theorem Recall.recalls (recalled : Recall globals history) {event : Event} (reads : event.ReadsFrom globals) :
    event.Recalls history := by
  obtain ⟨flag, request, access⟩ := recalled
  cases event with
  | filled loopBit service =>
    have bit : globals.l3HitFlag ≤ 1 := by omega
    exact (reads bit).trans flag
  | inserted reply eip requestEip isPrefetch =>
    cases reply with
    | exRep => exact Eq.trans reads request
    | shRep => exact Eq.trans reads access
    | dram => exact reads
  | _ => trivial

variable {Addr : Type} [DecidableEq Addr] {chip : Chip Addr} {state : State chip}

theorem reachable_recall (reached : (machine chip).Reachable state) :
    Recall state.globals state.history ∧ Throughout Event.Recalls state.history := by
  refine reached.invariant (fun state => Recall state.globals state.history ∧ Throughout Event.Recalls state.history) ?_ ?_
  · intro state starts
    rw [show state = .initial chip from starts]
    exact ⟨⟨rfl, rfl, rfl⟩, trivial⟩
  · rintro state label next ⟨recalled, throughout⟩ _ stepped
    obtain ⟨globals, history⟩ | ⟨event, reads, globals, history⟩ := step_logs stepped
    · rw [globals, history]
      exact ⟨recalled, throughout⟩
    · rw [globals, history]
      exact ⟨recalled.after event, recalled.recalls reads, throughout⟩

end Runs

theorem Throughout.congr {first second : Event → List Event → Prop} {history : List Event}
    (recalls : Throughout Event.Recalls history)
    (agree : ∀ event before, event.Recalls before → (first event before ↔ second event before)) :
    Throughout first history ↔ Throughout second history := by
  induction history with
  | nil => exact Iff.rfl
  | cons event before ih => exact and_congr (agree event before recalls.1) (ih recalls.2)

/-! ### Loop bits -/

/-- Two cores with L2 caches of one set and two ways below one L3 cache. -/
def twoCores (direct : Bool) : Chip Nat where
  Thread := Bool
  L2 := Bool
  L3 := Unit
  decThread := inferInstance
  decL2 := inferInstance
  decL3 := inferInstance
  l2 := id
  l3 := fun _ => ()
  geometry := { sets := 1, associativity := 2, setIndex := fun _ => ⟨0, Nat.one_pos⟩ }
  direct

def missTo (thread : Bool) (op : MemOp Unit) (address eip : Nat) {direct : Bool} : List (Label (twoCores direct)) :=
  [.access thread op address eip, .advance thread, .advance thread, .advance thread]

theorem twoCores_reach {direct : Bool} {state : State (twoCores direct)} {labels : List (Label (twoCores direct))}
    (ran : (machine (twoCores direct)).run (.initial _) labels = .ok state) :
    (machine (twoCores direct)).Reachable state :=
  Machine.Reachable.run (.initial rfl) ran

/-- The loop bit of an inserted line says whether L3 served the miss. -/
def Event.LoopBitRight : Event → List Event → Prop
  | .filled loopBit service, _ =>
    (loopBit = 1 ↔ service = .l3) ∧ (loopBit = 0 ↔ service = .dram ∨ service = .directory)
  | _, _ => True

/-- The number of L2 misses since the last L1 miss is odd for a miss that L3 serves, and even for the others. -/
def Event.MissesInStep : Event → List Event → Prop
  | .filled _ service, before => l2Misses before % 2 = 1 ↔ service = .l3
  | _, _ => True

variable {Addr : Type} [DecidableEq Addr] {chip : Chip Addr} {state : State chip}

theorem loopBit_right_iff (reached : (machine chip).Reachable state) :
    Throughout Event.LoopBitRight state.history ↔ Throughout Event.MissesInStep state.history := by
  refine (reachable_recall reached).2.congr fun event before recalls => ?_
  cases event with
  | filled loopBit service =>
    have bit : loopBit = l2Misses before % 2 := recalls
    simp only [Event.LoopBitRight, Event.MissesInStep]
    cases service <;> simp <;> omega
  | _ => exact Iff.rfl

/-- A read of a line that is in no cache, with a directory. -/
def readFromDirectory : List (Label (twoCores false)) :=
  missTo false .read 0 16 ++ [.shRep () 0, .wakeUpUserThread () 0, .advance false, .advance false, .advance false]

theorem loopBit_right_readFromDirectory :
    ∃ state, (machine (twoCores false)).Reachable state ∧ .filled 0 .directory ∈ state.history ∧
      Throughout Event.LoopBitRight state.history := by
  obtain ⟨state, ran, history⟩ : ∃ state, (machine (twoCores false)).run (.initial _) readFromDirectory = .ok state ∧
      state.history = [.filled 0 .directory, .l2Missed, .inserted .shRep 16 16 false, .requested 16, .l2Missed,
        .l1Missed, .accessed 16] := ⟨_, rfl, rfl⟩
  have reached := twoCores_reach ran
  have inStep : Throughout Event.MissesInStep state.history := by
    rw [history]
    exact ⟨by simp [Event.MissesInStep, l2Misses], trivial, trivial, trivial, trivial, trivial, trivial, trivial⟩
  exact ⟨state, reached, by simp [history], (loopBit_right_iff reached).mpr inStep⟩

/-- Without a directory, a line that comes from DRAM is marked as one that L3 had. -/
theorem loopBit_wrong_readFromDram :
    ∃ state, (machine (twoCores true)).Reachable state ∧
      state.history = [.filled 1 .dram, .inserted .dram 16 16 false, .l2Missed, .l1Missed, .accessed 16] ∧
      ¬Throughout Event.LoopBitRight state.history := by
  obtain ⟨state, ran, history⟩ : ∃ state, (machine (twoCores true)).run (.initial _)
      (missTo false .read 0 16 ++ [.advance false]) = .ok state ∧ state.history =
        [.filled 1 .dram, .inserted .dram 16 16 false, .l2Missed, .l1Missed, .accessed 16] := ⟨_, rfl, rfl⟩
  refine ⟨state, twoCores_reach ran, history, ?_⟩
  rw [history]
  intro right
  simp [Throughout, Event.LoopBitRight] at right

/-! ### Program counters -/

/-- A line that an access made an L3 cache insert comes with the `eip` of that access. -/
def Event.EipRight : Event → List Event → Prop
  | .inserted _ eip requestEip isPrefetch, _ => isPrefetch = false → eip = requestEip
  | _, _ => True

/-- An `EX_REP` comes before another request or `EX_REP`, and an `SH_REP` before an access of any core, unless
the `eip` is the same. -/
def Event.ReplyInTime : Event → List Event → Prop
  | .inserted .exRep _ requestEip isPrefetch, before => isPrefetch = false → lastRequest before = requestEip
  | .inserted .shRep _ requestEip isPrefetch, before => isPrefetch = false → lastAccess before = requestEip
  | _, _ => True

theorem eip_right_iff (reached : (machine chip).Reachable state) :
    Throughout Event.EipRight state.history ↔ Throughout Event.ReplyInTime state.history := by
  refine (reachable_recall reached).2.congr fun event before recalls => ?_
  cases event with
  | inserted reply eip requestEip isPrefetch =>
    cases reply with
    | exRep =>
      have read : eip = lastRequest before := recalls
      simp only [Event.EipRight, Event.ReplyInTime, read]
    | shRep =>
      have read : eip = lastAccess before := recalls
      simp only [Event.EipRight, Event.ReplyInTime, read]
    | dram =>
      have read : eip = requestEip := recalls
      simp only [Event.EipRight, Event.ReplyInTime, read, implies_true]
  | _ => exact Iff.rfl

theorem eip_right_readFromDirectory :
    ∃ state, (machine (twoCores false)).Reachable state ∧ .inserted .shRep 16 16 false ∈ state.history ∧
      Throughout Event.EipRight state.history := by
  obtain ⟨state, ran, history⟩ : ∃ state, (machine (twoCores false)).run (.initial _)
      (missTo false .read 0 16 ++ [.shRep () 0]) = .ok state ∧ state.history =
        [.inserted .shRep 16 16 false, .requested 16, .l2Missed, .l1Missed, .accessed 16] := ⟨_, rfl, rfl⟩
  have reached := twoCores_reach ran
  have inTime : Throughout Event.ReplyInTime state.history := by
    rw [history]
    exact ⟨fun _ => rfl, trivial, trivial, trivial, trivial, trivial⟩
  exact ⟨state, reached, by simp [history], (eip_right_iff reached).mpr inTime⟩

/-- Two cores write a line each, and the first line comes with the `eip` of the second core. -/
theorem eip_wrong_twoWrites :
    ∃ state, (machine (twoCores false)).Reachable state ∧
      state.history = [.inserted .exRep 32 16 false, .requested 32, .l2Missed, .l1Missed, .accessed 32, .requested 16,
        .l2Missed, .l1Missed, .accessed 16] ∧ ¬Throughout Event.EipRight state.history := by
  obtain ⟨state, ran, history⟩ : ∃ state, (machine (twoCores false)).run (.initial _)
      (missTo false (.write id) 0 16 ++ missTo true (.write id) 1 32 ++ [.exRep () 0]) = .ok state ∧ state.history =
        [.inserted .exRep 32 16 false, .requested 32, .l2Missed, .l1Missed, .accessed 32, .requested 16,
          .l2Missed, .l1Missed, .accessed 16] := ⟨_, rfl, rfl⟩
  refine ⟨state, twoCores_reach ran, history, ?_⟩
  rw [history]
  intro right
  exact absurd (right.1 rfl) (by decide)

end Sniper.Provenance

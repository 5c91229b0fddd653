import Sniper.Provenance.Threads

/-! What a step does to the global variables, and what a history says about their values. -/

namespace Sniper.Provenance

variable {Addr : Type} [DecidableEq Addr] {chip : Chip Addr} {state next : State chip}

/-- What an event takes from the global variables. -/
def Event.ReadsFrom (globals : Globals) : Event → Prop
  | .filled loopBit _ => globals.l3HitFlag ≤ 1 → loopBit = globals.l3HitFlag
  | .inserted .exRep eip _ _ => eip = globals.eipGlobal
  | .inserted .shRep eip _ _ => eip = globals.eipGlobal2
  | .inserted .dram eip requestEip _ => eip = requestEip
  | _ => True

/-- A step logs one event or none. -/
def Logs (state next : State chip) : Prop :=
  (next.globals = state.globals ∧ next.history = state.history) ∨
    ∃ event, event.ReadsFrom state.globals ∧ next.globals = state.globals.after event ∧
      next.history = event :: state.history

omit [DecidableEq Addr] in
theorem Logs.nothing (globals : next.globals = state.globals) (history : next.history = state.history) :
    Logs state next := .inl ⟨globals, history⟩

omit [DecidableEq Addr] in
theorem Logs.event (event : Event) (reads : event.ReadsFrom state.globals)
    (globals : next.globals = state.globals.after event) (history : next.history = event :: state.history) :
    Logs state next := .inr ⟨event, reads, globals, history⟩

omit [DecidableEq Addr] in
theorem Logs.setPhase (logs : Logs state next) (thread : chip.Thread) (phase : Phase Addr) :
    Logs state (next.setPhase thread phase) := logs

omit [DecidableEq Addr] in
theorem lookupL1_logs (thread : chip.Thread) (miss : Miss Addr) : Logs state (state.lookupL1 thread miss) := by
  unfold State.lookupL1
  split
  · exact .nothing rfl rfl
  · exact .event .l1Missed trivial rfl rfl

theorem lookupL2_logs (thread : chip.Thread) (miss : Miss Addr) (again : Bool) :
    Logs state (state.lookupL2 thread miss again) := by
  simp only [State.lookupL2]
  split
  · exact .nothing rfl rfl
  · exact .event .l2Missed trivial rfl rfl

theorem initiateDirectoryAccess_logs {thread : chip.Thread} {miss : Miss Addr}
    (stepped : state.initiateDirectoryAccess thread miss = .ok next) : Logs state next := by
  simp only [State.initiateDirectoryAccess] at stepped
  split_ifs at stepped <;> cases stepped <;> exact .event (.requested miss.eip) trivial rfl rfl

theorem lookupL3_logs {thread : chip.Thread} {miss : Miss Addr} {again : Bool}
    (stepped : state.lookupL3 thread miss again = .ok next) : Logs state next := by
  simp only [State.lookupL3] at stepped
  split at stepped
  · cases stepped
    exact .nothing rfl rfl
  split at stepped
  · cases stepped
    exact .nothing rfl rfl
  split at stepped
  · split at stepped
    · cases stepped
      exact .event (.inserted .dram miss.eip miss.eip miss.isPrefetch) rfl rfl rfl
    · cases stepped
      exact .nothing rfl rfl
  split at stepped
  · cases stepped
  · exact initiateDirectoryAccess_logs stepped

theorem lruL2_loopBit {associativity numAttempts index : Nat} {set : Replacement.Contents} {call : Replacement.Call}
    {fields after : Replacement.LoopBits} (flag : call.l3HitFlag ≤ 1)
    (taken : (Replacement.CacheSetLRUL2 associativity numAttempts).getReplacementIndex set call fields =
      .ok (after, index)) : after.loopBit index = call.l3HitFlag := by
  simp only [Replacement.CacheSetLRUL2] at taken
  cases replaced : Replacement.replaceLru associativity numAttempts set call fields.lruBits with
  | error fault => simp [replaced, bind, Except.bind] at taken
  | ok value =>
    simp only [replaced, bind, Except.bind] at taken
    cases taken
    rcases Nat.le_one_iff_eq_zero_or_eq_one.mp flag with zero | one
    · simp [Replacement.LoopBits.takeWay, zero]
    · simp [Replacement.LoopBits.takeWay, one]

theorem insertL2_logs {thread : chip.Thread} {miss : Miss Addr} {service : Service} {cstate : CState}
    (stepped : state.insertL2 thread miss service cstate = .ok next) : Logs state next := by
  simp only [State.insertL2] at stepped
  split at stepped
  case h_1 => cases stepped
  case h_2 fields index taken =>
    split at stepped
    · cases stepped
      refine .event (.filled (Replacement.LoopBits.loopBit fields index) service) ?_ rfl rfl
      intro flag
      exact lruL2_loopBit flag taken
    · cases stepped

theorem copyDataFromNextLevel_logs {thread : chip.Thread} {miss : Miss Addr} {service : Service}
    (stepped : state.copyDataFromNextLevel thread miss service = .ok next) : Logs state next := by
  simp only [State.copyDataFromNextLevel] at stepped
  split at stepped
  · cases stepped
  split at stepped
  · cases stepped
    exact .nothing rfl rfl
  · cases inserted : state.insertL2 thread miss service (state.l3 (chip.l3 thread) miss.address) with
    | error fault => simp [inserted, bind, Except.bind] at stepped
    | ok middle =>
      simp only [inserted, bind, Except.bind] at stepped
      cases stepped
      exact (insertL2_logs inserted).setPhase thread .idle

theorem processRepFromDramDirectory_logs {node : chip.L3} {address : Addr} {reply : Reply} {cstate : CState} {eip : Nat}
    (reads : ∀ requestEip isPrefetch, (Event.inserted reply eip requestEip isPrefetch).ReadsFrom state.globals)
    (stepped : state.processRepFromDramDirectory node address reply cstate eip = .ok next) : Logs state next := by
  simp only [State.processRepFromDramDirectory] at stepped
  split at stepped
  case h_1 miss _ _ _ =>
    split at stepped
    · cases stepped
    · cases stepped
      exact .event (.inserted reply eip miss.eip miss.isPrefetch) (reads _ _) rfl rfl
  case h_2 =>
    cases stepped
    exact .nothing rfl rfl

theorem advance_logs {thread : chip.Thread} (stepped : state.advance thread = .ok next) : Logs state next := by
  simp only [State.advance] at stepped
  split at stepped
  · cases stepped
    exact .nothing rfl rfl
  · cases stepped
    exact .nothing rfl rfl
  · cases stepped
    exact lookupL1_logs thread _
  · cases stepped
    exact lookupL2_logs thread _ _
  · exact lookupL3_logs stepped
  · exact copyDataFromNextLevel_logs stepped

theorem touchL2_logs {node : chip.L2} {address : Addr} {writeFlag : Nat}
    (stepped : state.touchL2 node address writeFlag = .ok next) : Logs state next := by
  simp only [State.touchL2] at stepped
  split at stepped
  · cases stepped
    exact .nothing rfl rfl
  split at stepped
  · cases stepped
  · cases stepped
    exact .nothing rfl rfl

theorem step_logs {label : Label chip} (stepped : state.step label = .ok next) : Logs state next := by
  cases label with
  | access thread op address eip =>
    simp only [State.step] at stepped
    split at stepped
    · cases stepped
      exact .event (.accessed eip) trivial rfl rfl
    · cases stepped
      exact .nothing rfl rfl
  | doPrefetch thread address throughL2 =>
    simp only [State.step] at stepped
    split at stepped <;> cases stepped <;> exact .nothing rfl rfl
  | advance thread => exact advance_logs stepped
  | exRep node address =>
    have reads (requestEip : Nat) (isPrefetch : Bool) :
        (Event.inserted .exRep state.globals.eipGlobal requestEip isPrefetch).ReadsFrom state.globals := rfl
    exact processRepFromDramDirectory_logs reads stepped
  | shRep node address =>
    have reads (requestEip : Nat) (isPrefetch : Bool) :
        (Event.inserted .shRep state.globals.eipGlobal2 requestEip isPrefetch).ReadsFrom state.globals := rfl
    exact processRepFromDramDirectory_logs reads stepped
  | upgradeRep node address =>
    cases stepped
    simp only [State.processUpgradeRepFromDramDirectory]
    split <;> exact .nothing rfl rfl
  | wakeUpUserThread node address =>
    cases stepped
    simp only [State.wakeUpUserThread]
    split
    · split <;> exact .nothing rfl rfl
    · exact .nothing rfl rfl
  | dequeue node address =>
    cases stepped
    simp only [State.dequeue]
    split <;> exact .nothing rfl rfl
  | changeL1 thread address cstate =>
    cases stepped
    exact .nothing rfl rfl
  | changeL2 node address cstate =>
    cases stepped
    exact .nothing rfl rfl
  | changeL3 node address cstate =>
    cases stepped
    exact .nothing rfl rfl
  | touchL2 node address writeFlag => exact touchL2_logs stepped

end Sniper.Provenance

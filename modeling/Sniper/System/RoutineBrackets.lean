import Sniper.System.RoutineTracer

/-! The notifications of a thread are bracketed like its call stack. -/

namespace Sniper.System.RoutineTracer

/-- The routines that have been entered and not exited, the innermost one in front.  An exit has to close that one. -/
def openRoutines (entered : Option (List IntPtr)) (call : CallStack × Notification) : Option (List IntPtr) :=
  entered.bind fun routines =>
    match call.2 with
    | .functionEnter eip _ => some (eip :: routines)
    | .functionExit eip => if routines.head? = some eip then some routines.tail else none
    | .functionChildEnter _ _ | .functionChildExit _ _ => some routines

/-- The pairs of a parent and a child that have been entered and not exited, the innermost one in front.  An exit has to
close that one. -/
def openPairs (entered : Option (List (IntPtr × IntPtr))) (call : CallStack × Notification) :
    Option (List (IntPtr × IntPtr)) :=
  entered.bind fun pairs =>
    match call.2 with
    | .functionChildEnter eip eipChild => some ((eip, eipChild) :: pairs)
    | .functionChildExit eip eipChild => if pairs.head? = some (eip, eipChild) then some pairs.tail else none
    | .functionEnter _ _ | .functionExit _ => some pairs

/-- `m_callsite_stack` of the memory tracker, none after a `pop_back` of an empty stack. -/
def callsiteStack (callsites : Option (List IntPtr)) (call : CallStack × Notification) : Option (List IntPtr) :=
  callsites.bind fun sites =>
    match call.2 with
    | .functionEnter _ callEip => some (callEip :: sites)
    | .functionExit _ => if sites = [] then none else some sites.tail
    | .functionChildEnter _ _ | .functionChildExit _ _ => some sites

def framePairs : CallStack → List (IntPtr × IntPtr)
  | child :: parent :: below => (parent, child) :: framePairs (parent :: below)
  | _ => []

/-- A thread that starts without a frame, and all notifications so far. -/
def bracketMachine : Machine (State × Notifications) Event Empty where
  initial system := system.1.thread.stack = [] ∧ system.2 = []
  step system event := .ok ((handle system.1 event).1, system.2 ++ (handle system.1 event).2)

/-- The event issues or misses notifications of child calls: it is the exit of a routine without a frame, it leaves
several frames at once, or it begins or ends the ROI with a frame of address 0. -/
def Unpaired (state : State) (event : Event) : Prop :=
  if state.inROI then Unwinds state event ∨ Ignored state event ∨ Silent state event
  else event = .setPerformance true ∧ 0 ∈ state.thread.stack.tail

/-! ## Functions -/

variable {unwound ignored silent : Prop} {stack next : CallStack} {calls : Notifications}

theorem childEnter_openRoutines (entered : Option (List IntPtr)) (inROI : Bool) (stack : CallStack) (eip : IntPtr) :
    (childEnter inROI stack eip).foldl openRoutines entered = entered := by
  cases stack <;> cases inROI <;> cases entered <;> rfl

theorem childExit_openRoutines (entered : Option (List IntPtr)) (inROI : Bool) (stack : CallStack) (eip : IntPtr) :
    (childExit inROI stack eip).foldl openRoutines entered = entered := by
  cases stack <;> cases inROI <;> cases entered <;> rfl

theorem Moves.openRoutines (moves : Moves unwound ignored silent stack calls next) :
    calls.foldl openRoutines (some stack) = some next := by
  induction moves with
  | stay => rfl
  | enter eip callEip =>
    rw [List.foldl_append, childEnter_openRoutines]
    rfl
  | @leave top below child _ =>
    rw [List.foldl_cons, childExit_openRoutines]
    simp [RoutineTracer.openRoutines]
  | leaveSilently => simp [RoutineTracer.openRoutines]
  | ignore eip _ => exact childExit_openRoutines _ _ _ _
  | append _ _ first second => rw [List.foldl_append, first, second]

theorem enterFrames_openRoutines (stack : CallStack) (parent : IntPtr) (frames below : List IntPtr) :
    (enterFrames stack parent frames).foldl openRoutines (some below) = some (frames.reverse ++ below) := by
  induction frames generalizing parent below with
  | nil => rfl
  | cons frame above ih =>
    have enters : (enterFrames stack parent (frame :: above)).foldl openRoutines (some below) =
        (enterFrames stack frame above).foldl openRoutines (some (frame :: below)) := by
      rw [enterFrames]
      split <;> rfl
    rw [enters, ih, List.reverse_cons, List.append_assoc]
    rfl

theorem handle_openRoutines (state : State) (event : Event) :
    (handle state event).2.foldl openRoutines (some state.told) = some (handle state event).1.told := by
  unfold State.told
  obtain ⟨outside, stays, quiet⟩ | ⟨inside, stays, moves⟩ | ⟨outside, -, begins, calls⟩ | ⟨inside, ends, moves⟩ :=
    handle_cases state event
  · simp [outside, stays, quiet]
  · rw [inside, stays]
    exact moves.openRoutines
  · rw [begins, calls, outside]
    have enters := enterFrames_openRoutines state.thread.stack 0 state.thread.stack.reverse []
    rw [List.reverse_reverse, List.append_nil] at enters
    exact enters
  · rw [ends, inside]
    exact moves.openRoutines

/-! ## Call sites -/

theorem openRoutines_none (calls : Notifications) : calls.foldl openRoutines none = none := by
  induction calls with
  | nil => rfl
  | cons call later ih => exact ih

theorem callsiteStack_openRoutines {routines routines' sites : List IntPtr} (calls : Notifications) (same : sites.length = routines.length)
    (opened : calls.foldl openRoutines (some routines) = some routines') :
    ∃ sites', calls.foldl callsiteStack (some sites) = some sites' ∧ sites'.length = routines'.length := by
  induction calls generalizing sites routines with
  | nil =>
    cases opened
    exact ⟨sites, rfl, same⟩
  | cons call later ih =>
    obtain ⟨stack, notification⟩ := call
    rw [List.foldl_cons] at opened ⊢
    cases notification with
    | functionEnter eip callEip =>
      have more : (callEip :: sites).length = (eip :: routines).length := congrArg Nat.succ same
      exact ih more opened
    | functionExit eip =>
      cases routines with
      | nil =>
        have closed : openRoutines (some []) (stack, .functionExit eip) = none := rfl
        rw [closed, openRoutines_none] at opened
        cases opened
      | cons top routines =>
        cases sites with
        | nil => cases same
        | cons site sites =>
          have fewer : sites.length = routines.length := Nat.succ.inj same
          apply ih fewer
          by_cases own : top = eip
          · simpa [openRoutines, own] using opened
          · have closed : openRoutines (some (top :: routines)) (stack, .functionExit eip) = none := by
              simp [openRoutines, own]
            rw [closed, openRoutines_none] at opened
            cases opened
    | functionChildEnter eip eipChild => exact ih same opened
    | functionChildExit eip eipChild => exact ih same opened

/-! ## Child calls -/

theorem Moves.openPairs (moves : Moves unwound ignored silent stack calls next) (together : ¬unwound) (matched : ¬ignored)
    (told : ¬silent) : calls.foldl openPairs (some (framePairs stack)) = some (framePairs next) := by
  induction moves with
  | stay => rfl
  | @enter stack eip callEip => cases stack <;> rfl
  | @leave top below child own =>
    have same : child = top := own.resolve_right together
    subst same
    cases below with
    | nil => rfl
    | cons parent below => simp [childExit, notify, RoutineTracer.openPairs, framePairs]
  | leaveSilently silent => exact absurd silent told
  | ignore _ ignored => exact absurd ignored matched
  | append _ _ first second => rw [List.foldl_append, first, second]

theorem enterFrames_openPairs (stack : CallStack) (frames : List IntPtr) (parent : IntPtr) (below : CallStack)
    (last : below.head?.getD 0 = parent) (named : frames ≠ [] → below ≠ [] → parent ≠ 0) (inner : 0 ∉ frames.dropLast) :
    (enterFrames stack parent frames).foldl openPairs (some (framePairs below)) =
      some (framePairs (frames.reverse ++ below)) := by
  induction frames generalizing parent below with
  | nil => rfl
  | cons frame above ih =>
    have enters : (enterFrames stack parent (frame :: above)).foldl openPairs (some (framePairs below)) =
        (enterFrames stack frame above).foldl openPairs (some (framePairs (frame :: below))) := by
      cases below with
      | nil =>
        cases last
        rfl
      | cons top rest =>
        cases last
        have named := named (List.cons_ne_nil _ _) (List.cons_ne_nil _ _)
        rw [enterFrames, if_pos named]
        rfl
    rw [enters, ih frame (frame :: below) rfl ?_ ?_, List.reverse_cons, List.append_assoc]
    · rfl
    · intro more _ zero
      subst zero
      cases above with
      | nil => exact more rfl
      | cons second rest => exact inner List.mem_cons_self
    · intro member
      cases above with
      | nil => cases member
      | cons second rest => exact inner (List.mem_cons_of_mem _ member)

theorem handle_openPairs {state : State} {event : Event} (paired : ¬Unpaired state event) :
    (handle state event).2.foldl openPairs (some (framePairs state.told)) = some (framePairs (handle state event).1.told) := by
  unfold State.told
  unfold Unpaired at paired
  obtain ⟨outside, stays, quiet⟩ | ⟨inside, stays, moves⟩ | ⟨outside, event, begins, calls⟩ | ⟨inside, ends, moves⟩ :=
    handle_cases state event
  · simp [outside, stays, quiet]
  · rw [if_pos inside] at paired
    simp only [not_or] at paired
    rw [inside, stays]
    exact moves.openPairs paired.1 paired.2.1 paired.2.2
  · rw [outside] at paired
    rw [begins, calls, outside]
    have enters := enterFrames_openPairs state.thread.stack state.thread.stack.reverse 0 [] rfl
      (fun _ some => absurd rfl some) ?_
    · rw [List.reverse_reverse, List.append_nil] at enters
      exact enters
    · intro member
      apply paired
      refine ⟨event, ?_⟩
      rw [List.dropLast_reverse] at member
      exact List.mem_reverse.mp member
  · rw [if_pos inside] at paired
    simp only [not_or] at paired
    rw [ends, inside]
    exact moves.openPairs paired.1 paired.2.1 paired.2.2

/-! ## Runs -/

/-- In every run the calls for functions are nested, with the frames as the open ones, and no call site is taken from an
empty stack.  In runs without unpaired events the calls for children are nested as well. -/
theorem notifications_bracketed (state : State) (calls : Notifications) :
    (bracketMachine.Reachable (state, calls) →
      calls.foldl openRoutines (some []) = some state.told ∧ (calls.foldl callsiteStack (some [])).isSome = true) ∧
    (bracketMachine.Reach (fun system event => ¬Unpaired system.1 event) (state, calls) →
      calls.foldl openPairs (some []) = some (framePairs state.told)) := by
  constructor
  · intro reached
    have opened : calls.foldl openRoutines (some []) = some state.told := by
      refine reached.invariant (fun system => system.2.foldl openRoutines (some []) = some system.1.told) ?_ ?_
      · intro system starts
        simp [State.told, starts.1, starts.2]
      · intro system event next holds _ stepped
        cases stepped
        rw [List.foldl_append, holds]
        exact handle_openRoutines system.1 event
    obtain ⟨sites, taken, -⟩ := @callsiteStack_openRoutines [] _ [] calls rfl opened
    exact ⟨opened, by rw [taken]; rfl⟩
  · intro reached
    refine reached.invariant (fun system => system.2.foldl openPairs (some []) = some (framePairs system.1.told)) ?_ ?_
    · intro system starts
      simp [State.told, starts.1, starts.2, framePairs]
    · intro system event next holds paired stepped
      cases stepped
      rw [List.foldl_append, holds]
      exact handle_openPairs paired

/-- A call in the middle of the ROI, and a jump back to its caller outside of it. -/
theorem notifications_bracketed_call :
    ([.routineEnter 1 8 0, .setPerformance true, .routineEnter 2 4 1, .routineExit 2 8, .setPerformance false,
      .routineEnter 3 4 1, .routineAssert 1 8].foldl (fun system event =>
        ((handle system.1 event).1, system.2 ++ (handle system.1 event).2)) (⟨⟨[], 0⟩, false⟩, [])).2.foldl
          openPairs (some []) = some [] := by
  have start : bracketMachine.Reach (fun system event => ¬Unpaired system.1 event) (⟨⟨[], 0⟩, false⟩, []) :=
    .initial ⟨rfl, rfl⟩
  have entered := start.step (.routineEnter 1 8 0) (by simp [Unpaired]) rfl
  have begun := entered.step (.setPerformance true) (by simp [Unpaired, handle, routineEnter]) rfl
  have called := begun.step (.routineEnter 2 4 1)
    (by simp [Unpaired, handle, setPerformance, routineEnter, Unwinds, Ignored, Silent]) rfl
  have returned := called.step (.routineExit 2 8)
    (by simp [Unpaired, handle, setPerformance, routineEnter, Unwinds, Ignored, Silent]) rfl
  have ended := returned.step (.setPerformance false)
    (by simp [Unpaired, handle, setPerformance, routineEnter, routineExit, Unwinds, Ignored, Silent]) rfl
  have again := ended.step (.routineEnter 3 4 1)
    (by simp [Unpaired, handle, setPerformance, routineEnter, routineExit]) rfl
  have back := again.step (.routineAssert 1 8)
    (by simp [Unpaired, handle, setPerformance, routineEnter, routineExit]) rfl
  exact (notifications_bracketed _ _).2 back

/-- The exit of a routine that has no frame is told as the exit of a child that has not been entered. -/
theorem unmatched_exit_unpaired :
    ¬ ∀ state calls, bracketMachine.Reachable (state, calls) → ∀ parent child,
      calls.countP (fun call => call.2 = .functionChildExit parent child) ≤
        calls.countP fun call => call.2 = .functionChildEnter parent child := by
  intro paired
  have told := paired _ _ (.step (.routineExit 2 0) (.step (.routineEnter 1 0 0)
    (@Machine.Reach.initial _ _ _ _ _ (⟨⟨[], 0⟩, true⟩, []) ⟨rfl, rfl⟩) trivial rfl) trivial rfl) 1 2
  exact absurd told (by decide)

end Sniper.System.RoutineTracer

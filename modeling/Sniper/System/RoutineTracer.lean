import Sniper.Library.Machine

/-! `RoutineTracerThread`: the call stack of a thread and the notifications its tracer gets.

A notification is kept with the stack at the time of the call, which is what the tracers read.  Stacks have the frame
that was entered last in front. -/

namespace Sniper.System.RoutineTracer

abbrev IntPtr := Nat

/-- `m_stack`, with `m_stack.back()` in front. -/
abbrev CallStack := List IntPtr

inductive Notification where
  | functionEnter (eip callEip : IntPtr)
  | functionExit (eip : IntPtr)
  | functionChildEnter (eip eipChild : IntPtr)
  | functionChildExit (eip eipChild : IntPtr)
deriving DecidableEq

abbrev Notifications := List (CallStack × Notification)

structure Thread where
  stack : CallStack
  lastEsp : IntPtr

/-- A call that is made inside the ROI only. -/
def notify (inROI : Bool) (stack : CallStack) (notification : Notification) : Notifications :=
  if inROI then [(stack, notification)] else []

/-- `functionChildEnter(m_stack.back(), eip)`, if there is a frame. -/
def childEnter (inROI : Bool) (stack : CallStack) (eip : IntPtr) : Notifications :=
  match stack with
  | [] => []
  | parent :: _ => notify inROI stack (.functionChildEnter parent eip)

/-- `functionChildExit(m_stack.back(), eip)`, if there is a frame. -/
def childExit (inROI : Bool) (stack : CallStack) (eip : IntPtr) : Notifications :=
  match stack with
  | [] => []
  | parent :: _ => notify inROI stack (.functionChildExit parent eip)

/-- `routineEnter_unlocked` -/
def routineEnter (inROI : Bool) (eip esp callEip : IntPtr) (thread : Thread) : Thread × Notifications :=
  ({ stack := eip :: thread.stack, lastEsp := esp },
    childEnter inROI thread.stack eip ++ notify inROI (eip :: thread.stack) (.functionEnter eip callEip))

/-- The frames above the one of the routine are left. -/
def unwind (inROI : Bool) (eip : IntPtr) : CallStack → CallStack × Notifications
  | [] => ([], [])
  | top :: below =>
    if top = eip then (top :: below, [])
    else
      let unwound := unwind inROI eip below
      (unwound.1, notify inROI (top :: below) (.functionExit top) ++ childExit inROI below eip ++ unwound.2)

/-- Whether the routine has a frame, the stack unwound to it, and the calls for the frames that are left. -/
def unwindTo (inROI : Bool) (eip : IntPtr) (stack : CallStack) : Bool × CallStack × Notifications :=
  if eip ∈ stack then (true, unwind inROI eip stack) else (false, stack, [])

def routineExit (inROI : Bool) (eip esp : IntPtr) (thread : Thread) : Thread × Notifications :=
  match thread.stack with
  | [] => (thread, [])
  | top :: _ =>
    let unwound := if top ≠ eip then unwindTo inROI eip thread.stack else (true, thread.stack, [])
    let exited :=
      -- a routine without a frame is ignored
      if unwound.1 then
        (unwound.2.1.tail, unwound.2.2 ++ notify inROI unwound.2.1 (.functionExit eip))
      else unwound.2
    ({ stack := exited.1, lastEsp := esp }, exited.2 ++ childExit inROI exited.1 eip)

def routineAssert (inROI : Bool) (eip esp : IntPtr) (thread : Thread) : Thread × Notifications :=
  match thread.stack with
  | [] => routineEnter inROI eip esp 0 thread
  | top :: _ =>
    if top = eip then (thread, [])
    else if esp ≤ thread.lastEsp then routineEnter inROI eip esp 0 thread
    else
      let unwound := unwindTo inROI eip thread.stack
      if unwound.1 then ({ stack := unwound.2.1, lastEsp := esp }, unwound.2.2)
      else routineEnter inROI eip esp 0 thread

/-- The loop of `hookRoiBegin` over the frames, the outermost one first, after the frame of `eipParent`. -/
def enterFrames (stack : CallStack) (eipParent : IntPtr) : List IntPtr → Notifications
  | [] => []
  | frame :: above =>
    (if eipParent ≠ 0 then [(stack, .functionChildEnter eipParent frame)] else []) ++
      (stack, .functionEnter frame 0) :: enterFrames stack frame above

def hookRoiBegin (stack : CallStack) : Notifications := enterFrames stack 0 stack.reverse

/-- The loop of `hookRoiEnd`, which pops the frames, after the frame of `eipChild`. -/
def exitFrames (eipChild : IntPtr) : CallStack → Notifications
  | [] => []
  | frame :: below =>
    (if eipChild ≠ 0 then [(frame :: below, .functionChildExit frame eipChild)] else []) ++
      (frame :: below, .functionExit frame) :: exitFrames frame below

def hookRoiEnd (stack : CallStack) : Notifications := exitFrames 0 stack

/-- The thread, and whether the simulator is in the ROI. -/
structure State where
  thread : Thread
  inROI : Bool

def State.told (state : State) : CallStack := if state.inROI then state.thread.stack else []

inductive Event where
  | routineEnter (eip esp callEip : IntPtr)
  | routineExit (eip esp : IntPtr)
  | routineAssert (eip esp : IntPtr)
  /-- ROI begin or ROI end -/
  | setPerformance (enabled : Bool)
deriving DecidableEq

/-- `MagicServer::setPerformance`, which does nothing where nothing changes. -/
def setPerformance (enabled : Bool) (state : State) : State × Notifications :=
  if state.inROI = enabled then (state, [])
  else
    ({ state with inROI := enabled },
      if enabled then hookRoiBegin state.thread.stack else hookRoiEnd state.thread.stack)

def handle (state : State) (event : Event) : State × Notifications :=
  match event with
  | .routineEnter eip esp callEip =>
    let entered := routineEnter state.inROI eip esp callEip state.thread
    ({ state with thread := entered.1 }, entered.2)
  | .routineExit eip esp =>
    let exited := routineExit state.inROI eip esp state.thread
    ({ state with thread := exited.1 }, exited.2)
  | .routineAssert eip esp =>
    let asserted := routineAssert state.inROI eip esp state.thread
    ({ state with thread := asserted.1 }, asserted.2)
  | .setPerformance enabled => setPerformance enabled state

/-! ## What an event does to the stack -/

/-- Calls in the ROI that go with a change of the stack: frames are entered and left one by one.

A frame is left for a return to the routine `child`, which is the one of the frame itself if nothing was `unwound`.  A
routine without a frame may be `ignored`, and the exit of a frame of address 0 may be `silent`. -/
inductive Moves (unwound ignored silent : Prop) : CallStack → Notifications → CallStack → Prop where
  | stay {stack : CallStack} : Moves unwound ignored silent stack [] stack
  | enter {stack : CallStack} (eip callEip : IntPtr) : Moves unwound ignored silent stack
      (childEnter true stack eip ++ [(eip :: stack, .functionEnter eip callEip)]) (eip :: stack)
  | leave {top : IntPtr} {below : CallStack} (child : IntPtr) : child = top ∨ unwound → Moves unwound ignored silent
      (top :: below) ((top :: below, .functionExit top) :: childExit true below child) below
  | leaveSilently {below : CallStack} : silent → Moves unwound ignored silent
      (0 :: below) [(0 :: below, .functionExit 0)] below
  | ignore {stack : CallStack} (eip : IntPtr) : ignored → Moves unwound ignored silent
      stack (childExit true stack eip) stack
  | append {first middle last : CallStack} {notifications later : Notifications} :
      Moves unwound ignored silent first notifications middle → Moves unwound ignored silent middle later last →
      Moves unwound ignored silent first (notifications ++ later) last

section Moves

variable {unwound ignored silent : Prop} {eip esp callEip : IntPtr} {thread : Thread} {stack : CallStack}

theorem routineEnter_moves : Moves unwound ignored silent thread.stack (routineEnter true eip esp callEip thread).2
    (routineEnter true eip esp callEip thread).1.stack :=
  .enter eip callEip

theorem unwind_head (member : eip ∈ stack) (inROI : Bool) : ∃ below, (unwind inROI eip stack).1 = eip :: below := by
  induction stack with
  | nil => cases member
  | cons top below ih =>
    unfold unwind
    split
    case isTrue same => exact ⟨below, by rw [same]⟩
    case isFalse other =>
      cases List.mem_cons.mp member with
      | inl same => exact absurd same.symm other
      | inr behind => exact ih behind

theorem unwind_moves (allowed : unwound) (eip : IntPtr) (stack : CallStack) :
    Moves unwound ignored silent stack (unwind true eip stack).2 (unwind true eip stack).1 := by
  induction stack with
  | nil => exact .stay
  | cons top below ih =>
    unfold unwind
    split
    case isTrue => exact .stay
    case isFalse => exact .append (.leave eip (.inr allowed)) ih

theorem routineExit_moves (unwinds : thread.stack.head? = some eip ∨ eip ∉ thread.stack ∨ unwound)
    (matched : thread.stack = [] ∨ eip ∈ thread.stack ∨ ignored) :
    Moves unwound ignored silent thread.stack (routineExit true eip esp thread).2 (routineExit true eip esp thread).1.stack := by
  unfold routineExit
  cases frames : thread.stack with
  | nil =>
    dsimp only
    rw [frames]
    exact .stay
  | cons top below =>
    rw [frames] at unwinds matched
    dsimp only
    by_cases same : top = eip
    · subst same
      simp only [ne_eq, not_true_eq_false, if_false, if_true]
      exact .leave top (.inl rfl)
    · rw [if_pos same]
      unfold unwindTo
      by_cases member : eip ∈ top :: below
      · have allowed : unwound := by
          obtain head | absent | allowed := unwinds
          · exact absurd (Option.some.inj head) same
          · exact absurd member absent
          · exact allowed
        obtain ⟨rest, head⟩ := unwind_head member true
        have unwinding : Moves unwound ignored silent (top :: below) (unwind true eip (top :: below)).2
            (unwind true eip (top :: below)).1 := unwind_moves allowed eip (top :: below)
        rw [head] at unwinding
        simp only [if_pos member, if_true, head, List.tail_cons, List.append_assoc]
        exact .append unwinding (.leave eip (.inl rfl))
      · have allowed : ignored := by
          obtain empty | present | allowed := matched
          · cases empty
          · exact absurd present member
          · exact allowed
        simp only [if_neg member, Bool.false_eq_true, if_false, List.nil_append]
        exact .ignore eip allowed

theorem routineAssert_moves
    (unwinds : thread.stack.head? = some eip ∨ eip ∉ thread.stack ∨ esp ≤ thread.lastEsp ∨ unwound) :
    Moves unwound ignored silent thread.stack (routineAssert true eip esp thread).2 (routineAssert true eip esp thread).1.stack := by
  unfold routineAssert
  split
  case h_1 frames => exact routineEnter_moves
  case h_2 top below frames =>
    split
    case isTrue => exact .stay
    case isFalse other =>
      split
      case isTrue => exact routineEnter_moves
      case isFalse shrank =>
        unfold unwindTo
        by_cases member : eip ∈ thread.stack
        · have allowed : unwound := by
            obtain head | absent | grew | allowed := unwinds
            · rw [frames] at head
              exact absurd (Option.some.inj head) other
            · exact absurd member absent
            · exact absurd grew shrank
            · exact allowed
          simp only [if_pos member, if_true]
          exact unwind_moves allowed eip thread.stack
        · simp only [if_neg member, Bool.false_eq_true, if_false]
          exact routineEnter_moves

theorem exitFrames_moves {eipChild : IntPtr} (named : eipChild ≠ 0) (stack : CallStack) :
    exitFrames eipChild stack = childExit true stack eipChild ++ exitFrames 0 stack := by
  cases stack with
  | nil => rfl
  | cons frame below => simp [exitFrames, childExit, notify, named]

theorem hookRoiEnd_moves (named : 0 ∉ stack.dropLast ∨ silent) :
    Moves unwound ignored silent stack (hookRoiEnd stack) [] := by
  unfold hookRoiEnd
  induction stack with
  | nil => exact .stay
  | cons top below ih =>
    have behind : 0 ∉ below.dropLast ∨ silent := by
      refine named.imp_left fun named member => named ?_
      cases below with
      | nil => cases member
      | cons next rest => exact List.mem_cons_of_mem _ member
    by_cases zero : top = 0
    · subst zero
      cases below with
      | nil => exact .leave 0 (.inl rfl)
      | cons next rest =>
        have allowed : silent := named.resolve_left fun named => named List.mem_cons_self
        have leaves : exitFrames 0 (0 :: next :: rest) =
            [(0 :: next :: rest, .functionExit 0)] ++ exitFrames 0 (next :: rest) := rfl
        rw [leaves]
        exact .append (.leaveSilently allowed) (ih behind)
    · have leaves : exitFrames 0 (top :: below) =
          ((top :: below, .functionExit top) :: childExit true below top) ++ exitFrames 0 below := by
        rw [exitFrames, exitFrames_moves zero]
        rfl
      rw [leaves]
      exact .append (.leave top (.inl rfl)) (ih behind)

end Moves

/-! ## Outside the ROI -/

section Outside

variable {eip esp : IntPtr} {thread : Thread} {stack : CallStack}

theorem childEnter_outside : childEnter false stack eip = [] := by
  cases stack <;> rfl

theorem childExit_outside : childExit false stack eip = [] := by
  cases stack <;> rfl

theorem unwind_outside : (unwind false eip stack).2 = [] := by
  induction stack with
  | nil => rfl
  | cons top below ih =>
    unfold unwind
    split
    case isTrue => rfl
    case isFalse => simp [notify, childExit_outside, ih]

theorem unwindTo_outside : (unwindTo false eip stack).2.2 = [] := by
  unfold unwindTo
  split
  case isTrue => exact unwind_outside
  case isFalse => rfl

theorem routineEnter_outside {callEip : IntPtr} : (routineEnter false eip esp callEip thread).2 = [] := by
  simp [routineEnter, notify, childEnter_outside]

theorem routineExit_outside : (routineExit false eip esp thread).2 = [] := by
  unfold routineExit
  split
  case h_1 => rfl
  case h_2 top below frames =>
    have unwinds := @unwindTo_outside eip thread.stack
    dsimp only
    rw [childExit_outside, List.append_nil]
    by_cases same : top = eip
    · simp [same, notify]
    · rw [if_pos same]
      split
      case isTrue => simp [notify, unwinds]
      case isFalse => exact unwinds

theorem routineAssert_outside : (routineAssert false eip esp thread).2 = [] := by
  unfold routineAssert
  split
  case h_1 => exact routineEnter_outside
  case h_2 top below frames =>
    split
    case isTrue => rfl
    case isFalse =>
      split
      case isTrue => exact routineEnter_outside
      case isFalse =>
        dsimp only
        split
        case isTrue => exact unwindTo_outside
        case isFalse => exact routineEnter_outside

end Outside

/-! ## What an event does -/

/-- The event leaves frames above the one of its routine. -/
def Unwinds (state : State) : Event → Prop
  | .routineExit eip _ => state.thread.stack.head? ≠ some eip ∧ eip ∈ state.thread.stack
  | .routineAssert eip esp =>
    state.thread.stack.head? ≠ some eip ∧ eip ∈ state.thread.stack ∧ state.thread.lastEsp < esp
  | _ => False

/-- The event is the exit of a routine without a frame, in another one. -/
def Ignored (state : State) : Event → Prop
  | .routineExit eip _ => state.thread.stack ≠ [] ∧ eip ∉ state.thread.stack
  | _ => False

/-- The event leaves a frame of address 0 that has been called by another frame, at the end of the ROI. -/
def Silent (state : State) : Event → Prop
  | .setPerformance enabled => enabled = false ∧ 0 ∈ state.thread.stack.dropLast
  | _ => False

/-- Nothing happens outside the ROI, frames are entered and left in it, and its begin and end enter and leave all. -/
theorem handle_cases (state : State) (event : Event) :
    (state.inROI = false ∧ (handle state event).1.inROI = false ∧ (handle state event).2 = []) ∨
      (state.inROI = true ∧ (handle state event).1.inROI = true ∧
        Moves (Unwinds state event) (Ignored state event) (Silent state event) state.thread.stack (handle state event).2
          (handle state event).1.thread.stack) ∨
      (state.inROI = false ∧ event = .setPerformance true ∧ (handle state event).1 = { state with inROI := true } ∧
        (handle state event).2 = hookRoiBegin state.thread.stack) ∨
      state.inROI = true ∧ (handle state event).1 = { state with inROI := false } ∧
        Moves (Unwinds state event) (Ignored state event) (Silent state event) state.thread.stack (handle state event).2 [] := by
  cases inside : state.inROI with
  | false =>
    cases event with
    | routineEnter eip esp callEip =>
      refine .inl ⟨rfl, inside, ?_⟩
      simp only [handle, inside, routineEnter_outside]
    | routineExit eip esp =>
      refine .inl ⟨rfl, inside, ?_⟩
      simp only [handle, inside, routineExit_outside]
    | routineAssert eip esp =>
      refine .inl ⟨rfl, inside, ?_⟩
      simp only [handle, inside, routineAssert_outside]
    | setPerformance enabled =>
      cases enabled with
      | false => exact .inl ⟨rfl, by simp [handle, setPerformance, inside]⟩
      | true => exact .inr (.inr (.inl ⟨rfl, rfl, by simp [handle, setPerformance, inside]⟩))
  | true =>
    cases event with
    | routineEnter eip esp callEip =>
      refine .inr (.inl ⟨rfl, inside, ?_⟩)
      simp only [handle, inside]
      exact routineEnter_moves
    | routineExit eip esp =>
      refine .inr (.inl ⟨rfl, inside, ?_⟩)
      simp only [handle, inside]
      apply routineExit_moves
      · by_cases top : state.thread.stack.head? = some eip
        · exact .inl top
        · by_cases member : eip ∈ state.thread.stack
          · exact .inr (.inr ⟨top, member⟩)
          · exact .inr (.inl member)
      · by_cases empty : state.thread.stack = []
        · exact .inl empty
        · by_cases member : eip ∈ state.thread.stack
          · exact .inr (.inl member)
          · exact .inr (.inr ⟨empty, member⟩)
    | routineAssert eip esp =>
      refine .inr (.inl ⟨rfl, inside, ?_⟩)
      simp only [handle, inside]
      apply routineAssert_moves
      by_cases top : state.thread.stack.head? = some eip
      · exact .inl top
      · by_cases member : eip ∈ state.thread.stack
        · by_cases grew : esp ≤ state.thread.lastEsp
          · exact .inr (.inr (.inl grew))
          · exact .inr (.inr (.inr ⟨top, member, Nat.lt_of_not_le grew⟩))
        · exact .inr (.inl member)
    | setPerformance enabled =>
      cases enabled with
      | true =>
        refine .inr (.inl ⟨rfl, ?_⟩)
        simp only [handle, setPerformance, inside, if_true, true_and]
        exact .stay
      | false =>
        refine .inr (.inr (.inr ⟨rfl, ?_⟩))
        simp only [handle, setPerformance, inside, Bool.true_eq_false, Bool.false_eq_true, if_false, true_and]
        apply hookRoiEnd_moves
        by_cases member : 0 ∈ state.thread.stack.dropLast
        · exact .inr ⟨rfl, member⟩
        · exact .inl member

end Sniper.System.RoutineTracer

import Sniper.System.RoutineTracer
import Mathlib.Logic.Function.Basic

/-! `RoutineTracerFunctionStats`: the statistics of a thread, by routine and by call stack. -/

namespace Sniper.System.RoutineTracer

abbrev ThreadStatType := Nat

abbrev RtnValues := ThreadStatType → UInt64

structure Routine where
  calls : UInt64
  values : RtnValues

def Routine.empty : Routine := ⟨0, fun _ => 0⟩

def Routine.add (calls : UInt64) (values : RtnValues) (routine : Routine) : Routine :=
  ⟨routine.calls + calls, fun type => routine.values type + values type⟩

structure RtnMaster where
  routines : IntPtr → Option Routine
  callstackRoutines : CallStack → Option Routine

namespace RtnMaster

/-- Statistics for a routine that is not known yet go to a provisional record. -/
def updateRoutine (eip : IntPtr) (calls : UInt64) (values : RtnValues) (master : RtnMaster) : RtnMaster :=
  let routine := (master.routines eip).getD .empty
  { master with routines := Function.update master.routines eip (some (routine.add calls values)) }

/-- The record of the stack exists afterwards, and so does the one of the routine on top. -/
def getRoutineFullPtr (stack : CallStack) (master : RtnMaster) : RtnMaster where
  routines :=
    match stack with
    | [] => master.routines
    | top :: _ => Function.update master.routines top (some ((master.routines top).getD .empty))
  callstackRoutines :=
    Function.update master.callstackRoutines stack (some ((master.callstackRoutines stack).getD .empty))

def updateRoutineFull (stack : CallStack) (calls : UInt64) (values : RtnValues) (master : RtnMaster) : RtnMaster :=
  let known := master.getRoutineFullPtr stack
  let routine := (known.callstackRoutines stack).getD .empty
  { known with callstackRoutines := Function.update known.callstackRoutines stack (some (routine.add calls values)) }

def flat (master : RtnMaster) (eip : IntPtr) : RtnValues := ((master.routines eip).getD .empty).values

def full (master : RtnMaster) (stack : CallStack) : RtnValues := ((master.callstackRoutines stack).getD .empty).values

end RtnMaster

/-- `RtnThread`, without what the routine tracer has. -/
structure RtnThread where
  valuesStart : RtnValues
  valuesStartFull : CallStack → RtnValues

structure Profile where
  thread : RtnThread
  master : RtnMaster

def functionBegin (stats : RtnValues) (stack : CallStack) (profile : Profile) : Profile :=
  { profile with thread :=
      { valuesStart := stats
        valuesStartFull :=
          if stack = [] then profile.thread.valuesStartFull
          else Function.update profile.thread.valuesStartFull stack stats } }

def functionEnd (stats : RtnValues) (stack : CallStack) (eip : IntPtr) (isFunctionStart : Bool) (profile : Profile) :
    Profile :=
  let count := if isFunctionStart then 1 else 0
  let master := profile.master.updateRoutine eip count fun type => stats type - profile.thread.valuesStart type
  { profile with master :=
      if stack = [] then master
      else master.updateRoutineFull stack count fun type => stats type - profile.thread.valuesStartFull stack type }

/-- The tracer of the function profile, with the current statistics of the thread. -/
def receive (stats : RtnValues) (profile : Profile) (call : CallStack × Notification) : Profile :=
  match call.2 with
  | .functionEnter _ _ => functionBegin stats call.1 profile
  | .functionExit eip => functionEnd stats call.1 eip true profile
  | .functionChildEnter eip _ => functionEnd stats call.1 eip false profile
  | .functionChildExit _ _ => functionBegin stats call.1 profile

/-! ## Runs -/

/-- A thread with its profile, and what each routine and each call stack should have got so far. -/
structure Run where
  tracer : State
  stats : RtnValues
  profile : Profile
  flat : IntPtr → RtnValues
  full : CallStack → RtnValues

inductive Label where
  | event (event : Event)
  | grow (growth : RtnValues)

/-- The growth belongs to the routine on top and to the whole stack. -/
def Run.grow (growth : RtnValues) (run : Run) : Run :=
  let grown : Run := { run with stats := fun type => run.stats type + growth type }
  match run.tracer.told with
  | [] => grown
  | top :: below =>
    { grown with
      flat := Function.update run.flat top fun type => run.flat top type + growth type
      full := Function.update run.full (top :: below) fun type => run.full (top :: below) type + growth type }

def Run.handle (event : Event) (run : Run) : Run :=
  let handled := RoutineTracer.handle run.tracer event
  { run with tracer := handled.1, profile := handled.2.foldl (receive run.stats) run.profile }

def profileMachine : Machine Run Label Empty where
  initial run := run.tracer.thread.stack = [] ∧ run.profile.master = ⟨fun _ => none, fun _ => none⟩ ∧
    run.flat = (fun _ _ => 0) ∧ run.full = fun _ _ => 0
  step run label :=
    match label with
    | .event event => .ok (run.handle event)
    | .grow growth => .ok (run.grow growth)

/-- A routine without a frame exits in the ROI with statistics that have grown since the last call of the tracer, or the
ROI ends with a frame of address 0 above another one. -/
def Miscounted (run : Run) : Label → Prop
  | .event event => run.tracer.inROI = true ∧
      (Ignored run.tracer event ∧ run.profile.thread.valuesStart ≠ run.stats ∨ Silent run.tracer event)
  | .grow _ => False

/-! ## What the tracer adds -/

namespace RtnMaster

variable {master : RtnMaster} {eip : IntPtr} {stack : CallStack} {calls : UInt64} {values : RtnValues}

theorem updateRoutine_flat (other : IntPtr) (type : ThreadStatType) : (master.updateRoutine eip calls values).flat other type =
    master.flat other type + if other = eip then values type else 0 := by
  unfold updateRoutine flat
  by_cases same : other = eip
  · subst same
    simp [Routine.add]
  · simp [same]

theorem updateRoutine_full : (master.updateRoutine eip calls values).full = master.full := rfl

theorem updateRoutineFull_flat : (master.updateRoutineFull stack calls values).flat = master.flat := by
  funext other
  unfold updateRoutineFull getRoutineFullPtr flat
  cases stack with
  | nil => rfl
  | cons top below =>
    by_cases same : other = top
    · subst same
      simp
    · simp [same]

theorem updateRoutineFull_full (other : CallStack) (type : ThreadStatType) :
    (master.updateRoutineFull stack calls values).full other type =
      master.full other type + if other = stack then values type else 0 := by
  unfold updateRoutineFull getRoutineFullPtr full
  by_cases same : other = stack
  · subst same
    simp [Routine.add]
  · simp [same]

end RtnMaster

/-! ## What is still to be added -/

section Exact

variable {stats : RtnValues} {flat : IntPtr → RtnValues} {full : CallStack → RtnValues} {stack : CallStack} {profile : Profile}

/-- The profile lacks what has grown for the stack since the last call of the tracer, and nothing else. -/
structure Exact (stats : RtnValues) (flat : IntPtr → RtnValues) (full : CallStack → RtnValues) (stack : CallStack)
    (profile : Profile) : Prop where
  flat : ∀ eip type, flat eip type =
    profile.master.flat eip type + if stack.head? = some eip then stats type - profile.thread.valuesStart type else 0
  full : ∀ frames type, full frames type =
    profile.master.full frames type + if stack ≠ [] ∧ frames = stack then stats type - profile.thread.valuesStart type else 0
  starts : stack ≠ [] → profile.thread.valuesStartFull stack = profile.thread.valuesStart

/-- The profile lacks nothing, and the interval of the stack starts now. -/
structure Fresh (stats : RtnValues) (flat : IntPtr → RtnValues) (full : CallStack → RtnValues) (stack : CallStack)
    (profile : Profile) : Prop where
  settled : Exact stats flat full [] profile
  valuesStart : profile.thread.valuesStart = stats
  valuesStartFull : profile.thread.valuesStartFull stack = stats

theorem Exact.settled_flat (exact_ : Exact stats flat full [] profile) (eip : IntPtr) (type : ThreadStatType) :
    flat eip type = profile.master.flat eip type := by
  simpa using exact_.flat eip type

theorem Exact.settled_full (exact_ : Exact stats flat full [] profile) (frames : CallStack) (type : ThreadStatType) :
    full frames type = profile.master.full frames type := by
  simpa using exact_.full frames type

theorem Exact.of_settled (settledFlat : ∀ eip type, flat eip type = profile.master.flat eip type)
    (settledFull : ∀ frames type, full frames type = profile.master.full frames type) :
    Exact stats flat full [] profile where
  flat := by simpa using settledFlat
  full := by simpa using settledFull
  starts some := absurd rfl some

theorem Fresh.exact (fresh : Fresh stats flat full stack profile) : Exact stats flat full stack profile where
  flat eip type := by simp [fresh.settled.settled_flat, fresh.valuesStart]
  full frames type := by simp [fresh.settled.settled_full, fresh.valuesStart]
  starts _ := by rw [fresh.valuesStart, fresh.valuesStartFull]

theorem Exact.settle (exact_ : Exact stats flat full stack profile) (starts : profile.thread.valuesStart = stats) :
    Exact stats flat full [] profile := by
  apply Exact.of_settled
  · intro eip type
    simp [exact_.flat, starts]
  · intro frames type
    simp [exact_.full, starts]

theorem functionBegin_fresh (exact_ : Exact stats flat full [] profile) (some : stack ≠ []) :
    Fresh stats flat full stack (functionBegin stats stack profile) where
  settled := .of_settled exact_.settled_flat exact_.settled_full
  valuesStart := rfl
  valuesStartFull := by simp [functionBegin, some]

theorem functionEnd_settled (top : IntPtr) (below : CallStack) (isFunctionStart : Bool)
    (exact_ : Exact stats flat full (top :: below) profile) :
    Exact stats flat full [] (functionEnd stats (top :: below) top isFunctionStart profile) := by
  have starts := exact_.starts (List.cons_ne_nil _ _)
  apply Exact.of_settled
  · intro eip type
    simp only [functionEnd, List.cons_ne_nil, if_false, RtnMaster.updateRoutineFull_flat, RtnMaster.updateRoutine_flat,
      exact_.flat, List.head?_cons, Option.some.injEq, @eq_comm _ top eip]
  · intro frames type
    simp only [functionEnd, List.cons_ne_nil, if_false, RtnMaster.updateRoutineFull_full, RtnMaster.updateRoutine_full,
      exact_.full, ne_eq, not_false_eq_true, true_and, starts]

theorem functionEnd_fresh (eip : IntPtr) (isFunctionStart : Bool) (some : stack ≠ []) (fresh : Fresh stats flat full stack profile) :
    Fresh stats flat full stack (functionEnd stats stack eip isFunctionStart profile) where
  settled := by
    apply Exact.of_settled
    · intro other type
      simp [functionEnd, some, RtnMaster.updateRoutineFull_flat, RtnMaster.updateRoutine_flat, fresh.settled.settled_flat,
        fresh.valuesStart]
    · intro frames type
      simp [functionEnd, some, RtnMaster.updateRoutineFull_full, RtnMaster.updateRoutine_full, fresh.settled.settled_full,
        fresh.valuesStartFull]
  valuesStart := fresh.valuesStart
  valuesStartFull := fresh.valuesStartFull

/-! ## The calls for an event -/

/-- The start of the interval, where a routine without a frame exits. -/
def Started (ignored : Prop) (stats : RtnValues) (stack : CallStack) (profile : Profile) : Prop :=
  ignored → stack ≠ [] → profile.thread.valuesStart = stats

variable {unwound ignored silent : Prop} {next : CallStack} {calls : Notifications}

theorem childExit_exact (child : IntPtr) (exact_ : Exact stats flat full [] profile) :
    Exact stats flat full stack ((childExit true stack child).foldl (receive stats) profile) ∧
      Started ignored stats stack ((childExit true stack child).foldl (receive stats) profile) := by
  cases stack with
  | nil => exact ⟨exact_, fun _ some => absurd rfl some⟩
  | cons top below =>
    have fresh := functionBegin_fresh exact_ (List.cons_ne_nil top below)
    exact ⟨fresh.exact, fun _ _ => fresh.valuesStart⟩

theorem childEnter_exact (eip : IntPtr) (exact_ : Exact stats flat full stack profile) :
    Exact stats flat full [] ((childEnter true stack eip).foldl (receive stats) profile) := by
  cases stack with
  | nil => exact exact_
  | cons top below => exact functionEnd_settled top below false exact_

theorem Moves.exact (moves : Moves unwound ignored silent stack calls next) (told : ¬silent)
    (exact_ : Exact stats flat full stack profile) (started : Started ignored stats stack profile) :
    Exact stats flat full next (calls.foldl (receive stats) profile) ∧
      Started ignored stats next (calls.foldl (receive stats) profile) := by
  induction moves generalizing profile with
  | stay => exact ⟨exact_, started⟩
  | @enter stack eip callEip =>
    rw [List.foldl_append]
    have fresh := functionBegin_fresh (childEnter_exact eip exact_) (List.cons_ne_nil eip stack)
    exact ⟨fresh.exact, fun _ _ => fresh.valuesStart⟩
  | @leave top below child _ =>
    rw [List.foldl_cons]
    exact childExit_exact child (functionEnd_settled top below true exact_)
  | leaveSilently silent => exact absurd silent told
  | @ignore stack eip ignored =>
    cases stack with
    | nil => exact ⟨exact_, started⟩
    | cons top below => exact childExit_exact eip (exact_.settle (started ignored (List.cons_ne_nil _ _)))
  | append _ _ first second =>
    rw [List.foldl_append]
    obtain ⟨exact_, started⟩ := first exact_ started
    exact second exact_ started

theorem enterFrames_fresh (some : stack ≠ []) (parent : IntPtr) (frames : List IntPtr)
    (fresh : Fresh stats flat full stack profile) :
    Fresh stats flat full stack ((enterFrames stack parent frames).foldl (receive stats) profile) := by
  induction frames generalizing parent profile with
  | nil => exact fresh
  | cons frame above ih =>
    rw [enterFrames, List.foldl_append, List.foldl_cons]
    apply ih
    apply functionBegin_fresh _ some
    split
    case isTrue => exact (functionEnd_fresh parent false some fresh).settled
    case isFalse => exact fresh.settled

theorem hookRoiBegin_exact (exact_ : Exact stats flat full [] profile) :
    Exact stats flat full stack ((hookRoiBegin stack).foldl (receive stats) profile) := by
  unfold hookRoiBegin
  cases frames : stack.reverse with
  | nil =>
    cases List.reverse_eq_nil_iff.mp frames
    exact exact_
  | cons frame above =>
    have some : stack ≠ [] := by
      intro empty
      rw [empty] at frames
      cases frames
    have first : (enterFrames stack 0 (frame :: above)).foldl (receive stats) profile =
        (enterFrames stack frame above).foldl (receive stats) (functionBegin stats stack profile) := rfl
    rw [first]
    exact (enterFrames_fresh some frame above (functionBegin_fresh exact_ some)).exact

theorem handle_exact {state : State} {event : Event}
    (counted : state.inROI = true → (Ignored state event → profile.thread.valuesStart = stats) ∧ ¬Silent state event)
    (exact_ : Exact stats flat full state.told profile) :
    Exact stats flat full (handle state event).1.told ((handle state event).2.foldl (receive stats) profile) := by
  unfold State.told at exact_ ⊢
  obtain ⟨outside, stays, quiet⟩ | ⟨inside, stays, moves⟩ | ⟨outside, -, begins, calls⟩ | ⟨inside, ends, moves⟩ :=
    handle_cases state event
  · rw [outside] at exact_
    rw [stays, quiet]
    exact exact_
  · obtain ⟨ignored, told⟩ := counted inside
    rw [inside] at exact_
    rw [stays]
    exact (moves.exact told exact_ fun ignores _ => ignored ignores).1
  · rw [outside] at exact_
    rw [begins, calls]
    exact hookRoiBegin_exact exact_
  · obtain ⟨ignored, told⟩ := counted inside
    rw [inside] at exact_
    rw [ends]
    exact (moves.exact told exact_ fun ignores _ => ignored ignores).1

end Exact

/-! ## Runs -/

def Run.Exact (run : Run) : Prop :=
  RoutineTracer.Exact run.stats run.flat run.full run.tracer.told run.profile

theorem grow_exact {run : Run} (growth : RtnValues) (exact_ : run.Exact) : (run.grow growth).Exact := by
  unfold Run.Exact at exact_ ⊢
  unfold Run.grow
  cases told : run.tracer.told with
  | nil =>
    rw [told] at exact_
    dsimp only
    rw [told]
    exact .of_settled exact_.settled_flat exact_.settled_full
  | cons top below =>
    rw [told] at exact_
    dsimp only
    rw [told]
    constructor
    · intro eip type
      by_cases same : eip = top
      · subst same
        have before := exact_.flat eip type
        simp only [List.head?_cons, if_true] at before ⊢
        rw [Function.update_self, before]
        grind
      · have other : ¬some top = some eip := fun equal => same (Option.some.inj equal).symm
        simp only [Function.update_of_ne same, exact_.flat, List.head?_cons, other, if_false]
    · intro frames type
      by_cases same : frames = top :: below
      · subst same
        have before := exact_.full (top :: below) type
        simp only [ne_eq, List.cons_ne_nil, not_false_eq_true, and_self, if_true] at before ⊢
        rw [Function.update_self, before]
        grind
      · simp only [Function.update_of_ne same, exact_.full, same, and_false, if_false]
    · exact exact_.starts

/-- In runs without miscounted events, once no frame is left or the ROI has ended, each routine has got what has grown
while it was on top, and each call stack what has grown while it was the stack of the thread. -/
theorem profile_exact {run : Run} (reached : profileMachine.Reach (fun run label => ¬Miscounted run label) run)
    (over_ : run.tracer.thread.stack = [] ∨ run.tracer.inROI = false) :
    (∀ eip, run.profile.master.flat eip = run.flat eip) ∧ ∀ stack, run.profile.master.full stack = run.full stack := by
  have exact_ : run.Exact := by
    refine reached.invariant Run.Exact ?_ ?_
    · intro run starts
      obtain ⟨empty, master, flat, full⟩ := starts
      have told : run.tracer.told = [] := by simp [State.told, empty]
      unfold Run.Exact
      rw [told]
      apply Exact.of_settled
      · intro eip type
        rw [flat, master]
        rfl
      · intro frames type
        rw [full, master]
        rfl
    · intro run label next holds counted stepped
      cases label with
      | grow growth =>
        cases stepped
        exact grow_exact growth holds
      | event event =>
        cases stepped
        refine handle_exact (fun inside => ⟨fun ignored => ?_, fun silent => ?_⟩) holds
        · apply Classical.not_not.mp
          exact fun grown => counted ⟨inside, .inl ⟨ignored, grown⟩⟩
        · exact counted ⟨inside, .inr silent⟩
  have told : run.tracer.told = [] := by
    unfold State.told
    obtain empty | outside := over_
    · simp [empty]
    · simp [outside]
  unfold Run.Exact at exact_
  rw [told] at exact_
  constructor
  · intro eip
    funext type
    exact (exact_.settled_flat eip type).symm
  · intro stack
    funext type
    exact (exact_.settled_full stack type).symm

/-- A thread in the ROI before its first routine. -/
def Run.start : Run where
  tracer := ⟨⟨[], 0⟩, true⟩
  stats _ := 0
  profile := ⟨⟨fun _ => 0, fun _ _ => 0⟩, ⟨fun _ => none, fun _ => none⟩⟩
  flat _ _ := 0
  full _ _ := 0

/-- Routine 1 runs for 5 and then for 2, after it has called routine 2, which runs for 3. -/
theorem profile_exact_call :
    ∃ run : Run, run.profile.master.flat 1 0 = 7 ∧ run.profile.master.flat 2 0 = 3 ∧
      ∀ stack, run.profile.master.full stack = run.full stack := by
  have start : profileMachine.Reach (fun run label => ¬Miscounted run label) Run.start := .initial ⟨rfl, rfl, rfl, rfl⟩
  have first := start.step (.event (.routineEnter 1 8 0)) (by simp [Miscounted, Ignored, Silent]) rfl
  have worked := first.step (.grow fun _ => 5) (by simp [Miscounted]) rfl
  have called := worked.step (.event (.routineEnter 2 4 0)) (by simp [Miscounted, Ignored, Silent]) rfl
  have nested := called.step (.grow fun _ => 3) (by simp [Miscounted]) rfl
  have returned := nested.step (.event (.routineExit 2 8))
    (by simp [Miscounted, Ignored, Silent, Run.handle, Run.grow, handle, routineEnter, State.told, Run.start]) rfl
  have again := returned.step (.grow fun _ => 2) (by simp [Miscounted]) rfl
  have left := again.step (.event (.routineExit 1 12))
    (by simp [Miscounted, Ignored, Silent, Run.handle, Run.grow, handle, routineEnter, routineExit, State.told, Run.start]) rfl
  exact ⟨_, by decide, by decide, (profile_exact left (.inl rfl)).2⟩

/-- The exit of a routine without a frame starts the interval of the routine on top again. -/
theorem unmatched_exit_loses :
    ¬ ∀ run, profileMachine.Reachable run → run.tracer.thread.stack = [] → ∀ eip, run.profile.master.flat eip = run.flat eip := by
  intro right
  have start : profileMachine.Reachable Run.start := .initial ⟨rfl, rfl, rfl, rfl⟩
  have first := start.step (.event (.routineEnter 1 8 0)) trivial rfl
  have worked := first.step (.grow fun _ => 5) trivial rfl
  have unmatched := worked.step (.event (.routineExit 2 8)) trivial rfl
  have left := unmatched.step (.event (.routineExit 1 12)) trivial rfl
  have lost := congrFun (right _ left rfl 1) 0
  exact absurd lost (by decide)

end Sniper.System.RoutineTracer

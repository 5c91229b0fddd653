import Sniper.Library.LineScan
import Sniper.Library.Runs

/-! `TraceThread::handleOutputFunc`: the output of the application, line by line.

The bytes are items of any type, so that equal bytes of two calls can be told apart. -/

namespace Sniper.TraceFrontend

/-- `sizeof(m_output_leftover)` -/
def outputLeftoverSize : Nat := 160

inductive File where
  | stdout
  | stderr
deriving DecidableEq, Repr

/-- `fp`, if the output of the descriptor is printed at all. -/
def File.ofFd (fd : UInt8) : Option File := if fd = 1 then some .stdout else if fd = 2 then some .stderr else none

variable {α : Type u} (byte : α → UInt8)

/-- A `'\r'` or a `'\n'` -/
def isLineEnd (item : α) : Bool := byte item == 13 || byte item == 10

theorem head_dropWhile {p : α → Bool} {data after : List α} {first : α}
    (stopped : data.dropWhile (fun item => !p item) = first :: after) : p first = true := by
  have negated := List.head?_dropWhile_not (fun item => !p item) data
  rw [stopped] at negated
  simpa using negated

theorem length_dropWhile_lt {p : α → Bool} {data : List α} (more : data.dropWhile (fun item => !p item) ≠ []) :
    ((data.dropWhile fun item => !p item).dropWhile p).length < data.length := by
  have shorter := (List.dropWhile_suffix fun item => !p item : data.dropWhile _ <:+ data).length_le
  cases stopped : data.dropWhile fun item => !p item with
  | nil => exact absurd stopped more
  | cons first after =>
    rw [stopped, List.length_cons] at shorter
    rw [List.dropWhile_cons_of_pos (head_dropWhile stopped)]
    exact Nat.lt_of_le_of_lt (List.dropWhile_suffix p : after.dropWhile p <:+ after).length_le shorter

/-- The loop: the lines that are printed, each after "[TRACE:id] ", and `m_output_leftover`. -/
def mirrorLines (leftover data : List α) : List (List α) × List α :=
  if data.isEmpty = true then ([], leftover)
  else
    let ptr := data.dropWhile fun item => !isLineEnd byte item
    if ptr.isEmpty = true then ([], data.take outputLeftoverSize)
    else
      let later := mirrorLines [] (ptr.dropWhile (isLineEnd byte))
      ((leftover ++ data.takeWhile fun item => !isLineEnd byte item) :: later.1, later.2)
termination_by data.length
decreasing_by
  rename_i more
  exact length_dropWhile_lt fun empty => more (List.isEmpty_iff.mpr empty)

structure Output (α : Type u) where
  /-- `m_output_leftover`, up to `m_output_leftover_size` -/
  leftover : List α
  printed : File → List (List α)

def handleOutputFunc (fd : UInt8) (data : List α) (output : Output α) : Output α :=
  match File.ofFd fd with
  | none => output
  | some fp =>
    let result := mirrorLines byte output.leftover data
    { leftover := result.2, printed := Function.update output.printed fp (output.printed fp ++ result.1) }

/-! ## The loop as a scan -/

variable {byte} {leftover data : List α}

theorem takeWhile_ne_nil {p : α → Bool} (more : data.dropWhile (fun item => !p item) ≠ []) :
    (data.dropWhile fun item => !p item).takeWhile p ≠ [] := by
  cases stopped : data.dropWhile fun item => !p item with
  | nil => exact absurd stopped more
  | cons first after =>
    rw [List.takeWhile_cons_of_pos (head_dropWhile stopped)]
    exact List.cons_ne_nil _ _

theorem head_after_run {p : α → Bool} (data : List α) : (data.dropWhile p).head?.any p = false := by
  have negated := List.head?_dropWhile_not p data
  cases first : (data.dropWhile p).head? with
  | none => rfl
  | some item =>
    rw [first] at negated
    exact negated

/-- The lines are the pieces of a scan that starts with what was left, and what is kept is what the data leaves. -/
theorem mirrorLines_eq (leftover data : List α) :
    (mirrorLines byte leftover data).1 = (data.foldl (LineScan.next (isLineEnd byte)) ⟨[], leftover, false⟩).pieces ∧
      (data ≠ [] → (mirrorLines byte leftover data).2 = (LineScan.unterminated (isLineEnd byte) data).take outputLeftoverSize) := by
  fun_induction mirrorLines byte leftover data with
  | case1 leftover data empty =>
    have isNil := List.isEmpty_iff.mp empty
    subst isNil
    exact ⟨rfl, fun some => absurd rfl some⟩
  | case2 leftover data some ptr noEnd =>
    have items : ∀ item ∈ data, isLineEnd byte item = false := by
      intro item member
      simpa using List.dropWhile_eq_nil_iff.mp (List.isEmpty_iff.mp noEnd) item member
    rw [LineScan.foldl_of_items items, LineScan.unterminated_of_items items]
    exact ⟨rfl, fun _ => rfl⟩
  | case3 leftover data some ptr lineEnd later ih =>
    have stopped : ptr ≠ [] := fun isNil => lineEnd (List.isEmpty_iff.mpr isNil)
    have items : ∀ item ∈ data.takeWhile (fun item => !isLineEnd byte item), isLineEnd byte item = false := by
      intro item member
      simpa using List.mem_takeWhile_imp member
    have ends : ∀ item ∈ ptr.takeWhile (isLineEnd byte), isLineEnd byte item = true := fun item => List.mem_takeWhile_imp
    have nonempty := takeWhile_ne_nil stopped
    have parts : data.takeWhile (fun item => !isLineEnd byte item) ++
        (ptr.takeWhile (isLineEnd byte) ++ ptr.dropWhile (isLineEnd byte)) = data := by
      rw [List.takeWhile_append_dropWhile, List.takeWhile_append_dropWhile]
    obtain ⟨pieces, left⟩ := ih
    constructor
    · conv_rhs => rw [← parts]
      rw [LineScan.pieces_append_run items ends nonempty (head_after_run ptr), pieces]
      rfl
    · intro _
      obtain isNil | ⟨front, last, isRun⟩ := List.eq_nil_or_concat (ptr.takeWhile (isLineEnd byte))
      · exact absurd isNil nonempty
      · rw [isRun, List.concat_eq_append] at ends parts
        have isEnd := ends last List.mem_concat_self
        have ended : LineScan.unterminated (isLineEnd byte) data =
            LineScan.unterminated (isLineEnd byte) (ptr.dropWhile (isLineEnd byte)) := by
          conv_lhs => rw [← parts]
          rw [List.append_assoc, ← List.append_assoc, List.singleton_append]
          exact LineScan.unterminated_append_separator isEnd _ _
        rw [ended]
        by_cases finished : ptr.dropWhile (isLineEnd byte) = []
        · have isLater : later = mirrorLines byte [] (ptr.dropWhile (isLineEnd byte)) := rfl
          rw [isLater, finished, mirrorLines]
          rfl
        · exact left finished

/-! ## Runs -/

variable (byte)

structure Call (α : Type u) where
  fd : UInt8
  data : List α
deriving DecidableEq, Repr

/-- `stream` and `last` are not in the source: all that has been written to a file, and the data of the last call to either
that had any. -/
structure MirrorState (α : Type u) where
  output : Output α
  stream : File → List α
  last : List α

def MirrorState.start : MirrorState α := ⟨⟨[], fun _ => []⟩, fun _ => [], []⟩

def MirrorState.step (state : MirrorState α) (call : Call α) : MirrorState α where
  output := handleOutputFunc byte call.fd call.data state.output
  stream :=
    match File.ofFd call.fd with
    | none => state.stream
    | some fp => Function.update state.stream fp (state.stream fp ++ call.data)
  last := if (File.ofFd call.fd).isNone || call.data.isEmpty then state.last else call.data

/-- What is printed on a file does not depend on how its stream was cut, and consists of the items of its stream, each once and in
order. -/
structure MirrorState.Mirrored (state : MirrorState α) : Prop where
  uncut : ∀ fp, state.output.printed fp = (mirrorLines byte [] (state.stream fp)).1
  complete : ∀ fp, (state.output.printed fp).flatten ++ LineScan.unterminated (isLineEnd byte) (state.stream fp) =
    (state.stream fp).filter fun item => !isLineEnd byte item
  apart : ∀ fp, ∀ line ∈ state.output.printed fp, ∀ item ∈ line, item ∈ state.stream fp

/-- A call that completes a line of a file comes after a call whose unterminated end, of which 160 bytes are kept, is that of the file's
stream, and it does not start with a line end right after another. -/
def MirrorState.Continues (state : MirrorState α) (call : Call α) : Prop :=
  ∀ fp, File.ofFd call.fd = some fp → (∃ item ∈ call.data, isLineEnd byte item = true) →
    (LineScan.unterminated (isLineEnd byte) state.last).take outputLeftoverSize =
        LineScan.unterminated (isLineEnd byte) (state.stream fp) ∧
      ¬((state.stream fp).getLast?.any (isLineEnd byte) = true ∧ call.data.head?.any (isLineEnd byte) = true)


variable {byte} {state : MirrorState α}

/-- The lines of two calls are those of the uncut stream exactly when the second goes on where the first stopped. -/
theorem append_uncut_iff (byte : α → UInt8) (stream leftover data : List α) :
    (mirrorLines byte [] stream).1 ++ (mirrorLines byte leftover data).1 = (mirrorLines byte [] (stream ++ data)).1 ↔
      ((∃ item ∈ data, isLineEnd byte item = true) →
        leftover = LineScan.unterminated (isLineEnd byte) stream ∧
          ¬(stream.getLast?.any (isLineEnd byte) = true ∧ data.head?.any (isLineEnd byte) = true)) := by
  have scanned : LineScan.Scanned (isLineEnd byte) stream _ := LineScan.scanned_foldl stream
  rw [(mirrorLines_eq leftover data).1, (mirrorLines_eq [] stream).1, (mirrorLines_eq [] (stream ++ data)).1, List.foldl_append]
  rw [← scanned.tail, ← scanned.inRun, ← LineScan.pieces_eq_iff scanned.closed]
  have split : ∀ scan : LineScan α, (data.foldl (LineScan.next (isLineEnd byte)) scan).pieces =
      scan.pieces ++ (data.foldl (LineScan.next (isLineEnd byte)) ⟨[], scan.tail, scan.inRun⟩).pieces :=
    fun scan => LineScan.pieces_foldl scan.pieces scan.tail scan.inRun data
  rw [split (stream.foldl _ _), LineScan.start, List.append_right_inj]

/-- What is kept is determined by the last call. -/
def MirrorState.Invariant (byte : α → UInt8) (state : MirrorState α) : Prop :=
  state.output.leftover = (LineScan.unterminated (isLineEnd byte) state.last).take outputLeftoverSize

theorem MirrorState.Invariant.step (holds : state.Invariant byte) (call : Call α) : (state.step byte call).Invariant byte := by
  unfold MirrorState.Invariant MirrorState.step handleOutputFunc
  dsimp only
  cases File.ofFd call.fd with
  | none => exact holds
  | some fp =>
    cases isData : call.data with
    | nil =>
      rw [mirrorLines]
      exact holds
    | cons first more => exact (mirrorLines_eq _ _).2 (List.cons_ne_nil first more)

theorem mirrored_of_uncut (uncut : ∀ fp, state.output.printed fp = (mirrorLines byte [] (state.stream fp)).1) :
    state.Mirrored byte := by
  have complete (fp) : (state.output.printed fp).flatten ++ LineScan.unterminated (isLineEnd byte) (state.stream fp) =
      (state.stream fp).filter fun item => !isLineEnd byte item := by
    have scanned : LineScan.Scanned (isLineEnd byte) (state.stream fp) _ := LineScan.scanned_foldl (state.stream fp)
    rw [uncut fp, (mirrorLines_eq _ _).1, ← scanned.tail]
    exact scanned.items
  refine ⟨uncut, complete, fun fp line isPrinted item member => ?_⟩
  have among : item ∈ (state.output.printed fp).flatten ++ LineScan.unterminated (isLineEnd byte) (state.stream fp) :=
    List.mem_append_left _ (List.mem_flatten.mpr ⟨line, isPrinted, member⟩)
  rw [complete fp] at among
  exact List.mem_of_mem_filter among

theorem mirrored_step_iff (holds : state.Invariant byte) (mirrored : state.Mirrored byte) (call : Call α) :
    (state.step byte call).Mirrored byte ↔ state.Continues byte call := by
  cases isFile : File.ofFd call.fd with
  | none =>
    have ignored : (state.step byte call).output = state.output ∧ (state.step byte call).stream = state.stream := by
      simp only [MirrorState.step, handleOutputFunc, isFile, and_self]
    refine iff_of_true (mirrored_of_uncut fun fp => ?_) fun fp isFp => nomatch isFile.symm.trans isFp
    rw [ignored.1, ignored.2]
    exact mirrored.uncut fp
  | some file =>
    have printed : (state.step byte call).output.printed =
        Function.update state.output.printed file
          (state.output.printed file ++ (mirrorLines byte state.output.leftover call.data).1) := by
      simp only [MirrorState.step, handleOutputFunc, isFile]
    have stream : (state.step byte call).stream = Function.update state.stream file (state.stream file ++ call.data) := by
      simp only [MirrorState.step, isFile]
    have atFile := append_uncut_iff byte (state.stream file) state.output.leftover call.data
    rw [← mirrored.uncut file, show state.output.leftover = _ from holds] at atFile
    constructor
    · intro after fp isFp
      obtain rfl : file = fp := Option.some.inj (isFile.symm.trans isFp)
      have here := after.uncut file
      rw [printed, stream, Function.update_self, Function.update_self, show state.output.leftover = _ from holds] at here
      exact atFile.mp here
    · intro continues
      refine mirrored_of_uncut fun fp => ?_
      rw [printed, stream, show state.output.leftover = _ from holds]
      by_cases same : fp = file
      · rw [same, Function.update_self, Function.update_self]
        exact atFile.mpr (continues file isFile)
      · rw [Function.update_of_ne same, Function.update_of_ne same]
        exact mirrored.uncut fp

/-- Exactly the runs whose calls all continue their streams print what the uncut streams do. -/
theorem mirrored_iff (byte : α → UInt8) (calls : List (Call α)) :
    AllStates (MirrorState.step byte) (MirrorState.Mirrored byte) MirrorState.start calls ↔
      AllSteps (MirrorState.step byte) (MirrorState.Continues byte) MirrorState.start calls := by
  refine allStates_iff_allSteps (fun _ call holds _ _ => holds.step call) (fun _ call holds mirrored => mirrored_step_iff holds mirrored call)
    ?_ (mirrored_of_uncut fun _ => ?_)
  · rfl
  · rw [MirrorState.start, mirrorLines]
    rfl

/-- "a", "b" and "c\n" in three calls: what is kept of the first is lost with the second. -/
theorem not_mirrored_overwritten :
    ¬∀ calls : List (Call UInt8), AllStates (MirrorState.step id) (MirrorState.Mirrored id) MirrorState.start calls := by
  intro all
  obtain ⟨_, _, before, after⟩ := all [⟨1, [97]⟩, ⟨1, [98]⟩, ⟨1, [99, 10]⟩]
  have starts : MirrorState.start.Invariant (id : UInt8 → UInt8) := rfl
  have continues := (mirrored_step_iff ((starts.step ⟨1, [97]⟩).step ⟨1, [98]⟩) before ⟨1, [99, 10]⟩).mp after
  exact absurd (continues .stdout rfl ⟨10, by decide, rfl⟩).1 (by decide)

end Sniper.TraceFrontend

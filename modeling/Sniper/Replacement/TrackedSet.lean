import Sniper.Replacement.CacheSet

/-! A set of a cache below the first level, with what happened to its lines since they were inserted. -/

namespace Sniper.Replacement

structure Tracking (policy : Policy) (Line : Type) where
  inserted : policy.State → Nat → Call → Line
  readHit : Line → Line
  writtenBack : Line → Line

/-- A set with the ways that were used, the last one first, and the line that was inserted last in each way. -/
structure TrackedSet {policy : Policy} {Line : Type} (tracking : Tracking policy Line) where
  set : CacheSet policy
  uses : List Nat
  lines : Nat → Option Line

inductive SetLabel where
  | insertSingleLine (tag : Tag) (call : Call)
  | retrieveCacheBlock (tag : Tag) (updateReplacement : Bool)
  /-- The write-back of a previous level, which leaves the replacement alone. -/
  | writeCacheBlock (tag : Tag)
  | setCState (tag : Tag) (cstate : CState)
  | invalidateSingleLine (tag : Tag)

namespace TrackedSet

variable {policy : Policy} {Line : Type} {tracking : Tracking policy Line}

def note (now : TrackedSet tracking) (way : Nat) (happens : Line → Line) : Nat → Option Line :=
  Function.update now.lines way ((now.lines way).map happens)

def step (setIndex : Nat) (now : TrackedSet tracking) : SetLabel → Except Fault (TrackedSet tracking)
  | .insertSingleLine tag call => do
      let call := { call with setIndex }
      let (_, way) ← policy.getReplacementIndex now.set.contents call now.set.fields
      let (set, _) ← now.set.insert2 ⟨tag, .invalid⟩ call
      Except.ok ⟨set, way :: now.uses, Function.update now.lines way (some (tracking.inserted now.set.fields way call))⟩
  | .retrieveCacheBlock tag updateReplacement =>
    match now.set.find tag with
    | some way => do
        let set ← now.set.readLine way updateReplacement setIndex
        if updateReplacement then Except.ok ⟨set, way :: now.uses, now.note way tracking.readHit⟩
        else Except.ok { now with set }
    | none => .ok now
  | .writeCacheBlock tag =>
    match now.set.find tag with
    | some way => do
        let set ← now.set.writeLine way false setIndex
        Except.ok { now with set, lines := now.note way tracking.writtenBack }
    | none => .ok now
  | .setCState tag cstate =>
    match now.set.find tag with
    | some way => .ok { now with set := now.set.setBlock way { now.set.blocks way with cstate } }
    | none => .ok now
  | .invalidateSingleLine tag => .ok { now with set := now.set.invalidate tag }

/-! ### What a step does -/

variable {now next : TrackedSet tracking} {setIndex : Nat} {label : SetLabel}

structure Inserts (setIndex : Nat) (now next : TrackedSet tracking) (tag : Tag) (call : Call) (index : Nat) : Prop where
  replaced : policy.getReplacementIndex now.set.contents { call with setIndex } now.set.fields = .ok (next.set.fields, index)
  uses : next.uses = index :: now.uses
  lines : next.lines = Function.update now.lines index (some (tracking.inserted now.set.fields index { call with setIndex }))
  blocks : next.set.blocks = Function.update now.set.blocks index ⟨tag, .invalid⟩

/-- A line is found and read, and the policy hears of it. -/
structure Hits (setIndex : Nat) (now next : TrackedSet tracking) (way : Nat) : Prop where
  isWay : way < policy.associativity
  valid : (now.set.blocks way).tag ≠ invalidTag
  updated : policy.updateReplacementIndex way 0 setIndex now.set.fields = .ok next.set.fields
  uses : next.uses = way :: now.uses
  lines : next.lines = now.note way tracking.readHit
  blocks : next.set.blocks = now.set.blocks

/-- The policy does not hear of the step. -/
structure Quiet (now next : TrackedSet tracking) : Prop where
  uses : next.uses = now.uses
  fields : next.set.fields = now.set.fields
  lines : ∀ way, next.lines way = now.lines way ∨
    ∃ line, now.lines way = some line ∧ next.lines way = some (tracking.writtenBack line)
  blocks : ∀ way, (next.set.blocks way).tag = (now.set.blocks way).tag ∨ (next.set.blocks way).tag = invalidTag

theorem Quiet.same (now : TrackedSet tracking) : Quiet now now :=
  ⟨rfl, rfl, fun _ => .inl rfl, fun _ => .inl rfl⟩

theorem setBlock_tag (set : CacheSet policy) {way : Nat} {block : CacheBlockInfo}
    (allowed : block.tag = (set.blocks way).tag ∨ block.tag = invalidTag) (other : Nat) :
    ((set.setBlock way block).blocks other).tag = (set.blocks other).tag ∨
      ((set.setBlock way block).blocks other).tag = invalidTag := by
  by_cases same : other = way
  · subst same
    simpa [CacheSet.setBlock] using allowed
  · simp [CacheSet.setBlock, same]

theorem note_writtenBack (now : TrackedSet tracking) (way other : Nat) :
    now.note way tracking.writtenBack other = now.lines other ∨
      ∃ line, now.lines other = some line ∧ now.note way tracking.writtenBack other = some (tracking.writtenBack line) := by
  by_cases same : other = way
  · subst same
    cases line : now.lines other with
    | none => exact .inl (by simp [note, line])
    | some before => exact .inr ⟨before, rfl, by simp [note, line]⟩
  · exact .inl (by simp [note, same])

theorem step_insert {tag : Tag} {call : Call} (stepped : now.step setIndex (.insertSingleLine tag call) = .ok next) :
    ∃ index, Inserts setIndex now next tag call index := by
  cases replaced : policy.getReplacementIndex now.set.contents { call with setIndex } now.set.fields with
  | error reason => simp [step, replaced, bind, Except.bind] at stepped
  | ok result =>
    simp only [step, CacheSet.insert2, replaced, bind, Except.bind] at stepped
    cases stepped
    exact ⟨result.2, replaced, rfl, rfl, rfl⟩

theorem step_other (stepped : now.step setIndex label = .ok next)
    (notInsert : ∀ tag call, label ≠ .insertSingleLine tag call) : (∃ way, Hits setIndex now next way) ∨ Quiet now next := by
  cases label with
  | insertSingleLine tag call => exact absurd rfl (notInsert tag call)
  | retrieveCacheBlock tag updateReplacement =>
    cases found : now.set.find tag with
    | none =>
      simp only [step, found, Except.ok.injEq] at stepped
      exact .inr (stepped ▸ .same now)
    | some way =>
      obtain ⟨isWay, isTag⟩ := find_some found
      cases updateReplacement with
      | false =>
        simp only [step, found, CacheSet.readLine, CacheSet.useLine] at stepped
        cases stepped
        exact .inr (.same now)
      | true =>
        cases updated : policy.updateReplacementIndex way 0 setIndex now.set.fields with
        | error reason =>
          simp [step, found, CacheSet.readLine, CacheSet.useLine, updated, bind, Except.bind] at stepped
        | ok fields =>
          simp only [step, found, CacheSet.readLine, CacheSet.useLine, updated] at stepped
          cases stepped
          exact .inl ⟨way, isWay, isTag ▸ tag.2, updated, rfl, rfl, rfl⟩
  | writeCacheBlock tag =>
    cases found : now.set.find tag with
    | none =>
      simp only [step, found, Except.ok.injEq] at stepped
      exact .inr (stepped ▸ .same now)
    | some way =>
      simp only [step, found, CacheSet.writeLine, CacheSet.useLine] at stepped
      cases stepped
      exact .inr ⟨rfl, rfl, note_writtenBack now way, fun _ => .inl rfl⟩
  | setCState tag cstate =>
    simp only [step] at stepped
    split at stepped <;> cases stepped
    · exact .inr ⟨rfl, rfl, fun _ => .inl rfl, setBlock_tag now.set (.inl rfl)⟩
    · exact .inr (.same now)
  | invalidateSingleLine tag =>
    cases stepped
    refine .inr ⟨rfl, ?_, fun _ => .inl rfl, ?_⟩
    · simp only [CacheSet.invalidate]
      split <;> rfl
    · simp only [CacheSet.invalidate]
      split
      · exact setBlock_tag now.set (.inr rfl)
      · exact fun _ => .inl rfl

theorem step_cases (stepped : now.step setIndex label = .ok next) :
    (∃ tag call index, label = .insertSingleLine tag call ∧ Inserts setIndex now next tag call index) ∨
      (∃ way, Hits setIndex now next way) ∨ Quiet now next := by
  cases label with
  | insertSingleLine tag call =>
    obtain ⟨index, inserts⟩ := step_insert stepped
    exact .inl ⟨tag, call, index, rfl, inserts⟩
  | retrieveCacheBlock tag updateReplacement => exact .inr (step_other stepped fun _ _ => SetLabel.noConfusion)
  | writeCacheBlock tag => exact .inr (step_other stepped fun _ _ => SetLabel.noConfusion)
  | setCState tag cstate => exact .inr (step_other stepped fun _ _ => SetLabel.noConfusion)
  | invalidateSingleLine tag => exact .inr (step_other stepped fun _ _ => SetLabel.noConfusion)

end TrackedSet

end Sniper.Replacement

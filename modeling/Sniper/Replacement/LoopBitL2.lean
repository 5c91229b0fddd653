import Sniper.Replacement.RecencyOrder
import Sniper.Replacement.TrackedSet

/-! The loop bits of `CacheSetLRUL2`, of which L3 is told when a line leaves L2. -/

namespace Sniper.Replacement

/-- A line of L2: the flag of its insertion, the loop bit that its way had then, and whether L1 has written it back. -/
structure L2Line where
  l3HitFlag : Nat
  inherited : Nat
  writtenBack : Bool
deriving DecidableEq, Repr

def l2Tracking (associativity : Nat) : Tracking (CacheSetLRUL2 associativity 1) L2Line where
  inserted fields way call := ⟨call.l3HitFlag, LoopBits.loopBit fields way, false⟩
  readHit := id
  writtenBack line := { line with writtenBack := true }

abbrev L2Set (associativity : Nat) := TrackedSet (l2Tracking associativity)

variable {associativity : Nat} {set : Contents} {call : Call} {fields after : LoopBits} {index : Nat}

def L2Set.load (now : L2Set associativity) (writeback : Nat) : L2Set associativity :=
  { now with set := { now.set with fields := { now.set.fields with writeback } } }

/-- Sets by the number of their cache and their index, with `global_loop_bit_writeback`. -/
structure L2Caches (associativity : Nat) where
  sets : Nat × Nat → L2Set associativity
  writeback : Nat

def l2Caches (associativity : Nat) : Machine (L2Caches associativity) ((Nat × Nat) × SetLabel) Fault where
  initial start := ∀ id, (∀ way, (start.sets id).set.blocks way = .invalid) ∧
    (CacheSetLRUL2 associativity 1).constructed (start.sets id).set.fields ∧ (start.sets id).uses = [] ∧
      (start.sets id).lines = fun _ => none
  step now label := do
    let next ← (L2Set.load (now.sets label.1) now.writeback).step label.1.2 label.2
    Except.ok ⟨Function.update now.sets label.1 next, next.set.fields.writeback⟩

/-! ### The policy -/

theorem lruL2_read {accessedIndex setIndex : Nat}
    (updated : (CacheSetLRUL2 associativity 1).updateReplacementIndex accessedIndex 0 setIndex fields = .ok after) :
    after.loopBit = fields.loopBit := by
  simp only [CacheSetLRUL2, increment] at updated
  split at updated <;> cases updated
  rfl

/-! ### The bit of a line -/

def L2Line.loopBit (line : L2Line) : Nat :=
  if line.l3HitFlag = 0 then 0 else if line.l3HitFlag = 1 then 1 else line.inherited

def KeepsLoopBits (now : L2Set associativity) : Prop :=
  ∀ way line, now.lines way = some line → now.set.fields.loopBit way = line.loopBit

theorem takeWay_loopBit (way : Nat) :
    (fields.takeWay call index).loopBit way =
      if way = index then L2Line.loopBit ⟨call.l3HitFlag, fields.loopBit index, false⟩ else fields.loopBit way := by
  by_cases same : way = index
  · subst same
    simp only [LoopBits.takeWay, L2Line.loopBit, if_true]
    by_cases missed : call.l3HitFlag = 0
    · simp [missed]
    · by_cases found : call.l3HitFlag = 1
      · simp [found]
      · simp [missed, found]
  · simp only [LoopBits.takeWay, same, if_false]
    by_cases missed : call.l3HitFlag = 0
    · simp [missed, same]
    · by_cases found : call.l3HitFlag = 1
      · simp [found, same]
      · simp [missed, found]

theorem lruL2_replaced (replaced : (CacheSetLRUL2 associativity 1).getReplacementIndex set call fields = .ok (after, index)) :
    (∀ way, after.loopBit way =
      if way = index then L2Line.loopBit ⟨call.l3HitFlag, fields.loopBit index, false⟩ else fields.loopBit way) ∧
      after.writeback = fields.loopBit index := by
  cases result : replaceLru associativity 1 set call fields.lruBits with
  | error reason => simp [CacheSetLRUL2, result, bind, Except.bind] at replaced
  | ok chosen =>
    simp only [CacheSetLRUL2, result] at replaced
    cases replaced
    exact ⟨takeWay_loopBit, rfl⟩

theorem KeepsLoopBits.step {now next : L2Set associativity} {setIndex : Nat} {label : SetLabel} (keeps : KeepsLoopBits now)
    (stepped : now.step setIndex label = .ok next) : KeepsLoopBits next := by
  intro way line isLine
  obtain ⟨tag, call, index, _, inserts⟩ | ⟨used, hits⟩ | quiet := TrackedSet.step_cases stepped
  · obtain ⟨loopBit, _⟩ := lruL2_replaced inserts.replaced
    rw [inserts.lines] at isLine
    refine (loopBit way).trans ?_
    by_cases same : way = index
    · subst same
      rw [Function.update_self] at isLine
      cases isLine
      rw [if_pos rfl]
      rfl
    · rw [Function.update_of_ne same] at isLine
      rw [if_neg same]
      exact keeps way line isLine
  · rw [lruL2_read hits.updated]
    rw [hits.lines, TrackedSet.note] at isLine
    by_cases same : way = used
    · subst same
      rw [Function.update_self] at isLine
      exact keeps way line (by simpa [l2Tracking] using isLine)
    · rw [Function.update_of_ne same] at isLine
      exact keeps way line isLine
  · rw [quiet.fields]
    obtain same | ⟨before, isBefore, more⟩ := quiet.lines way
    · exact keeps way line (same ▸ isLine)
    · cases more.symm.trans isLine
      exact keeps way before isBefore

section Runs

variable {now next : L2Caches associativity} {label : (Nat × Nat) × SetLabel}

theorem l2Caches_step (stepped : (l2Caches associativity).step now label = .ok next) :
    ∃ set, (L2Set.load (now.sets label.1) now.writeback).step label.1.2 label.2 = .ok set ∧
      next.sets = Function.update now.sets label.1 set ∧ next.writeback = set.set.fields.writeback := by
  cases result : (L2Set.load (now.sets label.1) now.writeback).step label.1.2 label.2 with
  | error reason => simp [l2Caches, result, bind, Except.bind] at stepped
  | ok set =>
    simp only [l2Caches, result] at stepped
    cases stepped
    exact ⟨set, rfl, rfl, rfl⟩

theorem l2Caches_keepLoopBits (reached : (l2Caches associativity).Reachable now) (id : Nat × Nat) :
    KeepsLoopBits (now.sets id) := by
  refine reached.invariant (fun now => ∀ id, KeepsLoopBits (now.sets id)) ?_ ?_ id
  · intro start starts id way line isLine
    cases (congrFun (starts id).2.2.2 way).symm.trans isLine
  · intro before label after holds _ stepped id
    obtain ⟨set, stepped, sets, _⟩ := l2Caches_step stepped
    rw [sets]
    by_cases same : id = label.1
    · subst same
      rw [Function.update_self]
      have loaded : KeepsLoopBits (L2Set.load (before.sets label.1) before.writeback) := holds label.1
      exact loaded.step stepped
    · rw [Function.update_of_ne same]
      exact holds id

/-- In every run, a line that L1 has written back leaves L2 without a loop bit, and L3 is told so, if and only if it started
without one. -/
theorem l2_writtenBack_loopBit (associativity : Nat) (now next : L2Caches associativity)
    (reached : (l2Caches associativity).Reachable now) (id : Nat × Nat) (tag : Tag) (call : Call)
    (stepped : (l2Caches associativity).step now (id, .insertSingleLine tag call) = .ok next) :
    ∃ way, (next.sets id).uses = way :: (now.sets id).uses ∧
      ∀ line, (now.sets id).lines way = some line → line.writtenBack = true →
        ((now.sets id).set.fields.loopBit way = 0 ∧ next.writeback = 0 ↔
          line.l3HitFlag = 0 ∨ line.l3HitFlag ≠ 1 ∧ line.inherited = 0) := by
  obtain ⟨set, stepped, sets, writeback⟩ := l2Caches_step stepped
  obtain ⟨way, inserts⟩ := TrackedSet.step_insert stepped
  obtain ⟨_, sent⟩ := lruL2_replaced inserts.replaced
  have bit : next.writeback = (now.sets id).set.fields.loopBit way := writeback.trans sent
  refine ⟨way, ?_, ?_⟩
  · rw [sets, Function.update_self]
    exact inserts.uses
  · intro line isLine _
    rw [bit, l2Caches_keepLoopBits reached id way line isLine, and_self, L2Line.loopBit]
    split
    case isTrue missed => exact ⟨fun _ => .inl missed, fun _ => rfl⟩
    case isFalse flagged => split <;> omega

def builtL2Caches (associativity : Nat) : L2Caches associativity where
  sets _ := ⟨⟨fun _ => .invalid, ⟨initialLruBits, fun _ => 0, 0⟩⟩, [], fun _ => none⟩
  writeback := 0

theorem builtL2Caches_reachable : (l2Caches associativity).Reachable (builtL2Caches associativity) :=
  .initial fun _ => ⟨fun _ => rfl, ⟨rfl, rfl⟩, rfl, rfl⟩

/-- An insertion into the first set, with the flag that tells whether L3 had the line. -/
def fillL2 (tag : Tag) (l3HitFlag : Nat) : (Nat × Nat) × SetLabel :=
  ((0, 0), .insertSingleLine tag ⟨fun _ => false, l3HitFlag, 0, 0⟩)

/-- A line that L3 did not have is written back and then replaced. -/
theorem l2_missed_line_leaves :
    ∃ now next line, (l2Caches 1).Reachable now ∧ (l2Caches 1).step now (fillL2 ⟨1, by decide⟩ 0) = .ok next ∧
      (now.sets (0, 0)).lines 0 = some line ∧ line.writtenBack = true ∧ next.writeback = 0 := by
  have ran : (l2Caches 1).run (builtL2Caches 1)
      [fillL2 ⟨0, by decide⟩ 0, ((0, 0), .writeCacheBlock ⟨0, by decide⟩)] = .ok _ := rfl
  have reached := builtL2Caches_reachable.run ran
  obtain ⟨_, uses, leaves⟩ :=
    l2_writtenBack_loopBit 1 _ _ reached (0, 0) ⟨1, by decide⟩ ⟨fun _ => false, 0, 0, 0⟩ rfl
  cases uses
  exact ⟨_, _, ⟨0, 0, true⟩, reached, rfl, rfl, rfl, ((leaves ⟨0, 0, true⟩ rfl rfl).mpr (.inl rfl)).2⟩

/-- A line that L3 had leaves with its loop bit although it was written back. -/
theorem l2_writtenBack_keeps_loopBit :
    ∃ now next, (l2Caches 1).Reachable now ∧ (l2Caches 1).step now (fillL2 ⟨1, by decide⟩ 0) = .ok next ∧
      (now.sets (0, 0)).lines 0 = some ⟨1, 0, true⟩ ∧ (now.sets (0, 0)).set.fields.loopBit 0 = 1 ∧ next.writeback = 1 := by
  have ran : (l2Caches 1).run (builtL2Caches 1)
      [fillL2 ⟨0, by decide⟩ 1, ((0, 0), .writeCacheBlock ⟨0, by decide⟩)] = .ok _ := rfl
  exact ⟨_, _, builtL2Caches_reachable.run ran, rfl, rfl, rfl, rfl⟩

end Runs

end Sniper.Replacement

import Sniper.Replacement.Order
import Sniper.Replacement.PhcPartition
import Mathlib.Algebra.Ring.Int.Defs

/-! What the sampler sets of `CacheSetPHC` teach the predictor. -/

namespace Sniper.Replacement

variable {associativity : Nat} {fields : Phc} {way : Nat}

/-- The counter of an instruction after a line with some cost, against the threshold 20. -/
def moved (cost : Int) (counter : Nat) : Nat :=
  if 20 < cost then min 3 (counter + 1) else if cost < 20 then counter - 1 else counter

/-- What the replacement of a line should teach: its insertion and each write-back cost 24, each read hit saves 1.  A way
that never had a line teaches nothing. -/
def learned (state : Nat → Nat) : Option PhcLine → Nat → Nat
  | none => state
  | some line => Function.update state (line.eip % 256)
      (moved (24 + 24 * line.writeBacks - line.readHits) (state (line.eip % 256)))

/-- When the replacement teaches this.  The cost that a set keeps has eight bits and leaves out the write-backs, and a way
that never had a line counts as one of instruction 0. -/
def TeachesRight (state : Nat → Nat) : Option PhcLine → Prop
  | none => state 0 = 0
  | some line =>
    (line.readHits % 256 < 4 ∨ 24 < line.readHits % 256) ∧
      (line.readHits < 4 + 24 * line.writeBacks ∨
        line.readHits = 4 + 24 * line.writeBacks ∧ state (line.eip % 256) = 3) ∨
    line.readHits % 256 = 4 ∧
      (line.readHits = 4 + 24 * line.writeBacks ∨
        line.readHits < 4 + 24 * line.writeBacks ∧ state (line.eip % 256) = 3 ∨
        4 + 24 * line.writeBacks < line.readHits ∧ state (line.eip % 256) = 0) ∨
    (4 < line.readHits % 256 ∧ line.readHits % 256 ≤ 24) ∧
      (4 + 24 * line.writeBacks < line.readHits ∨
        line.readHits = 4 + 24 * line.writeBacks ∧ state (line.eip % 256) = 0)

/-! ### What a set knows of its lines -/

structure Tracks (now : PhcSet associativity) : Prop where
  never : ∀ way, now.lines way = none →
    (now.set.blocks way).tag = invalidTag ∧ now.set.fields.ti way = 0 ∧ now.set.fields.cost way = 0
  since : ∀ way line, now.lines way = some line →
    now.set.fields.ti way = line.eip % 256 ∧ now.set.fields.cost way = (24 + 255 * line.readHits) % 256

namespace Tracks

variable {now next : PhcSet associativity} {setIndex : Nat}

theorem load (tracks : Tracks now) (state : Nat → Nat) : Tracks (PhcSet.load now state) where
  never := tracks.never
  since := tracks.since

theorem inserts {tag : Tag} {call : Call} (tracks : Tracks now) (sampler : Phc.isSampler setIndex = true)
    (inserts : TrackedSet.Inserts setIndex now next tag call way) : Tracks next := by
  obtain ⟨_, _, trains, _⟩ := phc_replaced inserts.replaced
  obtain ⟨ti, cost, _⟩ := trains sampler
  constructor
  · intro other none_
    rw [inserts.lines] at none_
    by_cases same : other = way
    · subst same
      rw [Function.update_self] at none_
      cases none_
    · rw [Function.update_of_ne same] at none_
      rw [inserts.blocks, ti, cost]
      simpa [Phc.train, same] using tracks.never other none_
  · intro other line isLine
    rw [inserts.lines] at isLine
    rw [ti, cost]
    by_cases same : other = way
    · subst same
      rw [Function.update_self] at isLine
      cases isLine
      simp [Phc.train, phcTracking]
    · rw [Function.update_of_ne same] at isLine
      simpa [Phc.train, same] using tracks.since other line isLine

theorem hits (tracks : Tracks now) (sampler : Phc.isSampler setIndex = true)
    (hits : TrackedSet.Hits setIndex now next way) : Tracks next := by
  obtain ⟨_, ti, _, costs⟩ := phc_updated hits.updated
  have cost := costs sampler rfl
  constructor
  · intro other none_
    rw [hits.lines, TrackedSet.note] at none_
    rw [hits.blocks, ti, cost]
    by_cases same : other = way
    · subst same
      rw [Function.update_self, Option.map_eq_none_iff] at none_
      exact absurd (tracks.never other none_).1 hits.valid
    · rw [Function.update_of_ne same] at none_ ⊢
      exact tracks.never other none_
  · intro other line isLine
    rw [hits.lines, TrackedSet.note] at isLine
    rw [ti, cost]
    by_cases same : other = way
    · subst same
      rw [Function.update_self] at isLine ⊢
      obtain ⟨before, isBefore, more⟩ := Option.map_eq_some_iff.mp isLine
      subst more
      obtain ⟨ti, cost⟩ := tracks.since other before isBefore
      have wraps : ((24 + 255 * before.readHits) % 256 + 255) % 256 = (24 + 255 * (before.readHits + 1)) % 256 := by omega
      exact ⟨ti, cost ▸ wraps⟩
    · rw [Function.update_of_ne same] at isLine ⊢
      exact tracks.since other line isLine

theorem quiet (tracks : Tracks now) (quiet : TrackedSet.Quiet now next) : Tracks next where
  never other none_ := by
    have before : now.lines other = none := by
      obtain same | ⟨line, _, isLine⟩ := quiet.lines other
      · exact same ▸ none_
      · cases none_.symm.trans isLine
    obtain ⟨invalid, ti, cost⟩ := tracks.never other before
    rw [quiet.fields]
    refine ⟨?_, ti, cost⟩
    obtain same | invalidated := quiet.blocks other
    · exact same.trans invalid
    · exact invalidated
  since other line isLine := by
    rw [quiet.fields]
    obtain same | ⟨before, isBefore, more⟩ := quiet.lines other
    · exact tracks.since other line (same ▸ isLine)
    · cases more.symm.trans isLine
      exact tracks.since other before isBefore

theorem step {label : SetLabel} (tracks : Tracks now) (sampler : Phc.isSampler setIndex = true)
    (stepped : now.step setIndex label = .ok next) : Tracks next := by
  obtain ⟨tag, call, index, _, inserts⟩ | ⟨way, hits⟩ | quiet := TrackedSet.step_cases stepped
  · exact tracks.inserts sampler inserts
  · exact tracks.hits sampler hits
  · exact tracks.quiet quiet

end Tracks

theorem phcCaches_tracks {now : PhcCaches associativity} (reached : (phcCaches associativity).Reachable now) (id : Nat × Nat)
    (sampler : Phc.isSampler id.2 = true) : Tracks (now.sets id) := by
  refine reached.invariant (fun now => ∀ id : Nat × Nat, Phc.isSampler id.2 = true → Tracks (now.sets id)) ?_ ?_ id sampler
  · intro start starts id _
    obtain ⟨blocks, built, _, lines⟩ := starts.1 id
    constructor
    · intro way _
      rw [blocks, built.2.1, built.2.2]
      exact ⟨rfl, rfl, rfl⟩
    · intro way line isLine
      cases (congrFun lines way).symm.trans isLine
  · intro before label after holds _ stepped id sampler
    obtain ⟨set, stepped, sets, _⟩ := phcCaches_step stepped
    rw [sets]
    by_cases same : id = label.1
    · subst same
      rw [Function.update_self]
      exact ((holds label.1 sampler).load before.state).step sampler stepped
    · rw [Function.update_of_ne same]
      exact holds id sampler

/-! ### What a replacement teaches -/

theorem Phc.train_state (bounded : ∀ entry, fields.state entry ≤ 3) (eip : Nat) :
    (fields.train way eip).state =
      Function.update fields.state (fields.ti way) (moved (fields.cost way) (fields.state (fields.ti way))) := by
  have most := bounded (fields.ti way)
  funext entry
  by_cases same : entry = fields.ti way
  · subst same
    rw [Function.update_self]
    simp only [Phc.train, moved]
    split
    · rw [Function.update_self, if_pos (by omega)]
      omega
    · split
      · rw [Function.update_self, if_neg (by omega), if_pos (by omega)]
      · split
        · omega
        · split <;> omega
  · rw [Function.update_of_ne same]
    simp only [Phc.train]
    split
    · rw [Function.update_of_ne same]
    · split
      · rw [Function.update_of_ne same]
      · rfl

theorem moved_eq_iff {reads writes counter : Nat} (bounded : counter ≤ 3) :
    moved ((24 + 255 * reads) % 256 : Nat) counter = moved (24 + 24 * writes - reads) counter ↔
      (reads % 256 < 4 ∨ 24 < reads % 256) ∧ (reads < 4 + 24 * writes ∨ reads = 4 + 24 * writes ∧ counter = 3) ∨
      reads % 256 = 4 ∧ (reads = 4 + 24 * writes ∨ reads < 4 + 24 * writes ∧ counter = 3 ∨
        4 + 24 * writes < reads ∧ counter = 0) ∨
      (4 < reads % 256 ∧ reads % 256 ≤ 24) ∧
        (4 + 24 * writes < reads ∨ reads = 4 + 24 * writes ∧ counter = 0) := by
  have wraps : (24 + 255 * reads) % 256 = (280 - reads % 256) % 256 := by omega
  have small : reads % 256 < 256 := Nat.mod_lt _ (by decide)
  rw [wraps]
  clear wraps
  generalize reads % 256 = rest at small ⊢
  have up : 20 < (280 - rest) % 256 ↔ rest < 4 ∨ 24 < rest := by omega
  have down : (280 - rest) % 256 < 20 ↔ 4 < rest ∧ rest ≤ 24 := by omega
  generalize (280 - rest) % 256 = cost at up down ⊢
  have balanced : (20 : Int) < 24 + 24 * writes - reads ↔ reads < 4 + 24 * writes := by omega
  have wasted : (24 + 24 * writes - reads : Int) < 20 ↔ 4 + 24 * writes < reads := by omega
  simp only [moved, balanced, wasted]
  by_cases high : 20 < cost
  · have drives := up.mp high
    rw [if_pos (by omega)]
    split
    · omega
    · split <;> omega
  · by_cases low : cost < 20
    · have drives := down.mp low
      rw [if_neg (by omega), if_pos (by omega)]
      split
      · omega
      · split <;> omega
    · rw [if_neg (by omega), if_neg (by omega)]
      split
      · omega
      · split <;> omega

theorem teachesRight_iff {now : PhcSet associativity} (tracks : Tracks now) (bounded : ∀ entry, now.set.fields.state entry ≤ 3)
    (eip : Nat) :
    (Phc.train now.set.fields way eip).state = learned now.set.fields.state (now.lines way) ↔
      TeachesRight now.set.fields.state (now.lines way) := by
  rw [Phc.train_state bounded]
  cases isLine : now.lines way with
  | none =>
    obtain ⟨_, ti, cost⟩ := tracks.never way isLine
    rw [ti, cost, learned, Function.update_eq_self_iff]
    simp only [TeachesRight, moved]
    split
    · omega
    · split <;> omega
  | some line =>
    obtain ⟨ti, cost⟩ := tracks.since way line isLine
    rw [ti, cost, learned, (Function.update_injective _ _).eq_iff]
    exact moved_eq_iff (bounded (line.eip % 256))

/-- In every run of the caches an insertion into a sampler set teaches what it should if and only if the line that is replaced
meets the condition.  Nothing else changes the table. -/
theorem phc_teaches (associativity : Nat) (now next : PhcCaches associativity)
    (reached : (phcCaches associativity).Reachable now) (label : (Nat × Nat) × SetLabel)
    (stepped : (phcCaches associativity).step now label = .ok next) :
    (∀ tag call, label.2 = .insertSingleLine tag call → Phc.isSampler label.1.2 = true →
      ∃ way < associativity, (next.sets label.1).uses = way :: (now.sets label.1).uses ∧
        (next.state = learned now.state ((now.sets label.1).lines way) ↔
          TeachesRight now.state ((now.sets label.1).lines way))) ∧
    ((∀ tag call, label.2 ≠ .insertSingleLine tag call) ∨ Phc.isSampler label.1.2 = false → next.state = now.state) := by
  obtain ⟨set, stepped, sets, state⟩ := phcCaches_step stepped
  constructor
  · intro tag call isInsert sampler
    rw [isInsert] at stepped
    obtain ⟨way, inserts⟩ := TrackedSet.step_insert stepped
    obtain ⟨isWay, _, trains, _⟩ := phc_replaced inserts.replaced
    refine ⟨way, isWay, ?_, ?_⟩
    · rw [sets, Function.update_self]
      exact inserts.uses
    · rw [state, (trains sampler).2.2]
      exact teachesRight_iff ((phcCaches_tracks reached label.1 sampler).load now.state) (phcCaches_state_le reached) call.eip
  · intro quiet
    rw [state]
    obtain ⟨tag, call, index, isInsert, inserts⟩ | ⟨way, hits⟩ | quietly := TrackedSet.step_cases stepped
    · obtain ⟨_, _, _, trainsNot⟩ := phc_replaced inserts.replaced
      exact trainsNot (quiet.resolve_left fun notInsert => notInsert tag call isInsert)
    · exact (phc_updated hits.updated).2.2.1
    · exact congrArg Phc.state quietly.fields

/-- A call of instruction 1 for the first set. -/
def firstCall : Call := ⟨fun _ => false, 100, 1, 0⟩

/-- One more line is put into the first set: way 0 is replaced, and the counter of instruction 1 becomes `counter`. -/
def replacesFirst (line : PhcLine) (counter : Nat) (now : PhcCaches 4) : Bool :=
  decide ((now.sets (0, 0)).lines 0 = some line) && decide (now.state 1 = 0) &&
    decide (((phcCaches 4).step now ((0, 0), .insertSingleLine ⟨4, by decide⟩ firstCall)).toOption.map
      (fun next => ((next.sets (0, 0)).uses.head?, next.state 1)) = some (some 0, counter))

theorem replacesFirst_steps {line : PhcLine} {counter : Nat} {now : PhcCaches 4} (replaces : replacesFirst line counter now = true) :
    ∃ next, (phcCaches 4).step now ((0, 0), .insertSingleLine ⟨4, by decide⟩ firstCall) = .ok next ∧
      (next.sets (0, 0)).uses.head? = some 0 ∧ (now.sets (0, 0)).lines 0 = some line ∧ now.state 1 = 0 ∧
      next.state 1 = counter := by
  simp only [replacesFirst, Bool.and_eq_true, decide_eq_true_eq] at replaces
  obtain ⟨⟨isLine, cold⟩, ends⟩ := replaces
  cases stepped : (phcCaches 4).step now ((0, 0), .insertSingleLine ⟨4, by decide⟩ firstCall) with
  | error reason => simp [stepped, Except.toOption] at ends
  | ok next =>
    simp only [stepped, Except.toOption, Option.map_some, Option.some.injEq, Prod.mk.injEq] at ends
    exact ⟨next, rfl, ends.1, isLine, cold, ends.2⟩

/-- A line that was written back and never read moves its counter up. -/
theorem phc_teaches_writtenBack :
    ∃ now next : PhcCaches 4, (phcCaches 4).Reachable now ∧ (now.sets (0, 0)).lines 0 = some ⟨1, 1, 0⟩ ∧
      (next.sets (0, 0)).uses = 0 :: (now.sets (0, 0)).uses ∧ now.state 1 = 0 ∧ next.state 1 = 1 ∧
      next.state = learned now.state ((now.sets (0, 0)).lines 0) := by
  let insert (tag : Tag) : (Nat × Nat) × SetLabel := ((0, 0), .insertSingleLine tag firstCall)
  have ends : (phcCaches 4).endsWith (fun _ => true) (replacesFirst ⟨1, 1, 0⟩ 1) (builtPhcCaches 4)
      [insert ⟨0, by decide⟩, ((0, 0), .writeCacheBlock ⟨0, by decide⟩), insert ⟨1, by decide⟩, insert ⟨2, by decide⟩,
        insert ⟨3, by decide⟩] = true := by decide +kernel
  obtain ⟨now, reached, replaces⟩ := (builtPhcCaches_reachable 4).of_endsWith (fun _ _ _ => trivial) ends
  obtain ⟨next, stepped, first, line, cold, moves⟩ := replacesFirst_steps replaces
  obtain ⟨way, -, uses, teaches⟩ := (phc_teaches 4 now next reached (insert ⟨4, by decide⟩) stepped).1 ⟨4, by decide⟩
    firstCall rfl rfl
  rw [uses, List.head?_cons, Option.some.injEq] at first
  subst first
  have right : TeachesRight now.state ((now.sets (0, 0)).lines 0) := by
    rw [line]
    exact .inl ⟨by decide, .inl (by decide)⟩
  exact ⟨now, next, reached, line, uses, cold, moves, teaches.mpr right⟩

/-- A line that was written back once and read five times should move its counter up, and does not. -/
theorem phc_forgets_writeBacks :
    ∃ now next, (phcCaches 4).Reachable now ∧
      (phcCaches 4).step now ((0, 0), .insertSingleLine ⟨4, by decide⟩ firstCall) = .ok next ∧
      (next.sets (0, 0)).uses.head? = some 0 ∧ (now.sets (0, 0)).lines 0 = some ⟨1, 1, 5⟩ ∧
      now.state 1 = 0 ∧ next.state 1 = 0 ∧ learned now.state ((now.sets (0, 0)).lines 0) 1 = 1 := by
  let insert (tag : Tag) : (Nat × Nat) × SetLabel := ((0, 0), .insertSingleLine tag firstCall)
  let read : (Nat × Nat) × SetLabel := ((0, 0), .retrieveCacheBlock ⟨0, by decide⟩ true)
  have ends : (phcCaches 4).endsWith (fun _ => true) (replacesFirst ⟨1, 1, 5⟩ 0) (builtPhcCaches 4)
      [insert ⟨0, by decide⟩, ((0, 0), .writeCacheBlock ⟨0, by decide⟩), read, read, read, read, read, insert ⟨1, by decide⟩,
        insert ⟨2, by decide⟩, insert ⟨3, by decide⟩] = true := by decide +kernel
  obtain ⟨now, reached, replaces⟩ := (builtPhcCaches_reachable 4).of_endsWith (fun _ _ _ => trivial) ends
  obtain ⟨next, stepped, first, line, cold, stays⟩ := replacesFirst_steps replaces
  exact ⟨now, next, reached, stepped, first, line, cold, stays, by simp [line, learned, moved, cold]⟩

end Sniper.Replacement

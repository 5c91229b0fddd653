import Sniper.Library.Laps
import Sniper.Library.Runs
import Sniper.Memory.GhbPrefetcher
import Mathlib.Data.List.Chain

/-! Which entries of the buffer a `GhbPrefetcher` visits: those that were linked, or others that have taken their places. -/

namespace Sniper.Ghb

/-- When the entries were added, and which entries the links were made to. -/
structure Record where
  /-- How many differences have been added. -/
  time : Nat
  deltas : Nat → UInt64
  madeAt : Nat → Nat
  /-- When the entry was added that the `nextIndex` of an entry was made for. -/
  nextTarget : Nat → Nat
  /-- When the entry was added that a table position was made for. -/
  tableTarget : Nat → Nat

def Record.start : Record := ⟨0, fun _ => invalidDelta, fun _ => 0, fun _ => 0, fun _ => 0⟩

variable {config : Config}

/-- A difference is added.  The new entry gets its link from the table position that it is entered in. -/
def Record.add (record : Record) (prefetcher : GhbPrefetcher config) (delta : UInt64) : Record where
  time := record.time + 1
  deltas := Function.update record.deltas record.time delta
  madeAt := Function.update record.madeAt prefetcher.ghbHead record.time
  nextTarget := Function.update record.nextTarget prefetcher.ghbHead (record.tableTarget prefetcher.entered)
  tableTarget :=
    if prefetcher.prevDelta ≠ invalidDelta then Function.update record.tableTarget prefetcher.entered record.time
    else record.tableTarget

structure Traced (config : Config) where
  prefetcher : GhbPrefetcher config
  record : Record

namespace Traced

def start (config : Config) : Traced config := ⟨.create config, .start⟩

def delta (traced : Traced config) (currentAddress : UInt64) : UInt64 := currentAddress - traced.prefetcher.lastAddress

/-- A call of `getNextAddress`. -/
def step (traced : Traced config) (currentAddress : UInt64) : Traced config where
  prefetcher := (traced.prefetcher.getNextAddress currentAddress).2
  record :=
    if traced.prefetcher.lastAddress = invalidAddress then traced.record
    else traced.record.add traced.prefetcher (traced.delta currentAddress)

/-- The call does not look up the value that marks an entry without a difference. -/
def ValidDelta (traced : Traced config) (currentAddress : UInt64) : Prop :=
  traced.prefetcher.lastAddress ≠ invalidAddress → traced.delta currentAddress ≠ invalidDelta

def before (config : Config) (ghbIndex : Nat) : Nat := (ghbIndex + config.ghbSize - 1) % config.ghbSize

/-- The entry that a `nextIndex` was made for is still there. -/
def LinkLive (traced : Traced config) (ghbIndex nextIndex : Nat) : Prop :=
  traced.record.madeAt nextIndex = traced.record.nextTarget ghbIndex

/-- Every index that is visited for a difference comes after a stored occurrence of it, and no link to an entry that has
been overwritten is followed. -/
structure FollowsLive (traced : Traced config) (delta : UInt64) : Prop where
  inRange : ∀ ghbIndex ∈ traced.prefetcher.visits delta, ghbIndex < config.ghbSize
  stored : ∀ ghbIndex ∈ traced.prefetcher.visits delta, (traced.prefetcher.ghb (before config ghbIndex)).delta = delta
  table : ∀ ghbIndex, (traced.prefetcher.visits delta).head? = some ghbIndex →
    traced.record.madeAt ghbIndex = traced.record.tableTarget (traced.prefetcher.position delta)
  links : (traced.prefetcher.visits delta).IsChain traced.LinkLive

/-- The generations of entries some laps apart are the same, though they are not in one lap. -/
def Aliased (laps : Nat) : Prop := 0 < laps ∧ 4 ∣ laps

/-- The test of the width loop tells whether the link has been overwritten. -/
structure LinkTold (traced : Traced config) (ghbIndex nextIndex : Nat) : Prop where
  unaliased : ¬Aliased ((traced.record.madeAt ghbIndex - traced.record.nextTarget ghbIndex) / config.ghbSize)
  circled : ¬(traced.prefetcher.ghbHead ≤ ghbIndex ∧ ghbIndex < nextIndex)
  atHead : ¬(ghbIndex = traced.prefetcher.ghbHead ∧ nextIndex < traced.prefetcher.ghbHead)

/-- The tests of the source tell for every index that is visited whether it is live. -/
structure Told (traced : Traced config) (delta : UInt64) : Prop where
  table : traced.prefetcher.visits delta ≠ [] →
    ¬Aliased ((traced.record.time - 1 - traced.record.tableTarget (traced.prefetcher.position delta)) / config.ghbSize)
  head : traced.prefetcher.ghbHead ∈ traced.prefetcher.visits delta → traced.prefetcher.prevDelta = delta
  links : (traced.prefetcher.visits delta).IsChain traced.LinkTold

/-! ### What the buffer and the table hold -/

/-- An entry that was added at a time after a difference. -/
structure Target (config : Config) (record : Record) (now target : Nat) (delta : UInt64) (ghbIndex : Nat) : Prop where
  positive : 0 < target
  earlier : target < now
  after : record.deltas (target - 1) = delta
  index : ghbIndex = target % config.ghbSize

/-- The buffer holds the last differences, and the links are to entries after the same difference. -/
structure Consistent (traced : Traced config) : Prop where
  head : traced.prefetcher.ghbHead = traced.record.time % config.ghbSize
  generation : traced.prefetcher.generation = traced.record.time / config.ghbSize % 4
  tableHead : traced.prefetcher.tableHead < config.tableSize
  valid : ∀ time < traced.record.time, traced.record.deltas time ≠ invalidDelta
  empty : ∀ index < config.ghbSize, traced.record.time ≤ index → traced.prefetcher.ghb index = .initial
  made : ∀ index < config.ghbSize, index < traced.record.time →
    Holds config.ghbSize traced.record.time index (traced.record.madeAt index)
  delta : ∀ index < config.ghbSize, index < traced.record.time →
    (traced.prefetcher.ghb index).delta = traced.record.deltas (traced.record.madeAt index)
  generations : ∀ index < config.ghbSize, index < traced.record.time →
    (traced.prefetcher.ghb index).generation = traced.record.madeAt index / config.ghbSize % 4
  next : ∀ index < config.ghbSize, index < traced.record.time → (traced.prefetcher.ghb index).nextIndex ≠ invalidIndex →
    Target config traced.record (traced.record.madeAt index) (traced.record.nextTarget index)
      (traced.record.deltas (traced.record.madeAt index - 1)) (traced.prefetcher.ghb index).nextIndex ∧
    4 ∣ (traced.record.madeAt index - traced.record.nextTarget index) / config.ghbSize
  table : ∀ i < config.tableSize, (traced.prefetcher.ghbTable i).delta ≠ invalidDelta →
    Target config traced.record traced.record.time (traced.record.tableTarget i) (traced.prefetcher.ghbTable i).delta
      (traced.prefetcher.ghbTable i).ghbIndex ∧
    (traced.prefetcher.ghbTable i).generation = traced.record.tableTarget i / config.ghbSize % 4

theorem size_pos (config : Config) : 0 < config.ghbSize := Nat.lt_of_lt_of_le Nat.two_pos config.ghbSize_ge

theorem consistent_start (config : Config) : Consistent (start config) where
  head := (Nat.zero_mod _).symm
  generation := by
    show 0 = 0 / config.ghbSize % 4
    rw [Nat.zero_div]
  tableHead := config.tableSize_pos
  valid _ past := absurd past (Nat.not_lt_zero _)
  empty _ _ _ := rfl
  made _ _ past := absurd past (Nat.not_lt_zero _)
  delta _ _ past := absurd past (Nat.not_lt_zero _)
  generations _ _ past := absurd past (Nat.not_lt_zero _)
  next _ _ past := absurd past (Nat.not_lt_zero _)
  table _ _ valid := absurd rfl valid

section Consistent

variable {traced : Traced config} {index target : Nat} {delta : UInt64}

theorem Target.inside (given : Target config traced.record traced.record.time target delta index) :
    index < config.ghbSize ∧ index < traced.record.time := by
  have earlier := given.earlier
  have below := Nat.mod_le target config.ghbSize
  exact ⟨given.index ▸ Nat.mod_lt _ (size_pos config), given.index ▸ by omega⟩

/-- The place of an entry is the one of another entry as many laps later as have passed since. -/
theorem Consistent.laps (consistent : Consistent traced)
    (given : Target config traced.record traced.record.time target delta index) :
    traced.record.madeAt index / config.ghbSize =
      target / config.ghbSize + (traced.record.time - 1 - target) / config.ghbSize := by
  have holds := consistent.made index given.inside.1 given.inside.2
  rw [given.index] at holds ⊢
  exact holds.laps (size_pos config) given.earlier

theorem Consistent.madeAt_eq_iff (consistent : Consistent traced)
    (given : Target config traced.record traced.record.time target delta index) :
    traced.record.madeAt index = target ↔ traced.record.time ≤ target + config.ghbSize := by
  have holds := consistent.made index given.inside.1 given.inside.2
  constructor
  · intro same
    exact same ▸ holds.recent
  · intro recent
    exact holds.unique ⟨given.index.symm, given.earlier, recent⟩

theorem Consistent.delta_of_holds (consistent : Consistent traced) {time : Nat}
    (holds : Holds config.ghbSize traced.record.time index time) :
    (traced.prefetcher.ghb index).delta = traced.record.deltas time := by
  have inside := holds.place_lt (size_pos config)
  have past := holds.place_lt_now
  rw [consistent.delta index inside past, (consistent.made index inside past).unique holds]

theorem Consistent.delta_before (consistent : Consistent traced) (inside : index < config.ghbSize)
    (past : index < traced.record.time) (elsewhere : index ≠ traced.prefetcher.ghbHead) (some : 0 < traced.record.madeAt index) :
    (traced.prefetcher.ghb (before config index)).delta = traced.record.deltas (traced.record.madeAt index - 1) := by
  rw [consistent.head] at elsewhere
  exact consistent.delta_of_holds ((consistent.made index inside past).before (size_pos config) elsewhere some)

theorem Consistent.delta_before_head (consistent : Consistent traced) (some : 0 < traced.record.time) :
    (traced.prefetcher.ghb (before config traced.prefetcher.ghbHead)).delta = traced.record.deltas (traced.record.time - 1) := by
  rw [consistent.head]
  exact consistent.delta_of_holds (Holds.last (size_pos config) some)

theorem Consistent.prevHead (consistent : Consistent traced) :
    traced.prefetcher.prevHead = before config traced.prefetcher.ghbHead := by
  have inside := Nat.mod_lt traced.record.time (size_pos config)
  rw [← consistent.head] at inside
  rw [GhbPrefetcher.prevHead, before]
  split
  case isTrue some =>
    have whole : traced.prefetcher.ghbHead + config.ghbSize - 1 = traced.prefetcher.ghbHead - 1 + config.ghbSize := by omega
    rw [whole, Nat.add_mod_right, Nat.mod_eq_of_lt (by omega)]
  case isFalse none =>
    have zero : traced.prefetcher.ghbHead = 0 := by omega
    rw [zero, Nat.zero_add, Nat.mod_eq_of_lt (by have := size_pos config; omega)]

theorem Consistent.prevDelta (consistent : Consistent traced) (some : 0 < traced.record.time) :
    traced.prefetcher.prevDelta = traced.record.deltas (traced.record.time - 1) := by
  rw [GhbPrefetcher.prevDelta, consistent.prevHead, consistent.delta_before_head some]

theorem Consistent.prevDelta_none (consistent : Consistent traced) (none : traced.record.time = 0) :
    traced.prefetcher.prevDelta = invalidDelta := by
  have inside : before config traced.prefetcher.ghbHead < config.ghbSize := Nat.mod_lt _ (size_pos config)
  rw [GhbPrefetcher.prevDelta, consistent.prevHead, consistent.empty _ inside (by omega)]
  rfl

/-! ### Following a link -/

/-- What is known of an index that is visited for a difference and has not been overwritten. -/
structure Visitable (traced : Traced config) (delta : UInt64) (ghbIndex : Nat) : Prop where
  inside : ghbIndex < config.ghbSize
  past : ghbIndex < traced.record.time
  positive : 0 < traced.record.madeAt ghbIndex
  after : traced.record.deltas (traced.record.madeAt ghbIndex - 1) = delta

theorem Target.visitable (given : Target config traced.record traced.record.time target delta index)
    (live : traced.record.madeAt index = target) : Visitable traced delta index where
  inside := given.inside.1
  past := given.inside.2
  positive := live ▸ given.positive
  after := live ▸ given.after

theorem Visitable.valid (visitable : Visitable traced delta index) : index ≠ invalidIndex := by
  have inside := visitable.inside
  have bound := config.ghbSize_lt
  rw [invalidIndex]
  omega

/-- An index that is visited comes after a stored occurrence, but at the head the difference there is the last one. -/
theorem Visitable.stored_iff (visitable : Visitable traced delta index) (consistent : Consistent traced) :
    (traced.prefetcher.ghb (before config index)).delta = delta ↔
      (traced.prefetcher.ghbHead = index → traced.prefetcher.prevDelta = delta) := by
  have some : 0 < traced.record.time := Nat.lt_of_le_of_lt (Nat.zero_le _) visitable.past
  by_cases atHead : traced.prefetcher.ghbHead = index
  · rw [← atHead, consistent.delta_before_head some, ← consistent.prevDelta some]
    exact ⟨fun same _ => same, fun same => same rfl⟩
  · rw [consistent.delta_before visitable.inside visitable.past (Ne.symm atHead) visitable.positive, visitable.after]
    exact ⟨fun _ here => absurd here atHead, fun _ => rfl⟩

theorem Consistent.linkLive_iff (consistent : Consistent traced) (visitable : Visitable traced delta index) {nextIndex : Nat}
    (followed : traced.prefetcher.follow index = nextIndex) (valid : nextIndex ≠ invalidIndex) :
    Target config traced.record traced.record.time (traced.record.nextTarget index) delta nextIndex ∧
    (traced.LinkLive index nextIndex ↔ traced.LinkTold index nextIndex) := by
  rw [GhbPrefetcher.follow] at followed
  have passed : ¬(((traced.prefetcher.ghb index).nextIndex > index ∨ index > traced.prefetcher.ghbHead) ∧
      (traced.prefetcher.ghb index).nextIndex < traced.prefetcher.ghbHead) := by
    intro stops
    rw [if_pos stops] at followed
    exact valid followed.symm
  rw [if_neg passed] at followed
  subst followed
  obtain ⟨given, multiple⟩ := consistent.next index visitable.inside visitable.past valid
  have holds := consistent.made index visitable.inside visitable.past
  have positive := size_pos config
  have earlier := given.earlier
  have given : Target config traced.record traced.record.time (traced.record.nextTarget index) delta
      (traced.prefetcher.ghb index).nextIndex :=
    ⟨given.positive, Nat.lt_trans given.earlier holds.past, given.after.trans visitable.after, given.index⟩
  refine ⟨given, ?_⟩
  rw [LinkLive, consistent.madeAt_eq_iff given]
  have index_eq := given.index
  constructor
  · intro recent
    have near : traced.record.madeAt index < traced.record.nextTarget index + config.ghbSize :=
      Nat.lt_of_lt_of_le holds.past recent
    have none : (traced.record.madeAt index - traced.record.nextTarget index) / config.ghbSize = 0 :=
      Nat.div_eq_of_lt (by omega)
    rw [consistent.head, index_eq] at passed
    obtain ⟨circled, atHead⟩ := (holds.earlier_iff positive earlier near passed).mp recent
    rw [← consistent.head, ← index_eq] at circled atHead
    exact ⟨fun aliased => absurd none (Nat.ne_of_gt aliased.1), circled, atHead⟩
  · rintro ⟨unaliased, circled, atHead⟩
    have none : (traced.record.madeAt index - traced.record.nextTarget index) / config.ghbSize = 0 :=
      Nat.eq_zero_of_not_pos fun some => unaliased ⟨some, multiple⟩
    have near : traced.record.madeAt index < traced.record.nextTarget index + config.ghbSize := by
      have small := (Nat.div_eq_zero_iff_lt positive).mp none
      omega
    rw [consistent.head, index_eq] at passed circled atHead
    exact (holds.earlier_iff positive earlier near passed).mpr ⟨circled, atHead⟩

theorem Consistent.walk_iff (consistent : Consistent traced) (visitable : Visitable traced delta index) (left : Nat) :
    ((∀ ghbIndex ∈ traced.prefetcher.visited left index, ghbIndex < config.ghbSize ∧
        (traced.prefetcher.ghb (before config ghbIndex)).delta = delta) ∧
      (traced.prefetcher.visited left index).IsChain traced.LinkLive) ↔
    (traced.prefetcher.ghbHead ∈ traced.prefetcher.visited left index → traced.prefetcher.prevDelta = delta) ∧
      (traced.prefetcher.visited left index).IsChain traced.LinkTold := by
  induction left generalizing index with
  | zero => simp [GhbPrefetcher.visited]
  | succ left ih =>
    have stored := visitable.stored_iff consistent
    rw [GhbPrefetcher.visited, if_neg visitable.valid]
    cases rest : traced.prefetcher.visited left (traced.prefetcher.follow index) with
    | nil => simp [stored, visitable.inside]
    | cons next tail =>
      obtain ⟨followed, valid⟩ : traced.prefetcher.follow index = next ∧ next ≠ invalidIndex := by
        cases left with
        | zero => simp [GhbPrefetcher.visited] at rest
        | succ left =>
          rw [GhbPrefetcher.visited] at rest
          split at rest
          · cases rest
          case isFalse valid =>
            obtain ⟨rfl, -⟩ := List.cons.inj rest
            exact ⟨rfl, valid⟩
      obtain ⟨given, told⟩ := consistent.linkLive_iff visitable followed valid
      rw [List.isChain_cons_cons, List.isChain_cons_cons, ← told, List.forall_mem_cons, List.mem_cons, or_imp, stored]
      by_cases live : traced.LinkLive index next
      · have further := ih (given.visitable live)
        rw [followed] at rest
        rw [rest] at further
        constructor
        · rintro ⟨⟨⟨_, here⟩, others⟩, _, links⟩
          obtain ⟨head, told⟩ := further.mp ⟨others, links⟩
          exact ⟨⟨here, head⟩, live, told⟩
        · rintro ⟨⟨here, head⟩, _, told⟩
          obtain ⟨others, links⟩ := further.mpr ⟨head, told⟩
          exact ⟨⟨⟨visitable.inside, here⟩, others⟩, live, links⟩
      · exact ⟨fun holds => absurd holds.2.1 live, fun holds => absurd holds.2.1 live⟩

/-- The table position that is looked up points to a live entry if and only if its generation tells. -/
theorem Consistent.table_iff (consistent : Consistent traced) (valid : delta ≠ invalidDelta) (found : traced.prefetcher.Found delta)
    (current : traced.prefetcher.Current (traced.prefetcher.position delta)) :
    Target config traced.record traced.record.time (traced.record.tableTarget (traced.prefetcher.position delta)) delta
      (traced.prefetcher.ghbTable (traced.prefetcher.position delta)).ghbIndex ∧
    (traced.record.madeAt (traced.prefetcher.ghbTable (traced.prefetcher.position delta)).ghbIndex =
        traced.record.tableTarget (traced.prefetcher.position delta) ↔
      ¬Aliased ((traced.record.time - 1 - traced.record.tableTarget (traced.prefetcher.position delta)) / config.ghbSize)) := by
  have same := found.2
  obtain ⟨given, generation⟩ := consistent.table _ found.position_lt (same.symm ▸ valid)
  rw [same] at given
  refine ⟨given, ?_⟩
  have laps := consistent.laps given
  rw [GhbPrefetcher.Current, generation, consistent.generations _ given.inside.1 given.inside.2] at current
  rw [laps] at current
  have multiple : 4 ∣ (traced.record.time - 1 - traced.record.tableTarget (traced.prefetcher.position delta)) / config.ghbSize := by
    omega
  rw [consistent.madeAt_eq_iff given, ← Holds.laps_eq_zero_iff (size_pos config) given.earlier]
  exact ⟨fun none aliased => absurd none (Nat.ne_of_gt aliased.1), fun unaliased =>
    Nat.eq_zero_of_not_pos fun some => unaliased ⟨some, multiple⟩⟩

theorem Consistent.followsLive_iff (consistent : Consistent traced) (valid : delta ≠ invalidDelta) :
    FollowsLive traced delta ↔ Told traced delta := by
  by_cases looked : traced.prefetcher.Found delta ∧ traced.prefetcher.Current (traced.prefetcher.position delta)
  · obtain ⟨given, table⟩ := consistent.table_iff valid looked.1 looked.2
    have visits : traced.prefetcher.visits delta = traced.prefetcher.visited config.prefetchWidth
        (traced.prefetcher.ghbTable (traced.prefetcher.position delta)).ghbIndex := if_pos looked
    cases width : config.prefetchWidth with
    | zero =>
      rw [width, GhbPrefetcher.visited] at visits
      exact ⟨fun _ => ⟨by simp [visits], by simp [visits], by simp [visits]⟩,
        fun _ => ⟨by simp [visits], by simp [visits], by simp [visits], by simp [visits]⟩⟩
    | succ left =>
      by_cases live : traced.record.madeAt (traced.prefetcher.ghbTable (traced.prefetcher.position delta)).ghbIndex =
          traced.record.tableTarget (traced.prefetcher.position delta)
      · have visitable := given.visitable live
        have walk := consistent.walk_iff visitable config.prefetchWidth
        rw [← visits] at walk
        constructor
        · rintro ⟨inRange, stored, _, links⟩
          obtain ⟨head, told⟩ := walk.mp ⟨fun index member => ⟨inRange index member, stored index member⟩, links⟩
          exact ⟨fun _ => table.mp live, head, told⟩
        · rintro ⟨_, head, told⟩
          obtain ⟨entries, links⟩ := walk.mpr ⟨head, told⟩
          refine ⟨fun index member => (entries index member).1, fun index member => (entries index member).2, ?_, links⟩
          intro index first
          rw [visits, width, GhbPrefetcher.visited, if_neg visitable.valid, List.head?_cons, Option.some.injEq] at first
          rw [← first, live]
      · have start : (traced.prefetcher.ghbTable (traced.prefetcher.position delta)).ghbIndex ≠ invalidIndex := by
          have inside := given.inside.1
          have bound := config.ghbSize_lt
          rw [invalidIndex]
          omega
        rw [width, GhbPrefetcher.visited, if_neg start] at visits
        constructor
        · intro follows
          exact absurd (follows.table _ (by rw [visits, List.head?_cons])) live
        · intro told
          exact absurd (table.mpr (told.table (by simp [visits]))) live
  · have visits : traced.prefetcher.visits delta = [] := if_neg looked
    exact ⟨fun _ => ⟨by simp [visits], by simp [visits], by simp [visits]⟩,
      fun _ => ⟨by simp [visits], by simp [visits], by simp [visits], by simp [visits]⟩⟩

/-! ### Adding a difference -/

section Add

variable {after : GhbPrefetcher config} {added : UInt64} {nextIndex i time : Nat}

theorem add_deltas_old (prefetcher : GhbPrefetcher config) (past : time < traced.record.time) :
    (traced.record.add prefetcher added).deltas time = traced.record.deltas time :=
  Function.update_of_ne (Nat.ne_of_lt past) _ _

theorem add_deltas_new (record : Record) (prefetcher : GhbPrefetcher config) (added : UInt64) :
    (record.add prefetcher added).deltas record.time = added :=
  Function.update_self _ _ _

theorem add_madeAt_head (record : Record) (prefetcher : GhbPrefetcher config) (added : UInt64) :
    (record.add prefetcher added).madeAt prefetcher.ghbHead = record.time :=
  Function.update_self _ _ _

theorem add_madeAt_other {record : Record} {prefetcher : GhbPrefetcher config} (elsewhere : index ≠ prefetcher.ghbHead) :
    (record.add prefetcher added).madeAt index = record.madeAt index :=
  Function.update_of_ne elsewhere _ _

theorem Target.add {now : Nat} (given : Target config traced.record now target delta index) (past : now ≤ traced.record.time)
    (prefetcher : GhbPrefetcher config) (added : UInt64) :
    Target config (traced.record.add prefetcher added) now target delta index where
  positive := given.positive
  earlier := given.earlier
  after := by
    have earlier := given.earlier
    rw [add_deltas_old prefetcher (by omega), given.after]
  index := given.index

theorem Consistent.stored (consistent : Consistent traced) (added : UInt64) (inside : index < config.ghbSize)
    (past : index < traced.record.time) :
    ∃ written, Holds config.ghbSize (traced.record.time + 1) index written ∧
      ((traced.prefetcher.store added).ghb index).generation = written / config.ghbSize % 4 := by
  by_cases atHead : index = traced.prefetcher.ghbHead
  · refine ⟨traced.record.time, ?_, ?_⟩
    · rw [atHead, consistent.head]
      exact Holds.newest (size_pos config) _
    · rw [atHead, GhbPrefetcher.store_head, ← consistent.generation]
  · refine ⟨traced.record.madeAt index, ?_, ?_⟩
    · exact (consistent.made index inside past).next (consistent.head ▸ atHead)
    · rw [GhbPrefetcher.store_other added atHead, consistent.generations index inside past]

/-- The link that the new entry gets is to an entry after the last difference, a multiple of four laps ago. -/
theorem Consistent.link (consistent : Consistent traced) (adds : traced.prefetcher.Adds after added nextIndex)
    (linked : nextIndex ≠ invalidIndex) :
    Target config traced.record traced.record.time (traced.record.tableTarget traced.prefetcher.entered)
      (traced.record.deltas (traced.record.time - 1)) nextIndex ∧
    4 ∣ (traced.record.time - traced.record.tableTarget traced.prefetcher.entered) / config.ghbSize := by
  obtain ⟨valid, found, same, current⟩ := adds.link linked
  have entered : traced.prefetcher.entered = traced.prefetcher.position traced.prefetcher.prevDelta := if_pos found
  have held := found.2
  rw [← entered] at held
  have inside : traced.prefetcher.entered < config.tableSize := entered ▸ found.position_lt
  obtain ⟨given, generation⟩ := consistent.table _ inside (held.symm ▸ valid)
  have some : 0 < traced.record.time := Nat.lt_trans given.positive given.earlier
  rw [held, consistent.prevDelta some, ← same] at given
  refine ⟨given, ?_⟩
  obtain ⟨written, holds, stored⟩ := consistent.stored added given.inside.1 given.inside.2
  rw [generation, stored] at current
  rw [given.index] at holds
  have laps := holds.laps (size_pos config) (Nat.lt_add_right 1 given.earlier)
  rw [Nat.add_sub_cancel] at laps
  rw [laps] at current
  omega

theorem Consistent.filled_before (consistent : Consistent traced) (inside : index < config.ghbSize)
    (past : index < traced.record.time + 1) (elsewhere : index ≠ traced.prefetcher.ghbHead) : index < traced.record.time := by
  rcases Nat.lt_succ_iff_lt_or_eq.mp past with earlier | rfl
  · exact earlier
  · rw [consistent.head, Nat.mod_eq_of_lt inside] at elsewhere
    exact absurd rfl elsewhere

theorem Consistent.add_made (consistent : Consistent traced) (inside : index < config.ghbSize)
    (past : index < traced.record.time + 1) :
    Holds config.ghbSize (traced.record.time + 1) index ((traced.record.add traced.prefetcher added).madeAt index) := by
  by_cases atHead : index = traced.prefetcher.ghbHead
  · rw [atHead, add_madeAt_head, consistent.head]
    exact Holds.newest (size_pos config) _
  · rw [add_madeAt_other atHead]
    exact (consistent.made index inside (consistent.filled_before inside past atHead)).next (consistent.head ▸ atHead)

theorem Consistent.add_entry (consistent : Consistent traced) (adds : traced.prefetcher.Adds after added nextIndex)
    (inside : index < config.ghbSize) (past : index < traced.record.time + 1) :
    (after.ghb index).delta = (traced.record.add traced.prefetcher added).deltas
      ((traced.record.add traced.prefetcher added).madeAt index) ∧
    (after.ghb index).generation = (traced.record.add traced.prefetcher added).madeAt index / config.ghbSize % 4 := by
  by_cases atHead : index = traced.prefetcher.ghbHead
  · rw [atHead, add_madeAt_head, add_deltas_new, adds.ghb_head]
    exact ⟨rfl, consistent.generation⟩
  · have earlier := consistent.filled_before inside past atHead
    rw [add_madeAt_other atHead, add_deltas_old _ (consistent.made index inside earlier).past, adds.ghb_other atHead]
    exact ⟨consistent.delta index inside earlier, consistent.generations index inside earlier⟩

theorem Consistent.add_next (consistent : Consistent traced) (adds : traced.prefetcher.Adds after added nextIndex)
    (inside : index < config.ghbSize) (past : index < traced.record.time + 1) (linked : (after.ghb index).nextIndex ≠ invalidIndex) :
    Target config (traced.record.add traced.prefetcher added) ((traced.record.add traced.prefetcher added).madeAt index)
      ((traced.record.add traced.prefetcher added).nextTarget index)
      ((traced.record.add traced.prefetcher added).deltas ((traced.record.add traced.prefetcher added).madeAt index - 1))
      (after.ghb index).nextIndex ∧
    4 ∣ ((traced.record.add traced.prefetcher added).madeAt index -
      (traced.record.add traced.prefetcher added).nextTarget index) / config.ghbSize := by
  by_cases atHead : index = traced.prefetcher.ghbHead
  · subst atHead
    have target : (traced.record.add traced.prefetcher added).nextTarget traced.prefetcher.ghbHead =
        traced.record.tableTarget traced.prefetcher.entered := Function.update_self _ _ _
    rw [adds.ghb_head] at linked
    obtain ⟨given, multiple⟩ := consistent.link adds linked
    have some : 0 < traced.record.time := Nat.lt_trans given.positive given.earlier
    rw [target, add_madeAt_head, adds.ghb_head, add_deltas_old _ (Nat.sub_lt some Nat.one_pos)]
    exact ⟨given.add (Nat.le_refl _) _ _, multiple⟩
  · have earlier := consistent.filled_before inside past atHead
    have target : (traced.record.add traced.prefetcher added).nextTarget index = traced.record.nextTarget index :=
      Function.update_of_ne atHead _ _
    have made := (consistent.made index inside earlier).past
    rw [adds.ghb_other atHead] at linked
    obtain ⟨given, multiple⟩ := consistent.next index inside earlier linked
    rw [target, add_madeAt_other atHead, adds.ghb_other atHead, add_deltas_old _ (Nat.lt_of_le_of_lt (Nat.sub_le _ _) made)]
    exact ⟨given.add (Nat.le_of_lt made) _ _, multiple⟩

theorem Consistent.add_table (consistent : Consistent traced) (adds : traced.prefetcher.Adds after added nextIndex)
    (inside : i < config.tableSize) (valid : (after.ghbTable i).delta ≠ invalidDelta) :
    Target config (traced.record.add traced.prefetcher added) (traced.record.time + 1)
      ((traced.record.add traced.prefetcher added).tableTarget i) (after.ghbTable i).delta (after.ghbTable i).ghbIndex ∧
    (after.ghbTable i).generation = (traced.record.add traced.prefetcher added).tableTarget i / config.ghbSize % 4 := by
  by_cases enters : traced.prefetcher.prevDelta ≠ invalidDelta ∧ i = traced.prefetcher.entered
  · obtain ⟨some, rfl⟩ := enters
    have target : (traced.record.add traced.prefetcher added).tableTarget traced.prefetcher.entered = traced.record.time := by
      simp only [Record.add, if_pos some, Function.update_self]
    have time : 0 < traced.record.time := Nat.pos_of_ne_zero fun none => some (consistent.prevDelta_none none)
    rw [adds.table, if_pos some, Function.update_self, target]
    refine ⟨⟨time, Nat.lt_succ_self _, ?_, consistent.head⟩, consistent.generation⟩
    rw [add_deltas_old _ (Nat.sub_lt time Nat.one_pos), consistent.prevDelta time]
  · have table : after.ghbTable i = traced.prefetcher.ghbTable i := by
      rw [adds.table]
      split
      case isTrue some => exact Function.update_of_ne (fun same => enters ⟨some, same⟩) _ _
      case isFalse => rfl
    have target : (traced.record.add traced.prefetcher added).tableTarget i = traced.record.tableTarget i := by
      simp only [Record.add]
      split
      case isTrue some => exact Function.update_of_ne (fun same => enters ⟨some, same⟩) _ _
      case isFalse => rfl
    rw [table] at valid
    rw [table, target]
    obtain ⟨given, generation⟩ := consistent.table i inside valid
    have kept := given.add (Nat.le_refl _) traced.prefetcher added
    exact ⟨⟨kept.positive, Nat.lt_succ_of_lt kept.earlier, kept.after, kept.index⟩, generation⟩

theorem Consistent.add (consistent : Consistent traced) (valid : added ≠ invalidDelta)
    (adds : traced.prefetcher.Adds after added nextIndex) :
    Consistent ⟨after, traced.record.add traced.prefetcher added⟩ where
  head := by
    show after.ghbHead = (traced.record.time + 1) % config.ghbSize
    rw [adds.head, (place_succ (size_pos config) _).1, consistent.head]
  generation := by
    show after.generation = (traced.record.time + 1) / config.ghbSize % 4
    rw [adds.generation, (place_succ (size_pos config) _).2, consistent.head, consistent.generation]
    split <;> omega
  tableHead := by
    rcases adds.tableHead with same | next
    · exact same.symm ▸ consistent.tableHead
    · exact next.symm ▸ Nat.mod_lt _ config.tableSize_pos
  valid time past := by
    rcases Nat.lt_succ_iff_lt_or_eq.mp past with earlier | rfl
    · exact (add_deltas_old traced.prefetcher earlier).symm ▸ consistent.valid time earlier
    · exact (add_deltas_new traced.record traced.prefetcher added).symm ▸ valid
  empty index inside future := by
    have future : traced.record.time + 1 ≤ index := future
    have elsewhere : index ≠ traced.prefetcher.ghbHead := by
      rw [consistent.head, Nat.mod_eq_of_lt (by omega)]
      omega
    exact (adds.ghb_other elsewhere).trans (consistent.empty index inside (Nat.le_of_succ_le future))
  made _ inside past := consistent.add_made inside past
  delta _ inside past := (consistent.add_entry adds inside past).1
  generations _ inside past := (consistent.add_entry adds inside past).2
  next _ inside past linked := consistent.add_next adds inside past linked
  table _ inside valid := consistent.add_table adds inside valid

theorem Consistent.step (consistent : Consistent traced) {currentAddress : UInt64} (valid : ValidDelta traced currentAddress) :
    Consistent (traced.step currentAddress) := by
  by_cases first : traced.prefetcher.lastAddress = invalidAddress
  · rw [Traced.step, GhbPrefetcher.getNextAddress, if_pos first, if_pos first]
    obtain ⟨head, generation, tableHead, valid, empty, made, delta, generations, next, table⟩ := consistent
    exact ⟨head, generation, tableHead, valid, empty, made, delta, generations, next, table⟩
  · rw [Traced.step, GhbPrefetcher.getNextAddress, if_neg first, if_neg first]
    obtain ⟨nextIndex, adds⟩ := GhbPrefetcher.add_spec { traced.prefetcher with lastAddress := currentAddress }
      (traced.delta currentAddress)
    exact consistent.add (valid first) ⟨adds.ghb, adds.table, adds.tableHead, adds.head, adds.generation, adds.link⟩

end Add

end Consistent

/-! ### Runs -/

/-- The call follows live links only, if it looks a difference up. -/
def CallFollowsLive (traced : Traced config) (currentAddress : UInt64) : Prop :=
  traced.prefetcher.lastAddress ≠ invalidAddress → FollowsLive traced (traced.delta currentAddress)

def CallTold (traced : Traced config) (currentAddress : UInt64) : Prop :=
  traced.prefetcher.lastAddress ≠ invalidAddress → Told traced (traced.delta currentAddress)

/-- Every call of a run follows live links only if and only if the tests of the source tell in every call. -/
theorem getNextAddress_followsLive_iff (config : Config) (addresses : List UInt64)
    (valid : AllSteps step ValidDelta (start config) addresses) :
    AllSteps step CallFollowsLive (start config) addresses ↔ AllSteps step CallTold (start config) addresses :=
  valid.congr (fun _ _ consistent valid => consistent.step valid) (fun _ _ consistent valid =>
    forall_congr' fun looks => consistent.followsLive_iff (valid looks)) (consistent_start config)

def fourEntries : Config := ⟨2, 1, 4, 8, by decide, by decide, by decide⟩

instance (traced : Traced config) (currentAddress : UInt64) : Decidable (ValidDelta traced currentAddress) :=
  inferInstanceAs (Decidable (_ → _))

instance (laps : Nat) : Decidable (Aliased laps) := inferInstanceAs (Decidable (_ ∧ _))

instance (traced : Traced config) : DecidableRel traced.LinkTold := fun _ _ =>
  decidable_of_iff (_ ∧ _ ∧ _) ⟨fun all => ⟨all.1, all.2.1, all.2.2⟩, fun told => ⟨told.unaliased, told.circled, told.atHead⟩⟩

instance (traced : Traced config) (delta : UInt64) : Decidable (Told traced delta) :=
  decidable_of_iff (_ ∧ _ ∧ _) ⟨fun all => ⟨all.1, all.2.1, all.2.2⟩, fun told => ⟨told.table, told.head, told.links⟩⟩

instance (traced : Traced config) (currentAddress : UInt64) : Decidable (CallTold traced currentAddress) :=
  inferInstanceAs (Decidable (_ → _))

/-- The differences 64 and 128 in turn: the last call follows the links of two entries. -/
theorem getNextAddress_followsLive_iff_alternating :
    AllSteps step CallFollowsLive (start fourEntries) [0x1000, 0x1040, 0x10C0, 0x1100, 0x1180, 0x11C0] := by
  refine (getNextAddress_followsLive_iff fourEntries _ ?_).mpr ?_
  · simp only [AllSteps]
    decide
  · simp only [AllSteps]
    decide +kernel

/-- The differences 64, 128, 64 and 192 fill the buffer.  Three others leave the head at the last entry, and 64 comes again. -/
def returning : List UInt64 := [0x1000, 0x1040, 0x10C0, 0x1100, 0x11C0, 0x12C0, 0x1400, 0x1580, 0x15C0]

/-- The entry at the head is linked to one that has been overwritten, and the test of the width loop passes it. -/
theorem getNextAddress_followsOverwritten :
    AllSteps step ValidDelta (start fourEntries) returning ∧
    ¬AllSteps step CallFollowsLive (start fourEntries) returning := by
  constructor
  · simp only [AllSteps, returning]
    decide
  · rintro ⟨-, -, -, -, -, -, -, -, last, -⟩
    have stored := (last (by decide)).stored 1 (by decide)
    exact absurd stored (by decide)

end Traced

end Sniper.Ghb

import Sniper.Replacement.Order
import Sniper.Replacement.RecencyOrder
import Mathlib.Algebra.GroupWithZero.Nat

/-! The histogram `access-mru` of `CacheSetLRU` and `CacheSetLRUNEW`, which all sets of a cache share. -/

namespace Sniper.Replacement

variable {associativity numAttempts : Nat}

/-- The bits of a set, with `m_access` of `CacheSetInfoLRU`. -/
structure LruInfo where
  lruBits : Nat → Nat
  access : Nat → Nat

def LruInfo.increment (associativity : Nat) (info : LruInfo) (index : Nat) : Except Fault LruInfo := do
  Replacement.increment associativity index
  Except.ok { info with access := Function.update info.access index (info.access index + 1) }

/-- The two policies with their statistics.  They differ in which hits they count. -/
def countedLru (associativity numAttempts : Nat) (counts : Nat → Bool) : Policy where
  associativity
  State := LruInfo
  constructed info := info.lruBits = initialLruBits
  getReplacementIndex set call info := do
    let (lruBits, way) ← replaceLru associativity numAttempts set call info.lruBits
    Except.ok ({ info with lruBits }, way)
  updateReplacementIndex accessedIndex writeFlag _ info := do
    let info ← if counts writeFlag then info.increment associativity (info.lruBits accessedIndex) else .ok info
    Except.ok { info with lruBits := moveToMRU associativity accessedIndex info.lruBits }
  updateLoopBitPolicy _ _ := id

/-- The test of the flag in `CacheSetLRU`, with its `printf` commented out, guards the statistics. -/
def countsLru (writeFlag : Nat) : Bool := writeFlag = 1

/-- `CacheSetLRUNEW` has no test. -/
def countsLruNew (_ : Nat) : Bool := true

/-- A cache: the blocks and bits of its sets, and the histogram. -/
structure LruSets where
  sets : Nat → Contents × (Nat → Nat)
  access : Nat → Nat

def LruSets.step (associativity numAttempts : Nat) (counts : Nat → Bool) (now : LruSets) (setIndex : Nat) (label : Label) :
    Except Fault LruSets := do
  let (contents, info) ← (countedLru associativity numAttempts counts).step
    ((now.sets setIndex).1, ⟨(now.sets setIndex).2, now.access⟩) label
  Except.ok ⟨Function.update now.sets setIndex (contents, info.lruBits), info.access⟩

/-- A cache with `CacheSetLRU` and one with `CacheSetLRUNEW`, with the number of hits that updated the replacement and of the
reads among them. -/
structure BothLru where
  lru : LruSets
  lruNew : LruSets
  hits : Nat
  readHits : Nat

def hitFlag (associativity : Nat) (contents : Contents) : Label → Option Nat
  | .access way writeFlag _ => if way < associativity ∧ (contents way).isSome then some writeFlag else none
  | _ => none

/-- The same happens to both caches. -/
def bothLru (associativity numAttempts : Nat) : Machine BothLru (Nat × Label) Fault where
  initial start := start.lru = start.lruNew ∧ (∀ setIndex, start.lru.sets setIndex = ((fun _ => none), initialLruBits)) ∧
    start.lru.access = (fun _ => 0) ∧ start.hits = 0 ∧ start.readHits = 0
  step now label := do
    let lru ← now.lru.step associativity numAttempts countsLru label.1 label.2
    let lruNew ← now.lruNew.step associativity numAttempts countsLruNew label.1 label.2
    let flag := hitFlag associativity (now.lru.sets label.1).1 label.2
    Except.ok ⟨lru, lruNew, if flag.isSome then now.hits + 1 else now.hits,
      if flag.any (· ≠ 1) then now.readHits + 1 else now.readHits⟩

/-- The sum of the first entries of a histogram. -/
def entries (associativity : Nat) (access : Nat → Nat) : Nat := ((List.range associativity).map access).sum

theorem entries_update {access : Nat → Nat} {place : Nat} (small : place < associativity) :
    entries associativity (Function.update access place (access place + 1)) = entries associativity access + 1 := by
  induction associativity with
  | zero => cases small
  | succ count ih =>
    have last (access : Nat → Nat) : entries (count + 1) access = entries count access + access count := by
      simp [entries, List.range_succ]
    rw [last, last]
    by_cases isLast : place = count
    · subst isLast
      have before : entries place (Function.update access place (access place + 1)) = entries place access := by
        refine congrArg List.sum (List.map_congr_left ?_)
        intro other member
        exact Function.update_of_ne (Nat.ne_of_lt (List.mem_range.mp member)) _ _
      rw [before, Function.update_self]
      omega
    · rw [ih (by omega), Function.update_of_ne (Ne.symm isLast)]
      omega

/-! ### The bits -/

def BitsBounded (associativity : Nat) (lruBits : Nat → Nat) : Prop := ∀ way < associativity, lruBits way < associativity

theorem initialLruBits_bounded : BitsBounded associativity initialLruBits := by
  intro way small
  exact Nat.lt_of_le_of_lt (Nat.mod_le _ _) small

theorem BitsBounded.moves {lruBits : Nat → Nat} {accessed : Nat} (bounded : BitsBounded associativity lruBits)
    (isWay : accessed < associativity) : BitsBounded associativity (moveToMRU associativity accessed lruBits) :=
  fun _ small => moveToMRU_lt bounded small isWay

theorem BitsBounded.step {now next : Contents × (Nat → Nat)} {label : Label} (bounded : BitsBounded associativity now.2)
    (stepped : (CacheSetLRU associativity numAttempts).step now label = .ok next) : BitsBounded associativity next.2 := by
  cases label with
  | insert call cstate =>
    obtain ⟨index, replaced, _⟩ := Policy.step_insert stepped
    exact replaceLru_invariant (BitsBounded associativity) (fun _ _ isWay bounded => bounded.moves isWay) bounded replaced
  | access way writeFlag setIndex =>
    obtain ⟨found, _, updated⟩ | ⟨_, same⟩ := Policy.step_access stepped
    · rw [lru_update updated]
      exact bounded.moves found.1
    · exact same ▸ bounded
  | setCState way cstate =>
    cases stepped
    exact bounded
  | invalidate way =>
    cases stepped
    exact bounded
  | updateLoopBit way loopbit =>
    simp only [Policy.step] at stepped
    split at stepped <;> cases stepped <;> exact bounded

/-! ### What a step counts -/

/-- The histogram after a step. -/
def countHit (associativity : Nat) (counts : Nat → Bool) (set : Contents × (Nat → Nat)) (access : Nat → Nat) : Label → Nat → Nat
  | .access way writeFlag _ =>
    if (way < associativity ∧ (set.1 way).isSome) ∧ counts writeFlag then
      Function.update access (set.2 way) (access (set.2 way) + 1)
    else access
  | _ => access

theorem LruSets.step_eq {counts : Nat → Bool} {now : LruSets} {setIndex : Nat}
    (bounded : BitsBounded associativity (now.sets setIndex).2) (label : Label) :
    now.step associativity numAttempts counts setIndex label =
      ((CacheSetLRU associativity numAttempts).step (now.sets setIndex) label).map fun set =>
        ⟨Function.update now.sets setIndex set, countHit associativity counts (now.sets setIndex) now.access label⟩ := by
  cases label with
  | insert call cstate =>
    simp only [LruSets.step, Policy.step, countedLru, CacheSetLRU]
    cases replaceLru associativity numAttempts (now.sets setIndex).1 call (now.sets setIndex).2 <;> rfl
  | access way writeFlag setIndex' =>
    by_cases found : way < associativity ∧ ((now.sets setIndex).1 way).isSome
    · have counted : ((countedLru associativity numAttempts counts).step
          ((now.sets setIndex).1, ⟨(now.sets setIndex).2, now.access⟩) (.access way writeFlag setIndex')) =
          .ok ((now.sets setIndex).1, ⟨moveToMRU associativity way (now.sets setIndex).2,
            countHit associativity counts (now.sets setIndex) now.access (.access way writeFlag setIndex')⟩) := by
        refine (if_pos found).trans ?_
        simp only [countedLru, LruInfo.increment, increment, bounded way found.1, if_true, countHit, found, true_and]
        split <;> rfl
      have plain : (CacheSetLRU associativity numAttempts).step (now.sets setIndex) (.access way writeFlag setIndex') =
          .ok ((now.sets setIndex).1, moveToMRU associativity way (now.sets setIndex).2) := by
        refine (if_pos found).trans ?_
        simp only [lru_update_ok (bounded way found.1)]
        rfl
      simp only [LruSets.step, counted, plain]
      rfl
    · have counted : ((countedLru associativity numAttempts counts).step
          ((now.sets setIndex).1, ⟨(now.sets setIndex).2, now.access⟩) (.access way writeFlag setIndex')) =
          .ok ((now.sets setIndex).1, ⟨(now.sets setIndex).2, now.access⟩) := if_neg found
      have plain : (CacheSetLRU associativity numAttempts).step (now.sets setIndex) (.access way writeFlag setIndex') =
          .ok (now.sets setIndex) := if_neg found
      simp only [LruSets.step, counted, plain, countHit, found, false_and, if_false]
      rfl
  | setCState way cstate => rfl
  | invalidate way => rfl
  | updateLoopBit way loopbit =>
    simp only [LruSets.step, Policy.step, countedLru, CacheSetLRU, countHit]
    split <;> rfl

theorem countHit_none {set : Contents × (Nat → Nat)} {label : Label} (missed : hitFlag associativity set.1 label = none)
    (counts : Nat → Bool) (access : Nat → Nat) : countHit associativity counts set access label = access := by
  cases label with
  | access way writeFlag setIndex =>
    have missing : ¬(way < associativity ∧ (set.1 way).isSome) := by
      intro found
      cases (if_pos found).symm.trans missed
    simp only [countHit, missing, false_and, if_false]
  | _ => rfl

theorem countHit_some {set : Contents × (Nat → Nat)} {label : Label} {flag : Nat}
    (bounded : BitsBounded associativity set.2) (hit : hitFlag associativity set.1 label = some flag) :
    ∃ place < associativity, ∀ counts access, countHit associativity counts set access label =
      if counts flag then Function.update access place (access place + 1) else access := by
  cases label with
  | access way writeFlag setIndex =>
    by_cases found : way < associativity ∧ (set.1 way).isSome
    · cases (if_pos found).symm.trans hit
      exact ⟨set.2 way, bounded way found.1, fun counts access => by simp only [countHit, found, true_and]⟩
    · cases (if_neg found).symm.trans hit
  | insert call cstate => cases hit
  | setCState way cstate => cases hit
  | invalidate way => cases hit
  | updateLoopBit way loopbit => cases hit

/-! ### Both caches -/

section Both

variable {now next : BothLru} {label : Nat × Label}

structure Counted (associativity : Nat) (now : BothLru) : Prop where
  sets : now.lru.sets = now.lruNew.sets
  bounded : ∀ setIndex, BitsBounded associativity (now.lru.sets setIndex).2
  all : entries associativity now.lruNew.access = now.hits
  writes : entries associativity now.lru.access + now.readHits = now.hits
  same : now.readHits = 0 → now.lru.access = now.lruNew.access

theorem bothLru_step (stepped : (bothLru associativity numAttempts).step now label = .ok next) :
    now.lru.step associativity numAttempts countsLru label.1 label.2 = .ok next.lru ∧
      now.lruNew.step associativity numAttempts countsLruNew label.1 label.2 = .ok next.lruNew ∧
      next.hits = (if (hitFlag associativity (now.lru.sets label.1).1 label.2).isSome then now.hits + 1 else now.hits) ∧
      next.readHits = if (hitFlag associativity (now.lru.sets label.1).1 label.2).any (· ≠ 1) then now.readHits + 1
        else now.readHits := by
  cases lru : now.lru.step associativity numAttempts countsLru label.1 label.2 with
  | error reason => simp [bothLru, lru, bind, Except.bind] at stepped
  | ok first =>
    cases lruNew : now.lruNew.step associativity numAttempts countsLruNew label.1 label.2 with
    | error reason => simp [bothLru, lru, lruNew, bind, Except.bind] at stepped
    | ok second =>
      simp only [bothLru, lru, lruNew] at stepped
      cases stepped
      exact ⟨rfl, rfl, rfl, rfl⟩

theorem Counted.after (counted : Counted associativity now)
    (stepped : (bothLru associativity numAttempts).step now label = .ok next) :
    ∃ set : Contents × (Nat → Nat), (CacheSetLRU associativity numAttempts).step (now.lru.sets label.1) label.2 = .ok set ∧
      next.lru.sets = Function.update now.lru.sets label.1 set ∧
      next.lruNew.sets = Function.update now.lru.sets label.1 set ∧
      next.lru.access = countHit associativity countsLru (now.lru.sets label.1) now.lru.access label.2 ∧
      next.lruNew.access = countHit associativity countsLruNew (now.lru.sets label.1) now.lruNew.access label.2 := by
  obtain ⟨lru, lruNew, _, _⟩ := bothLru_step stepped
  have bounded := counted.bounded label.1
  rw [LruSets.step_eq bounded] at lru
  rw [counted.sets] at bounded
  rw [LruSets.step_eq bounded, ← counted.sets] at lruNew
  cases plain : (CacheSetLRU associativity numAttempts).step (now.lru.sets label.1) label.2 with
  | error reason =>
    rw [plain] at lru
    cases lru
  | ok set =>
    rw [plain] at lru lruNew
    have isLru := Except.ok.inj lru
    have isLruNew := Except.ok.inj lruNew
    rw [← isLru, ← isLruNew]
    exact ⟨set, rfl, rfl, rfl, rfl, rfl⟩

theorem Counted.step (counted : Counted associativity now)
    (stepped : (bothLru associativity numAttempts).step now label = .ok next) : Counted associativity next := by
  obtain ⟨set, plain, sets, setsNew, access, accessNew⟩ := counted.after stepped
  obtain ⟨_, _, hits, readHits⟩ := bothLru_step stepped
  have all := counted.all
  have writes := counted.writes
  have bounded : ∀ setIndex, BitsBounded associativity (next.lru.sets setIndex).2 := by
    intro setIndex
    rw [sets]
    by_cases same : setIndex = label.1
    · subst same
      rw [Function.update_self]
      exact (counted.bounded label.1).step plain
    · rw [Function.update_of_ne same]
      exact counted.bounded setIndex
  cases hit : hitFlag associativity (now.lru.sets label.1).1 label.2 with
  | none =>
    rw [countHit_none hit] at access accessNew
    rw [hit] at hits readHits
    refine ⟨sets.trans setsNew.symm, bounded, ?_, ?_, ?_⟩
    · rw [accessNew, hits]
      exact all
    · rw [access, hits, readHits]
      exact writes
    · rw [access, accessNew, readHits]
      exact counted.same
  | some flag =>
    obtain ⟨place, small, counts⟩ := countHit_some (counted.bounded label.1) hit
    rw [counts] at access accessNew
    simp only [hit, Option.isSome_some, Option.any_some, if_true] at hits readHits
    refine ⟨sets.trans setsNew.symm, bounded, ?_, ?_, ?_⟩
    · rw [accessNew, hits, countsLruNew, if_pos rfl, entries_update small, all]
    · by_cases write : flag = 1
      · simp only [countsLru, write, decide_true, if_true] at access
        simp only [write, ne_eq, not_true_eq_false, decide_false, Bool.false_eq_true, if_false] at readHits
        rw [access, hits, readHits, entries_update small]
        omega
      · simp only [countsLru, write, decide_false, Bool.false_eq_true, if_false] at access
        simp only [ne_eq, write, not_false_eq_true, decide_true, if_true] at readHits
        rw [access, hits, readHits]
        omega
    · intro none_
      by_cases write : flag = 1
      · simp only [countsLru, write, decide_true, if_true] at access
        simp only [write, ne_eq, not_true_eq_false, decide_false, Bool.false_eq_true, if_false] at readHits
        rw [access, accessNew, countsLruNew, if_pos rfl, counted.same (readHits.symm.trans none_)]
      · simp only [ne_eq, write, not_false_eq_true, decide_true, if_true] at readHits
        omega

theorem bothLru_counted (reached : (bothLru associativity numAttempts).Reachable now) : Counted associativity now := by
  refine reached.invariant (Counted associativity) ?_ ?_
  · intro start starts
    obtain ⟨same, sets, access, hits, readHits⟩ := starts
    have empty : entries associativity start.lru.access = 0 := by
      rw [access]
      simp [entries]
    refine ⟨congrArg LruSets.sets same, ?_, ?_, ?_, fun _ => congrArg LruSets.access same⟩
    · intro setIndex
      rw [sets]
      exact initialLruBits_bounded
    · rw [← same, empty, hits]
    · rw [empty, hits, readHits]
  · intro before label after counted _ stepped
    exact counted.step stepped

/-- In every run of both caches the blocks and the bits are the same, and so are the victims and the errors.  The histograms
are the same, with all hits in them, if and only if no read hit updated the replacement. -/
theorem bothLru_histograms (associativity numAttempts : Nat) (now : BothLru)
    (reached : (bothLru associativity numAttempts).Reachable now) :
    now.lru.sets = now.lruNew.sets ∧
    (∀ setIndex label, (now.lru.step associativity numAttempts countsLru setIndex label).map LruSets.sets =
      (now.lruNew.step associativity numAttempts countsLruNew setIndex label).map LruSets.sets) ∧
    (∀ setIndex set call, (CacheSetLRU associativity numAttempts).getReplacementIndex set call (now.lru.sets setIndex).2 =
      (CacheSetLRUNEW associativity numAttempts).getReplacementIndex set call (now.lruNew.sets setIndex).2) ∧
    ((∀ place < associativity, now.lru.access place = now.lruNew.access place) ∧
      entries associativity now.lru.access = now.hits ∧ entries associativity now.lruNew.access = now.hits ↔
      now.readHits = 0) := by
  have counted := bothLru_counted reached
  refine ⟨counted.sets, ?_, ?_, ?_⟩
  · intro setIndex label
    have bounded := counted.bounded setIndex
    rw [LruSets.step_eq bounded]
    rw [counted.sets] at bounded ⊢
    rw [LruSets.step_eq bounded]
    cases (CacheSetLRU associativity numAttempts).step (now.lruNew.sets setIndex) label <;> rfl
  · intro setIndex set call
    rw [counted.sets]
    rfl
  · have all := counted.all
    have writes := counted.writes
    constructor
    · intro holds
      omega
    · intro none_
      refine ⟨fun place _ => congrFun (counted.same none_) place, ?_, all⟩
      omega

/-- Both caches as they are built. -/
def builtBoth : BothLru where
  lru := ⟨fun _ => ((fun _ => none), initialLruBits), fun _ => 0⟩
  lruNew := ⟨fun _ => ((fun _ => none), initialLruBits), fun _ => 0⟩
  hits := 0
  readHits := 0

theorem builtBoth_reachable : (bothLru associativity numAttempts).Reachable builtBoth :=
  .initial ⟨rfl, fun _ => rfl, rfl, rfl, rfl⟩

/-- A write hit. -/
theorem bothLru_write_counts :
    ∃ now, (bothLru 2 1).Reachable now ∧ now.hits = 1 ∧ entries 2 now.lru.access = now.hits ∧
      entries 2 now.lruNew.access = now.hits := by
  have ran : (bothLru 2 1).run builtBoth [(0, .insert plainCall .shared), (0, .access 0 1 0)] = .ok _ := rfl
  have reached := builtBoth_reachable.run ran
  have counts := (bothLru_histograms 2 1 _ reached).2.2.2.mpr rfl
  exact ⟨_, reached, rfl, counts.2⟩

/-- A read hit is in one of the histograms only. -/
theorem bothLru_read_differs :
    ∃ now, (bothLru 2 1).Reachable now ∧ now.hits = 1 ∧ now.lru.access 0 = 0 ∧ now.lruNew.access 0 = 1 ∧
      entries 2 now.lru.access = 0 := by
  have ran : (bothLru 2 1).run builtBoth [(0, .insert plainCall .shared), (0, .access 0 0 0)] = .ok _ := rfl
  exact ⟨_, builtBoth_reachable.run ran, rfl, rfl, rfl, rfl⟩

end Both

end Sniper.Replacement

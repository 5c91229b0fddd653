import Sniper.Replacement.RecencyOrder
import Sniper.Replacement.Selection

/-! Query-based selection: `CacheSetLRU` with several attempts. -/

namespace Sniper.Replacement

open Recency

variable {associativity numAttempts : Nat} {lruBits after : Nat → Nat} {items : List Nat}

/-! ### The attempts -/

/-- The attempts go through the ways from the last one on.  The ways that were moved already are in front. -/
theorem attemptLoop_queries {candidate : Nat → Bool} {rest : Nat} {older : List Nat} (front : List Nat) (inLower : Nat → Bool)
    (ordered : Ordered associativity lruBits (front ++ older)) (all : ∀ way < associativity, candidate way = true)
    (enough : rest < older.length) :
    ∃ (after : Nat → Nat) (victim : Nat) (rejected remaining : List Nat),
      attemptLoop associativity (fun lruBits => .ok (findLru (List.range associativity) candidate lruBits)) inLower (rest + 1)
        lruBits = .ok (after, some victim) ∧
      older = remaining ++ victim :: rejected.reverse ∧ (∀ way ∈ rejected, inLower way = true) ∧
      (rejected.length = rest ∨ rejected.length < rest ∧ inLower victim = false) ∧
      Ordered associativity after (victim :: (rejected.reverse ++ (front ++ remaining))) := by
  induction rest generalizing lruBits front older with
  | zero =>
    obtain ⟨remaining, last, isLast⟩ := (List.eq_nil_or_concat older).resolve_left (List.ne_nil_of_length_pos enough)
    rw [List.concat_eq_append] at isLast
    subst isLast
    rw [← List.append_assoc] at ordered
    have small : last < associativity := ordered.mem.mp (List.mem_append_right _ (List.mem_singleton.mpr rfl))
    refine ⟨_, last, [], remaining, ?_, rfl, ?_, .inl rfl, ordered.moveLast⟩
    · simp [attemptLoop, ordered.findLru_last all, small, bind, Except.bind]
    · exact fun way none_ => absurd none_ List.not_mem_nil
  | succ rest ih =>
    obtain ⟨init, last, isLast⟩ :=
      (List.eq_nil_or_concat older).resolve_left (List.ne_nil_of_length_pos (Nat.zero_lt_of_lt enough))
    rw [List.concat_eq_append] at isLast
    subst isLast
    rw [← List.append_assoc] at ordered
    have small : last < associativity := ordered.mem.mp (List.mem_append_right _ (List.mem_singleton.mpr rfl))
    have index := ordered.findLru_last all
    cases lower : inLower last with
    | true =>
      have moved : Ordered associativity (moveToMRU associativity last lruBits) ((last :: front) ++ init) := ordered.moveLast
      have enough : rest < init.length := by
        rw [List.length_append, List.length_singleton] at enough
        omega
      obtain ⟨after, victim, rejected, remaining, looped, isInit, inLower, ends, final⟩ := ih _ moved enough
      refine ⟨after, victim, last :: rejected, remaining, ?_, ?_, ?_, ?_, ?_⟩
      · rw [attemptLoop]
        simpa [index, small, lower, bind, Except.bind] using looped
      · rw [isInit, List.reverse_cons, List.append_assoc, List.cons_append]
      · intro way member
        cases List.mem_cons.mp member with
        | inl isLast => exact isLast ▸ lower
        | inr earlier => exact inLower way earlier
      · rw [List.length_cons]
        cases ends with
        | inl all_ => exact .inl (congrArg (· + 1) all_)
        | inr accepted => exact .inr ⟨Nat.succ_lt_succ accepted.1, accepted.2⟩
      · simpa using final
    | false =>
      refine ⟨_, last, [], init, ?_, rfl, ?_, .inr ⟨Nat.succ_pos _, lower⟩, ordered.moveLast⟩
      · simp [attemptLoop, index, small, lower, bind, Except.bind]
      · exact fun way none_ => absurd none_ List.not_mem_nil

/-! ### What the selection ends with -/

/-- What query-based selection promises of the bits before and after a call, and of the way it returns.  A way has
`associativity - 1 - lruBits way` others that were not used for longer. -/
structure Selects (associativity attempts : Nat) (inLower : Nat → Bool) (lruBits after : Nat → Nat) (victim : Nat) : Prop where
  isWay : victim < associativity
  accepted : (∃ way < associativity, associativity - 1 - lruBits way < attempts - 1 ∧ inLower way = false) →
    associativity - 1 - lruBits victim < attempts - 1 ∧ inLower victim = false ∧
      ∀ way < associativity, associativity - 1 - lruBits way < attempts - 1 → inLower way = false →
        lruBits way ≤ lruBits victim
  exhausted : (∀ way < associativity, associativity - 1 - lruBits way < attempts - 1 → inLower way = true) →
    associativity - 1 - lruBits victim = attempts - 1
  permutation : ((List.range associativity).map after).Perm (List.range associativity)
  mru : after victim = 0
  frame : ∀ way < associativity, ∀ other < associativity, lruBits way < lruBits victim → lruBits other < lruBits victim →
    (after way < after other ↔ lruBits way < lruBits other)

theorem place_split {remaining rejected : List Nat} {victim : Nat}
    (ordered : Ordered associativity lruBits (remaining ++ victim :: rejected)) :
    lruBits victim = remaining.length ∧
      ∀ way < associativity, lruBits way < remaining.length ∧ way ∈ remaining ∧ lruBits way = remaining.idxOf way ∨
        way = victim ∨ remaining.length < lruBits way ∧ way ∈ rejected := by
  have apart : victim ∉ remaining := by
    have nodup := ordered.nodup
    rw [List.nodup_append] at nodup
    exact fun member => nodup.2.2 victim member victim List.mem_cons_self rfl
  have isWay : victim < associativity := ordered.mem.mp (List.mem_append_right _ List.mem_cons_self)
  constructor
  · rw [ordered.bits victim isWay, List.idxOf_append_of_notMem apart, List.idxOf_cons_self, Nat.add_zero]
  · intro way small
    have bits := ordered.bits way small
    by_cases before : way ∈ remaining
    · rw [List.idxOf_append_of_mem before] at bits
      exact .inl ⟨bits ▸ List.idxOf_lt_length_of_mem before, before, bits⟩
    · by_cases same : way = victim
      · exact .inr (.inl same)
      · rw [List.idxOf_append_of_notMem before, List.idxOf_cons_ne _ (Ne.symm same)] at bits
        have member := (List.mem_append.mp (ordered.mem.mpr small)).resolve_left before
        exact .inr (.inr ⟨by omega, (List.mem_cons.mp member).resolve_left same⟩)

theorem selects_of_queries {inLower : Nat → Bool} {rest victim : Nat} {rejected remaining : List Nat}
    (ordered : Ordered associativity lruBits (remaining ++ victim :: rejected))
    (final : Ordered associativity after (victim :: (rejected ++ remaining)))
    (rejects : ∀ way ∈ rejected, inLower way = true)
    (ends : rejected.length = rest ∨ rejected.length < rest ∧ inLower victim = false) :
    Selects associativity (rest + 1) inLower lruBits after victim := by
  obtain ⟨place, split⟩ := place_split ordered
  have length : remaining.length + (rejected.length + 1) = associativity := by
    simpa using ordered.length
  have isWay : victim < associativity := ordered.mem.mp (List.mem_append_right _ List.mem_cons_self)
  have rank : associativity - 1 - lruBits victim = rejected.length := by omega
  have last : ∀ way < associativity, inLower way = false → lruBits way ≤ lruBits victim := by
    intro way small accepted
    obtain ⟨before, _⟩ | same | ⟨_, member⟩ := split way small
    · omega
    · exact Nat.le_of_eq (congrArg lruBits same)
    · cases accepted.symm.trans (rejects way member)
  have after_bits : ∀ way < associativity, lruBits way < lruBits victim →
      after way = rejected.length + lruBits way + 1 := by
    intro way small less
    obtain ⟨_, member, bits⟩ | same | ⟨more, _⟩ := split way small
    · have notVictim : victim ≠ way := by
        intro same
        subst same
        omega
      have notRejected : way ∉ rejected := by
        have nodup := ordered.nodup
        rw [List.nodup_append] at nodup
        exact fun inRejected => nodup.2.2 way member way (List.mem_cons_of_mem _ inRejected) rfl
      rw [final.bits way small, List.idxOf_cons_ne _ notVictim, List.idxOf_append_of_notMem notRejected, bits]
    · subst same
      omega
    · omega
  refine ⟨isWay, ?_, ?_, final.bits_perm, ?_, ?_⟩
  · intro exists_
    obtain ⟨way, small, old, accepted⟩ := exists_
    have young := last way small accepted
    cases ends with
    | inl all_ => omega
    | inr chosen => exact ⟨by omega, chosen.2, fun other otherSmall _ => last other otherSmall⟩
  · intro all_
    cases ends with
    | inl exhausted => omega
    | inr chosen =>
      have inLowerVictim := all_ victim isWay (by omega)
      cases chosen.2.symm.trans inLowerVictim
  · rw [final.bits victim isWay, List.idxOf_cons_self]
  · intro way small other otherSmall less otherLess
    rw [after_bits way small less, after_bits other otherSmall otherLess, Nat.add_lt_add_iff_right, Nat.add_lt_add_iff_left]

theorem replaceLru_selects {set : Contents} {rest : Nat} (call : Call) (ordered : Ordered associativity lruBits items)
    (full : ∀ way < associativity, (set way).isSome)
    (replaceable : ∀ way < associativity, isValidReplacement set way = true) (enough : rest < associativity) :
    ∃ after victim, replaceLru associativity (rest + 1) set call lruBits = .ok (after, victim) ∧
      Selects associativity (rest + 1) call.isInLowerLevelCache lruBits after victim := by
  have fits : rest < items.length := by
    rw [ordered.length]
    exact enough
  obtain ⟨after, victim, rejected, remaining, looped, split, rejects, ends, final⟩ :=
    attemptLoop_queries [] call.isInLowerLevelCache ordered replaceable fits
  refine ⟨after, victim, ?_, ?_⟩
  · simp [replaceLru, firstInvalid_eq_none full, looped, bind, Except.bind]
  · subst split
    refine selects_of_queries ordered (by simpa using final) ?_ (by simpa using ends)
    intro way member
    exact rejects way (List.mem_reverse.mp member)

theorem lru_ordered {contents : Contents} (fits : associativity ≤ 256)
    (reached : (CacheSetLRU associativity numAttempts).machine.Reachable (contents, lruBits)) :
    ∃ items, Ordered associativity lruBits items := by
  refine Policy.invariant (CacheSetLRU associativity numAttempts)
    (fun lruBits => ∃ items, Ordered associativity lruBits items) ?_ ?_ ?_ (fun _ _ _ => id) reached
  · intro start starts
    exact ⟨_, starts ▸ Ordered.initial fits⟩
  · intro set call before next index result holds
    refine replaceLru_invariant (fun lruBits => ∃ items, Ordered associativity lruBits items) ?_ holds result
    intro lruBits way isWay exists_
    obtain ⟨items, ordered⟩ := exists_
    exact ⟨_, ordered.moveToMRU isWay⟩
  · intro accessed isWay writeFlag setIndex before next result holds
    obtain ⟨items, ordered⟩ := holds
    exact ⟨_, lru_update result ▸ ordered.moveToMRU isWay⟩

/-! ### The policy that a configuration names -/

/-- With as many attempts as ways at most, query-based selection is what it is meant to be unless there are 256 attempts,
which is no attempt in a `UInt8`. -/
theorem lruQbs_selects (associativity attempts srripBits : Nat) (fits : associativity ≤ 256) (positive : 1 ≤ attempts)
    (atMost : attempts ≤ associativity) (contents : Contents) (lruBits : Nat → Nat)
    (reached : (CacheSetLRU associativity (Config.mk .lruQbs associativity attempts srripBits).getNumQBSAttempts).machine.Reachable
      (contents, lruBits)) (set : Contents) (full : ∀ way < associativity, (set way).isSome)
    (replaceable : ∀ way < associativity, isValidReplacement set way = true) (call : Call) :
    (∃ (after : Nat → Nat) (victim : Nat),
      (Config.mk .lruQbs associativity attempts srripBits).createCacheSet.getReplacementIndex set call lruBits =
        .ok (after, victim) ∧
      Selects associativity attempts call.isInLowerLevelCache lruBits after victim) ↔ attempts ≠ 256 := by
  obtain ⟨items, ordered⟩ := lru_ordered fits reached
  constructor
  · intro selects overflow
    obtain ⟨after, victim, replaced, _⟩ := selects
    have replaced : replaceLru associativity (attempts % 256) set call lruBits = .ok (after, victim) := replaced
    simp [replaceLru, firstInvalid_eq_none full, attemptLoop, overflow, bind, Except.bind] at replaced
  · intro fitting
    obtain ⟨rest, isSucc⟩ := Nat.exists_eq_succ_of_ne_zero (Nat.one_le_iff_ne_zero.mp positive)
    subst isSucc
    obtain ⟨after, victim, replaced, selects⟩ :=
      replaceLru_selects call ordered full replaceable atMost
    refine ⟨after, victim, ?_, selects⟩
    have fits : (rest + 1) % 256 = rest + 1 := Nat.mod_eq_of_lt (by omega)
    have same : (Config.mk .lruQbs associativity (rest + 1) srripBits).getNumQBSAttempts = rest + 1 := fits
    exact (congrArg (replaceLru associativity · set call lruBits) same).trans replaced

/-- Four ways and two attempts, of which the first one rejects the oldest block. -/
theorem lruQbs_two_attempts_select :
    ∃ (after : Nat → Nat) (victim : Nat),
      (Config.mk .lruQbs 4 2 2).createCacheSet.getReplacementIndex (fun _ => some .shared)
        ⟨fun way => way == 3, 0, 0, 0⟩ initialLruBits = .ok (after, victim) ∧
      Selects 4 2 (fun way => way == 3) initialLruBits after victim :=
  (lruQbs_selects 4 2 2 (by decide) (by decide) (by decide) (fun _ => none) initialLruBits (Policy.reachable_start rfl)
    (fun _ => some .shared) (fun _ _ => rfl) (fun _ _ => rfl) ⟨fun way => way == 3, 0, 0, 0⟩).mpr (by decide)

/-- With 256 ways and as many attempts a full set has no way to give. -/
theorem lruQbs_256_attempts_fail :
    (CacheSetLRU 256 (Config.mk .lruQbs 256 256 2).getNumQBSAttempts).machine.Reachable ((fun _ => none), initialLruBits) ∧
      (Config.mk .lruQbs 256 256 2).createCacheSet.getReplacementIndex (fun _ => some .shared) plainCall initialLruBits =
        .error .shouldNotReachHere := by
  refine ⟨Policy.reachable_start rfl, ?_⟩
  have full : firstInvalid 256 (fun _ => some CState.shared) = none := firstInvalid_eq_none fun _ _ => rfl
  have none_ : replaceLru 256 0 (fun _ => some CState.shared) plainCall initialLruBits = .error .shouldNotReachHere := by
    simp only [replaceLru, full]
    rfl
  exact none_

end Sniper.Replacement

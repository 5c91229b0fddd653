import Sniper.Library.Recency
import Sniper.Replacement.Recency

/-! The bits of the LRU policies as places in the order of last use. -/

namespace Sniper.Replacement

open Recency

variable {associativity : Nat} {lruBits : Nat → Nat} {items : List Nat}

/-- The bits of a way are its place in an order of all ways. -/
structure Ordered (associativity : Nat) (lruBits : Nat → Nat) (items : List Nat) : Prop where
  perm : items.Perm (List.range associativity)
  bits : ∀ way < associativity, lruBits way = items.idxOf way

namespace Ordered

theorem initial (fits : associativity ≤ 256) : Ordered associativity initialLruBits (List.range associativity) where
  perm := .refl _
  bits way small := by
    rw [initialLruBits, Nat.mod_eq_of_lt (by omega)]
    have inside : way < (List.range associativity).length := by simpa using small
    have place := idxOf_getElem List.nodup_range inside
    rw [List.getElem_range] at place
    exact place.symm

theorem mem (ordered : Ordered associativity lruBits items) {way : Nat} : way ∈ items ↔ way < associativity := by
  rw [ordered.perm.mem_iff, List.mem_range]

theorem nodup (ordered : Ordered associativity lruBits items) : items.Nodup :=
  ordered.perm.nodup_iff.mpr List.nodup_range

theorem length (ordered : Ordered associativity lruBits items) : items.length = associativity := by
  rw [ordered.perm.length_eq, List.length_range]

theorem bits_lt (ordered : Ordered associativity lruBits items) {way : Nat} (small : way < associativity) :
    lruBits way < associativity := by
  rw [ordered.bits way small, ← ordered.length]
  exact List.idxOf_lt_length_of_mem (ordered.mem.mpr small)

theorem injective (ordered : Ordered associativity lruBits items) {way other : Nat} (small : way < associativity)
    (otherSmall : other < associativity) (same : lruBits way = lruBits other) : way = other := by
  rw [ordered.bits way small, ordered.bits other otherSmall] at same
  exact (List.idxOf_inj (ordered.mem.mpr small)).mp same

theorem moveToMRU (ordered : Ordered associativity lruBits items) {accessed : Nat} (small : accessed < associativity) :
    Ordered associativity (moveToMRU associativity accessed lruBits) (touch accessed items) where
  perm := (touch_perm (ordered.mem.mpr small)).trans ordered.perm
  bits way isWay := by
    rw [idxOf_touch (ordered.mem.mpr small), Replacement.moveToMRU, ordered.bits way isWay, ordered.bits accessed small]
    simp only [isWay, true_and]

theorem moveLast {front : List Nat} {last : Nat} (ordered : Ordered associativity lruBits (front ++ [last])) :
    Ordered associativity (Replacement.moveToMRU associativity last lruBits) (last :: front) := by
  have absent : last ∉ front := by
    have nodup := ordered.nodup
    rw [List.nodup_append] at nodup
    exact fun member => nodup.2.2 last member last (List.mem_singleton.mpr rfl) rfl
  have isWay := ordered.mem.mp (List.mem_append_right _ (List.mem_singleton.mpr rfl))
  exact touch_last absent ▸ ordered.moveToMRU isWay

theorem bits_perm (ordered : Ordered associativity lruBits items) :
    ((List.range associativity).map lruBits).Perm (List.range associativity) := by
  apply (List.perm_ext_iff_of_nodup _ List.nodup_range).mpr
  · intro place
    constructor
    · intro member
      obtain ⟨way, isWay, rfl⟩ := List.mem_map.mp member
      exact List.mem_range.mpr (ordered.bits_lt (List.mem_range.mp isWay))
    · intro inRange
      have inside : place < items.length := by
        rw [ordered.length]
        exact List.mem_range.mp inRange
      have isWay := ordered.mem.mp (List.getElem_mem inside)
      refine List.mem_map.mpr ⟨items[place], List.mem_range.mpr isWay, ?_⟩
      rw [ordered.bits _ isWay]
      exact idxOf_getElem ordered.nodup inside
  · refine List.Nodup.map_on ?_ List.nodup_range
    intro way isWay other isOther same
    exact ordered.injective (List.mem_range.mp isWay) (List.mem_range.mp isOther) same

end Ordered

/-! ### The search for the largest bits -/

/-- What the search finds, unless the bits of all candidates are 0. -/
structure Largest (ways : List Nat) (candidate : Nat → Bool) (lruBits : Nat → Nat) (index : Nat) : Prop where
  mem : index ∈ ways
  accepted : candidate index = true
  positive : 0 < lruBits index
  largest : ∀ way ∈ ways, candidate way = true → lruBits way ≤ lruBits index

def searchStep (candidate : Nat → Bool) (lruBits : Nat → Nat) (best : Nat × Nat) (way : Nat) : Nat × Nat :=
  if best.2 < lruBits way ∧ candidate way then (way, lruBits way) else best

theorem findLru_eq (ways : List Nat) (candidate : Nat → Bool) (lruBits : Nat → Nat) :
    findLru ways candidate lruBits = (ways.foldl (searchStep candidate lruBits) (0, 0)).1 := rfl

theorem search_loop (ways : List Nat) (candidate : Nat → Bool) (lruBits : Nat → Nat) (best : Nat × Nat) :
    ways.foldl (searchStep candidate lruBits) best = best ∧
        (∀ way ∈ ways, candidate way = true → lruBits way ≤ best.2) ∨
      best.2 < lruBits (ways.foldl (searchStep candidate lruBits) best).1 ∧
        Largest ways candidate lruBits (ways.foldl (searchStep candidate lruBits) best).1 := by
  induction ways generalizing best with
  | nil => exact .inl ⟨rfl, fun _ none_ => absurd none_ List.not_mem_nil⟩
  | cons way rest ih =>
    rw [List.foldl_cons, searchStep]
    split
    case isTrue better =>
      right
      obtain ⟨same, behind⟩ | ⟨more, largest⟩ := ih (way, lruBits way)
      · rw [same]
        refine ⟨better.1, List.mem_cons_self, better.2, Nat.zero_lt_of_lt better.1, ?_⟩
        intro other member accepted
        cases List.mem_cons.mp member with
        | inl isWay => exact Nat.le_of_eq (congrArg lruBits isWay)
        | inr inRest => exact behind other inRest accepted
      · refine ⟨Nat.lt_trans better.1 more, List.mem_cons_of_mem _ largest.mem, largest.accepted, largest.positive, ?_⟩
        intro other member accepted
        cases List.mem_cons.mp member with
        | inl isWay =>
          rw [isWay]
          exact Nat.le_of_lt more
        | inr inRest => exact largest.largest other inRest accepted
    case isFalse worse =>
      have least : ∀ {most}, best.2 ≤ most → (∀ other ∈ rest, candidate other = true → lruBits other ≤ most) →
          ∀ other ∈ way :: rest, candidate other = true → lruBits other ≤ most := by
        intro most above behind other member accepted
        cases List.mem_cons.mp member with
        | inl isWay =>
          subst isWay
          have small : ¬best.2 < lruBits other := fun less => worse ⟨less, accepted⟩
          omega
        | inr inRest => exact behind other inRest accepted
      obtain ⟨same, behind⟩ | ⟨more, largest⟩ := ih best
      · exact .inl ⟨same, least (Nat.le_refl _) behind⟩
      · refine .inr ⟨more, List.mem_cons_of_mem _ largest.mem, largest.accepted, largest.positive, ?_⟩
        exact least (Nat.le_of_lt more) largest.largest

/-- The search finds the candidate with the largest bits, but way 0 if the bits of all candidates are 0. -/
theorem findLru_cases (ways : List Nat) (candidate : Nat → Bool) (lruBits : Nat → Nat) :
    findLru ways candidate lruBits = 0 ∧ (∀ way ∈ ways, candidate way = true → lruBits way = 0) ∨
      Largest ways candidate lruBits (findLru ways candidate lruBits) := by
  rw [findLru_eq]
  obtain ⟨same, none_⟩ | ⟨_, largest⟩ := search_loop ways candidate lruBits (0, 0)
  · exact .inl ⟨congrArg Prod.fst same, fun way member accepted => Nat.le_zero.mp (none_ way member accepted)⟩
  · exact .inr largest

theorem Ordered.findLru_last {front : List Nat} {last : Nat} {candidate : Nat → Bool}
    (ordered : Ordered associativity lruBits (front ++ [last])) (all : ∀ way < associativity, candidate way = true) :
    findLru (List.range associativity) candidate lruBits = last := by
  have isWay : last < associativity := ordered.mem.mp (List.mem_append_right _ (List.mem_singleton.mpr rfl))
  have notBefore : last ∉ front := by
    have nodup := ordered.nodup
    rw [List.nodup_append] at nodup
    exact fun member => nodup.2.2 last member last (List.mem_singleton.mpr rfl) rfl
  have place : lruBits last = front.length := by
    rw [ordered.bits last isWay, List.idxOf_append_of_notMem notBefore, List.idxOf_cons_self, Nat.add_zero]
  have length : front.length + 1 = associativity := by
    simpa using ordered.length
  obtain ⟨zero, none_⟩ | largest := findLru_cases (List.range associativity) candidate lruBits
  · have least := none_ last (List.mem_range.mpr isWay) (all last isWay)
    rw [zero]
    omega
  · have small := List.mem_range.mp largest.mem
    have most := largest.largest last (List.mem_range.mpr isWay) (all last isWay)
    have below := ordered.bits_lt small
    exact ordered.injective small isWay (by omega)

/-! ### `CacheSetLRU` -/

section Lru

variable {set : Contents} {call : Call} {after : Nat → Nat} {index : Nat}

theorem replaceLru_once (replaced : replaceLru associativity 1 set call lruBits = .ok (after, index)) :
    index < associativity ∧ after = moveToMRU associativity index lruBits := by
  unfold replaceLru at replaced
  split at replaced
  case h_1 way invalid =>
    cases replaced
    exact ⟨firstInvalid_lt invalid, rfl⟩
  case h_2 =>
    simp only [attemptLoop, bind, Except.bind] at replaced
    by_cases small : findLru (List.range associativity) (isValidReplacement set) lruBits < associativity
    · simp [small] at replaced
      exact ⟨replaced.2 ▸ small, replaced.2 ▸ replaced.1.symm⟩
    · simp [small] at replaced

theorem replaceLru_full (full : firstInvalid associativity set = none)
    (selected : findLru (List.range associativity) (isValidReplacement set) lruBits = index) (small : index < associativity) :
    replaceLru associativity 1 set call lruBits = .ok (moveToMRU associativity index lruBits, index) := by
  have once : attemptLoop associativity (fun lruBits => .ok (findLru (List.range associativity) (isValidReplacement set) lruBits))
      call.isInLowerLevelCache 1 lruBits = .ok (moveToMRU associativity index lruBits, some index) := by
    simp [attemptLoop, selected, small, bind, Except.bind]
  simp only [replaceLru, full]
  rw [once]
  rfl

theorem lru_update {numAttempts accessedIndex writeFlag setIndex : Nat}
    (updated : (CacheSetLRU associativity numAttempts).updateReplacementIndex accessedIndex writeFlag setIndex lruBits =
      .ok after) : after = moveToMRU associativity accessedIndex lruBits := by
  simp only [CacheSetLRU, increment] at updated
  split at updated
  · split at updated <;> cases updated
    rfl
  · cases updated
    rfl

theorem lru_update_ok {numAttempts accessedIndex : Nat} (small : lruBits accessedIndex < associativity) (writeFlag setIndex : Nat) :
    (CacheSetLRU associativity numAttempts).updateReplacementIndex accessedIndex writeFlag setIndex lruBits =
      .ok (moveToMRU associativity accessedIndex lruBits) := by
  simp only [CacheSetLRU, increment, small, if_true]
  split <;> rfl

theorem attemptLoop_invariant {select : (Nat → Nat) → Except Fault Nat} {inLower : Nat → Bool} {numAttempts : Nat}
    {found : Option Nat} (invariant : (Nat → Nat) → Prop)
    (moves : ∀ lruBits, ∀ way < associativity, invariant lruBits → invariant (moveToMRU associativity way lruBits))
    (holds : invariant lruBits) (looped : attemptLoop associativity select inLower numAttempts lruBits = .ok (after, found)) :
    invariant after := by
  induction numAttempts generalizing lruBits with
  | zero =>
    cases looped
    exact holds
  | succ rest ih =>
    rw [attemptLoop] at looped
    cases selected : select lruBits with
    | error reason => simp [selected, bind, Except.bind] at looped
    | ok index =>
      simp only [selected, bind, Except.bind] at looped
      split at looped
      case isTrue small =>
        split at looped
        · exact ih (moves _ index small holds) looped
        · cases looped
          exact moves _ index small holds
      case isFalse => cases looped

theorem replaceLru_invariant {numAttempts : Nat} (invariant : (Nat → Nat) → Prop)
    (moves : ∀ lruBits, ∀ way < associativity, invariant lruBits → invariant (moveToMRU associativity way lruBits))
    (holds : invariant lruBits) (replaced : replaceLru associativity numAttempts set call lruBits = .ok (after, index)) :
    invariant after := by
  simp only [replaceLru] at replaced
  split at replaced
  case h_1 way invalid =>
    cases replaced
    exact moves _ _ (firstInvalid_lt invalid) holds
  case h_2 =>
    simp only [bind, Except.bind] at replaced
    split at replaced
    case h_1 => cases replaced
    case h_2 value looped =>
      split at replaced
      case h_1 index found =>
        cases replaced
        exact attemptLoop_invariant invariant moves holds looped
      case h_2 => cases replaced

end Lru

/-! ### The ways that are used -/

namespace Policy

/-- The way that a step uses. -/
def usedWay (policy : Policy) (now : Contents × policy.State) : Label → Option Nat
  | .insert call _ => (policy.getReplacementIndex now.1 call now.2).toOption.map Prod.snd
  | .access way _ _ => if way < policy.associativity ∧ (now.1 way).isSome then some way else none
  | _ => none

/-- A set with the ways that were used, the last one first. -/
def recorded (policy : Policy) : Machine ((Contents × policy.State) × List Nat) Label Fault where
  initial start := policy.machine.initial start.1 ∧ start.2 = []
  step now label := do
    let next ← policy.step now.1 label
    Except.ok (next, (policy.usedWay now.1 label).toList ++ now.2)

theorem recorded_step {policy : Policy} {now next : (Contents × policy.State) × List Nat} {label : Label}
    (stepped : policy.recorded.step now label = .ok next) :
    policy.step now.1 label = .ok next.1 ∧ next.2 = (policy.usedWay now.1 label).toList ++ now.2 := by
  cases result : policy.step now.1 label with
  | error reason => simp [recorded, result, bind, Except.bind] at stepped
  | ok after =>
    simp only [recorded, result, bind, Except.bind, Except.ok.injEq] at stepped
    cases stepped
    exact ⟨rfl, rfl⟩

/-- A policy that moves the ways it uses to the front of its order. -/
structure MovesUsed (policy : Policy) (bits : policy.State → Nat → Nat) : Prop where
  constructed : ∀ state, policy.constructed state → bits state = initialLruBits
  replaced : ∀ set call state after index, policy.getReplacementIndex set call state = .ok (after, index) →
    index < policy.associativity ∧ bits after = moveToMRU policy.associativity index (bits state)
  updated : ∀ way writeFlag setIndex state after, policy.updateReplacementIndex way writeFlag setIndex state = .ok after →
    bits after = moveToMRU policy.associativity way (bits state)
  looped : ∀ way loopbit state, bits (policy.updateLoopBitPolicy way loopbit state) = bits state

namespace MovesUsed

variable {policy : Policy} {bits : policy.State → Nat → Nat}

theorem step (moves : policy.MovesUsed bits) {now next : Contents × policy.State} {label : Label}
    (stepped : policy.step now label = .ok next) :
    policy.usedWay now label = none ∧ bits next.2 = bits now.2 ∨
      ∃ way < policy.associativity, policy.usedWay now label = some way ∧
        bits next.2 = moveToMRU policy.associativity way (bits now.2) := by
  cases label with
  | insert call cstate =>
    obtain ⟨index, result, _⟩ := Policy.step_insert stepped
    obtain ⟨small, moved⟩ := moves.replaced _ _ _ _ _ result
    refine .inr ⟨index, small, ?_, moved⟩
    simp [usedWay, result, Except.toOption]
  | access way writeFlag setIndex =>
    obtain ⟨found, _, result⟩ | ⟨missing, same⟩ := Policy.step_access stepped
    · exact .inr ⟨way, found.1, if_pos found, moves.updated _ _ _ _ _ result⟩
    · exact .inl ⟨if_neg missing, congrArg (fun now => bits now.2) same⟩
  | setCState way cstate =>
    cases stepped
    exact .inl ⟨rfl, rfl⟩
  | invalidate way =>
    cases stepped
    exact .inl ⟨rfl, rfl⟩
  | updateLoopBit way loopbit =>
    simp only [Policy.step] at stepped
    split at stepped <;> cases stepped
    · exact .inl ⟨rfl, moves.looped _ _ _⟩
    · exact .inl ⟨rfl, rfl⟩

theorem recorded_ordered (moves : policy.MovesUsed bits) (fits : policy.associativity ≤ 256)
    {now : (Contents × policy.State) × List Nat} (reached : policy.recorded.Reachable now) :
    Ordered policy.associativity (bits now.1.2) (order (List.range policy.associativity) now.2) ∧
      ∀ used ∈ now.2, used < policy.associativity := by
  refine reached.invariant (fun now =>
    Ordered policy.associativity (bits now.1.2) (order (List.range policy.associativity) now.2) ∧
      ∀ used ∈ now.2, used < policy.associativity) ?_ ?_
  · intro start starts
    rw [starts.2, moves.constructed _ starts.1.2]
    exact ⟨.initial fits, fun _ none_ => absurd none_ List.not_mem_nil⟩
  · intro before label next holds _ stepped
    obtain ⟨ordered, inside⟩ := holds
    obtain ⟨stepped, uses⟩ := Policy.recorded_step stepped
    rw [uses]
    obtain ⟨none_, same⟩ | ⟨way, small, used, moved⟩ := moves.step stepped
    · rw [none_, same]
      exact ⟨ordered, inside⟩
    · rw [used, moved]
      refine ⟨ordered.moveToMRU small, ?_⟩
      intro other member
      cases List.mem_cons.mp member with
      | inl isWay => exact isWay ▸ small
      | inr before => exact inside other before

end MovesUsed

end Policy

theorem lru_movesUsed : (CacheSetLRU associativity 1).MovesUsed id where
  constructed _ starts := starts
  replaced _ _ _ _ _ replaced := replaceLru_once replaced
  updated _ _ _ _ _ updated := lru_update updated
  looped _ _ _ := rfl

end Sniper.Replacement

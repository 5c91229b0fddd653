import Sniper.Replacement.Search

/-! The counter of `CacheSetNRU`, which every touch of a way bumps. -/

namespace Sniper.Replacement

variable {associativity : Nat}

def onesCount (associativity : Nat) (bits : Nat → Nat) : Nat := (List.range associativity).countP fun way => bits way = 1

theorem onesCount_zero : onesCount associativity (fun _ => 0) = 0 :=
  List.countP_eq_zero.mpr fun _ _ => by simp

theorem onesCount_eq_iff {bits : Nat → Nat} :
    onesCount associativity bits = associativity ↔ ∀ way < associativity, bits way = 1 := by
  have all := List.countP_eq_length (l := List.range associativity) (p := fun way => decide (bits way = 1))
  rw [List.length_range] at all
  rw [onesCount, all]
  simp

theorem onesCount_update {bits : Nat → Nat} {way : Nat} (small : way < associativity) (unset : bits way ≠ 1) :
    onesCount associativity (Function.update bits way 1) = onesCount associativity bits + 1 := by
  induction associativity with
  | zero => cases small
  | succ count ih =>
    have last (bits : Nat → Nat) :
        onesCount (count + 1) bits = onesCount count bits + if bits count = 1 then 1 else 0 := by
      rw [onesCount, List.range_succ, List.countP_append, List.countP_singleton]
      simp [onesCount]
    rw [last, last]
    by_cases isLast : way = count
    · subst isLast
      have before : onesCount way (Function.update bits way 1) = onesCount way bits := by
        refine List.countP_congr ?_
        intro other member
        rw [Function.update_of_ne (Nat.ne_of_lt (List.mem_range.mp member))]
      rw [before, Function.update_self, if_pos rfl, if_neg unset]
    · rw [ih (by omega), Function.update_of_ne (Ne.symm isLast)]
      omega

namespace Nru

variable {fields : Nru} {way : Nat}

/-- What the counter promises: it counts the bits that are 1, and these are not all. -/
structure Counts (associativity : Nat) (fields : Nru) : Prop where
  ones : fields.numBitsSet = onesCount associativity fields.lruBits
  notAll : ¬∀ way < associativity, fields.lruBits way = 1

def Fresh (associativity : Nat) (fields : Nru) (way : Nat) : Prop :=
  (fields.numBitsSet + 1) % 256 = associativity ∨ fields.lruBits way = 0 ∧ fields.numBitsSet + 1 < 256

theorem counts_touch (positive : 0 < associativity) (counts : Counts associativity fields)
    (binary : ∀ way, fields.lruBits way = 0 ∨ fields.lruBits way = 1) (small : way < associativity) :
    Counts associativity (fields.touch associativity way) ↔ Fresh associativity fields way := by
  unfold touch Fresh
  by_cases reset : (fields.numBitsSet + 1) % 256 = associativity
  · simp only [reset, if_true, true_or, iff_true]
    exact ⟨onesCount_zero.symm, fun all => absurd (all 0 positive) Nat.zero_ne_one⟩
  · simp only [reset, if_false, false_or]
    cases binary way with
    | inl unset =>
      have notSet : fields.lruBits way ≠ 1 := by omega
      have more := onesCount_update small notSet
      have same := counts.ones
      constructor
      · intro after
        have ones : (fields.numBitsSet + 1) % 256 = onesCount associativity (Function.update fields.lruBits way 1) := after.ones
        omega
      · intro fresh
        refine ⟨?_, ?_⟩
        · show (fields.numBitsSet + 1) % 256 = onesCount associativity (Function.update fields.lruBits way 1)
          omega
        · intro all
          have full : onesCount associativity (Function.update fields.lruBits way 1) = associativity := onesCount_eq_iff.mpr all
          omega
    | inr set =>
      have unchanged : Function.update fields.lruBits way 1 = fields.lruBits := by
        rw [← set, Function.update_eq_self]
      constructor
      · intro after
        have ones : (fields.numBitsSet + 1) % 256 = onesCount associativity (Function.update fields.lruBits way 1) := after.ones
        rw [unchanged, ← counts.ones] at ones
        omega
      · intro fresh
        omega

theorem touch_binary (binary : ∀ way, fields.lruBits way = 0 ∨ fields.lruBits way = 1) (other : Nat) :
    (fields.touch associativity way).lruBits other = 0 ∨ (fields.touch associativity way).lruBits other = 1 := by
  simp only [touch]
  split
  · exact .inl rfl
  · by_cases same : other = way
    · subst same
      exact .inr (Function.update_self _ _ _)
    · simpa only [Function.update_of_ne same] using binary other

end Nru

/-- The steps of a run that keeps the promise.  A full set takes a way whose bit is 0 if it can. -/
def NruAllowed (associativity : Nat) (now : Contents × Nru) : Label → Prop
  | .insert _ _ =>
    match firstInvalid associativity now.1 with
    | some way => now.2.Fresh associativity way
    | none => (now.2.numBitsSet + 1) % 256 = associativity ∨
        (∃ way < associativity, now.2.lruBits way = 0 ∧ isValidReplacement now.1 way = true) ∧ now.2.numBitsSet + 1 < 256
  | .access way _ _ => way < associativity ∧ (now.1 way).isSome → now.2.Fresh associativity way
  | _ => True

section Steps

variable {now next : Contents × Nru} {label : Label} {set : Contents} {fields after : Nru} {call : Call} {index : Nat}

theorem nru_takes (positive : 0 < associativity) (small : fields.replacementPointer < associativity)
    (full : firstInvalid associativity set = none)
    (replaced : (CacheSetNRU associativity).getReplacementIndex set call fields = .ok (after, index)) :
    index < associativity ∧ isValidReplacement set index = true ∧
      (∃ pointer < associativity, after = { fields with replacementPointer := pointer }.touch associativity index) ∧
      ((∃ way < associativity, fields.lruBits way = 0 ∧ isValidReplacement set way = true) ↔ fields.lruBits index = 0) := by
  rw [nru_full fields call full] at replaced
  split at replaced
  case h_1 way pointer found =>
    cases replaced
    obtain ⟨accepted, isWay, inside⟩ := walk_eq_some positive small found
    rw [nruAccepts, Bool.and_eq_true] at accepted
    refine ⟨isWay, accepted.2, ⟨pointer, inside, rfl⟩, ?_⟩
    constructor
    · intro exists_
      obtain ⟨other, otherSmall, unset, valid⟩ := exists_
      have some_ : (List.range associativity).any (fun way => fields.lruBits way == 0 && isValidReplacement set way) = true :=
        List.any_eq_true.mpr ⟨other, List.mem_range.mpr otherSmall, by simp [unset, valid]⟩
      have first := accepted.1
      rw [some_] at first
      simpa using first
    · exact fun unset => ⟨_, isWay, unset, accepted.2⟩
  case h_2 => cases replaced

theorem nru_step (positive : 0 < associativity) (small : now.2.replacementPointer < associativity)
    (stepped : (CacheSetNRU associativity).step now label = .ok next) :
    (∃ way < associativity, (∃ pointer < associativity,
        next.2 = { now.2 with replacementPointer := pointer }.touch associativity way) ∧
      (∀ other, (next.1 other).isSome → other = way ∨ (now.1 other).isSome) ∧
      (NruAllowed associativity now label ↔ now.2.Fresh associativity way)) ∨
    next.2 = now.2 ∧ (∀ other, (next.1 other).isSome → (now.1 other).isSome) ∧ NruAllowed associativity now label := by
  cases label with
  | insert call cstate =>
    obtain ⟨index, replaced, contents⟩ := Policy.step_insert stepped
    have fills : ∀ other, (next.1 other).isSome → other = index ∨ (now.1 other).isSome := by
      intro other valid
      by_cases same : other = index
      · exact .inl same
      · rw [contents, Function.update_of_ne same] at valid
        exact .inr valid
    left
    cases invalid : firstInvalid associativity now.1 with
    | some way =>
      simp only [CacheSetNRU, invalid] at replaced
      obtain ⟨touched, isIndex⟩ := Prod.mk.inj (Except.ok.inj replaced)
      subst isIndex
      refine ⟨way, firstInvalid_lt invalid, ⟨_, small, touched.symm⟩, fills, ?_⟩
      simp only [NruAllowed, invalid]
    | none =>
      obtain ⟨isWay, _, touched, unset⟩ := nru_takes positive small invalid replaced
      refine ⟨index, isWay, touched, fills, ?_⟩
      simp only [NruAllowed, invalid, Nru.Fresh]
      rw [unset]
  | access way writeFlag setIndex =>
    obtain ⟨found, contents, updated⟩ | ⟨missing, same⟩ := Policy.step_access stepped
    · refine .inl ⟨way, found.1, ⟨_, small, (Except.ok.inj updated).symm⟩, fun other valid => .inr (contents ▸ valid), ?_⟩
      simp only [NruAllowed]
      exact ⟨fun allowed => allowed found, fun fresh _ => fresh⟩
    · exact .inr ⟨congrArg Prod.snd same, fun other valid => same ▸ valid, fun found => absurd found missing⟩
  | setCState way cstate =>
    cases stepped
    refine .inr ⟨rfl, ?_, trivial⟩
    intro other valid
    by_cases same : other = way
    · subst same
      simpa using valid
    · simpa [Function.update_of_ne same] using valid
  | invalidate way =>
    cases stepped
    refine .inr ⟨rfl, ?_, trivial⟩
    intro other valid
    by_cases same : other = way
    · subst same
      simp at valid
    · simpa [Function.update_of_ne same] using valid
  | updateLoopBit way loopbit =>
    simp only [Policy.step] at stepped
    split at stepped <;> cases stepped <;> exact .inr ⟨rfl, fun _ valid => valid, trivial⟩

/-! ### Runs -/

structure NruKeeps (associativity : Nat) (now : Contents × Nru) : Prop where
  counts : now.2.Counts associativity
  binary : ∀ way, now.2.lruBits way = 0 ∨ now.2.lruBits way = 1
  pointer : now.2.replacementPointer < associativity
  /-- No bit is set back in a set that the counter cannot count. -/
  large : 256 ≤ associativity → ∀ way < associativity, (now.1 way).isSome → now.2.lruBits way = 1

theorem NruKeeps.touched {way pointer : Nat} (positive : 0 < associativity) (keeps : NruKeeps associativity now)
    (small : way < associativity) (inside : pointer < associativity)
    (isNext : next.2 = { now.2 with replacementPointer := pointer }.touch associativity way)
    (fills : ∀ other, (next.1 other).isSome → other = way ∨ (now.1 other).isSome)
    (fresh : now.2.Fresh associativity way) : NruKeeps associativity next := by
  have moved : Nru.Counts associativity { now.2 with replacementPointer := pointer } := ⟨keeps.counts.ones, keeps.counts.notAll⟩
  have counts := (Nru.counts_touch positive moved keeps.binary small).mpr fresh
  refine ⟨isNext ▸ counts, ?_, ?_, ?_⟩
  · intro other
    have binary : ∀ way, Nru.lruBits { now.2 with replacementPointer := pointer } way = 0 ∨
      Nru.lruBits { now.2 with replacementPointer := pointer } way = 1 := keeps.binary
    rw [isNext]
    exact Nru.touch_binary binary other
  · rw [isNext, nru_touch_pointer]
    exact inside
  · intro large other otherSmall valid
    have noReset : (now.2.numBitsSet + 1) % 256 ≠ associativity := by omega
    rw [isNext]
    simp only [Nru.touch, noReset, if_false]
    by_cases same : other = way
    · subst same
      exact Function.update_self _ _ _
    · rw [Function.update_of_ne same]
      exact keeps.large large other otherSmall ((fills other valid).resolve_left same)

theorem nru_keeps (positive : 0 < associativity)
    (reached : (CacheSetNRU associativity).machine.Reach (NruAllowed associativity) now) : NruKeeps associativity now := by
  refine reached.invariant (NruKeeps associativity) ?_ ?_
  · intro start starts
    obtain ⟨empty, built⟩ := starts
    have built : start.2 = Nru.mk (fun _ => 0) 0 0 := built
    refine ⟨?_, ?_, ?_, ?_⟩
    · rw [built]
      exact ⟨onesCount_zero.symm, fun all => absurd (all 0 positive) Nat.zero_ne_one⟩
    · intro way
      rw [built]
      exact .inl rfl
    · rw [built]
      exact positive
    · intro _ way _ valid
      rw [empty] at valid
      cases valid
  · intro before label after keeps allowed stepped
    obtain ⟨way, small, ⟨pointer, inside, isNext⟩, fills, fresh⟩ | ⟨same, fewer, _⟩ := nru_step positive keeps.pointer stepped
    · exact keeps.touched positive small inside isNext fills (fresh.mp allowed)
    · refine ⟨same ▸ keeps.counts, same ▸ keeps.binary, same ▸ keeps.pointer, ?_⟩
      intro large way small valid
      rw [same]
      exact keeps.large large way small (fewer way valid)

theorem NruKeeps.victim (positive : 0 < associativity) (keeps : NruKeeps associativity now)
    (full : ∀ way < associativity, (now.1 way).isSome) (call : Call)
    (exists_ : ∃ way < associativity, now.2.lruBits way = 0 ∧ isValidReplacement now.1 way = true) :
    ∃ (after : Nru) (victim : Nat), (CacheSetNRU associativity).getReplacementIndex now.1 call now.2 = .ok (after, victim) ∧
      victim < associativity ∧ now.2.lruBits victim = 0 ∧ isValidReplacement now.1 victim = true := by
  obtain ⟨way, small, unset, valid⟩ := exists_
  have fits : associativity ≤ 256 := by
    by_contra many
    have set := keeps.large (by omega) way small (full way small)
    omega
  have invalid := firstInvalid_eq_none full
  obtain ⟨other, isWay, accepted⟩ := nruAccepts_some now.2 small valid
  have found := walk_finds fits keeps.pointer isWay accepted
  obtain ⟨chosen, found⟩ := Option.isSome_iff_exists.mp found
  have replaced : (CacheSetNRU associativity).getReplacementIndex now.1 call now.2 =
      .ok ({ now.2 with replacementPointer := chosen.2 }.touch associativity chosen.1, chosen.1) := by
    rw [nru_full now.2 call invalid, found]
  obtain ⟨isVictim, replaceable, _, unsets⟩ := nru_takes positive keeps.pointer invalid replaced
  exact ⟨_, _, replaced, isVictim, unsets.mp ⟨way, small, unset, valid⟩, replaceable⟩

/-- In every run whose steps are allowed the counter counts the bits that are 1, these are not all, and a full set gives up a
way whose bit is 0 if it can.  The first step that is not allowed breaks the count. -/
theorem nru_counts (associativity : Nat) (positive : 0 < associativity) (now : Contents × Nru)
    (reached : (CacheSetNRU associativity).machine.Reach (NruAllowed associativity) now) :
    now.2.numBitsSet = onesCount associativity now.2.lruBits ∧
    (¬∀ way < associativity, now.2.lruBits way = 1) ∧
    ((∀ way < associativity, (now.1 way).isSome) →
      (∃ way < associativity, now.2.lruBits way = 0 ∧ isValidReplacement now.1 way = true) →
      ∀ call, ∃ (after : Nru) (victim : Nat),
        (CacheSetNRU associativity).getReplacementIndex now.1 call now.2 = .ok (after, victim) ∧
        victim < associativity ∧ now.2.lruBits victim = 0 ∧ isValidReplacement now.1 victim = true) ∧
    ∀ label (next : Contents × Nru), (CacheSetNRU associativity).step now label = .ok next →
      (NruAllowed associativity now label ↔
        next.2.numBitsSet = onesCount associativity next.2.lruBits ∧ ¬∀ way < associativity, next.2.lruBits way = 1) := by
  have keeps := nru_keeps positive reached
  refine ⟨keeps.counts.ones, keeps.counts.notAll, fun full exists_ call => keeps.victim positive full call exists_, ?_⟩
  intro label next stepped
  obtain ⟨way, small, ⟨pointer, _, isNext⟩, _, fresh⟩ | ⟨same, _, allowed⟩ := nru_step positive keeps.pointer stepped
  · have moved : Nru.Counts associativity { now.2 with replacementPointer := pointer } := ⟨keeps.counts.ones, keeps.counts.notAll⟩
    have touched := Nru.counts_touch positive moved keeps.binary small
    rw [fresh, isNext]
    exact ⟨fun isFresh => ⟨(touched.mpr isFresh).ones, (touched.mpr isFresh).notAll⟩, fun after => touched.mp ⟨after.1, after.2⟩⟩
  · rw [same]
    exact ⟨fun _ => ⟨keeps.counts.ones, keeps.counts.notAll⟩, fun _ => allowed⟩

end Steps

theorem nru_starts (guard : Contents × Nru → Label → Prop) :
    (CacheSetNRU associativity).machine.Reach guard ((fun _ => none), Nru.mk (fun _ => 0) 0 0) := .initial ⟨rfl, rfl⟩

/-- Four lines fill the set and the bits start again.  The first line is read, and the next victim is another one. -/
theorem nru_four_ways_count :
    ∃ (contents : Contents) (fields : Nru), (CacheSetNRU 4).machine.Reach (NruAllowed 4) (contents, fields) ∧
      (∀ way < 4, (contents way).isSome) ∧ fields.lruBits 0 = 1 ∧ fields.numBitsSet = onesCount 4 fields.lruBits ∧
      ∃ (after : Nru) (victim : Nat), (CacheSetNRU 4).getReplacementIndex contents plainCall fields = .ok (after, victim) ∧
        victim < 4 ∧ fields.lruBits victim = 0 ∧ isValidReplacement contents victim = true := by
  have start : (CacheSetNRU 4).machine.Reach (NruAllowed 4) ((fun _ => none), Nru.mk (fun _ => 0) 0 0) := nru_starts (NruAllowed 4)
  have first := start.step (Label.insert plainCall .shared) (.inr ⟨rfl, by decide⟩) rfl
  have second := first.step (Label.insert plainCall .shared) (.inr ⟨rfl, by decide⟩) rfl
  have third := second.step (Label.insert plainCall .shared) (.inr ⟨rfl, by decide⟩) rfl
  have filled := third.step (Label.insert plainCall .shared) (.inl rfl) rfl
  have used := filled.step (Label.access 0 0 0) (fun _ => .inr ⟨rfl, by decide⟩) rfl
  have counts := nru_counts 4 (by decide) _ used
  exact ⟨_, _, used, by decide, rfl, counts.1, counts.2.2.1 (by decide) ⟨1, by decide, rfl, rfl⟩ plainCall⟩

/-- A line is inserted and read: the counter is two and one bit is set. -/
theorem nru_hit_counts_twice :
    ∃ (contents : Contents) (fields : Nru), (CacheSetNRU 4).machine.Reachable (contents, fields) ∧ fields.numBitsSet = 2 ∧
      onesCount 4 fields.lruBits = 1 := by
  have ran : (CacheSetNRU 4).machine.run ((fun _ => none), Nru.mk (fun _ => 0) 0 0)
    [.insert plainCall .shared, .access 0 0 0] = .ok _ := rfl
  exact ⟨_, _, (nru_starts _).run (by simp) ran, rfl, rfl⟩

end Sniper.Replacement

import Sniper.Replacement.Order
import Sniper.Replacement.Pointer

/-! When the policies that walk over the ways, follow a tree or draw a way replace a block that may be
replaced. -/

namespace Sniper.Replacement

variable {associativity : Nat} {set : Contents}

/-! ### Round robin -/

theorem roundRobin_first {calls pointer : Nat} (positive : pointer ≠ 0)
    (valid : isValidReplacement set (pointer - 1) = true) :
    roundRobin associativity set (calls + 1) pointer = .ok (pointer - 1, pointer) := by
  simp [roundRobin, positive, valid]

theorem roundRobin_one {after index : Nat} (returned : roundRobin 1 set 1 0 = .ok (after, index)) : after = 0 := by
  simp only [roundRobin, if_true] at returned
  split at returned <;> cases returned
  rfl

theorem roundRobin_alwaysReplaces (positive : 0 < associativity) :
    (CacheSetRoundRobin associativity).AlwaysReplaces ↔ associativity = 1 := by
  constructor
  · intro always
    by_contra several
    obtain ⟨calls, isSucc⟩ : ∃ calls, associativity = calls + 2 := ⟨associativity - 2, by omega⟩
    subst isSucc
    obtain ⟨after, result⟩ := always.only (Policy.reachable_start rfl) (show calls < calls + 2 by omega) plainCall
    have returned : roundRobin (calls + 2) (onlyWay calls) (calls + 1 + 1) (calls + 1) = .ok (calls, calls + 1) :=
      roundRobin_first (by omega) ((onlyWay_valid calls).mpr rfl)
    have same : calls + 1 = calls := congrArg Prod.snd (Except.ok.inj (returned.symm.trans result))
    omega
  · intro one
    subst one
    rintro contents pointer reached set full ⟨way, small, valid⟩ call
    have start : (fun pointer : Nat => pointer = 0) pointer := by
      refine Policy.invariant (CacheSetRoundRobin 1) (fun pointer : Nat => pointer = 0) ?_ ?_ ?_ ?_ reached
      · intro pointer starts
        exact starts
      · intro set call pointer after index result zero
        have zero : pointer = (0 : Nat) := zero
        subst zero
        exact roundRobin_one result
      · intro way _ writeFlag setIndex pointer after result zero
        cases result
        exact zero
      · intro way loopbit pointer zero
        exact zero
    have start : pointer = (0 : Nat) := start
    subst start
    have zero : way = 0 := Nat.lt_one_iff.mp small
    subst zero
    have returned : roundRobin 1 set 1 0 = .ok (0, 0) := by simp [roundRobin, valid]
    exact ⟨(0 : Nat), 0, returned, Nat.one_pos, valid⟩

/-! ### Walks from a pointer -/

section Walk

variable {accepts : Nat → Bool} {steps pointer : Nat}

theorem advance_lt (positive : 0 < associativity) : advance associativity pointer < associativity :=
  Nat.lt_of_le_of_lt (Nat.mod_le _ _) (Nat.mod_lt _ positive)

theorem walk_eq_none (rejects : ∀ way < 256, accepts way = false) (small : pointer < 256) :
    walk associativity accepts steps pointer = none := by
  induction steps generalizing pointer with
  | zero => rfl
  | succ steps ih =>
    rw [walk, rejects pointer small]
    exact ih (Nat.mod_lt _ (by decide))

theorem walk_eq_some {index after : Nat} (positive : 0 < associativity) (small : pointer < associativity)
    (found : walk associativity accepts steps pointer = some (index, after)) :
    accepts index = true ∧ index < associativity ∧ after < associativity := by
  induction steps generalizing pointer with
  | zero => cases found
  | succ steps ih =>
    rw [walk] at found
    split at found
    case isTrue accepted =>
      cases found
      exact ⟨accepted, small, advance_lt positive⟩
    case isFalse => exact ih (advance_lt positive) found

theorem walk_isSome {distance : Nat} (fits : associativity ≤ 256) (small : pointer < associativity)
    (near : distance < steps) (accepted : accepts ((pointer + distance) % associativity) = true) :
    (walk associativity accepts steps pointer).isSome := by
  induction steps generalizing pointer distance with
  | zero => cases near
  | succ steps ih =>
    rw [walk]
    split
    case isTrue => rfl
    case isFalse rejected =>
      have positive : 0 < associativity := by omega
      have moves : advance associativity pointer = (pointer + 1) % associativity := by
        have bound : (pointer + 1) % associativity < associativity := Nat.mod_lt _ positive
        exact Nat.mod_eq_of_lt (by omega)
      cases distance with
      | zero =>
        rw [Nat.add_zero, Nat.mod_eq_of_lt small] at accepted
        exact absurd accepted rejected
      | succ distance =>
        refine ih (advance_lt positive) (Nat.lt_of_succ_lt_succ near) ?_
        rw [moves, Nat.mod_add_mod, Nat.add_assoc, Nat.add_comm 1]
        exact accepted

theorem pointer_arrives {way : Nat} (small : pointer < associativity) (isWay : way < associativity) :
    (pointer + (way + associativity - pointer) % associativity) % associativity = way := by
  rw [Nat.add_mod_mod, show pointer + (way + associativity - pointer) = way + associativity by omega, Nat.add_mod_right,
    Nat.mod_eq_of_lt isWay]

theorem walk_finds {way : Nat} (fits : associativity ≤ 256) (small : pointer < associativity) (isWay : way < associativity)
    (accepted : accepts way = true) : (walk associativity accepts associativity pointer).isSome := by
  have positive : 0 < associativity := Nat.zero_lt_of_lt small
  exact walk_isSome fits small (Nat.mod_lt _ positive) ((pointer_arrives small isWay).symm ▸ accepted)

end Walk

theorem nmru_alwaysReplaces (positive : 0 < associativity) : ¬(CacheSetNMRU associativity).AlwaysReplaces := by
  intro always
  obtain ⟨after, result⟩ := always.only (Policy.reachable_start rfl) positive plainCall
  have rejects : ∀ way < 256, (initialLruBits way != 0 && isValidReplacement (onlyWay 0) way) = false := by
    intro way _
    rw [Bool.and_eq_false_iff]
    by_cases zero : way = 0
    · subst zero
      exact .inl rfl
    · right
      simp [isValidReplacement, onlyWay, zero]
  have none : walk associativity (fun way => initialLruBits way != 0 && isValidReplacement (onlyWay 0) way)
      associativity 0 = none := walk_eq_none rejects (by decide)
  simp [CacheSetNMRU, onlyWay_firstInvalid, none] at result

theorem nru_touch_pointer (fields : Nru) (way : Nat) :
    (fields.touch associativity way).replacementPointer = fields.replacementPointer := by
  simp only [Nru.touch]
  split <;> rfl

/-- What `CacheSetNRU` looks for. -/
def nruAccepts (associativity : Nat) (set : Contents) (fields : Nru) (way : Nat) : Bool :=
  (fields.lruBits way == 0 || !(List.range associativity).any fun way =>
    fields.lruBits way == 0 && isValidReplacement set way) && isValidReplacement set way

theorem nru_full (fields : Nru) (call : Call) (full : firstInvalid associativity set = none) :
    (CacheSetNRU associativity).getReplacementIndex set call fields =
      match walk associativity (nruAccepts associativity set fields) associativity fields.replacementPointer with
      | some (way, replacementPointer) => .ok ({ fields with replacementPointer }.touch associativity way, way)
      | none => .error .findingLruBits := by
  simp only [CacheSetNRU, full]
  rfl

theorem nruAccepts_some {way : Nat} (fields : Nru) (small : way < associativity)
    (valid : isValidReplacement set way = true) :
    ∃ other < associativity, nruAccepts associativity set fields other = true := by
  by_cases zeroBit : (List.range associativity).any fun way => fields.lruBits way == 0 && isValidReplacement set way
  · obtain ⟨other, member, accepted⟩ := List.any_eq_true.mp zeroBit
    rw [Bool.and_eq_true] at accepted
    exact ⟨other, List.mem_range.mp member, by simp [nruAccepts, accepted.1, accepted.2]⟩
  · exact ⟨way, small, by simp [nruAccepts, zeroBit, valid]⟩

theorem nru_pointer_lt {contents : Contents} {fields : Nru} (positive : 0 < associativity)
    (reached : (CacheSetNRU associativity).machine.Reachable (contents, fields)) :
    fields.replacementPointer < associativity := by
  refine Policy.invariant (CacheSetNRU associativity) (fun fields : Nru => fields.replacementPointer < associativity)
    ?_ ?_ ?_ ?_ reached
  · intro fields starts
    rw [show fields = ⟨fun _ => 0, 0, 0⟩ from starts]
    exact positive
  · intro set call fields after index result small
    have small : Nru.replacementPointer fields < associativity := small
    cases full : firstInvalid associativity set with
    | some way =>
      simp only [CacheSetNRU, full] at result
      cases result
      exact (nru_touch_pointer fields index).trans_lt small
    | none =>
      rw [nru_full fields call full] at result
      split at result
      case h_1 way pointer found =>
        cases result
        exact (nru_touch_pointer _ index).trans_lt (walk_eq_some positive small found).2.2
      case h_2 => cases result
  · intro way _ writeFlag setIndex fields after result small
    cases result
    exact (nru_touch_pointer fields way).trans_lt small
  · intro way loopbit fields small
    exact small

theorem nru_alwaysReplaces (positive : 0 < associativity) :
    (CacheSetNRU associativity).AlwaysReplaces ↔ associativity ≤ 256 := by
  constructor
  · intro always
    by_contra many
    have small : 256 < associativity := by omega
    obtain ⟨after, result⟩ := always.only (Policy.reachable_start rfl) small plainCall
    have rejects : ∀ way < 256, nruAccepts associativity (onlyWay 256) ⟨fun _ => 0, 0, 0⟩ way = false := by
      intro way less
      have apart : way ≠ 256 := by omega
      simp [nruAccepts, isValidReplacement, onlyWay, apart]
    rw [nru_full _ _ onlyWay_firstInvalid, walk_eq_none rejects (by decide)] at result
    cases result
  · rintro fits contents fields reached set full ⟨way, small, valid⟩ call
    have start := nru_pointer_lt positive reached
    have some : ∃ other < associativity, nruAccepts associativity set fields other = true :=
      nruAccepts_some fields small valid
    obtain ⟨other, isWay, accepted⟩ := some
    have none : firstInvalid associativity set = Option.none := firstInvalid_eq_none full
    have found := walk_finds fits start isWay accepted
    obtain ⟨⟨index, pointer⟩, found⟩ := Option.isSome_iff_exists.mp found
    obtain ⟨chosen, inside, _⟩ := walk_eq_some positive start found
    let moved : Nru := { fields with replacementPointer := pointer }
    refine ⟨moved.touch associativity index, index, ?_, inside, ?_⟩
    · have returned := nru_full fields call none
      rw [found] at returned
      exact returned
    · simp only [nruAccepts, Bool.and_eq_true] at chosen
      exact chosen.2

/-! ### Trees -/

theorem plru_alwaysReplaces (sized : associativity = 4 ∨ associativity = 8) :
    ¬(CacheSetPLRU associativity).AlwaysReplaces := by
  intro always
  have built : (CacheSetPLRU associativity).constructed (fun _ => 0 : Nat → Nat) := ⟨sized, rfl⟩
  have small : 1 < associativity := by omega
  obtain ⟨after, index, result, _⟩ := always.rest (Policy.reachable_start built) small Nat.one_ne_zero plainCall
  have leaf : plruLeaf associativity (fun _ => 0) = 0 := by
    simp [plruLeaf]
  simp [CacheSetPLRU, allBut_firstInvalid, leaf, isValidReplacement, allBut] at result

/-! ### Re-reference intervals -/

section Srrip

variable {rripMax numAttempts : Nat} {inLower : Nat → Bool} {fields : Srrip}

/-- The loops of a call choose a way without a look at the coherence states. -/
def srripChosen (associativity rripMax numAttempts : Nat) (fields : Srrip) (call : Call) : Option (Srrip × Nat) :=
  Srrip.rounds associativity rripMax numAttempts call.isInLowerLevelCache (rripMax + 1) { fields with attempt := 0 }

theorem srrip_chosen {call : Call} {after : Srrip} {index : Nat} (full : firstInvalid associativity set = none)
    (result : (CacheSetSRRIP associativity rripMax numAttempts).getReplacementIndex set call fields =
      .ok (after, index)) : srripChosen associativity rripMax numAttempts fields call = some (after, index) := by
  simp only [CacheSetSRRIP, full] at result
  split at result
  case h_1 found =>
    split at result
    · cases result
      exact found
    · cases result
  case h_2 => cases result

theorem srrip_blind (two : 2 ≤ associativity) :
    ¬(CacheSetSRRIP associativity rripMax numAttempts).AlwaysReplaces := by
  intro always
  have reached : (CacheSetSRRIP associativity rripMax numAttempts).machine.Reachable
      ((fun _ => none), Srrip.mk (fun _ => Srrip.rripInsert rripMax) 0 0) := Policy.reachable_start rfl
  obtain ⟨afterFirst, first⟩ := always.only reached (show 0 < associativity by omega) plainCall
  obtain ⟨afterSecond, second⟩ := always.only reached (show 1 < associativity by omega) plainCall
  have same := (srrip_chosen onlyWay_firstInvalid first).symm.trans (srrip_chosen onlyWay_firstInvalid second)
  cases same

theorem scan_one (fields : Srrip) (start : fields.replacementPointer = 0) :
    Srrip.scan 1 rripMax numAttempts inLower 1 fields =
      if rripMax ≤ fields.rripBits 0 then
        if fields.attempt + 1 < numAttempts ∧ inLower 0 then
          ({ fields with rripBits := Function.update fields.rripBits 0 0, attempt := fields.attempt + 1 }, none)
        else ({ fields with rripBits := Function.update fields.rripBits 0 (Srrip.rripInsert rripMax) }, some 0)
      else (fields, none) := by
  obtain ⟨bits, pointer, attempt⟩ := fields
  have start : pointer = 0 := start
  subst start
  simp [Srrip.scan, advance]

theorem rounds_one (left : Nat) (fields : Srrip) (start : fields.replacementPointer = 0) :
    Srrip.rounds 1 rripMax numAttempts inLower (left + 1) fields =
      if rripMax ≤ fields.rripBits 0 then
        if fields.attempt + 1 < numAttempts ∧ inLower 0 then
          Srrip.rounds 1 rripMax numAttempts inLower left (Srrip.age 1 rripMax
            { fields with rripBits := Function.update fields.rripBits 0 0, attempt := fields.attempt + 1 })
        else some ({ fields with rripBits := Function.update fields.rripBits 0 (Srrip.rripInsert rripMax) }, 0)
      else Srrip.rounds 1 rripMax numAttempts inLower left (Srrip.age 1 rripMax fields) := by
  rw [Srrip.rounds, scan_one fields start]
  split_ifs <;> rfl

theorem rounds_pointer {left index : Nat} {after : Srrip} (start : fields.replacementPointer = 0)
    (chosen : Srrip.rounds 1 rripMax numAttempts inLower left fields = some (after, index)) :
    after.replacementPointer = 0 := by
  induction left generalizing fields with
  | zero => cases chosen
  | succ left ih =>
    rw [rounds_one left fields start] at chosen
    split_ifs at chosen
    · exact ih (by exact start) chosen
    · cases chosen
      exact start
    · exact ih (by exact start) chosen

theorem age_below (below : ¬rripMax ≤ fields.rripBits 0) :
    (Srrip.age 1 rripMax fields).rripBits 0 = fields.rripBits 0 + 1 :=
  if_pos ⟨Nat.one_pos, Nat.lt_of_not_le below⟩

theorem rounds_eq_none {left : Nat} (start : fields.replacementPointer = 0)
    (few : fields.rripBits 0 + left ≤ rripMax) : Srrip.rounds 1 rripMax numAttempts inLower left fields = none := by
  induction left generalizing fields with
  | zero => rfl
  | succ left ih =>
    have below : ¬rripMax ≤ fields.rripBits 0 := by omega
    rw [rounds_one left fields start, if_neg below]
    apply ih
    · exact start
    · rw [age_below below]
      omega

theorem rounds_eq_some {left : Nat} (start : fields.replacementPointer = 0) (once : numAttempts ≤ 1)
    (enough : rripMax ≤ fields.rripBits 0 + left) :
    ∃ after, Srrip.rounds 1 rripMax numAttempts inLower (left + 1) fields = some (after, 0) := by
  induction left generalizing fields with
  | zero =>
    have top : rripMax ≤ fields.rripBits 0 := enough
    have accepts : ¬(fields.attempt + 1 < numAttempts ∧ inLower 0 = true) := by omega
    rw [rounds_one 0 fields start, if_pos top, if_neg accepts]
    exact ⟨_, rfl⟩
  | succ left ih =>
    have accepts : ¬(fields.attempt + 1 < numAttempts ∧ inLower 0 = true) := by omega
    rw [rounds_one (left + 1) fields start, if_neg accepts]
    split_ifs with top
    · exact ⟨_, rfl⟩
    · apply ih
      · exact start
      · rw [age_below top]
        omega

theorem rounds_keep (byte : rripMax < 256) (twice : 1 < numAttempts) (inside : inLower 0 = true) :
    Srrip.rounds 1 rripMax numAttempts inLower (rripMax + 1) ⟨fun _ => Srrip.rripInsert rripMax, 0, 0⟩ = none := by
  have keeps : 0 + 1 < numAttempts ∧ inLower 0 = true := ⟨by omega, inside⟩
  cases rripMax with
  | zero =>
    rw [rounds_one 0 _ rfl, if_pos (Nat.zero_le _), if_pos keeps]
    rfl
  | succ most =>
    have inserted : Srrip.rripInsert (most + 1) = most := by
      rw [Srrip.rripInsert]
      omega
    have below : ¬most + 1 ≤ most := by omega
    rw [inserted, rounds_one _ _ rfl, if_neg below]
    let aged : Srrip := Srrip.age 1 (most + 1) ⟨fun _ => most, 0, 0⟩
    have top : aged.rripBits 0 = most + 1 := age_below below
    have first : aged.attempt + 1 < numAttempts ∧ inLower 0 = true := keeps
    rw [rounds_one most aged rfl, if_pos top.ge, if_pos first]
    apply rounds_eq_none rfl
    rw [age_below (by simp)]
    simp only [Function.update_self]
    omega

theorem srrip_alwaysReplaces (positive : 0 < associativity) (byte : rripMax < 256) :
    (CacheSetSRRIP associativity rripMax numAttempts).AlwaysReplaces ↔ associativity = 1 ∧ numAttempts ≤ 1 := by
  constructor
  · intro always
    have one : associativity = 1 := by
      by_contra several
      exact srrip_blind (by omega) always
    subst one
    refine ⟨rfl, ?_⟩
    by_contra twice
    have reached : (CacheSetSRRIP 1 rripMax numAttempts).machine.Reachable
        ((fun _ => none), Srrip.mk (fun _ => Srrip.rripInsert rripMax) 0 0) := Policy.reachable_start rfl
    obtain ⟨after, result⟩ :=
      always.only reached Nat.one_pos { plainCall with isInLowerLevelCache := fun _ => true }
    have chosen := srrip_chosen onlyWay_firstInvalid result
    rw [srripChosen, rounds_keep byte (Nat.lt_of_not_le twice) rfl] at chosen
    cases chosen
  · rintro ⟨one, once⟩
    subst one
    rintro contents fields reached set full ⟨way, small, valid⟩ call
    have start : Srrip.replacementPointer fields = 0 := by
      refine Policy.invariant (CacheSetSRRIP 1 rripMax numAttempts) (fun fields : Srrip => fields.replacementPointer = 0)
        ?_ ?_ ?_ ?_ reached
      · intro fields starts
        rw [show fields = Srrip.mk _ 0 0 from starts]
      · intro set call fields after index result start
        cases full : firstInvalid 1 set with
        | some way =>
          simp only [CacheSetSRRIP, full] at result
          cases result
          exact start
        | none =>
          let first : Srrip := { fields with attempt := 0 }
          have chosen : Srrip.rounds 1 rripMax numAttempts call.isInLowerLevelCache (rripMax + 1) first =
              some (after, index) := srrip_chosen full result
          exact rounds_pointer (by exact start) chosen
      · intro way _ writeFlag setIndex fields after result start
        simp only [CacheSetSRRIP, increment] at result
        split at result <;> cases result
        exact start
      · intro way loopbit fields start
        exact start
    have zero : way = 0 := Nat.lt_one_iff.mp small
    subst zero
    have none : firstInvalid 1 set = Option.none := firstInvalid_eq_none full
    let first : Srrip := { fields with attempt := 0 }
    obtain ⟨after, chosen⟩ : ∃ after, Srrip.rounds 1 rripMax numAttempts call.isInLowerLevelCache (rripMax + 1) first =
      some (after, 0) := rounds_eq_some start once (Nat.le_add_left _ _)
    refine ⟨after, 0, ?_, Nat.one_pos, valid⟩
    simp only [CacheSetSRRIP, none]
    rw [show Srrip.rounds 1 rripMax numAttempts call.isInLowerLevelCache (rripMax + 1) first = some (after, 0) from chosen]
    simp [valid]

end Srrip

/-! ### Random choice -/

theorem drawnWay_lt {seed : Nat} (positive : 0 < associativity) : drawnWay associativity seed < associativity :=
  Nat.mod_lt _ positive

theorem drawWay_high {calls seed : Nat} :
    drawWay associativity (onlyWay 32768) calls seed = .error .diverges := by
  induction calls generalizing seed with
  | zero => rfl
  | succ calls ih =>
    have low : drawnWay associativity (nextSeed seed) < 32768 :=
      Nat.lt_of_le_of_lt (Nat.mod_le _ _) (Nat.mod_lt _ (by decide))
    have rejected : ¬isValidReplacement (onlyWay 32768) (drawnWay associativity (nextSeed seed)) = true := by
      rw [onlyWay_valid]
      omega
    rw [drawWay]
    simp only [rejected]
    exact ih

theorem drawWay_reaches {calls draws seed : Nat} (positive : 0 < associativity) (near : draws < calls)
    (valid : isValidReplacement set (drawnWay associativity (nextSeed^[draws + 1] seed)) = true) :
    ∃ after index, drawWay associativity set calls seed = .ok (after, index) ∧ index < associativity ∧
      isValidReplacement set index = true := by
  induction calls generalizing seed draws with
  | zero => cases near
  | succ calls ih =>
    rw [drawWay]
    by_cases first : isValidReplacement set (drawnWay associativity (nextSeed seed)) = true
    · simp only [first, if_true]
      exact ⟨_, _, rfl, drawnWay_lt positive, first⟩
    · simp only [first]
      cases draws with
      | zero => exact absurd valid first
      | succ draws =>
        rw [Function.iterate_succ_apply] at valid
        exact ih (Nat.lt_of_succ_lt_succ near) valid

theorem random_alwaysReplaces (positive : 0 < associativity) :
    (CacheSetRandom associativity).AlwaysReplaces ↔ associativity ≤ 32768 := by
  constructor
  · intro always
    by_contra many
    have high : 32768 < associativity := by omega
    have built : (CacheSetRandom associativity).constructed (0 : Nat) := by
      show 0 < 2 ^ 32
      decide
    obtain ⟨after, result⟩ := always.only (Policy.reachable_start built) high plainCall
    have returned : drawWay associativity (onlyWay 32768) (2 ^ 32) 0 = .ok (after, 32768) := by
      simpa only [CacheSetRandom, onlyWay_firstInvalid] using result
    cases drawWay_high.symm.trans returned
  · rintro fits contents seed _ set full ⟨way, small, valid⟩ call
    have small : way < associativity := small
    have none : firstInvalid associativity set = Option.none := firstInvalid_eq_none full
    -- The generator has full period, so it reaches the seed whose upper half is the way.
    obtain ⟨draws, near, arrives⟩ : ∃ draws < 2 ^ 32, nextSeed^[draws + 1] seed = way * 65536 :=
      Congruential.reaches (by decide) (by decide) seed (by omega)
    have drawn : drawnWay associativity (way * 65536) = way := by
      rw [drawnWay, Nat.mul_div_cancel _ (by decide), Nat.mod_eq_of_lt (show way < 32768 by omega),
        Nat.mod_eq_of_lt small]
    have reached : isValidReplacement set (drawnWay associativity (nextSeed^[draws + 1] seed)) = true := by
      have there := congrArg (drawnWay associativity) arrives
      rw [there, drawn]
      exact valid
    obtain ⟨after, index, result, inside, replaceable⟩ := drawWay_reaches positive near reached
    refine ⟨after, index, ?_, inside, replaceable⟩
    simpa only [CacheSetRandom, none] using result

end Sniper.Replacement

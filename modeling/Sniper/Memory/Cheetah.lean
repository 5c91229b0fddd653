import Mathlib.Data.Nat.Bitwise
import Sniper.Library.Recency

/-! `CheetahSACLRU`: the hits of set-associative caches of many sizes, from one tree for each set of the smallest.

A row of a tree has the tags that a set at its depth keeps and that its set one depth above
does not keep.  The rows on the way to a tag are all that an access looks at. -/

namespace Sniper.Cheetah

open Recency

/-- `N`, `B`, `A` and `L`, with the check of `init_saclru`. -/
structure Parameters where
  N : Nat
  B : Nat
  A : Nat
  L : Nat
  ordered : A ≤ B
  fits : 2 ^ A * 2 ^ (B - A) * 2 * (2 ^ N + 1) < 2 ^ 32

namespace Parameters

variable (parameters : Parameters)

def TWO_PWR_N : Nat := 2 ^ parameters.N

def MAX_DEPTH : Nat := parameters.B - parameters.A

def DIFF_SET_MASK : Nat := 2 ^ parameters.MAX_DEPTH - 1

/-- How many low bits two tags share, from the bits in which they differ. -/
def rm_arr (index : Nat) : Nat :=
  if index = 0 then parameters.MAX_DEPTH
  else ((List.range (parameters.MAX_DEPTH + 1)).find? index.testBit).getD 0

end Parameters

abbrev Row := Nat → Nat

abbrev Tree := Nat → Row

structure State where
  /-- The trees of the sets. -/
  arr : Nat → Tree
  sac_hits : Nat → Nat → Nat
  depths : Nat → Nat
  hitarr0 : Nat
  tag : Nat
  t_entries : Nat

/-! ### Initialization -/

def B80000000 : Nat := 0x80000000

variable (parameters : Parameters)

def Row.fill (init_value : Nat) (row : Row) : Row := fun location =>
  if location = 0 then 1 else if location ≤ parameters.TWO_PWR_N then init_value else row location

/-- The rows of one depth: the first half of them is empty. -/
def Tree.initDepth (j : Nat) (start : Tree × Nat) : Tree × Nat :=
  let tree := (List.range' (2 ^ j - 1) (2 ^ (j - 1))).foldl
    (fun tree k => Function.update tree k (Function.update (tree k) 0 (parameters.TWO_PWR_N + 1))) start.1
  (List.range' (2 ^ j - 1 + 2 ^ (j - 1)) (2 ^ (j - 1))).foldl
    (fun now k => (Function.update now.1 k (Row.fill parameters now.2 (now.1 k)), now.2 + 1)) (tree, start.2)

def Tree.init : Tree :=
  ((List.range' 1 parameters.MAX_DEPTH).foldl (fun now j => Tree.initDepth parameters j now)
    (Function.update (fun _ _ => 0) 0 (Row.fill parameters B80000000 fun _ => 0), B80000000 + 1)).1

def State.init_saclru : State where
  arr _ := Tree.init parameters
  sac_hits _ _ := 0
  depths _ := 0
  hitarr0 := 0
  tag := 0
  t_entries := 0

/-! ### Accesses -/

structure Scan where
  row : Row
  depths : Nat → Nat
  tag : Nat
  hit : Bool

/-- One round of the loop over a row, without a hit. -/
def Scan.pass (orig_tag i : Nat) (now : Scan) : Scan :=
  let t1 := now.row i
  let t := parameters.rm_arr ((orig_tag ^^^ t1) &&& parameters.DIFF_SET_MASK)
  { now with
    row := Function.update now.row i now.tag, depths := Function.update now.depths t (now.depths t + 1), tag := t1 }

/-- The loop over the tags of a row, from `i` on: they move by one location, up to the tag of the access. -/
def Scan.loop (orig_tag : Nat) : (remaining i : Nat) → Scan → Scan
  | 0, _, now => now
  | remaining + 1, i, now =>
    if now.row i = orig_tag then { now with row := Function.update now.row i now.tag, hit := true }
    else Scan.loop orig_tag remaining (i + 1) (now.pass parameters orig_tag i)

def rowOf (depth tag : Nat) : Nat := 2 ^ depth + (tag &&& (2 ^ depth - 1)) - 1

/-- `sac_hits` after a hit: the loop over `i`, down from `remaining - 1`. -/
def countHits (depths : Nat → Nat) : (remaining sum : Nat) → (sac_hits : Nat → Nat → Nat) → Nat → Nat → Nat
  | 0, _, sac_hits => sac_hits
  | i + 1, sum, sac_hits =>
    let sum := sum + depths i
    if sum < parameters.TWO_PWR_N then
      countHits depths i sum (Function.update sac_hits sum (Function.update (sac_hits sum) i (sac_hits sum i + 1)))
    else sac_hits

structure Walk where
  tree : Tree
  sac_hits : Nat → Nat → Nat
  depths : Nat → Nat
  tag : Nat

/-- The loops over the depths, from `depth` on.  The inner one goes past the depths with an empty row. -/
def Walk.loop (orig_tag : Nat) : (remaining depth atag : Nat) → Walk → Walk
  | 0, _, _, now => now
  | remaining + 1, depth, atag, now =>
    let entry := rowOf depth orig_tag
    if depth ≠ 0 ∧ now.tree entry 0 > parameters.TWO_PWR_N then Walk.loop orig_tag remaining (depth + 1) atag now
    else
      let fst := if depth = 0 then 1 else now.tree entry 0
      let scan := Scan.loop parameters orig_tag (parameters.TWO_PWR_N + 1 - fst) fst
        { row := now.tree entry, depths := now.depths, tag := now.tag, hit := false }
      let tree := Function.update now.tree entry (Function.update scan.row 0 (scan.row 0 + 1))
      let entry := rowOf depth atag
      let first := tree entry 0 - 1
      let tree := Function.update tree entry (Function.update (Function.update (tree entry) 0 first) first atag)
      if scan.hit then
        { tree, sac_hits := countHits parameters scan.depths (parameters.MAX_DEPTH + 1) 0 now.sac_hits,
          depths := scan.depths, tag := scan.tag }
      else Walk.loop orig_tag remaining (depth + 1) scan.tag { now with tree, depths := scan.depths, tag := scan.tag }

def State.sacnmul_woarr (addr : BitVec 64) (state : State) : State :=
  let state := { state with t_entries := state.t_entries + 1 }
  let addr := addr.sshiftRight parameters.L
  let set_no := addr.toNat &&& (2 ^ parameters.A - 1)
  let orig_tag := (addr.sshiftRight parameters.A).toNat
  if state.arr set_no 0 1 = orig_tag then { state with hitarr0 := state.hitarr0 + 1 }
  else
    let walk := Walk.loop parameters orig_tag (parameters.MAX_DEPTH + 1) 0 orig_tag
      { tree := state.arr set_no, sac_hits := state.sac_hits, depths := state.depths, tag := state.tag }
    { state with
      arr := Function.update state.arr set_no walk.tree, sac_hits := walk.sac_hits,
      depths := fun i => if i ≤ parameters.MAX_DEPTH then 0 else walk.depths i, tag := walk.tag }

def State.flush (state : State) : State :=
  { state with
    sac_hits := Function.update state.sac_hits 0 fun i =>
      if i ≤ parameters.MAX_DEPTH then state.sac_hits 0 i + state.hitarr0 else state.sac_hits 0 i
    hitarr0 := 0 }

def State.hits (sets_log2 assoc : Nat) (state : State) : Nat × State :=
  let state := if state.hitarr0 ≠ 0 then state.flush parameters else state
  (((List.range assoc).map fun j => state.sac_hits j (sets_log2 - parameters.A)).sum, state)

/-! ### Shared bits -/

section Shared

variable {parameters} {orig_tag other depth : Nat}

def inSet (depth index tag : Nat) : Bool := tag % 2 ^ depth = index

def shared (parameters : Parameters) (orig_tag other : Nat) : Nat :=
  parameters.rm_arr ((orig_tag ^^^ other) &&& parameters.DIFF_SET_MASK)

theorem mod_eq_iff_testBit : other % 2 ^ depth = orig_tag % 2 ^ depth ↔ ∀ bit < depth, (orig_tag ^^^ other).testBit bit = false := by
  constructor
  · intro same bit small
    have bits := congrArg (Nat.testBit · bit) same
    simp only [Nat.testBit_mod_two_pow, small, decide_true, Bool.true_and] at bits
    rw [Nat.testBit_xor, bits, Bool.xor_self]
  · intro none
    refine Nat.eq_of_testBit_eq fun bit => ?_
    rw [Nat.testBit_mod_two_pow, Nat.testBit_mod_two_pow]
    by_cases small : bit < depth
    · have agree := none bit small
      rw [Nat.testBit_xor] at agree
      rw [(bne_eq_false_iff_eq.mp agree)]
    · simp [small]

theorem le_shared_iff (le : depth ≤ parameters.MAX_DEPTH) :
    depth ≤ shared parameters orig_tag other ↔ other % 2 ^ depth = orig_tag % 2 ^ depth := by
  have masked : (orig_tag ^^^ other) &&& parameters.DIFF_SET_MASK = (orig_tag ^^^ other) % 2 ^ parameters.MAX_DEPTH :=
    Nat.and_two_pow_sub_one_eq_mod _ _
  have bits (bit : Nat) (small : bit < parameters.MAX_DEPTH) :
      ((orig_tag ^^^ other) % 2 ^ parameters.MAX_DEPTH).testBit bit = (orig_tag ^^^ other).testBit bit := by
    rw [Nat.testBit_mod_two_pow, decide_eq_true small, Bool.true_and]
  rw [mod_eq_iff_testBit, shared, masked, Parameters.rm_arr]
  split
  case isTrue zero =>
    refine ⟨fun _ bit small => ?_, fun _ => le⟩
    rw [← bits bit (Nat.lt_of_lt_of_le small le), zero, Nat.zero_testBit]
  case isFalse some =>
    obtain ⟨bit, set⟩ := Nat.exists_testBit_of_ne_zero some
    have small : bit < parameters.MAX_DEPTH := by
      rw [Nat.testBit_mod_two_pow, Bool.and_eq_true, decide_eq_true_eq] at set
      exact set.1
    cases found : (List.range (parameters.MAX_DEPTH + 1)).find?
        ((orig_tag ^^^ other) % 2 ^ parameters.MAX_DEPTH).testBit with
    | none =>
      have unset := List.find?_eq_none.mp found bit (List.mem_range.mpr (Nat.lt_succ_of_lt small))
      exact absurd set unset
    | some first =>
      obtain ⟨isSet, _, before⟩ := List.find?_range_eq_some.mp found
      have inside : first < parameters.MAX_DEPTH := by
        rw [Nat.testBit_mod_two_pow, Bool.and_eq_true, decide_eq_true_eq] at isSet
        exact isSet.1
      rw [Option.getD_some]
      constructor
      · intro below bit small
        have unset := before bit (Nat.lt_of_lt_of_le small below)
        rw [bits bit (Nat.lt_of_lt_of_le small le)] at unset
        simpa using unset
      · intro none
        by_contra above
        rw [bits first inside, none first (Nat.lt_of_not_le above)] at isSet
        cases isSet

theorem shared_le (parameters : Parameters) (orig_tag other : Nat) : shared parameters orig_tag other ≤ parameters.MAX_DEPTH := by
  rw [shared, Parameters.rm_arr]
  split
  case isTrue => exact Nat.le_refl _
  case isFalse =>
    cases found : (List.range (parameters.MAX_DEPTH + 1)).find?
        ((orig_tag ^^^ other) &&& parameters.DIFF_SET_MASK).testBit with
    | none => exact Nat.zero_le _
    | some first => exact Nat.le_of_lt_succ (List.mem_range.mp (List.mem_of_find?_eq_some found))

theorem countP_inSet (tags : List Nat) (le : depth ≤ parameters.MAX_DEPTH) :
    tags.countP (inSet depth (orig_tag % 2 ^ depth)) = tags.countP fun tag => depth ≤ shared parameters orig_tag tag := by
  refine List.countP_congr fun tag _ => ?_
  rw [inSet, decide_eq_true_eq, decide_eq_true_eq, le_shared_iff le]

theorem countP_le_shared (tags : List Nat) (depth : Nat) :
    tags.countP (fun tag => depth ≤ shared parameters orig_tag tag) =
      tags.countP (fun tag => depth + 1 ≤ shared parameters orig_tag tag) +
        tags.countP (fun tag => shared parameters orig_tag tag = depth) := by
  induction tags with
  | nil => rfl
  | cons tag rest ih =>
    rw [List.countP_cons, List.countP_cons, List.countP_cons, ih]
    simp only [decide_eq_true_eq]
    split <;> split <;> split <;> omega

end Shared

/-! ### Counting -/

section Counting

variable {depths : Nat → Nat}

theorem sums_le {sums : Nat → Nat} {remaining : Nat} (sum : ∀ i < remaining, sums i = sums (i + 1) + depths i) {i : Nat}
    (le : i ≤ remaining) : sums remaining ≤ sums i := by
  induction remaining with
  | zero => rw [Nat.le_zero.mp le]
  | succ last ih =>
    cases Nat.lt_or_eq_of_le le with
    | inl less =>
      have step := sum last (Nat.lt_succ_self _)
      have before := ih (fun i less => sum i (Nat.lt_succ_of_lt less)) (Nat.le_of_lt_succ less)
      omega
    | inr same => rw [same]

theorem countHits_apply (parameters : Parameters) (sac_hits : Nat → Nat → Nat) (sums : Nat → Nat) (j i : Nat) {remaining : Nat}
    (sum : ∀ i < remaining, sums i = sums (i + 1) + depths i) :
    countHits parameters depths remaining (sums remaining) sac_hits j i =
      sac_hits j i + if i < remaining ∧ sums i = j ∧ j < parameters.TWO_PWR_N then 1 else 0 := by
  induction remaining generalizing sac_hits with
  | zero => simp [countHits]
  | succ last ih =>
    have sum' : ∀ i < last, sums i = sums (i + 1) + depths i := fun i less => sum i (Nat.lt_succ_of_lt less)
    simp only [countHits]
    rw [← sum last (Nat.lt_succ_self _)]
    split
    case isTrue small =>
      rw [ih _ sum']
      by_cases isSum : j = sums last
      · subst isSum
        rw [Function.update_self]
        by_cases isLast : i = last
        · subst isLast
          simp [small]
        · rw [Function.update_of_ne isLast]
          have same : i < last ↔ i < last + 1 := by omega
          simp only [same]
      · rw [Function.update_of_ne isSum]
        by_cases isLast : i = last
        · subst isLast
          simp [Ne.symm isSum]
        · have same : i < last ↔ i < last + 1 := by omega
          simp only [same]
    case isFalse large =>
      rw [if_neg, Nat.add_zero]
      intro counts
      have most := sums_le sum' (Nat.le_of_lt_succ counts.1)
      omega

end Counting

/-! ### Rows -/

structure Holds (parameters : Parameters) (row : Row) (tags : List Nat) : Prop where
  begins : 0 < row 0
  fits : row 0 + tags.length = parameters.TWO_PWR_N + 1
  tags : (List.range' (row 0) tags.length).map row = tags

section Rows

variable {parameters} {orig_tag : Nat} {row : Row} {tags pre post front : List Nat} {last : Nat} {now : Scan}

theorem map_range'_update {i remaining value : Nat} (outside : i < remaining) (count : Nat) :
    (List.range' remaining count).map (Function.update row i value) = (List.range' remaining count).map row := by
  refine List.map_congr_left fun location member => Function.update_of_ne ?_ _ _
  have least := (List.mem_range'_1.mp member).1
  omega

theorem Scan.pass_row (i : Nat) : (now.pass parameters orig_tag i).row = Function.update now.row i now.tag := rfl

theorem Scan.pass_depths (i depth : Nat) (passed : List Nat) :
    (now.pass parameters orig_tag i).depths depth + passed.countP (fun tag => shared parameters orig_tag tag = depth) =
      now.depths depth + (now.row i :: passed).countP fun tag => shared parameters orig_tag tag = depth := by
  rw [List.countP_cons]
  change Function.update now.depths (shared parameters orig_tag (now.row i)) _ depth + _ = _
  by_cases same : shared parameters orig_tag (now.row i) = depth
  · subst same
    rw [Function.update_self, if_pos (by simp), shared]
    omega
  · rw [Function.update_of_ne (Ne.symm same), if_neg (by simpa using same), Nat.add_zero]

/-- The loop goes over tags that are not the tag of the access: each one takes the place of the next. -/
theorem Scan.loop_miss (now : Scan) {i : Nat} (holds : (List.range' i tags.length).map now.row = tags) (absent : orig_tag ∉ tags)
    (noHit : now.hit = false) (shape : now.tag :: tags = front ++ [last]) :
    (List.range' i tags.length).map (Scan.loop parameters orig_tag tags.length i now).row = front ∧
      (∀ location < i, (Scan.loop parameters orig_tag tags.length i now).row location = now.row location) ∧
      (Scan.loop parameters orig_tag tags.length i now).tag = last ∧
      (Scan.loop parameters orig_tag tags.length i now).hit = false ∧
      ∀ depth, (Scan.loop parameters orig_tag tags.length i now).depths depth =
        now.depths depth + tags.countP fun tag => shared parameters orig_tag tag = depth := by
  induction tags generalizing i now front with
  | nil =>
    have alone : [] ++ [now.tag] = front ++ [last] := shape
    have ends := List.append_inj' alone rfl
    exact ⟨ends.1, fun _ _ => rfl, (List.cons.inj ends.2).1, noHit, fun _ => rfl⟩
  | cons t1 rest ih =>
    rw [List.length_cons, List.range'_succ, List.map_cons] at holds
    obtain ⟨here, later⟩ := List.cons.inj holds
    cases front with
    | nil => cases shape
    | cons tag front =>
      obtain ⟨isTag, shape⟩ := List.cons.inj shape
      have apart : now.row i ≠ orig_tag := fun same => absent (by simp [← here, same])
      have later' : (List.range' (i + 1) rest.length).map (now.pass parameters orig_tag i).row = rest := by
        rw [pass_row, map_range'_update (Nat.lt_succ_self i)]
        exact later
      have shape' : (now.pass parameters orig_tag i).tag :: rest = front ++ [last] := by
        rw [← here] at shape
        exact shape
      obtain ⟨tags', frame, last', hit', depths'⟩ :=
        ih _ later' (fun member => absent (List.mem_cons_of_mem _ member)) noHit shape'
      rw [List.length_cons, Scan.loop, if_neg apart]
      refine ⟨?_, fun location less => ?_, last', hit', fun depth => ?_⟩
      · rw [List.range'_succ, List.map_cons, tags', frame i (Nat.lt_succ_self i), pass_row, Function.update_self, isTag]
      · rw [frame location (Nat.lt_succ_of_lt less), pass_row, Function.update_of_ne (Nat.ne_of_lt less)]
      · rw [depths', pass_depths, here]

theorem Scan.loop_hit (now : Scan) {i : Nat} (holds : (List.range' i (pre ++ orig_tag :: post).length).map now.row = pre ++ orig_tag :: post)
    (absent : orig_tag ∉ pre) :
    (List.range' i (pre ++ orig_tag :: post).length).map
        (Scan.loop parameters orig_tag (pre ++ orig_tag :: post).length i now).row = now.tag :: pre ++ post ∧
      (∀ location < i, (Scan.loop parameters orig_tag (pre ++ orig_tag :: post).length i now).row location = now.row location) ∧
      (Scan.loop parameters orig_tag (pre ++ orig_tag :: post).length i now).hit = true ∧
      ∀ depth, (Scan.loop parameters orig_tag (pre ++ orig_tag :: post).length i now).depths depth =
        now.depths depth + pre.countP fun tag => shared parameters orig_tag tag = depth := by
  induction pre generalizing i now with
  | nil =>
    rw [List.nil_append, List.length_cons, List.range'_succ, List.map_cons] at holds
    obtain ⟨here, later⟩ := List.cons.inj holds
    rw [List.nil_append, List.length_cons, Scan.loop, if_pos here]
    refine ⟨?_, fun location less => Function.update_of_ne (Nat.ne_of_lt less) _ _, rfl, fun _ => rfl⟩
    change (List.range' i (post.length + 1)).map (Function.update now.row i now.tag) = _
    rw [List.range'_succ, List.map_cons, map_range'_update (Nat.lt_succ_self i), later, Function.update_self]
    rfl
  | cons t1 rest ih =>
    rw [List.cons_append, List.length_cons, List.range'_succ, List.map_cons] at holds
    obtain ⟨here, later⟩ := List.cons.inj holds
    have apart : now.row i ≠ orig_tag := fun same => absent (by simp [← here, same])
    have later' : (List.range' (i + 1) (rest ++ orig_tag :: post).length).map (now.pass parameters orig_tag i).row =
        rest ++ orig_tag :: post := by
      rw [pass_row, map_range'_update (Nat.lt_succ_self i)]
      exact later
    obtain ⟨tags', frame, hit', depths'⟩ := ih _ later' fun member => absent (List.mem_cons_of_mem _ member)
    rw [List.cons_append, List.length_cons, Scan.loop, if_neg apart]
    refine ⟨?_, fun location less => ?_, hit', fun depth => ?_⟩
    · rw [List.range'_succ, List.map_cons, tags', frame i (Nat.lt_succ_self i), pass_row, Function.update_self, ← here]
      rfl
    · rw [frame location (Nat.lt_succ_of_lt less), pass_row, Function.update_of_ne (Nat.ne_of_lt less)]
    · rw [depths', pass_depths, here]

theorem Holds.remaining (holds : Holds parameters row tags) : parameters.TWO_PWR_N + 1 - row 0 = tags.length := by
  have fits := holds.fits
  omega

theorem Holds.of_scan (row : Row) {row' : Row} (tag : Nat) (same : row' 0 = row 0)
    (fits : row 0 + 1 + tags.length = parameters.TWO_PWR_N + 1)
    (shape : (List.range' (row 0) (tags.length + 1)).map row' = tag :: tags) :
    Holds parameters (Function.update row' 0 (row' 0 + 1)) tags := by
  rw [List.range'_succ, List.map_cons] at shape
  refine ⟨by rw [Function.update_self]; exact Nat.succ_pos _, by rw [Function.update_self, same]; exact fits, ?_⟩
  rw [Function.update_self, same, map_range'_update (Nat.succ_pos _)]
  exact (List.cons.inj shape).2

theorem Holds.scan_miss (holds : Holds parameters row (front ++ [last])) (depths : Nat → Nat) (tag : Nat) (absent : orig_tag ∉ front ++ [last]) :
    let scan := Scan.loop parameters orig_tag (parameters.TWO_PWR_N + 1 - row 0) (row 0) ⟨row, depths, tag, false⟩
    Holds parameters (Function.update scan.row 0 (scan.row 0 + 1)) front ∧ scan.tag = last ∧ scan.hit = false ∧
      ∀ depth, scan.depths depth =
        depths depth + (front ++ [last]).countP fun tag => shared parameters orig_tag tag = depth := by
  have shape : tag :: (front ++ [last]) = (tag :: front) ++ [last] := rfl
  obtain ⟨tags, frame, last', hit, counts⟩ := Scan.loop_miss ⟨row, depths, tag, false⟩ holds.tags absent rfl shape
  rw [holds.remaining]
  refine ⟨Holds.of_scan row tag (frame 0 holds.begins) ?_ ?_, last', hit, counts⟩
  · have fits := holds.fits
    rw [List.length_append, List.length_singleton] at fits
    omega
  · rw [List.length_append, List.length_singleton] at tags ⊢
    exact tags

theorem Holds.scan_hit (holds : Holds parameters row (pre ++ orig_tag :: post)) (depths : Nat → Nat) (tag : Nat) (absent : orig_tag ∉ pre) :
    let scan := Scan.loop parameters orig_tag (parameters.TWO_PWR_N + 1 - row 0) (row 0) ⟨row, depths, tag, false⟩
    Holds parameters (Function.update scan.row 0 (scan.row 0 + 1)) (pre ++ post) ∧ scan.hit = true ∧
      ∀ depth, scan.depths depth = depths depth + pre.countP fun tag => shared parameters orig_tag tag = depth := by
  obtain ⟨tags, frame, hit, counts⟩ := Scan.loop_hit ⟨row, depths, tag, false⟩ holds.tags absent
  rw [holds.remaining]
  have length : (pre ++ orig_tag :: post).length = (pre ++ post).length + 1 := by
    simp only [List.length_append, List.length_cons, Nat.add_assoc]
  refine ⟨Holds.of_scan row tag (frame 0 holds.begins) ?_ ?_, hit, counts⟩
  · have fits := holds.fits
    rw [length] at fits
    omega
  · rw [length] at tags ⊢
    exact tags

theorem Holds.push (holds : Holds parameters row tags) (room : tags.length < parameters.TWO_PWR_N) (atag : Nat) :
    Holds parameters (Function.update (Function.update row 0 (row 0 - 1)) (row 0 - 1) atag) (atag :: tags) := by
  have fits := holds.fits
  obtain ⟨begin, isBegin⟩ : ∃ begin, row 0 = begin + 2 := ⟨row 0 - 2, by omega⟩
  have first : Function.update (Function.update row 0 (row 0 - 1)) (row 0 - 1) atag 0 = begin + 1 := by
    rw [isBegin, Function.update_of_ne (by omega), Function.update_self]
    rfl
  refine ⟨by rw [first]; exact Nat.succ_pos _, by rw [first, List.length_cons]; omega, ?_⟩
  rw [first, List.length_cons, List.range'_succ, List.map_cons, isBegin]
  congr 1
  · exact Function.update_self _ _ _
  · rw [map_range'_update (by omega), map_range'_update (Nat.succ_pos _)]
    have tags := holds.tags
    rw [isBegin] at tags
    exact tags

end Rows

end Sniper.Cheetah

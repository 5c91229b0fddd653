import Sniper.Library.Sieve
import Sniper.Memory.Cheetah

/-! The hits that `CheetahSACLRU` counts are those of the caches, each simulated by itself. -/

namespace Sniper.Cheetah

open Recency

variable {parameters : Parameters} {items front pre post : List Nat} {orig_tag atag last depth index : Nat} {tree : Tree}

/-! ### The rows of a tree -/

def level (orig_tag depth : Nat) : Nat → Bool := inSet depth (orig_tag % 2 ^ depth)

/-- What the rows of a tree have, for the order in which tags were used. -/
def rows (parameters : Parameters) (items : List Nat) : (depth index : Nat) → List Nat
  | 0, _ => kept parameters.TWO_PWR_N (inSet 0 0) items
  | depth + 1, index => rest parameters.TWO_PWR_N (inSet depth (index % 2 ^ depth)) (inSet (depth + 1) index) items

def Full (parameters : Parameters) (items : List Nat) : Prop :=
  ∀ depth ≤ parameters.MAX_DEPTH, ∀ index < 2 ^ depth,
    (kept parameters.TWO_PWR_N (inSet depth index) items).length = parameters.TWO_PWR_N

theorem mod_two_pow_mod (tag depth : Nat) : tag % 2 ^ (depth + 1) % 2 ^ depth = tag % 2 ^ depth :=
  Nat.mod_mod_of_dvd tag (Nat.pow_dvd_pow 2 (Nat.le_succ depth))

theorem inSet_narrower (depth index : Nat) : ∀ tag, inSet (depth + 1) index tag = true → inSet depth (index % 2 ^ depth) tag = true := by
  intro tag inside
  rw [inSet, decide_eq_true_eq] at inside ⊢
  rw [← inside, mod_two_pow_mod]

theorem level_self (depth : Nat) : level orig_tag depth orig_tag = true := by
  simp [level, inSet]

theorem level_nested : ∀ depth tag, level orig_tag (depth + 1) tag = true → level orig_tag depth tag = true := by
  intro depth tag inside
  rw [level, ← mod_two_pow_mod]
  exact inSet_narrower depth _ tag inside

theorem rests_eq_rows (depth : Nat) :
    rests parameters.TWO_PWR_N (level orig_tag) items depth = rows parameters items depth (orig_tag % 2 ^ depth) := by
  cases depth with
  | zero => rw [rests, rows, level, Nat.pow_zero, Nat.mod_one]
  | succ depth => rw [rests, rows, level, level, mod_two_pow_mod]

theorem notMem_kept (absent : orig_tag ∉ path parameters.TWO_PWR_N (level orig_tag) items (depth + 1)) :
    orig_tag ∉ kept parameters.TWO_PWR_N (level orig_tag depth) items :=
  fun member => absent (mem_path_of_mem_kept level_nested (Nat.lt_succ_self depth) member)

theorem rows_length_le (parameters : Parameters) (items : List Nat) (depth index : Nat) :
    (rows parameters items depth index).length ≤ parameters.TWO_PWR_N := by
  cases depth with
  | zero => exact List.length_take_le _ _
  | succ depth => exact Nat.le_trans (List.drop_sublist _ _).length_le (List.length_take_le _ _)

theorem two_pwr_n_pos (parameters : Parameters) : 0 < parameters.TWO_PWR_N := Nat.pow_pos (by decide)

/-! ### A use -/

/-- The tag that leaves the sets above a depth: at the root, the tag of the access itself comes in. -/
def Incoming (parameters : Parameters) (items : List Nat) (orig_tag atag : Nat) : (depth : Nat) → Prop
  | 0 => atag = orig_tag
  | depth + 1 => ∃ front, kept parameters.TWO_PWR_N (level orig_tag depth) items = front ++ [atag]

section Use

variable (full : Full parameters items) (small : depth ≤ parameters.MAX_DEPTH)

theorem Full.level_length (full : Full parameters items) (orig_tag : Nat) (small : depth ≤ parameters.MAX_DEPTH) :
    (kept parameters.TWO_PWR_N (level orig_tag depth) items).length = parameters.TWO_PWR_N :=
  full depth small _ (Nat.mod_lt _ (Nat.pow_pos (by decide)))

theorem Incoming.mod (incoming : Incoming parameters items orig_tag atag (depth + 1)) :
    atag % 2 ^ depth = orig_tag % 2 ^ depth := by
  obtain ⟨front, shape⟩ := incoming
  have member : atag ∈ kept parameters.TWO_PWR_N (level orig_tag depth) items := by
    rw [shape]
    exact List.mem_append_right _ List.mem_cons_self
  simpa [level, inSet] using mem_of_mem_kept member

/-- The row that the access looks at, without the tag that leaves it. -/
inductive Leaves (orig_tag : Nat) : (tags without : List Nat) → Prop where
  | hit (pre post : List Nat) : orig_tag ∉ pre → Leaves orig_tag (pre ++ orig_tag :: post) (pre ++ post)
  | miss (front : List Nat) (last : Nat) : orig_tag ∉ front ++ [last] → Leaves orig_tag (front ++ [last]) front

include full small

theorem rows_touch {without : List Nat} (incoming : Incoming parameters items orig_tag atag depth)
    (absent : orig_tag ∉ path parameters.TWO_PWR_N (level orig_tag) items depth)
    (leaves : Leaves orig_tag (rows parameters items depth (orig_tag % 2 ^ depth)) without) (inside : index < 2 ^ depth) :
    rows parameters (touch orig_tag items) depth index =
      (if atag % 2 ^ depth = index then [atag] else []) ++
        if index = orig_tag % 2 ^ depth then without else rows parameters items depth index := by
  cases depth with
  | zero =>
    have isZero : index = 0 := by simpa using inside
    subst isZero
    have isTag : atag = orig_tag := incoming
    subst isTag
    have whole := full 0 small 0 inside
    rw [Nat.pow_zero, Nat.mod_one, if_pos rfl, if_pos rfl]
    rw [Nat.pow_zero, Nat.mod_one] at leaves
    simp only [rows] at leaves ⊢
    generalize shape : kept parameters.TWO_PWR_N (inSet 0 0) items = tags at leaves
    cases leaves with
    | hit pre post notBefore =>
      have member : atag ∈ kept parameters.TWO_PWR_N (inSet 0 0) items := by
        rw [shape]
        exact List.mem_append_right _ List.mem_cons_self
      rw [kept_touch_of_mem member, shape, touch, List.erase_append_right _ notBefore, List.erase_cons_head]
      rfl
    | miss front last missing =>
      exact kept_touch_of_notMem (by simp [inSet, Nat.mod_one]) (by rw [shape]; exact missing) whole shape
  | succ depth =>
    have narrower := inSet_narrower depth index
    by_cases same : index % 2 ^ depth = orig_tag % 2 ^ depth
    case neg =>
      have notAtag : ¬atag % 2 ^ (depth + 1) = index := by
        intro isIndex
        rw [← isIndex, mod_two_pow_mod] at same
        exact same incoming.mod
      have notOrig : ¬index = orig_tag % 2 ^ (depth + 1) := by
        intro isIndex
        rw [isIndex, mod_two_pow_mod] at same
        exact same rfl
      rw [if_neg notAtag, if_neg notOrig, List.nil_append]
      exact rest_touch_of_neg narrower (by simpa [inSet] using Ne.symm same)
    case pos =>
      obtain ⟨front, shape⟩ := incoming
      have notKept := notMem_kept absent
      have whole := full.level_length orig_tag (Nat.le_of_succ_le small)
      have isLevel : inSet depth (index % 2 ^ depth) = level orig_tag depth := by rw [level, same]
      have keeps : [atag].filter (inSet (depth + 1) index) = if atag % 2 ^ (depth + 1) = index then [atag] else [] := by
        simp [List.filter_cons, inSet]
      rw [isLevel] at narrower
      simp only [rows, isLevel]
      rw [← keeps]
      by_cases isOrig : index = orig_tag % 2 ^ (depth + 1)
      case neg =>
        rw [if_neg isOrig]
        exact rest_touch_of_outside narrower notKept whole shape (level_self depth) (by simpa [inSet] using Ne.symm isOrig)
      case pos =>
        rw [if_pos isOrig]
        rw [← isOrig, rows, isLevel] at leaves
        have inside' : inSet (depth + 1) index orig_tag = true := by simp [inSet, isOrig]
        generalize shape' : rest parameters.TWO_PWR_N (level orig_tag depth) (inSet (depth + 1) index) items = tags at leaves
        cases leaves with
        | hit pre post notBefore =>
          have member : orig_tag ∈ rest parameters.TWO_PWR_N (level orig_tag depth) (inSet (depth + 1) index) items := by
            rw [shape']
            exact List.mem_append_right _ List.mem_cons_self
          rw [rest_touch_of_mem_rest narrower notKept whole shape (level_self depth) member inside', shape',
            List.erase_append_right _ notBefore, List.erase_cons_head]
        | miss front' last missing =>
          exact (rest_touch_of_notMem narrower notKept whole shape (level_self depth) (by rw [shape']; exact missing) inside'
            (full (depth + 1) small index inside) shape').1

theorem Incoming.miss (incoming : Incoming parameters items orig_tag atag depth)
    (absent : orig_tag ∉ path parameters.TWO_PWR_N (level orig_tag) items depth)
    (shape : rows parameters items depth (orig_tag % 2 ^ depth) = front ++ [last]) (missing : orig_tag ∉ front ++ [last]) :
    Incoming parameters items orig_tag last (depth + 1) := by
  cases depth with
  | zero =>
    rw [rows] at shape
    exact ⟨front, by rw [level, Nat.pow_zero, Nat.mod_one, shape]⟩
  | succ depth =>
    obtain ⟨front', shape'⟩ := incoming
    have notKept := notMem_kept absent
    rw [rows, mod_two_pow_mod] at shape
    have split := (rest_touch_of_notMem (level_nested depth) notKept (full.level_length orig_tag (Nat.le_of_succ_le small)) shape'
      (level_self depth) (show orig_tag ∉ rest _ (level orig_tag depth) (level orig_tag (depth + 1)) items by
        rw [level, level, shape]; exact missing) (level_self (depth + 1)) (full.level_length orig_tag small) shape).2
    exact ⟨_, split⟩

end Use

section Skip

variable (full : Full parameters items) (small : depth + 1 ≤ parameters.MAX_DEPTH)
  (incoming : Incoming parameters items orig_tag atag (depth + 1))
  (absent : orig_tag ∉ path parameters.TWO_PWR_N (level orig_tag) items (depth + 1))
  (nil : rows parameters items (depth + 1) (orig_tag % 2 ^ (depth + 1)) = [])

include full small incoming absent nil

theorem kept_of_skip : rest parameters.TWO_PWR_N (level orig_tag depth) (level orig_tag (depth + 1)) (touch orig_tag items) = [] ∧
    kept parameters.TWO_PWR_N (level orig_tag (depth + 1)) items = kept parameters.TWO_PWR_N (level orig_tag depth) items := by
  obtain ⟨front, shape⟩ := incoming
  have notKept := notMem_kept absent
  rw [rows, mod_two_pow_mod] at nil
  exact rest_touch_of_nil (level_nested depth) notKept (full.level_length orig_tag (Nat.le_of_succ_le small)) shape (level_self depth)
    (level_self (depth + 1)) (full.level_length orig_tag small) nil

theorem Incoming.skip : Incoming parameters items orig_tag atag (depth + 2) := by
  obtain ⟨front, shape⟩ := id incoming
  exact ⟨front, (kept_of_skip full small incoming absent nil).2.trans shape⟩

theorem rows_touch_of_skip (index : Nat) :
    rows parameters (touch orig_tag items) (depth + 1) index = rows parameters items (depth + 1) index := by
  obtain ⟨still, same⟩ := kept_of_skip full small incoming absent nil
  have stays := incoming.skip full small absent nil
  by_cases inClass : index % 2 ^ depth = orig_tag % 2 ^ depth
  case neg => exact rest_touch_of_neg (inSet_narrower _ index) (by simpa [inSet] using Ne.symm inClass)
  case pos =>
    by_cases isOrig : index = orig_tag % 2 ^ (depth + 1)
    case pos =>
      rw [isOrig, nil, rows, mod_two_pow_mod]
      exact still
    case neg =>
      obtain ⟨front, shape⟩ := id incoming
      have notKept := notMem_kept absent
      have isLevel : inSet depth (index % 2 ^ depth) = level orig_tag depth := by rw [level, inClass]
      have narrower := inSet_narrower depth index
      rw [isLevel] at narrower
      have others : [atag].filter (inSet (depth + 1) index) = [] := by
        have mod := stays.mod
        simp [inSet, mod, Ne.symm isOrig]
      rw [rows, rows, isLevel, rest_touch_of_outside narrower notKept (full.level_length orig_tag (Nat.le_of_succ_le small)) shape
        (level_self depth) (by simpa [inSet] using Ne.symm isOrig), others, List.nil_append]

end Skip

theorem rows_touch_of_found {depth' : Nat} (less : depth < depth')
    (member : orig_tag ∈ rows parameters items depth (orig_tag % 2 ^ depth)) (index : Nat) :
    rows parameters (touch orig_tag items) depth' index = rows parameters items depth' index := by
  obtain ⟨above, rfl⟩ : ∃ above, depth' = above + 1 := ⟨depth' - 1, by omega⟩
  by_cases inClass : index % 2 ^ above = orig_tag % 2 ^ above
  case neg => exact rest_touch_of_neg (inSet_narrower _ index) (by simpa [inSet] using Ne.symm inClass)
  case pos =>
    refine rest_touch_of_mem (inSet_narrower _ index) ?_
    rw [inClass]
    change orig_tag ∈ kept _ (level orig_tag above) items
    rw [← filter_path level_nested, List.mem_filter]
    refine ⟨?_, level_self above⟩
    obtain ⟨others, longer⟩ := path_mono parameters.TWO_PWR_N (level orig_tag) items
      (Nat.succ_le_of_lt less)
    rw [longer, path_succ, rests_eq_rows]
    exact List.mem_append_left _ (List.mem_append_right _ member)

/-! ### The walk -/

theorem rowOf_eq (depth tag : Nat) : rowOf depth tag = 2 ^ depth + tag % 2 ^ depth - 1 := by
  rw [rowOf, Nat.and_two_pow_sub_one_eq_mod]

theorem row_inj {depth' index' : Nat} (inside : index < 2 ^ depth) (inside' : index' < 2 ^ depth')
    (same : 2 ^ depth + index - 1 = 2 ^ depth' + index' - 1) : depth = depth' ∧ index = index' := by
  rcases Nat.lt_trichotomy depth depth' with less | equal | more
  · have wider : 2 ^ (depth + 1) ≤ 2 ^ depth' := Nat.pow_le_pow_right (by decide) less
    rw [Nat.pow_succ] at wider
    omega
  · subst equal
    exact ⟨rfl, by omega⟩
  · have wider : 2 ^ (depth' + 1) ≤ 2 ^ depth := Nat.pow_le_pow_right (by decide) more
    rw [Nat.pow_succ] at wider
    omega

theorem mod_lt (tag depth : Nat) : tag % 2 ^ depth < 2 ^ depth := Nat.mod_lt _ (Nat.pow_pos (by decide))

/-- The rows above a depth are those after an access, and the others those before it. -/
def Between (parameters : Parameters) (tree : Tree) (items after : List Nat) (depth : Nat) : Prop :=
  ∀ depth' ≤ parameters.MAX_DEPTH, ∀ index < 2 ^ depth',
    Holds parameters (tree (2 ^ depth' + index - 1)) (rows parameters (if depth' < depth then after else items) depth' index)

def Represents (parameters : Parameters) (tree : Tree) (items : List Nat) : Prop :=
  ∀ depth ≤ parameters.MAX_DEPTH, ∀ index < 2 ^ depth,
    Holds parameters (tree (2 ^ depth + index - 1)) (rows parameters items depth index)

section Walk

variable {after : List Nat}

theorem Between.row (between : Between parameters tree items after depth) (small : depth ≤ parameters.MAX_DEPTH) (tag : Nat) :
    Holds parameters (tree (rowOf depth tag)) (rows parameters items depth (tag % 2 ^ depth)) := by
  have holds := between depth small _ (mod_lt tag depth)
  rw [if_neg (Nat.lt_irrefl depth)] at holds
  rw [rowOf_eq]
  exact holds

theorem Between.represents (between : Between parameters tree items after depth)
    (same : ∀ depth' ≤ parameters.MAX_DEPTH, depth ≤ depth' → ∀ index < 2 ^ depth',
      rows parameters after depth' index = rows parameters items depth' index) :
    Represents parameters tree after := by
  intro depth' small index inside
  have holds := between depth' small index inside
  by_cases less : depth' < depth
  · rw [if_pos less] at holds
    exact holds
  · rw [if_neg less] at holds
    rw [same depth' small (Nat.le_of_not_lt less) index inside]
    exact holds

theorem Between.skip (between : Between parameters tree items after depth)
    (same : ∀ index, rows parameters after depth index = rows parameters items depth index) :
    Between parameters tree items after (depth + 1) := by
  intro depth' small index inside
  have holds := between depth' small index inside
  by_cases isDepth : depth' = depth
  · subst isDepth
    rw [if_neg (Nat.lt_irrefl _)] at holds
    rw [if_pos (Nat.lt_succ_self _), same]
    exact holds
  · have less : depth' < depth + 1 ↔ depth' < depth := by omega
    simp only [less]
    exact holds

/-- The row that was looked at has lost a tag, and the one that came in gets to its own row. -/
theorem Between.step (between : Between parameters tree items (touch orig_tag items) depth)
    (full : Full parameters items) (small : depth ≤ parameters.MAX_DEPTH)
    (incoming : Incoming parameters items orig_tag atag depth)
    (absent : orig_tag ∉ path parameters.TWO_PWR_N (level orig_tag) items depth) {without : List Nat}
    (leaves : Leaves orig_tag (rows parameters items depth (orig_tag % 2 ^ depth)) without) {scanned : Row}
    (held : Holds parameters scanned without) {first : Nat}
    (isFirst : first = Function.update tree (rowOf depth orig_tag) scanned (rowOf depth atag) 0 - 1) :
    Between parameters
      (Function.update (Function.update tree (rowOf depth orig_tag) scanned) (rowOf depth atag)
        (Function.update (Function.update (Function.update tree (rowOf depth orig_tag) scanned (rowOf depth atag)) 0 first)
          first atag)) items (touch orig_tag items) (depth + 1) := by
  have removed (index : Nat) (inside : index < 2 ^ depth) :
      Holds parameters (Function.update tree (rowOf depth orig_tag) scanned (2 ^ depth + index - 1))
        (if index = orig_tag % 2 ^ depth then without else rows parameters items depth index) := by
    rw [rowOf_eq]
    split
    case isTrue same =>
      rw [same, Function.update_self]
      exact held
    case isFalse other =>
      have apart : 2 ^ depth + index - 1 ≠ 2 ^ depth + orig_tag % 2 ^ depth - 1 := fun same =>
        other (row_inj inside (mod_lt orig_tag depth) same).2
      have holds := between depth small index inside
      rw [if_neg (Nat.lt_irrefl depth)] at holds
      rw [Function.update_of_ne apart]
      exact holds
  intro depth' small' index inside
  by_cases isDepth : depth' = depth
  · subst isDepth
    have changed := rows_touch full small incoming absent leaves inside
    rw [if_pos (Nat.lt_succ_self _), changed]
    have holds := removed index inside
    by_cases isAtag : atag % 2 ^ depth' = index
    · have room := rows_length_le parameters (touch orig_tag items) depth' index
      rw [changed, if_pos isAtag, List.singleton_append, List.length_cons] at room
      have here : rowOf depth' atag = 2 ^ depth' + index - 1 := by rw [rowOf_eq, isAtag]
      rw [if_pos isAtag, List.singleton_append, isFirst, here, Function.update_self]
      exact holds.push room atag
    · have apart : 2 ^ depth' + index - 1 ≠ rowOf depth' atag := by
        rw [rowOf_eq]
        exact fun same => isAtag (row_inj inside (mod_lt atag depth') same).2.symm
      rw [if_neg isAtag, List.nil_append, Function.update_of_ne apart]
      exact holds
  · have less : depth' < depth + 1 ↔ depth' < depth := by omega
    have apart (tag : Nat) : 2 ^ depth' + index - 1 ≠ rowOf depth tag := by
      rw [rowOf_eq]
      exact fun same => isDepth (row_inj inside (mod_lt tag depth) same).1
    simp only [less]
    rw [Function.update_of_ne (apart atag), Function.update_of_ne (apart orig_tag)]
    exact between depth' small' index inside

/-- After a hit, `sac_hits` counts the place of the tag in each set that keeps it. -/
theorem countHits_visited {depths : Nat → Nat} {sac_hits : Nat → Nat → Nat} {i j : Nat}
    (counts : ∀ i ≤ parameters.MAX_DEPTH, depths i =
      (path parameters.TWO_PWR_N (level orig_tag) items depth ++ pre).countP fun tag => shared parameters orig_tag tag = i)
    (shape : rests parameters.TWO_PWR_N (level orig_tag) items depth = pre ++ orig_tag :: post) (notBefore : orig_tag ∉ pre)
    (absent : orig_tag ∉ path parameters.TWO_PWR_N (level orig_tag) items depth)
    (whole : (kept parameters.TWO_PWR_N (level orig_tag i) items).length = parameters.TWO_PWR_N)
    (small : i ≤ parameters.MAX_DEPTH) (less : j < parameters.TWO_PWR_N) :
    countHits parameters depths (parameters.MAX_DEPTH + 1) 0 sac_hits j i =
      sac_hits j i + if (items.filter (level orig_tag i)).idxOf orig_tag = j then 1 else 0 := by
  let visited := path parameters.TWO_PWR_N (level orig_tag) items depth ++ pre
  let sums (i : Nat) : Nat := visited.countP fun tag => i ≤ shared parameters orig_tag tag
  have none : sums (parameters.MAX_DEPTH + 1) = 0 := by
    refine List.countP_eq_zero.mpr fun tag _ => ?_
    have most := shared_le parameters orig_tag tag
    simpa using Nat.lt_succ_of_le most
  have sum : ∀ i < parameters.MAX_DEPTH + 1, sums i = sums (i + 1) + depths i := by
    intro i inside
    rw [counts i (Nat.le_of_lt_succ inside)]
    exact countP_le_shared visited i
  have place : sums i = j ↔ (items.filter (level orig_tag i)).idxOf orig_tag = j := by
    rw [← countP_visited_eq_iff level_nested shape notBefore absent level_self whole less, level, countP_inSet _ small]
  have counted := countHits_apply parameters sac_hits sums j i sum
  rw [none] at counted
  rw [counted]
  simp only [Nat.lt_succ_of_le small, less, true_and, and_true, place]

/-- The walk counts the place of the tag in each set that keeps it, and leaves the rows as they are after its use. -/
theorem Walk.loop_spec (full : Full parameters items) {remaining : Nat} {now : Walk}
    (rest : depth + remaining = parameters.MAX_DEPTH + 1)
    (between : Between parameters now.tree items (touch orig_tag items) depth)
    (incoming : Incoming parameters items orig_tag atag depth)
    (absent : orig_tag ∉ path parameters.TWO_PWR_N (level orig_tag) items depth)
    (depths : ∀ i ≤ parameters.MAX_DEPTH, now.depths i =
      (path parameters.TWO_PWR_N (level orig_tag) items depth).countP fun tag => shared parameters orig_tag tag = i) :
    Represents parameters (Walk.loop parameters orig_tag remaining depth atag now).tree (touch orig_tag items) ∧
      ∀ j i, i ≤ parameters.MAX_DEPTH → j < parameters.TWO_PWR_N →
        (Walk.loop parameters orig_tag remaining depth atag now).sac_hits j i =
          now.sac_hits j i + if (items.filter (level orig_tag i)).idxOf orig_tag = j then 1 else 0 := by
  induction remaining generalizing depth atag now with
  | zero =>
    refine ⟨between.represents fun depth' small le => ?_, fun j i small less => ?_⟩
    · omega
    · have notKept : orig_tag ∉ kept parameters.TWO_PWR_N (level orig_tag i) items := fun member =>
        absent (mem_path_of_mem_kept level_nested (by omega) member)
      have far := le_idxOf_filter notKept (full.level_length orig_tag small)
      rw [Walk.loop, if_neg (by omega)]
      rfl
  | succ remaining ih =>
    have small : depth ≤ parameters.MAX_DEPTH := by omega
    have row := between.row small orig_tag
    have fits := row.fits
    rw [Walk.loop]
    split
    case isTrue skips =>
      obtain ⟨above, rfl⟩ : ∃ above, depth = above + 1 := ⟨depth - 1, by omega⟩
      have nil : rows parameters items (above + 1) (orig_tag % 2 ^ (above + 1)) = [] := by
        rw [← List.length_eq_zero_iff]
        omega
      have longer : path parameters.TWO_PWR_N (level orig_tag) items (above + 2) =
          path parameters.TWO_PWR_N (level orig_tag) items (above + 1) := by
        rw [path_succ, rests_eq_rows, nil, List.append_nil]
      refine ih (by omega) (between.skip (rows_touch_of_skip full small incoming absent nil))
        (incoming.skip full small absent nil) ?_ ?_
      · rw [longer]
        exact absent
      · rw [longer]
        exact depths
    case isFalse looks =>
      have begins : (if depth = 0 then 1 else now.tree (rowOf depth orig_tag) 0) = now.tree (rowOf depth orig_tag) 0 := by
        split
        case isTrue isRoot =>
          subst isRoot
          have whole := full 0 small 0 (by decide)
          rw [Nat.pow_zero, Nat.mod_one, rows, whole] at fits
          omega
        case isFalse => rfl
      have some : rows parameters items depth (orig_tag % 2 ^ depth) ≠ [] := by
        intro nil
        rw [nil, List.length_nil] at fits
        have positive := two_pwr_n_pos parameters
        split at begins <;> omega
      simp only [begins]
      by_cases member : orig_tag ∈ rows parameters items depth (orig_tag % 2 ^ depth)
      case pos =>
        obtain ⟨pre, post, shape, notBefore⟩ := List.eq_append_cons_of_mem member
        rw [shape] at row
        obtain ⟨held, hit, counts⟩ := row.scan_hit now.depths now.tag notBefore
        have leaves := Leaves.hit pre post notBefore
        rw [← shape] at leaves
        rw [if_pos hit]
        refine ⟨(between.step full small incoming absent leaves held rfl).represents
          fun depth' _ less index _ => rows_touch_of_found (Nat.lt_of_succ_le less) member index, fun j i small' less => ?_⟩
        refine countHits_visited (fun i small' => ?_) (shape.symm ▸ rests_eq_rows depth) notBefore absent (full.level_length orig_tag small')
          small' less
        rw [List.countP_append, ← depths i small']
        exact counts i
      case neg =>
        obtain ⟨front, last, shape⟩ := List.eq_nil_or_concat _ |>.resolve_left some
        rw [List.concat_eq_append] at shape
        rw [shape] at row member
        obtain ⟨held, isLast, noHit, counts⟩ := row.scan_miss now.depths now.tag member
        have leaves := Leaves.miss front last member
        rw [← shape] at leaves
        rw [if_neg (by rw [noHit]; decide), isLast]
        refine ih (by omega) (between.step full small incoming absent leaves held rfl)
          (incoming.miss full small absent shape member) ?_ fun i small' => ?_
        · rw [path_succ, rests_eq_rows, shape, List.mem_append]
          exact fun either => either.elim absent member
        · rw [path_succ, rests_eq_rows, shape, List.countP_append, ← depths i small']
          exact counts i

theorem Represents.access (represents : Represents parameters tree items) (full : Full parameters items) (orig_tag : Nat)
    {depths : Nat → Nat} (sac_hits : Nat → Nat → Nat) (tag : Nat) (none : ∀ i ≤ parameters.MAX_DEPTH, depths i = 0) :
    let walk := Walk.loop parameters orig_tag (parameters.MAX_DEPTH + 1) 0 orig_tag ⟨tree, sac_hits, depths, tag⟩
    Represents parameters walk.tree (touch orig_tag items) ∧
      ∀ j i, i ≤ parameters.MAX_DEPTH → j < parameters.TWO_PWR_N →
        walk.sac_hits j i = sac_hits j i + if (items.filter (level orig_tag i)).idxOf orig_tag = j then 1 else 0 := by
  have between : Between parameters tree items (touch orig_tag items) 0 := by
    intro depth small index inside
    rw [if_neg (Nat.not_lt_zero _)]
    exact represents depth small index inside
  exact Walk.loop_spec full (Nat.zero_add _) between rfl (by simp [path]) fun i small => by simp [path, none i small]

end Walk

/-! ### Initialization -/

def unused (parameters : Parameters) : List Nat :=
  (List.range (2 ^ parameters.MAX_DEPTH)).flatMap fun index => List.replicate parameters.TWO_PWR_N (B80000000 + index)

theorem A_add_MAX_DEPTH_le (parameters : Parameters) : parameters.A + parameters.MAX_DEPTH ≤ 29 := by
  have fits := parameters.fits
  rw [← Nat.pow_add] at fits
  by_contra large
  have wide : 2 ^ 30 ≤ 2 ^ (parameters.A + (parameters.B - parameters.A)) :=
    Nat.pow_le_pow_right (by decide) (Nat.lt_of_not_le large)
  have ways : 1 ≤ 2 ^ parameters.N := Nat.pow_pos (by decide)
  have more : 2 ^ 30 * 2 * 2 ≤ 2 ^ (parameters.A + (parameters.B - parameters.A)) * 2 * (2 ^ parameters.N + 1) :=
    Nat.mul_le_mul (Nat.mul_le_mul_right 2 wide) (Nat.succ_le_succ ways)
  omega

theorem B80000000_mod (small : depth ≤ parameters.MAX_DEPTH) (index : Nat) : (B80000000 + index) % 2 ^ depth = index % 2 ^ depth := by
  have few := A_add_MAX_DEPTH_le parameters
  have divides : 2 ^ depth ∣ B80000000 := Nat.pow_dvd_pow 2 (show depth ≤ 31 by omega)
  rw [Nat.add_mod, Nat.mod_eq_zero_of_dvd divides, Nat.zero_add, Nat.mod_mod]

theorem kept_unused (small : depth ≤ parameters.MAX_DEPTH) (inside : index < 2 ^ depth) :
    kept parameters.TWO_PWR_N (inSet depth index) (unused parameters) =
      List.replicate parameters.TWO_PWR_N (B80000000 + index) := by
  have inTree : index < 2 ^ parameters.MAX_DEPTH := Nat.lt_of_lt_of_le inside (Nat.pow_le_pow_right (by decide) small)
  have split : List.range (2 ^ parameters.MAX_DEPTH) =
      List.range index ++ index :: List.range' (index + 1) (2 ^ parameters.MAX_DEPTH - index - 1) := by
    have whole : 2 ^ parameters.MAX_DEPTH = index + (2 ^ parameters.MAX_DEPTH - index - 1 + 1) := by omega
    rw [← List.range'_succ, List.range_eq_range', List.range_eq_range']
    conv => lhs; rw [whole, ← List.range'_append_1, Nat.zero_add]
  have before : ((List.range index).flatMap fun index => List.replicate parameters.TWO_PWR_N (B80000000 + index)).filter
      (inSet depth index) = [] := by
    refine List.filter_eq_nil_iff.mpr fun tag member => ?_
    obtain ⟨other, less, isTag⟩ := List.mem_flatMap.mp member
    rw [(List.mem_replicate.mp isTag).2, inSet, B80000000_mod small]
    have smaller := List.mem_range.mp less
    rw [Nat.mod_eq_of_lt (Nat.lt_trans smaller inside)]
    simpa using Nat.ne_of_lt smaller
  have here : (List.replicate parameters.TWO_PWR_N (B80000000 + index)).filter (inSet depth index) =
      List.replicate parameters.TWO_PWR_N (B80000000 + index) := by
    refine List.filter_eq_self.mpr fun tag member => ?_
    rw [(List.mem_replicate.mp member).2, inSet, B80000000_mod small, Nat.mod_eq_of_lt inside]
    exact decide_eq_true rfl
  rw [kept, unused, split, List.flatMap_append, List.flatMap_cons, List.filter_append, before, List.nil_append, List.filter_append,
    here, List.take_append_of_le_length (by simp), List.take_of_length_le (by simp)]

theorem unused_full : Full parameters (unused parameters) := by
  intro depth small index inside
  rw [kept_unused small inside, List.length_replicate]

theorem rows_unused (small : depth ≤ parameters.MAX_DEPTH) (inside : index < 2 ^ depth) :
    rows parameters (unused parameters) depth index =
      if 0 < depth ∧ index < 2 ^ (depth - 1) then [] else List.replicate parameters.TWO_PWR_N (B80000000 + index) := by
  cases depth with
  | zero =>
    have isZero : index = 0 := by simpa using inside
    rw [rows, isZero, kept_unused small (by decide), if_neg (by simp)]
  | succ depth =>
    have above := Nat.le_of_succ_le small
    rw [rows, rest, kept_unused small inside, kept_unused above (mod_lt index depth), List.countP_replicate, Nat.add_sub_cancel]
    have smaller := mod_lt index depth
    have wider : 2 ^ depth ≤ 2 ^ (depth + 1) := Nat.pow_le_pow_right (by decide) (Nat.le_succ depth)
    have isIndex : inSet (depth + 1) index (B80000000 + index % 2 ^ depth) = true ↔ index < 2 ^ depth := by
      rw [inSet, decide_eq_true_eq, B80000000_mod small, Nat.mod_eq_of_lt (Nat.lt_of_lt_of_le smaller wider)]
      exact ⟨fun same => same ▸ smaller, Nat.mod_eq_of_lt⟩
    by_cases first : index < 2 ^ depth
    · rw [if_pos (isIndex.mpr first), if_pos ⟨Nat.succ_pos _, first⟩, List.drop_of_length_le (by simp)]
    · rw [if_neg fun holds => first (isIndex.mp holds), if_neg fun both => first both.2, List.drop_zero]

section Init

theorem foldl_clear (start count row : Nat) (tree : Tree) :
    ((List.range' start count).foldl
      (fun tree k => Function.update tree k (Function.update (tree k) 0 (parameters.TWO_PWR_N + 1))) tree) row =
      if start ≤ row ∧ row < start + count then Function.update (tree row) 0 (parameters.TWO_PWR_N + 1) else tree row := by
  induction count generalizing start tree with
  | zero => rw [if_neg (by omega)]; rfl
  | succ count ih =>
    rw [List.range'_succ, List.foldl_cons, ih]
    by_cases isFirst : row = start
    · subst isFirst
      rw [if_neg (by omega), if_pos (by omega), Function.update_self]
    · have same : (start + 1 ≤ row ∧ row < start + 1 + count) ↔ (start ≤ row ∧ row < start + (count + 1)) := by omega
      simp only [same, Function.update_of_ne isFirst]

theorem foldl_fill (parameters : Parameters) (start count row next : Nat) (tree : Tree) :
    ((List.range' start count).foldl
      (fun now k => (Function.update now.1 k (Row.fill parameters now.2 (now.1 k)), now.2 + 1)) (tree, next)).1 row =
      (if start ≤ row ∧ row < start + count then Row.fill parameters (next + (row - start)) (tree row) else tree row) ∧
    ((List.range' start count).foldl
      (fun now k => (Function.update now.1 k (Row.fill parameters now.2 (now.1 k)), now.2 + 1)) (tree, next)).2 =
      next + count := by
  induction count generalizing start next tree with
  | zero => exact ⟨by rw [if_neg (by omega)]; rfl, rfl⟩
  | succ count ih =>
    rw [List.range'_succ, List.foldl_cons]
    obtain ⟨filled, counted⟩ := ih (start + 1) (next + 1) (Function.update tree start (Row.fill parameters next (tree start)))
    rw [filled, counted]
    refine ⟨?_, by omega⟩
    by_cases isFirst : row = start
    · subst isFirst
      rw [if_neg (by omega), if_pos (by omega), Function.update_self, Nat.sub_self, Nat.add_zero]
    · have same : (start + 1 ≤ row ∧ row < start + 1 + count) ↔ (start ≤ row ∧ row < start + (count + 1)) := by omega
      simp only [same, Function.update_of_ne isFirst]
      split
      case isTrue between =>
        congr 1
        omega
      case isFalse => rfl

theorem holds_clear (row : Row) : Holds parameters (Function.update row 0 (parameters.TWO_PWR_N + 1)) [] :=
  ⟨by rw [Function.update_self]; exact Nat.succ_pos _, by rw [Function.update_self]; rfl, rfl⟩

theorem holds_fill (value : Nat) (row : Row) :
    Holds parameters (Row.fill parameters value row) (List.replicate parameters.TWO_PWR_N value) := by
  have first : Row.fill parameters value row 0 = 1 := rfl
  refine ⟨by rw [first]; decide, by rw [first, List.length_replicate, Nat.add_comm], ?_⟩
  rw [first, List.length_replicate]
  refine List.eq_replicate_iff.mpr ⟨by simp, fun tag member => ?_⟩
  obtain ⟨location, isLocation, rfl⟩ := List.mem_map.mp member
  obtain ⟨least, most⟩ := List.mem_range'_1.mp isLocation
  rw [Row.fill, if_neg (by omega), if_pos (by omega)]

/-- The rows down to a depth are done, and the next tag is that of the next row. -/
structure Filled (parameters : Parameters) (depth : Nat) (now : Tree × Nat) : Prop where
  rows : ∀ depth' ≤ depth, ∀ index < 2 ^ depth', Holds parameters (now.1 (2 ^ depth' + index - 1))
    (if 0 < depth' ∧ index < 2 ^ (depth' - 1) then [] else List.replicate parameters.TWO_PWR_N (B80000000 + index))
  next : now.2 = B80000000 + 2 ^ depth

theorem Filled.initDepth {now : Tree × Nat} (filled : Filled parameters depth now) :
    Filled parameters (depth + 1) (Tree.initDepth parameters (depth + 1) now) := by
  have double : 2 ^ (depth + 1) = 2 ^ depth + 2 ^ depth := by rw [Nat.pow_succ]; omega
  have positive : 0 < 2 ^ depth := Nat.pow_pos (by decide)
  have shape (row : Nat) := foldl_fill parameters (2 ^ (depth + 1) - 1 + 2 ^ depth) (2 ^ depth) row now.2
    ((List.range' (2 ^ (depth + 1) - 1) (2 ^ depth)).foldl
      (fun tree k => Function.update tree k (Function.update (tree k) 0 (parameters.TWO_PWR_N + 1))) now.1)
  constructor
  · intro depth' small index inside
    simp only [Tree.initDepth, Nat.add_sub_cancel]
    rw [(shape _).1, foldl_clear, filled.next]
    by_cases isLast : depth' = depth + 1
    · subst isLast
      by_cases first : index < 2 ^ depth
      · rw [if_neg (by omega), if_pos (by omega), if_pos ⟨Nat.succ_pos _, first⟩]
        exact holds_clear _
      · rw [if_pos (by omega), if_neg (by omega), if_neg fun both => first both.2]
        have value : B80000000 + 2 ^ depth + (2 ^ (depth + 1) + index - 1 - (2 ^ (depth + 1) - 1 + 2 ^ depth)) = B80000000 + index := by
          omega
        rw [value]
        exact holds_fill _ _
    · have wider : 2 ^ (depth' + 1) ≤ 2 ^ (depth + 1) := Nat.pow_le_pow_right (by decide) (by omega)
      rw [Nat.pow_succ] at wider
      rw [if_neg (by omega), if_neg (by omega)]
      exact filled.rows depth' (by omega) index inside
  · simp only [Tree.initDepth, Nat.add_sub_cancel]
    rw [(shape 0).2, filled.next, double, Nat.add_assoc]

theorem Represents.init : Represents parameters (Tree.init parameters) (unused parameters) := by
  have start : Filled parameters 0 (Function.update (fun _ _ => 0) 0 (Row.fill parameters B80000000 fun _ => 0), B80000000 + 1) := by
    refine ⟨fun depth' small index inside => ?_, rfl⟩
    have isRoot : depth' = 0 := Nat.le_zero.mp small
    subst isRoot
    have isZero : index = 0 := by simpa using inside
    subst isZero
    exact holds_fill _ _
  have filled (count : Nat) : Filled parameters count ((List.range' 1 count).foldl (fun now j => Tree.initDepth parameters j now)
      (Function.update (fun _ _ => 0) 0 (Row.fill parameters B80000000 fun _ => 0), B80000000 + 1)) := by
    induction count with
    | zero => exact start
    | succ count ih =>
      rw [List.range'_concat, List.foldl_append, List.foldl_cons, List.foldl_nil, Nat.one_mul, Nat.add_comm 1 count]
      exact ih.initDepth
  intro depth small index inside
  rw [rows_unused small inside]
  exact (filled parameters.MAX_DEPTH).rows depth small index inside

end Init

/-! ### A cache by itself -/

/-- A cache of `2 ^ sets_log2` sets that keeps in each of them the lines used last. -/
structure LruCache where
  sets : Nat → List (BitVec 64)
  hits : Nat

def LruCache.empty : LruCache := ⟨fun _ => [], 0⟩

def LruCache.access (sets_log2 assoc : Nat) (line : BitVec 64) (cache : LruCache) : LruCache :=
  let index := line.toNat % 2 ^ sets_log2
  { sets := Function.update cache.sets index ((touch line (cache.sets index)).take assoc)
    hits := cache.hits + if line ∈ cache.sets index then 1 else 0 }

def LruCache.run (sets_log2 assoc : Nat) (lines : List (BitVec 64)) : LruCache :=
  lines.foldl (fun cache line => cache.access sets_log2 assoc line) .empty

def inIndex (sets_log2 index : Nat) (line : BitVec 64) : Bool := line.toNat % 2 ^ sets_log2 = index

section Lines

variable {sets_log2 assoc : Nat} {line other : BitVec 64} {past : List (BitVec 64)}

theorem LruCache.sets_foldr (past : List (BitVec 64)) (index : Nat) :
    (past.foldr (LruCache.access sets_log2 assoc) .empty).sets index =
      (order [] (past.filter (inIndex sets_log2 index))).take assoc := by
  induction past with
  | nil => simp [LruCache.empty]
  | cons line rest ih =>
    rw [List.foldr_cons, LruCache.access]
    by_cases isIndex : line.toNat % 2 ^ sets_log2 = index
    · subst isIndex
      simp only [Function.update_self]
      rw [ih, ← take_touch, List.filter_cons_of_pos (by simp [inIndex]), order_cons]
    · simp only [Function.update_of_ne (Ne.symm isIndex)]
      rw [ih, List.filter_cons_of_neg (by simpa [inIndex] using isIndex)]

def tagOf (parameters : Parameters) (line : BitVec 64) : Nat := (line.sshiftRight parameters.A).toNat

theorem tagOf_mod (small : depth ≤ parameters.MAX_DEPTH) :
    tagOf parameters line % 2 ^ depth = line.toNat / 2 ^ parameters.A % 2 ^ depth := by
  have few := A_add_MAX_DEPTH_le parameters
  refine Nat.eq_of_testBit_eq fun bit => ?_
  rw [Nat.testBit_mod_two_pow, Nat.testBit_mod_two_pow, Nat.testBit_div_two_pow]
  by_cases below : bit < depth
  · rw [tagOf, BitVec.testBit_toNat, BitVec.testBit_toNat, BitVec.getLsbD_sshiftRight, if_pos (by omega),
      decide_eq_true below, Nat.add_comm bit]
    simp
    omega
  · simp [below]

theorem mod_eq_iff (small : depth ≤ parameters.MAX_DEPTH) :
    line.toNat % 2 ^ (parameters.A + depth) = other.toNat % 2 ^ (parameters.A + depth) ↔
      line.toNat % 2 ^ parameters.A = other.toNat % 2 ^ parameters.A ∧
        tagOf parameters line % 2 ^ depth = tagOf parameters other % 2 ^ depth := by
  rw [tagOf_mod small, tagOf_mod small]
  have divided (number : Nat) :
      number % 2 ^ (parameters.A + depth) / 2 ^ parameters.A = number / 2 ^ parameters.A % 2 ^ depth := by
    rw [Nat.pow_add, Nat.mod_mul_right_div_self]
  have reduced (number : Nat) : number % 2 ^ (parameters.A + depth) % 2 ^ parameters.A = number % 2 ^ parameters.A :=
    Nat.mod_mod_of_dvd _ (Nat.pow_dvd_pow 2 (Nat.le_add_right _ _))
  constructor
  · intro same
    rw [← divided, ← divided, ← reduced, same, reduced]
    exact ⟨rfl, rfl⟩
  · intro both
    rw [Nat.pow_add, Nat.mod_mul, Nat.mod_mul, both.1, both.2]

theorem eq_of_tagOf_eq (sameSet : line.toNat % 2 ^ parameters.A = other.toNat % 2 ^ parameters.A)
    (sameTag : tagOf parameters line = tagOf parameters other) : line = other := by
  refine BitVec.eq_of_getLsbD_eq fun bit small => ?_
  by_cases low : bit < parameters.A
  · have bits := congrArg (Nat.testBit · bit) sameSet
    simpa [Nat.testBit_mod_two_pow, low, BitVec.testBit_toNat] using bits
  · have bits := congrArg (Nat.testBit · (bit - parameters.A)) sameTag
    simp only [tagOf, BitVec.testBit_toNat, BitVec.getLsbD_sshiftRight] at bits
    rw [if_pos (by omega), if_pos (by omega)] at bits
    have back : parameters.A + (bit - parameters.A) = bit := by omega
    rw [back] at bits
    simpa [show ¬ 64 ≤ bit - parameters.A by omega] using bits

end Lines

/-! ### Accesses -/

theorem Full.touch (full : Full parameters items) (tag : Nat) : Full parameters (touch tag items) := by
  intro depth small index inside
  have whole := full depth small index inside
  cases isIn : inSet depth index tag with
  | false => rw [kept_touch_of_neg isIn, whole]
  | true =>
    have longer : (kept parameters.TWO_PWR_N (inSet depth index) items).length ≤
        (Recency.touch tag (kept parameters.TWO_PWR_N (inSet depth index) items)).length := by
      have shorter := List.le_length_erase (a := tag) (l := kept parameters.TWO_PWR_N (inSet depth index) items)
      rw [Recency.touch, List.length_cons]
      omega
    rw [kept_touch isIn, List.length_take]
    omega

/-- The tags of a tree in the order of their last use, the unused ones last. -/
def stack (parameters : Parameters) (past : List (BitVec 64)) (set_no : Nat) : List Nat :=
  order (unused parameters) ((past.filter (inIndex parameters.A set_no)).map (tagOf parameters))

theorem stack_full (parameters : Parameters) (past : List (BitVec 64)) (set_no : Nat) : Full parameters (stack parameters past set_no) := by
  rw [stack]
  generalize (past.filter (inIndex parameters.A set_no)).map (tagOf parameters) = uses
  induction uses with
  | nil => exact unused_full
  | cons used rest ih => exact ih.touch used

section Access

variable {assoc set_no i : Nat} {line : BitVec 64} {past : List (BitVec 64)} {state : State}

theorem stack_cons (past : List (BitVec 64)) (line : BitVec 64) (set_no : Nat) :
    stack parameters (line :: past) set_no =
      if line.toNat % 2 ^ parameters.A = set_no then touch (tagOf parameters line) (stack parameters past set_no)
      else stack parameters past set_no := by
  rw [stack, stack]
  split
  case isTrue same => rw [List.filter_cons_of_pos (by simpa [inIndex] using same), List.map_cons, order_cons]
  case isFalse other => rw [List.filter_cons_of_neg (by simpa [inIndex] using other)]

theorem place_lt_iff (new : ∀ used ∈ line :: past, tagOf parameters used ∉ unused parameters) (small : i ≤ parameters.MAX_DEPTH)
    (few : assoc ≤ parameters.TWO_PWR_N) :
    ((stack parameters past (line.toNat % 2 ^ parameters.A)).filter (level (tagOf parameters line) i)).idxOf (tagOf parameters line) <
        assoc ↔
      line ∈ (order [] (past.filter (inIndex (parameters.A + i) (line.toNat % 2 ^ (parameters.A + i))))).take assoc := by
  let lines := past.filter (inIndex (parameters.A + i) (line.toNat % 2 ^ (parameters.A + i)))
  have inLines : ∀ used ∈ lines, used ∈ past ∧ used.toNat % 2 ^ parameters.A = line.toNat % 2 ^ parameters.A := by
    intro used member
    obtain ⟨inPast, isIndex⟩ := List.mem_filter.mp member
    exact ⟨inPast, ((mod_eq_iff small).mp (of_decide_eq_true isIndex)).1⟩
  have tags : ((past.filter (inIndex parameters.A (line.toNat % 2 ^ parameters.A))).map (tagOf parameters)).filter
      (level (tagOf parameters line) i) = lines.map (tagOf parameters) := by
    rw [List.filter_map, List.filter_filter]
    congr 1
    refine List.filter_congr fun used _ => ?_
    rw [Function.comp_apply, inIndex, inIndex, level, inSet, ← Bool.decide_and, decide_eq_decide, mod_eq_iff small, and_comm]
  have unusedLength : parameters.TWO_PWR_N ≤ ((unused parameters).filter (level (tagOf parameters line) i)).length := by
    have whole := unused_full.level_length (tagOf parameters line) small
    rw [kept, List.length_take] at whole
    omega
  have shape : (stack parameters past (line.toNat % 2 ^ parameters.A)).filter (level (tagOf parameters line) i) =
      (order [] lines).map (tagOf parameters) ++ (unused parameters).filter (level (tagOf parameters line) i) := by
    rw [stack, filter_order, tags, order_eq_append, map_order]
    · intro used inLines' other inLines'' same
      exact eq_of_tagOf_eq ((inLines other inLines'').2.trans (inLines used inLines').2.symm) same
    · intro tag member
      obtain ⟨used, inLines', rfl⟩ := List.mem_map.mp member
      exact fun isUnused => new used (List.mem_cons_of_mem _ (inLines used inLines').1) (List.mem_of_mem_filter isUnused)
  have sameLine {used : BitVec 64} (member : used ∈ order [] lines) (same : tagOf parameters used = tagOf parameters line) :
      used = line :=
    eq_of_tagOf_eq (inLines used ((mem_order.mp member).resolve_right List.not_mem_nil)).2 same
  rw [shape]
  by_cases member : tagOf parameters line ∈ (order [] lines).map (tagOf parameters)
  · rw [List.idxOf_append_of_mem member, ← List.mem_take_iff_idxOf_lt member, ← List.map_take, List.mem_map]
    constructor
    · intro found
      obtain ⟨used, inTake, same⟩ := found
      have isLine := sameLine (List.mem_of_mem_take inTake) same
      rw [← isLine]
      rw [isLine] at inTake ⊢
      exact inTake
    · exact fun inTake => ⟨line, inTake, rfl⟩
  · rw [List.idxOf_append_of_notMem member]
    have outside : tagOf parameters line ∉ (unused parameters).filter (level (tagOf parameters line) i) := fun isUnused =>
      new line List.mem_cons_self (List.mem_of_mem_filter isUnused)
    rw [List.idxOf_of_notMem outside]
    refine iff_of_false (by omega) fun inTake => member ?_
    exact List.mem_map.mpr ⟨line, List.mem_of_mem_take inTake, rfl⟩

theorem sum_range_add_place (counts : Nat → Nat) (place assoc : Nat) :
    ((List.range assoc).map fun j => counts j + if place = j then 1 else 0).sum =
      ((List.range assoc).map counts).sum + if place < assoc then 1 else 0 := by
  induction assoc with
  | zero => rfl
  | succ assoc ih =>
    rw [List.range_succ, List.map_append, List.map_append, List.sum_append, List.sum_append, ih]
    simp only [List.map_cons, List.map_nil, List.sum_cons, List.sum_nil]
    split <;> split <;> split <;> omega

/-- The trees have the tags in the order of their uses, and the counts are those of the caches. -/
structure Counted (parameters : Parameters) (state : State) (past : List (BitVec 64)) : Prop where
  trees : ∀ set_no, Represents parameters (state.arr set_no) (stack parameters past set_no)
  depths : ∀ i ≤ parameters.MAX_DEPTH, state.depths i = 0
  hits : ∀ i ≤ parameters.MAX_DEPTH, ∀ assoc ≤ parameters.TWO_PWR_N, 0 < assoc →
    ((List.range assoc).map fun j => state.sac_hits j i).sum + state.hitarr0 =
      (past.foldr (LruCache.access (parameters.A + i) assoc) .empty).hits
  entries : state.t_entries = past.length

theorem Counted.init_saclru : Counted parameters (State.init_saclru parameters) [] := by
  refine ⟨fun _ => Represents.init, fun _ _ => rfl, fun i _ assoc _ _ => ?_, rfl⟩
  simp [State.init_saclru, LruCache.empty]

theorem hits_foldr_cons (new : ∀ used ∈ line :: past, tagOf parameters used ∉ unused parameters) (small : i ≤ parameters.MAX_DEPTH)
    (few : assoc ≤ parameters.TWO_PWR_N) :
    ((line :: past).foldr (LruCache.access (parameters.A + i) assoc) .empty).hits =
      (past.foldr (LruCache.access (parameters.A + i) assoc) .empty).hits +
        if ((stack parameters past (line.toNat % 2 ^ parameters.A)).filter (level (tagOf parameters line) i)).idxOf
          (tagOf parameters line) < assoc then 1 else 0 := by
  simp only [place_lt_iff new small few]
  rw [List.foldr_cons, LruCache.access, LruCache.sets_foldr]

theorem stack_eq_cons (represents : Represents parameters tree items) (full : Full parameters items)
    (first : tree 0 1 = orig_tag) : ∃ others, items = orig_tag :: others := by
  have holds := represents 0 (Nat.zero_le _) 0 (by decide)
  have whole := full 0 (Nat.zero_le _) 0 (by decide)
  obtain ⟨begins, fits, tags⟩ := holds
  rw [rows, whole] at fits tags
  have positive := two_pwr_n_pos parameters
  have isOne : tree (2 ^ 0 + 0 - 1) 0 = 1 := by omega
  obtain ⟨fewer, isSucc⟩ : ∃ fewer, parameters.TWO_PWR_N = fewer + 1 := ⟨parameters.TWO_PWR_N - 1, by omega⟩
  rw [isOne] at tags
  have all : items.filter (inSet 0 0) = items := List.filter_eq_self.mpr fun tag _ => by simp [inSet, Nat.mod_one]
  rw [kept, all, isSucc, List.range'_succ, List.map_cons] at tags
  cases items with
  | nil => cases tags
  | cons tag others =>
    rw [List.take_succ_cons] at tags
    have same := (List.cons.inj tags).1
    rw [← first]
    exact ⟨others, by rw [← same]; rfl⟩

theorem Counted.access (counted : Counted parameters state past) (addr : BitVec 64)
    (new : ∀ used ∈ addr.sshiftRight parameters.L :: past, tagOf parameters used ∉ unused parameters) :
    Counted parameters (state.sacnmul_woarr parameters addr) (addr.sshiftRight parameters.L :: past) := by
  generalize isLine : addr.sshiftRight parameters.L = line at new
  have full := stack_full parameters past (line.toNat % 2 ^ parameters.A)
  have represents := counted.trees (line.toNat % 2 ^ parameters.A)
  simp only [State.sacnmul_woarr, isLine, Nat.and_two_pow_sub_one_eq_mod]
  split
  case isTrue first =>
    obtain ⟨others, shape⟩ := stack_eq_cons represents full first
    change _ = tagOf parameters line :: others at shape
    refine ⟨fun set_no => ?_, counted.depths, fun i small assoc few positive => ?_, ?_⟩
    · rw [stack_cons]
      split
      case isTrue same =>
        rw [← same, shape, touch, List.erase_cons_head, ← shape]
        exact represents
      case isFalse => exact counted.trees set_no
    · have before := counted.hits i small assoc few positive
      rw [hits_foldr_cons new small few, shape, List.filter_cons_of_pos (level_self i), List.idxOf_cons_self, if_pos positive,
        ← before]
      rfl
    · exact congrArg (· + 1) counted.entries
  case isFalse =>
    obtain ⟨after, counts⟩ := represents.access full (tagOf parameters line) state.sac_hits state.tag counted.depths
    refine ⟨fun set_no => ?_, fun i small => if_pos small, fun i small assoc few positive => ?_, ?_⟩
    · rw [stack_cons]
      by_cases same : line.toNat % 2 ^ parameters.A = set_no
      · subst same
        simp only [if_true, Function.update_self]
        exact after
      · simp only [if_neg same, Function.update_of_ne (Ne.symm same)]
        exact counted.trees set_no
    · have before := counted.hits i small assoc few positive
      have added : ((List.range assoc).map fun j => (Walk.loop parameters (tagOf parameters line) (parameters.MAX_DEPTH + 1) 0
          (tagOf parameters line) ⟨state.arr (line.toNat % 2 ^ parameters.A), state.sac_hits, state.depths, state.tag⟩).sac_hits
          j i) = (List.range assoc).map fun j => state.sac_hits j i +
            if ((stack parameters past (line.toNat % 2 ^ parameters.A)).filter (level (tagOf parameters line) i)).idxOf
              (tagOf parameters line) = j then 1 else 0 := by
        refine List.map_congr_left fun j member => ?_
        exact counts j i small (Nat.lt_of_lt_of_le (List.mem_range.mp member) few)
      rw [hits_foldr_cons new small few, ← before]
      change ((List.range assoc).map fun j => (Walk.loop parameters (tagOf parameters line) (parameters.MAX_DEPTH + 1) 0
          (tagOf parameters line) ⟨state.arr (line.toNat % 2 ^ parameters.A), state.sac_hits, state.depths, state.tag⟩).sac_hits
          j i).sum + state.hitarr0 = _
      rw [added, sum_range_add_place]
      omega
    · exact congrArg (· + 1) counted.entries

theorem sum_range_flush (counts : Nat → Nat) (more : Nat) {assoc : Nat} (positive : 0 < assoc) :
    ((List.range assoc).map fun j => if j = 0 then counts 0 + more else counts j).sum =
      ((List.range assoc).map counts).sum + more := by
  obtain ⟨fewer, rfl⟩ : ∃ fewer, assoc = fewer + 1 := ⟨assoc - 1, by omega⟩
  rw [List.range_succ_eq_map, List.map_cons, List.map_cons, List.sum_cons, List.sum_cons, if_pos rfl, List.map_map, List.map_map]
  have same : (fun j => if j = 0 then counts 0 + more else counts j) ∘ Nat.succ = counts ∘ Nat.succ := by
    funext j
    simp
  rw [same]
  omega

theorem flush_sac_hits (state : State) (small : i ≤ parameters.MAX_DEPTH) (j : Nat) :
    (state.flush parameters).sac_hits j i = if j = 0 then state.sac_hits 0 i + state.hitarr0 else state.sac_hits j i := by
  rw [State.flush]
  split
  case isTrue isZero =>
    subst isZero
    simp only [Function.update_self, if_pos small]
  case isFalse other => simp only [Function.update_of_ne other]

theorem Counted.flush (counted : Counted parameters state past) : Counted parameters (state.flush parameters) past := by
  refine ⟨counted.trees, counted.depths, fun i small assoc few positive => ?_, counted.entries⟩
  rw [← counted.hits i small assoc few positive, List.map_congr_left fun j _ => flush_sac_hits state small j,
    sum_range_flush (state.sac_hits · i) state.hitarr0 positive]
  rfl

theorem Counted.hits_state (counted : Counted parameters state past) (sets_log2 assoc : Nat) :
    Counted parameters (state.hits parameters sets_log2 assoc).2 past ∧ (state.hits parameters sets_log2 assoc).2.hitarr0 = 0 := by
  rw [State.hits]
  by_cases isZero : state.hitarr0 = 0
  · rw [if_neg (not_not_intro isZero)]
    exact ⟨counted, isZero⟩
  · rw [if_pos isZero]
    exact ⟨counted.flush, rfl⟩

theorem hits_foldr_zero (sets_log2 : Nat) (past : List (BitVec 64)) :
    (past.foldr (LruCache.access sets_log2 0) .empty).hits = 0 := by
  induction past with
  | nil => rfl
  | cons line rest ih =>
    rw [List.foldr_cons, LruCache.access, LruCache.sets_foldr]
    simp [ih]

theorem Counted.hits_eq (counted : Counted parameters state past) {sets_log2 : Nat} (low : parameters.A ≤ sets_log2)
    (high : sets_log2 ≤ parameters.B) (few : assoc ≤ parameters.TWO_PWR_N) :
    (state.hits parameters sets_log2 assoc).1 = (past.foldr (LruCache.access sets_log2 assoc) .empty).hits := by
  obtain ⟨counted', settled⟩ := counted.hits_state sets_log2 assoc
  change ((List.range assoc).map fun j => (state.hits parameters sets_log2 assoc).2.sac_hits j (sets_log2 - parameters.A)).sum = _
  have depth : parameters.A + (sets_log2 - parameters.A) = sets_log2 := Nat.add_sub_cancel' low
  cases assoc with
  | zero => rw [hits_foldr_zero]; rfl
  | succ assoc =>
    have counts := counted'.hits (sets_log2 - parameters.A) (Nat.sub_le_sub_right high _) (assoc + 1) few (Nat.succ_pos _)
    rw [settled, Nat.add_zero, depth] at counts
    exact counts

end Access

/-! ### Runs -/

inductive Operation where
  | access (addr : BitVec 64)
  | hits (sets_log2 assoc : Nat)

def State.operate (parameters : Parameters) (state : State) : Operation → State
  | .access addr => state.sacnmul_woarr parameters addr
  | .hits sets_log2 assoc => (state.hits parameters sets_log2 assoc).2

def Operation.line? (parameters : Parameters) : Operation → Option (BitVec 64)
  | .access addr => some (addr.sshiftRight parameters.L)
  | .hits _ _ => none

theorem Counted.run {operations : List Operation} {state : State} {past : List (BitVec 64)} (counted : Counted parameters state past)
    (new : ∀ used ∈ (operations.filterMap (Operation.line? parameters)).reverse ++ past,
      tagOf parameters used ∉ unused parameters) :
    Counted parameters (operations.foldl (State.operate parameters) state)
      ((operations.filterMap (Operation.line? parameters)).reverse ++ past) := by
  induction operations generalizing state past with
  | nil => exact counted
  | cons operation rest ih =>
    cases operation with
    | hits sets_log2 assoc => exact ih (counted.hits_state sets_log2 assoc).1 new
    | access addr =>
      have isLine : (Operation.access addr).line? parameters = some (addr.sshiftRight parameters.L) := rfl
      rw [List.filterMap_cons_some isLine, List.reverse_cons, List.append_assoc, List.singleton_append] at new ⊢
      exact ih (counted.access addr fun used member => new used (List.mem_append_right _ member)) new

theorem mem_unused {tag : Nat} : tag ∈ unused parameters ↔ B80000000 ≤ tag ∧ tag < B80000000 + 2 ^ parameters.MAX_DEPTH := by
  rw [unused, List.mem_flatMap]
  constructor
  · intro found
    obtain ⟨index, inside, isTag⟩ := found
    rw [(List.mem_replicate.mp isTag).2]
    have less := List.mem_range.mp inside
    omega
  · intro between
    refine ⟨tag - B80000000, List.mem_range.mpr (by omega), List.mem_replicate.mpr ⟨?_, by omega⟩⟩
    exact Nat.ne_of_gt (two_pwr_n_pos parameters)

/-- `hits` gives for each number of sets and each associativity the hits that a cache of this size has by itself, as
long as no line has a tag that the trees start with. -/
theorem one_pass_counts_the_hits_of_every_cache (parameters : Parameters) (operations : List Operation) (sets_log2 assoc : Nat)
    (low : parameters.A ≤ sets_log2) (high : sets_log2 ≤ parameters.B) (few : assoc ≤ parameters.TWO_PWR_N)
    (new : ∀ line ∈ operations.filterMap (Operation.line? parameters),
      ¬ (B80000000 ≤ tagOf parameters line ∧ tagOf parameters line < B80000000 + 2 ^ parameters.MAX_DEPTH)) :
    ((operations.foldl (State.operate parameters) (.init_saclru parameters)).hits parameters sets_log2 assoc).1 =
      (LruCache.run sets_log2 assoc (operations.filterMap (Operation.line? parameters))).hits := by
  have unseen : ∀ used ∈ (operations.filterMap (Operation.line? parameters)).reverse ++ [],
      tagOf parameters used ∉ unused parameters := by
    rw [List.append_nil]
    intro used member isUnused
    exact new used (List.mem_reverse.mp member) (mem_unused.mp isUnused)
  have counted := Counted.init_saclru.run unseen
  rw [counted.hits_eq low high few, List.append_nil, List.foldr_reverse, LruCache.run]

/-- Caches of one and of two sets with two ways: only the larger one still has the first line. -/
theorem one_pass_counts_the_hits_of_every_cache_two_sets :
    let parameters : Parameters := ⟨1, 1, 0, 6, by decide, by decide⟩
    let operations := [0x00, 0x40, 0xC0, 0x00, 0x40].map Operation.access
    ((operations.foldl (State.operate parameters) (.init_saclru parameters)).hits parameters 0 2).1 = 0 ∧
      ((operations.foldl (State.operate parameters) (.init_saclru parameters)).hits parameters 1 2).1 = 2 := by
  intro parameters operations
  have lines : operations.filterMap (Operation.line? parameters) = [0, 1, 3, 0, 1] := by rfl
  have tags : (operations.filterMap (Operation.line? parameters)).map (tagOf parameters) = [0, 1, 3, 0, 1] := by rfl
  have new : ∀ line ∈ operations.filterMap (Operation.line? parameters),
      ¬ (B80000000 ≤ tagOf parameters line ∧ tagOf parameters line < B80000000 + 2 ^ parameters.MAX_DEPTH) := by
    intro line member between
    have isTag := List.mem_map_of_mem (f := tagOf parameters) member
    rw [tags] at isTag
    have small : ∀ tag ∈ [0, 1, 3, 0, 1], tag < 4 := by decide
    have large : 4 < B80000000 := by simp [B80000000]
    have less := small _ isTag
    omega
  constructor
  · rw [one_pass_counts_the_hits_of_every_cache parameters operations 0 2 (by decide) (by decide) (by decide) new, lines]
    decide +kernel
  · rw [one_pass_counts_the_hits_of_every_cache parameters operations 1 2 (by decide) (by decide) (by decide) new, lines]
    decide +kernel

end Sniper.Cheetah

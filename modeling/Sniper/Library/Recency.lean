import Mathlib.Data.List.Basic
import Mathlib.Data.List.Dedup
import Mathlib.Logic.Function.Basic

/-! Items in the order of their last use, the last one used first. -/

namespace Sniper.Recency

variable {α : Type u} [DecidableEq α] {item other : α} {items uses base : List α} {capacity : Nat}

/-- An item is used: it comes first. -/
def touch (item : α) (items : List α) : List α := item :: items.erase item

/-- What some uses, the last one first, make of an order. -/
def order (base uses : List α) : List α := uses.foldr touch base

@[simp] theorem order_nil : order base [] = base := rfl

@[simp] theorem order_cons : order base (item :: uses) = touch item (order base uses) := rfl

@[simp] theorem mem_touch : other ∈ touch item items ↔ other = item ∨ other ∈ items := by
  rw [touch, List.mem_cons]
  by_cases same : other = item
  · simp [same]
  · simp [same, List.mem_erase_of_ne same]

theorem touch_nodup (nodup : items.Nodup) : (touch item items).Nodup := by
  rw [touch, List.nodup_cons]
  exact ⟨fun member => (nodup.mem_erase_iff.mp member).1 rfl, nodup.erase item⟩

theorem touch_perm (member : item ∈ items) : (touch item items).Perm items :=
  (List.perm_cons_erase member).symm

/-- The last item goes to the front. -/
theorem touch_last (absent : item ∉ items) : touch item (items ++ [item]) = item :: items := by
  rw [touch, List.erase_append_right _ absent, List.erase_cons_head, List.append_nil]

theorem mem_order : item ∈ order base uses ↔ item ∈ uses ∨ item ∈ base := by
  induction uses with
  | nil => simp
  | cons used rest ih => rw [order_cons, mem_touch, ih, List.mem_cons, or_assoc]

theorem order_nodup (nodup : base.Nodup) : (order base uses).Nodup := by
  induction uses with
  | nil => exact nodup
  | cons used rest ih => exact touch_nodup ih

/-! ### Places -/

/-- A use moves the items back that were before the used one. -/
theorem idxOf_touch (member : item ∈ items) : (touch item items).idxOf other =
    if other = item then 0
    else if items.idxOf other < items.idxOf item then items.idxOf other + 1
    else items.idxOf other := by
  by_cases same : other = item
  · rw [touch, same, List.idxOf_cons_self, if_pos rfl]
  · rw [if_neg same, touch, List.idxOf_cons_ne _ (Ne.symm same)]
    induction items with
    | nil => cases member
    | cons first rest ih =>
      by_cases isFirst : first = item
      · subst isFirst
        rw [List.erase_cons_head, List.idxOf_cons_ne _ (Ne.symm same), List.idxOf_cons_self]
        rfl
      · have inRest : item ∈ rest := (List.mem_cons.mp member).resolve_left (Ne.symm isFirst)
        rw [List.erase_cons_tail (by simpa using isFirst), List.idxOf_cons_ne _ isFirst]
        by_cases otherFirst : first = other
        · subst otherFirst
          rw [List.idxOf_cons_self, List.idxOf_cons_self, if_pos (Nat.succ_pos _)]
        · rw [List.idxOf_cons_ne _ otherFirst, List.idxOf_cons_ne _ otherFirst, ih inRest]
          simp only [Nat.succ_lt_succ_iff]
          split <;> rfl

theorem idxOf_getElem (nodup : items.Nodup) {place : Nat} (inside : place < items.length) :
    items.idxOf items[place] = place :=
  List.get_idxOf nodup ⟨place, inside⟩

theorem idxOf_ne (member : item ∈ items) (apart : other ≠ item) : items.idxOf other ≠ items.idxOf item :=
  fun same => apart ((List.idxOf_inj member).mp same.symm).symm

/-- Of two items, the one that was used later comes first; the items that were not used keep their places behind the
others. -/
theorem idxOf_order (inBase : ∀ used ∈ uses, used ∈ base) (apart : item ≠ other) :
    (order base uses).idxOf item < (order base uses).idxOf other ↔
      uses.idxOf item < uses.idxOf other ∨ item ∉ uses ∧ other ∉ uses ∧ base.idxOf item < base.idxOf other := by
  induction uses with
  | nil => simp
  | cons used rest ih =>
    have earlier := ih fun other inRest => inBase other (List.mem_cons_of_mem _ inRest)
    have usedInOrder : used ∈ order base rest := mem_order.mpr (.inr (inBase used List.mem_cons_self))
    rw [order_cons, idxOf_touch usedInOrder, idxOf_touch usedInOrder]
    by_cases isItem : item = used
    · subst isItem
      have places := idxOf_ne usedInOrder (Ne.symm apart)
      simp only [if_true, if_neg (Ne.symm apart), List.idxOf_cons_self, List.idxOf_cons_ne rest apart, Nat.succ_pos, true_or,
        iff_true]
      split <;> omega
    · by_cases isOther : other = used
      · subst isOther
        simp [isItem]
      · have places := idxOf_ne usedInOrder isOther
        simp only [isItem, isOther, if_false, List.idxOf_cons_ne rest (Ne.symm isItem), List.idxOf_cons_ne rest (Ne.symm isOther),
          Nat.succ_lt_succ_iff, List.mem_cons, false_or]
        rw [← earlier]
        split <;> split <;> omega

/-! ### Distances -/

/-- How many other items were used since the last use of an item. -/
def distance (item : α) (uses : List α) : Nat := (uses.takeWhile (· ≠ item)).dedup.length

theorem idxOf_eq_length_takeWhile : items.idxOf item = (items.takeWhile (· ≠ item)).length := by
  induction items with
  | nil => rfl
  | cons first rest ih =>
    by_cases isFirst : first = item
    · subst isFirst
      simp
    · rw [List.idxOf_cons_ne _ isFirst, List.takeWhile_cons_of_pos (by simpa using isFirst), List.length_cons, ih]

theorem mem_takeWhile_erase {used : α} (isItem : ¬used = item) (isUsed : ¬other = used) :
    other ∈ (items.erase used).takeWhile (· ≠ item) ↔ other ∈ items.takeWhile (· ≠ item) := by
  induction items with
  | nil => rfl
  | cons first rest ih =>
    by_cases isFirst : first = used
    · subst isFirst
      rw [List.erase_cons_head, List.takeWhile_cons_of_pos (by simpa using isItem), List.mem_cons]
      simp [isUsed]
    · rw [List.erase_cons_tail (by simpa using isFirst), List.takeWhile_cons, List.takeWhile_cons]
      split
      · rw [List.mem_cons, List.mem_cons, ih]
      · rfl

/-- The items before an item are the ones that were used since its last use. -/
theorem mem_takeWhile_order (member : item ∈ uses) :
    other ∈ (order [] uses).takeWhile (· ≠ item) ↔ other ∈ uses.takeWhile (· ≠ item) := by
  induction uses with
  | nil => cases member
  | cons used rest ih =>
    by_cases isItem : used = item
    · subst isItem
      simp [touch]
    · have inRest : item ∈ rest := (List.mem_cons.mp member).resolve_left (Ne.symm isItem)
      rw [order_cons, touch, List.takeWhile_cons_of_pos (by simpa using isItem),
        List.takeWhile_cons_of_pos (by simpa using isItem), List.mem_cons, List.mem_cons, ← ih inRest]
      by_cases isUsed : other = used
      · simp [isUsed]
      · simp only [isUsed, false_or]
        exact mem_takeWhile_erase isItem isUsed

theorem order_takeWhile_length (member : item ∈ uses) :
    ((order [] uses).takeWhile (· ≠ item)).length = distance item uses := by
  apply List.Perm.length_eq
  rw [List.perm_ext_iff_of_nodup ((order_nodup List.nodup_nil).sublist (List.takeWhile_sublist _)) (List.nodup_dedup _)]
  intro other
  rw [List.mem_dedup]
  exact mem_takeWhile_order member

/-- Only the uses before an item count. -/
theorem distance_append_le {front : List α} : distance item (front ++ item :: uses) ≤ front.length := by
  apply Nat.le_trans (List.dedup_sublist _).length_le
  induction front with
  | nil => simp
  | cons first rest ih =>
    rw [List.cons_append, List.takeWhile_cons]
    split
    · exact Nat.succ_le_succ ih
    · exact Nat.zero_le _

/-! ### The items that are kept -/

theorem take_erase : (items.erase item).take capacity = ((items.take (capacity + 1)).erase item).take capacity := by
  induction items generalizing capacity with
  | nil => rfl
  | cons first rest ih =>
    rw [List.take_succ_cons]
    by_cases isFirst : first = item
    · subst isFirst
      rw [List.erase_cons_head, List.erase_cons_head, List.take_take, Nat.min_self]
    · rw [List.erase_cons_tail (by simpa using isFirst), List.erase_cons_tail (by simpa using isFirst)]
      cases capacity with
      | zero => rfl
      | succ capacity => rw [List.take_succ_cons, List.take_succ_cons, ih]

/-- Only the items that are kept decide which ones are kept after a use. -/
theorem take_touch : (touch item items).take capacity = (touch item (items.take capacity)).take capacity := by
  cases capacity with
  | zero => rfl
  | succ capacity => rw [touch, touch, List.take_succ_cons, List.take_succ_cons, take_erase]

/-- A store of some capacity that keeps the items last used has an item as long as few others were used since. -/
theorem mem_take_order : item ∈ (order [] uses).take capacity ↔ item ∈ uses ∧ distance item uses < capacity := by
  by_cases member : item ∈ uses
  · have inOrder : item ∈ order [] uses := mem_order.mpr (.inl member)
    rw [List.mem_take_iff_idxOf_lt inOrder, idxOf_eq_length_takeWhile, order_takeWhile_length member]
    exact (and_iff_right member).symm
  · have outside : item ∉ order [] uses := by
      simpa [mem_order] using member
    simp only [member, false_and, iff_false]
    exact fun kept => outside (List.mem_of_mem_take kept)

/-! ### What the items hold -/

variable {β : Type v} {held : α → Option β} {value : β}

theorem filterMap_erase [DecidableEq β] (holds : held item = some value) (member : item ∈ items) (nodup : (items.filterMap held).Nodup) :
    (items.erase item).filterMap held = (items.filterMap held).erase value := by
  induction items with
  | nil => cases member
  | cons first rest ih =>
    by_cases isFirst : first = item
    · subst isFirst
      rw [List.erase_cons_head, List.filterMap_cons_some holds, List.erase_cons_head]
    · have inRest : item ∈ rest := (List.mem_cons.mp member).resolve_left (Ne.symm isFirst)
      rw [List.erase_cons_tail (by simpa using isFirst)]
      cases heldFirst : held first with
      | none =>
        rw [List.filterMap_cons_none heldFirst] at nodup ⊢
        rw [List.filterMap_cons_none heldFirst]
        exact ih inRest nodup
      | some other =>
        rw [List.filterMap_cons_some heldFirst] at nodup ⊢
        obtain ⟨different, nodup⟩ := List.nodup_cons.mp nodup
        have apart : other ≠ value := by
          intro same
          exact different (same ▸ List.mem_filterMap.mpr ⟨item, inRest, holds⟩)
        rw [List.filterMap_cons_some heldFirst, List.erase_cons_tail (by simpa using apart), ih inRest nodup]

theorem filterMap_erase_none (holds : held item = none) : (items.erase item).filterMap held = items.filterMap held := by
  induction items with
  | nil => rfl
  | cons first rest ih =>
    by_cases isFirst : first = item
    · subst isFirst
      rw [List.erase_cons_head, List.filterMap_cons_none holds]
    · rw [List.erase_cons_tail (by simpa using isFirst), List.filterMap_cons, List.filterMap_cons, ih]

theorem filterMap_touch [DecidableEq β] (holds : held item = some value) (member : item ∈ items) (nodup : (items.filterMap held).Nodup) :
    (touch item items).filterMap held = touch value (items.filterMap held) := by
  rw [touch, List.filterMap_cons_some holds, filterMap_erase holds member nodup, touch]

/-- An item that is used gets a new value. -/
theorem filterMap_touch_update (nodup : items.Nodup) :
    (touch item items).filterMap (Function.update held item (some value)) =
      value :: (items.erase item).filterMap held := by
  rw [touch, List.filterMap_cons_some (Function.update_self ..)]
  congr 1
  apply List.filterMap_congr
  intro other member
  exact Function.update_of_ne (nodup.mem_erase_iff.mp member).1 _ _

/-! ### Stores -/

/-- The places of a store, the one used last first, hold the items that were used last. -/
structure Kept [DecidableEq β] (capacity : Nat) (held : α → Option β) (places : List α) (past : List β) : Prop where
  nodup : places.Nodup
  length : places.length = capacity
  items : places.filterMap held = (order [] past).take capacity

namespace Kept

variable [DecidableEq β] {place : α} {places : List α} {past : List β}

omit [DecidableEq α] in
theorem start (nodup : places.Nodup) (length : places.length = capacity) (empty : ∀ place ∈ places, held place = none) :
    Kept capacity held places [] := by
  refine ⟨nodup, length, ?_⟩
  rw [order_nil, List.take_nil, List.filterMap_eq_nil_iff]
  exact empty

omit [DecidableEq α] in
/-- The store has an item as long as few others were used since. -/
theorem mem (kept : Kept capacity held places past) :
    (∃ place ∈ places, held place = some value) ↔ value ∈ past ∧ distance value past < capacity := by
  rw [← mem_take_order, ← kept.items, List.mem_filterMap]

omit [DecidableEq α] in
theorem items_nodup (kept : Kept capacity held places past) : (places.filterMap held).Nodup := by
  rw [kept.items]
  exact (order_nodup List.nodup_nil).sublist (List.take_sublist _ _)

/-- An item that the store has is used. -/
theorem hit (kept : Kept capacity held places past) (member : place ∈ places) (holds : held place = some value) :
    Kept capacity held (touch place places) (value :: past) := by
  refine ⟨touch_nodup kept.nodup, (touch_perm member).length_eq.trans kept.length, ?_⟩
  have hasItem : value ∈ places.filterMap held := List.mem_filterMap.mpr ⟨place, member, holds⟩
  have short : (touch value (places.filterMap held)).length ≤ capacity := by
    rw [(touch_perm hasItem).length_eq, kept.items]
    exact List.length_take_le _ _
  calc (touch place places).filterMap held
      = touch value (places.filterMap held) := filterMap_touch holds member kept.items_nodup
    _ = (touch value (places.filterMap held)).take capacity := (List.take_of_length_le short).symm
    _ = (order [] (value :: past)).take capacity := by rw [kept.items, order_cons, ← take_touch]

/-- The places that are left hold all items but the last one, if the store has no room for it. -/
theorem rest (kept : Kept capacity held places past) (member : place ∈ places)
    (victim : held place = none ∨ ∃ front, places = front ++ [place] ∧ ∀ other ∈ places, (held other).isSome) :
    (places.erase place).filterMap held = (places.filterMap held).take (capacity - 1) := by
  cases victim with
  | inl empty =>
    have fewer : (places.filterMap held).length ≤ capacity - 1 := by
      rw [← filterMap_erase_none empty]
      have left : (places.erase place).length = capacity - 1 := by rw [List.length_erase_of_mem member, kept.length]
      exact Nat.le_trans (List.length_filterMap_le _ _) (Nat.le_of_eq left)
    rw [filterMap_erase_none empty, List.take_of_length_le fewer]
  | inr last =>
    obtain ⟨front, isLast, full⟩ := last
    have notBefore : place ∉ front := by
      have nodup := kept.nodup
      rw [isLast, List.nodup_append] at nodup
      exact fun inFront => nodup.2.2 place inFront place (List.mem_singleton.mpr rfl) rfl
    have all : (front.filterMap held).length = front.length := by
      rw [List.length_filterMap_eq_countP, List.countP_eq_length]
      exact fun other inFront => full other (isLast ▸ List.mem_append_left _ inFront)
    have length : front.length = capacity - 1 := by
      have whole := kept.length
      rw [isLast, List.length_append, List.length_singleton] at whole
      omega
    rw [isLast, List.erase_append_right _ notBefore, List.erase_cons_head, List.append_nil, List.filterMap_append,
      List.take_left' (all.trans length)]

/-- A new item takes a place, and the one that is last in order goes when all hold items. -/
theorem fill (kept : Kept capacity held places past) (member : place ∈ places) (missing : ∀ other ∈ places, held other ≠ some value)
    (victim : held place = none ∨ ∃ front, places = front ++ [place] ∧ ∀ other ∈ places, (held other).isSome) :
    Kept capacity (Function.update held place (some value)) (touch place places) (value :: past) := by
  refine ⟨touch_nodup kept.nodup, (touch_perm member).length_eq.trans kept.length, ?_⟩
  have absent : value ∉ places.filterMap held := by
    intro inItems
    obtain ⟨other, inPlaces, holds⟩ := List.mem_filterMap.mp inItems
    exact missing other inPlaces holds
  have positive : 0 < capacity := kept.length ▸ List.length_pos_of_mem member
  calc (touch place places).filterMap (Function.update held place (some value))
      = value :: (places.erase place).filterMap held := filterMap_touch_update kept.nodup
    _ = (touch value (places.filterMap held)).take capacity := by
      rw [kept.rest member victim, touch, List.erase_of_not_mem absent, List.take_cons positive]
    _ = (order [] (value :: past)).take capacity := by rw [kept.items, order_cons, ← take_touch]

end Kept

end Sniper.Recency

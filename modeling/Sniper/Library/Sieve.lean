import Sniper.Library.Recency

/-! What sets of one capacity keep of an order of uses, where each set has a part of the items of another one.

A set keeps the items of its class that were used last.  Of these the wider set keeps some,
which come first; the `rest` are those that the wider set does not keep. -/

namespace Sniper.Recency

variable {α : Type u} [DecidableEq α] {item last : α} {items base uses front : List α} {wide narrow : α → Bool} {capacity : Nat}

/-! ### Classes -/

theorem filter_erase_of_neg (outside : wide item = false) : (items.erase item).filter wide = items.filter wide := by
  induction items with
  | nil => rfl
  | cons first rest ih =>
    by_cases isFirst : first = item
    · subst isFirst
      rw [List.erase_cons_head, List.filter_cons_of_neg (by simp [outside])]
    · rw [List.erase_cons_tail (by simpa using isFirst), List.filter_cons, List.filter_cons, ih]

theorem filter_erase_of_pos (inside : wide item = true) : (items.erase item).filter wide = (items.filter wide).erase item := by
  induction items with
  | nil => rfl
  | cons first rest ih =>
    by_cases isFirst : first = item
    · subst isFirst
      rw [List.erase_cons_head, List.filter_cons_of_pos inside, List.erase_cons_head]
    · rw [List.erase_cons_tail (by simpa using isFirst), List.filter_cons, List.filter_cons, ih]
      split
      · rw [List.erase_cons_tail (by simpa using isFirst)]
      · rfl

theorem filter_touch_of_pos (inside : wide item = true) : (touch item items).filter wide = touch item (items.filter wide) := by
  rw [touch, List.filter_cons_of_pos inside, filter_erase_of_pos inside, touch]

theorem filter_touch_of_neg (outside : wide item = false) : (touch item items).filter wide = items.filter wide := by
  rw [touch, List.filter_cons_of_neg (by simp [outside]), filter_erase_of_neg outside]

/-- The items of a class are in the order of their own uses. -/
theorem filter_order : (order base uses).filter wide = order (base.filter wide) (uses.filter wide) := by
  induction uses with
  | nil => rfl
  | cons used rest ih =>
    cases inside : wide used with
    | true => rw [order_cons, filter_touch_of_pos inside, ih, List.filter_cons_of_pos inside, order_cons]
    | false => rw [order_cons, filter_touch_of_neg inside, ih, List.filter_cons_of_neg (by simp [inside])]

theorem touch_append (absent : item ∉ base) : touch item (items ++ base) = touch item items ++ base := by
  by_cases member : item ∈ items
  · rw [touch, List.erase_append_left _ member, touch, List.cons_append]
  · rw [touch, List.erase_append_right _ member, List.erase_of_not_mem absent, touch, List.erase_of_not_mem member, List.cons_append]

/-- Items that are never used stay at the end. -/
theorem order_eq_append (absent : ∀ used ∈ uses, used ∉ base) : order base uses = order [] uses ++ base := by
  induction uses with
  | nil => rfl
  | cons used rest ih =>
    rw [order_cons, ih fun other member => absent other (List.mem_cons_of_mem _ member),
      touch_append (absent used List.mem_cons_self), order_cons]

theorem map_touch {β : Type v} [DecidableEq β] {name : α → β} (apart : ∀ other ∈ items, name other = name item → other = item) :
    (touch item items).map name = touch (name item) (items.map name) := by
  rw [touch, touch, List.map_cons]
  congr 1
  induction items with
  | nil => rfl
  | cons first rest ih =>
    by_cases isFirst : first = item
    · subst isFirst
      rw [List.erase_cons_head, List.map_cons, List.erase_cons_head]
    · have different : name first ≠ name item := fun same => isFirst (apart first List.mem_cons_self same)
      rw [List.erase_cons_tail (by simpa using isFirst), List.map_cons, List.map_cons,
        List.erase_cons_tail (by simpa using different), ih fun other member => apart other (List.mem_cons_of_mem _ member)]

theorem map_order {β : Type v} [DecidableEq β] {name : α → β}
    (apart : ∀ used ∈ uses, ∀ other ∈ uses, name other = name used → other = used) :
    (order [] uses).map name = order [] (uses.map name) := by
  induction uses with
  | nil => rfl
  | cons used rest ih =>
    have later := ih fun one inRest other inRest' => apart one (List.mem_cons_of_mem _ inRest) other (List.mem_cons_of_mem _ inRest')
    rw [order_cons, List.map_cons, order_cons, ← later]
    refine map_touch fun other member => ?_
    have inRest : other ∈ rest := (mem_order.mp member).resolve_right List.not_mem_nil
    exact apart used List.mem_cons_self other (List.mem_cons_of_mem _ inRest)

/-! ### What a set keeps -/

/-- The items of a class that a set keeps. -/
def kept (capacity : Nat) (wide : α → Bool) (items : List α) : List α := (items.filter wide).take capacity

/-- The items of a class that a set keeps and a wider set does not keep. -/
def rest (capacity : Nat) (wide narrow : α → Bool) (items : List α) : List α :=
  (kept capacity narrow items).drop ((kept capacity wide items).countP narrow)

omit [DecidableEq α] in
theorem mem_of_mem_kept (member : item ∈ kept capacity wide items) : wide item = true :=
  (List.mem_filter.mp (List.mem_of_mem_take member)).2

omit [DecidableEq α] in
theorem kept_eq_append_kept (capacity : Nat) (items : List α) (narrower : ∀ item, narrow item = true → wide item = true) :
    ∃ others, items.filter narrow = (kept capacity wide items).filter narrow ++ others := by
  refine ⟨((items.filter wide).drop capacity).filter narrow, ?_⟩
  rw [kept, ← List.filter_append, List.take_append_drop, List.filter_filter]
  refine List.filter_congr fun item _ => ?_
  cases inside : narrow item with
  | true => simp [narrower item inside]
  | false => simp

omit [DecidableEq α] in
theorem kept_eq_append_rest (capacity : Nat) (items : List α) (narrower : ∀ item, narrow item = true → wide item = true) :
    kept capacity narrow items = (kept capacity wide items).filter narrow ++ rest capacity wide narrow items := by
  obtain ⟨others, split⟩ := kept_eq_append_kept capacity items narrower
  have fits : ((kept capacity wide items).filter narrow).length ≤ capacity :=
    Nat.le_trans (List.length_filter_le _ _) (List.length_take_le _ _)
  have shape : kept capacity narrow items = (kept capacity wide items).filter narrow ++
      others.take (capacity - ((kept capacity wide items).filter narrow).length) := by
    rw [kept, split, List.take_append, List.take_of_length_le fits]
  rw [rest, shape, List.countP_eq_length_filter, List.drop_left]

omit [DecidableEq α] in
theorem rest_eq (shape : kept capacity narrow items = (kept capacity wide items).filter narrow ++ uses) :
    rest capacity wide narrow items = uses := by
  rw [rest, shape, List.countP_eq_length_filter, List.drop_left]

/-! ### A use -/

theorem kept_touch_of_neg (outside : wide item = false) : kept capacity wide (touch item items) = kept capacity wide items := by
  rw [kept, filter_touch_of_neg outside, kept]

theorem kept_touch (inside : wide item = true) :
    kept capacity wide (touch item items) = (touch item (kept capacity wide items)).take capacity := by
  rw [kept, filter_touch_of_pos inside, take_touch, kept]

theorem kept_touch_of_mem (member : item ∈ kept capacity wide items) :
    kept capacity wide (touch item items) = touch item (kept capacity wide items) := by
  rw [kept_touch (mem_of_mem_kept member), List.take_of_length_le]
  rw [(touch_perm member).length_eq]
  exact List.length_take_le _ _

theorem kept_touch_of_notMem (inside : wide item = true) (absent : item ∉ kept capacity wide items)
    (full : (kept capacity wide items).length = capacity) (shape : kept capacity wide items = front ++ [last]) :
    kept capacity wide (touch item items) = item :: front := by
  rw [kept_touch inside, touch, List.erase_of_not_mem absent]
  rw [shape, List.length_append, List.length_singleton] at full
  rw [shape, ← full, List.take_succ_cons, List.take_left]

section Rest

variable (narrower : ∀ item, narrow item = true → wide item = true)

include narrower

theorem rest_touch_of_neg (outside : wide item = false) :
    rest capacity wide narrow (touch item items) = rest capacity wide narrow items := by
  have outside' : narrow item = false := by
    cases inside : narrow item with
    | true => rw [narrower item inside] at outside; cases outside
    | false => rfl
  rw [rest, kept_touch_of_neg outside, kept_touch_of_neg outside', rest]

theorem rest_touch_of_mem (member : item ∈ kept capacity wide items) :
    rest capacity wide narrow (touch item items) = rest capacity wide narrow items := by
  have before := kept_eq_append_rest capacity items narrower
  apply rest_eq
  rw [kept_touch_of_mem member]
  cases inside : narrow item with
  | false => rw [kept_touch_of_neg inside, filter_touch_of_neg inside, before]
  | true =>
    have keeps : item ∈ (kept capacity wide items).filter narrow := List.mem_filter.mpr ⟨member, inside⟩
    have member' : item ∈ kept capacity narrow items := by
      rw [before]
      exact List.mem_append_left _ keeps
    rw [kept_touch_of_mem member', filter_touch_of_pos inside, before, touch, List.erase_append_left _ keeps, touch,
      List.cons_append]

variable (absent : item ∉ kept capacity wide items) (full : (kept capacity wide items).length = capacity)
  (shape : kept capacity wide items = front ++ [last]) (inside : wide item = true)

include absent full shape inside

theorem rest_touch_of_outside (outside : narrow item = false) :
    rest capacity wide narrow (touch item items) = [last].filter narrow ++ rest capacity wide narrow items := by
  apply rest_eq
  rw [kept_touch_of_neg outside, kept_touch_of_notMem inside absent full shape, List.filter_cons_of_neg (by simp [outside]),
    kept_eq_append_rest _ _ narrower, shape, List.filter_append, List.append_assoc]

theorem rest_touch_of_mem_rest (member : item ∈ rest capacity wide narrow items) (inside' : narrow item = true) :
    rest capacity wide narrow (touch item items) = [last].filter narrow ++ (rest capacity wide narrow items).erase item := by
  have before := kept_eq_append_rest capacity items narrower
  have notFirst : item ∉ (kept capacity wide items).filter narrow := fun keeps => absent (List.mem_filter.mp keeps).1
  have member' : item ∈ kept capacity narrow items := by
    rw [before]
    exact List.mem_append_right _ member
  apply rest_eq
  rw [kept_touch_of_mem member', kept_touch_of_notMem inside absent full shape, List.filter_cons_of_pos inside', before, touch,
    List.erase_append_right _ notFirst, shape, List.filter_append, List.append_assoc, List.cons_append]

theorem rest_touch_of_notMem {front' : List α} {last' : α} (member : item ∉ rest capacity wide narrow items)
    (inside' : narrow item = true) (full' : (kept capacity narrow items).length = capacity)
    (shape' : rest capacity wide narrow items = front' ++ [last']) :
    rest capacity wide narrow (touch item items) = [last].filter narrow ++ front' ∧
      kept capacity narrow items = (kept capacity wide items).filter narrow ++ front' ++ [last'] := by
  have before := kept_eq_append_rest capacity items narrower
  rw [shape', ← List.append_assoc] at before
  have absent' : item ∉ kept capacity narrow items := by
    rw [kept_eq_append_rest _ _ narrower, List.mem_append]
    intro either
    cases either with
    | inl keeps => exact absent (List.mem_filter.mp keeps).1
    | inr keeps => exact member keeps
  refine ⟨rest_eq ?_, before⟩
  rw [kept_touch_of_notMem inside' absent' full' before, kept_touch_of_notMem inside absent full shape,
    List.filter_cons_of_pos inside', shape, List.filter_append, List.append_assoc, List.cons_append]

theorem rest_touch_of_nil (inside' : narrow item = true) (full' : (kept capacity narrow items).length = capacity)
    (nil : rest capacity wide narrow items = []) :
    rest capacity wide narrow (touch item items) = [] ∧ kept capacity narrow items = kept capacity wide items := by
  have before := kept_eq_append_rest capacity items narrower
  rw [nil, List.append_nil] at before
  have all : (kept capacity wide items).filter narrow = kept capacity wide items := by
    refine List.Sublist.eq_of_length (List.filter_sublist) ?_
    rw [← before, full, full']
  rw [all] at before
  refine ⟨rest_eq ?_, before⟩
  have absent' : item ∉ kept capacity narrow items := by
    rw [before]
    exact absent
  rw [kept_touch_of_notMem inside' absent' full' (before.trans shape), kept_touch_of_notMem inside absent full shape,
    List.append_nil, List.filter_cons_of_pos inside']
  have allFront : front.filter narrow = front := by
    rw [shape, List.filter_append] at all
    exact (List.append_inj' all (by
      have lengths := congrArg List.length all
      have less := List.length_filter_le narrow front
      have less' := List.length_filter_le narrow [last]
      simp only [List.length_append, List.length_singleton] at lengths less' ⊢
      omega)).1
  rw [allFront]

end Rest

/-! ### Nested sets -/

section Path

omit [DecidableEq α]

variable {level : Nat → α → Bool}

/-- What each of some nested sets adds to the wider ones. -/
def rests (capacity : Nat) (level : Nat → α → Bool) (items : List α) : Nat → List α
  | 0 => kept capacity (level 0) items
  | depth + 1 => rest capacity (level depth) (level (depth + 1)) items

/-- The items of the first sets, the widest one first. -/
def path (capacity : Nat) (level : Nat → α → Bool) (items : List α) (depth : Nat) : List α :=
  (List.range depth).flatMap (rests capacity level items)

theorem path_succ (depth : Nat) :
    path capacity level items (depth + 1) = path capacity level items depth ++ rests capacity level items depth := by
  rw [path, List.range_succ, List.flatMap_append, List.flatMap_singleton, path]

theorem path_mono (capacity : Nat) (level : Nat → α → Bool) (items : List α) {first second : Nat} (le : first ≤ second) :
    ∃ others, path capacity level items second = path capacity level items first ++ others := by
  induction le with
  | refl => exact ⟨[], (List.append_nil _).symm⟩
  | @step depth _ ih =>
    obtain ⟨others, shape⟩ := ih
    exact ⟨others ++ rests capacity level items depth, by rw [path_succ, shape, List.append_assoc]⟩

variable (nested : ∀ depth item, level (depth + 1) item = true → level depth item = true)

include nested

theorem level_mono {first second : Nat} (le : first ≤ second) (inside : level second item = true) : level first item = true := by
  induction le with
  | refl => exact inside
  | @step depth _ ih => exact ih (nested depth item inside)

theorem filter_filter_level {first second : Nat} (le : first ≤ second) :
    (items.filter (level first)).filter (level second) = items.filter (level second) := by
  rw [List.filter_filter]
  refine List.filter_congr fun item _ => ?_
  cases inside : level second item with
  | true => simp [level_mono nested le inside]
  | false => simp

/-- The sets down to a depth together have what the set at this depth keeps. -/
theorem filter_path (depth : Nat) :
    (path capacity level items (depth + 1)).filter (level depth) = kept capacity (level depth) items := by
  induction depth with
  | zero =>
    rw [path_succ, path, List.range_zero, List.flatMap_nil, List.nil_append, rests]
    exact List.filter_eq_self.mpr fun item member => mem_of_mem_kept member
  | succ depth ih =>
    have inside : (rests capacity level items (depth + 1)).filter (level (depth + 1)) = rests capacity level items (depth + 1) :=
      List.filter_eq_self.mpr fun item member => mem_of_mem_kept (List.mem_of_mem_drop member)
    rw [path_succ, List.filter_append, inside, ← filter_filter_level nested (Nat.le_succ depth), ih, rests,
      ← kept_eq_append_rest _ _ (nested depth)]

theorem mem_path_of_mem_kept {depth depth' : Nat} (less : depth < depth') (member : item ∈ kept capacity (level depth) items) :
    item ∈ path capacity level items depth' := by
  rw [← filter_path nested] at member
  obtain ⟨others, shape⟩ := path_mono capacity level items (Nat.succ_le_of_lt less)
  rw [shape]
  exact List.mem_append_left _ (List.mem_of_mem_filter member)

end Path

section Places

variable {level : Nat → α → Bool}

theorem le_idxOf_filter (absent : item ∉ kept capacity wide items) (full : (kept capacity wide items).length = capacity) :
    capacity ≤ (items.filter wide).idxOf item := by
  by_contra less
  refine absent ?_
  by_cases member : item ∈ items.filter wide
  · exact (List.mem_take_iff_idxOf_lt member).mpr (Nat.lt_of_not_le less)
  · rw [List.idxOf_of_notMem member] at less
    rw [kept, List.length_take] at full
    omega

variable (nested : ∀ depth item, level (depth + 1) item = true → level depth item = true) {pre post : List α} {depth : Nat}
  (shape : rests capacity level items depth = pre ++ item :: post) (notBefore : item ∉ pre)
  (absent : item ∉ path capacity level items depth) (inside : ∀ depth, level depth item = true)

include nested shape notBefore absent inside

/-- Below the depth at which an item is found, those that were seen before it and are in its class were used after it. -/
theorem countP_visited {depth' : Nat} (le : depth ≤ depth') :
    (path capacity level items depth ++ pre).countP (level depth') = (items.filter (level depth')).idxOf item ∧
      (path capacity level items depth ++ pre).countP (level depth') < capacity := by
  have keeps : kept capacity (level depth) items =
      (path capacity level items depth ++ pre).filter (level depth) ++ item :: post.filter (level depth) := by
    rw [← filter_path nested, path_succ, shape, ← List.append_assoc, List.filter_append, List.filter_cons_of_pos (inside depth)]
  have split : items.filter (level depth) = kept capacity (level depth) items ++ (items.filter (level depth)).drop capacity :=
    (List.take_append_drop _ _).symm
  constructor
  · have none : item ∉ (path capacity level items depth ++ pre).filter (level depth') := by
      rw [List.mem_filter, List.mem_append]
      intro member
      exact member.1.elim absent notBefore
    rw [← filter_filter_level nested le, split, keeps, List.append_assoc, List.filter_append, filter_filter_level nested le,
      List.cons_append, List.filter_cons_of_pos (inside depth'), List.idxOf_append_of_notMem none, List.idxOf_cons_self,
      Nat.add_zero, List.countP_eq_length_filter]
  · have short : (kept capacity (level depth) items).length ≤ capacity := List.length_take_le _ _
    rw [keeps, List.length_append, List.length_cons] at short
    have fewer : (path capacity level items depth ++ pre).countP (level depth') ≤
        (path capacity level items depth ++ pre).countP (level depth) :=
      List.countP_mono_left fun other _ holds => level_mono nested le holds
    rw [List.countP_eq_length_filter (p := level depth)] at fewer
    omega

/-- The number of items seen before an item that are in its class is its place in the order, where the set keeps it. -/
theorem countP_visited_eq_iff {depth' place : Nat} (full : (kept capacity (level depth') items).length = capacity)
    (small : place < capacity) :
    (path capacity level items depth ++ pre).countP (level depth') = place ↔ (items.filter (level depth')).idxOf item = place := by
  by_cases le : depth ≤ depth'
  · rw [(countP_visited nested shape notBefore absent inside le).1]
  · have less : depth' < depth := Nat.lt_of_not_le le
    have notKept : item ∉ kept capacity (level depth') items := fun member => absent (mem_path_of_mem_kept nested less member)
    have far := le_idxOf_filter notKept full
    have many : capacity ≤ (path capacity level items depth ++ pre).countP (level depth') := by
      obtain ⟨others, longer⟩ := path_mono capacity level items (Nat.succ_le_of_lt less)
      rw [longer, List.append_assoc, List.countP_append, List.countP_eq_length_filter, filter_path nested, full]
      exact Nat.le_add_right _ _
    omega

end Places

end Sniper.Recency

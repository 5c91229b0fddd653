import Mathlib.Data.Nat.Count
import Mathlib.Data.List.Forall2

/-! Lists in which some elements are dead: the mark of the first survivor, and the numbers of the survivors. -/

namespace Sniper.Survivors

variable {α : Type u} {dead flag : α → Bool} {elements others : List α} {element : α}

/-! ### The first survivor -/

/-- The first survivor is flagged, and no other one. -/
def Marked (dead flag : α → Bool) : List α → Prop
  | [] => True
  | element :: rest =>
    if dead element then Marked dead flag rest
    else flag element = true ∧ ∀ other ∈ rest, dead other = false → flag other = false

/-- No survivor but the first one is flagged. -/
def Loose (dead flag : α → Bool) : List α → Prop
  | [] => True
  | element :: rest =>
    if dead element then Loose dead flag rest else ∀ other ∈ rest, dead other = false → flag other = false

/-- Sets the flag of the first survivor. -/
def markFirst (dead : α → Bool) (mark : α → α) : List α → List α
  | [] => []
  | element :: rest => if dead element then element :: markFirst dead mark rest else mark element :: rest

theorem map_markFirst {β : Type v} {read : α → β} (mark : α → α) (keeps : ∀ element, read (mark element) = read element) :
    (markFirst dead mark elements).map read = elements.map read := by
  induction elements with
  | nil => rfl
  | cons element rest ih =>
    unfold markFirst
    split
    · rw [List.map_cons, List.map_cons, ih]
    · rw [List.map_cons, List.map_cons, keeps]

theorem Loose.of_unflagged (unflagged : ∀ element ∈ elements, dead element = false → flag element = false) :
    Loose dead flag elements := by
  induction elements with
  | nil => trivial
  | cons element rest ih =>
    have behind : ∀ other ∈ rest, dead other = false → flag other = false :=
      fun other member => unflagged other (List.mem_cons_of_mem element member)
    unfold Loose
    split
    · exact ih behind
    · exact behind

/-- Elements may die: what is flagged is no more than the first survivor. -/
theorem Marked.loose (marked : Marked dead flag elements)
    (dies : List.Forall₂ (fun before after => (dead before = true → dead after = true) ∧ flag after = flag before) elements others) :
    Loose dead flag others := by
  induction dies with
  | nil => trivial
  | @cons before after rest rest' dying dies ih =>
    unfold Marked at marked
    unfold Loose
    split at marked
    case isTrue gone =>
      rw [if_pos (dying.1 gone)]
      exact ih marked
    case isFalse =>
      have behind : ∀ other ∈ rest', dead other = false → flag other = false := by
        intro other member survives
        obtain ⟨index, inside, isOther⟩ := List.mem_iff_getElem.mp member
        have pair := dies.get (i := index) (dies.length_eq ▸ inside) inside
        simp only [List.get_eq_getElem, isOther] at pair
        rw [pair.2]
        apply marked.2 _ (List.getElem_mem _)
        exact Bool.eq_false_iff.mpr fun gone => Bool.false_ne_true (survives.symm.trans (pair.1 gone))
      split
      · exact .of_unflagged behind
      · exact behind

theorem Loose.markFirst (loose : Loose dead flag elements) (mark : α → α) (flags : ∀ element, flag (mark element) = true)
    (keeps : ∀ element, dead (mark element) = dead element) : Marked dead flag (markFirst dead mark elements) := by
  induction elements with
  | nil => trivial
  | cons element rest ih =>
    unfold Loose at loose
    unfold Survivors.markFirst
    split at loose
    case isTrue gone =>
      rw [if_pos gone, Marked, if_pos gone]
      exact ih loose
    case isFalse survives =>
      rw [if_neg survives, Marked, keeps, if_neg survives]
      exact ⟨flags element, loose⟩

theorem marked_map {β : Type v} {dead flag : β → Bool} (read : α → β) :
    Marked dead flag (elements.map read) ↔ Marked (fun element => dead (read element)) (fun element => flag (read element)) elements := by
  induction elements with
  | nil => exact Iff.rfl
  | cons element rest ih =>
    rw [List.map_cons, Marked, Marked]
    split
    · exact ih
    · simp only [List.forall_mem_map]

/-- Only the flags and the deaths matter. -/
theorem Marked.congr (marked : Marked dead flag elements)
    (same : others.map (fun element => (dead element, flag element)) = elements.map fun element => (dead element, flag element)) :
    Marked dead flag others := by
  have pairs : Marked Prod.fst Prod.snd (elements.map fun element => (dead element, flag element)) := (marked_map _).mpr marked
  rw [← same] at pairs
  exact (marked_map fun element => (dead element, flag element)).mp pairs

/-- Exactly one survivor is flagged. -/
theorem Marked.countP (marked : Marked dead flag elements) (survives : ∃ element ∈ elements, dead element = false) :
    elements.countP (fun element => !dead element && flag element) = 1 := by
  induction elements with
  | nil => simp at survives
  | cons element rest ih =>
    unfold Marked at marked
    split at marked
    case isTrue gone =>
      rw [List.countP_cons_of_neg (by simp [gone])]
      apply ih marked
      obtain ⟨other, member, lives⟩ := survives
      cases List.mem_cons.mp member with
      | inl same => simp [same, gone] at lives
      | inr behind => exact ⟨other, behind, lives⟩
    case isFalse lives =>
      rw [List.countP_cons_of_pos (by simp [lives, marked.1])]
      have none_ : rest.countP (fun element => !dead element && flag element) = 0 := by
        apply List.countP_eq_zero.mpr
        intro other member
        cases gone : dead other with
        | true => simp
        | false => simp [marked.2 other member gone]
      rw [none_]

/-! ### The numbers of the survivors -/

/-- The survivors of a stretch have consecutive numbers. -/
theorem filter_map_count (lives : Nat → Bool) (start base count : Nat) :
    ((List.range' base count).filter lives).map (fun index => start + Nat.count (lives ·) index) =
      List.range' (start + Nat.count (lives ·) base) (Nat.count (lives ·) (base + count) - Nat.count (lives ·) base) := by
  induction count generalizing base with
  | zero => simp
  | succ count ih =>
    have next : Nat.count (lives ·) (base + 1) = Nat.count (lives ·) base + if lives base then 1 else 0 := Nat.count_succ _ _
    have most : Nat.count (lives ·) (base + 1) ≤ Nat.count (lives ·) (base + (count + 1)) := Nat.count_monotone _ (by omega)
    rw [List.range'_succ, List.filter_cons]
    rw [show base + (count + 1) = base + 1 + count by omega] at most ⊢
    cases survives : lives base with
    | true =>
      rw [survives, if_pos rfl] at next
      have more : Nat.count (lives ·) (base + 1 + count) - Nat.count (lives ·) base =
          Nat.count (lives ·) (base + 1 + count) - Nat.count (lives ·) (base + 1) + 1 := by
        omega
      rw [if_pos rfl, List.map_cons, ih, more, List.range'_succ, next]
      rfl
    | false =>
      rw [survives, if_neg Bool.false_ne_true] at next
      rw [if_neg Bool.false_ne_true, ih, next]
      rfl

end Sniper.Survivors

import Mathlib.Order.Lattice
import Mathlib.Data.List.Pairwise

/-! Maps that keep their entries in the order of the keys. -/

namespace Sniper

structure OrderedMap (κ : Type u) (β : Type v) [LinearOrder κ] where
  entries : List (κ × β)
  sorted : entries.Pairwise fun earlier later => earlier.1 < later.1

namespace OrderedMap

variable {κ : Type u} {β : Type v} [LinearOrder κ] {map : OrderedMap κ β} {key other : κ} {value : β} {entry : κ × β}

def empty : OrderedMap κ β := ⟨[], .nil⟩

/-- Sets the value of a key, whether or not the map has it. -/
def insert (key : κ) (value : β) (map : OrderedMap κ β) : OrderedMap κ β where
  entries := map.entries.filter (fun entry => entry.1 < key) ++ (key, value) :: map.entries.filter fun entry => key < entry.1
  sorted := by
    apply List.pairwise_append.mpr
    refine ⟨map.sorted.filter _, List.pairwise_cons.mpr ⟨?_, map.sorted.filter _⟩, ?_⟩
    · intro entry member
      exact of_decide_eq_true (List.mem_filter.mp member).2
    · intro earlier before later after
      have less : earlier.1 < key := of_decide_eq_true (List.mem_filter.mp before).2
      cases List.mem_cons.mp after with
      | inl same => exact same ▸ less
      | inr behind => exact lt_trans less (of_decide_eq_true (List.mem_filter.mp behind).2)

def erase (key : κ) (map : OrderedMap κ β) : OrderedMap κ β where
  entries := map.entries.filter fun entry => entry.1 ≠ key
  sorted := map.sorted.filter _

/-- The first entry with a greater key. -/
def upperBound (map : OrderedMap κ β) (key : κ) : Option (κ × β) :=
  map.entries.find? fun entry => key < entry.1

instance : Membership (κ × β) (OrderedMap κ β) := ⟨fun map entry => entry ∈ map.entries⟩

theorem mem_def : entry ∈ map ↔ entry ∈ map.entries := Iff.rfl

@[simp] theorem not_mem_empty : ¬entry ∈ (empty : OrderedMap κ β) := List.not_mem_nil

@[simp] theorem mem_insert : entry ∈ map.insert key value ↔ entry = (key, value) ∨ entry ∈ map ∧ entry.1 ≠ key := by
  simp only [mem_def, insert, List.mem_append, List.mem_filter, decide_eq_true_eq, List.mem_cons]
  constructor
  · intro member
    obtain ⟨held, less⟩ | same | ⟨held, more⟩ := member
    · exact .inr ⟨held, ne_of_lt less⟩
    · exact .inl same
    · exact .inr ⟨held, ne_of_gt more⟩
  · intro member
    obtain same | ⟨held, different⟩ := member
    · exact .inr (.inl same)
    · cases lt_or_gt_of_ne different with
      | inl less => exact .inl ⟨held, less⟩
      | inr more => exact .inr (.inr ⟨held, more⟩)

@[simp] theorem mem_erase : entry ∈ map.erase key ↔ entry ∈ map ∧ entry.1 ≠ key := by
  simp only [mem_def, erase, List.mem_filter, decide_eq_true_eq]

/-- A key has one value. -/
theorem eq_of_key_eq {entry entry' : κ × β} (member : entry ∈ map) (member' : entry' ∈ map) (same : entry.1 = entry'.1) :
    entry = entry' := by
  obtain ⟨first, inside, rfl⟩ := List.mem_iff_getElem.mp member
  obtain ⟨second, inside', rfl⟩ := List.mem_iff_getElem.mp member'
  have sorted := List.pairwise_iff_getElem.mp map.sorted
  obtain before | equal | after := Nat.lt_trichotomy first second
  · exact absurd same (ne_of_lt (sorted first second inside inside' before))
  · subst equal
    rfl
  · exact absurd same (ne_of_gt (sorted second first inside' inside after))

theorem upperBound_mem (found : map.upperBound key = some entry) : entry ∈ map :=
  List.mem_of_find?_eq_some found

theorem upperBound_lt (found : map.upperBound key = some entry) : key < entry.1 := by
  obtain ⟨greater, -⟩ := List.find?_eq_some_iff_append.mp found
  exact of_decide_eq_true greater

theorem upperBound_least {entry' : κ × β} (found : map.upperBound key = some entry) (member : entry' ∈ map)
    (greater : key < entry'.1) : entry.1 ≤ entry'.1 := by
  obtain ⟨-, before, after, parts, nothing⟩ := List.find?_eq_some_iff_append.mp found
  have sorted := map.sorted
  rw [mem_def, parts] at member
  rw [parts] at sorted
  cases List.mem_append.mp member with
  | inl early => exact absurd greater (by simpa using nothing entry' early)
  | inr late =>
    cases List.mem_cons.mp late with
    | inl same => rw [same]
    | inr behind => exact le_of_lt (List.rel_of_pairwise_cons (List.pairwise_append.mp sorted).2.1 behind)

/-- How to find the upper bound. -/
theorem upperBound_eq_some (member : entry ∈ map) (greater : key < entry.1)
    (least : ∀ entry' ∈ map, key < entry'.1 → entry.1 ≤ entry'.1) : map.upperBound key = some entry := by
  cases found : map.upperBound key with
  | none =>
    have nothing := List.find?_eq_none.mp found entry member
    exact absurd greater (by simpa using nothing)
  | some entry' =>
    have first := upperBound_least found member greater
    have second := least entry' (upperBound_mem found) (upperBound_lt found)
    rw [eq_of_key_eq (upperBound_mem found) member (le_antisymm first second)]

theorem upperBound_eq_none (nothing : ∀ entry ∈ map, ¬key < entry.1) : map.upperBound key = none := by
  apply List.find?_eq_none.mpr
  intro entry member
  simpa using nothing entry member

/-- A map with the same entries from one key on has the same upper bounds there. -/
theorem upperBound_congr {map' : OrderedMap κ β} (same : ∀ entry : κ × β, key < entry.1 → (entry ∈ map' ↔ entry ∈ map)) :
    map'.upperBound key = map.upperBound key := by
  cases found : map.upperBound key with
  | none =>
    apply upperBound_eq_none
    intro entry member greater
    have nothing := List.find?_eq_none.mp found entry ((same entry greater).mp member)
    exact absurd greater (by simpa using nothing)
  | some entry =>
    have greater := upperBound_lt found
    apply upperBound_eq_some ((same entry greater).mpr (upperBound_mem found)) greater
    intro entry' member more
    exact upperBound_least found ((same entry' more).mp member) more

/-- The value of a key. -/
def find (map : OrderedMap κ β) (key : κ) : Option β := (map.entries.find? fun entry => entry.1 = key).map Prod.snd

theorem find_eq_some : map.find key = some value ↔ (key, value) ∈ map := by
  unfold find
  constructor
  · intro found
    obtain ⟨entry, inside, isValue⟩ := Option.map_eq_some_iff.mp found
    have isKey : entry.1 = key := by simpa using List.find?_some inside
    have member := List.mem_of_find?_eq_some inside
    rw [← isKey, ← isValue]
    exact member
  · intro member
    cases inside : map.entries.find? fun entry => entry.1 = key with
    | none => simpa using List.find?_eq_none.mp inside (key, value) member
    | some entry =>
      have isKey : entry.1 = key := by simpa using List.find?_some inside
      have same := eq_of_key_eq (List.mem_of_find?_eq_some inside) member isKey
      rw [same]
      rfl

theorem find_eq_none : map.find key = none ↔ ∀ value, (key, value) ∉ map := by
  constructor
  · intro missing value member
    cases missing.symm.trans (find_eq_some.mpr member)
  · intro missing
    cases found : map.find key with
    | none => rfl
    | some value => exact absurd (find_eq_some.mp found) (missing value)

theorem find_congr {map' : OrderedMap κ β} {key' : κ}
    (same : ∀ value, (key', value) ∈ map' ↔ (key, value) ∈ map) : map'.find key' = map.find key := by
  cases found : map.find key with
  | none => exact find_eq_none.mpr fun value member => find_eq_none.mp found value ((same value).mp member)
  | some value => exact find_eq_some.mpr ((same value).mpr (find_eq_some.mp found))

@[simp] theorem find_empty : (empty : OrderedMap κ β).find key = none := rfl

@[simp] theorem find_insert_self : (map.insert key value).find key = some value :=
  find_eq_some.mpr (mem_insert.mpr (.inl rfl))

theorem find_insert_of_ne (different : other ≠ key) : (map.insert key value).find other = map.find other :=
  find_congr fun _ => by simp [different]

@[simp] theorem find_erase_self : (map.erase key).find key = none :=
  find_eq_none.mpr fun _ => by simp

theorem find_erase_of_ne (different : other ≠ key) : (map.erase key).find other = map.find other :=
  find_congr fun _ => by simp [different]

theorem ext {map' : OrderedMap κ β} (same : map'.entries = map.entries) : map' = map := by
  cases map
  cases map'
  cases same
  rfl

theorem insert_last (last : ∀ entry ∈ map, entry.1 < key) : (map.insert key value).entries = map.entries ++ [(key, value)] := by
  have before : map.entries.filter (fun entry => entry.1 < key) = map.entries :=
    List.filter_eq_self.mpr fun entry member => by simpa using last entry member
  have behind : map.entries.filter (fun entry => key < entry.1) = [] :=
    List.filter_eq_nil_iff.mpr fun entry member => by simpa using le_of_lt (last entry member)
  simp only [insert, before, behind]

theorem foldl_insert (entries : List (κ × β))
    (sorted : (map.entries ++ entries).Pairwise fun earlier later => earlier.1 < later.1) :
    (entries.foldl (fun map entry => map.insert entry.1 entry.2) map).entries = map.entries ++ entries := by
  induction entries generalizing map with
  | nil => exact (List.append_nil _).symm
  | cons entry entries ih =>
    have inserted : (map.insert entry.1 entry.2).entries = map.entries ++ [entry] :=
      insert_last fun earlier member => (List.pairwise_append.mp sorted).2.2 earlier member entry List.mem_cons_self
    rw [List.foldl_cons, ih, inserted, List.append_assoc]
    · rfl
    · rwa [inserted, List.append_assoc]

/-- Inserting all entries of a map gives it back. -/
theorem foldl_insert_empty (map : OrderedMap κ β) :
    map.entries.foldl (fun map entry => map.insert entry.1 entry.2) empty = map :=
  ext (foldl_insert map.entries map.sorted)

end OrderedMap

end Sniper

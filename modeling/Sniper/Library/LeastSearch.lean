import Mathlib.Order.Lattice

/-! The search for the least key, in a loop that starts from a bound. -/

namespace Sniper.LeastSearch

variable {α : Type w} {ι : Type u} {τ : Type v} [LinearOrder τ] {start found : ι × τ} {pairs : List (ι × τ)}

/-- A pair takes over where its key is less than the least one so far. -/
def search (start : ι × τ) (pairs : List (ι × τ)) : ι × τ :=
  pairs.foldl (fun best pair => if pair.2 < best.2 then pair else best) start

theorem foldl_eq_search (name : α → ι) (key : α → τ) (start : ι × τ) (items : List α) :
    items.foldl (fun best item => if key item < best.2 then (name item, key item) else best) start =
      search start (items.map fun item => (name item, key item)) := by
  rw [search, List.foldl_map]

/-- A pair with the least of all keys. -/
structure Least (pairs : List (ι × τ)) (found : ι × τ) : Prop where
  mem : found ∈ pairs
  le : ∀ pair ∈ pairs, found.2 ≤ pair.2

/-- The search finds a pair with the least key, unless no key is below the bound. -/
theorem search_cases (start : ι × τ) (pairs : List (ι × τ)) :
    search start pairs = start ∧ (∀ pair ∈ pairs, start.2 ≤ pair.2) ∨
      (search start pairs).2 < start.2 ∧ Least pairs (search start pairs) := by
  induction pairs generalizing start with
  | nil => exact .inl ⟨rfl, fun _ none_ => absurd none_ List.not_mem_nil⟩
  | cons pair rest ih =>
    by_cases less : pair.2 < start.2
    · have taken : search start (pair :: rest) = search pair rest := by
        rw [search, List.foldl_cons, if_pos less, ← search]
      rw [taken]
      right
      rcases ih pair with ⟨same, above⟩ | ⟨lower, least⟩
      · rw [same]
        exact ⟨less, List.mem_cons_self, List.forall_mem_cons.mpr ⟨le_refl _, above⟩⟩
      · exact ⟨lt_trans lower less, List.mem_cons_of_mem _ least.mem, List.forall_mem_cons.mpr ⟨le_of_lt lower, least.le⟩⟩
    · have left : search start (pair :: rest) = search start rest := by
        rw [search, List.foldl_cons, if_neg less, ← search]
      have above : start.2 ≤ pair.2 := le_of_not_gt less
      rw [left]
      rcases ih start with ⟨same, behind⟩ | ⟨lower, least⟩
      · exact .inl ⟨same, List.forall_mem_cons.mpr ⟨above, behind⟩⟩
      · right
        have below := le_trans (le_of_lt lower) above
        exact ⟨lower, List.mem_cons_of_mem _ least.mem, List.forall_mem_cons.mpr ⟨below, least.le⟩⟩

end Sniper.LeastSearch

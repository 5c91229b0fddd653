import Mathlib.Data.List.SplitBy

/-! A list cut into blocks of related neighbours, item by item from the left. -/

namespace Sniper.Blocks

variable {α : Type u} {related : α → α → Bool} {items front : List α} {closed : List (List α)} {last item : α}

theorem getLast?_of_cut (cut : items.splitBy related = closed ++ [front ++ [last]]) : items.getLast? = some last := by
  have flat := (List.splitBy_eq_iff.mp cut).1
  simp [flat]

/-- An item that is related to the last one lengthens the last block. -/
theorem splitBy_extend (cut : items.splitBy related = closed ++ [front ++ [last]]) (joins : related last item = true) :
    (items ++ [item]).splitBy related = closed ++ [front ++ [last] ++ [item]] := by
  obtain ⟨flat, nonempty, chains, breaks⟩ := List.splitBy_eq_iff.mp cut
  refine List.splitBy_eq_iff.mpr ⟨by simp [flat], ?_, ?_, ?_⟩
  · simp only [List.mem_append, List.mem_singleton, not_or] at nonempty ⊢
    exact ⟨nonempty.1, by simp⟩
  · intro block member
    obtain early | isLast := List.mem_append.mp member
    · exact chains block (List.mem_append_left _ early)
    · rw [List.mem_singleton.mp isLast]
      have open_block := chains (front ++ [last]) List.mem_concat_self
      exact List.isChain_append.mpr ⟨open_block, List.isChain_singleton item, by simpa using joins⟩
  · obtain ⟨before, -, across⟩ := List.isChain_append.mp breaks
    refine List.isChain_append.mpr ⟨before, List.isChain_singleton _, ?_⟩
    intro earlier isEarlier block isBlock
    obtain ⟨some, here, apart⟩ := across earlier isEarlier _ rfl
    rw [List.head?_singleton, Option.mem_some_iff] at isBlock
    subst isBlock
    refine ⟨some, List.concat_ne_nil _ _, ?_⟩
    rw [List.head_append_of_ne_nil here]
    exact apart

/-- An item that is not starts a new one. -/
theorem splitBy_close (cut : items.splitBy related = closed ++ [front ++ [last]]) (separate : related last item = false) :
    (items ++ [item]).splitBy related = closed ++ [front ++ [last]] ++ [[item]] := by
  have apart : ∀ earlier ∈ items.getLast?, ∀ later ∈ [item].head?, related earlier later = false := by
    simpa [getLast?_of_cut cut] using separate
  rw [List.splitBy_append apart, cut]
  rfl

end Sniper.Blocks

import Mathlib.Algebra.BigOperators.Group.Finset.Basic
import Mathlib.Combinatorics.Hall.Finite
import Mathlib.Data.Fintype.Prod

/-! Items that are served at places, one item a place and round. -/

namespace Sniper

variable {ι κ P : Type} [Fintype ι] [DecidableEq P]

/-- Every item has a choice of places, and gets one of them in some round. -/
def Servable (choices : ι → Finset P) (rounds : Nat) : Prop :=
  ∃ served : ι → P × Fin rounds, served.Injective ∧ ∀ item, (served item).1 ∈ choices item

variable {choices : ι → Finset P} {rounds : Nat}

/-- Hall's condition: no set of places is the only choice of too many items. -/
theorem servable_iff :
    Servable choices rounds ↔ ∀ places : Finset P, (Finset.univ.filter fun item => choices item ⊆ places).card ≤ places.card * rounds := by
  have slots (places : Finset P) : (places ×ˢ (Finset.univ : Finset (Fin rounds))).card = places.card * rounds := by
    rw [Finset.card_product, Finset.card_univ, Fintype.card_fin]
  have hall := Finset.all_card_le_biUnion_card_iff_existsInjective' fun item => choices item ×ˢ (Finset.univ : Finset (Fin rounds))
  have union (items : Finset ι) : (items.biUnion fun item => choices item ×ˢ (Finset.univ : Finset (Fin rounds))) =
      items.biUnion choices ×ˢ Finset.univ := by
    ext slot
    simp
  have serves : Servable choices rounds ↔
      ∃ served : ι → P × Fin rounds, served.Injective ∧ ∀ item, served item ∈ choices item ×ˢ Finset.univ := by
    simp only [Servable, Finset.mem_product, Finset.mem_univ, and_true]
  rw [serves, ← hall]
  constructor
  · intro enough places
    have most := enough (Finset.univ.filter fun item => choices item ⊆ places)
    rw [union, slots] at most
    refine most.trans (Nat.mul_le_mul_right rounds (Finset.card_le_card ?_))
    exact Finset.biUnion_subset.mpr fun item member => (Finset.mem_filter.mp member).2
  · intro enough items
    rw [union, slots]
    refine (Finset.card_le_card fun item member => ?_).trans (enough (items.biUnion choices))
    exact Finset.mem_filter.mpr ⟨Finset.mem_univ item, Finset.subset_biUnion_of_mem choices member⟩

/-- Where the choices of an item are those of its kind, the numbers of items of each kind decide. -/
theorem servable_iff_counts [Fintype κ] [DecidableEq κ] {kind : ι → κ} {choices : κ → Finset P} {counts : κ → Nat}
    (counted : ∀ which, (Finset.univ.filter fun item => kind item = which).card = counts which) :
    Servable (fun item => choices (kind item)) rounds ↔
      ∀ places : Finset P, (∑ which with choices which ⊆ places, counts which) ≤ places.card * rounds := by
  rw [servable_iff]
  refine forall_congr' fun places => ?_
  have fibers := Finset.card_eq_sum_card_fiberwise (s := Finset.univ.filter fun item => choices (kind item) ⊆ places)
    (t := Finset.univ.filter fun which => choices which ⊆ places) (f := kind) (fun item member => by simpa using member)
  have each (which : κ) (member : which ∈ Finset.univ.filter fun which => choices which ⊆ places) :
      ((Finset.univ.filter fun item => choices (kind item) ⊆ places).filter fun item => kind item = which).card = counts which := by
    rw [← counted which, Finset.filter_filter]
    congr 1
    ext item
    simp only [Finset.mem_filter, Finset.mem_univ, true_and] at member ⊢
    exact ⟨fun both => both.2, fun same => ⟨same ▸ member, same⟩⟩
  rw [fibers, Finset.sum_congr rfl each]

omit [Fintype ι] [DecidableEq P] in
/-- One round serves every item at a place of its own. -/
theorem servable_one : Servable choices 1 ↔ ∃ served : ι → P, served.Injective ∧ ∀ item, served item ∈ choices item := by
  constructor
  · rintro ⟨served, injective, chosen⟩
    refine ⟨fun item => (served item).1, fun first second same => injective (Prod.ext same (Subsingleton.elim _ _)), chosen⟩
  · rintro ⟨served, injective, chosen⟩
    exact ⟨fun item => (served item, 0), fun first second same => injective (Prod.ext_iff.mp same).1, chosen⟩

end Sniper

import Mathlib.Data.Finset.Card
import Mathlib.Tactic.Linarith

/-!
# Quorum intersection

Two large subsets of one finite universe meet outside a small set of faulty members.
Nothing here knows what a member is: the round subscriber and the proof verifier both
instantiate it with the verification keys of a notary group.

The sizes are stated once, as `n + f < a + b`. `two_thirds_overlap` says that quorums of
two thirds, rounded up, satisfy it for `f = ⌊(n - 1) / 3⌋`.
-/

namespace Infra.Quorum

variable {α : Type*} [DecidableEq α]

/-- Two subsets with more members than the universe and the faulty set share a sound member. -/
theorem exists_mem_inter_not_mem {u a b faulty : Finset α} (ha : a ⊆ u) (hb : b ⊆ u)
    (h : u.card + faulty.card < a.card + b.card) : ∃ x, x ∈ a ∧ x ∈ b ∧ x ∉ faulty := by
  have hunion : (a ∪ b).card ≤ u.card := Finset.card_le_card (Finset.union_subset ha hb)
  have hsum : (a ∪ b).card + (a ∩ b).card = a.card + b.card := Finset.card_union_add_card_inter a b
  have hlt : faulty.card < (a ∩ b).card := by omega
  obtain ⟨x, hx, hf⟩ := Finset.exists_mem_notMem_of_card_lt_card hlt
  obtain ⟨hxa, hxb⟩ := Finset.mem_inter.mp hx
  exact ⟨x, hxa, hxb, hf⟩

/--
**Two thirds, rounded up, overlap in more than a third.**

`f` is an integer so that the bound is unsatisfiable for the empty universe, where
`⌊(n - 1) / 3⌋` is `-1`.
-/
theorem two_thirds_overlap {n f a b : ℕ} (ha : (2 * n + 2) / 3 ≤ a) (hb : (2 * n + 2) / 3 ≤ b)
    (hf : (f : ℤ) ≤ ((n : ℤ) - 1) / 3) : n + f < a + b := by
  omega

end Infra.Quorum

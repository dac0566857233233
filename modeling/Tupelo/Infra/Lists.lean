import Mathlib.Data.List.Forall2

/-!
# Facts about lists

The last element with a property, and what holds of all elements after one of them was changed.
-/

namespace Infra

variable {α : Type} {l : List α}

/-- The last element with a property. -/
theorem exists_last (p : α → Prop) : ∀ {l : List α}, (∃ a ∈ l, p a) →
    ∃ pre a post, l = pre ++ a :: post ∧ p a ∧ ∀ b ∈ post, ¬ p b
  | [], h => by simp at h
  | x :: l, h => by
    by_cases hl : ∃ a ∈ l, p a
    · obtain ⟨pre, a, post, rfl, ha, hpost⟩ := exists_last p hl
      exact ⟨x :: pre, a, post, rfl, ha, hpost⟩
    · refine ⟨[], x, l, rfl, ?_, fun b hb hpb => hl ⟨b, hb, hpb⟩⟩
      obtain ⟨a, ha, hpa⟩ := h
      rcases List.mem_cons.mp ha with rfl | ha
      · exact hpa
      · exact absurd ⟨a, ha, hpa⟩ hl

theorem exists_last_of_mem {a : α} (h : a ∈ l) : ∃ pre post, l = pre ++ a :: post ∧ a ∉ post := by
  obtain ⟨pre, _, post, hl, rfl, hpost⟩ := exists_last (· = a) ⟨a, h, rfl⟩
  exact ⟨pre, post, hl, fun hmem => hpost _ hmem rfl⟩

theorem forall_mem_modify {p : α → Prop} {f : α → α} (hf : ∀ x, p x → p (f x)) {i : Nat}
    (h : ∀ x ∈ l, p x) : ∀ x ∈ l.modify i f, p x := by
  intro x hx
  obtain ⟨j, hj⟩ := List.mem_iff_getElem?.mp hx
  rw [List.getElem?_modify] at hj
  obtain ⟨y, hy, hxy⟩ := Option.map_eq_some_iff.mp hj
  have hpy := h y (List.mem_of_getElem? hy)
  rw [← hxy]
  split
  · exact hf y hpy
  · exact hpy

theorem getElem?_of_take {k i : Nat} {x : α} (h : (l.take k)[i]? = some x) : l[i]? = some x := by
  rw [List.getElem?_take] at h
  split at h
  · exact h
  · cases h

theorem exists_of_forall₂ {β : Type} {R : α → β → Prop} {m : List β} (h : List.Forall₂ R l m)
    {a : α} (ha : a ∈ l) : ∃ b, R a b := by
  induction h with
  | nil => cases ha
  | cons hab _ ih =>
    rcases List.mem_cons.mp ha with rfl | ha
    · exact ⟨_, hab⟩
    · exact ih ha

/-- The elements in one place of two lists that are related. -/
theorem forall₂_middle {R : α → α → Prop} {a b : α} {after : List α} : ∀ {before : List α},
    List.Forall₂ R (before ++ a :: after) (before ++ b :: after) → R a b
  | [], .cons h _ => h
  | _ :: _, .cons _ h => forall₂_middle h

end Infra

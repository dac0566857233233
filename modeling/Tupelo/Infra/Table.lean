import Mathlib.Algebra.BigOperators.Group.Finset.Basic
import Mathlib.Data.Finset.Fold
import Tupelo.Infra.GoMap

/-!
# Maps as tables of functions

A map that has exactly the keys of a finite set, each with the value of a function. What loops
over it compute, in whatever order, is then computed over the set.
-/

namespace Infra

namespace GoMap

variable {κ β γ : Type} [DecidableEq κ]

def Tabulates (m : GoMap κ β) (s : Finset κ) (f : κ → β) : Prop :=
  ∀ k, m.lookup k = if k ∈ s then some (f k) else none

theorem tabulates_empty (f : κ → β) : Tabulates (∅ : GoMap κ β) ∅ f := by
  intro k
  simp

theorem lookup_mapValues (m : GoMap κ β) (f : κ → β → γ) (k : κ) :
    (mapValues m f).lookup k = (m.lookup k).map (f k) := by
  cases h : (mapValues m f).lookup k with
  | some y =>
    obtain ⟨v, hv, rfl⟩ := exists_of_lookup_mapValues h
    rw [hv]
    rfl
  | none =>
    cases hv : m.lookup k with
    | none => rfl
    | some v =>
      -- the entry is ranged over, so something is written for its key
      have hlatest : latest Prod.fst (pairs m) k ≠ none := by
        intro hnone
        have hnot := List.find?_eq_none.mp hnone (k, v)
          (List.mem_reverse.mpr (mem_pairs.mpr hv))
        simp at hnot
      rw [mapValues, lookup_insertAll, Option.or_eq_none_iff, Option.map_eq_none_iff] at h
      exact absurd h.1 hlatest

namespace Tabulates

variable {m : GoMap κ β} {s : Finset κ} {f : κ → β}

theorem lookup (h : m.Tabulates s f) {k : κ} (hk : k ∈ s) : m.lookup k = some (f k) := by
  rw [h k, if_pos hk]

theorem congr {g : κ → β} (h : m.Tabulates s f) (hfg : ∀ k ∈ s, f k = g k) :
    m.Tabulates s g := by
  intro k
  rw [h k]
  by_cases hk : k ∈ s
  · rw [if_pos hk, if_pos hk, hfg k hk]
  · rw [if_neg hk, if_neg hk]

/-- One more entry, for the values after it. -/
theorem insert {g : κ → β} (h : m.Tabulates s f) {k : κ} (hg : ∀ k' ∈ s, k' ≠ k → g k' = f k') :
    Tabulates (m.insert k (g k)) (Insert.insert k s) g := by
  intro k'
  by_cases hk : k' = k
  · subst hk
    rw [AList.lookup_insert, if_pos (Finset.mem_insert_self _ _)]
  · rw [AList.lookup_insert_ne hk, h k']
    by_cases hk' : k' ∈ s
    · rw [if_pos hk', if_pos (Finset.mem_insert_of_mem hk'), hg k' hk' hk]
    · rw [if_neg hk', if_neg (by simp [hk, hk'])]

theorem mapValues (h : m.Tabulates s f) (g : κ → β → γ) :
    Tabulates (GoMap.mapValues m g) s fun k => g k (f k) := by
  intro k
  rw [lookup_mapValues, h k]
  split <;> rfl

/-- Ranging over the map is going through the set. -/
theorem order_perm (h : m.Tabulates s f) (ord : MapOrder) :
    (ord.order (pairs m)).Perm (s.toList.map fun k => (k, f k)) := by
  have hpairs : (pairs m).Nodup := by
    refine List.Nodup.of_map Prod.fst ?_
    rw [pairs, List.map_map]
    exact m.keys_nodup
  have hlist : (s.toList.map fun k => (k, f k)).Nodup :=
    s.nodup_toList.map fun a b hab => (Prod.mk.inj hab).1
  refine (ord.perm _).trans ((List.perm_ext_iff_of_nodup hpairs hlist).mpr ?_)
  rintro ⟨k, v⟩
  rw [mem_pairs, h k, List.mem_map]
  by_cases hk : k ∈ s
  · simp [hk]
  · simp [hk]

/-- **A loop that collects with a commutative operation** does so over the set. -/
theorem foldl_order {α : Type} {op : α → α → α} [Std.Commutative op] [Std.Associative op]
    (h : m.Tabulates s f) (ord : MapOrder) (g : κ × β → α) (b : α) :
    (ord.order (pairs m)).foldl (fun a e => op a (g e)) b =
      s.fold op b fun k => g (k, f k) := by
  have hperm := (h.order_perm ord).map g
  rw [← List.foldl_map, Finset.fold, ← Finset.coe_toList, Multiset.map_coe, Multiset.coe_fold_l,
    hperm.foldl_eq, List.map_map]
  rfl

end Tabulates

end GoMap

end Infra

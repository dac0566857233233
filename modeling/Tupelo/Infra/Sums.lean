import Mathlib.Algebra.BigOperators.Group.List.Basic
import Mathlib.Algebra.Order.BigOperators.Group.List
import Mathlib.Algebra.Order.Ring.Nat
import Mathlib.Data.UInt

/-!
# Sums over lists

A sum computed in 64 bits is the exact sum modulo 2^64, so it is the exact sum where that fits.
The sums of natural numbers are compared by what they range over: a list without repetition sums
to at most what a list that contains it does, and the parts of a list by distinct keys to at
most the whole.
-/

namespace Infra

/-- The sum of the values, as natural numbers. -/
def exactSum (l : List UInt64) : Nat := (l.map UInt64.toNat).sum

@[simp] theorem exactSum_nil : exactSum [] = 0 := rfl

@[simp] theorem exactSum_cons (a : UInt64) (l : List UInt64) :
    exactSum (a :: l) = a.toNat + exactSum l := by
  simp [exactSum]

@[simp] theorem exactSum_append (l m : List UInt64) :
    exactSum (l ++ m) = exactSum l + exactSum m := by
  simp [exactSum]

theorem toNat_sum (l : List UInt64) : l.sum.toNat = exactSum l % 2 ^ 64 := by
  induction l with
  | nil => rfl
  | cons a l ih =>
    rw [List.sum_cons, UInt64.toNat_add, ih, exactSum_cons, Nat.add_mod_mod]

theorem toNat_sum_of_lt {l : List UInt64} (h : exactSum l < 2 ^ 64) :
    l.sum.toNat = exactSum l := by
  rw [toNat_sum, Nat.mod_eq_of_lt h]

variable {α κ : Type}

/-- What occurs once in the one list and at all in the other. -/
theorem sum_le_of_nodup_subset {l m : List α} (hl : l.Nodup) (hsub : l ⊆ m) (f : α → Nat) :
    (l.map f).sum ≤ (m.map f).sum := by
  obtain ⟨l', hperm, hsublist⟩ := List.subperm_of_subset hl hsub
  rw [← (hperm.map f).sum_eq]
  exact (hsublist.map f).sum_le_sum fun _ _ => Nat.zero_le _

variable [DecidableEq κ]

theorem sum_ite_le {ks : List κ} (hks : ks.Nodup) (k : κ) (n : Nat) :
    (ks.map fun k' => if k = k' then n else 0).sum ≤ n := by
  induction ks with
  | nil => exact Nat.zero_le n
  | cons a ks ih =>
    obtain ⟨hnot, hks⟩ := List.nodup_cons.mp hks
    rw [List.map_cons, List.sum_cons]
    by_cases hka : k = a
    · subst hka
      have hzero : (ks.map fun k' => if k = k' then n else 0).sum = 0 := by
        refine List.sum_eq_zero ?_
        intro x hx
        obtain ⟨k', hk', rfl⟩ := List.mem_map.mp hx
        have hne : k ≠ k' := fun h => hnot (h ▸ hk')
        exact if_neg hne
      rw [if_pos rfl, hzero, Nat.add_zero]
    · rw [if_neg hka, Nat.zero_add]
      exact ih hks

/-- The parts of a list by distinct keys. -/
theorem sum_parts_le {ks : List κ} (hks : ks.Nodup) (key : α → κ) (f : α → Nat) (l : List α) :
    (ks.map fun k => ((l.filter fun a => key a = k).map f).sum).sum ≤ (l.map f).sum := by
  induction l with
  | nil => simp
  | cons a l ih =>
    have hsplit : ∀ k, (((a :: l).filter fun a => key a = k).map f).sum =
        (if key a = k then f a else 0) + ((l.filter fun a => key a = k).map f).sum := by
      intro k
      by_cases hk : key a = k
      · simp [hk]
      · simp [hk]
    simp only [hsplit, List.sum_map_add, List.map_cons, List.sum_cons]
    exact Nat.add_le_add (sum_ite_le hks (key a) (f a)) ih

end Infra

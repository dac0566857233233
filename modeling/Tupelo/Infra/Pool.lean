import Mathlib.Algebra.Ring.Nat

/-!
# A pool of goroutines

The goroutines that a function has started are a list of their states. A step of one of them
replaces its entry. What holds of all of them, what the finished ones have yielded and how much
there is left to do follow from the entry that changes.
-/

namespace Infra

namespace Pool

variable {α β : Type} {l : List α} {i : Nat} {x y : α}

theorem forall_mem_set {P : α → Prop} (h : ∀ a ∈ l, P a) (hy : P y) : ∀ a ∈ l.set i y, P a := by
  intro a ha
  rcases List.mem_or_eq_of_mem_set ha with hold | rfl
  · exact h a hold
  · exact hy

/-- A goroutine that has yielded nothing so far adds what it yields now. -/
theorem filterMap_set_perm {f : α → Option β} (hi : l[i]? = some x) (hx : f x = none) :
    ((l.set i y).filterMap f).Perm (l.filterMap f ++ (f y).toList) := by
  induction l generalizing i with
  | nil => simp at hi
  | cons a l ih =>
    cases i with
    | zero =>
      obtain rfl : a = x := by simpa using hi
      rw [List.set_cons_zero, List.filterMap_cons_none hx]
      cases hy : f y with
      | none => simp [List.filterMap_cons_none hy]
      | some b =>
        rw [List.filterMap_cons_some hy]
        exact (List.perm_append_singleton b _).symm
    | succ i =>
      rw [List.set_cons_succ]
      cases ha : f a with
      | none =>
        rw [List.filterMap_cons_none ha, List.filterMap_cons_none ha]
        exact ih (by simpa using hi)
      | some b =>
        rw [List.filterMap_cons_some ha, List.filterMap_cons_some ha]
        exact (ih (by simpa using hi)).cons b

/-- A step that leaves one goroutine less to do leaves all of them less to do. -/
theorem sum_set_lt {m : α → Nat} (hi : l[i]? = some x) (hlt : m y < m x) :
    ((l.set i y).map m).sum < (l.map m).sum := by
  induction l generalizing i with
  | nil => simp at hi
  | cons a l ih =>
    cases i with
    | zero =>
      obtain rfl : a = x := by simpa using hi
      rw [List.set_cons_zero, List.map_cons, List.map_cons, List.sum_cons, List.sum_cons]
      exact Nat.add_lt_add_right hlt _
    | succ i =>
      rw [List.getElem?_cons_succ] at hi
      rw [List.set_cons_succ, List.map_cons, List.map_cons, List.sum_cons, List.sum_cons]
      exact Nat.add_lt_add_left (ih hi) _

end Pool

end Infra

import Mathlib.Data.List.Basic
import Mathlib.Data.List.Infix

/-!
# Streaks in a history

A history is a list that grows at its end. A streak is a number of entries in a row that are all
the same. Programs count the streak that is going on at the end; a history has a long streak
exactly if that count was high enough at some time.
-/

namespace Infra

variable {α : Type} [DecidableEq α] {a b : α} {n : Nat} {l : List α}

/-- Somewhere in the history, `n` entries in a row are `a`. -/
def Streak (n : Nat) (a : α) (l : List α) : Prop := List.replicate n a <:+: l

/-- How long the streak of `a` at the end of the history is. -/
def trailing (a : α) (l : List α) : Nat := (l.reverse.takeWhile (· = a)).length

@[simp] theorem trailing_nil (a : α) : trailing a [] = 0 := rfl

@[simp] theorem trailing_concat_self (a : α) (l : List α) :
    trailing a (l ++ [a]) = trailing a l + 1 := by
  simp [trailing]

@[simp] theorem trailing_concat_of_ne (h : b ≠ a) (l : List α) : trailing a (l ++ [b]) = 0 := by
  simp [trailing, h]

theorem replicate_prefix_iff : List.replicate n a <+: l ↔ n ≤ (l.takeWhile (· = a)).length := by
  induction n generalizing l with
  | zero => simp
  | succ n ih =>
    cases l with
    | nil => simp [List.replicate_succ]
    | cons b l =>
      rw [List.replicate_succ, List.cons_prefix_cons]
      by_cases hb : b = a
      · subst hb
        simp [ih]
      · simp [hb, Ne.symm hb]

theorem replicate_suffix_iff : List.replicate n a <:+ l ↔ n ≤ trailing a l := by
  rw [← List.reverse_prefix, List.reverse_replicate, replicate_prefix_iff]
  rfl

omit [DecidableEq α] in
theorem not_streak_nil (h : 0 < n) : ¬ Streak n a [] := by
  intro hs
  have hlen := hs.length_le
  rw [List.length_replicate, List.length_nil] at hlen
  omega

/-- **A longer history has a streak** if the shorter one had it, or if it goes on to the end. -/
theorem streak_concat_iff :
    Streak n a (l ++ [b]) ↔ Streak n a l ∨ n ≤ trailing a (l ++ [b]) := by
  unfold Streak
  rw [List.infix_concat_iff, replicate_suffix_iff, or_comm]

omit [DecidableEq α] in
theorem Streak.append (h : Streak n a l) (l' : List α) : Streak n a (l ++ l') :=
  h.trans (List.prefix_append l l').isInfix

omit [DecidableEq α] in
/-- A streak in what is read off a history, in terms of the history. -/
theorem streak_map_iff {β : Type} {f : β → α} {h : List β} :
    Streak n a (h.map f) ↔
      ∃ before run after, h = before ++ run ++ after ∧ run.length = n ∧ ∀ x ∈ run, f x = a := by
  constructor
  · rintro ⟨before, after, heq⟩
    obtain ⟨front, last, rfl, hfront, rfl⟩ := List.map_eq_append_iff.mp heq.symm
    obtain ⟨first, run, rfl, rfl, hrun⟩ := List.map_eq_append_iff.mp hfront
    have hlen : run.length = n := by
      rw [← List.length_map (f := f), hrun, List.length_replicate]
    refine ⟨first, run, last, rfl, hlen, ?_⟩
    intro x hx
    have hmem : f x ∈ List.replicate n a := by
      rw [← hrun]
      exact List.mem_map_of_mem hx
    exact List.eq_of_mem_replicate hmem
  · rintro ⟨before, run, after, rfl, hlen, hall⟩
    have hrun : run.map f = List.replicate n a := by
      rw [List.eq_replicate_iff, List.length_map]
      refine ⟨hlen, ?_⟩
      intro y hy
      obtain ⟨x, hx, rfl⟩ := List.mem_map.mp hy
      exact hall x hx
    refine ⟨before.map f, after.map f, ?_⟩
    rw [List.map_append, List.map_append, hrun]

end Infra

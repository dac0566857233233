import Mathlib.Logic.Basic

/-!
# Transition systems

A system starts somewhere and takes actions that may not be possible. Many properties hold of
runs whose steps meet a condition, so the runs carry one: a test of the state and the action to
be taken next. `Reach` is for proofs, `run` for concrete runs, and `reach_of_run` connects them.
-/

namespace Infra

/-- A starting state, and what an action makes of a state where it is possible. -/
structure System (σ α : Type) where
  start : σ
  act : σ → α → Option σ

namespace System

variable {σ α : Type} {S : System σ α} {ok : σ → α → Bool}

/-- The states reached by steps that all meet the condition. -/
inductive Reach (S : System σ α) (ok : σ → α → Bool) : σ → Prop where
  | start : Reach S ok S.start
  | step {s s' : σ} (a : α) : Reach S ok s → ok s a = true → S.act s a = some s' → Reach S ok s'

/-- **The invariant rule.** -/
theorem Reach.invariant {P : σ → Prop} (h₀ : P S.start)
    (hstep : ∀ s a s', P s → ok s a = true → S.act s a = some s' → P s') {s : σ}
    (h : S.Reach ok s) : P s := by
  induction h with
  | start => exact h₀
  | step a _ hok hact ih => exact hstep _ a _ ih hok hact

/-- The actions one after the other, as long as the condition is met. -/
def runFrom (S : System σ α) (ok : σ → α → Bool) : σ → List α → Option σ
  | s, [] => some s
  | s, a :: as => if ok s a then (S.act s a).bind fun s' => S.runFrom ok s' as else none

def run (S : System σ α) (ok : σ → α → Bool) (as : List α) : Option σ := S.runFrom ok S.start as

/-- **The invariant rule, from any state.** -/
theorem runFrom_invariant {P : σ → Prop}
    (hstep : ∀ s a s', P s → ok s a = true → S.act s a = some s' → P s') {as : List α} :
    ∀ {s s' : σ}, P s → S.runFrom ok s as = some s' → P s' := by
  induction as with
  | nil =>
    intro s s' hs h
    rw [← Option.some.inj h]
    exact hs
  | cons a as ih =>
    intro s s' hs h
    rw [runFrom] at h
    split at h
    · next hok =>
      obtain ⟨t, ht, h⟩ := Option.bind_eq_some_iff.mp h
      exact ih (hstep s a t hs hok ht) h
    · cases h

/--
**The rule of the variant.** If as long as the goal is not reached some action is possible that
keeps the condition and leaves less to do, then some run reaches the goal.
-/
theorem exists_runFrom {P Q : σ → Prop} (m : σ → Nat)
    (hstep : ∀ s, P s → ¬ Q s → ∃ a s', ok s a = true ∧ S.act s a = some s' ∧ P s' ∧ m s' < m s)
    {s : σ} (hs : P s) : ∃ as s', S.runFrom ok s as = some s' ∧ Q s' := by
  induction hm : m s using Nat.strongRecOn generalizing s with
  | ind n ih =>
    by_cases hq : Q s
    · exact ⟨[], s, rfl, hq⟩
    · obtain ⟨a, t, hok, hact, ht, hlt⟩ := hstep s hs hq
      obtain ⟨as, s', hrun, hs'⟩ := ih (m t) (hm ▸ hlt) ht rfl
      refine ⟨a :: as, s', ?_, hs'⟩
      rw [runFrom, if_pos hok, hact]
      exact hrun

theorem reach_of_runFrom {as : List α} : ∀ {s s' : σ}, S.Reach ok s →
    S.runFrom ok s as = some s' → S.Reach ok s' := by
  induction as with
  | nil =>
    intro s s' hs h
    rw [← Option.some.inj h]
    exact hs
  | cons a as ih =>
    intro s s' hs h
    rw [runFrom] at h
    split at h
    · next hok =>
      obtain ⟨t, ht, h⟩ := Option.bind_eq_some_iff.mp h
      exact ih (hs.step a hok ht) h
    · cases h

theorem reach_of_run {as : List α} {s : σ} (h : S.run ok as = some s) : S.Reach ok s :=
  reach_of_runFrom Reach.start h

/-- A weaker condition admits every run of a stronger one. -/
theorem Reach.mono {ok' : σ → α → Bool} (hmono : ∀ s a, ok s a = true → ok' s a = true) {s : σ}
    (h : S.Reach ok s) : S.Reach ok' s := by
  induction h with
  | start => exact Reach.start
  | step a _ hok hact ih => exact ih.step a (hmono _ a hok) hact

end System

end Infra

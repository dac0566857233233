import Mathlib.Data.List.Basic
import Tupelo.Infra.Except

/-!
# The outcomes of a choice

A computation that depends on a choice, such as the order in which a map is ranged over, has
several outcomes. `Outcomes run xs` says that `xs` are all of them and that each is one of some
choice. The rules are those of a sequence of steps with choices of their own.

Whether the choice matters is then a question about the list (`Outcomes.forall_eq_iff`).
-/

namespace Infra

variable {ε α β κ κ' : Type}
variable {run : κ → Except ε α} {xs : List (Except ε α)}

/-- The outcomes of a step, and of what follows. -/
def bindOutcomes (xs : List (Except ε α)) (next : α → List (Except ε β)) : List (Except ε β) :=
  xs.flatMap fun
    | .ok a => next a
    | .error e => [.error e]

/-- The list has what some choice leads to. -/
def Outcomes (run : κ → Except ε α) (xs : List (Except ε α)) : Prop :=
  ∀ x, x ∈ xs ↔ ∃ c, run c = x

theorem Outcomes.mem (h : Outcomes run xs) (c : κ) : run c ∈ xs := (h _).mpr ⟨c, rfl⟩

/-- No choice is made. -/
theorem outcomes_const [Nonempty κ] (x : Except ε α) : Outcomes (fun _ : κ => x) [x] := by
  intro y
  rw [List.mem_singleton, exists_const]
  exact eq_comm

theorem Outcomes.map (h : Outcomes run xs) (g : Except ε α → Except ε β) :
    Outcomes (fun c => g (run c)) (xs.map g) := by
  intro y
  rw [List.mem_map]
  constructor
  · rintro ⟨x, hx, rfl⟩
    obtain ⟨c, rfl⟩ := (h x).mp hx
    exact ⟨c, rfl⟩
  · rintro ⟨c, rfl⟩
    exact ⟨run c, h.mem c, rfl⟩

/-- Two steps, each with a choice of its own. -/
theorem Outcomes.bind [Nonempty κ'] (h : Outcomes run xs) {next : α → κ' → Except ε β}
    {ys : α → List (Except ε β)} (hnext : ∀ a, .ok a ∈ xs → Outcomes (next a) (ys a)) :
    Outcomes (fun c : κ × κ' => run c.1 >>= fun a => next a c.2) (bindOutcomes xs ys) := by
  intro y
  unfold bindOutcomes
  rw [List.mem_flatMap]
  constructor
  · rintro ⟨x, hx, hy⟩
    obtain ⟨c, hc⟩ := (h x).mp hx
    cases x with
    | ok a =>
      obtain ⟨c', rfl⟩ := (hnext a hx y).mp hy
      exact ⟨(c, c'), by simp only [hc, ok_bind]⟩
    | error e =>
      obtain ⟨c'⟩ := ‹Nonempty κ'›
      rw [List.mem_singleton.mp hy]
      exact ⟨(c, c'), by simp only [hc]; rfl⟩
  · rintro ⟨c, rfl⟩
    have hmem := h.mem c.1
    cases hrun : run c.1 with
    | ok a =>
      rw [hrun] at hmem
      refine ⟨.ok a, hmem, ?_⟩
      simp only [hrun, ok_bind]
      exact (hnext a hmem).mem c.2
    | error e =>
      rw [hrun] at hmem
      refine ⟨.error e, hmem, ?_⟩
      simp only [hrun]
      exact List.mem_singleton.mpr rfl

/-- The choices of another type that come to the same. -/
theorem Outcomes.comp (h : Outcomes run xs) (choose : κ' → κ) (hchoose : Function.Surjective choose)
    : Outcomes (fun c => run (choose c)) xs :=
  fun x => (h x).trans hchoose.exists

/-- **The choice does not matter if and only if there is one outcome.** -/
theorem Outcomes.forall_eq_iff (h : Outcomes run xs) :
    (∀ c c', run c = run c') ↔ ∀ x ∈ xs, ∀ y ∈ xs, x = y := by
  constructor
  · intro hsame x hx y hy
    obtain ⟨c, rfl⟩ := (h x).mp hx
    obtain ⟨c', rfl⟩ := (h y).mp hy
    exact hsame c c'
  · intro hsame c c'
    exact hsame _ (h.mem c) _ (h.mem c')

end Infra

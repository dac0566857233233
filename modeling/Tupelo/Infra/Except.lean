import Mathlib.Logic.Basic

/-!
# Inverting computations that may fail

A sequence of steps in `Except` succeeds only if each step does. The lemmas peel one step off
a successful computation, so that proofs about a function never unfold the monad.
-/

namespace Infra

variable {ε α β : Type}
variable {x : Except ε α}

theorem bind_eq_ok {f : α → Except ε β} {b : β} :
    (x >>= f) = .ok b ↔ ∃ a, x = .ok a ∧ f a = .ok b := by
  cases x with
  | error e => simp [Bind.bind, Except.bind]
  | ok a => simp [Bind.bind, Except.bind]

@[simp] theorem ok_bind (a : α) (f : α → Except ε β) : (Except.ok a >>= f) = f a := rfl

@[simp] theorem pure_eq_ok {a b : α} : (pure a : Except ε α) = .ok b ↔ a = b := by
  simp [pure, Except.pure]

theorem map_eq_ok {f : α → β} {b : β} : x.map f = .ok b ↔ ∃ a, x = .ok a ∧ f a = b := by
  cases x with
  | error e => simp [Except.map]
  | ok a => simp [Except.map]

theorem toOption_eq_some {a : α} : x.toOption = some a ↔ x = .ok a := by
  cases x with
  | error e => simp [Except.toOption]
  | ok b => simp [Except.toOption]

theorem mapM_length {f : α → Except ε β} : ∀ {l : List α} {r : List β},
    l.mapM f = .ok r → r.length = l.length
  | [], r, h => by
    have hr : r = [] := (pure_eq_ok.mp h).symm
    rw [hr]
    rfl
  | a :: l, r, h => by
    rw [List.mapM_cons] at h
    obtain ⟨b, -, h⟩ := bind_eq_ok.mp h
    obtain ⟨bs, hbs, h⟩ := bind_eq_ok.mp h
    have hr := pure_eq_ok.mp h
    rw [← hr, List.length_cons, List.length_cons, mapM_length hbs]

theorem mapM_ok {f : α → Except ε β} : ∀ {l : List α},
    (∀ a ∈ l, ∃ b, f a = .ok b) → ∃ r, l.mapM f = .ok r
  | [], _ => ⟨[], rfl⟩
  | a :: l, h => by
    obtain ⟨b, hb⟩ := h a List.mem_cons_self
    obtain ⟨r, hr⟩ := mapM_ok fun x hx => h x (List.mem_cons_of_mem a hx)
    refine ⟨b :: r, ?_⟩
    rw [List.mapM_cons, hb, hr]
    rfl

section MapError

variable {ε' : Type} {f : ε → ε'}

@[simp] theorem mapError_ok (a : α) : (Except.ok a : Except ε α).mapError f = .ok a := rfl

@[simp] theorem mapError_error (e : ε) :
    (Except.error e : Except ε α).mapError f = .error (f e) := rfl

@[simp] theorem mapError_eq_ok {a : α} : x.mapError f = .ok a ↔ x = .ok a := by
  cases x with
  | error e => simp
  | ok b => simp

end MapError

theorem forM_eq_ok {f : α → Except ε Unit} : ∀ {l : List α},
    l.forM f = .ok () ↔ ∀ a ∈ l, f a = .ok ()
  | [] => iff_of_true rfl (by simp)
  | a :: l => by
    show (f a >>= fun _ => l.forM f) = .ok () ↔ _
    rw [bind_eq_ok, List.forall_mem_cons, ← forM_eq_ok]
    exact ⟨fun ⟨_, ha, hl⟩ => ⟨ha, hl⟩, fun ⟨ha, hl⟩ => ⟨_, ha, hl⟩⟩

/-- A guard that was passed. -/
theorem guard_eq_ok {c : Prop} [Decidable c] {e : ε} {a : α}
    (h : (if c then .error e else x) = .ok a) : ¬c ∧ x = .ok a := by
  split at h
  · cases h
  · next hc => exact ⟨hc, h⟩

end Infra

import Tupelo.Infra.Avoids
import Tupelo.Ipld

/-!
# Panics

A Go function that panics takes the process with it, unlike one that returns an error. `NoPanic`
says of a call that it returns.
-/

namespace Tupelo

open Infra

/-- The fault is a panic. -/
def Fault.IsPanic : Fault → Prop
  | .panic _ => True
  | _ => False

instance : DecidablePred Fault.IsPanic
  | .panic _ => inferInstanceAs (Decidable True)
  | .error _ => inferInstanceAs (Decidable False)
  | .coded _ _ => inferInstanceAs (Decidable False)

/-- The call returns, with a result or an error. -/
def NoPanic {α : Type} (x : Except Fault α) : Prop := Avoids Fault.IsPanic x

variable {α β : Type}
variable {x : Except Fault α} {f : α → Except Fault β}

@[simp] theorem noPanic_ok (a : α) : NoPanic (.ok a) := avoids_ok a

@[simp] theorem noPanic_pure (a : α) : NoPanic (pure a) := avoids_pure a

/-- The fault alone decides, not what would have been returned. -/
theorem noPanic_fault {f : Fault} : NoPanic (.error f : Except Fault α) ↔ ¬ f.IsPanic :=
  avoids_error

@[simp] theorem noPanic_error (msg : String) : NoPanic (.error (.error msg) : Except Fault α) :=
  avoids_error.mpr id

@[simp] theorem noPanic_coded (code : Nat) (memo : String) :
    NoPanic (.error (.coded code memo) : Except Fault α) := avoids_error.mpr id

@[simp] theorem not_noPanic_panic (msg : String) :
    ¬ NoPanic (.error (.panic msg) : Except Fault α) := fun h => h _ rfl trivial

theorem noPanic_bind :
    NoPanic (x >>= f) ↔ NoPanic x ∧ ∀ a, x = .ok a → NoPanic (f a) := avoids_bind

theorem NoPanic.bind (hx : NoPanic x) (hf : ∀ a, x = .ok a → NoPanic (f a)) :
    NoPanic (x >>= f) := noPanic_bind.mpr ⟨hx, hf⟩

/-- After a step that returns. -/
theorem noPanic_then (hx : NoPanic x) : NoPanic (x >>= f) ↔ ∀ a, x = .ok a → NoPanic (f a) :=
  noPanic_bind.trans (and_iff_right hx)

/-- A test that ends with an error. -/
theorem noPanic_guard {c : Prop} [Decidable c] {e : Fault} (he : ¬ e.IsPanic) :
    NoPanic (if c then .error e else x) ↔ (¬ c → NoPanic x) :=
  avoids_ite.trans (and_iff_right fun _ => avoids_error.mpr he)

@[simp] theorem noPanic_map {g : α → β} : NoPanic (g <$> x) ↔ NoPanic x :=
  avoids_map

@[simp] theorem noPanic_wrapErr {context : String} : NoPanic (wrapErr context x) ↔ NoPanic x := by
  match x with
  | .ok _ => exact Iff.rfl
  | .error (.panic _) => exact Iff.rfl
  | .error (.coded _ _) => exact Iff.rfl
  | .error (.error _) => simp [wrapErr]

@[simp] theorem noPanic_deref {p : Option α} : NoPanic (deref p) ↔ ∃ a, p = some a := by
  cases p with
  | none => simp [deref]
  | some a => simp [deref]

/-- A pointer that is read from. -/
theorem noPanic_deref_bind {p : Option α} :
    NoPanic (deref p >>= f) ↔ ∃ a, p = some a ∧ NoPanic (f a) := by
  cases p with
  | none => simp [noPanic_bind]
  | some a => simp [deref]

theorem Ipld.noPanic_cast (L : Ipld) (b : Bytes) : NoPanic (L.cast b) := by
  unfold Ipld.cast
  exact Avoids.ite (fun _ => noPanic_ok _) fun _ => noPanic_error _

end Tupelo

import Tupelo.Infra.Except
import Tupelo.Infra.Unfold

/-!
# Computations without bad errors

`Avoids bad x` says that `x` does not end with an error that is `bad`; other errors are fine. There
is one rule for each way in which computations are put together. The rules are equivalences where
the first step decides, so that they also say when a bad error is met.

A loop that may end early is not run to its end. `UpTo` says of a list that its elements satisfy a
condition as far as the loop comes.

Of a computation with fuel there are two questions: whether it ends (`Fueled.Finishes`), and that
it does not end with a bad error (`Fueled.Avoids`).
-/

namespace Infra

variable {ε α β σ : Type} {bad : ε → Prop} {x y : Except ε α} {f : α → Except ε β}

/-- The computation does not end with a bad error. -/
def Avoids (bad : ε → Prop) (x : Except ε α) : Prop := ∀ e, x = .error e → ¬ bad e

@[simp] theorem avoids_ok (a : α) : Avoids bad (.ok a) := by
  intro e h
  cases h

@[simp] theorem avoids_pure (a : α) : Avoids bad (pure a) := avoids_ok a

@[simp] theorem avoids_error {e : ε} : Avoids bad (.error e : Except ε α) ↔ ¬ bad e := by
  constructor
  · intro h
    exact h e rfl
  · rintro h _ ⟨⟩
    exact h

/-- The first step, and whatever follows its result. -/
theorem avoids_bind : Avoids bad (x >>= f) ↔ Avoids bad x ∧ ∀ a, x = .ok a → Avoids bad (f a) := by
  cases x with
  | ok a => simp
  | error e =>
    simp only [avoids_error, reduceCtorEq, false_implies, implies_true, and_true]
    exact avoids_error

theorem Avoids.bind (hx : Avoids bad x) (hf : ∀ a, x = .ok a → Avoids bad (f a)) :
    Avoids bad (x >>= f) := avoids_bind.mpr ⟨hx, hf⟩

@[simp] theorem avoids_map {g : α → β} : Avoids bad (g <$> x) ↔ Avoids bad x := by
  cases x with
  | ok a => exact iff_of_true (avoids_ok (g a)) (avoids_ok a)
  | error e => exact avoids_error.trans avoids_error.symm

theorem avoids_ite {c : Prop} [Decidable c] :
    Avoids bad (if c then x else y) ↔ (c → Avoids bad x) ∧ (¬ c → Avoids bad y) := by
  by_cases hc : c
  · simp [hc]
  · simp [hc]

theorem Avoids.ite {c : Prop} [Decidable c] (hx : c → Avoids bad x) (hy : ¬ c → Avoids bad y) :
    Avoids bad (if c then x else y) := avoids_ite.mpr ⟨hx, hy⟩

/-! ## Loops -/

theorem Avoids.mapM : ∀ {l : List α}, (∀ a ∈ l, Avoids bad (f a)) → Avoids bad (l.mapM f)
  | [], _ => avoids_pure []
  | a :: l, h => by
    rw [List.mapM_cons]
    refine (h a List.mem_cons_self).bind fun b _ => Avoids.bind ?_ fun bs _ => avoids_pure _
    exact Avoids.mapM fun a' ha' => h a' (List.mem_cons_of_mem a ha')

theorem Avoids.forM {f : α → Except ε PUnit} :
    ∀ {l : List α}, (∀ a ∈ l, Avoids bad (f a)) → Avoids bad (l.forM f)
  | [], _ => avoids_pure _
  | a :: l, h => by
    show Avoids bad (f a >>= fun _ => l.forM f)
    refine (h a List.mem_cons_self).bind fun _ _ => ?_
    exact Avoids.forM fun a' ha' => h a' (List.mem_cons_of_mem a ha')

theorem Avoids.foldlM {step : σ → α → Except ε σ} :
    ∀ {l : List α} {s : σ}, (∀ s, ∀ a ∈ l, Avoids bad (step s a)) → Avoids bad (l.foldlM step s)
  | [], s, _ => avoids_pure s
  | a :: l, s, h => by
    rw [List.foldlM_cons]
    refine (h s a List.mem_cons_self).bind fun s' _ => ?_
    exact Avoids.foldlM fun s a' ha' => h s a' (List.mem_cons_of_mem a ha')

/-- The condition holds of the elements up to the first one after which the loop does not go on. -/
def UpTo (goesOn ok : α → Prop) : List α → Prop
  | [] => True
  | a :: l => ok a ∧ (goesOn a → UpTo goesOn ok l)

theorem upTo_congr {goesOn ok ok' : α → Prop} (h : ∀ a, ok a ↔ ok' a) :
    ∀ {l : List α}, UpTo goesOn ok l ↔ UpTo goesOn ok' l
  | [] => Iff.rfl
  | a :: _ => and_congr (h a) (imp_congr_right fun _ => upTo_congr h)

theorem upTo_map {goesOn ok : β → Prop} {g : α → β} : ∀ {l : List α},
    UpTo goesOn ok (l.map g) ↔ UpTo (fun a => goesOn (g a)) (fun a => ok (g a)) l
  | [] => Iff.rfl
  | _ :: _ => and_congr_right fun _ => imp_congr_right fun _ => upTo_map

/-- The second list is reached if the loop goes on after all of the first. -/
theorem upTo_append {goesOn ok : α → Prop} {l' : List α} : ∀ {l : List α},
    UpTo goesOn ok (l ++ l') ↔
      UpTo goesOn ok l ∧ ((∀ a ∈ l, goesOn a) → UpTo goesOn ok l')
  | [] => by simp [UpTo]
  | a :: l => by
    rw [List.cons_append, UpTo, UpTo, upTo_append, List.forall_mem_cons]
    tauto

theorem avoids_anyM {f : α → Except ε Bool} : ∀ {l : List α},
    Avoids bad (l.anyM f) ↔ UpTo (fun a => f a = .ok false) (fun a => Avoids bad (f a)) l
  | [] => iff_of_true (avoids_pure _) trivial
  | a :: l => by
    rw [List.anyM, avoids_bind, UpTo, ← avoids_anyM]
    refine and_congr_right fun _ => ⟨fun h ha => h false ha, fun h b hb => ?_⟩
    cases b with
    | true => exact avoids_pure _
    | false => exact h hb

theorem avoids_allM {f : α → Except ε Bool} : ∀ {l : List α},
    Avoids bad (l.allM f) ↔ UpTo (fun a => f a = .ok true) (fun a => Avoids bad (f a)) l
  | [] => iff_of_true (avoids_pure _) trivial
  | a :: l => by
    rw [List.allM, avoids_bind, UpTo, ← avoids_allM]
    refine and_congr_right fun _ => ⟨fun h ha => h true ha, fun h b hb => ?_⟩
    cases b with
    | true => exact h hb
    | false => exact avoids_pure _

/-! ## Fuel -/

namespace Fueled

/-- If the computation ends, then not with a bad error. -/
def Avoids (bad : ε → Prop) (x : Fueled ε α) : Prop := ∀ r, x.Ends r → Infra.Avoids bad r

/-- The fuel is enough. -/
def Finishes (x : Fueled ε α) : Prop := ∃ r, x.Ends r

variable {x : Fueled ε α} {f : α → Fueled ε β}

theorem avoids_bind : Avoids bad (x >>= f) ↔
    Avoids bad x ∧ ∀ a, x.Ends (.ok a) → Avoids bad (f a) := by
  constructor
  · intro h
    constructor
    · intro r hr
      cases r with
      | ok a => exact avoids_ok a
      | error e =>
        exact avoids_error.mpr (avoids_error.mp (h (.error e) (ends_error_bind.mpr (Or.inl hr))))
    · intro a ha r hr
      cases r with
      | ok b => exact avoids_ok b
      | error e => exact h (.error e) (ends_error_bind.mpr (Or.inr ⟨a, ha, hr⟩))
  · rintro ⟨hx, hf⟩ r hr
    cases r with
    | ok b => exact avoids_ok b
    | error e =>
      rcases ends_error_bind.mp hr with he | ⟨a, ha, he⟩
      · exact avoids_error.mpr (avoids_error.mp (hx _ he))
      · exact hf a ha _ he

theorem Avoids.bind (hx : Avoids bad x) (hf : ∀ a, x.Ends (.ok a) → Avoids bad (f a)) :
    Avoids bad (x >>= f) := avoids_bind.mpr ⟨hx, hf⟩

theorem avoids_pure (a : α) : Avoids bad (pure a : Fueled ε α) := by
  intro r hr
  obtain rfl := Option.some.inj hr
  exact avoids_ok a

theorem avoids_throw {e : ε} (h : ¬ bad e) : Avoids bad (throw e : Fueled ε α) := by
  intro r hr
  obtain rfl := Option.some.inj hr
  exact avoids_error.mpr h

theorem Avoids.foldlM {step : σ → α → Fueled ε σ} (h : ∀ s a, Avoids bad (step s a)) :
    ∀ (l : List α) (s : σ), Avoids bad (l.foldlM step s)
  | [], s => avoids_pure s
  | a :: l, s => by
    rw [List.foldlM_cons]
    exact (h s a).bind fun s' _ => Avoids.foldlM h l s'

theorem Finishes.bind (hx : x.Finishes) (hf : ∀ a, x.Ends (.ok a) → (f a).Finishes) :
    (x >>= f).Finishes := by
  obtain ⟨r, hr⟩ := hx
  cases r with
  | error e => exact ⟨.error e, ends_error_bind.mpr (Or.inl hr)⟩
  | ok a =>
    obtain ⟨r', hr'⟩ := hf a hr
    cases r' with
    | error e => exact ⟨.error e, ends_error_bind.mpr (Or.inr ⟨a, hr, hr'⟩)⟩
    | ok b => exact ⟨.ok b, ends_ok_bind.mpr ⟨a, hr, hr'⟩⟩

theorem finishes_pure (a : α) : (pure a : Fueled ε α).Finishes := ⟨.ok a, rfl⟩

end Fueled

end Infra

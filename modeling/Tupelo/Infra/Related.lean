import Tupelo.Infra.Except

/-!
# Two computations side by side

`Related` compares a computation that succeeds with another one: if both succeed their results are
related, and, where that can be expected, the second one succeeds. There is one rule for each way
in which computations are put together, so that a function which is run on two states is followed
step by step.

The second computation may have to rely on something that only the result of the first one shows,
such as that everything it has made is there. This is `fits`, a property of the result; going
backwards it is passed on to the results of the steps.
-/

namespace Infra

variable {ε ε' α α' β β' : Type}

/-- Results that fit are related; if `total`, the second computation succeeds as the first does. -/
def Related (total : Prop) (fits : α → Prop) (P : α → β → Prop) (x : Except ε α)
    (y : Except ε' β) : Prop :=
  ∀ a, x = .ok a → fits a → (∀ b, y = .ok b → P a b) ∧ (total → ∃ b, y = .ok b)

namespace Related

variable {total : Prop} {fits : α → Prop} {P : α → β → Prop} {x : Except ε α} {y : Except ε' β}

theorem ok {a : α} {b : β} (h : P a b) :
    Related total fits P (.ok a : Except ε α) (.ok b : Except ε' β) := by
  rintro _ ⟨⟩ _
  refine ⟨?_, fun _ => ⟨b, rfl⟩⟩
  rintro _ ⟨⟩
  exact h

theorem error (e : ε) : Related total fits P (.error e) y := by
  rintro _ ⟨⟩

/-- The same computation twice. -/
theorem same (x : Except ε α) : Related total fits (· = ·) x x := by
  intro a ha _
  refine ⟨?_, fun _ => ⟨a, ha⟩⟩
  intro b hb
  exact Except.ok.inj (ha.symm.trans hb)

/-- One step after the other. -/
theorem bind {fits' : α' → Prop} {Q : α' → β' → Prop} {f : α → Except ε α'}
    {g : β → Except ε' β'} (hxy : Related total fits P x y)
    (hfits : ∀ a c, x = .ok a → f a = .ok c → fits' c → fits a)
    (hfg : ∀ a b, x = .ok a → fits a → P a b → Related total fits' Q (f a) (g b)) :
    Related total fits' Q (x >>= f) (y >>= g) := by
  intro c hc hfits'
  obtain ⟨a, ha, hc⟩ := bind_eq_ok.mp hc
  have hfit := hfits a c ha hc hfits'
  obtain ⟨hall, hex⟩ := hxy a ha hfit
  refine ⟨?_, fun ht => ?_⟩
  · intro c' hc'
    obtain ⟨b, hb, hc'⟩ := bind_eq_ok.mp hc'
    exact ((hfg a b ha hfit (hall b hb)) c hc hfits').1 c' hc'
  · obtain ⟨b, hb⟩ := hex ht
    obtain ⟨c', hc'⟩ := ((hfg a b ha hfit (hall b hb)) c hc hfits').2 ht
    exact ⟨c', bind_eq_ok.mpr ⟨b, hb, hc'⟩⟩

/-- A step that only reads, with the same result on both sides. -/
theorem read {fits' : α' → Prop} {Q : α' → β' → Prop} {x : Except ε α} {y : Except ε' α}
    {f : α → Except ε α'} {g : α → Except ε' β'}
    (hxy : Related total (fun _ => True) (· = ·) x y)
    (hfg : ∀ a, Related total fits' Q (f a) (g a)) :
    Related total fits' Q (x >>= f) (y >>= g) := by
  refine hxy.bind (fun _ _ _ _ _ => trivial) ?_
  rintro a _ - - rfl
  exact hfg a

theorem ite {c : Prop} [Decidable c] {x' : Except ε α} {y' : Except ε' β}
    (hpos : c → Related total fits P x y) (hneg : ¬ c → Related total fits P x' y') :
    Related total fits P (if c then x else x') (if c then y else y') := by
  split
  · next h => exact hpos h
  · next h => exact hneg h

end Related

end Infra

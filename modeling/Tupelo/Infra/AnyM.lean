import Mathlib.Data.List.Perm.Basic
import Tupelo.Infra.Except

/-!
# Looking for an element by a check that may fail

`List.anyM` goes through a list and stops at the first element the check accepts, but also at
the first one it fails on. So what it finds depends on the order, unless the check fails on no
element or accepts none (`anyM_perm_iff`). `List.allM` stops at the first element that is refused.
-/

namespace Infra

variable {α ε : Type} {check : α → Except ε Bool} {l : List α}

/-- The check accepts an element and says no to all before it. -/
theorem anyM_eq_true_iff : l.anyM check = .ok true ↔
    ∃ before a after, l = before ++ a :: after ∧ check a = .ok true ∧
      ∀ b ∈ before, check b = .ok false := by
  induction l with
  | nil =>
    constructor
    · intro h
      cases h
    · rintro ⟨before, a, after, h, -⟩
      cases before <;> cases h
  | cons x l ih =>
    rw [List.anyM]
    constructor
    · intro h
      match hx : check x with
      | .ok true => exact ⟨[], x, l, rfl, hx, fun b hb => by cases hb⟩
      | .ok false =>
        rw [hx] at h
        obtain ⟨before, a, after, rfl, ha, hbefore⟩ := ih.mp h
        exact ⟨x :: before, a, after, rfl, ha, List.forall_mem_cons.mpr ⟨hx, hbefore⟩⟩
      | .error e =>
        rw [hx] at h
        cases h
    · rintro ⟨before, a, after, hl, ha, hbefore⟩
      cases before with
      | nil =>
        obtain ⟨rfl, rfl⟩ := List.cons.inj hl
        rw [ha]
        rfl
      | cons y before =>
        obtain ⟨rfl, rfl⟩ := List.cons.inj hl
        rw [hbefore x List.mem_cons_self]
        exact ih.mpr ⟨before, a, after, rfl, ha, fun b hb => hbefore b (List.mem_cons_of_mem _ hb)⟩

theorem exists_of_anyM (h : l.anyM check = .ok true) : ∃ a ∈ l, check a = .ok true := by
  obtain ⟨before, a, after, rfl, ha, -⟩ := anyM_eq_true_iff.mp h
  exact ⟨a, by simp, ha⟩

/-- If the check fails on no element, one that it accepts is found. -/
theorem anyM_of_exists (hok : ∀ a ∈ l, ∃ b, check a = .ok b) (h : ∃ a ∈ l, check a = .ok true) :
    l.anyM check = .ok true := by
  induction l with
  | nil =>
    obtain ⟨a, ha, -⟩ := h
    cases ha
  | cons x l ih =>
    rw [List.forall_mem_cons] at hok
    rw [List.anyM]
    obtain ⟨b, hb⟩ := hok.1
    rw [hb]
    cases b with
    | true => rfl
    | false =>
      refine ih hok.2 ?_
      obtain ⟨a, ha, hcheck⟩ := h
      rcases List.mem_cons.mp ha with rfl | ha
      · cases hb.symm.trans hcheck
      · exact ⟨a, ha, hcheck⟩

/-- A check that never fails is a plain test. -/
theorem anyM_eq_any {test : α → Bool} (h : ∀ a, check a = .ok (test a)) :
    l.anyM check = .ok (l.any test) := by
  induction l with
  | nil => rfl
  | cons x l ih =>
    rw [List.anyM, h x, List.any_cons]
    cases test x with
    | true => rfl
    | false => exact ih

/-- An element that the check fails on, in the first place, is all that is seen. -/
theorem anyM_cons_error {a : α} {e : ε} (h : check a = .error e) :
    (a :: l).anyM check = .error e := by
  rw [List.anyM, h]
  rfl

/--
**The order does not matter** if and only if the check fails on no element, or accepts none.
-/
theorem anyM_perm_iff :
    (∀ l' : List α, l'.Perm l → (l'.anyM check = .ok true ↔ ∃ a ∈ l, check a = .ok true)) ↔
      ((∃ a ∈ l, check a = .ok true) → ∀ a ∈ l, ∃ b, check a = .ok b) := by
  constructor
  · intro h hexists a ha
    match hcheck : check a with
    | .ok b => exact ⟨b, rfl⟩
    | .error e =>
      -- put the element in the first place
      obtain ⟨before, after, rfl⟩ := List.append_of_mem ha
      have hfound := (h (a :: (before ++ after)) List.perm_middle.symm).mpr hexists
      rw [anyM_cons_error hcheck] at hfound
      cases hfound
  · intro h l' hperm
    have hmem : (∃ a ∈ l', check a = .ok true) ↔ ∃ a ∈ l, check a = .ok true := by
      simp only [hperm.mem_iff]
    constructor
    · intro hfound
      exact hmem.mp (exists_of_anyM hfound)
    · intro hexists
      refine anyM_of_exists ?_ (hmem.mpr hexists)
      intro a ha
      exact h hexists a (hperm.mem_iff.mp ha)

/-! ## All elements -/

theorem allM_eq_true : ∀ {l : List α},
    l.allM check = .ok true ↔ ∀ a ∈ l, check a = .ok true
  | [] => iff_of_true rfl (by simp)
  | a :: l => by
    rw [List.allM, bind_eq_ok, List.forall_mem_cons, ← allM_eq_true]
    constructor
    · rintro ⟨b, ha, hl⟩
      cases b with
      | true => exact ⟨ha, hl⟩
      | false => cases hl
    · rintro ⟨ha, hl⟩
      exact ⟨true, ha, hl⟩

/-- Two loops whose rounds agree. -/
theorem allM_zipIdx_congr {β : Type} {f : α × Nat → Except ε Bool} {g : β × Nat → Except ε Bool}
    {R : α → β → Prop} {l : List α} {l' : List β} (h : List.Forall₂ R l l')
    (hR : ∀ {a b}, R a b → ∀ i, f (a, i) = g (b, i)) (n : Nat) :
    (l.zipIdx n).allM f = (l'.zipIdx n).allM g := by
  induction h generalizing n with
  | nil => rfl
  | cons hab _ ih => rw [List.zipIdx_cons, List.zipIdx_cons, List.allM, List.allM, hR hab, ih]

end Infra

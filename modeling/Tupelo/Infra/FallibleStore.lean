import Mathlib.Data.List.Induction
import Tupelo.Infra.StoreProgram

/-!
# Stores whose operations may fail

A store reads and adds values, one or several at a time, and each call may fail. Calls are kept in
a log with their results; the log says what has been read and what has been written.

A content-addressed store has at the end whatever it was seen to have: what a call has written,
and what a call has read (`view_of_written`, `view_of_read`).
-/

namespace Infra

/-- The operations. A read of several values answers for some of them and fails for others. -/
structure FallibleStore (τ ε κ ν : Type) where
  get : τ → κ → Except ε (Option ν) × τ
  getMany : τ → List κ → List (Except ε ν) × τ
  add : τ → ν → Except ε Unit × τ
  addMany : τ → List ν → Except ε Unit × τ

inductive StoreCall (κ ν : Type) where
  | get (k : κ)
  | getMany (ks : List κ)
  | add (v : ν)
  | addMany (vs : List ν)

/-- A call with its result. -/
inductive StoreEvent (ε κ ν : Type) where
  | get (k : κ) (result : Except ε (Option ν))
  | getMany (ks : List κ) (results : List (Except ε ν))
  | add (v : ν) (result : Except ε Unit)
  | addMany (vs : List ν) (result : Except ε Unit)

variable {τ ε κ ν : Type}

/-! ## Logs -/

/-- Some entry of the log has the property, which may refer to the entries before it. -/
def Occurs {α : Type} (log : List α) (P : List α → α → Prop) : Prop :=
  ∃ before e after, log = before ++ e :: after ∧ P before e

theorem occurs_nil {α : Type} {P : List α → α → Prop} : ¬ Occurs [] P := by
  rintro ⟨before, e, after, h, -⟩
  simp at h

theorem occurs_concat {α : Type} {log : List α} {a : α} {P : List α → α → Prop} :
    Occurs (log ++ [a]) P ↔ Occurs log P ∨ P log a := by
  constructor
  · rintro ⟨before, e, after, h, hP⟩
    rcases List.eq_nil_or_concat after with rfl | ⟨after', b, rfl⟩
    · obtain ⟨rfl, he⟩ := List.append_inj' h rfl
      rw [List.cons.inj he |>.1]
      exact Or.inr hP
    · rw [List.concat_eq_append, ← List.cons_append, ← List.append_assoc] at h
      obtain ⟨hlog, -⟩ := List.append_inj' h rfl
      exact Or.inl ⟨before, e, after', hlog, hP⟩
  · rintro (⟨before, e, after, rfl, hP⟩ | hP)
    · exact ⟨before, e, after ++ [a], by simp, hP⟩
    · exact ⟨log, a, [], rfl, hP⟩

namespace StoreEvent

/-- The call has found the value. -/
inductive Reads (v : ν) : StoreEvent ε κ ν → Prop
  | get (k : κ) : Reads v (.get k (.ok (some v)))
  | getMany (ks : List κ) {results : List (Except ε ν)} (h : .ok v ∈ results) :
    Reads v (.getMany ks results)

/-- The call has succeeded in writing the value. -/
inductive Writes (v : ν) : StoreEvent ε κ ν → Prop
  | add : Writes v (.add v (.ok ()))
  | addMany {vs : List ν} (h : v ∈ vs) : Writes v (.addMany vs (.ok ()))

end StoreEvent

def Written (log : List (StoreEvent ε κ ν)) (v : ν) : Prop := ∃ e ∈ log, e.Writes v

/-- The value was read, and had not been written before. -/
def FirstRead (log : List (StoreEvent ε κ ν)) (v : ν) : Prop :=
  Occurs log fun before e => e.Reads v ∧ ¬ Written before v

/-! ## Runs -/

namespace FallibleStore

variable (ops : FallibleStore τ ε κ ν)

def perform (t : τ) : StoreCall κ ν → StoreEvent ε κ ν × τ
  | .get k => (.get k (ops.get t k).1, (ops.get t k).2)
  | .getMany ks => (.getMany ks (ops.getMany t ks).1, (ops.getMany t ks).2)
  | .add v => (.add v (ops.add t v).1, (ops.add t v).2)
  | .addMany vs => (.addMany vs (ops.addMany t vs).1, (ops.addMany t vs).2)

/-- The log of the calls, and the store they leave. -/
def run (t : τ) (calls : List (StoreCall κ ν)) : List (StoreEvent ε κ ν) × τ :=
  calls.foldl (fun s call => (s.1 ++ [(ops.perform s.2 call).1], (ops.perform s.2 call).2)) ([], t)

theorem run_concat (t : τ) (calls : List (StoreCall κ ν)) (call : StoreCall κ ν) :
    ops.run t (calls ++ [call]) =
      ((ops.run t calls).1 ++ [(ops.perform (ops.run t calls).2 call).1],
        (ops.perform (ops.run t calls).2 call).2) := by
  rw [run, List.foldl_append]
  rfl

/-- What the one store has under a key the other has too. -/
def Keeps (entries entries' : κ → Option ν) : Prop :=
  ∀ k v, entries k = some v → entries' k = some v

/--
A content-addressed store. What it has it keeps, also through a call that fails, and gives when
it is asked for it; a call that succeeds has written all its values.
-/
structure Lawful (addr : ν → κ) (view : τ → κ → Option ν) : Prop where
  addressed : ∀ t, Addressed addr (view t)
  get_of_view : ∀ {t k v}, view t k = some v → (ops.get t k).1 = .ok (some v)
  view_of_get : ∀ {t k v}, (ops.get t k).1 = .ok (some v) → view t k = some v
  view_of_getMany : ∀ {t ks v}, .ok v ∈ (ops.getMany t ks).1 → view t (addr v) = some v
  view_add : ∀ {t v}, (ops.add t v).1 = .ok () → view (ops.add t v).2 (addr v) = some v
  view_addMany : ∀ {t vs}, (ops.addMany t vs).1 = .ok () →
    ∀ v ∈ vs, view (ops.addMany t vs).2 (addr v) = some v
  keeps : ∀ t call, Keeps (view t) (view (ops.perform t call).2)

namespace Lawful

variable {ops : FallibleStore τ ε κ ν} {addr : ν → κ} {view : τ → κ → Option ν}
  (h : ops.Lawful addr view)

include h

theorem view_perform {t : τ} {call : StoreCall κ ν} {v : ν}
    (hv : (ops.perform t call).1.Reads v ∨ (ops.perform t call).1.Writes v) :
    view (ops.perform t call).2 (addr v) = some v := by
  cases call with
  | get k =>
    generalize hr : (ops.get t k).1 = r
    rcases hv with hv | hv <;> simp only [perform, hr] at hv <;> cases hv
    have hk := h.view_of_get hr
    rw [h.addressed t k v hk]
    exact h.keeps t (.get k) k v hk
  | getMany ks =>
    rcases hv with hv | hv <;> cases hv
    next hmem => exact h.keeps t (.getMany ks) _ v (h.view_of_getMany hmem)
  | add n =>
    generalize hr : (ops.add t n).1 = r
    rcases hv with hv | hv <;> simp only [perform, hr] at hv <;> cases hv
    exact h.view_add hr
  | addMany ns =>
    generalize hr : (ops.addMany t ns).1 = r
    rcases hv with hv | hv <;> simp only [perform, hr] at hv <;> cases hv
    next hmem => exact h.view_addMany hr v hmem

/-- **What a call has read or written is there at the end.** -/
theorem view_of_mem (t : τ) (calls : List (StoreCall κ ν)) {e : StoreEvent ε κ ν} {v : ν} :
    e ∈ (ops.run t calls).1 → e.Reads v ∨ e.Writes v →
      view (ops.run t calls).2 (addr v) = some v := by
  induction calls using List.reverseRecOn with
  | nil => exact fun he => absurd he List.not_mem_nil
  | append_singleton calls call ih =>
    intro he hv
    rw [run_concat] at he ⊢
    rcases List.mem_append.mp he with he | he
    · exact h.keeps _ call _ v (ih he hv)
    · rw [List.mem_singleton.mp he] at hv
      exact h.view_perform hv

theorem view_of_written {t : τ} {calls : List (StoreCall κ ν)} {v : ν}
    (hv : Written (ops.run t calls).1 v) : view (ops.run t calls).2 (addr v) = some v := by
  obtain ⟨e, he, hw⟩ := hv
  exact h.view_of_mem t calls he (Or.inr hw)

theorem view_of_read {t : τ} {calls : List (StoreCall κ ν)} {e : StoreEvent ε κ ν} {v : ν}
    (he : e ∈ (ops.run t calls).1) (hv : e.Reads v) :
    view (ops.run t calls).2 (addr v) = some v :=
  h.view_of_mem t calls he (Or.inl hv)

/-- A value is read under its address. -/
theorem addr_of_get (t : τ) (calls : List (StoreCall κ ν)) {k : κ} {v : ν} :
    .get k (.ok (some v)) ∈ (ops.run t calls).1 → addr v = k := by
  induction calls using List.reverseRecOn with
  | nil => exact fun he => absurd he List.not_mem_nil
  | append_singleton calls call ih =>
    intro he
    rw [run_concat] at he
    rcases List.mem_append.mp he with he | he
    · exact ih he
    · have he' := List.mem_singleton.mp he
      cases call with
      | get id =>
        obtain ⟨rfl, hr⟩ := StoreEvent.get.inj he'
        exact h.addressed _ _ v (h.view_of_get hr.symm)
      | getMany ids => cases he'
      | add n => cases he'
      | addMany ns => cases he'

end Lawful

end FallibleStore

end Infra

import Mathlib.Data.List.Basic

/-!
# The latest entry of a log

A log of entries with keys, read as the map that has, for every key, the last entry with it.
-/

namespace Infra

variable {κ ε : Type} [DecidableEq κ] {key : ε → κ}
variable {log : List ε} {e : ε}

/-- The last entry of the log with key `k`. -/
def latest (key : ε → κ) (log : List ε) (k : κ) : Option ε := log.reverse.find? fun e => key e = k

/-- What is true of a log and of one more entry is true of the longer log. -/
theorem forall_mem_concat {P : ε → Prop} (h : ∀ x ∈ log, P x) (he : P e) : ∀ x ∈ log ++ [e], P x :=
  List.forall_mem_append.mpr ⟨h, List.forall_mem_singleton.mpr he⟩

/-- The same for a property of the position, too. -/
theorem forall_getElem?_concat {P : Nat → ε → Prop} (h : ∀ k x, log[k]? = some x → P k x)
    (he : P log.length e) : ∀ k x, (log ++ [e])[k]? = some x → P k x := by
  intro k x hx
  rcases Nat.lt_trichotomy k log.length with hk | rfl | hk
  · rw [List.getElem?_append_left hk] at hx
    exact h k x hx
  · rw [List.getElem?_concat_length] at hx
    rwa [← Option.some.inj hx]
  · rw [List.getElem?_eq_none (by rw [List.length_append]; exact hk)] at hx
    cases hx

/-- What comes later wins. -/
theorem latest_append (log later : List ε) (k : κ) :
    latest key (log ++ later) k = (latest key later k).or (latest key log k) := by
  unfold latest
  rw [List.reverse_append, List.find?_append]

theorem latest_cons (e : ε) (log : List ε) (k : κ) :
    latest key (e :: log) k = (latest key log k).or (if key e = k then some e else none) := by
  rw [← List.singleton_append, latest_append]
  unfold latest
  by_cases h : key e = k <;> simp [h]

theorem key_of_latest {k : κ} (h : latest key log k = some e) : key e = k := by
  simpa using List.find?_some h

theorem mem_of_latest {k : κ} (h : latest key log k = some e) :
    e ∈ log := List.mem_reverse.mp (List.mem_of_find?_eq_some h)

/-- Reading the log commutes with a map that keeps the keys. -/
theorem latest_map {ε' : Type} {key' : ε' → κ} (f : ε → ε') (hf : ∀ e, key' (f e) = key e)
    (log : List ε) (k : κ) : latest key' (log.map f) k = (latest key log k).map f := by
  have htest : (fun e => decide (key' e = k)) ∘ f = fun e => decide (key e = k) := by
    funext e
    simp only [Function.comp_apply, hf]
  unfold latest
  rw [← List.map_reverse, List.find?_map, htest]

end Infra

import Tupelo.Infra.Lists

/-!
# Splitting at the last separator

`splitOn` cuts a list at every separator. Cut off the last part and join the others again, and
the list has been cut at its last separator.
-/

namespace Infra

variable {α : Type} [BEq α] [LawfulBEq α] {sep : α} {l : List α}

/-- No part has the separator in it. -/
theorem not_mem_of_mem_splitOn {part : List α} (h : part ∈ l.splitOn sep) : sep ∉ part := by
  induction l generalizing part with
  | nil =>
    rw [List.splitOn_nil, List.mem_singleton] at h
    simp [h]
  | cons a l ih =>
    rw [List.splitOn_cons_eq_if_modifyHead] at h
    split at h
    · rcases List.mem_cons.mp h with rfl | h
      · exact List.not_mem_nil
      · exact ih h
    · next hne =>
      -- `a` joins the first part of the rest
      obtain ⟨p, ps, hps⟩ := List.exists_cons_of_ne_nil (List.splitOn_ne_nil sep l)
      rw [hps, List.modifyHead_cons] at h
      rcases List.mem_cons.mp h with rfl | h
      · have hp : sep ∉ p := ih (by rw [hps]; exact List.mem_cons_self)
        intro hmem
        rcases List.mem_cons.mp hmem with rfl | hmem
        · exact hne (beq_self_eq_true _)
        · exact hp hmem
      · exact ih (by rw [hps]; exact List.mem_cons_of_mem _ h)

theorem splitOn_of_not_mem (h : sep ∉ l) : l.splitOn sep = [l] :=
  List.splitOn_eq_singleton h

/-- The part after the last separator comes last. -/
theorem splitOn_append_last {a b : List α} (hb : sep ∉ b) :
    (a ++ sep :: b).splitOn sep = a.splitOn sep ++ [b] := by
  rw [List.splitOn_append_cons_self, splitOn_of_not_mem hb]

end Infra

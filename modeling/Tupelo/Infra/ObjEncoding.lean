import Tupelo.Infra.MerkleDag

/-!
# An injective encoding of objects

Each constructor has its own first byte, and the elements of lists and maps are each announced
by a one and closed by a zero. Given a self-delimiting code for addresses the whole is
self-delimiting, so an object can serve as its own address.
-/

namespace Infra

variable {C : Type}

def encStr (s : String) : Bytes := encList (fun c : Char => encNat c.toNat) s.toList

mutual

def encObj (encC : C → Bytes) : Obj C → Bytes
  | .null => [0]
  | .uint n => 1 :: encNat n.toNat
  | .str s => 2 :: encStr s
  | .link c => 3 :: encC c
  | .list xs => 4 :: encObjs encC xs
  | .map fields => 5 :: encFields encC fields
  | .other code => 6 :: encBytes code

def encObjs (encC : C → Bytes) : List (Obj C) → Bytes
  | [] => [0]
  | x :: xs => 1 :: (encObj encC x ++ encObjs encC xs)

def encFields (encC : C → Bytes) : List (String × Obj C) → Bytes
  | [] => [0]
  | e :: es => 1 :: (encField encC e ++ encFields encC es)

def encField (encC : C → Bytes) : String × Obj C → Bytes
  | (k, v) => encStr k ++ encObj encC v

end

theorem selfDelimiting_encStr : SelfDelimiting encStr := by
  intro s t r r' h
  have hchar : SelfDelimiting fun c : Char => encNat c.toNat := by
    intro a b r r' h
    obtain ⟨hab, hr⟩ := selfDelimiting_encNat _ _ _ _ h
    exact ⟨Char.toNat_inj.mp hab, hr⟩
  obtain ⟨hst, hr⟩ := hchar.encList _ _ _ _ h
  exact ⟨String.toList_inj.mp hst, hr⟩

variable {encC : C → Bytes}

mutual

theorem encObj_delimits (hC : SelfDelimiting encC) : ∀ (x y : Obj C) (r s : Bytes),
    encObj encC x ++ r = encObj encC y ++ s → x = y ∧ r = s := by
  intro x y r s h
  cases x <;> cases y <;> simp only [encObj, List.cons_append, List.cons.injEq] at h
  case null.null => exact ⟨rfl, h.2⟩
  case uint.uint n m =>
    obtain ⟨hnm, hr⟩ := selfDelimiting_encNat _ _ _ _ h.2
    exact ⟨by rw [UInt64.toNat_inj.mp hnm], hr⟩
  case str.str a b =>
    obtain ⟨hab, hr⟩ := selfDelimiting_encStr _ _ _ _ h.2
    exact ⟨by rw [hab], hr⟩
  case link.link a b =>
    obtain ⟨hab, hr⟩ := hC _ _ _ _ h.2
    exact ⟨by rw [hab], hr⟩
  case list.list xs ys =>
    obtain ⟨hxy, hr⟩ := encObjs_delimits hC xs ys r s h.2
    exact ⟨by rw [hxy], hr⟩
  case map.map xs ys =>
    obtain ⟨hxy, hr⟩ := encFields_delimits hC xs ys r s h.2
    exact ⟨by rw [hxy], hr⟩
  case other.other a b =>
    obtain ⟨hab, hr⟩ := selfDelimiting_encBytes _ _ _ _ h.2
    exact ⟨by rw [hab], hr⟩
  all_goals exact absurd h.1 (by decide)

theorem encObjs_delimits (hC : SelfDelimiting encC) : ∀ (xs ys : List (Obj C)) (r s : Bytes),
    encObjs encC xs ++ r = encObjs encC ys ++ s → xs = ys ∧ r = s
  | [], [], r, s, h => ⟨rfl, by simpa [encObjs] using h⟩
  | [], _ :: _, r, s, h => absurd h (by simp [encObjs])
  | _ :: _, [], r, s, h => absurd h (by simp [encObjs])
  | x :: xs, y :: ys, r, s, h => by
    simp only [encObjs, List.cons_append, List.append_assoc, List.cons.injEq, true_and] at h
    obtain ⟨hxy, h⟩ := encObj_delimits hC x y _ _ h
    obtain ⟨hrest, hr⟩ := encObjs_delimits hC xs ys r s h
    exact ⟨by rw [hxy, hrest], hr⟩

theorem encFields_delimits (hC : SelfDelimiting encC) :
    ∀ (xs ys : List (String × Obj C)) (r s : Bytes),
      encFields encC xs ++ r = encFields encC ys ++ s → xs = ys ∧ r = s
  | [], [], r, s, h => ⟨rfl, by simpa [encFields] using h⟩
  | [], _ :: _, r, s, h => absurd h (by simp [encFields])
  | _ :: _, [], r, s, h => absurd h (by simp [encFields])
  | (k, x) :: xs, (k', y) :: ys, r, s, h => by
    simp only [encFields, encField, List.cons_append, List.append_assoc, List.cons.injEq,
      true_and] at h
    obtain ⟨hk, h⟩ := selfDelimiting_encStr _ _ _ _ h
    obtain ⟨hxy, h⟩ := encObj_delimits hC x y _ _ h
    obtain ⟨hrest, hr⟩ := encFields_delimits hC xs ys r s h
    exact ⟨by rw [hk, hxy, hrest], hr⟩

end

/-- **An object can be read off the front of its code.** -/
theorem selfDelimiting_encObj (hC : SelfDelimiting encC) : SelfDelimiting (encObj encC) :=
  encObj_delimits hC

end Infra

import Mathlib.Data.List.AList
import Mathlib.Data.List.FinRange
import Tupelo.Infra.Latest

/-!
# Maps that are ranged over and deleted from

Association lists without repeated keys, with the two loops that programs write over maps: one
that deletes the entries a test selects, one that writes a list of entries. Both are described
by what `lookup` returns afterwards.
-/

namespace Infra

/-- A finite map. The order of its entries is one of the orders it can be ranged over in. -/
abbrev GoMap (κ β : Type) := AList fun _ : κ => β

/-- An order to range over maps in: which of `n` entries comes where. -/
structure MapOrder where
  position : (n : Nat) → Equiv.Perm (Fin n)

namespace MapOrder

/-- As the entries come. -/
def plain : MapOrder := ⟨fun _ => Equiv.refl _⟩

def order {ε : Type} (ord : MapOrder) (es : List ε) : List ε :=
  List.ofFn fun i => es.get (ord.position es.length i)

theorem perm {ε : Type} (ord : MapOrder) (es : List ε) : (ord.order es).Perm es := by
  have h := Equiv.Perm.ofFn_comp_perm (ord.position es.length) es.get
  rw [List.ofFn_get] at h
  exact h

@[simp] theorem mem_order {ε : Type} {ord : MapOrder} {es : List ε} {e : ε} :
    e ∈ ord.order es ↔ e ∈ es := (ord.perm es).mem_iff

/-- The other way round. -/
def reversed : MapOrder := ⟨fun _ => Fin.revPerm⟩

@[simp] theorem order_plain {ε : Type} (es : List ε) : plain.order es = es := List.ofFn_get es

theorem order_reversed {ε : Type} (es : List ε) : reversed.order es = es.reverse := by
  refine List.ext_getElem (by simp [order]) ?_
  intro i hi hi'
  simp only [order, reversed, List.getElem_ofFn, List.getElem_reverse, List.get_eq_getElem,
    Fin.revPerm_apply, Fin.val_rev]
  congr 1
  omega

/-- There is one order of a list that is very short. -/
theorem eq_of_perm {ε : Type} {es es' : List ε} (h : es.Perm es') (hshort : es'.length ≤ 1) :
    es = es' := by
  rcases es' with _ | ⟨e, _ | ⟨e', rest⟩⟩
  · exact h.eq_nil
  · exact h.eq_singleton
  · simp only [List.length_cons] at hshort
    omega

/-- A list that is the same the other way round repeats itself, unless it is very short. -/
theorem length_le_one_of_reversed {ε : Type} {es : List ε} (hnodup : es.Nodup)
    (h : reversed.order es = es) : es.length ≤ 1 := by
  by_contra hlong
  rw [order_reversed] at h
  have hends : es[es.length - 1 - 0]? = es[0]? := by
    rw [← List.getElem?_reverse (by omega), h]
  exact List.nodup_iff_getElem?_ne_getElem?.mp hnodup 0 (es.length - 1) (by omega) (by omega)
    hends.symm

end MapOrder

namespace GoMap

variable {κ β : Type} [DecidableEq κ]
variable {m : GoMap κ β} {k : κ}

/-- `for _, key := range keys { delete(m, key) }`. -/
def eraseAll (m : GoMap κ β) (keys : List κ) : GoMap κ β := keys.foldl (fun m k => m.erase k) m

/-- `for key := range m { if p(key) { delete(m, key) } }`. -/
def eraseIf (m : GoMap κ β) (p : κ → Bool) : GoMap κ β := eraseAll m (m.keys.filter p)

/-- `for _, e := range es { m[key(e)] = val(e) }`. -/
def insertAll {ε : Type} (m : GoMap κ β) (key : ε → κ) (val : ε → β) (es : List ε) : GoMap κ β :=
  es.foldl (fun m e => m.insert (key e) (val e)) m

/-- The entries, as `for k, v := range m` gives them. -/
def pairs (m : GoMap κ β) : List (κ × β) := m.entries.map fun e => (e.1, e.2)

/-- `for k, v := range m { r[k] = f(k, v) }` for a new `r`. -/
def mapValues {γ : Type} (m : GoMap κ β) (f : κ → β → γ) : GoMap κ γ :=
  insertAll ∅ Prod.fst (fun e => f e.1 e.2) (pairs m)

theorem lookup_eraseAll {keys : List κ} : ∀ {m : GoMap κ β} {k : κ},
    (eraseAll m keys).lookup k = if k ∈ keys then none else m.lookup k := by
  induction keys with
  | nil => intro m k; simp [eraseAll]
  | cons a keys ih =>
    intro m k
    show (eraseAll (m.erase a) keys).lookup k = _
    rw [ih]
    by_cases hk : k ∈ keys
    · simp [hk]
    · by_cases ha : k = a
      · subst ha
        simp [hk]
      · rw [if_neg hk, if_neg (by simp [hk, ha]), AList.lookup_erase_ne ha]

theorem lookup_eraseIf {p : κ → Bool} :
    (eraseIf m p).lookup k = if p k then none else m.lookup k := by
  unfold eraseIf
  rw [lookup_eraseAll]
  by_cases hp : p k = true
  · rw [if_pos hp]
    by_cases hm : k ∈ m.keys
    · rw [if_pos (List.mem_filter.mpr ⟨hm, hp⟩)]
    · rw [if_neg (fun h => hm (List.mem_filter.mp h).1)]
      exact AList.lookup_eq_none.mpr fun h => hm (AList.mem_keys.mp h)
  · rw [if_neg hp, if_neg (fun h => hp (List.mem_filter.mp h).2)]

/-- Ranging over a list writes, for each key, the latest entry that has it. -/
theorem lookup_insertAll {ε : Type} {key : ε → κ} {val : ε → β} :
    ∀ {es : List ε} {m : GoMap κ β},
      (insertAll m key val es).lookup k = ((latest key es k).map val).or (m.lookup k)
  | [], _ => rfl
  | a :: es, m => by
    show (insertAll (m.insert (key a) (val a)) key val es).lookup k = _
    rw [lookup_insertAll, latest_cons]
    cases latest key es k with
    | some e => rfl
    | none =>
      by_cases ha : key a = k
      · subst ha
        simp
      · simp [ha, AList.lookup_insert_ne (Ne.symm ha)]

theorem mem_pairs {v : β} : (k, v) ∈ pairs m ↔ m.lookup k = some v := by
  unfold pairs
  rw [← Option.mem_def, AList.mem_lookup_iff, List.mem_map]
  constructor
  · rintro ⟨⟨k', v'⟩, he, heq⟩
    obtain ⟨rfl, rfl⟩ := Prod.mk.inj heq
    exact he
  · intro he
    exact ⟨⟨k, v⟩, he, rfl⟩

/-- Every value of the result is made of one of the map. -/
theorem exists_of_lookup_mapValues {γ : Type} {f : κ → β → γ} {y : γ}
    (h : (mapValues m f).lookup k = some y) : ∃ v, m.lookup k = some v ∧ y = f k v := by
  unfold mapValues at h
  rw [lookup_insertAll] at h
  cases hl : latest Prod.fst (pairs m) k with
  | none =>
    rw [hl] at h
    simp at h
  | some e =>
    rw [hl] at h
    have hk : e.1 = k := key_of_latest hl
    refine ⟨e.2, mem_pairs.mp ?_, ?_⟩
    · rw [← hk]
      exact mem_of_latest hl
    · rw [← hk]
      exact (Option.some.inj h).symm

end GoMap

end Infra

import Mathlib.Logic.Function.Basic
import Mathlib.Order.Basic
import Tupelo.Infra.Encoding

/-!
# Content-addressed DAGs

Objects of the shape of CBOR values, whose links name other objects by their content, and a
store that keeps objects under their names. A path is resolved from an object through the
fields of maps, following links. Writing at a path makes new objects along it and changes none;
what becomes of something on the way that is no map is a parameter, `Lift`.

Three facts carry everything that is proved about such DAGs: what a store has it keeps
(`find_mono`), two stores never disagree (`Store.agree`), and a write is read back where it
was made (`find_put`) and nowhere else (`find_put_of_apart`).
-/

namespace Infra

/-- What a node of a DAG or a field of one holds; `other` stands for the remaining scalars. -/
inductive Obj (C : Type) where
  | null
  | uint (n : UInt64)
  | str (s : String)
  | link (c : C)
  | list (xs : List (Obj C))
  | map (fields : List (String × Obj C))
  | other (code : Bytes)

namespace Obj

variable {C : Type}

/-- The order of the keys of a map in canonical CBOR: by length, then by bytes. -/
def keyBefore (a b : String) : Bool :=
  a.utf8ByteSize < b.utf8ByteSize || (a.utf8ByteSize == b.utf8ByteSize && a < b)

/-- `m[k] = v`, in canonical order. -/
def setField : List (String × Obj C) → String → Obj C → List (String × Obj C)
  | [], k, v => [(k, v)]
  | (a, x) :: rest, k, v =>
    if a = k then (k, v) :: rest
    else if keyBefore k a then (k, v) :: (a, x) :: rest
    else (a, x) :: setField rest k v

/-- The entries of a map: of two with one key the first counts. -/
def entries : List (String × Obj C) → List (String × Obj C)
  | [] => []
  | e :: rest => e :: (entries rest).filter fun e' => !(e'.1 == e.1)

@[simp] theorem lookup_setField_self (k : String) (v : Obj C) :
    ∀ fields : List (String × Obj C), (setField fields k v).lookup k = some v
  | [] => by simp [setField]
  | (a, x) :: rest => by
    unfold setField
    by_cases ha : a = k
    · simp [ha]
    · have hne : (k == a) = false := beq_eq_false_iff_ne.mpr (Ne.symm ha)
      rw [if_neg ha]
      split
      · simp
      · rw [List.lookup_cons, hne]
        exact lookup_setField_self k v rest

theorem lookup_setField_of_ne {k k' : String} (h : k' ≠ k) (v : Obj C) :
    ∀ fields : List (String × Obj C), (setField fields k v).lookup k' = fields.lookup k'
  | [] => by
    have hne : (k' == k) = false := beq_eq_false_iff_ne.mpr h
    simp [setField, List.lookup_cons, hne]
  | (a, x) :: rest => by
    unfold setField
    by_cases ha : a = k
    · subst ha
      have hne : (k' == a) = false := beq_eq_false_iff_ne.mpr h
      simp [List.lookup_cons, hne]
    · have hne : (k' == k) = false := beq_eq_false_iff_ne.mpr h
      rw [if_neg ha]
      split
      · rw [List.lookup_cons, hne]
      · rw [List.lookup_cons, List.lookup_cons, lookup_setField_of_ne h v rest]

theorem lookup_of_mem_entries {k : String} {v : Obj C} :
    ∀ {fields : List (String × Obj C)}, (k, v) ∈ entries fields → fields.lookup k = some v
  | [], h => by cases h
  | (a, x) :: rest, h => by
    rw [entries, List.mem_cons] at h
    rcases h with h | h
    · obtain ⟨rfl, rfl⟩ := Prod.mk.inj h
      simp
    · obtain ⟨hmem, hne⟩ := List.mem_filter.mp h
      have hka : (k == a) = false := by simpa using hne
      rw [List.lookup_cons, hka]
      exact lookup_of_mem_entries hmem

theorem mem_entries_of_lookup {k : String} {v : Obj C} :
    ∀ {fields : List (String × Obj C)}, fields.lookup k = some v → (k, v) ∈ entries fields
  | [], h => by cases h
  | (a, x) :: rest, h => by
    rw [List.lookup_cons] at h
    rw [entries, List.mem_cons]
    by_cases hka : k = a
    · subst hka
      rw [beq_self_eq_true] at h
      exact Or.inl (by rw [← Option.some.inj h])
    · rw [beq_eq_false_iff_ne.mpr hka] at h
      exact Or.inr (List.mem_filter.mpr ⟨mem_entries_of_lookup h, by simpa using hka⟩)

/-- No two entries have the same key. -/
theorem nodup_keys_entries : ∀ fields : List (String × Obj C),
    ((entries fields).map Prod.fst).Nodup
  | [] => List.nodup_nil
  | (a, x) :: rest => by
    rw [entries, List.map_cons, List.nodup_cons]
    refine ⟨?_, (List.filter_sublist.map Prod.fst).nodup (nodup_keys_entries rest)⟩
    intro h
    obtain ⟨e, he, hea⟩ := List.mem_map.mp h
    simp [hea] at he

end Obj

namespace MerkleDag

/-- The objects that are kept, each under its own address. -/
structure Store {C : Type} (addr : Obj C → C) where
  nodes : C → Option (Obj C)
  addressed : ∀ {c o}, nodes c = some o → addr o = c

variable {C : Type} {addr : Obj C → C}
variable {S T : Store addr} {o v x : Obj C} {fields : List (String × Obj C)} {p q : List String}
  {k : String}

namespace Store

/-- `S ≤ T`: what `S` keeps, `T` keeps as well. -/
instance : Preorder (Store addr) where
  le S T := ∀ c o, S.nodes c = some o → T.nodes c = some o
  le_refl _ _ _ h := h
  le_trans _ _ _ h h' c o hc := h' c o (h c o hc)

/-- **Two stores never disagree**, since an address has one object. -/
theorem agree (hinj : Function.Injective addr) {c : C} {o' : Obj C} (h : S.nodes c = some o)
    (h' : T.nodes c = some o') : o = o' :=
  hinj ((S.addressed h).trans (T.addressed h').symm)

def empty : Store addr := ⟨fun _ => none, fun h => by cases h⟩

variable [DecidableEq C]

def add (S : Store addr) (o : Obj C) : Store addr where
  nodes := Function.update S.nodes (addr o) (some o)
  addressed := by
    intro c x hx
    by_cases hc : c = addr o
    · subst hc
      rw [Function.update_self] at hx
      rw [← Option.some.inj hx]
    · rw [Function.update_of_ne hc] at hx
      exact S.addressed hx

@[simp] theorem nodes_add_self (S : Store addr) (o : Obj C) :
    (S.add o).nodes (addr o) = some o := Function.update_self ..

theorem le_add (hinj : Function.Injective addr) (S : Store addr) (o : Obj C) : S ≤ S.add o := by
  intro c x hx
  by_cases hc : c = addr o
  · subst hc
    rw [nodes_add_self, agree hinj hx (nodes_add_self S o)]
  · show Function.update S.nodes (addr o) (some o) c = some x
    rw [Function.update_of_ne hc, hx]

theorem nodes_add_iff (hinj : Function.Injective addr) {c : C} :
    (S.add o).nodes c = some x ↔ (x = o ∧ addr x = c) ∨ S.nodes c = some x := by
  constructor
  · intro h
    by_cases hc : c = addr o
    · subst hc
      rw [nodes_add_self] at h
      obtain rfl := Option.some.inj h
      exact Or.inl ⟨rfl, rfl⟩
    · exact Or.inr (by rw [← h]; exact (Function.update_of_ne hc _ _).symm)
  · rintro (⟨rfl, rfl⟩ | h)
    · exact nodes_add_self S x
    · exact le_add hinj S o c x h

/-- What is kept after some objects have been added. -/
theorem nodes_foldl_add_iff (hinj : Function.Injective addr) {c : C} :
    ∀ {os : List (Obj C)} {S : Store addr},
      (os.foldl add S).nodes c = some x ↔ (x ∈ os ∧ addr x = c) ∨ S.nodes c = some x
  | [], S => by simp
  | o :: os, S => by
    rw [List.foldl_cons, nodes_foldl_add_iff hinj, nodes_add_iff hinj, List.mem_cons]
    tauto

/-- The order in which objects are added does not matter. -/
theorem foldl_add_perm (hinj : Function.Injective addr) {os os' : List (Obj C)}
    (h : os.Perm os') (S : Store addr) : os.foldl add S = os'.foldl add S := by
  have hnodes : (os.foldl add S).nodes = (os'.foldl add S).nodes := by
    funext c
    refine Option.ext fun x => ?_
    rw [nodes_foldl_add_iff hinj, nodes_foldl_add_iff hinj, h.mem_iff]
  cases hS : os.foldl add S
  cases hS' : os'.foldl add S
  rw [hS, hS'] at hnodes
  cases hnodes
  rfl

end Store

/-! ## Resolving a path -/

/-- The object a field stands for. -/
def follow (S : Store addr) : Obj C → Option (Obj C)
  | .link c => S.nodes c
  | o => some o

/--
What is found at the end of a path, if anything.

It fails where a linked object is not in the store, and where the path goes on below something
that is not a map.
-/
def find (S : Store addr) : Obj C → List String → Option (Option (Obj C))
  | o, [] => some (some o)
  | .map fields, k :: rest =>
    match fields.lookup k with
    | none => some none
    | some v => (follow S v).bind fun o => find S o rest
  | _, _ :: _ => none

@[simp] theorem find_nil (S : Store addr) (o : Obj C) : find S o [] = some (some o) := by
  cases o <;> rfl

theorem find_cons_of_lookup (h : fields.lookup k = some v) (rest : List String) :
    find S (.map fields) (k :: rest) = (follow S v).bind fun o => find S o rest := by
  rw [find, h]

theorem find_cons_of_lookup_none (h : fields.lookup k = none) (rest : List String) :
    find S (.map fields) (k :: rest) = some none := by
  rw [find, h]

/-- The ways to follow a path that has a first step. -/
theorem find_cons_cases {rest : List String} {y : Option (Obj C)}
    (h : find S o (k :: rest) = some y) :
    ∃ fields, o = .map fields ∧
      ((fields.lookup k = none ∧ y = none) ∨
        ∃ v x, fields.lookup k = some v ∧ follow S v = some x ∧ find S x rest = some y) := by
  cases o with
  | map fields =>
    refine ⟨fields, rfl, ?_⟩
    cases hk : fields.lookup k with
    | none =>
      rw [find_cons_of_lookup_none hk] at h
      exact Or.inl ⟨rfl, (Option.some.inj h).symm⟩
    | some v =>
      rw [find_cons_of_lookup hk] at h
      obtain ⟨x, hx, h⟩ := Option.bind_eq_some_iff.mp h
      exact Or.inr ⟨v, x, rfl, hx, h⟩
  | _ => cases h

theorem follow_mono (hle : S ≤ T) (h : follow S v = some x) : follow T v = some x := by
  cases v with
  | link c => exact hle c x h
  | _ => exact h

/-- **What a store has it keeps.** -/
theorem find_mono (hle : S ≤ T) :
    ∀ {o : Obj C} {y : Option (Obj C)}, find S o p = some y → find T o p = some y := by
  induction p with
  | nil =>
    intro o y h
    rw [find_nil] at h ⊢
    exact h
  | cons k rest ih =>
    intro o y h
    obtain ⟨fields, rfl, ⟨hk, rfl⟩ | ⟨v, x, hk, hx, hy⟩⟩ := find_cons_cases h
    · exact find_cons_of_lookup_none hk rest
    · rw [find_cons_of_lookup hk, follow_mono hle hx]
      exact ih hy

theorem find_append :
    ∀ {o x : Obj C}, find S o p = some (some x) → find S o (p ++ q) = find S x q := by
  induction p with
  | nil =>
    intro o x h
    rw [find_nil] at h
    rw [List.nil_append, Option.some.inj (Option.some.inj h)]
  | cons k rest ih =>
    intro o x h
    obtain ⟨fields, rfl, ⟨hk, hy⟩ | ⟨v, y, hk, hy, hx⟩⟩ := find_cons_cases h
    · cases hy
    · rw [List.cons_append, find_cons_of_lookup hk, hy]
      exact ih hx

/-- Where a path is missing, everything below is missing. -/
theorem find_append_missing :
    ∀ {o : Obj C}, find S o p = some none → find S o (p ++ q) = some none := by
  induction p with
  | nil =>
    intro o h
    rw [find_nil] at h
    cases Option.some.inj h
  | cons a p ih =>
    intro o h
    obtain ⟨fields, rfl, ⟨hk, -⟩ | ⟨v, y, hk, hy, hmissing⟩⟩ := find_cons_cases h
    · exact find_cons_of_lookup_none hk _
    · rw [List.cons_append, find_cons_of_lookup hk, hy]
      exact ih hmissing

/-- What comes of following a path. -/
inductive Found (C : Type) where
  | found (x : Obj C)
  | missing
  /-- The path goes on, by these steps, below something that is no map. -/
  | stopped (x : Obj C) (rest : List String)

/-- Where a path leads. It fails only where a linked object is not in the store. -/
def look (S : Store addr) : Obj C → List String → Option (Found C)
  | o, [] => some (.found o)
  | .map fields, k :: rest =>
    match fields.lookup k with
    | none => some .missing
    | some v => (follow S v).bind fun o => look S o rest
  | o, k :: rest => some (.stopped o (k :: rest))

@[simp] theorem look_nil (S : Store addr) (o : Obj C) : look S o [] = some (.found o) := by
  cases o <;> rfl

theorem look_cons_of_lookup (h : fields.lookup k = some v) (rest : List String) :
    look S (.map fields) (k :: rest) = (follow S v).bind fun o => look S o rest := by
  rw [look, h]

theorem look_cons_of_lookup_none (h : fields.lookup k = none) (rest : List String) :
    look S (.map fields) (k :: rest) = some .missing := by
  rw [look, h]

/-- What is found is what the path leads to, and what is missing it does not lead to. -/
theorem find_eq_look : ∀ {o : Obj C},
    find S o p = (look S o p).bind fun
      | .found x => some (some x)
      | .missing => some none
      | .stopped _ _ => none := by
  induction p with
  | nil =>
    intro o
    rw [find_nil, look_nil]
    rfl
  | cons k rest ih =>
    intro o
    cases o with
    | map fields =>
      cases hk : fields.lookup k with
      | none =>
        rw [find_cons_of_lookup_none hk, look_cons_of_lookup_none hk]
        rfl
      | some v =>
        rw [find_cons_of_lookup hk, look_cons_of_lookup hk]
        cases follow S v with
        | none => rfl
        | some x => exact ih
    | _ => rfl

theorem look_mono (hle : S ≤ T) :
    ∀ {o : Obj C} {f : Found C}, look S o p = some f → look T o p = some f := by
  induction p with
  | nil =>
    intro o f h
    rw [look_nil] at h ⊢
    exact h
  | cons k rest ih =>
    intro o f h
    cases o with
    | map fields =>
      cases hk : fields.lookup k with
      | none =>
        rw [look_cons_of_lookup_none hk] at h ⊢
        exact h
      | some v =>
        rw [look_cons_of_lookup hk] at h ⊢
        obtain ⟨x, hx, h⟩ := Option.bind_eq_some_iff.mp h
        rw [follow_mono hle hx]
        exact ih h
    | _ => exact h

/-! ## Writing at a path -/

/-- The object below a field; a missing one is made. -/
def child (S : Store addr) (fields : List (String × Obj C)) (k : String) : Option (Obj C) :=
  match fields.lookup k with
  | none => some (.map [])
  | some v => follow S v

/-- What is found below a map is found through its field. -/
theorem find_of_child {inner : Obj C} (h : child S fields k = some inner) (hq : q ≠ []) :
    find S (.map fields) (k :: q) = find S inner q := by
  unfold child at h
  cases hk : fields.lookup k with
  | none =>
    rw [hk] at h
    obtain rfl := Option.some.inj h
    cases q with
    | nil => exact absurd rfl hq
    | cons k' q =>
      rw [find_cons_of_lookup_none hk, find_cons_of_lookup_none (by rfl)]
  | some v =>
    rw [hk] at h
    rw [find_cons_of_lookup hk]
    simp only [h, Option.bind_some]

/-- Two paths that part at some step. -/
inductive Apart : List String → List String → Prop where
  | head {k k' : String} (h : k ≠ k') (p q : List String) : Apart (k :: p) (k' :: q)
  | tail (k : String) {p q : List String} (h : Apart p q) : Apart (k :: p) (k :: q)

theorem Apart.append_left (h : Apart p q) : ∀ l : List String,
    Apart (l ++ p) (l ++ q)
  | [] => h
  | k :: l => Apart.tail k (h.append_left l)

theorem Apart.ne_nil (h : Apart p q) : q ≠ [] := by
  cases h with
  | head _ _ _ => exact List.cons_ne_nil _ _
  | tail _ _ => exact List.cons_ne_nil _ _

theorem find_setField_of_ne {k' : String} (h : k' ≠ k) (fields : List (String × Obj C)) (v : Obj C)
    (q : List String) :
    find S (.map (Obj.setField fields k v)) (k' :: q) = find S (.map fields) (k' :: q) := by
  rw [find, find, Obj.lookup_setField_of_ne h v fields]

section Put

variable [DecidableEq C]

/--
What a write makes of something that is no map, by the key it goes on at and the keys after that:
it fails, or a map takes its place that is empty, or has one field, the key.
-/
abbrev Lift (C : Type) := Obj C → String → List String → Option (Option (Obj C))

omit [DecidableEq C] in
/-- The fields of the map that a write goes on in. -/
def opened (lift : Lift C) (o : Obj C) (k : String) (rest : List String) :
    Option (List (String × Obj C)) :=
  match o with
  | .map fields => some fields
  | o => (lift o k rest).map fun
    | none => []
    | some x => [(k, x)]

/-- The object with `v` at the path, and the store with the objects made below it. -/
def put (lift : Lift C) (S : Store addr) : Obj C → List String → Obj C →
    Option (Obj C × Store addr)
  | _, [], _ => none
  | o, [k], v => (opened lift o k []).map fun fields => (.map (Obj.setField fields k v), S)
  | o, k :: k' :: rest, v =>
    (opened lift o k (k' :: rest)).bind fun fields =>
      (child S fields k).bind fun inner => (put lift S inner (k' :: rest) v).map fun r =>
        (.map (Obj.setField fields k (.link (addr r.1))), r.2.add r.1)

variable {lift : Lift C}

theorem put_singleton_cases {r : Obj C × Store addr} (h : put lift S o [k] v = some r) :
    ∃ fields, opened lift o k [] = some fields ∧ r = (.map (Obj.setField fields k v), S) := by
  rw [put] at h
  obtain ⟨fields, hfields, hr⟩ := Option.map_eq_some_iff.mp h
  exact ⟨fields, hfields, hr.symm⟩

theorem put_cons_of_ne_nil (hq : q ≠ []) (k : String) (v : Obj C) :
    put lift S o (k :: q) v = (opened lift o k q).bind fun fields =>
      (child S fields k).bind fun inner => (put lift S inner q v).map fun r =>
        (.map (Obj.setField fields k (.link (addr r.1))), r.2.add r.1) := by
  obtain ⟨k', rest, rfl⟩ := List.exists_cons_of_ne_nil hq
  rw [put]

theorem put_cons_cases {r : Obj C × Store addr} (hq : q ≠ [])
    (h : put lift S o (k :: q) v = some r) :
    ∃ fields inner o₁ S₁, opened lift o k q = some fields ∧ child S fields k = some inner ∧
      put lift S inner q v = some (o₁, S₁) ∧
      r = (.map (Obj.setField fields k (.link (addr o₁))), S₁.add o₁) := by
  rw [put_cons_of_ne_nil hq] at h
  obtain ⟨fields, hfields, h⟩ := Option.bind_eq_some_iff.mp h
  obtain ⟨inner, hinner, h⟩ := Option.bind_eq_some_iff.mp h
  obtain ⟨⟨o₁, S₁⟩, hput, hr⟩ := Option.map_eq_some_iff.mp h
  exact ⟨fields, inner, o₁, S₁, hfields, hinner, hput, hr.symm⟩

/-- **Writing only adds to the store.** -/
theorem le_put (hinj : Function.Injective addr) :
    ∀ {o o' : Obj C} {S' : Store addr}, put lift S o p v = some (o', S') → S ≤ S' := by
  induction p with
  | nil =>
    intro o o' S' h
    rw [put] at h
    cases h
  | cons k rest ih =>
    intro o o' S' h
    cases rest with
    | nil =>
      obtain ⟨fields, -, hr⟩ := put_singleton_cases h
      rw [(Prod.mk.inj hr).2]
    | cons k' rest =>
      obtain ⟨fields, inner, o₁, S₁, -, -, hput, hr⟩ := put_cons_cases (by simp) h
      rw [(Prod.mk.inj hr).2]
      exact (ih hput).trans (S₁.le_add hinj o₁)

/-- After a write below `k`, what is under `k` is what the write made. -/
theorem find_through_link (fields : List (String × Obj C)) (k : String) (o₁ : Obj C)
    (q : List String) :
    find (S.add o₁) (.map (Obj.setField fields k (.link (addr o₁)))) (k :: q) =
      find (S.add o₁) o₁ q := by
  rw [find_cons_of_lookup (Obj.lookup_setField_self k _ fields)]
  simp only [follow, Store.nodes_add_self, Option.bind_some]

/--
**A write is read back where it was made**: there is a map with the new field, and if there was a
map before, it has its other fields as well.
-/
theorem find_put (hinj : Function.Injective addr) : ∀ {o o' : Obj C} {S' : Store addr},
      put lift S o (p ++ [k]) v = some (o', S') →
      ∃ fields, (∀ fields', find S o p = some (some (.map fields')) → fields' = fields) ∧
        find S' o' p = some (some (.map (Obj.setField fields k v))) := by
  induction p with
  | nil =>
    intro o o' S' h
    obtain ⟨fields, hopened, hr⟩ := put_singleton_cases h
    obtain ⟨rfl, rfl⟩ := Prod.mk.inj hr
    refine ⟨fields, fun fields' hmap => ?_, find_nil _ _⟩
    rw [find_nil] at hmap
    rw [Option.some.inj (Option.some.inj hmap)] at hopened
    exact Option.some.inj hopened
  | cons a p ih =>
    intro o o' S' h
    obtain ⟨fields, inner, o₁, S₁, hopened, hinner, hput, hr⟩ := put_cons_cases (by simp) h
    obtain ⟨rfl, rfl⟩ := Prod.mk.inj hr
    obtain ⟨fields₁, hkept, hres⟩ := ih hput
    refine ⟨fields₁, fun fields' hmap => hkept fields' ?_, ?_⟩
    · obtain ⟨fields₀, rfl, ⟨-, hmissing⟩ | ⟨w, x, hk, hx, hfound⟩⟩ :=
        find_cons_cases hmap
      · cases hmissing
      · obtain rfl := Option.some.inj hopened
        rw [child, hk] at hinner
        obtain rfl := Option.some.inj (hx.symm.trans hinner)
        exact hfound
    · rw [find_through_link]
      exact find_mono (S₁.le_add hinj o₁) hres

omit [DecidableEq C] in
/-- A path goes on in maps only. -/
theorem map_of_find {x : Option (Obj C)} (h : find S o q = some x) (hq : q ≠ []) :
    ∃ fields, o = .map fields := by
  obtain ⟨k, rest, rfl⟩ := List.exists_cons_of_ne_nil hq
  obtain ⟨fields, rfl, -⟩ := find_cons_cases h
  exact ⟨fields, rfl⟩

omit [DecidableEq C] in
theorem find_of_append {x : Option (Obj C)} :
    ∀ {o : Obj C}, find S o (p ++ [k]) = some x →
      find S o p = some none ∨ ∃ fields, find S o p = some (some (.map fields)) := by
  induction p with
  | nil =>
    intro o h
    obtain ⟨fields, rfl⟩ := map_of_find h (by simp)
    exact Or.inr ⟨fields, find_nil S _⟩
  | cons a p ih =>
    intro o h
    obtain ⟨fields, rfl, ⟨ha, -⟩ | ⟨v, y, ha, hy, hx⟩⟩ := find_cons_cases h
    · exact Or.inl (find_cons_of_lookup_none ha p)
    · rw [find_cons_of_lookup ha, hy]
      exact ih hx

/-- **A write changes nothing that is not on its path.** -/
theorem find_put_of_apart (hinj : Function.Injective addr) :
    ∀ {q : List String} {o o' : Obj C} {S' : Store addr} {x : Option (Obj C)},
      put lift S o p v = some (o', S') → Apart p q → find S o q = some x →
        find S' o' q = some x := by
  induction p with
  | nil =>
    intro q o o' S' x h hpq
    cases hpq
  | cons k rest ih =>
    intro q o o' S' x h hpq hx
    obtain ⟨fields₀, rfl⟩ := map_of_find hx hpq.ne_nil
    cases rest with
    | nil =>
      obtain ⟨fields, hopened, hr⟩ := put_singleton_cases h
      obtain ⟨rfl, rfl⟩ := Prod.mk.inj hr
      obtain rfl := Option.some.inj hopened
      cases hpq with
      | head hne _ q => rwa [find_setField_of_ne (Ne.symm hne)]
      | tail _ hnil => cases hnil
    | cons k' rest =>
      obtain ⟨fields, inner, o₁, S₁, hopened, hinner, hput, hr⟩ := put_cons_cases (by simp) h
      obtain ⟨rfl, rfl⟩ := Prod.mk.inj hr
      obtain rfl := Option.some.inj hopened
      have hle := le_put hinj hput
      cases hpq with
      | head hne _ q =>
        rw [find_setField_of_ne (Ne.symm hne)]
        exact find_mono (hle.trans (S₁.le_add hinj o₁)) hx
      | tail _ htail =>
        rw [find_of_child hinner htail.ne_nil] at hx
        rw [find_through_link]
        exact find_mono (S₁.le_add hinj o₁) (ih hput htail hx)

end Put

/-! ## A DAG: a store and the address of its root -/

structure Dag {C : Type} (addr : Obj C → C) where
  tip : C
  store : Store addr

namespace Dag

variable [DecidableEq C] {d d' : Dag addr}

def find (d : Dag addr) (p : List String) : Option (Option (Obj C)) :=
  (d.store.nodes d.tip).bind fun root => MerkleDag.find d.store root p

def look (d : Dag addr) (p : List String) : Option (Found C) :=
  (d.store.nodes d.tip).bind fun root => MerkleDag.look d.store root p

def get (d : Dag addr) (c : C) : Option (Obj C) := d.store.nodes c

/-- A new object in the store of the DAG, which is not linked yet. -/
def createNode (d : Dag addr) (o : Obj C) : C × Dag addr :=
  (addr o, { d with store := d.store.add o })

/-- The DAG whose root has `v` at the path. -/
def set (d : Dag addr) (lift : Lift C) (p : List String) (v : Obj C) : Option (Dag addr) :=
  (d.store.nodes d.tip).bind fun root => (put lift d.store root p v).map fun r =>
    { tip := addr r.1, store := r.2.add r.1 }

/-- The DAG whose root has a link to `v` at the path. -/
def setAsLink (d : Dag addr) (lift : Lift C) (p : List String) (v : Obj C) : Option (Dag addr) :=
  (d.createNode v).2.set lift p (.link (d.createNode v).1)

/-- The DAG of some objects. The first one is the root. -/
def ofNodes (root : Obj C) (rest : List (Obj C)) : Dag addr :=
  { tip := addr root, store := (root :: rest).foldl Store.add Store.empty }

omit [DecidableEq C] in
theorem find_eq_look : d.find p = (d.look p).bind fun
    | .found x => some (some x)
    | .missing => some none
    | .stopped _ _ => none := by
  unfold find look
  cases d.store.nodes d.tip with
  | none => rfl
  | some root => exact MerkleDag.find_eq_look

omit [DecidableEq C] in
theorem look_of_find {x : Option (Obj C)} (h : d.find p = some x) :
    d.look p = some (x.elim .missing .found) := by
  rw [find_eq_look] at h
  obtain ⟨f, hf, h⟩ := Option.bind_eq_some_iff.mp h
  rw [hf]
  cases f with
  | found y =>
    rw [← Option.some.inj h]
    rfl
  | missing =>
    rw [← Option.some.inj h]
    rfl
  | stopped y rest => cases h

omit [DecidableEq C] in
theorem find_of_look {x : Option (Obj C)} (h : d.look p = some (x.elim .missing .found)) :
    d.find p = some x := by
  rw [find_eq_look, h]
  cases x with
  | none => rfl
  | some y => rfl

omit [DecidableEq C] in
/-- Nothing is found below a path that is missing. -/
theorem find_append_missing (h : d.find p = some none) (q : List String) :
    d.find (p ++ q) = some none := by
  obtain ⟨root, hroot, h⟩ := Option.bind_eq_some_iff.mp h
  exact Option.bind_eq_some_iff.mpr ⟨root, hroot, MerkleDag.find_append_missing h⟩

omit [DecidableEq C] in
/-- A bigger store has no influence on what is found. -/
theorem find_mono (htip : d'.tip = d.tip) (hle : d.store ≤ d'.store) {x : Option (Obj C)}
    (h : d.find p = some x) : d'.find p = some x := by
  obtain ⟨root, hroot, h⟩ := Option.bind_eq_some_iff.mp h
  refine Option.bind_eq_some_iff.mpr ⟨root, ?_, MerkleDag.find_mono hle h⟩
  rw [htip]
  exact hle _ _ hroot

omit [DecidableEq C] in
theorem find_field_eq (hmap : d.find p = some (some (.map fields))) (k : String) :
    d.find (p ++ [k]) = match fields.lookup k with
      | none => some none
      | some v => (follow d.store v).map some := by
  obtain ⟨root, hroot, hmap⟩ := Option.bind_eq_some_iff.mp hmap
  rw [find, hroot, Option.bind_some, find_append hmap]
  cases hk : fields.lookup k with
  | none => exact find_cons_of_lookup_none hk []
  | some v => simp only [find_cons_of_lookup hk, find_nil, Option.map_eq_bind, Function.comp_def]

omit [DecidableEq C] in
/-- What is found in a field of a map. -/
theorem find_field (hmap : d.find p = some (some (.map fields))) (hk : fields.lookup k = some v)
    (hx : follow d.store v = some x) : d.find (p ++ [k]) = some (some x) := by
  simp only [find_field_eq hmap, hk, hx, Option.map_some]

omit [DecidableEq C] in
/-- Where a path can be followed one step further there is a map, or nothing. -/
theorem find_of_append {x : Option (Obj C)} (h : d.find (p ++ [k]) = some x) :
    d.find p = some none ∨ ∃ fields, d.find p = some (some (.map fields)) := by
  obtain ⟨root, hroot, h⟩ := Option.bind_eq_some_iff.mp h
  rw [find, hroot]
  exact MerkleDag.find_of_append h

omit [DecidableEq C] in
variable {lift : Lift C}

theorem set_cases (h : d.set lift p v = some d') :
    ∃ root o' S', d.store.nodes d.tip = some root ∧ put lift d.store root p v = some (o', S') ∧
      d' = { tip := addr o', store := S'.add o' } := by
  obtain ⟨root, hroot, h⟩ := Option.bind_eq_some_iff.mp h
  obtain ⟨⟨o', S'⟩, hput, hd'⟩ := Option.map_eq_some_iff.mp h
  exact ⟨root, o', S', hroot, hput, hd'.symm⟩

theorem le_createNode (hinj : Function.Injective addr) (d : Dag addr) (o : Obj C) :
    d.store ≤ (d.createNode o).2.store := d.store.le_add hinj o

@[simp] theorem get_createNode (d : Dag addr) (o : Obj C) :
    (d.createNode o).2.get (addr o) = some o := Store.nodes_add_self d.store o

theorem le_set (hinj : Function.Injective addr) (h : d.set lift p v = some d') :
    d.store ≤ d'.store := by
  obtain ⟨root, o', S', -, hput, rfl⟩ := set_cases h
  exact (le_put hinj hput).trans (S'.le_add hinj o')

/-- What is found below an object is found in the DAG it is made the root of. -/
theorem find_of_root {x : Option (Obj C)} (hinj : Function.Injective addr)
    (hx : MerkleDag.find S o q = some x) :
    find ({ tip := addr o, store := S.add o } : Dag addr) q = some x :=
  Option.bind_eq_some_iff.mpr
    ⟨o, S.nodes_add_self o, MerkleDag.find_mono (S.le_add hinj o) hx⟩

theorem find_createNode (hinj : Function.Injective addr) {x : Option (Obj C)}
    (hx : d.find q = some x) : (d.createNode o).2.find q = some x :=
  have htip : (d.createNode o).2.tip = d.tip := rfl
  find_mono htip (le_createNode hinj d o) hx

theorem find_set_of_apart (hinj : Function.Injective addr) {x : Option (Obj C)}
    (h : d.set lift p v = some d') (hpq : Apart p q) (hx : d.find q = some x) :
    d'.find q = some x := by
  obtain ⟨root, o', S', hroot, hput, rfl⟩ := set_cases h
  obtain ⟨root', hroot', hx⟩ := Option.bind_eq_some_iff.mp hx
  obtain rfl := Option.some.inj (hroot.symm.trans hroot')
  exact find_of_root hinj (find_put_of_apart hinj hput hpq hx)

/-- A write in a map that is there updates its field. -/
theorem find_set_of_map (hinj : Function.Injective addr) (h : d.set lift (p ++ [k]) v = some d')
    (hmap : d.find p = some (some (.map fields))) :
    d'.find p = some (some (.map (Obj.setField fields k v))) := by
  obtain ⟨root, o', S', hroot, hput, rfl⟩ := set_cases h
  obtain ⟨root', hroot', hmap⟩ := Option.bind_eq_some_iff.mp hmap
  obtain rfl := Option.some.inj (hroot.symm.trans hroot')
  obtain ⟨fields', hkept, hres⟩ := find_put hinj hput
  obtain rfl := hkept fields hmap
  exact find_of_root hinj hres

/-- What was written is found where it was written. -/
theorem find_set_self (hinj : Function.Injective addr) (h : d.set lift (p ++ [k]) v = some d')
    (hv : follow d.store v = some x) : d'.find (p ++ [k]) = some (some x) := by
  obtain ⟨root, o', S', hroot, hput, rfl⟩ := set_cases h
  obtain ⟨fields, -, hres⟩ := find_put hinj hput
  refine find_of_root hinj ?_
  rw [find_append hres, find_cons_of_lookup (Obj.lookup_setField_self k v fields),
    follow_mono (le_put hinj hput) hv]
  exact find_nil S' x

theorem le_setAsLink (hinj : Function.Injective addr) (h : d.setAsLink lift p v = some d') :
    d.store ≤ d'.store :=
  (le_createNode hinj d v).trans (le_set hinj h)

theorem get_setAsLink (hinj : Function.Injective addr) (h : d.setAsLink lift p v = some d') :
    d'.get (addr v) = some v :=
  le_set hinj h _ _ (get_createNode d v)

theorem find_setAsLink_of_apart (hinj : Function.Injective addr) {x : Option (Obj C)}
    (h : d.setAsLink lift p v = some d') (hpq : Apart p q) (hx : d.find q = some x) :
    d'.find q = some x :=
  find_set_of_apart hinj h hpq (find_createNode hinj hx)

theorem find_setAsLink_of_map (hinj : Function.Injective addr)
    (h : d.setAsLink lift (p ++ [k]) v = some d') (hmap : d.find p = some (some (.map fields))) :
    d'.find p = some (some (.map (Obj.setField fields k (.link (addr v))))) :=
  find_set_of_map hinj h (find_createNode hinj hmap)

theorem find_setAsLink_self (hinj : Function.Injective addr)
    (h : d.setAsLink lift (p ++ [k]) v = some d') : d'.find (p ++ [k]) = some (some v) :=
  find_set_self hinj h (get_createNode d v)

end Dag

end MerkleDag

end Infra

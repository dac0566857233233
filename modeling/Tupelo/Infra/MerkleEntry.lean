import Tupelo.Infra.MerkleDag

/-!
# The part of a DAG below a field

The field `k` of the map at the path `p` holds a value or a link, its entry. Everything below is
determined by the entry: where a path through it leads (`look_append`) and what a write through
it makes of it (`entry_put`). A write elsewhere leaves it alone (`entry_put_of_apart`). So two DAGs
with the same entry are the same to anyone who stays below it, whatever else they have.

Where there is something on the way to the field that is no map, there is no entry, just as where
nothing is there.
-/

namespace Infra

namespace MerkleDag

variable {C : Type} {addr : Obj C → C}
variable {S T W : Store addr} {o v x : Obj C} {fields : List (String × Obj C)}
  {p q rest : List String} {k : String} {f : Found C}

theorem Apart.append_right (h : Apart p q) (rest : List String) : Apart (p ++ rest) q := by
  induction h with
  | head hne p q => exact .head hne _ _
  | tail k _ ih => exact .tail k ih

theorem Apart.extend (h : Apart p q) (rest : List String) : Apart p (q ++ rest) := by
  induction h with
  | head hne p q => exact .head hne _ _
  | tail k _ ih => exact .tail k ih

/-- A path that parts from another is not above it. -/
theorem Apart.not_above {w : List String} (h : Apart w q) : ¬ w <+: q := by
  induction h with
  | head hne => exact fun hq => hne (List.cons_prefix_cons.mp hq).1
  | tail k _ ih => exact fun hq => ih (List.cons_prefix_cons.mp hq).2

/-- What a field stands for; a missing one is made. -/
def target (S : Store addr) : Option (Obj C) → Option (Obj C)
  | none => some (.map [])
  | some v => follow S v

theorem child_eq (S : Store addr) (fields : List (String × Obj C)) (k : String) :
    child S fields k = target S (fields.lookup k) := by
  unfold child target
  cases fields.lookup k <;> rfl

theorem target_mono (hle : S ≤ T) {x : Option (Obj C)} (h : target S x = some o) :
    target T x = some o := by
  cases x with
  | none => exact h
  | some v => exact follow_mono hle h

theorem child_mono (hle : S ≤ T) (h : child S fields k = some o) : child T fields k = some o := by
  rw [child_eq] at h ⊢
  exact target_mono hle h

/-- The fields of a map. Anything else has none. -/
def fieldsOf : Obj C → List (String × Obj C)
  | .map fields => fields
  | _ => []

/-- The field `k` of the map at the path. Along a path that is missing there are empty maps. -/
def entry (S : Store addr) (o : Obj C) : List String → String → Option (Option (Obj C))
  | [], k => some ((fieldsOf o).lookup k)
  | a :: p, k => (child S (fieldsOf o) a).bind fun inner => entry S inner p k

theorem entry_mono (hle : S ≤ T) :
    ∀ {o : Obj C} {x : Option (Obj C)}, entry S o p k = some x → entry T o p k = some x := by
  induction p with
  | nil => exact fun h => h
  | cons a p ih =>
    intro o x h
    obtain ⟨inner, hinner, h⟩ := Option.bind_eq_some_iff.mp h
    exact Option.bind_eq_some_iff.mpr ⟨inner, child_mono hle hinner, ih h⟩

@[simp] theorem entry_empty (S : Store addr) (k : String) :
    ∀ p : List String, entry S (.map []) p k = some none
  | [] => rfl
  | _ :: p => entry_empty S k p

/-- **An entry further down is determined by the entry.** -/
theorem entry_append {a : String} :
    ∀ {p : List String} {o : Obj C}, entry S o (p ++ k :: q) a =
      (entry S o p k).bind fun x => (target S x).bind fun inner => entry S inner q a
  | [], o => by
    simp only [List.nil_append, entry, child_eq, Option.bind_some]
  | b :: p, o => by
    simp only [List.cons_append, entry, Option.bind_assoc]
    exact congrArg _ (funext fun _ => entry_append)

/-! ## Paths through the field -/

/-- Nothing but a map is found at the path, or on the way. -/
def Clear (S : Store addr) (o : Obj C) (p : List String) : Prop :=
  ∀ f, look S o p = some f → f = .missing ∨ ∃ fields, f = .found (.map fields)

theorem Clear.anti (hle : S ≤ T) (h : Clear T o p) :
    Clear S o p := fun f hf => h f (look_mono hle hf)

theorem Clear.map (h : Clear S o p) : ∃ fields, o = .map fields := by
  cases o with
  | map fields => exact ⟨fields, rfl⟩
  | _ =>
    cases p with
    | nil =>
      rcases h _ (look_nil S _) with hf | ⟨fields, hf⟩
      · cases hf
      · cases hf
    | cons k rest =>
      rcases h _ rfl with hf | ⟨fields, hf⟩
      · cases hf
      · cases hf

theorem clear_nil (S : Store addr) (fields : List (String × Obj C)) : Clear S (.map fields) [] := by
  intro f hf
  rw [look_nil] at hf
  exact Or.inr ⟨fields, (Option.some.inj hf).symm⟩

theorem clear_empty (S : Store addr) (p : List String) : Clear S (.map []) p := by
  cases p with
  | nil => exact clear_nil S []
  | cons k rest =>
    intro f hf
    exact Or.inl (Option.some.inj hf).symm

/-- The way to the path goes through the child. -/
theorem Clear.child (h : Clear S (.map fields) (k :: p)) {inner : Obj C}
    (hinner : child S fields k = some inner) : Clear S inner p := by
  rw [child_eq] at hinner
  cases hk : fields.lookup k with
  | none =>
    rw [hk] at hinner
    obtain rfl := Option.some.inj hinner
    exact clear_empty S p
  | some v =>
    rw [hk] at hinner
    intro f hf
    refine h f ?_
    rw [look_cons_of_lookup hk, show follow S v = some inner from hinner]
    exact hf

theorem clear_of_child (h : ∀ inner, MerkleDag.child S fields k = some inner → Clear S inner p) :
    Clear S (.map fields) (k :: p) := by
  intro f hf
  cases hk : fields.lookup k with
  | none =>
    rw [look_cons_of_lookup_none hk] at hf
    exact Or.inl (Option.some.inj hf).symm
  | some v =>
    rw [look_cons_of_lookup hk] at hf
    obtain ⟨x, hx, hf⟩ := Option.bind_eq_some_iff.mp hf
    refine h x ?_ f hf
    rw [child_eq, hk]
    exact hx

/-- Where a path leads that starts at an entry. -/
def lookBelow (S : Store addr) : Option (Obj C) → List String → Option (Found C)
  | none, _ => some .missing
  | some v, q => (follow S v).bind fun o => look S o q

theorem lookBelow_mono (hle : S ≤ T) {x : Option (Obj C)} (h : lookBelow S x q = some f) :
    lookBelow T x q = some f := by
  cases x with
  | none => exact h
  | some v =>
    obtain ⟨o, ho, h⟩ := Option.bind_eq_some_iff.mp h
    exact Option.bind_eq_some_iff.mpr ⟨o, follow_mono hle ho, look_mono hle h⟩

/-- **A path through a field leads where it leads from its entry.** -/
theorem look_append :
    ∀ {o : Obj C}, Clear S o p →
      look S o (p ++ k :: q) = (entry S o p k).bind fun x => lookBelow S x q := by
  induction p with
  | nil =>
    intro o hclear
    obtain ⟨fields, rfl⟩ := hclear.map
    show look S (.map fields) (k :: q) = lookBelow S (fields.lookup k) q
    cases hk : fields.lookup k with
    | none => rw [look_cons_of_lookup_none hk, lookBelow]
    | some v => rw [look_cons_of_lookup hk, lookBelow]
  | cons a p ih =>
    intro o hclear
    obtain ⟨fields, rfl⟩ := hclear.map
    show look S (.map fields) (a :: (p ++ k :: q)) =
      ((child S fields a).bind fun inner => entry S inner p k).bind fun x => lookBelow S x q
    cases ha : fields.lookup a with
    | none =>
      rw [look_cons_of_lookup_none ha, child_eq, ha, target, Option.bind_some, entry_empty]
      rfl
    | some v =>
      rw [look_cons_of_lookup ha, child_eq, ha, target]
      cases hv : follow S v with
      | none => rfl
      | some inner =>
        have hinner : child S fields a = some inner := by rw [child_eq, ha, target, hv]
        exact ih (hclear.child hinner)

/-- What is left of a path where it stops is the end of it. -/
theorem stopped_suffix : ∀ {o : Obj C}, look S o q = some (.stopped x rest) → rest <:+ q := by
  induction q with
  | nil =>
    intro o h
    rw [look_nil] at h
    cases h
  | cons k q ih =>
    intro o h
    cases o with
    | map fields =>
      cases hk : fields.lookup k with
      | none =>
        rw [look_cons_of_lookup_none hk] at h
        cases h
      | some v =>
        rw [look_cons_of_lookup hk] at h
        obtain ⟨y, -, h⟩ := Option.bind_eq_some_iff.mp h
        exact (ih h).trans (List.suffix_cons k q)
    | _ =>
      obtain ⟨-, rfl⟩ := Found.stopped.inj (Option.some.inj h)
      exact List.suffix_rfl

/-- Where a path leads somewhere, its beginning does. -/
theorem look_of_append : ∀ {o : Obj C}, look S o (p ++ q) = some f → ∃ g, look S o p = some g := by
  induction p with
  | nil => exact fun {o} _ => ⟨.found o, look_nil S o⟩
  | cons a p ih =>
    intro o h
    cases o with
    | map fields =>
      cases ha : fields.lookup a with
      | none => exact ⟨.missing, look_cons_of_lookup_none ha p⟩
      | some v =>
        rw [List.cons_append, look_cons_of_lookup ha] at h
        obtain ⟨x, hx, h⟩ := Option.bind_eq_some_iff.mp h
        rw [look_cons_of_lookup ha, hx]
        exact ih h
    | _ => exact ⟨_, rfl⟩

/-- The fields of what a path leads to. -/
def Found.fieldsOf : Found C → List (String × Obj C)
  | .found x => MerkleDag.fieldsOf x
  | _ => []

/-- The entry at the end of a path that leads somewhere. -/
theorem entry_of_look :
    ∀ {o : Obj C}, look S o p = some f → entry S o p k = some (f.fieldsOf.lookup k) := by
  induction p with
  | nil =>
    intro o h
    rw [look_nil] at h
    obtain rfl := Option.some.inj h
    rfl
  | cons a p ih =>
    intro o h
    cases o with
    | map fields =>
      rw [entry, fieldsOf, child_eq]
      cases ha : fields.lookup a with
      | none =>
        rw [look_cons_of_lookup_none ha] at h
        obtain rfl := Option.some.inj h
        exact entry_empty S k p
      | some v =>
        rw [look_cons_of_lookup ha] at h
        obtain ⟨x, hx, h⟩ := Option.bind_eq_some_iff.mp h
        exact Option.bind_eq_some_iff.mpr ⟨x, hx, ih h⟩
    | _ =>
      obtain rfl := Option.some.inj h
      exact entry_empty S k p

/-- A link in an entry leads to what is found there. -/
theorem find_of_entry_link {c : C} (hx : S.nodes c = some x) :
    ∀ {o : Obj C}, entry S o p k = some (some (.link c)) →
      find S o (p ++ [k]) = some (some x) := by
  induction p with
  | nil =>
    intro o h
    cases o with
    | map fields =>
      have hk : fields.lookup k = some (.link c) := Option.some.inj h
      rw [List.nil_append, find_cons_of_lookup hk, follow, hx]
      exact find_nil S x
    | _ => cases Option.some.inj h
  | cons a p ih =>
    intro o h
    obtain ⟨inner, hinner, hentry⟩ := Option.bind_eq_some_iff.mp h
    have hne : p ++ [k] ≠ [] := by simp
    cases o with
    | map fields =>
      have hinner : child S fields a = some inner := hinner
      rw [List.cons_append, find_of_child hinner hne]
      exact ih hentry
    | _ =>
      -- nothing is below an empty map
      obtain rfl := Option.some.inj hinner
      rw [entry_empty] at hentry
      cases Option.some.inj hentry

/-! ## The store that has everything -/

open Classical in
/-- The store that has every object; what is found in it does not depend on what is kept. -/
noncomputable def Store.all (addr : Obj C → C) : Store addr where
  nodes c := if h : ∃ o, addr o = c then some h.choose else none
  addressed := by
    intro c o h
    split at h
    · next hc => rw [← Option.some.inj h, hc.choose_spec]
    · cases h

theorem Store.le_all (hinj : Function.Injective addr) (S : Store addr) : S ≤ Store.all addr := by
  intro c o h
  have hc : ∃ o, addr o = c := ⟨o, S.addressed h⟩
  have hchoose : hc.choose = o := hinj (hc.choose_spec.trans (S.addressed h).symm)
  simp only [Store.all, dif_pos hc, hchoose]

/-! ## Writing -/

/-- The key never names a part of what is no map: a write through it starts an empty one. -/
def Plain (lift : Lift C) (k : String) : Prop := ∀ o rest x, lift o k rest ≠ some (some x)

section Write

variable [DecidableEq C] {lift : Lift C}

omit [DecidableEq C] in
theorem opened_plain (hplain : Plain lift k) (h : opened lift o k rest = some fields) :
    fields = fieldsOf o := by
  cases o with
  | map fields' => exact (Option.some.inj h).symm
  | _ =>
    obtain ⟨x, hx, hfields⟩ := Option.map_eq_some_iff.mp h
    cases x with
    | none => exact hfields.symm
    | some x => exact absurd hx (hplain _ rest x)

omit [DecidableEq C] in
theorem lookup_opened_of_ne {k' : String} (hne : k' ≠ k) (h : opened lift o k rest = some fields) :
    fields.lookup k' = (fieldsOf o).lookup k' := by
  cases o with
  | map fields' => rw [← Option.some.inj h, fieldsOf]
  | _ =>
    obtain ⟨x, hx, hfields⟩ := Option.map_eq_some_iff.mp h
    cases x with
    | none => rw [← hfields]; rfl
    | some x =>
      rw [← hfields, List.lookup_cons, beq_eq_false_iff_ne.mpr hne]
      rfl

/-- What a write through the field makes of its entry. -/
def overwrite (lift : Lift C) (S : Store addr) (x : Option (Obj C)) :
    List String → Obj C → Option (Obj C)
  | [], v => some v
  | k :: rest, v => (target S x).bind fun inner => (put lift S inner (k :: rest) v).map fun r =>
      .link (addr r.1)

/-- A write is a write of one field. -/
theorem put_cons {o' : Obj C} {S' : Store addr} (h : put lift S o (k :: rest) v = some (o', S')) :
    ∃ fields y, opened lift o k rest = some fields ∧
      overwrite lift S (fields.lookup k) rest v = some y ∧
      o' = .map (Obj.setField fields k y) := by
  cases rest with
  | nil =>
    obtain ⟨fields, hopened, hr⟩ := put_singleton_cases h
    exact ⟨fields, v, hopened, rfl, (Prod.mk.inj hr).1⟩
  | cons k' rest =>
    obtain ⟨fields, inner, o₁, S₁, hopened, hinner, hput, hr⟩ := put_cons_cases (by simp) h
    refine ⟨fields, .link (addr o₁), hopened, ?_, (Prod.mk.inj hr).1⟩
    rw [child_eq] at hinner
    simp [overwrite, hinner, hput]

theorem put_of_overwrite {y : Obj C} (h : overwrite lift S (fields.lookup k) rest v = some y) :
    ∃ r, put lift S (.map fields) (k :: rest) v = some r := by
  cases rest with
  | nil =>
    rw [put, opened]
    exact ⟨_, rfl⟩
  | cons k' rest =>
    obtain ⟨inner, hinner, h⟩ := Option.bind_eq_some_iff.mp h
    obtain ⟨r, hr, -⟩ := Option.map_eq_some_iff.mp h
    rw [← child_eq] at hinner
    rw [put, opened, Option.bind_some, hinner, Option.bind_some, hr]
    exact ⟨_, rfl⟩

/-- **A write makes the same object over every store that has what it needs.** -/
theorem put_mono (hle : S ≤ T) :
    ∀ {o o' : Obj C} {S' : Store addr}, put lift S o p v = some (o', S') →
      ∃ T', put lift T o p v = some (o', T') := by
  induction p with
  | nil =>
    intro o o' S' h
    rw [put] at h
    cases h
  | cons k rest ih =>
    intro o o' S' h
    cases rest with
    | nil =>
      obtain ⟨fields, hopened, hr⟩ := put_singleton_cases h
      obtain ⟨rfl, -⟩ := Prod.mk.inj hr
      refine ⟨T, ?_⟩
      rw [put, hopened, Option.map_some]
    | cons k' rest =>
      obtain ⟨fields, inner, o₁, S₁, hopened, hinner, hput, hr⟩ := put_cons_cases (by simp) h
      obtain ⟨rfl, -⟩ := Prod.mk.inj hr
      obtain ⟨T₁, hT₁⟩ := ih hput
      refine ⟨T₁.add o₁, ?_⟩
      rw [put, hopened, Option.bind_some, child_mono hle hinner, Option.bind_some, hT₁]
      rfl

theorem overwrite_mono (hle : S ≤ T) {x : Option (Obj C)} {y : Obj C}
    (h : overwrite lift S x rest v = some y) : overwrite lift T x rest v = some y := by
  cases rest with
  | nil => exact h
  | cons k rest =>
    obtain ⟨inner, hinner, h⟩ := Option.bind_eq_some_iff.mp h
    obtain ⟨⟨o₁, S₁⟩, hput, rfl⟩ := Option.map_eq_some_iff.mp h
    obtain ⟨T₁, hT₁⟩ := put_mono hle hput
    refine Option.bind_eq_some_iff.mpr ⟨inner, target_mono hle hinner, ?_⟩
    rw [hT₁]
    rfl

/-- The field that a write has set leads to what the write has made. -/
theorem child_link {o₁ : Obj C} (hle : S.add o₁ ≤ W) (fields : List (String × Obj C)) (k : String) :
    child W (Obj.setField fields k (.link (addr o₁))) k = some o₁ := by
  rw [child_eq, Obj.lookup_setField_self]
  exact hle _ _ (S.nodes_add_self o₁)

/-- **A write through a field overwrites its entry.** -/
theorem entry_put (hinj : Function.Injective addr) :
    ∀ {o o' : Obj C} {S' : Store addr}, (∀ a ∈ p ++ [k], Plain lift a) →
      put lift S o (p ++ k :: rest) v = some (o', S') →
      ∃ x y, entry S o p k = some x ∧ overwrite lift S x rest v = some y ∧
        ∀ W, S' ≤ W → entry W o' p k = some (some y) := by
  induction p with
  | nil =>
    intro o o' S' hplain h
    obtain ⟨fields, y, hopened, hy, rfl⟩ := put_cons h
    obtain rfl := opened_plain (hplain k (by simp)) hopened
    refine ⟨_, y, rfl, hy, fun W _ => ?_⟩
    rw [entry, fieldsOf, Obj.lookup_setField_self]
  | cons a p ih =>
    intro o o' S' hplain h
    obtain ⟨fields, inner, o₁, S₁, hopened, hinner, hput, hr⟩ := put_cons_cases (by simp) h
    obtain ⟨rfl, rfl⟩ := Prod.mk.inj hr
    obtain rfl := opened_plain (hplain a (by simp)) hopened
    obtain ⟨x, y, hx, hy, hW⟩ := ih (fun b hb => hplain b (List.mem_cons_of_mem a hb)) hput
    refine ⟨x, y, Option.bind_eq_some_iff.mpr ⟨inner, hinner, hx⟩, hy, fun W hle => ?_⟩
    exact Option.bind_eq_some_iff.mpr
      ⟨o₁, child_link hle _ a, hW W ((S₁.le_add hinj o₁).trans hle)⟩

/-- A write succeeds where the way is clear and the entry can be overwritten. -/
theorem put_of_entry {y : Obj C} {x : Option (Obj C)} (hy : overwrite lift S x rest v = some y) :
    ∀ {o : Obj C}, Clear S o p → entry S o p k = some x →
      ∃ r, put lift S o (p ++ k :: rest) v = some r := by
  induction p with
  | nil =>
    intro o hclear h
    obtain ⟨fields, rfl⟩ := hclear.map
    obtain rfl := Option.some.inj h
    exact put_of_overwrite hy
  | cons a p ih =>
    intro o hclear h
    obtain ⟨fields, rfl⟩ := hclear.map
    obtain ⟨inner, hinner, h⟩ := Option.bind_eq_some_iff.mp h
    obtain ⟨r, hr⟩ := ih (hclear.child hinner) h
    have hinner : child S fields a = some inner := hinner
    rw [List.cons_append, put_cons_of_ne_nil (by simp), opened, Option.bind_some, hinner,
      Option.bind_some, hr]
    exact ⟨_, rfl⟩

/-- **A write elsewhere leaves the entry alone.** -/
theorem entry_put_of_apart (hinj : Function.Injective addr) {w : List String} :
    ∀ {p : List String} {o o' : Obj C} {S' : Store addr}, (∀ a ∈ p ++ [k], Plain lift a) →
      put lift S o w v = some (o', S') → S' ≤ W → Apart w (p ++ [k]) →
        entry W o' p k = entry W o p k := by
  induction w with
  | nil =>
    intro p o o' S' _ _ _ hapart
    cases hapart
  | cons k₁ w ih =>
    intro p o o' S' hplain h hle hapart
    generalize hq : p ++ [k] = q at hapart
    cases hapart with
    | head hne =>
      next k' q =>
      obtain ⟨fields, y, hopened, -, rfl⟩ := put_cons h
      have hkept : ∀ b, b ≠ k₁ →
          (Obj.setField fields k₁ y).lookup b = (fieldsOf o).lookup b := fun b hb =>
        (Obj.lookup_setField_of_ne hb y fields).trans (lookup_opened_of_ne hb hopened)
      cases p with
      | nil =>
        obtain ⟨rfl, -⟩ := List.cons.inj hq
        rw [entry, entry, fieldsOf, hkept k hne.symm]
      | cons a p =>
        obtain ⟨rfl, -⟩ := List.cons.inj hq
        rw [entry, entry, fieldsOf, child_eq, child_eq, hkept a hne.symm]
    | tail _ htail =>
      next q =>
      cases w with
      | nil => cases htail
      | cons k₂ w =>
        obtain ⟨fields, inner, o₁, S₁, hopened, hinner, hput, hr⟩ := put_cons_cases (by simp) h
        obtain ⟨rfl, rfl⟩ := Prod.mk.inj hr
        have hS₁ : S₁ ≤ W := (S₁.le_add hinj o₁).trans hle
        cases p with
        | nil =>
          obtain rfl := (List.cons.inj hq).2
          exact absurd rfl htail.ne_nil
        | cons a p =>
          obtain ⟨rfl, rfl⟩ := List.cons.inj hq
          obtain rfl := opened_plain (hplain a (by simp)) hopened
          have hinner' := child_mono ((le_put hinj hput).trans hS₁) hinner
          rw [entry, entry, fieldsOf, child_link hle, hinner']
          exact ih (fun b hb => hplain b (List.mem_cons_of_mem a hb)) hput hS₁ htail

/-- **A write leaves the way to a path clear** that it does not end on. -/
theorem clear_put (hinj : Function.Injective addr) {w : List String} :
    ∀ {p : List String} {o o' : Obj C} {S' : Store addr},
      put lift S o w v = some (o', S') → S' ≤ W → ¬ w <+: p → Clear W o p → Clear W o' p := by
  induction w with
  | nil =>
    intro p o o' S' _ _ hw
    exact absurd List.nil_prefix hw
  | cons k w ih =>
    intro p o o' S' h hle hw hclear
    obtain ⟨fields, rfl⟩ := hclear.map
    obtain ⟨fields', y, hopened, -, rfl⟩ := put_cons h
    obtain rfl := Option.some.inj hopened
    cases p with
    | nil => exact clear_nil W _
    | cons a p =>
      refine clear_of_child fun inner' hinner' => ?_
      by_cases ha : a = k
      · subst ha
        cases w with
        | nil => exact absurd (List.cons_prefix_cons.mpr ⟨rfl, List.nil_prefix⟩) hw
        | cons k₂ w =>
          obtain ⟨fields', inner, o₁, S₁, hopened', hinner, hput, hr⟩ := put_cons_cases (by simp) h
          obtain rfl := Option.some.inj hopened'
          obtain ⟨ho', rfl⟩ := Prod.mk.inj hr
          have hS₁ : S₁ ≤ W := (S₁.le_add hinj o₁).trans hle
          have ho₁ : inner' = o₁ := by
            rw [Obj.map.inj ho', child_link hle] at hinner'
            exact (Option.some.inj hinner').symm
          rw [ho₁]
          refine ih hput hS₁ (fun hp => hw (List.cons_prefix_cons.mpr ⟨rfl, hp⟩)) ?_
          exact hclear.child (child_mono ((le_put hinj hput).trans hS₁) hinner)
      · rw [child_eq, Obj.lookup_setField_of_ne ha, ← child_eq] at hinner'
        exact hclear.child hinner'

end Write

/-! ## DAGs -/

namespace Dag

variable [DecidableEq C] {d d' : Dag addr} {lift : Lift C}

/-- The entry in the tree of the DAG, as far as the store has it. -/
def entry (W : Store addr) (d : Dag addr) (p : List String) (k : String) :
    Option (Option (Obj C)) := (W.nodes d.tip).bind fun root => MerkleDag.entry W root p k

/-- Nothing but a map is at the path in the tree of the DAG, or on the way. -/
def Clear (W : Store addr) (d : Dag addr) (p : List String) : Prop :=
  ∀ root, W.nodes d.tip = some root → MerkleDag.Clear W root p

omit [DecidableEq C] in
theorem entry_mono (hle : S ≤ W) {x : Option (Obj C)} (h : d.entry S p k = some x) :
    d.entry W p k = some x := by
  obtain ⟨root, hroot, h⟩ := Option.bind_eq_some_iff.mp h
  exact Option.bind_eq_some_iff.mpr ⟨root, hle _ _ hroot, MerkleDag.entry_mono hle h⟩

omit [DecidableEq C] in
theorem Clear.anti (hle : S ≤ W) (h : d.Clear W p) :
    d.Clear S p := fun root hroot => (h root (hle _ _ hroot)).anti hle

omit [DecidableEq C] in
theorem look_append (h : d.Clear d.store p) (k : String) (q : List String) :
    d.look (p ++ k :: q) = (d.entry d.store p k).bind fun x => lookBelow d.store x q := by
  unfold look entry
  cases hroot : d.store.nodes d.tip with
  | none => rfl
  | some root => exact MerkleDag.look_append (h root hroot)

omit [DecidableEq C] in
/-- Where the way to some path is clear, the root is a map. -/
theorem Clear.root (h : d.Clear W p) : d.Clear W [] := by
  intro root hroot
  obtain ⟨fields, rfl⟩ := (h root hroot).map
  exact clear_nil W fields

omit [DecidableEq C] in
theorem entry_append (p : List String) (k : String) (q : List String) (a : String) :
    d.entry W (p ++ k :: q) a =
      (d.entry W p k).bind fun x => (target W x).bind fun inner => MerkleDag.entry W inner q a := by
  unfold entry
  cases W.nodes d.tip with
  | none => rfl
  | some root => exact MerkleDag.entry_append

omit [DecidableEq C] in
theorem stopped_suffix (h : d.look q = some (.stopped x rest)) : rest <:+ q := by
  obtain ⟨root, -, h⟩ := Option.bind_eq_some_iff.mp h
  exact MerkleDag.stopped_suffix h

omit [DecidableEq C] in
/-- **DAGs with one root agree** on where a path leads. -/
theorem look_agree (hinj : Function.Injective addr) (htip : d'.tip = d.tip) {f' : Found C}
    (h : d.look p = some f) (h' : d'.look p = some f') : f = f' := by
  obtain ⟨root, hroot, h⟩ := Option.bind_eq_some_iff.mp h
  obtain ⟨root', hroot', h'⟩ := Option.bind_eq_some_iff.mp h'
  rw [htip] at hroot'
  obtain rfl := Store.agree hinj hroot hroot'
  have hall := look_mono (Store.le_all hinj _) h
  exact Option.some.inj (hall.symm.trans (look_mono (Store.le_all hinj _) h'))

theorem entry_set (hinj : Function.Injective addr) (hplain : ∀ a ∈ p ++ [k], Plain lift a)
    (h : d.set lift (p ++ k :: rest) v = some d') :
    ∃ x y, d.entry d.store p k = some x ∧ overwrite lift d.store x rest v = some y ∧
      ∀ W, d'.store ≤ W → d'.entry W p k = some (some y) := by
  obtain ⟨root, o', S', hroot, hput, rfl⟩ := set_cases h
  obtain ⟨x, y, hx, hy, hW⟩ := entry_put hinj hplain hput
  refine ⟨x, y, Option.bind_eq_some_iff.mpr ⟨root, hroot, hx⟩, hy, fun W hle => ?_⟩
  exact Option.bind_eq_some_iff.mpr
    ⟨o', hle _ _ (S'.nodes_add_self o'), hW W ((S'.le_add hinj o').trans hle)⟩

theorem set_of_entry {x : Option (Obj C)} {y : Obj C} (hclear : d.Clear d.store p)
    (hx : d.entry d.store p k = some x) (hy : overwrite lift d.store x rest v = some y) :
    ∃ d', d.set lift (p ++ k :: rest) v = some d' := by
  obtain ⟨root, hroot, hx⟩ := Option.bind_eq_some_iff.mp hx
  obtain ⟨r, hr⟩ := put_of_entry hy (hclear root hroot) hx
  exact ⟨_, Option.bind_eq_some_iff.mpr ⟨root, hroot, Option.map_eq_some_iff.mpr ⟨r, hr, rfl⟩⟩⟩

omit [DecidableEq C] in
theorem look_of_append (h : d.look (p ++ q) = some f) : ∃ g, d.look p = some g := by
  obtain ⟨root, hroot, h⟩ := Option.bind_eq_some_iff.mp h
  obtain ⟨g, hg⟩ := MerkleDag.look_of_append h
  exact ⟨g, Option.bind_eq_some_iff.mpr ⟨root, hroot, hg⟩⟩

omit [DecidableEq C] in
theorem entry_of_look (h : d.look p = some f) (k : String) :
    d.entry d.store p k = some (f.fieldsOf.lookup k) := by
  obtain ⟨root, hroot, h⟩ := Option.bind_eq_some_iff.mp h
  exact Option.bind_eq_some_iff.mpr ⟨root, hroot, MerkleDag.entry_of_look h⟩

omit [DecidableEq C] in
/-- The entry in a map that is found. -/
theorem entry_of_find (hmap : d.find p = some (some (.map fields))) (k : String) :
    d.entry d.store p k = some (fields.lookup k) := entry_of_look (look_of_find hmap) k

omit [DecidableEq C] in
theorem clear_of_find (hmap : d.find p = some (some (.map fields))) : d.Clear d.store p := by
  intro root hroot f hf
  have hlook : d.look p = some f := Option.bind_eq_some_iff.mpr ⟨root, hroot, hf⟩
  rw [look_of_find hmap] at hlook
  exact Or.inr ⟨fields, (Option.some.inj hlook).symm⟩

omit [DecidableEq C] in
theorem find_of_entry_link {c : C} (h : d.entry d.store p k = some (some (.link c)))
    (hx : d.get c = some x) : d.find (p ++ [k]) = some (some x) := by
  obtain ⟨root, hroot, h⟩ := Option.bind_eq_some_iff.mp h
  exact Option.bind_eq_some_iff.mpr ⟨root, hroot, MerkleDag.find_of_entry_link hx h⟩

omit [DecidableEq C] in
/-- A field that is found is one of a map. -/
theorem exists_map_of_field (hx : d.find (p ++ [k]) = some (some x)) :
    ∃ fields, d.find p = some (some (.map fields)) := by
  refine (find_of_append hx).resolve_left fun hmissing => ?_
  cases hx.symm.trans (find_append_missing hmissing [k])

omit [DecidableEq C] in
/-- What is found at a field that is a link is the linked object. -/
theorem get_of_entry_link {c : C} (h : d.entry d.store p k = some (some (.link c)))
    (hx : d.find (p ++ [k]) = some (some x)) : d.get c = some x := by
  obtain ⟨fields, hmap⟩ := exists_map_of_field hx
  rw [entry_of_find hmap] at h
  rw [find_field_eq hmap, Option.some.inj h] at hx
  obtain ⟨y, hy, hxy⟩ := Option.map_eq_some_iff.mp hx
  rw [← Option.some.inj hxy]
  exact hy

/-- A field can be written in every map that is found. -/
theorem exists_set_of_map (hmap : d.find p = some (some (.map fields))) (k : String) (v : Obj C) :
    ∃ d', d.set lift (p ++ [k]) v = some d' := by
  have hwrite : overwrite lift d.store (fields.lookup k) [] v = some v := rfl
  exact set_of_entry (clear_of_find hmap) (entry_of_find hmap k) hwrite

theorem exists_setAsLink_of_map (hinj : Function.Injective addr) (lift : Lift C)
    (hmap : d.find p = some (some (.map fields))) (k : String) (v : Obj C) :
    ∃ d', d.setAsLink lift (p ++ [k]) v = some d' :=
  exists_set_of_map (find_createNode hinj hmap) k _

theorem entry_set_of_apart (hinj : Function.Injective addr) {w : List String}
    (hplain : ∀ a ∈ p ++ [k], Plain lift a) (h : d.set lift w v = some d') (hle : d'.store ≤ W)
    (hapart : Apart w (p ++ [k])) : d'.entry W p k = d.entry W p k := by
  obtain ⟨root, o', S', hroot, hput, rfl⟩ := set_cases h
  have hS' : S' ≤ W := (S'.le_add hinj o').trans hle
  have hroot' : W.nodes d.tip = some root := ((le_put hinj hput).trans hS') _ _ hroot
  have ho' : W.nodes (addr o') = some o' := hle _ _ (S'.nodes_add_self o')
  unfold entry
  rw [hroot', show W.nodes (Dag.mk (addr o') (S'.add o')).tip = some o' from ho']
  exact entry_put_of_apart hinj hplain hput hS' hapart

theorem clear_set (hinj : Function.Injective addr) {w : List String} (h : d.set lift w v = some d')
    (hle : d'.store ≤ W) (hw : ¬ w <+: p) (hclear : d.Clear W p) : d'.Clear W p := by
  obtain ⟨root, o', S', hroot, hput, rfl⟩ := set_cases h
  have hS' : S' ≤ W := (S'.le_add hinj o').trans hle
  have hroot' : W.nodes d.tip = some root := ((le_put hinj hput).trans hS') _ _ hroot
  intro root' hr'
  obtain rfl := Option.some.inj ((hle _ _ (S'.nodes_add_self o')).symm.trans hr')
  exact clear_put hinj hput hS' hw (hclear root hroot')

/-! ### Writes below a path -/

/-- Any number of writes below the path, and of new objects. -/
inductive Writes (lift : Lift C) (w : List String) (d : Dag addr) : Dag addr → Prop where
  | none : Writes lift w d d
  | createNode {d₁ : Dag addr} (o : Obj C) : Writes lift w d d₁ →
      Writes lift w d (d₁.createNode o).2
  | set {d₁ d₂ : Dag addr} (rest : List String) (v : Obj C) : Writes lift w d d₁ →
      d₁.set lift (w ++ rest) v = some d₂ → Writes lift w d d₂

variable {w : List String}

theorem Writes.setAsLink {d₁ d₂ : Dag addr} (rest : List String) (v : Obj C)
    (h : Writes lift w d d₁) (hset : d₁.setAsLink lift (w ++ rest) v = some d₂) :
    Writes lift w d d₂ :=
  (h.createNode v).set rest _ hset

theorem Writes.trans {d₁ d₂ : Dag addr} (h : Writes lift w d d₁) (h' : Writes lift w d₁ d₂) :
    Writes lift w d d₂ := by
  induction h' with
  | none => exact h
  | createNode o _ ih => exact ih.createNode o
  | set rest v _ hset ih => exact ih.set rest v hset

theorem Writes.store_le (hinj : Function.Injective addr) (h : Writes lift w d d') :
    d.store ≤ d'.store := by
  induction h with
  | none => exact le_rfl
  | createNode o _ ih => exact ih.trans (le_createNode hinj _ o)
  | set rest v _ hset ih => exact ih.trans (le_set hinj hset)

/-- **The entry of a field elsewhere stays.** -/
theorem Writes.entry_of_apart (hinj : Function.Injective addr) (h : Writes lift w d d')
    (hplain : ∀ a ∈ p ++ [k], Plain lift a) (hapart : Apart w (p ++ [k])) (hle : d'.store ≤ W) :
    d'.entry W p k = d.entry W p k := by
  induction h with
  | none => rfl
  | createNode o _ ih => exact ih ((le_createNode hinj _ o).trans hle)
  | set rest v _ hset ih =>
    rw [entry_set_of_apart hinj hplain hset hle (hapart.append_right rest)]
    exact ih ((le_set hinj hset).trans hle)

/-- The way to a path above the writes stays clear. -/
theorem Writes.clear (hinj : Function.Injective addr) (h : Writes lift w d d') (hw : ¬ w <+: p)
    (hle : d'.store ≤ W) (hclear : d.Clear W p) : d'.Clear W p := by
  induction h with
  | none => exact hclear
  | createNode o _ ih => exact ih ((le_createNode hinj _ o).trans hle)
  | set rest v _ hset ih =>
    refine clear_set hinj hset hle (fun hp => hw ((List.prefix_append w rest).trans hp)) ?_
    exact ih ((le_set hinj hset).trans hle)

/-- **A path through a field elsewhere leads where it led.** -/
theorem Writes.look_of_apart (hinj : Function.Injective addr) (h : Writes lift w d d')
    (hplain : ∀ a ∈ p ++ [k], Plain lift a) (hapart : Apart w (p ++ [k]))
    (hclear : d.Clear (Store.all addr) p) (hf : d.look (p ++ k :: q) = some f) :
    d'.look (p ++ k :: q) = some f := by
  have hle := h.store_le hinj
  have hall := fun S : Store addr => Store.le_all hinj S
  have hclear' : d'.Clear (Store.all addr) p :=
    h.clear hinj (fun hw => hapart.not_above (hw.trans (List.prefix_append p [k]))) (hall _) hclear
  rw [look_append (hclear.anti (hall _))] at hf
  rw [look_append (hclear'.anti (hall _)), h.entry_of_apart hinj hplain hapart le_rfl]
  obtain ⟨x, hx, hf⟩ := Option.bind_eq_some_iff.mp hf
  exact Option.bind_eq_some_iff.mpr ⟨x, entry_mono hle hx, lookBelow_mono hle hf⟩

end Dag

end MerkleDag

end Infra

import Tupelo.Infra.Except
import Tupelo.Infra.MerkleEntry
import Tupelo.Ipld

/-!
# The DAG of a chain tree

The chaintree library is not part of the repository. What the ledger calls of its `dag.Dag` is
the structure `DagLib`. Each call may fail, and a theorem about the ledger that needs nothing
of the library holds whatever its calls do. The others assume `DagLib.Sound`: what a call that
succeeds returns is what the content-addressed DAG of `Infra.MerkleDag` has, as long as paths go
through maps. Where a path meets a scalar or a list, a write puts a map in its place, of which
nothing is assumed but that it is empty unless the next key is an index; and what is resolved there
is some function of what is met.

`cbornode.DecodeInto` reads a map into a struct. A field that is missing keeps its zero value,
a null gives the zero value of the whole struct, and a field the struct does not have is an
error.
-/

namespace Tupelo

open Infra

/-- The CID of a node of a chain tree. -/
def Ipld.objCid (L : Ipld) (o : Obj Cid) : Cid := L.cidOf (.obj o)

theorem Ipld.Faithful.objCid_injective {L : Ipld} (hL : L.Faithful) :
    Function.Injective L.objCid := by
  intro o o' h
  exact DagNode.obj.inj (hL.injective h)

/-- `*dag.Dag`. -/
abbrev Dag (L : Ipld) := MerkleDag.Dag L.objCid

/-- A key that could be the index of a list. -/
def isIndex (k : String) : Bool := k.toList.all fun c => c.isDigit || c == '+' || c == '-'

/--
The operations of `dag.Dag`. `CreateNode` adds to the store the DAG shares with the DAGs made
from it, so it returns the DAG as it is then.
-/
structure DagLib (L : Ipld) where
  resolve : Dag L → List String → Except Fault (Obj Cid × List String)
  /-- The node that `ResolveInto` decodes. -/
  resolveNode : Dag L → List String → Except Fault (Obj Cid)
  get : Dag L → Cid → Except Fault (Obj Cid)
  createNode : Dag L → Obj Cid → Except Fault (Cid × Dag L)
  set : Dag L → List String → Obj Cid → Except Fault (Dag L)
  setAsLink : Dag L → List String → Obj Cid → Except Fault (Dag L)
  newDagWithNodes : List (Obj Cid) → Except Fault (Dag L)
  /-- What `Set` puts in the place of something on its way that is no map. -/
  lift : MerkleDag.Lift Cid
  /-- What `Resolve` returns where the path goes on below something that is no map. -/
  beyond : Obj Cid → List String → Except Fault (Obj Cid × List String)

namespace DagLib

variable {L : Ipld}

/-- What `Resolve` may return, by where the path leads. Of the elements of lists nothing is said. -/
def Reports (D : DagLib L) : MerkleDag.Found Cid → Obj Cid × List String → Prop
  | .found x, r => r = (x, [])
  | .missing, r => r.1 = .null ∧ r.2 ≠ []
  | .stopped x rest, r => (∀ k ∈ rest.head?, isIndex k = false) → D.beyond x rest = .ok r

/-- What succeeds is what the content-addressed DAG does. -/
structure Sound (D : DagLib L) : Prop where
  resolve : ∀ {d p r}, D.resolve d p = .ok r → ∃ f, d.look p = some f ∧ D.Reports f r
  /-- There is a link at the path. -/
  resolveNode : ∀ {d p k o}, (∀ a ∈ p ++ [k], isIndex a = false) →
    D.resolveNode d (p ++ [k]) = .ok o →
      ∃ c, d.entry d.store p k = some (some (.link c)) ∧ d.get c = some o
  get : ∀ {d c o}, D.get d c = .ok o → d.get c = some o
  createNode : ∀ {d o r}, D.createNode d o = .ok r → d.createNode o = r
  set : ∀ {d p v d'}, D.set d p v = .ok d' → d.set D.lift p v = some d'
  setAsLink : ∀ {d p v d'}, D.setAsLink d p v = .ok d' → d.setAsLink D.lift p v = some d'
  newDagWithNodes : ∀ {os d}, D.newDagWithNodes os = .ok d →
    ∃ root rest, os = root :: rest ∧ d = MerkleDag.Dag.ofNodes root rest
  lift : ∀ {k}, isIndex k = false → MerkleDag.Plain D.lift k

/-- What the content-addressed DAG does succeeds. -/
structure Complete (D : DagLib L) : Prop where
  found : ∀ {d p x}, d.look p = some (.found x) → D.resolve d p = .ok (x, [])
  missing : ∀ {d p}, d.look p = some .missing →
    ∃ remaining, remaining ≠ [] ∧ D.resolve d p = .ok (.null, remaining)
  stopped : ∀ {d p x rest r}, d.look p = some (.stopped x rest) →
    (∀ k ∈ rest.head?, isIndex k = false) → D.beyond x rest = .ok r → D.resolve d p = .ok r
  resolveNode : ∀ {d p k c o}, d.entry d.store p k = some (some (.link c)) →
    d.get c = some o → D.resolveNode d (p ++ [k]) = .ok o
  get : ∀ {d c o}, d.get c = some o → D.get d c = .ok o
  createNode : ∀ d o, D.createNode d o = .ok (d.createNode o)
  set : ∀ {d p v d'}, d.set D.lift p v = some d' → D.set d p v = .ok d'
  setAsLink : ∀ {d p v d'}, d.setAsLink D.lift p v = some d' → D.setAsLink d p v = .ok d'

section Sound

variable {D : DagLib L} {d : Dag L} {p : List String} {r : Obj Cid × List String}

theorem Sound.resolve_found (hD : D.Sound) (h : D.resolve d p = .ok r) {x : Obj Cid}
    (hx : d.find p = some (some x)) : r = (x, []) := by
  obtain ⟨f, hf, hr⟩ := hD.resolve h
  obtain rfl := Option.some.inj ((MerkleDag.Dag.look_of_find hx).symm.trans hf)
  exact hr

theorem Sound.resolve_missing (hD : D.Sound) (h : D.resolve d p = .ok r)
    (hx : d.find p = some none) : r.1 = .null ∧ r.2 ≠ [] := by
  obtain ⟨f, hf, hr⟩ := hD.resolve h
  obtain rfl := Option.some.inj ((MerkleDag.Dag.look_of_find hx).symm.trans hf)
  exact hr

theorem Sound.plain (hD : D.Sound) (hp : ∀ a ∈ p, isIndex a = false) :
    ∀ a ∈ p, MerkleDag.Plain D.lift a := fun a ha => hD.lift (hp a ha)

theorem Complete.resolve_found (hC : D.Complete) {x : Obj Cid} (hx : d.find p = some (some x)) :
    D.resolve d p = .ok (x, []) := hC.found (MerkleDag.Dag.look_of_find hx)

theorem Complete.resolve_missing (hC : D.Complete) (hx : d.find p = some none) :
    ∃ remaining, remaining ≠ [] ∧ D.resolve d p = .ok (.null, remaining) :=
  hC.missing (MerkleDag.Dag.look_of_find hx)

end Sound

/-- An error of the library. -/
def orError {α : Type} (msg : String) : Option α → Except Fault α
  | some a => .ok a
  | none => .error (.error msg)

theorem orError_eq_ok_iff {α : Type} {msg : String} {x : Option α} {a : α} :
    orError msg x = .ok a ↔ x = some a := by
  cases x <;> simp [orError]

theorem orError_eq_ok {α : Type} {msg : String} {x : Option α} {a : α}
    (h : orError msg x = .ok a) : x = some a := orError_eq_ok_iff.mp h

theorem orError_of_eq_some {α : Type} {msg : String} {x : Option α} {a : α} (h : x = some a) :
    orError msg x = .ok a := orError_eq_ok_iff.mpr h

/-- A list keeps the element that a write goes on in; nothing can be written below a null. -/
def stdLift : MerkleDag.Lift Cid
  | .null, _, _ => none
  | .list xs, k, rest =>
    if isIndex k then
      match k.toNat?.bind (xs[·]?) with
      | some x => some (some x)
      | none => if rest.isEmpty then some none else none
    else some none
  | _, _, _ => some none

/-- The library over a store that never fails. -/
def std (L : Ipld) : DagLib L where
  resolve d p :=
    match d.look p with
    | some (.found x) => .ok (x, [])
    | some .missing => .ok (.null, if p.isEmpty then [""] else p)
    | some (.stopped x rest) => .ok (x, rest)
    | none => .error (.error "error resolving")
  resolveNode d p :=
    match d.entry d.store p.dropLast (p.getLastD "") with
    | some (some (.link c)) => orError "ipld: node not found" (d.get c)
    | _ => .error (.error "error getting node")
  get d c := orError "ipld: node not found" (d.get c)
  createNode d o := .ok (d.createNode o)
  set d p v := orError "error setting" (d.set stdLift p v)
  setAsLink d p v := orError "error setting" (d.setAsLink stdLift p v)
  newDagWithNodes
    | [] => .error (.panic "index out of range")
    | root :: rest => .ok (MerkleDag.Dag.ofNodes root rest)
  lift := stdLift
  beyond x rest := .ok (x, rest)

theorem std_sound (L : Ipld) : (std L).Sound where
  resolve := by
    intro d p r h
    simp only [std] at h
    split at h
    · next x hx => exact ⟨_, hx, (Except.ok.inj h).symm⟩
    · next hx =>
      refine ⟨_, hx, ?_⟩
      rw [← Except.ok.inj h]
      refine ⟨rfl, ?_⟩
      cases p <;> simp
    · next x rest hx => exact ⟨_, hx, fun _ => h⟩
    · cases h
  resolveNode := by
    intro d p k o _ h
    simp only [std, List.dropLast_concat, List.getLastD_concat] at h
    split at h
    · next c hc => exact ⟨c, hc, orError_eq_ok h⟩
    · cases h
  get := orError_eq_ok
  createNode := Except.ok.inj
  set := orError_eq_ok
  setAsLink := orError_eq_ok
  newDagWithNodes := by
    intro os d h
    cases os with
    | nil => cases h
    | cons root rest => exact ⟨root, rest, rfl, (Except.ok.inj h).symm⟩
  lift := by
    intro k hk o rest x
    cases o <;> simp [std, stdLift, hk]

theorem std_complete (L : Ipld) : (std L).Complete where
  found h := by simp only [std, h]
  missing := by
    intro d p h
    simp only [std, h]
    exact ⟨_, by cases p <;> simp, rfl⟩
  stopped h _ hr := by simpa only [std, h] using hr
  resolveNode h hc := by
    simp only [std, List.dropLast_concat, List.getLastD_concat, h]
    exact orError_of_eq_some hc
  get := orError_of_eq_some
  createNode _ _ := rfl
  set := orError_of_eq_some
  setAsLink := orError_of_eq_some

/-- `Dag.ResolveInto`, with the decoder of the struct. -/
def resolveInto {α : Type} (D : DagLib L) (decode : Obj Cid → Except Fault α) (d : Dag L)
    (path : List String) : Except Fault α := do
  let node ← D.resolveNode d path
  decode node

theorem resolveInto_ok {α : Type} {D : DagLib L} (hD : D.Sound) {decode : Obj Cid → Except Fault α}
    {d : Dag L} {p : List String} {k : String} (hp : ∀ a ∈ p ++ [k], isIndex a = false) {a : α}
    (h : D.resolveInto decode d (p ++ [k]) = .ok a) :
    ∃ val, d.find (p ++ [k]) = some (some val) ∧ decode val = .ok a := by
  obtain ⟨node, hnode, h⟩ := bind_eq_ok.mp h
  obtain ⟨c, hentry, hc⟩ := hD.resolveNode hp hnode
  exact ⟨node, MerkleDag.Dag.find_of_entry_link hentry hc, h⟩

end DagLib

/-- A link to an object, in the examples. -/
noncomputable def DagExample.link (o : Obj Cid) : Obj Cid := .link (Ipld.inFull.objCid o)

/-! ## Decoding into structs -/

/-- The fields of a map that is read into a struct with the given ones. -/
def structFields (known : List String) : Obj Cid → Except Fault (List (String × Obj Cid))
  | .null => .ok []
  | .map fields =>
    if fields.all fun e => known.contains e.1 then .ok fields
    else .error (.error "no such field")
  | _ => .error (.error "cannot decode into a struct")

def uintField (fields : List (String × Obj Cid)) (k : String) : Except Fault UInt64 :=
  match fields.lookup k with
  | none => .ok 0
  | some (.uint n) => .ok n
  | some _ => .error (.error "cannot decode into a uint64")

def strField (fields : List (String × Obj Cid)) (k : String) : Except Fault String :=
  match fields.lookup k with
  | none => .ok ""
  | some (.str s) => .ok s
  | some _ => .error (.error "cannot decode into a string")

/-- A `*cid.Cid`. -/
def linkField (fields : List (String × Obj Cid)) (k : String) : Except Fault (Option Cid) :=
  match fields.lookup k with
  | none => .ok none
  | some .null => .ok none
  | some (.link c) => .ok (some c)
  | some _ => .error (.error "cannot decode into a cid.Cid")

theorem structFields_map_ok {known : List String} {fields fields' : List (String × Obj Cid)}
    (h : structFields known (.map fields) = .ok fields') : fields' = fields := by
  rw [structFields] at h
  split at h
  · exact (Except.ok.inj h).symm
  · cases h

end Tupelo

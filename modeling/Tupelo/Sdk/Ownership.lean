import Tupelo.Infra.Unfold
import Tupelo.Consensus.TokenName

/-!
# The owners of a chain tree

A chain tree is owned by the addresses in its `authentications`, and by the owners of the trees
whose DIDs are there. `ResolveOwners` follows these links. It works on what `GlobalResolve`
returns, which has a `Dag` in the place of every DID of a tree that exists, and a list in the
place of every path to one.

The links of the trees make a graph; `children` is its reading of the authentications, and
`resolveOwnersRecursively` is `expand` on it. A recursion in Go that does not end is one that no
fuel is enough for.
-/

namespace Tupelo

open Infra Relation

/-! ## `graftabledag` -/

/-- What a path resolves to. -/
inductive Resolved (δ : Type) where
  | nil
  | str (s : String)
  | dag (d : δ)
  | list (l : List (Resolved δ))
  /-- A value of another Go type. -/
  | other (goType : String)

/-- `%T` -/
def Resolved.goType {δ : Type} : Resolved δ → String
  | .nil => "<nil>"
  | .str _ => "string"
  | .dag _ => "*dag.Dag"
  | .list _ => "[]interface \x7b\x7d"
  | .other goType => goType

/-- The package `graftabledag`, with a `DagGetter`, and the resolving of a `Dag`. -/
structure GraftableDags (δ : Type) where
  /-- `graftabledag.New` -/
  new : δ → Except Fault Unit
  /-- `OriginDag().Resolve` at `id` -/
  id : δ → Except Fault (Resolved δ)
  globalResolve : δ → List String → Except Fault (Resolved δ)
  pathsContainPrefix : List (List String) → List String → Bool
  /-- `%+v` -/
  sprint : Resolved δ → String

/-! ## `graftedownership.go` -/

abbrev Addrs := List String

/-- `DidToAddr` in `consensus.go`. -/
def didToAddr (did : String) : String := (split did ':').getLastD ""

def authenticationsPath : List String := split ("tree/" ++ treePathForAuthentications) '/'

def loopDetected (didPath : List String) : Fault :=
  .error ("loop detected; some or all of " ++ join didPath "/" ++
    " has already been visited in this resolution")

namespace GraftableDags

variable {δ : Type} (G : GraftableDags δ)

/-- The places at which a function hands over to another one always finish. -/
def finished {α : Type} (x : Except Fault α) : Fueled Fault α := ExceptT.mk (some x)

theorem ends_finished {α : Type} {x r : Except Fault α} : (finished x).Ends r ↔ x = r :=
  Option.some_inj

def unknownAuthType (v : Resolved δ) : Fault :=
  .error ("unknown auth type for " ++ G.sprint v ++ ": " ++ v.goType)

section Loops

variable (resolve : δ → List (List String) → Fueled Fault Addrs)

def handleDag (d : δ) (seen : List (List String)) : Fueled Fault Addrs := do
  let _ ← finished (wrapErr ("could not create graftable DAG for " ++ G.sprint (.dag d) ++ ": ")
    (G.new d))
  resolve d seen

/-- The inner loop: an element of a list in the authentications. -/
def handleAddr (seen : List (List String)) (owners : Addrs) : Resolved δ → Fueled Fault Addrs
  | .str addr => pure (owners ++ [addr])
  | .dag addr => do
    let newOwners ← G.handleDag resolve addr seen
    pure (owners ++ newOwners)
  | v => throw (G.unknownAuthType v)

/-- The outer loop: an element of the authentications. -/
def handleAuth (seen : List (List String)) (owners : Addrs) : Resolved δ → Fueled Fault Addrs
  | .dag auth => do
    let newOwners ← G.handleDag resolve auth seen
    pure (owners ++ newOwners)
  -- tupelo DIDs are filtered out: their chaintrees do not exist yet
  | .str auth => pure (if hasPrefix auth "did:tupelo:" then owners else owners ++ [auth])
  | .list auth => auth.foldlM (G.handleAddr resolve seen) owners
  | v => throw (G.unknownAuthType v)

end Loops

def resolveOwnersRecursively : Nat → δ → List (List String) → Fueled Fault Addrs
  | 0, _, _ => ExceptT.mk none
  | fuel + 1, d, seen => do
    let originDid ← match ← finished (G.id d) with
      | .str originDid => pure originDid
      | v => throw (.error ("could not cast origin did to string; was a " ++ v.goType))
    let didPath := originDid :: authenticationsPath
    if G.pathsContainPrefix seen didPath then throw (loopDetected didPath)
    else
      let seen := seen ++ [didPath]
      match ← finished (G.globalResolve d authenticationsPath) with
      | .list auths => auths.foldlM (G.handleAuth (resolveOwnersRecursively fuel) seen) []
      | .dag auths => G.handleDag (resolveOwnersRecursively fuel) auths seen
      | .nil =>
        match ← finished (wrapErr "could not get id: " (G.id d)) with
        | .str id => pure [didToAddr id]
        | v => throw (.panic ("interface conversion: interface \x7b\x7d is " ++ v.goType ++
            ", not string"))
      | v => throw (.error ("got unexpected type for auths " ++ G.sprint v ++ ": " ++ v.goType))

def resolveOwners (fuel : Nat) (d : δ) : Fueled Fault Addrs :=
  G.resolveOwnersRecursively fuel d []

end GraftableDags

/-! ## A collection of chain trees -/

/-- A chain tree as its owners see it: the entries of its authentications, and the lists in it. -/
structure OwnedTree where
  authentications : Option (List String)
  lists : List (List String × List String)

/-- Chain trees by their DIDs. -/
abbrev ChainTrees := List (String × OwnedTree)

namespace ChainTrees

variable (ts : ChainTrees)

def has (did : String) : Bool := (ts.lookup did).isSome

/-- The list at a path that starts with a DID. -/
def listAt (path : String) : Option (List String) :=
  match split path '/' with
  | [] => none
  | did :: rest => (ts.lookup did).bind fun tree => tree.lists.lookup rest

/-! ### What its owners should be -/

/-- What an entry of the authentications gives. -/
def ownersOfEntry (own : String → Addrs) (entry : String) : Addrs :=
  if ts.has entry then own entry
  else match ts.listAt entry with
    | some l => l.flatMap fun s => if ts.has s then own s else [s]
    | none => if hasPrefix entry "did:tupelo:" then [] else [entry]

def ownersOfTree (own : String → Addrs) (did : String) (tree : OwnedTree) : Addrs :=
  match tree.authentications with
  | none => [didToAddr did]
  | some entries => entries.flatMap (ts.ownersOfEntry own)

/-- The entry names the tree: by its DID, or by a path to a list with its DID. -/
def Names (entry did : String) : Prop :=
  ts.has did = true ∧
    (entry = did ∨ ts.has entry = false ∧ ∃ l, ts.listAt entry = some l ∧ did ∈ l)

/-- An ownership link. -/
def OwnedBy (did owner : String) : Prop :=
  ∃ tree entries, ts.lookup did = some tree ∧ tree.authentications = some entries ∧
    ∃ entry ∈ entries, ts.Names entry owner

/-- `own` has the owners of every tree that the links lead to from the origin. -/
def IsOwners (own : String → Addrs) (origin : String) : Prop :=
  ∀ did tree, ReflTransGen ts.OwnedBy origin did → ts.lookup did = some tree →
    own did = ts.ownersOfTree own did tree

/-! ### What `GlobalResolve` makes of it -/

section Resolve

variable {δ : Type} (dag : String → δ)

def resolveDid (s : String) : Resolved δ := if ts.has s then .dag (dag s) else .str s

def resolveEntry (entry : String) : Resolved δ :=
  if ts.has entry then .dag (dag entry)
  else match ts.listAt entry with
    | some l => .list (l.map (ts.resolveDid dag))
    | none => .str entry

def resolveAuthentications (tree : OwnedTree) : Resolved δ :=
  match tree.authentications with
  | none => .nil
  | some entries => .list (entries.map (ts.resolveEntry dag))

end Resolve

end ChainTrees

/-- What is assumed of `graftabledag`, for a collection of trees. -/
structure GraftableDags.Documented {δ : Type} (G : GraftableDags δ) (ts : ChainTrees)
    (dag : String → δ) : Prop where
  new : ∀ did, ts.has did = true → G.new (dag did) = .ok ()
  id : ∀ did, ts.has did = true → G.id (dag did) = .ok (.str did)
  globalResolve : ∀ did tree, ts.lookup did = some tree →
    G.globalResolve (dag did) authenticationsPath = .ok (ts.resolveAuthentications dag tree)
  pathsContainPrefix : ∀ seen path,
    G.pathsContainPrefix seen path = true ↔ ∃ s ∈ seen, s <+: path

/-! ## The graph of a collection -/

namespace ChainTrees

variable (ts : ChainTrees)
variable {did owner : String}

def childrenOfEntry (entry : String) : List (String ⊕ String) :=
  if ts.has entry then [.inr entry]
  else match ts.listAt entry with
    | some l => l.map fun s => if ts.has s then .inr s else .inl s
    | none => if hasPrefix entry "did:tupelo:" then [] else [.inl entry]

def children (did : String) : List (String ⊕ String) :=
  match ts.lookup did with
  | none => []
  | some tree => match tree.authentications with
    | none => [.inl (didToAddr did)]
    | some entries => entries.flatMap ts.childrenOfEntry

variable {ts}

theorem children_eq {tree : OwnedTree} (h : ts.lookup did = some tree) :
    ts.children did = match tree.authentications with
      | none => [.inl (didToAddr did)]
      | some entries => entries.flatMap ts.childrenOfEntry := by
  unfold children
  rw [h]

theorem mem_childrenOfEntry {entry : String} :
    .inr owner ∈ ts.childrenOfEntry entry ↔ ts.Names entry owner := by
  unfold childrenOfEntry Names
  by_cases hentry : ts.has entry = true
  · rw [if_pos hentry]
    constructor
    · intro h
      obtain rfl := Sum.inr.inj (List.mem_singleton.mp h)
      exact ⟨hentry, Or.inl rfl⟩
    · rintro ⟨-, rfl | ⟨hno, -⟩⟩
      · exact List.mem_singleton_self _
      · cases hentry.symm.trans hno
  · have hno : ts.has entry = false := Bool.eq_false_iff.mpr hentry
    rw [if_neg hentry]
    cases hl : ts.listAt entry with
    | none =>
      dsimp only
      constructor
      · intro h
        split at h
        · cases h
        · cases List.mem_singleton.mp h
      · rintro ⟨howner, rfl | ⟨-, l, ⟨⟩, -⟩⟩
        exact absurd howner hentry
    | some l =>
      simp only [List.mem_map]
      constructor
      · rintro ⟨s, hs, heq⟩
        split at heq
        · next hhas =>
          obtain rfl := Sum.inr.inj heq
          exact ⟨hhas, Or.inr ⟨hno, l, rfl, hs⟩⟩
        · cases heq
      · rintro ⟨howner, rfl | ⟨-, l', ⟨⟩, hmem⟩⟩
        · exact absurd howner hentry
        · exact ⟨owner, hmem, if_pos howner⟩

/-- The links of the graph are the ownership links. -/
theorem link_iff : Link ts.children did owner ↔ ts.OwnedBy did owner := by
  unfold Link children OwnedBy
  cases hl : ts.lookup did with
  | none => simp
  | some tree =>
    cases ha : tree.authentications with
    | none => simp [ha]
    | some entries => simp [ha, mem_childrenOfEntry]

theorem link_eq : Link ts.children = ts.OwnedBy :=
  funext fun _ => funext fun _ => propext link_iff

theorem contribution_childrenOfEntry (own : String → Addrs) (entry : String) :
    (ts.childrenOfEntry entry).flatMap (contribution own) = ts.ownersOfEntry own entry := by
  unfold childrenOfEntry ownersOfEntry
  split
  · simp [contribution]
  · split
    · rw [List.flatMap_map]
      refine List.flatMap_congr fun s _ => ?_
      split <;> rfl
    · split <;> rfl

theorem contribution_children (own : String → Addrs) {tree : OwnedTree}
    (h : ts.lookup did = some tree) :
    (ts.children did).flatMap (contribution own) = ts.ownersOfTree own did tree := by
  rw [children_eq h]
  unfold ownersOfTree
  cases ha : tree.authentications with
  | none => simp [contribution]
  | some entries => simp [List.flatMap_assoc, contribution_childrenOfEntry]

theorem has_iff : ts.has did = true ↔ ∃ tree, ts.lookup did = some tree :=
  Option.isSome_iff_exists

/-- Links lead to trees of the collection. -/
theorem has_of_ownedBy (h : ts.OwnedBy did owner) : ts.has owner = true := by
  obtain ⟨tree, entries, -, -, entry, -, hnames⟩ := h
  exact hnames.1

theorem mem_of_has (h : ts.has did = true) : did ∈ ts.map Prod.fst := by
  obtain ⟨tree, htree⟩ := has_iff.mp h
  obtain ⟨l₁, l₂, rfl, -⟩ := List.lookup_eq_some_iff.mp htree
  simp

/-- **The owners of the trees are what unfolds the graph.** -/
theorem unfolds_iff {own : String → Addrs} {origin : String} (ho : ts.has origin = true) :
    Unfolds ts.children own origin ↔ ts.IsOwners own origin := by
  unfold Unfolds IsOwners
  rw [link_eq]
  constructor
  · intro h did tree hreach htree
    rw [← contribution_children own htree]
    exact h did hreach
  · intro h did hreach
    have hhas : ts.has did = true := by
      rcases ReflTransGen.cases_tail hreach with rfl | ⟨_, -, hlink⟩
      · exact ho
      · exact has_of_ownedBy hlink
    obtain ⟨tree, htree⟩ := has_iff.mp hhas
    rw [contribution_children own htree]
    exact h did tree hreach htree

end ChainTrees

namespace GraftableDags

variable {δ : Type} {G : GraftableDags δ} {ts : ChainTrees} {dag : String → δ}

/-- The way to a tree, as `seen` has it. -/
def didPath (did : String) : List String := did :: authenticationsPath

/-- All these paths are of one length, so one is before another only if they are equal. -/
theorem pathsContainPrefix_didPath (hG : G.Documented ts dag) {seen : List String} {did : String} :
    G.pathsContainPrefix (seen.map didPath) (didPath did) = true ↔ did ∈ seen := by
  rw [hG.pathsContainPrefix]
  constructor
  · rintro ⟨_, hmem, hpre⟩
    obtain ⟨did', hdid', rfl⟩ := List.mem_map.mp hmem
    rw [(List.cons.inj (hpre.eq_of_length rfl)).1] at hdid'
    exact hdid'
  · intro h
    exact ⟨_, List.mem_map_of_mem h, List.prefix_rfl⟩

section Loops

variable {resolve : δ → List (List String) → Fueled Fault Addrs} {seen : List (List String)}
  {f : String → Fueled Fault Addrs}

theorem handleDag_eq (hG : G.Documented ts dag)
    (hf : ∀ did, ts.has did = true → resolve (dag did) seen = f did) {did : String}
    (h : ts.has did = true) : G.handleDag resolve (dag did) seen = f did := by
  unfold handleDag
  rw [hG.new did h, ← hf did h]
  rfl

/-- The inner loop gathers the children of a list. -/
theorem foldlM_handleAddr (hG : G.Documented ts dag)
    (hf : ∀ did, ts.has did = true → resolve (dag did) seen = f did) (l : List String)
    (owners : Addrs) :
    (l.map (ts.resolveDid dag)).foldlM (G.handleAddr resolve seen) owners = (do
      let new ← gather f (l.map fun s => if ts.has s then .inr s else .inl s)
      pure (owners ++ new)) := by
  induction l generalizing owners with
  | nil => simp [gather]
  | cons s l ih =>
    rw [List.map_cons, List.map_cons, List.foldlM_cons]
    by_cases hs : ts.has s = true
    · rw [ChainTrees.resolveDid, if_pos hs, if_pos hs, handleAddr, handleDag_eq hG hf hs]
      simp only [gather, ih, bind_assoc, pure_bind, List.append_assoc]
    · rw [ChainTrees.resolveDid, if_neg hs, if_neg hs, handleAddr]
      simp only [gather, ih, bind_assoc, pure_bind, List.append_assoc, List.singleton_append]

theorem handleAuth_eq (hG : G.Documented ts dag)
    (hf : ∀ did, ts.has did = true → resolve (dag did) seen = f did) (entry : String)
    (owners : Addrs) :
    G.handleAuth resolve seen owners (ts.resolveEntry dag entry) = (do
      let new ← gather f (ts.childrenOfEntry entry)
      pure (owners ++ new)) := by
  unfold ChainTrees.resolveEntry ChainTrees.childrenOfEntry
  by_cases hentry : ts.has entry = true
  · rw [if_pos hentry, if_pos hentry, handleAuth, handleDag_eq hG hf hentry]
    simp [gather]
  · rw [if_neg hentry, if_neg hentry]
    cases hl : ts.listAt entry with
    | some l => exact foldlM_handleAddr hG hf l owners
    | none =>
      dsimp only [handleAuth]
      split
      · simp [gather]
      · simp [gather]

/-- The outer loop gathers the children of the tree. -/
theorem foldlM_handleAuth (hG : G.Documented ts dag)
    (hf : ∀ did, ts.has did = true → resolve (dag did) seen = f did) (entries : List String)
    (owners : Addrs) :
    (entries.map (ts.resolveEntry dag)).foldlM (G.handleAuth resolve seen) owners = (do
      let new ← gather f (entries.flatMap ts.childrenOfEntry)
      pure (owners ++ new)) := by
  induction entries generalizing owners with
  | nil => simp [gather]
  | cons entry entries ih =>
    rw [List.map_cons, List.foldlM_cons, handleAuth_eq hG hf, List.flatMap_cons, gather_append]
    simp only [ih, bind_assoc, pure_bind, List.append_assoc]

end Loops

/-- **The recursion unfolds the graph.** -/
theorem resolveOwnersRecursively_eq (hG : G.Documented ts dag) (fuel : Nat) (seen : List String)
    {did : String} (h : ts.has did = true) :
    G.resolveOwnersRecursively fuel (dag did) (seen.map didPath) =
      expand ts.children (fun did => loopDetected (didPath did)) fuel seen did := by
  induction fuel generalizing seen did with
  | zero => rfl
  | succ fuel ih =>
    obtain ⟨tree, htree⟩ := ChainTrees.has_iff.mp h
    have hseen : seen.map didPath ++ [didPath did] = (seen ++ [did]).map didPath := by simp
    have hf : ∀ did', ts.has did' = true →
        G.resolveOwnersRecursively fuel (dag did') ((seen ++ [did]).map didPath) =
          expand ts.children (fun did => loopDetected (didPath did)) fuel (seen ++ [did]) did' :=
      fun did' hdid' => ih (seen ++ [did]) hdid'
    rw [resolveOwnersRecursively, expand, hG.id did h, hG.globalResolve did tree htree]
    show (if G.pathsContainPrefix (seen.map didPath) (didPath did) = true then _ else _) = _
    by_cases hmem : did ∈ seen
    · rw [if_pos hmem, if_pos ((pathsContainPrefix_didPath hG).mpr hmem)]
      rfl
    · rw [if_neg hmem, if_neg (mt (pathsContainPrefix_didPath hG).mp hmem)]
      rw [ChainTrees.children_eq htree]
      unfold ChainTrees.resolveAuthentications
      cases ha : tree.authentications with
      | none => rfl
      | some entries =>
        show List.foldlM (G.handleAuth _ (seen.map didPath ++ [didPath did])) [] _ = _
        rw [hseen, foldlM_handleAuth hG hf]
        simp

end GraftableDags

/--
**The resolution of owners terminates and is exact.**

For every finite collection of chain trees, from any of them: with fuel for more than all trees
the resolution finishes; it fails for a loop just when the ownership links lead from the origin
to a cycle; and otherwise it returns what each entry of the authentications gives, in order.
-/
theorem resolveOwners_exact {δ : Type} {G : GraftableDags δ} {ts : ChainTrees} {dag : String → δ}
    (hG : G.Documented ts dag) {origin : String} (ho : ts.has origin = true) :
    ∃ r : Except Fault Addrs,
      (∀ fuel, ts.length < fuel → (G.resolveOwners fuel (dag origin)).Ends r) ∧
      ((∃ didPath, r = .error (loopDetected didPath)) ↔
        ∃ did, ReflTransGen ts.OwnedBy origin did ∧ TransGen ts.OwnedBy did did) ∧
      ((¬ ∃ did, ReflTransGen ts.OwnedBy origin did ∧ TransGen ts.OwnedBy did did) →
        (∃ own, ts.IsOwners own origin) ∧
          ∀ own, ts.IsOwners own origin → r = .ok (own origin)) := by
  have hclosed : ∀ did ∈ ts.map Prod.fst, ∀ owner, Link ts.children did owner →
      owner ∈ ts.map Prod.fst := by
    intro did _ owner hlink
    exact ChainTrees.mem_of_has (ChainTrees.has_of_ownedBy (ChainTrees.link_iff.mp hlink))
  obtain ⟨r, hends, hloop, howners⟩ := expand_exact
    (fun did => loopDetected (GraftableDags.didPath did)) hclosed (ChainTrees.mem_of_has ho)
  unfold LeadsToCycle at hloop howners
  rw [ChainTrees.link_eq] at hloop howners
  simp only [ChainTrees.unfolds_iff ho] at howners
  refine ⟨r, ?_, ?_, howners⟩
  · intro fuel hfuel
    have heq := GraftableDags.resolveOwnersRecursively_eq hG fuel [] ho
    rw [List.map_nil] at heq
    rw [GraftableDags.resolveOwners, heq]
    exact hends fuel (by rwa [List.length_map])
  · rw [← hloop]
    constructor
    · rintro ⟨path, rfl⟩
      refine hloop.mpr (by_contra fun hcycle => ?_)
      obtain ⟨⟨own, hown⟩, hall⟩ := howners hcycle
      cases hall own hown
    · rintro ⟨did, hdid⟩
      exact ⟨_, hdid⟩

/-! ## A tree with two owners that one tree owns -/

namespace OwnershipExample

/-- What is assumed, done directly: the DIDs stand for the `Dag`s. -/
def graft (ts : ChainTrees) : GraftableDags String where
  new _ := .ok ()
  id did := .ok (.str did)
  globalResolve did path :=
    match ts.lookup did with
    | some tree =>
      if path = authenticationsPath then .ok (ts.resolveAuthentications id tree)
      else .error (.error "path not found")
    | none => .error (.error "tip not found")
  pathsContainPrefix seen path := seen.any (·.isPrefixOf path)
  sprint := Resolved.goType

theorem documented_graft (ts : ChainTrees) : (graft ts).Documented ts id where
  new _ _ := rfl
  id _ _ := rfl
  globalResolve did tree h := by simp [graft, h]
  pathsContainPrefix seen path := by simp [graft]

/-- `a` is owned by `b` and by the users of `org`; `d` is the owner of `b`, and a user. -/
def diamond : ChainTrees :=
  [("did:tupelo:a", ⟨some ["did:tupelo:b", "did:tupelo:org/tree/data/users"], []⟩),
   ("did:tupelo:b", ⟨some ["0x1", "did:tupelo:d"], []⟩),
   ("did:tupelo:org", ⟨none, [(["tree", "data", "users"], ["did:tupelo:d", "0x2"])]⟩),
   ("did:tupelo:d", ⟨none, []⟩)]

/-- The tree `d` is reached twice, and its address comes twice. -/
theorem resolveOwners_exact_diamond :
    (∀ fuel, 4 < fuel → ((graft diamond).resolveOwners fuel "did:tupelo:a").Ends
      (.ok ["0x1", "d", "d", "0x2"])) ∧
    ¬ ∃ did, ReflTransGen diamond.OwnedBy "did:tupelo:a" did ∧
      TransGen diamond.OwnedBy did did := by
  have ho : diamond.has "did:tupelo:a" = true := by decide +kernel
  obtain ⟨r, hends, hloop, -⟩ := resolveOwners_exact (documented_graft diamond) ho
  have hrun : ((graft diamond).resolveOwners 5 "did:tupelo:a").Ends
      (.ok ["0x1", "d", "d", "0x2"]) := by
    show ((graft diamond).resolveOwners 5 "did:tupelo:a").run = _
    decide +kernel
  obtain rfl := hrun.unique (hends 5 (by decide))
  refine ⟨hends, fun hcycle => ?_⟩
  obtain ⟨path, hpath⟩ := hloop.mpr hcycle
  cases hpath

end OwnershipExample

end Tupelo

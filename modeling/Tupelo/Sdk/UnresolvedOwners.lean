import Tupelo.Consensus.Names
import Tupelo.Sdk.Ownership

/-!
# DIDs among the owners

`ResolveOwners` leaves out the DIDs of trees that do not exist yet, which `GlobalResolve` leaves
as they are. It does so for the entries of the authentications. Where an entry is a path to a
list, the elements of the list become owners without a look at them.

So a DID is an owner exactly if it stands in such a list, of the tree itself or of one that its
owners lead to. This is so for whatever `GlobalResolve` returns.
-/

namespace Tupelo

open Infra Relation

/-- The string is the DID of a tree. -/
def IsDid (s : String) : Prop := hasPrefix s "did:tupelo:" = true

instance (s : String) : Decidable (IsDid s) := inferInstanceAs (Decidable (_ = true))

/-- An address is the last part of a DID, and no DID itself. -/
theorem not_isDid_didToAddr (did : String) : ¬ IsDid (didToAddr did) :=
  fun h => not_mem_getLastD_split (mem_of_hasPrefix h (by decide))

namespace GraftableDags

variable {δ : Type} (G : GraftableDags δ)

/-! ## Where the authentications lead -/

/-- A `Dag` that the authentications of `d` resolve to: as a whole, an entry, or in a list. -/
def Leads (d d' : δ) : Prop :=
  match G.globalResolve d authenticationsPath with
  | .ok (.dag auths) => d' = auths
  | .ok (.list auths) => .dag d' ∈ auths ∨ ∃ l, .list l ∈ auths ∧ .dag d' ∈ l
  | _ => False

/-- A string in a list that an entry of the authentications of `d` resolves to. -/
def InList (d : δ) (s : String) : Prop :=
  match G.globalResolve d authenticationsPath with
  | .ok (.list auths) => ∃ l, .list l ∈ auths ∧ .str s ∈ l
  | _ => False

/-- A string in a list, of `d` or of a `Dag` its owners lead to. -/
def Unfiltered (d : δ) (s : String) : Prop := ∃ d', ReflTransGen G.Leads d d' ∧ G.InList d' s

variable {G}

theorem unfiltered_iff {d : δ} {s : String} :
    G.Unfiltered d s ↔ G.InList d s ∨ ∃ d', G.Leads d d' ∧ G.Unfiltered d' s := by
  constructor
  · rintro ⟨d', hreach, hs⟩
    rcases hreach.cases_head with rfl | ⟨d₁, hd₁, hreach⟩
    · exact Or.inl hs
    · exact Or.inr ⟨d₁, hd₁, d', hreach, hs⟩
  · rintro (hs | ⟨d₁, hd₁, d', hreach, hs⟩)
    · exact ⟨d, .refl, hs⟩
    · exact ⟨d', .head hd₁ hreach, hs⟩

/-! ## What each element adds -/

section Loops

variable {resolve : δ → List (List String) → Fueled Fault Addrs} {seen : List (List String)}
  {s : String} {R : δ → Prop}

theorem mem_handleDag
    (hres : ∀ d l, (resolve d seen).Ends (.ok l) → (s ∈ l ↔ R d)) {d : δ} {l : Addrs}
    (h : (G.handleDag resolve d seen).Ends (.ok l)) : s ∈ l ↔ R d := by
  obtain ⟨_, -, h⟩ := Fueled.ends_ok_bind.mp h
  exact hres d l h

/-- An element of a list: a string is taken as it is. -/
def AddrAdds (R : δ → Prop) (s : String) (v : Resolved δ) : Prop :=
  v = .str s ∨ ∃ d, v = .dag d ∧ R d

theorem mem_handleAddr
    (hres : ∀ d l, (resolve d seen).Ends (.ok l) → (s ∈ l ↔ R d)) (owners : Addrs)
    (v : Resolved δ) (owners' : Addrs)
    (h : (G.handleAddr resolve seen owners v).Ends (.ok owners')) :
    s ∈ owners' ↔ s ∈ owners ∨ AddrAdds R s v := by
  unfold AddrAdds
  match v with
  | .str addr =>
    obtain rfl := Except.ok.inj (Option.some.inj h)
    simp [eq_comm]
  | .dag d =>
    obtain ⟨l, hl, h⟩ := Fueled.ends_ok_bind.mp h
    obtain rfl := Except.ok.inj (Option.some.inj h)
    simp [mem_handleDag hres hl]
  | .nil => cases h
  | .list _ => cases h
  | .other _ => cases h

/-- An entry of the authentications adds a DID only from a list or from a `Dag`. -/
def AuthAdds (R : δ → Prop) (s : String) (v : Resolved δ) : Prop :=
  (∃ d, v = .dag d ∧ R d) ∨ ∃ l, v = .list l ∧ ∃ e ∈ l, AddrAdds R s e

theorem mem_handleAuth
    (hres : ∀ d l, (resolve d seen).Ends (.ok l) → (s ∈ l ↔ R d)) (hs : IsDid s) (owners : Addrs)
    (v : Resolved δ) (owners' : Addrs)
    (h : (G.handleAuth resolve seen owners v).Ends (.ok owners')) :
    s ∈ owners' ↔ s ∈ owners ∨ AuthAdds R s v := by
  unfold AuthAdds
  match v with
  | .dag d =>
    obtain ⟨l, hl, h⟩ := Fueled.ends_ok_bind.mp h
    obtain rfl := Except.ok.inj (Option.some.inj h)
    simp [mem_handleDag hres hl]
  | .str auth =>
    obtain rfl := Except.ok.inj (Option.some.inj h)
    split
    · simp
    · next hauth =>
      have hne : s ≠ auth := by
        rintro rfl
        exact hauth hs
      simp [hne]
  | .list l => simpa using Fueled.mem_foldlM (mem_handleAddr hres) h
  | .nil => cases h
  | .other _ => cases h

end Loops

/-! ## The resolution -/

/-- The entries add what stands in lists, and what the `Dag`s among them add. -/
theorem exists_authAdds {R : δ → Prop} {s : String} {vs : List (Resolved δ)} :
    (∃ v ∈ vs, AuthAdds R s v) ↔ (∃ l, .list l ∈ vs ∧ .str s ∈ l) ∨
      ∃ d, (.dag d ∈ vs ∨ ∃ l, .list l ∈ vs ∧ .dag d ∈ l) ∧ R d := by
  constructor
  · rintro ⟨v, hv, ⟨d, rfl, hd⟩ | ⟨l, rfl, e, he, rfl | ⟨d, rfl, hd⟩⟩⟩
    · exact Or.inr ⟨d, Or.inl hv, hd⟩
    · exact Or.inl ⟨l, hv, he⟩
    · exact Or.inr ⟨d, Or.inr ⟨l, hv, he⟩, hd⟩
  · rintro (⟨l, hl, hs⟩ | ⟨d, hd | ⟨l, hl, hd⟩, hR⟩)
    · exact ⟨_, hl, Or.inr ⟨l, rfl, _, hs, Or.inl rfl⟩⟩
    · exact ⟨_, hd, Or.inl ⟨d, rfl, hR⟩⟩
    · exact ⟨_, hl, Or.inr ⟨l, rfl, _, hd, Or.inr ⟨d, rfl, hR⟩⟩⟩

/-- How a resolution succeeds: by the kind of value that the authentications resolve to. -/
theorem resolveOwnersRecursively_ok {fuel : Nat} {d : δ} {seen : List (List String)}
    {owners : Addrs} (h : (G.resolveOwnersRecursively (fuel + 1) d seen).Ends (.ok owners)) :
    ∃ auths seen', G.globalResolve d authenticationsPath = .ok auths ∧
      match auths with
      | .list vs =>
        (vs.foldlM (G.handleAuth (G.resolveOwnersRecursively fuel) seen') []).Ends (.ok owners)
      | .dag d' => (G.handleDag (G.resolveOwnersRecursively fuel) d' seen').Ends (.ok owners)
      | .nil => ∃ id, owners = [didToAddr id]
      | _ => False := by
  rw [resolveOwnersRecursively] at h
  obtain ⟨v, -, h⟩ := Fueled.ends_ok_bind.mp h
  cases v with
  | str originDid =>
    dsimp only [pure_bind] at h
    rw [pure_bind] at h
    split at h
    · cases h
    · obtain ⟨auths, hauths, h⟩ := Fueled.ends_ok_bind.mp h
      refine ⟨auths, seen ++ [originDid :: authenticationsPath], ends_finished.mp hauths, ?_⟩
      cases auths with
      | list vs => exact h
      | dag d' => exact h
      | nil =>
        obtain ⟨id, -, h⟩ := Fueled.ends_ok_bind.mp h
        cases id with
        | str id => exact ⟨id, (Except.ok.inj (Option.some.inj h)).symm⟩
        | nil => cases h
        | dag _ => cases h
        | list _ => cases h
        | other _ => cases h
      | str _ => cases h
      | other _ => cases h
  | nil => cases h
  | dag _ => cases h
  | list _ => cases h
  | other _ => cases h

/-- **The DIDs among the owners are those in lists.** -/
theorem mem_resolveOwnersRecursively {s : String} (hs : IsDid s) (fuel : Nat) :
    ∀ (seen : List (List String)) (d : δ) (owners : Addrs),
      (G.resolveOwnersRecursively fuel d seen).Ends (.ok owners) →
        (s ∈ owners ↔ G.Unfiltered d s) := by
  induction fuel with
  | zero =>
    intro seen d owners h
    cases h
  | succ fuel ih =>
    intro seen d owners h
    obtain ⟨auths, seen', hauths, h⟩ := resolveOwnersRecursively_ok h
    rw [unfiltered_iff]
    unfold InList Leads
    rw [hauths]
    match auths with
    | .list vs =>
      rw [Fueled.mem_foldlM (mem_handleAuth (ih seen') hs) h, exists_authAdds]
      simp
    | .dag d' =>
      rw [mem_handleDag (ih seen') h]
      simp
    | .nil =>
      obtain ⟨id, rfl⟩ := h
      have hne : s ≠ didToAddr id := by
        rintro rfl
        exact not_isDid_didToAddr id hs
      simp [hne]
    | .str _ => exact h.elim
    | .other _ => exact h.elim

end GraftableDags

/--
**DIDs are owners only out of lists.**

Whatever the authentications resolve to, here and in the trees they lead to: a successful
resolution returns no DID if and only if none of the lists on the way has one.
-/
theorem resolveOwners_no_did_iff {δ : Type} {G : GraftableDags δ} {fuel : Nat} {d : δ}
    {owners : Addrs} (h : (G.resolveOwners fuel d).Ends (.ok owners)) :
    (∀ s ∈ owners, ¬ IsDid s) ↔ ∀ s, G.Unfiltered d s → ¬ IsDid s := by
  constructor
  · intro hno s hs hdid
    exact hno s ((GraftableDags.mem_resolveOwnersRecursively hdid fuel [] d owners h).mpr hs) hdid
  · intro hno s hs hdid
    exact hno s ((GraftableDags.mem_resolveOwnersRecursively hdid fuel [] d owners h).mp hs) hdid

/-! ## In a collection of chain trees -/

namespace ChainTrees

variable {ts : ChainTrees} {δ : Type} {G : GraftableDags δ} {dag : String → δ}

/-- The tree has an entry that leads to a list with the string, which is not the DID of a tree. -/
def Lists (ts : ChainTrees) (did s : String) : Prop :=
  ts.has s = false ∧ ∃ tree entries, ts.lookup did = some tree ∧
    tree.authentications = some entries ∧
      ∃ entry ∈ entries, ts.has entry = false ∧ ∃ l, ts.listAt entry = some l ∧ s ∈ l

theorem resolveDid_eq_str {s s' : String} :
    ts.resolveDid dag s' = .str s ↔ ts.has s = false ∧ s' = s := by
  unfold resolveDid
  by_cases h : ts.has s' = true
  · rw [if_pos h]
    constructor
    · rintro ⟨⟩
    · rintro ⟨hno, rfl⟩
      cases h.symm.trans hno
  · rw [if_neg h]
    constructor
    · rintro ⟨⟩
      exact ⟨Bool.eq_false_iff.mpr h, rfl⟩
    · rintro ⟨-, rfl⟩
      rfl

theorem resolveDid_eq_dag {s : String} {d : δ} :
    ts.resolveDid dag s = .dag d ↔ ts.has s = true ∧ dag s = d := by
  unfold resolveDid
  split <;> simp [*]

theorem resolveEntry_eq_dag {entry : String} {d : δ} :
    ts.resolveEntry dag entry = .dag d ↔ ts.has entry = true ∧ dag entry = d := by
  unfold resolveEntry
  split
  · simp [*]
  · split <;> simp [*]

theorem resolveEntry_eq_list {entry : String} {l : List (Resolved δ)} :
    ts.resolveEntry dag entry = .list l ↔ ts.has entry = false ∧
      ∃ l', ts.listAt entry = some l' ∧ l'.map (ts.resolveDid dag) = l := by
  unfold resolveEntry
  split
  · simp [*]
  · split <;> simp [*]

theorem inList_iff (hG : G.Documented ts dag) {did s : String} (h : ts.has did = true) :
    G.InList (dag did) s ↔ ts.Lists did s := by
  obtain ⟨tree, htree⟩ := has_iff.mp h
  unfold GraftableDags.InList Lists
  rw [hG.globalResolve did tree htree]
  unfold resolveAuthentications
  cases ha : tree.authentications with
  | none => simp [htree, ha]
  | some entries =>
    simp only [htree, List.mem_map, resolveEntry_eq_list]
    constructor
    · rintro ⟨_, ⟨entry, hentry, hno, l, hl, rfl⟩, hs⟩
      obtain ⟨s', hs', heq⟩ := List.mem_map.mp hs
      obtain ⟨hmiss, rfl⟩ := resolveDid_eq_str.mp heq
      exact ⟨hmiss, tree, entries, rfl, ha, entry, hentry, hno, l, hl, hs'⟩
    · rintro ⟨hmiss, _, _, ⟨⟩, ha', entry, hentry, hno, l, hl, hs⟩
      obtain rfl := Option.some.inj (ha.symm.trans ha')
      refine ⟨_, ⟨entry, hentry, hno, l, hl, rfl⟩, List.mem_map.mpr ⟨s, hs, ?_⟩⟩
      exact resolveDid_eq_str.mpr ⟨hmiss, rfl⟩

theorem leads_iff (hG : G.Documented ts dag) {did : String} {d : δ} (h : ts.has did = true) :
    G.Leads (dag did) d ↔ ∃ owner, ts.OwnedBy did owner ∧ dag owner = d := by
  obtain ⟨tree, htree⟩ := has_iff.mp h
  unfold GraftableDags.Leads OwnedBy Names
  rw [hG.globalResolve did tree htree]
  unfold resolveAuthentications
  cases ha : tree.authentications with
  | none => simp [htree, ha]
  | some entries =>
    simp only [htree, List.mem_map, resolveEntry_eq_list, resolveEntry_eq_dag]
    constructor
    · rintro (⟨entry, hentry, hhas, rfl⟩ | ⟨_, ⟨entry, hentry, hno, l, hl, rfl⟩, hd⟩)
      · exact ⟨entry, ⟨tree, entries, rfl, ha, entry, hentry, hhas, Or.inl rfl⟩, rfl⟩
      · obtain ⟨owner, howner, heq⟩ := List.mem_map.mp hd
        obtain ⟨hhas, rfl⟩ := resolveDid_eq_dag.mp heq
        exact ⟨owner, ⟨tree, entries, rfl, ha, entry, hentry, hhas,
          Or.inr ⟨hno, l, hl, howner⟩⟩, rfl⟩
    · rintro ⟨owner, ⟨_, _, ⟨⟩, ha', entry, hentry, hhas, hnames⟩, rfl⟩
      obtain rfl := Option.some.inj (ha.symm.trans ha')
      rcases hnames with rfl | ⟨hno, l, hl, howner⟩
      · exact Or.inl ⟨entry, hentry, hhas, rfl⟩
      · refine Or.inr ⟨_, ⟨entry, hentry, hno, l, hl, rfl⟩, List.mem_map.mpr ⟨owner, howner, ?_⟩⟩
        exact resolveDid_eq_dag.mpr ⟨hhas, rfl⟩

/-- The resolution goes to the `Dag`s of the trees that the ownership links lead to. -/
theorem reaches_iff (hG : G.Documented ts dag) {origin : String} (ho : ts.has origin = true)
    {d : δ} : ReflTransGen G.Leads (dag origin) d ↔
      ∃ did, ReflTransGen ts.OwnedBy origin did ∧ ts.has did = true ∧ dag did = d := by
  constructor
  · intro h
    induction h with
    | refl => exact ⟨origin, .refl, ho, rfl⟩
    | tail _ hleads ih =>
      obtain ⟨did, hreach, hhas, rfl⟩ := ih
      obtain ⟨owner, howned, rfl⟩ := (leads_iff hG hhas).mp hleads
      exact ⟨owner, hreach.tail howned, has_of_ownedBy howned, rfl⟩
  · rintro ⟨did, hreach, -, rfl⟩
    induction hreach with
    | refl => exact .refl
    | @tail did owner hreach howned ih =>
      have hhas : ts.has did = true := by
        rcases hreach.cases_tail with rfl | ⟨_, -, howned'⟩
        · exact ho
        · exact has_of_ownedBy howned'
      exact ih.tail ((leads_iff hG hhas).mpr ⟨owner, howned, rfl⟩)

/-- **In a collection of trees**, the lists are those of the trees that the links lead to. -/
theorem unfiltered_iff_lists (hG : G.Documented ts dag) {origin s : String}
    (ho : ts.has origin = true) :
    G.Unfiltered (dag origin) s ↔ ∃ did, ReflTransGen ts.OwnedBy origin did ∧ ts.Lists did s := by
  unfold GraftableDags.Unfiltered
  simp only [reaches_iff hG ho]
  constructor
  · rintro ⟨_, ⟨did, hreach, hhas, rfl⟩, hs⟩
    exact ⟨did, hreach, (inList_iff hG hhas).mp hs⟩
  · rintro ⟨did, hreach, hs⟩
    have hhas : ts.has did = true := by
      obtain ⟨-, tree, -, htree, -⟩ := hs
      exact has_iff.mpr ⟨tree, htree⟩
    exact ⟨_, ⟨did, hreach, hhas, rfl⟩, (inList_iff hG hhas).mpr hs⟩

end ChainTrees

namespace OwnershipExample

/-- No DID is in the list of users. -/
theorem resolveOwners_no_did_diamond :
    ((graft diamond).resolveOwners 5 "did:tupelo:a").Ends (.ok ["0x1", "d", "d", "0x2"]) ∧
    ∀ s, (graft diamond).Unfiltered "did:tupelo:a" s → ¬ IsDid s := by
  have hrun : ((graft diamond).resolveOwners 5 "did:tupelo:a").Ends
      (.ok ["0x1", "d", "d", "0x2"]) := by
    show ((graft diamond).resolveOwners 5 "did:tupelo:a").run = _
    decide +kernel
  exact ⟨hrun, (resolveOwners_no_did_iff hrun).mp (by decide +kernel)⟩

/-- `a` is owned by `b`, which does not exist yet, and by the users of `org`; so is one of these. -/
def missing : ChainTrees :=
  [("did:tupelo:a", ⟨some ["did:tupelo:b", "did:tupelo:org/tree/data/users"], []⟩),
   ("did:tupelo:org", ⟨none, [(["tree", "data", "users"], ["did:tupelo:c", "0x2"])]⟩)]

/-- The DID among the entries is left out, the one in the list of users is not. -/
theorem resolveOwners_did :
    ((graft missing).resolveOwners 3 "did:tupelo:a").Ends (.ok ["did:tupelo:c", "0x2"]) ∧
    missing.has "did:tupelo:c" = false ∧ IsDid "did:tupelo:c" := by
  refine ⟨?_, by decide +kernel, by decide +kernel⟩
  show ((graft missing).resolveOwners 3 "did:tupelo:a").run = _
  decide +kernel

end OwnershipExample

end Tupelo

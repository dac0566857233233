import Tupelo.Consensus.LedgerInvariant
import Tupelo.Infra.MerkleEntry

/-!
# What a failed operation leaves in the ledger

The operations of `TreeLedger` (`sdk/consensus/tree_ledger.go`) make a chain of calls of the DAG
library, each of which may fail. Minting and sending put the new tree into the ledger after the
last call only. Establishing, and receiving a token that is not there yet, begin with
`createToken`, which puts the tree it has made into the ledger; if a later call fails, the ledger
is left with an empty record of the token (`atomic_iff`).

The library is arbitrary here, so its calls fail in any pattern.
-/

namespace Tupelo

open Infra MerkleDag

namespace TreeLedger

variable {L : Ipld} {D : DagLib L} {l : TreeLedger L}

/-- An operation that returns no tree leaves the tree the ledger had. -/
def Atomic (l : TreeLedger L) (r : Except Fault (Dag L) × TreeLedger L) : Prop :=
  ∀ e, r.1 = .error e → r.2.tree = l.tree

theorem atomic_commit (l : TreeLedger L) (r : Except Fault (Dag L)) : Atomic l (l.commit r) := by
  intro e he
  rw [commit_fst] at he
  rw [he, commit]

/-- What a commit to another tree leaves: that tree, if the operation fails. -/
theorem atomic_commit_iff {newTree : Dag L} {r : Except Fault (Dag L)} :
    Atomic l (({ l with tree := newTree } : TreeLedger L).commit r) ↔
      (newTree ≠ l.tree → ∃ d', r = .ok d') := by
  cases r with
  | ok d' =>
    refine iff_of_true ?_ fun _ => ⟨d', rfl⟩
    intro e he
    cases he
  | error e =>
    constructor
    · intro h hne
      exact absurd (h e rfl) hne
    · intro h e' _
      by_contra hne
      obtain ⟨d', hd'⟩ := h hne
      cases hd'

/-- `createToken` fails and leaves everything, or leaves the tree it returns. -/
theorem createToken_cases (D : DagLib L) (l : TreeLedger L) :
    (∃ e, l.createToken D = (.error e, l)) ∨
      ∃ newTree, l.createToken D = (.ok newTree, { l with tree := newTree }) := by
  unfold createToken commit
  split
  · exact Or.inr ⟨_, rfl⟩
  · exact Or.inl ⟨_, rfl⟩

/-! ## The calls of the library -/

/-- Both writes of `createToken` succeed. -/
def Creates (D : DagLib L) (l : TreeLedger L) (newTree : Dag L) : Prop :=
  ∃ linked, D.setAsLink l.tree (recordPath l.tokenName.string) Token.zero = .ok linked ∧
    D.set linked (recordPath l.tokenName.string ++ [tokenBalanceLabel]) (.uint 0) = .ok newTree

/-- The calls with which a token is received in a tree that has it, each with what it returns. -/
structure ReceiveCalls (D : DagLib L) (tree : Dag L) (path : List String) (sendTokenTxId : String)
    (amount : UInt64) where
  value : Obj Cid
  rest : List String
  resolve : D.resolve tree (path ++ [tokenReceiveLabel]) = .ok (value, rest)
  cids : List Cid
  links : value = .null ∧ cids = [] ∨ value = .list (cids.map .link)
  get : ∀ c ∈ cids, ∃ node tr, D.get tree c = .ok node ∧ decodeTokenReceive node = .ok tr ∧
    tr.sendTokenTransactionId ≠ sendTokenTxId
  newReceive : Cid
  made : Dag L
  createNode : D.createNode tree
    (TokenReceive.toObj { sendTokenTransactionId := sendTokenTxId, amount }) =
      .ok (newReceive, made)
  linked : Dag L
  setAsLink : D.setAsLink made (path ++ [tokenReceiveLabel])
    (.list ((cids ++ [newReceive]).map .link)) = .ok linked
  token : Token
  resolveInto : D.resolveInto decodeToken made path = .ok token
  newTree : Dag L
  set : D.set linked (path ++ [tokenBalanceLabel]) (.uint (token.balance + amount)) = .ok newTree

theorem createToken_eq_ok {newTree : Dag L} :
    (l.createToken D).1 = .ok newTree ↔ Creates D l newTree := by
  unfold createToken Creates
  rw [commit_fst, tokenPath_eq, wrapErr_ok, ok_bind]
  simp only [bind_eq_ok, wrapErr_eq_ok]

theorem tokenExists_eq_false : l.tokenExists D = .ok false ↔
    ∃ rest, D.resolve l.tree (recordPath l.tokenName.string) = .ok (.null, rest) := by
  constructor
  · intro h
    obtain ⟨o, rest, hres, hnull⟩ := tokenExists_ok h
    obtain rfl : o = .null := by simpa using hnull
    exact ⟨rest, hres⟩
  · rintro ⟨rest, hres⟩
    unfold tokenExists
    rw [tokenPath_eq, wrapErr_ok, ok_bind, hres]
    rfl

theorem balance_eq_ok {b : UInt64} : l.balance D = .ok b ↔
    ∃ token, D.resolveInto decodeToken l.tree (recordPath l.tokenName.string) = .ok token ∧
      token.balance = b := by
  unfold balance
  rw [tokenPath_eq, ok_bind]
  simp only [bind_eq_ok, wrapErr_eq_ok, pure_eq_ok]

/-- A list of transactions: a nil, or a list of links. -/
theorem transactionCids_eq_ok {label : String} {cids : List Cid} :
    l.tokenTransactionCidsForType D label = .ok cids ↔
      ∃ value rest, D.resolve l.tree (recordPath l.tokenName.string ++ [label]) =
        .ok (value, rest) ∧ (value = .null ∧ cids = [] ∨ value = .list (cids.map .link)) := by
  unfold tokenTransactionCidsForType transactionCidsForPath
  rw [tokenPath_eq, ok_bind, wrapErr_eq_ok]
  constructor
  · intro h
    obtain ⟨⟨value, rest⟩, hres, h⟩ := bind_eq_ok.mp h
    refine ⟨value, rest, wrapErr_eq_ok.mp hres, ?_⟩
    cases value with
    | null => exact Or.inl ⟨rfl, (Except.ok.inj h).symm⟩
    | list xs => exact Or.inr (congrArg _ (mapM_castCid h))
    | _ => cases h
  · rintro ⟨value, rest, hres, hvalue⟩
    refine bind_eq_ok.mpr ⟨(value, rest), wrapErr_eq_ok.mpr hres, ?_⟩
    rcases hvalue with ⟨rfl, rfl⟩ | rfl
    · rfl
    · exact mapM_castCid_links cids

/-- **What follows in `ReceiveToken` once the token exists** succeeds if its calls do. -/
theorem receive_eq_ok {sendTokenTxId : String} {amount : UInt64} :
    (∃ d', (receiveToken.receive D sendTokenTxId amount l).1 = .ok d') ↔
      Nonempty (ReceiveCalls D l.tree (recordPath l.tokenName.string) sendTokenTxId amount) := by
  constructor
  · rintro ⟨d', h⟩
    unfold receiveToken.receive at h
    rw [commit_fst, tokenPath_eq, ok_bind] at h
    obtain ⟨cids, hcids, h⟩ := bind_eq_ok.mp h
    obtain ⟨_, hcheck, h⟩ := bind_eq_ok.mp h
    obtain ⟨⟨c, made⟩, hnode, h⟩ := bind_eq_ok.mp h
    obtain ⟨linked, hlinked, h⟩ := bind_eq_ok.mp h
    obtain ⟨b, hb, h⟩ := bind_eq_ok.mp h
    obtain ⟨curr, hcurr, hb⟩ := bind_eq_ok.mp hb
    obtain ⟨value, rest, hres, hlinks⟩ := transactionCids_eq_ok.mp (wrapErr_eq_ok.mp hcids)
    obtain ⟨token, htoken, rfl⟩ := balance_eq_ok.mp (wrapErr_eq_ok.mp hcurr)
    rw [← pure_eq_ok.mp hb] at h
    exact ⟨{ value, rest, resolve := hres, cids, links := hlinks
             get := fun c hc => checkReceive_ok.mp (forM_eq_ok.mp hcheck c hc)
             newReceive := c, made, createNode := wrapErr_eq_ok.mp hnode
             linked, setAsLink := wrapErr_eq_ok.mp hlinked
             token, resolveInto := htoken, newTree := d', set := wrapErr_eq_ok.mp h }⟩
  · rintro ⟨calls⟩
    have hcids := transactionCids_eq_ok.mpr ⟨_, _, calls.resolve, calls.links⟩
    have hbalance := balance_eq_ok (l := { l with tree := calls.made }).mpr
      ⟨_, calls.resolveInto, rfl⟩
    refine ⟨calls.newTree, ?_⟩
    unfold receiveToken.receive appendTransaction
    rw [commit_fst, tokenPath_eq, ok_bind, hcids, wrapErr_ok, ok_bind]
    refine bind_eq_ok.mpr ⟨_, forM_eq_ok.mpr fun c hc => checkReceive_ok.mpr (calls.get c hc), ?_⟩
    refine bind_eq_ok.mpr ⟨_, wrapErr_eq_ok.mpr calls.createNode, ?_⟩
    refine bind_eq_ok.mpr ⟨_, wrapErr_eq_ok.mpr calls.setAsLink, ?_⟩
    exact bind_eq_ok.mpr ⟨_, bind_eq_ok.mpr ⟨_, wrapErr_eq_ok.mpr hbalance, rfl⟩,
      wrapErr_eq_ok.mpr calls.set⟩

/-! ## The four operations -/

theorem atomic_mintToken (D : DagLib L) (l : TreeLedger L) (amount : UInt64) :
    Atomic l (l.mintToken D amount) := atomic_commit l _

theorem atomic_sendToken (D : DagLib L) (l : TreeLedger L) (txId destination : String)
    (amount : UInt64) : Atomic l (l.sendToken D txId destination amount) := atomic_commit l _

theorem atomic_establishToken_iff {policy : TokenMonetaryPolicy} :
    Atomic l (l.establishToken D policy) ↔
      ∀ newTree, Creates D l newTree → newTree ≠ l.tree →
        ∃ d', D.setAsLink newTree (recordPath l.tokenName.string ++ [monetaryPolicyLabel])
          policy.toObj = .ok d' := by
  simp only [← createToken_eq_ok]
  unfold establishToken
  rcases createToken_cases D l with ⟨e, hcreate⟩ | ⟨created, hcreate⟩
  · rw [hcreate]
    refine iff_of_true (fun _ _ => rfl) ?_
    intro newTree h
    cases h
  · rw [hcreate]
    dsimp only
    rw [atomic_commit_iff, tokenPath_eq, ok_bind]
    simp only [Except.ok.injEq, forall_eq', wrapErr_eq_ok]

theorem atomic_receiveToken_iff {sendTokenTxId : String} {amount : UInt64} :
    Atomic l (l.receiveToken D sendTokenTxId amount) ↔
      ((∃ rest, D.resolve l.tree (recordPath l.tokenName.string) = .ok (.null, rest)) →
        ∀ newTree, Creates D l newTree → newTree ≠ l.tree → Nonempty
          (ReceiveCalls D newTree (recordPath l.tokenName.string) sendTokenTxId amount)) := by
  simp only [← createToken_eq_ok, ← tokenExists_eq_false]
  unfold receiveToken
  rw [tokenPath_bind]
  match hexists : l.tokenExists D with
  | .error e => exact iff_of_true (fun _ _ => rfl) fun h => by cases h
  | .ok true => exact iff_of_true (atomic_commit l _) fun h => by cases h
  | .ok false =>
    dsimp only
    rcases createToken_cases D l with ⟨e, hcreate⟩ | ⟨created, hcreate⟩
    · rw [hcreate]
      refine iff_of_true (fun _ _ => rfl) ?_
      intro _ newTree h
      cases h
    · rw [hcreate]
      simp only [Except.ok.injEq, forall_eq', forall_const]
      rw [← receive_eq_ok (l := { l with tree := created })]
      unfold receiveToken.receive
      rw [atomic_commit_iff]
      simp only [commit_fst]

/-! ## A library that does not fail -/

section Complete

variable (hL : L.Faithful) (hD : D.Sound) (hC : D.Complete) {newTree : Dag L}

include hL hD

/-- The record that `createToken` has made. -/
theorem find_created (h : Creates D l newTree) :
    newTree.find (recordPath l.tokenName.string) = some (some Token.zero) := by
  obtain ⟨linked, hlink, hset⟩ := h
  have hrecord := Dag.find_setAsLink_self (p := ["_tupelo", "tokens"]) hL.objCid_injective
    (hD.setAsLink hlink)
  -- the balance that is written is the one that is there
  exact Dag.find_set_of_map hL.objCid_injective (hD.set hset) hrecord

/-- The record is linked. -/
theorem entry_created (h : Creates D l newTree) :
    ∃ c, newTree.entry newTree.store ["_tupelo", "tokens"] l.tokenName.string =
      some (some (.link c)) ∧ newTree.get c = some Token.zero := by
  have hfind := find_created hL hD h
  obtain ⟨linked, -, hset⟩ := h
  obtain ⟨x, y, -, hy, hentry⟩ := Dag.entry_set (p := ["_tupelo", "tokens"])
    hL.objCid_injective (hD.plain (isIndex_recordPath l.tokenName)) (hD.set hset)
  obtain ⟨inner, -, hy⟩ := Option.bind_eq_some_iff.mp hy
  obtain ⟨r, -, rfl⟩ := Option.map_eq_some_iff.mp hy
  have hentry := hentry newTree.store le_rfl
  exact ⟨_, hentry, Dag.get_of_entry_link hentry hfind⟩

include hC

/-- A token that has just been created can be received. -/
theorem receiveCalls_of_created (sendTokenTxId : String) (amount : UInt64)
    (h : Creates D l newTree) :
    Nonempty (ReceiveCalls D newTree (recordPath l.tokenName.string) sendTokenTxId amount) := by
  have hinj := hL.objCid_injective
  have hfind := find_created hL hD h
  obtain ⟨c, hentry, hc⟩ := entry_created hL hD h
  set receive : Obj Cid :=
    TokenReceive.toObj { sendTokenTransactionId := sendTokenTxId, amount }
  have hle := Dag.le_createNode hinj newTree receive
  have hmade := Dag.find_createNode (o := receive) hinj hfind
  obtain ⟨d₁, hd₁⟩ := Dag.exists_setAsLink_of_map hinj D.lift hmade tokenReceiveLabel
    (.list [.link (newTree.createNode receive).1])
  obtain ⟨d₂, hd₂⟩ := Dag.exists_set_of_map (Dag.find_setAsLink_of_map hinj hd₁ hmade)
    tokenBalanceLabel (.uint (0 + amount))
  have htoken : D.resolveInto decodeToken (newTree.createNode receive).2
      (["_tupelo", "tokens"] ++ [l.tokenName.string]) =
        .ok { monetaryPolicy := none, mints := none, sends := none, receives := none,
              balance := 0 } := by
    unfold DagLib.resolveInto
    rw [hC.resolveNode (Dag.entry_mono hle hentry) (hle _ _ hc), ok_bind]
    rfl
  exact ⟨{ value := .null, rest := [], cids := [], links := Or.inl ⟨rfl, rfl⟩
           resolve := hC.resolve_found (Dag.find_field hfind rfl rfl)
           get := fun c hc => absurd hc (List.not_mem_nil)
           newReceive := _, made := _, createNode := hC.createNode _ _
           linked := d₁, setAsLink := hC.setAsLink hd₁
           token := _, resolveInto := htoken, newTree := d₂, set := hC.set hd₂ }⟩

/-- **Without failures of the library all four operations are atomic.** -/
theorem atomic_of_complete :
    (∀ policy, Atomic l (l.establishToken D policy)) ∧
      ∀ sendTokenTxId amount, Atomic l (l.receiveToken D sendTokenTxId amount) := by
  constructor
  · intro policy
    refine atomic_establishToken_iff.mpr fun newTree hcreate _ => ?_
    obtain ⟨d', hd'⟩ := Dag.exists_setAsLink_of_map hL.objCid_injective D.lift
      (find_created hL hD hcreate) monetaryPolicyLabel policy.toObj
    exact ⟨d', hC.setAsLink hd'⟩
  · intro sendTokenTxId amount
    refine atomic_receiveToken_iff.mpr fun _ newTree hcreate _ => ?_
    exact receiveCalls_of_created hL hD hC sendTokenTxId amount hcreate

end Complete

/--
**When the operations are atomic.**

Minting and sending always are. Establishing is, unless the token has been created and the policy
then cannot be set; receiving is, unless the token did not exist, has been created, and one of the
calls that follow fails. None of that happens while the library does not fail.
-/
theorem atomic_iff (D : DagLib L) (l : TreeLedger L) :
    (∀ amount, Atomic l (l.mintToken D amount)) ∧
    (∀ txId destination amount, Atomic l (l.sendToken D txId destination amount)) ∧
    (∀ policy, Atomic l (l.establishToken D policy) ↔
      ∀ newTree, Creates D l newTree → newTree ≠ l.tree →
        ∃ d', D.setAsLink newTree (recordPath l.tokenName.string ++ [monetaryPolicyLabel])
          policy.toObj = .ok d') ∧
    (∀ sendTokenTxId amount, Atomic l (l.receiveToken D sendTokenTxId amount) ↔
      ((∃ rest, D.resolve l.tree (recordPath l.tokenName.string) = .ok (.null, rest)) →
        ∀ newTree, Creates D l newTree → newTree ≠ l.tree → Nonempty
          (ReceiveCalls D newTree (recordPath l.tokenName.string) sendTokenTxId amount))) ∧
    (L.Faithful → D.Sound → D.Complete → (∀ policy, Atomic l (l.establishToken D policy)) ∧
      ∀ sendTokenTxId amount, Atomic l (l.receiveToken D sendTokenTxId amount)) :=
  ⟨atomic_mintToken D l, atomic_sendToken D l, fun _ => atomic_establishToken_iff,
    fun _ _ => atomic_receiveToken_iff, atomic_of_complete⟩

namespace AtomicityExample

/-- The library over a store that fails when a link is to be set under the label. -/
noncomputable def failsAt (label : String) : DagLib Ipld.inFull :=
  { DagLib.std Ipld.inFull with
    setAsLink := fun d p v =>
      if p.getLast? = some label then .error (.error "error adding to the store")
      else (DagLib.std _).setAsLink d p v }

/-- The ledger of a token that a new tree does not have. -/
noncomputable def ledger : TreeLedger Ipld.inFull :=
  { tokenName := ⟨"did:tupelo:a", "coin"⟩, tree := emptyTree Ipld.inFull }

/-- The error an operation has returned. -/
def errorOf (r : Except Fault (Dag L) × TreeLedger L) : Option Fault :=
  match r.1 with
  | .ok _ => none
  | .error e => some e

/-- A failed operation that has made the token has changed the tree. -/
theorem not_atomic_of_exists {r : Except Fault (Dag L) × TreeLedger L} {e : Fault}
    (he : errorOf r = some e) (hname : r.2.tokenName = l.tokenName)
    (hbefore : l.tokenExists (DagLib.std L) = .ok false)
    (hafter : r.2.tokenExists (DagLib.std L) = .ok true) : ¬ Atomic l r := by
  intro hatomic
  have herror : r.1 = .error e := by
    unfold errorOf at he
    split at he
    · cases he
    · next e' hr => rw [hr, Option.some.inj he]
  have hsame : r.2 = l := by
    have htree := hatomic e herror
    cases hr : r.2
    rw [hr] at hname htree
    cases hname
    cases htree
    rfl
  rw [hsame, hbefore] at hafter
  cases hafter

/-- An operation that fails leaves the token it has created. -/
theorem leaves_token :
    ¬ Atomic ledger (ledger.establishToken (failsAt "monetaryPolicy") ⟨0⟩) ∧
    ¬ Atomic ledger (ledger.receiveToken (failsAt "receives") "1" 5) := by
  have hestablish : errorOf (ledger.establishToken (failsAt "monetaryPolicy") ⟨0⟩) =
      some (.error "error setting monetary policy: error adding to the store") := by
    decide +kernel
  have hreceive : errorOf (ledger.receiveToken (failsAt "receives") "1" 5) =
      some (.error "error setting: error adding to the store") := by decide +kernel
  have hbefore : ledger.tokenExists (DagLib.std _) = .ok false := by decide +kernel
  exact ⟨not_atomic_of_exists hestablish (by decide +kernel) hbefore (by decide +kernel),
    not_atomic_of_exists hreceive (by decide +kernel) hbefore (by decide +kernel)⟩

end AtomicityExample

end TreeLedger

end Tupelo

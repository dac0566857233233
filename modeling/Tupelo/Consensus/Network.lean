import Tupelo.Consensus.ChainTree
import Tupelo.Consensus.Supply

/-!
# Tokens between chain trees

Any number of chain trees take blocks, in any order. What a receive carries of its sender has the
tip of a state that some chain tree has really had: that is what a proof is for, and it is
assumed of the verifier. The network keeps these states, and it logs for every accepted receive
which send it was credited.

The duplicate test of a receive is about the id its payload claims, and nothing compares that id
to the one of the send that is credited. So the supply is kept where the two are the same and
the send is to the tree that receives it; a payload that claims another id is credited again.
-/

namespace Tupelo

open Infra MerkleDag

variable {L : Ipld}
variable {x : Option TokenRecord} {txn : Transaction} {tree : Dag L} {ranges : Ranges}
  {r : TokenRecord}

/-- A chain tree, with the tree the transactors change. -/
structure ChainTree (L : Ipld) where
  root : Dag L
  tree : Dag L
  tree_eq : treeOf root = some tree

def ChainTree.ofRoot (root : Dag L) : Option (ChainTree L) :=
  match h : treeOf root with
  | some tree => some { root, tree, tree_eq := h }
  | none => none

theorem ChainTree.ofRoot_eq_some {root : Dag L} {ct : ChainTree L}
    (h : ChainTree.ofRoot root = some ct) : ct.root = root ∧ treeOf root = some ct.tree := by
  unfold ofRoot at h
  split at h
  · next tree htree =>
    rw [← Option.some.inj h]
    exact ⟨rfl, htree⟩
  · cases h

/-- What the network runs with: a library that does what it documents, and distinct trees. -/
structure Setting (L : Ipld) where
  lib : DagLib L
  proofVerifier : Proof → Except Fault Bool
  dids : List String
  faithful : L.Faithful
  sound : lib.Sound
  dids_nodup : dids.Nodup

/-- The chain trees, the states they have had and the receives that were accepted. -/
structure Network (L : Ipld) where
  chainTree : String → ChainTree L
  notarized : List (String × ChainTree L)
  credits : List Credit

section Model

variable (D : DagLib L)

/-- What a receive is found to be about. -/
def receivedSend (ranges : Ranges) (txn : Transaction) :
    Except Fault (ReceiveTokenPayload × TokenName × TokenSend) := do
  let payload ← txn.readPayload 999 .receiveToken txn.receiveTokenPayload
  let senderDag ← getSenderDagFromReceive D payload
  let (tokenName, tokenSend) ← selectSend D ranges senderDag
  return (payload, tokenName, tokenSend)

/-- The credit of an accepted transaction. -/
def creditsOf (ranges : Ranges) (did : String) (txn : Transaction) : List Credit :=
  match receivedSend D ranges txn with
  | .ok (_, tokenName, send) => [{ receiver := did, token := tokenName.string, send }]
  | .error _ => []

/-- The credits of a block, from the transaction at position `i`. -/
def blockCredits (ranges : Nat → Ranges) (did : String) : Nat → List Transaction → List Credit
  | _, [] => []
  | i, txn :: txns => creditsOf D (ranges i) did txn ++ blockCredits ranges did (i + 1) txns

/-- A test of every transaction of a block, on the tree it is run on. -/
def allTransactions (ok : Ranges → Dag L → Transaction → Bool) (ranges : Nat → Ranges)
    (did : String) : Nat → Dag L → List Transaction → Bool
  | _, _, [] => true
  | i, tree, txn :: txns => ok (ranges i) tree txn &&
    match tokenTransactor D (ranges i) did tree txn with
    | .ok newTree => allTransactions ok ranges did (i + 1) newTree txns
    | .error _ => true

/-- The balance of the token takes the amount without wrapping around. -/
def fits (tree : Dag L) (name : String) (amount : UInt64) : Bool :=
  match tokenRecord tree name with
  | some (some r) => r.balance.toNat + amount.toNat < 2 ^ 64
  | _ => true

/-- No addition to a balance wraps around. -/
def noOverflow (did : String) (ranges : Ranges) (tree : Dag L) (txn : Transaction) : Bool :=
  match txn.type with
  | .mintToken =>
    match transactionToken D ranges did tree txn, txn.mintTokenPayload with
    | .ok tokenName, some payload => fits tree tokenName.string payload.amount
    | _, _ => true
  | .receiveToken =>
    match receivedSend D ranges txn with
    | .ok (_, tokenName, send) => fits tree tokenName.string send.amount
    | .error _ => true
  | _ => true

/-- A receive claims the id of the send it is credited, and the send is to this tree. -/
def claimsItsSend (did : String) (ranges : Ranges) (txn : Transaction) : Bool :=
  match receivedSend D ranges txn with
  | .ok (payload, _, send) =>
    payload.sendTokenTransactionId = send.id && send.destination = did
  | .error _ => true

end Model

namespace Network

/-- Every proof of the block that verifies is for the tip of a state some chain tree has had. -/
def genuine (S : Setting L) (N : Network L) (block : Block) : Bool :=
  block.transactions.all fun txn =>
    match txn.receiveTokenPayload with
    | none => true
    | some rt =>
      match rt.proof with
      | none => true
      | some p =>
        match S.proofVerifier p with
        | .ok true => N.notarized.any fun e => e.2.root.tip.bytes = p.tip
        | _ => true

def act (S : Setting L) (N : Network L) (a : String × Block) : Option (Network L) :=
  if a.1 ∈ S.dids ∧ genuine S N a.2 = true then
    match processBlock S.lib S.proofVerifier a.1 (N.chainTree a.1).root a.2 with
    | .ok (some root) => (ChainTree.ofRoot root).map fun ct =>
      { chainTree := Function.update N.chainTree a.1 ct
        notarized := N.notarized ++ [(a.1, ct)]
        credits := N.credits ++
          blockCredits S.lib a.2.transactorRanges a.1 0 a.2.transactions }
    | _ => none
  else none

theorem treeOf_newEmptyTree (hL : L.Faithful) (did : String) :
    treeOf (newEmptyTree L did) =
      some { tip := L.objCid (.map []), store := (newEmptyTree L did).store } := by
  have hinj := hL.objCid_injective
  have hroot : (newEmptyTree L did).get (newEmptyTree L did).tip =
      some (.map [("id", .str did), ("tree", .link (L.objCid (.map []))),
        ("chain", .link (L.objCid (.map [])))]) :=
    Store.le_add hinj _ _ _ _ (Store.le_add hinj _ _ _ _
      (Store.nodes_add_self _ _))
  unfold treeOf
  rw [hroot]
  rfl

/-- The network before any block. -/
def start (S : Setting L) : Network L :=
  let new (did : String) : ChainTree L :=
    { root := newEmptyTree L did, tree := _, tree_eq := treeOf_newEmptyTree S.faithful did }
  { chainTree := new, notarized := S.dids.map fun did => (did, new did), credits := [] }

def system (S : Setting L) : System (Network L) (String × Block) where
  start := start S
  act := act S

/-- The trees the transactors change. -/
def trees (N : Network L) (did : String) : Dag L := (N.chainTree did).tree

/-- A condition on blocks that is one on each of their transactions. -/
def onTransactions (S : Setting L) (ok : String → Ranges → Dag L → Transaction → Bool)
    (N : Network L) (a : String × Block) : Bool :=
  allTransactions S.lib (ok a.1) a.2.transactorRanges a.1 0 (N.trees a.1) a.2.transactions

end Network

/-! ## The records of the trees -/

/-- The records of the tokens of some trees. -/
def recordsOf (trees : String → Dag L) : Records :=
  fun did token => (tokenRecord (trees did) token).getD none

section Records

variable {trees : String → Dag L} {did token : String}

theorem recordAt_recordsOf (h : tokenRecord (trees did) token = some x) :
    (recordsOf trees).recordAt did token = x.getD (TokenRecord.new none) := by
  unfold Records.recordAt recordsOf
  rw [h]
  rfl

/-- A change of one tree changes one record. -/
theorem recordsOf_update (hread : Readable (trees did)) (h : Changes (trees did) tree token x r) :
    recordsOf (Function.update trees did tree) = (recordsOf trees).set did token r := by
  funext did' token'
  by_cases hdid : did' = did
  · subst hdid
    by_cases htoken : token' = token
    · subst htoken
      rw [Records.set_self, recordsOf, Function.update_self, h.after]
      rfl
    · obtain ⟨y, hy⟩ := hread token'
      rw [Records.set_of_ne _ _ (fun hboth => htoken hboth.2)]
      unfold recordsOf
      rw [Function.update_self, h.others.records token' y htoken hy, hy]
  · rw [Records.set_of_ne _ _ (fun hboth => hdid hboth.1)]
    unfold recordsOf
    rw [Function.update_of_ne hdid]

end Records

/-! ## What a transaction does -/

/-- The supply invariant, and the states a tree has had show no send it does not have now. -/
structure NetworkInv (S : Setting L) (notarized : List (String × ChainTree L))
    (trees : String → Dag L) (credits : List Credit) : Prop where
  readable : ∀ did, Readable (trees did)
  supply : SupplyInv S.dids (recordsOf trees) credits
  known : ∀ e ∈ notarized, e.1 ∈ S.dids ∧ Readable e.2.tree ∧
    ∀ token r, tokenRecord e.2.tree token = some (some r) →
      r.sends ⊆ ((recordsOf trees).recordAt e.1 token).sends

section Step

variable {S : Setting L} {notarized : List (String × ChainTree L)} {trees : String → Dag L}
  {credits : List Credit} {did : String}

/-- A change of one tree that keeps the sends and the supply invariant. -/
theorem NetworkInv.of_changes (h : NetworkInv S notarized trees credits) {token : String}
    (hchange : Changes (trees did) tree token x r)
    (hsends : ((recordsOf trees).recordAt did token).sends ⊆ r.sends) {credits' : List Credit}
    (hsupply : SupplyInv S.dids ((recordsOf trees).set did token r) credits') :
    NetworkInv S notarized (Function.update trees did tree) credits' where
  readable := by
    intro did'
    by_cases hdid : did' = did
    · subst hdid
      rw [Function.update_self]
      exact hchange.readable (h.readable did')
    · rw [Function.update_of_ne hdid]
      exact h.readable did'
  supply := by
    rw [recordsOf_update (h.readable did) hchange]
    exact hsupply
  known := by
    intro e he
    obtain ⟨hdid, hread, hknown⟩ := h.known e he
    refine ⟨hdid, hread, ?_⟩
    intro token' r' hr'
    have hsub := hknown token' r' hr'
    rw [recordsOf_update (h.readable did) hchange, recordAt_set]
    split
    · next heq =>
      rw [heq.1, heq.2] at hsub
      exact List.Subset.trans hsub hsends
    · exact hsub

theorem receivedSend_eq {D : DagLib L} {payload : ReceiveTokenPayload} {senderDag : Dag L}
    {tokenName : TokenName} {s : TokenSend} (htype : txn.type = .receiveToken)
    (hpayload : txn.receiveTokenPayload = some payload)
    (hdag : getSenderDagFromReceive D payload = .ok senderDag)
    (hselect : selectSend D ranges senderDag = .ok (tokenName, s)) :
    receivedSend D ranges txn = .ok (payload, tokenName, s) := by
  unfold receivedSend
  simp only [Transaction.readPayload_of_type htype, hpayload, deref, ok_bind, hdag, hselect]
  rfl

theorem creditsOf_of_ne {D : DagLib L} (h : txn.type ≠ .receiveToken) :
    creditsOf D ranges did txn = [] := by
  unfold creditsOf receivedSend Transaction.readPayload Transaction.ensure
  rw [if_neg h]
  rfl

/-- A receive whose tip is that of a state a tree has had is about a send of that tree. -/
theorem NetworkInv.sent_of_receive (h : NetworkInv S notarized trees credits) {senderDag : Dag L}
    {tokenName : TokenName} {s : TokenSend}
    (hselect : selectSend S.lib ranges senderDag = .ok (tokenName, s)) {e : String × ChainTree L}
    (he : e ∈ notarized) (htip : senderDag.tip = e.2.root.tip) :
    ∃ sender ∈ S.dids, s ∈ ((recordsOf trees).recordAt sender tokenName.string).sends := by
  obtain ⟨hdid, hread, hknown⟩ := h.known e he
  obtain ⟨x, hx⟩ := hread tokenName.string
  obtain ⟨r, rfl, hmem⟩ :=
    mem_sends_of_selectSend S.faithful S.sound hselect htip e.2.tree_eq hx
  exact ⟨e.1, hdid, hknown _ r hx hmem⟩

/-- The balance that the test was made of. -/
theorem fits_spec {name : String} {amount : UInt64} (hx : tokenRecord tree name = some x)
    (h : fits tree name amount = true) :
    (x.getD (TokenRecord.new none)).balance.toNat + amount.toNat < 2 ^ 64 := by
  unfold fits at h
  rw [hx] at h
  cases x with
  | none =>
    have hlt := amount.toNat_lt
    have hzero : (TokenRecord.new none).balance.toNat = 0 := rfl
    simp only [Option.getD_none, hzero]
    omega
  | some r => simpa using h

/-- A transaction that credits nothing: it takes no send back, and keeps the balance exact. -/
theorem NetworkInv.uncredited (h : NetworkInv S notarized trees credits) {token : String}
    (hchange : Changes (trees did) tree token x r)
    (hreceives : r.receives = (x.getD (TokenRecord.new none)).receives)
    (hsends : (x.getD (TokenRecord.new none)).sends ⊆ r.sends)
    (hexact : (x.getD (TokenRecord.new none)).Exact → r.Exact) :
    NetworkInv S notarized (Function.update trees did tree) credits := by
  have hold := h.supply.balances did token
  rw [← recordAt_recordsOf hchange.before] at hreceives hsends hexact
  exact h.of_changes hchange hsends (h.supply.step hreceives hsends (hexact hold))

/-- A receive of a send of a state some tree has had, under the id of the send. -/
theorem NetworkInv.receive (h : NetworkInv S notarized trees credits)
    (htype : txn.type = .receiveToken)
    (htxn : receiveTokenTransaction S.lib ranges did (trees did) txn = .ok tree)
    (hfits : noOverflow S.lib did ranges (trees did) txn = true)
    (hclaims : claimsItsSend S.lib did ranges txn = true)
    (hgenuine : ∀ rt, txn.receiveTokenPayload = some rt →
      ∃ e ∈ notarized, e.2.root.tip.bytes = rt.tip) :
    NetworkInv S notarized (Function.update trees did tree)
      (credits ++ creditsOf S.lib ranges did txn) := by
  obtain ⟨payload, senderDag, tokenName, s, x, hpayload, hdag, htip, hselect, hids, hchange⟩ :=
    receiveTokenTransaction_spec S.faithful S.sound (h.readable did) htxn
  have hfound := receivedSend_eq htype hpayload hdag hselect
  have hcredits : creditsOf S.lib ranges did txn =
      [{ receiver := did, token := tokenName.string, send := s }] := by
    unfold creditsOf
    rw [hfound]
  obtain ⟨hid, hdest⟩ : payload.sendTokenTransactionId = s.id ∧ s.destination = did := by
    simpa [claimsItsSend, hfound] using hclaims
  have hbalance : (x.getD (TokenRecord.new none)).balance.toNat + s.amount.toNat < 2 ^ 64 :=
    fits_spec hchange.before (by simpa [noOverflow, htype, hfound] using hfits)
  -- the leaves are nodes of the state that was notarized
  obtain ⟨e, he, hetip⟩ := hgenuine payload hpayload
  have htips : senderDag.tip = e.2.root.tip := Cid.ext ((Ipld.cast_ok htip).trans hetip.symm)
  have hat := recordAt_recordsOf hchange.before
  rw [hcredits]
  rw [hid] at hids hchange
  refine h.of_changes hchange (by rw [hat]; exact List.Subset.refl _) ?_
  rw [← hat] at hids hbalance ⊢
  exact h.supply.credit hdest hids (h.sent_of_receive hselect he htips) hbalance

/-- **The step lemma**: a transaction that meets the conditions keeps the invariant. -/
theorem NetworkInv.transaction (h : NetworkInv S notarized trees credits)
    (htxn : tokenTransactor S.lib ranges did (trees did) txn = .ok tree)
    (hfits : noOverflow S.lib did ranges (trees did) txn = true)
    (hclaims : claimsItsSend S.lib did ranges txn = true)
    (hgenuine : ∀ rt, txn.type = .receiveToken → txn.receiveTokenPayload = some rt →
      ∃ e ∈ notarized, e.2.root.tip.bytes = rt.tip) :
    NetworkInv S notarized (Function.update trees did tree)
      (credits ++ creditsOf S.lib ranges did txn) := by
  have hread := h.readable did
  unfold tokenTransactor at htxn
  split at htxn
  · next htype =>
    obtain ⟨payload, tokenName, -, -, hchange⟩ :=
      establishTokenTransaction_spec S.faithful S.sound hread htxn
    rw [creditsOf_of_ne (by rw [htype]; decide), List.append_nil]
    exact h.uncredited hchange rfl (List.Subset.refl _) fun _ => TokenRecord.exact_new _
  · next htype =>
    obtain ⟨payload, tokenName, r, hpayload, hname, -, -, hchange⟩ :=
      mintTokenTransaction_spec S.faithful S.sound hread htxn
    rw [creditsOf_of_ne (by rw [htype]; decide), List.append_nil]
    have hbalance : r.balance.toNat + payload.amount.toNat < 2 ^ 64 := by
      have htoken := transactionToken_mintToken htype hpayload hname
      refine fits_spec (x := some r) hchange.before ?_
      simpa [noOverflow, htype, htoken, hpayload] using hfits
    exact h.uncredited hchange rfl (List.Subset.refl _) fun hexact => hexact.mint hbalance
  · next htype =>
    obtain ⟨payload, tokenName, r, -, -, -, hle, hchange⟩ :=
      sendTokenTransaction_spec S.faithful S.sound hread htxn
    rw [creditsOf_of_ne (by rw [htype]; decide), List.append_nil]
    exact h.uncredited hchange rfl (List.subset_append_left _ _) fun hexact => hexact.send hle
  · next htype => exact h.receive htype htxn hfits hclaims fun rt => hgenuine rt htype
  · cases htxn

/-- What the supply needs of a transaction. -/
def keepsSupply (D : DagLib L) (did : String) (ranges : Ranges) (tree : Dag L)
    (txn : Transaction) : Bool :=
  noOverflow D did ranges tree txn && claimsItsSend D did ranges txn

/-- The run lemma of a block, by induction on its transactions. -/
theorem NetworkInv.transactions {ranges : Nat → Ranges} {txns : List Transaction}
    (hgenuine : ∀ txn ∈ txns, ∀ rt, txn.type = .receiveToken →
      txn.receiveTokenPayload = some rt → ∃ e ∈ notarized, e.2.root.tip.bytes = rt.tip) :
    ∀ {i : Nat} {trees : String → Dag L} {credits : List Credit} {tree : Dag L},
      NetworkInv S notarized trees credits →
      runTransactions S.lib ranges did i (trees did) txns = .ok tree →
      allTransactions S.lib (keepsSupply S.lib did) ranges did i (trees did) txns = true →
      (trees did).store ≤ tree.store ∧
        NetworkInv S notarized (Function.update trees did tree)
          (credits ++ blockCredits S.lib ranges did i txns) := by
  induction txns with
  | nil =>
    intro i trees credits tree h hrun _
    rw [← Except.ok.inj hrun, Function.update_eq_self, blockCredits, List.append_nil]
    exact ⟨le_refl _, h⟩
  | cons txn txns ih =>
    intro i trees credits tree h hrun hok
    obtain ⟨newTree, hnewTree, hrun⟩ := bind_eq_ok.mp hrun
    rw [allTransactions, hnewTree] at hok
    obtain ⟨hkeeps, hok⟩ := Bool.and_eq_true_iff.mp hok
    obtain ⟨hfits, hclaims⟩ := Bool.and_eq_true_iff.mp hkeeps
    obtain ⟨tokenName, x, r, -, -, hchange⟩ :=
      tokenTransactor_spec S.faithful S.sound (h.readable did) hnewTree
    have hstep := h.transaction hnewTree hfits hclaims (hgenuine txn List.mem_cons_self)
    have hself : Function.update trees did newTree did = newTree := Function.update_self ..
    obtain ⟨hle, hrest⟩ := ih (fun t ht => hgenuine t (List.mem_cons_of_mem _ ht)) hstep
      (by rw [hself]; exact hrun) (by rw [hself]; exact hok)
    rw [hself] at hle
    rw [Function.update_idem, List.append_assoc] at hrest
    exact ⟨hchange.others.store_le.trans hle, hrest⟩

/-- Trees with the same records. -/
theorem NetworkInv.of_same (h : NetworkInv S notarized trees credits) {trees' : String → Dag L}
    (hsame : ∀ did token y, tokenRecord (trees did) token = some y →
      tokenRecord (trees' did) token = some y) : NetworkInv S notarized trees' credits := by
  have hrecords : recordsOf trees' = recordsOf trees := by
    funext did token
    obtain ⟨y, hy⟩ := h.readable did token
    unfold recordsOf
    rw [hy, hsame did token y hy]
  refine ⟨?_, hrecords ▸ h.supply, hrecords ▸ h.known⟩
  intro did token
  obtain ⟨y, hy⟩ := h.readable did token
  exact ⟨y, hsame did token y hy⟩

/-- A state a tree is in now shows the sends it has now. -/
theorem NetworkInv.notarize (h : NetworkInv S notarized trees credits) (hdid : did ∈ S.dids)
    {ct : ChainTree L} (hct : trees did = ct.tree) :
    NetworkInv S (notarized ++ [(did, ct)]) trees credits where
  readable := h.readable
  supply := h.supply
  known := by
    refine forall_mem_concat h.known ?_
    have hread := h.readable did
    rw [hct] at hread
    refine ⟨hdid, hread, ?_⟩
    intro token r hr
    rw [← hct] at hr
    rw [recordAt_recordsOf hr]
    exact List.Subset.refl _

end Step

namespace Network

variable {S : Setting L}

/-- The tip of a receive that passed the validators is that of a state some tree has had. -/
theorem notarized_of_genuine {N : Network L} {block : Block} (hgenuine : genuine S N block = true)
    (hproofs : hasValidProof L S.proofVerifier (block.transactions.map some) = .ok true)
    (htxn : txn ∈ block.transactions) {rt : ReceiveTokenPayload} (htype : txn.type = .receiveToken)
    (hrt : txn.receiveTokenPayload = some rt) : ∃ e ∈ N.notarized, e.2.root.tip.bytes = rt.tip := by
  obtain ⟨p, hp, hverified, htip⟩ := hasValidProof_ok hproofs htxn htype hrt
  have htest := List.all_eq_true.mp hgenuine txn htxn
  simp only [hrt, hp, hverified] at htest
  obtain ⟨e, he, hbytes⟩ := List.any_eq_true.mp htest
  refine ⟨e, he, ?_⟩
  rw [← htip]
  simpa using hbytes

theorem act_eq_some {N N' : Network L} {a : String × Block} (h : act S N a = some N') :
    ∃ root ct, a.1 ∈ S.dids ∧ genuine S N a.2 = true ∧
      processBlock S.lib S.proofVerifier a.1 (N.chainTree a.1).root a.2 = .ok (some root) ∧
      ChainTree.ofRoot root = some ct ∧
      N' = { chainTree := Function.update N.chainTree a.1 ct
             notarized := N.notarized ++ [(a.1, ct)]
             credits := N.credits ++
               blockCredits S.lib a.2.transactorRanges a.1 0 a.2.transactions } := by
  unfold act at h
  split at h
  · next hguard =>
    split at h
    · next root hroot =>
      obtain ⟨ct, hct, rfl⟩ := Option.map_eq_some_iff.mp h
      exact ⟨root, ct, hguard.1, hguard.2, hroot, hct, rfl⟩
    · cases h
  · cases h

theorem trees_update (N : Network L) (did : String) (ct : ChainTree L)
    (notarized : List (String × ChainTree L)) (credits : List Credit) :
    trees { chainTree := Function.update N.chainTree did ct, notarized, credits } =
      Function.update N.trees did ct.tree := by
  funext did'
  show (Function.update N.chainTree did ct did').tree = Function.update N.trees did ct.tree did'
  by_cases hdid : did' = did
  · subst hdid
    rw [Function.update_self, Function.update_self]
  · rw [Function.update_of_ne hdid, Function.update_of_ne hdid]
    rfl

/-- **A block keeps the invariant** if each of its transactions meets the conditions. -/
theorem inv_act {N N' : Network L} {a : String × Block}
    (h : NetworkInv S N.notarized N.trees N.credits)
    (hok : onTransactions S (keepsSupply S.lib) N a = true) (hact : act S N a = some N') :
    NetworkInv S N'.notarized N'.trees N'.credits := by
  obtain ⟨root, ct, hdid, hgenuine, hblock, hct, rfl⟩ := act_eq_some hact
  obtain ⟨tree, newTree, hproofs, htree, hrun, hset⟩ := processBlock_ok hblock
  have htree' : tree = N.trees a.1 :=
    Option.some.inj (htree.symm.trans (N.chainTree a.1).tree_eq)
  rw [htree'] at hrun
  obtain ⟨hle, hinv⟩ := NetworkInv.transactions
    (fun txn htxn rt htype hrt => notarized_of_genuine hgenuine hproofs htxn htype hrt) h hrun hok
  -- the tree of the new chain tree has the records of the tree the transactors made
  obtain ⟨fields, c, -, -, hstore⟩ := treeOf_eq_some (N.chainTree a.1).tree_eq
  have hroot : (N.chainTree a.1).root.store ≤ newTree.store := by
    have hsame : (N.trees a.1).store = (N.chainTree a.1).root.store := by
      unfold trees
      rw [hstore]
    rw [← hsame]
    exact hle
  obtain ⟨hnew, hgrow⟩ := treeOf_set S.faithful S.sound (N.chainTree a.1).tree_eq hroot hset
  have hcttree : ct.tree = { tip := newTree.tip, store := root.store } :=
    Option.some.inj ((ChainTree.ofRoot_eq_some hct).2.symm.trans hnew)
  show NetworkInv S (N.notarized ++ [(a.1, ct)]) _ _
  rw [trees_update]
  refine NetworkInv.notarize ?_ hdid (Function.update_self ..)
  refine hinv.of_same ?_
  intro did token y hy
  by_cases heq : did = a.1
  · subst heq
    rw [Function.update_self] at hy ⊢
    have htip : ct.tree.tip = newTree.tip := by rw [hcttree]
    have hstore : newTree.store ≤ ct.tree.store := by
      rw [hcttree]
      exact hgrow
    exact tokenRecord_mono htip hstore hy
  · rw [Function.update_of_ne heq] at hy ⊢
    exact hy

theorem noTokens_start (S : Setting L) (did : String) : NoTokens ((start S).trees did) := by
  have hinj := S.faithful.objCid_injective
  intro token
  refine tokenRecord_eq_some_none.mpr (Option.bind_eq_some_iff.mpr ⟨.map [], ?_, rfl⟩)
  exact Store.nodes_add_self _ _

theorem inv_start (S : Setting L) :
    NetworkInv S (start S).notarized (start S).trees (start S).credits where
  readable := fun did token => ⟨none, noTokens_start S did token⟩
  supply := by
    have hrecords : ∀ did token, (recordsOf (start S).trees).recordAt did token =
        TokenRecord.new none :=
      fun did token => recordAt_recordsOf (noTokens_start S did token)
    refine ⟨?_, ?_, ?_, List.nodup_nil, ?_⟩
    · intro did token
      rw [hrecords]
      rfl
    · intro c hc
      cases hc
    · intro c hc
      cases hc
    · intro did token
      rw [hrecords]
      exact TokenRecord.exact_new none
  known := by
    intro e he
    obtain ⟨did, hdid, rfl⟩ := List.mem_map.mp he
    refine ⟨hdid, fun token => ⟨none, noTokens_start S did token⟩, ?_⟩
    intro token r hr
    cases (noTokens_start S did token).symm.trans hr

/-- What a tree has of a token, and what it has minted of it. -/
def balanceOf (N : Network L) (token did : String) : Nat :=
  ((recordsOf N.trees).recordAt did token).balance.toNat

def mintedOf (N : Network L) (token did : String) : Nat :=
  ((recordsOf N.trees).recordAt did token).exactMinted

/--
**No send is credited twice, and no token is more than was minted.**

In every run of blocks whose transactions add to no balance beyond 2^64 and whose receives claim
the id of the send they are credited, a send to the receiving tree: no send of a token is
credited twice, and the balances of each token over all chain trees add up to at most its mints.
-/
theorem supply_conserved {N : Network L}
    (h : (system S).Reach (onTransactions S (keepsSupply S.lib)) N) :
    (N.credits.map fun c => (c.token, c.send)).Nodup ∧
    ∀ token, (S.dids.map (N.balanceOf token)).sum ≤ (S.dids.map (N.mintedOf token)).sum := by
  have hinv : NetworkInv S N.notarized N.trees N.credits :=
    h.invariant (P := fun N => NetworkInv S N.notarized N.trees N.credits) (inv_start S)
      fun _ _ _ hs hok hact => inv_act hs hok hact
  exact ⟨hinv.supply.once, fun token => hinv.supply.balance_le_minted S.dids_nodup token⟩

end Network

/-!
## Two runs

The chain tree `a` establishes a coin, mints 20 of it and sends them to `b`. Then `b` receives
them, from the nodes of the state `a` is in after its block.
-/

namespace NetworkExample

noncomputable def setting : Setting Ipld.inFull where
  lib := DagLib.std Ipld.inFull
  proofVerifier := fun _ => .ok true
  dids := ["did:tupelo:a", "did:tupelo:b"]
  faithful := Ipld.inFull_faithful
  sound := DagLib.std_sound _
  dids_nodup := by decide

def block (txns : List Transaction) : Block :=
  { transactions := txns
    validatorRanges := fun _ => Ranges.plain
    transactorRanges := fun _ => Ranges.plain }

def sending : String × Block :=
  ("did:tupelo:a", block [LedgerExample.establish "coin" 0, LedgerExample.mint "coin" 20,
    LedgerExample.send "1" "coin" 20 "did:tupelo:b"])

open DagExample

def sendNode : Obj Cid :=
  TokenSend.toObj { id := "1", amount := 20, destination := "did:tupelo:b" }

noncomputable def sendsNode : Obj Cid := .list [link sendNode]

noncomputable def tokenNode : Obj Cid :=
  .map [("mints", link (.list [link (TokenMint.toObj ⟨20⟩)])), ("sends", link sendsNode),
    ("balance", .uint 0), ("receives", .null),
    ("monetaryPolicy", link (TokenMonetaryPolicy.toObj ⟨0⟩))]

noncomputable def tokensNode : Obj Cid := .map [("did:tupelo:a:coin", link tokenNode)]

noncomputable def tupeloNode : Obj Cid := .map [("tokens", link tokensNode)]

noncomputable def treeNode : Obj Cid := .map [("_tupelo", link tupeloNode)]

noncomputable def rootNode : Obj Cid :=
  .map [("id", .str "did:tupelo:a"), ("tree", link treeNode), ("chain", link (.map []))]

noncomputable def tip : Bytes := (Ipld.inFull.objCid rootNode).bytes

/-- A receive of the send, under an id of the receiver's choice. -/
noncomputable def receiving (id : String) : String × Block :=
  ("did:tupelo:b", block [
    { type := .receiveToken
      receiveTokenPayload := some
        { sendTokenTransactionId := id
          tip
          proof := some { objectId := [], tip, addBlockRequest := none, checkpoint := none,
                          round := none, roundConfirmation := none }
          leaves := [rootNode, treeNode, tupeloNode, tokensNode, tokenNode, sendsNode,
            sendNode].map some } }])

/-- The balances and the mints of the coin, over both trees. -/
noncomputable def totals (N : Network Ipld.inFull) : Nat × Nat :=
  ((setting.dids.map (N.balanceOf "did:tupelo:a:coin")).sum,
    (setting.dids.map (N.mintedOf "did:tupelo:a:coin")).sum)

/-- Sent and received once: the send is credited once, and the 20 minted are what there is. -/
theorem supply_conserved_example : ∃ N,
    (Network.system setting).Reach
      (Network.onTransactions setting (keepsSupply setting.lib)) N ∧
    totals N = (20, 20) ∧ (N.credits.map fun c => (c.token, c.send)).Nodup ∧
    (setting.dids.map (N.balanceOf "did:tupelo:a:coin")).sum ≤
      (setting.dids.map (N.mintedOf "did:tupelo:a:coin")).sum := by
  have hrun : ((Network.system setting).run
      (Network.onTransactions setting (keepsSupply setting.lib)) [sending, receiving "1"]).map
        totals = some (20, 20) := by
    decide +kernel
  obtain ⟨N, hN, htotals⟩ := Option.map_eq_some_iff.mp hrun
  have hreach := System.reach_of_run hN
  have h := Network.supply_conserved hreach
  exact ⟨N, hreach, htotals, h.1, h.2 _⟩

/--
**One send, credited twice.** The id a receive claims is only compared with the ids of earlier
receives, never with that of the send: received again under another id, the send of 20 is
credited again, and of the 20 minted there are 40.
-/
theorem credited_twice : ∃ N,
    (Network.system setting).Reach
      (Network.onTransactions setting (noOverflow setting.lib)) N ∧
    ¬ (N.credits.map fun c => (c.token, c.send)).Nodup ∧
    (setting.dids.map (N.mintedOf "did:tupelo:a:coin")).sum <
      (setting.dids.map (N.balanceOf "did:tupelo:a:coin")).sum := by
  have hrun : ((Network.system setting).run
      (Network.onTransactions setting (noOverflow setting.lib))
      [sending, receiving "1", receiving "2"]).map
        (fun N => (totals N, decide (N.credits.map fun c => (c.token, c.send)).Nodup)) =
      some ((40, 20), false) := by
    decide +kernel
  obtain ⟨N, hN, hvalues⟩ := Option.map_eq_some_iff.mp hrun
  obtain ⟨htotals, htwice⟩ := Prod.mk.inj hvalues
  obtain ⟨hbalances, hmints⟩ := Prod.mk.inj htotals
  refine ⟨N, System.reach_of_run hN, of_decide_eq_false htwice, ?_⟩
  rw [hbalances, hmints]
  decide

end NetworkExample

end Tupelo

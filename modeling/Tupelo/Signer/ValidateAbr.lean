import Tupelo.Client.AddBlock
import Tupelo.Consensus.Interference

/-!
# Validating a request

The model of `ValidateAbr` (`signer/gossip/txvalidator.go`): a signer builds a store from the nodes
in the request and nothing else, processes the block on the tree it finds there and compares tips.

A client sends the nodes it has touched only if the block is not the first one of the tree. For
the first block the signer starts from an empty tree, and has no other node that the client has
read (`signer_recomputes_iff`).
-/

namespace Tupelo

open Infra MerkleDag

variable {L : Ipld} {α σ τ : Type}
variable {tree' : Dag L}

/-- `nodestore.MustMemoryStore`. -/
def memoryStore (L : Ipld) : StoreOps (Store L.objCid) Cid (Obj Cid) where
  get S c := (S.nodes c, S)
  add S o := S.add o

theorem lawful_memoryStore : (memoryStore L).Lawful L.objCid Store.nodes where
  get _ _ := rfl
  view_get _ _ := rfl
  view_add _ _ := rfl

theorem addressed_nodes (S : Store L.objCid) : Addressed L.objCid S.nodes :=
  fun _ _ h => S.addressed h

/-! ## The signer -/

/-- `NewEmptyTree`, in a store that may have other nodes. -/
def newEmptyTreeIn (L : Ipld) (did : String) (nodeStore : Store L.objCid) : Dag L :=
  let treeNode : Obj Cid := .map []
  let chainNode : Obj Cid := .map []
  let root : Obj Cid := .map [("id", .str did), ("tree", .link (L.objCid treeNode)),
    ("chain", .link (L.objCid chainNode))]
  { tip := L.objCid root, store := [root, treeNode, chainNode].foldl Store.add nodeStore }

theorem newEmptyTreeIn_empty (did : String) :
    newEmptyTreeIn L did Store.empty = newEmptyTree L did := rfl

section Validate

variable (L) (W : Wire α)

/-- The block of a request, and the tree it is processed on. -/
def requestedTree (abr : AddBlockRequest) : Except Fault (BlockWithHeaders α × Dag L) := do
  let transPreviousTip ← wrapErr "error casting CID: " (L.cast abr.previousTip)
  let block ← wrapErr "invalid transaction: payload is not a block: " (W.decodeBlock abr.payload)
  let cborNodes ← wrapErr ("error decoding (nodes: " ++ toString abr.state.length ++ "): ")
    (abr.state.mapM W.decode)
  let nodeStore := cborNodes.foldl Store.add Store.empty
  return (block, if abr.height > 0 then { tip := transPreviousTip, store := nodeStore }
    else newEmptyTreeIn L (W.string abr.objectId) nodeStore)

/-- The checks of the root. -/
def checkRoot (abr : AddBlockRequest) (tree : Dag L) : Except Fault Bool :=
  match tree.store.nodes tree.tip with
  | none => .error (.error ("error creating chaintree (tip: " ++ L.cidString tree.tip ++
      ", nodes: " ++ toString abr.state.length ++ "): error getting root"))
  | some node => do
    let root ← wrapErr "error decoding root: " (RootNode.decode node)
    return decide (root.id = W.string abr.objectId) &&
      !(decide (root.height = 0 ∧ abr.height > 1) ||
        decide (root.height > 0 ∧ abr.height ≠ root.height + 1))

variable {L} (lib : ChainTreeLib L α σ)

/-- The tip and the new nodes, if the block is valid and the request has no other tip. -/
def acceptedTip (ord : MapOrder) (abr : AddBlockRequest)
    (tracker : StoreWrapper (Store L.objCid) Cid) (processed : Processed L) :
    Except Fault (Option (Cid × List (Obj Cid))) :=
  match processed.err with
  | some err => .error (.error err)
  | none =>
    if !processed.valid then .ok none
    else do
      -- allow sending in an ABR without a new tip
      let newTip ← if abr.newTip.length > 0 then
          wrapErr "error casting abr new tip: " (L.cast abr.newTip)
        else .ok processed.tip
      if processed.tip ≠ newTip then .error (.error "error casting abr new tip: %!w(<nil>)")
      else
        let newNodes ← wrapErr "error getting new nodes: "
          (tracker.newNodes (memoryStore L) ord)
        return some (newTip, newNodes)

/--
`ValidateAbr`, if processing the block ends after `n` actions at most. There is no result for a
request that is not valid.
-/
def validateAbr (ord : MapOrder) (n : Nat) (abr : AddBlockRequest) :
    Option (Except Fault (Option (Cid × List (Obj Cid)))) :=
  match requestedTree L W abr with
  | .error err => some (.error err)
  | .ok (block, tree) =>
    match checkRoot L W abr tree with
    | .error err => some (.error err)
    | .ok false => some (.ok none)
    | .ok true =>
      let tracked := processTracked (memoryStore L) lib n tree.tip tree.store block
      tracked.returned.map fun opened => do
        let processed ← wrapErr "error wrapping treee: " opened
        acceptedTip ord abr tracked.store processed

end Validate

/-! ## The two runs -/

variable {ops : StoreOps τ Cid (Obj Cid)} {view : τ → Cid → Option (Obj Cid)} {W : Wire α}
  {lib : ChainTreeLib L α σ} {tree : SignedChainTree τ} {ord : MapOrder} {n : Nat}
  {abr : AddBlockRequest} {block : BlockWithHeaders α} {processed : Processed L}
  {root : RootNode}

/-- A run that returns has read the root. -/
theorem processTracked_accesses (hops : ops.Lawful L.objCid view) {tip : Cid} {store : τ}
    {out : Except Fault (Processed L)}
    (h : (processTracked ops lib n tip store block).returned = some out) :
    ∃ rest, (processTracked ops lib n tip store block).accesses =
      .get tip (view store tip) :: rest := by
  unfold processTracked at h ⊢
  cases n with
  | zero => cases h
  | succ n =>
    rw [runProgram_get rfl]
    exact ⟨_, by rw [(StoreWrapper.lawful_tracked hops).get]; rfl⟩

/-- The tree a signer takes from a request. -/
theorem requestedTree_of_requested (hL : L.Faithful) (hW : W.Faithful)
    (hops : ops.Lawful L.objCid view) (haddr : Addressed L.objCid (view tree.store))
    (hroot : tree.getRoot ops = .ok root)
    (hreq : Requested ops W lib ord n tree block processed abr) :
    ∃ tree', requestedTree L W abr = .ok (block, tree') ∧
      if block.height > 0 then tree'.tip = tree.tip ∧ ∃ nodes,
        (processTracked ops lib n tree.tip tree.store block).store.touchedNodes ops ord =
          .ok nodes ∧ tree'.store = nodes.foldl Store.add Store.empty
      else tree' = newEmptyTree L root.id := by
  obtain ⟨node, hnode, -⟩ := SignedChainTree.getRoot_ok hroot
  rw [hops.get] at hnode
  obtain ⟨id, hid, hobjectId⟩ := hreq.objectId
  have hcast : L.cast abr.previousTip = .ok tree.tip := by
    rw [hreq.previousTip, ← haddr _ _ hnode]
    exact hL.cast_cidOf _
  have hstate := hreq.state
  unfold requestedTree
  rw [hcast, hreq.payload, hW.decodeBlock_wrapBlock, hreq.height, hobjectId, hW.string_bytes,
    ← SignedChainTree.id_of_getRoot hroot hid]
  by_cases hpos : block.height > 0
  · rw [if_pos hpos] at hstate
    obtain ⟨nodes, hnodes, hstate⟩ := hstate
    rw [hstate, hW.mapM_decode]
    simp only [wrapErr_ok, ok_bind, if_pos hpos]
    exact ⟨_, rfl, rfl, nodes, hnodes, rfl⟩
  · rw [if_neg hpos] at hstate
    rw [hstate]
    simp only [if_neg hpos]
    exact ⟨_, rfl, newEmptyTreeIn_empty root.id⟩

/-- The same run begins at the same tip, with the same root. -/
theorem root_of_same (hops : ops.Lawful L.objCid view)
    (hreq : Requested ops W lib ord n tree block processed abr)
    (hsame : (processTracked (memoryStore L) lib n tree'.tip tree'.store block).Same
      (processTracked ops lib n tree.tip tree.store block)) :
    tree'.tip = tree.tip ∧ tree'.store.nodes tree'.tip = view tree.store tree.tip := by
  obtain ⟨rest, haccesses⟩ := processTracked_accesses hops hreq.returned
  obtain ⟨rest', haccesses'⟩ := processTracked_accesses lawful_memoryStore
    (hsame.returned.trans hreq.returned)
  have hheads := hsame.accesses
  rw [haccesses, haccesses'] at hheads
  exact Access.get.inj (List.cons.inj hheads).1

/-- The tree of a new chain has this root. -/
theorem root_of_isGenesis (hL : L.Faithful) (hops : ops.Lawful L.objCid view)
    (haddr : Addressed L.objCid (view tree.store)) (hroot : tree.getRoot ops = .ok root)
    {id : String} (hid : tree.id ops = .ok id) (hgenesis : tree.isGenesis L ops = true) :
    (newEmptyTree L root.id).tip = tree.tip ∧ root.height = 0 := by
  have htip := (SignedChainTree.isGenesis_iff hroot hid).mp hgenesis
  refine ⟨htip, ?_⟩
  obtain ⟨node, hnode, hdecode⟩ := SignedChainTree.getRoot_ok hroot
  rw [hops.get] at hnode
  have hsame := hL.objCid_injective ((haddr _ _ hnode).trans htip.symm)
  rw [hsame] at hdecode
  rw [← Except.ok.inj hdecode]

/-- The root passes the checks. -/
theorem checkRoot_of_requested (hL : L.Faithful) (hW : W.Faithful) (hops : ops.Lawful L.objCid view)
    (haddr : Addressed L.objCid (view tree.store)) (hroot : tree.getRoot ops = .ok root)
    (hheight : block.height = if tree.isGenesis L ops then 0 else root.height + 1)
    (hreq : Requested ops W lib ord n tree block processed abr)
    (hnode : tree'.store.nodes tree'.tip = view tree.store tree.tip) :
    checkRoot L W abr tree' = .ok true := by
  obtain ⟨node, hfound, hdecode⟩ := SignedChainTree.getRoot_ok hroot
  obtain ⟨id, hid, hobjectId⟩ := hreq.objectId
  rw [hops.get] at hfound
  unfold checkRoot
  rw [hnode, hfound]
  simp only [hdecode, wrapErr_ok, ok_bind]
  rw [hobjectId, hW.string_bytes, SignedChainTree.id_of_getRoot hroot hid, hreq.height, hheight]
  cases hgenesis : tree.isGenesis L ops with
  | true =>
    obtain ⟨-, hzero⟩ := root_of_isGenesis hL hops haddr hroot hid hgenesis
    rw [hzero]
    simp
  | false =>
    by_cases hzero : root.height = 0
    · rw [hzero]
      simp
    · simp [hzero]

/-- A signer that does what the client has done accepts the request. -/
theorem validateAbr_of_same (hL : L.Faithful) (ord' : MapOrder)
    (htree : requestedTree L W abr = .ok (block, tree'))
    (hcheck : checkRoot L W abr tree' = .ok true)
    (hreq : Requested ops W lib ord n tree block processed abr)
    (hsame : (processTracked (memoryStore L) lib n tree'.tip tree'.store block).Same
      (processTracked ops lib n tree.tip tree.store block)) :
    ∃ newNodes, validateAbr W lib ord' n abr = some (.ok (some (processed.tip, newNodes))) := by
  obtain ⟨newNodes, hnewNodes⟩ := StoreWrapper.newNodes_run lib.program
    hL.objCid_injective lawful_memoryStore (addressed_nodes tree'.store) ord' n
    (.opening tree'.tip block)
  refine ⟨newNodes, ?_⟩
  have htip : L.cast processed.tip.bytes = .ok processed.tip := by
    unfold Ipld.cast
    rw [if_pos processed.isCid_tip]
  have hlength : processed.tip.bytes.length > 0 := by
    refine List.length_pos_iff.mpr fun hnil => ?_
    have hcid := processed.isCid_tip
    rw [hnil, hL.isCid_nil] at hcid
    cases hcid
  unfold validateAbr
  rw [htree]
  simp only [hcheck, hsame.returned, hreq.returned, Option.map_some, wrapErr_ok, ok_bind]
  unfold acceptedTip
  rw [hreq.err, hreq.valid, hreq.newTip, if_pos hlength, htip]
  simp only [wrapErr_ok, ok_bind, Bool.not_true, Bool.false_eq_true, if_false, ne_eq,
    not_true_eq_false]
  rw [show (processTracked (memoryStore L) lib n tree'.tip tree'.store block).store.newNodes
    (memoryStore L) ord' = .ok newNodes from hnewNodes]
  rfl

/-! ## Replaying what the client has done -/

/--
For every computation and every content-addressed store, the touched nodes can be fetched after
a run, and a store that has just them gives the same run.
-/
def TouchedNodesSuffice (L : Ipld) : Prop :=
  ∀ {σ τ τ' β : Type} (next : σ → StoreAction σ Cid (Obj Cid) β) {ops : StoreOps τ Cid (Obj Cid)}
    {view : τ → Cid → Option (Obj Cid)} {ops' : StoreOps τ' Cid (Obj Cid)}
    {view' : τ' → Cid → Option (Obj Cid)} (t : τ) (t' : τ') (ord : MapOrder) (n : Nat) (s : σ),
    ops.Lawful L.objCid view → Addressed L.objCid (view t) → ops'.Lawful L.objCid view' →
    ∃ nodes, (runProgram (StoreWrapper.tracked ops L.objCid) next n s
        (wrapStoreForRefCounting t)).store.touchedNodes ops ord = .ok nodes ∧
      ((∀ c o, view' t' c = some o ↔ o ∈ nodes ∧ L.objCid o = c) →
        (runProgram ops' next n s t').Same
          (runProgram (StoreWrapper.tracked ops L.objCid) next n s (wrapStoreForRefCounting t)))

theorem touchedNodesSuffice (hL : L.Faithful) : TouchedNodesSuffice L := by
  intro σ τ τ' β next ops view ops' view' t t' ord n s hops haddr hops'
  obtain ⟨nodes, hnodes, hsame⟩ := StoreWrapper.touchedNodes_suffice next hL.objCid_injective hops
    haddr ord n s
  exact ⟨nodes, hnodes, hsame hops'⟩

/-- The signer does what the client has done, and comes to the tip in the request. -/
structure Recomputes (ops : StoreOps τ Cid (Obj Cid)) (W : Wire α) (lib : ChainTreeLib L α σ)
    (ord : MapOrder) (n : Nat) (tree : SignedChainTree τ) (block : BlockWithHeaders α)
    (abr : AddBlockRequest) : Prop where
  same : ∃ tree', requestedTree L W abr = .ok (block, tree') ∧
    (processTracked (memoryStore L) lib n tree'.tip tree'.store block).Same
      (processTracked ops lib n tree.tip tree.store block)
  accepted : ∃ newTip newNodes, abr.newTip = newTip.bytes ∧
    validateAbr W lib ord n abr = some (.ok (some (newTip, newNodes)))

/--
What the signer needs. If the block is the first one: every node that the client's computation
asks its store for is found there exactly if it is a node of the empty tree. Otherwise nothing, as
long as the height of the block is a `uint64`.
-/
def Enough (ops : StoreOps τ Cid (Obj Cid)) (lib : ChainTreeLib L α σ) (n : Nat)
    (tree : SignedChainTree τ) (root : RootNode) (block : BlockWithHeaders α) : Prop :=
  if tree.isGenesis L ops then
    ∀ e ∈ asked L.objCid [] (runProgram ops lib.program n (.opening tree.tip block)
      tree.store).accesses, (newEmptyTree L root.id).store.nodes e.1 = e.2
  else root.height ≠ 18446744073709551615

/-- A signer whose run is the same accepts the request, so the run is all that matters. -/
theorem recomputes_iff_same (hL : L.Faithful) (hW : W.Faithful) (hops : ops.Lawful L.objCid view)
    (haddr : Addressed L.objCid (view tree.store)) (hroot : tree.getRoot ops = .ok root)
    (hheight : block.height = if tree.isGenesis L ops then 0 else root.height + 1)
    (hreq : Requested ops W lib ord n tree block processed abr)
    (htree' : requestedTree L W abr = .ok (block, tree')) {ord' : MapOrder} :
    Recomputes ops W lib ord' n tree block abr ↔
      (processTracked (memoryStore L) lib n tree'.tip tree'.store block).Same
        (processTracked ops lib n tree.tip tree.store block) := by
  constructor
  · rintro ⟨⟨tree'', htree'', hsame⟩, -⟩
    obtain ⟨-, rfl⟩ := Prod.mk.inj (Except.ok.inj (htree'.symm.trans htree''))
    exact hsame
  · intro hsame
    have hcheck := checkRoot_of_requested hL hW hops haddr hroot hheight hreq
      (root_of_same hops hreq hsame).2
    obtain ⟨newNodes, hvalid⟩ := validateAbr_of_same hL ord' htree' hcheck hreq hsame
    exact ⟨⟨tree', htree', hsame⟩, processed.tip, newNodes, hreq.newTip, hvalid⟩

/-- The signer's run of the first block. -/
theorem same_genesis_iff (hops : ops.Lawful L.objCid view) (htip : tree'.tip = tree.tip) :
    (processTracked (memoryStore L) lib n tree'.tip tree'.store block).Same
        (processTracked ops lib n tree.tip tree.store block) ↔
      ∀ e ∈ asked L.objCid [] (runProgram ops lib.program n (.opening tree.tip block)
        tree.store).accesses, tree'.store.nodes e.1 = e.2 := by
  -- the wrapper around the client's store changes nothing
  have hplain : (processTracked ops lib n tree.tip tree.store block).Same
      (runProgram ops lib.program n (.opening tree.tip block) tree.store) :=
    run_same_of_view lib.program hops (StoreWrapper.lawful_tracked hops) rfl
  rw [← hplain.accesses, htip]
  exact run_same_iff lib.program (StoreWrapper.lawful_tracked hops)
    (StoreWrapper.lawful_tracked lawful_memoryStore)

/-- The signer's run of a later block. -/
theorem same_of_touched (hL : L.Faithful) (hops : ops.Lawful L.objCid view)
    (haddr : Addressed L.objCid (view tree.store)) {nodes : List (Obj Cid)}
    (htip : tree'.tip = tree.tip)
    (hnodes : (processTracked ops lib n tree.tip tree.store block).store.touchedNodes ops ord =
      .ok nodes) (hstore : tree'.store = nodes.foldl Store.add Store.empty) :
    (processTracked (memoryStore L) lib n tree'.tip tree'.store block).Same
      (processTracked ops lib n tree.tip tree.store block) := by
  obtain ⟨touched, htouched, hsame⟩ := StoreWrapper.touchedNodes_suffice lib.program
    hL.objCid_injective hops haddr ord n (.opening tree.tip block)
  obtain rfl := Except.ok.inj (hnodes.symm.trans htouched)
  rw [htip]
  refine hsame (StoreWrapper.lawful_tracked lawful_memoryStore) fun c o => ?_
  show tree'.store.nodes c = some o ↔ _
  rw [hstore, Store.nodes_foldl_add_iff hL.objCid_injective]
  exact or_iff_left (by rintro ⟨⟩)

/--
**When a signer recomputes the client's tip.** Touched nodes always suffice for a replay, but they
are not sent with the first block. There the signer does the same exactly if the client has read
nothing that an empty tree does not have.
-/
theorem signer_recomputes_iff (hL : L.Faithful) (hW : W.Faithful)
    (hops : ops.Lawful L.objCid view) (haddr : Addressed L.objCid (view tree.store))
    {sign : BlockWithHeaders α → Except Fault (Obj Cid)} {transactions : α} {ord' : MapOrder}
    (hroot : tree.getRoot ops = .ok root)
    (hblock : newBlock ops sign L tree transactions = .ok block)
    (h : newAddBlockRequest ops W lib sign ord n tree transactions = some (.ok abr)) :
    TouchedNodesSuffice L ∧
      (Recomputes ops W lib ord' n tree block abr ↔ Enough ops lib n tree root block) := by
  refine ⟨touchedNodesSuffice hL, ?_⟩
  obtain ⟨block', processed, hblock', hreq⟩ := newAddBlockRequest_ok h
  obtain rfl := Except.ok.inj (hblock.symm.trans hblock')
  obtain ⟨root', hroot', hheight⟩ := newBlock_ok hblock
  obtain rfl := Except.ok.inj (hroot.symm.trans hroot')
  obtain ⟨tree', htree', hcase⟩ := requestedTree_of_requested hL hW hops haddr hroot hreq
  rw [recomputes_iff_same hL hW hops haddr hroot hheight hreq htree', Enough]
  obtain ⟨id, hid, -⟩ := hreq.objectId
  cases hgenesis : tree.isGenesis L ops with
  | true =>
    rw [hgenesis, if_pos rfl] at hheight
    rw [hheight, if_neg (by decide)] at hcase
    obtain ⟨htip, -⟩ := root_of_isGenesis hL hops haddr hroot hid hgenesis
    rw [if_pos rfl, same_genesis_iff hops (by rw [hcase, htip]), hcase]
  | false =>
    rw [hgenesis, if_neg Bool.false_ne_true] at hheight
    rw [if_neg Bool.false_ne_true]
    by_cases hpos : block.height > 0
    · rw [if_pos hpos] at hcase
      obtain ⟨htip, nodes, hnodes, hstore⟩ := hcase
      refine iff_of_true (same_of_touched hL hops haddr htip hnodes hstore) ?_
      intro hmax
      rw [hheight, hmax] at hpos
      exact absurd hpos (by decide)
    · -- the height has wrapped around, and the signer starts from an empty tree
      rw [if_neg hpos] at hcase
      refine iff_of_false ?_ ?_
      · intro hsame
        have htip := (root_of_same hops hreq hsame).1
        rw [hcase, ← SignedChainTree.isGenesis_iff hroot hid, hgenesis] at htip
        cases htip
      · have hzero : root.height + 1 = 0 := by
          rw [← hheight]
          simpa using hpos
        have hmax : root.height = 0 - 1 := by rw [← hzero, UInt64.add_sub_cancel]
        exact fun hne => hne hmax

namespace ReplayExample

/-! The transaction of a block is a CID here, and processing it follows the CID. -/

open Classical in
noncomputable def readBack {β : Type} (enc : β → Bytes) (b : Bytes) : Except Fault β :=
  if h : ∃ x, enc x = b then .ok h.choose else .error (.error "not written")

theorem readBack_enc {β : Type} {enc : β → Bytes} (hinj : Function.Injective enc) (x : β) :
    readBack enc (enc x) = .ok x := by
  have h : ∃ y, enc y = enc x := ⟨x, rfl⟩
  rw [readBack, dif_pos h, hinj h.choose_spec]

def encBlock (b : BlockWithHeaders Cid) : Bytes :=
  encNat b.height.toNat ++ (encList encCid b.previousTip.toList ++
    (encCid b.transactions ++ encObj encCid b.headers))

theorem encBlock_injective : Function.Injective encBlock := by
  intro b b' h
  obtain ⟨hheight, h⟩ := selfDelimiting_encNat _ _ _ _ h
  obtain ⟨htip, h⟩ := selfDelimiting_encCid.encList _ _ _ _ h
  obtain ⟨htxns, h⟩ := selfDelimiting_encCid _ _ _ _ h
  have hheaders := (selfDelimiting_encObj selfDelimiting_encCid).injective h
  have hmem : ∀ c, c ∈ b.previousTip ↔ c ∈ b'.previousTip := fun c =>
    Option.mem_toList.symm.trans (by rw [htip]; exact Option.mem_toList)
  exact BlockWithHeaders.ext (UInt64.toNat_inj.mp hheight) (Option.ext hmem) htxns hheaders

noncomputable def wire : Wire Cid where
  rawData := encObj encCid
  decode := readBack (encObj encCid)
  wrapBlock := encBlock
  decodeBlock := readBack encBlock
  bytes := encStr
  string b := (readBack encStr b).toOption.getD ""

theorem faithful_wire : wire.Faithful where
  decode_rawData := readBack_enc (selfDelimiting_encObj selfDelimiting_encCid).injective
  decodeBlock_wrapBlock := readBack_enc encBlock_injective
  string_bytes s := by
    show (readBack encStr (encStr s)).toOption.getD "" = s
    rw [readBack_enc selfDelimiting_encStr.injective]
    rfl

inductive Follow where
  | read (c : Cid)
  | found (o : Obj Cid)
  | finish (valid : Bool) (o : Obj Cid)

noncomputable def follow : ChainTreeLib Ipld.inFull Cid Follow where
  start _ _ block := .read block.transactions
  next
    | .read c => .get c fun
      | some o => .found o
      | none => .finish false .null
    | .found o => .add (.list [o]) (.finish true (.list [o]))
    | .finish valid o => .done {
        valid, err := none, tip := Ipld.inFull.objCid o
        isCid_tip := Ipld.inFull_faithful.isCid_cidOf _ }

def noHeaders (_ : BlockWithHeaders Cid) : Except Fault (Obj Cid) := .ok .null

noncomputable def linked : Cid := Ipld.inFull.objCid InterferenceExample.pledge

/-- A new tree, in a store that has another node. -/
noncomputable def genesis : SignedChainTree (Store Ipld.inFull.objCid) where
  tip := (newEmptyTree Ipld.inFull "did:tupelo:a").tip
  store := (newEmptyTree Ipld.inFull "did:tupelo:a").store.add InterferenceExample.pledge

/-- A tree that has a block. -/
noncomputable def later : SignedChainTree (Store Ipld.inFull.objCid) :=
  let root : Dag Ipld.inFull := Dag.ofNodes (.map [("id", .str "did:tupelo:a"),
    ("height", .uint 0), ("tree", .link linked)]) [InterferenceExample.pledge]
  { tip := root.tip, store := root.store }

noncomputable def request (tree : SignedChainTree (Store Ipld.inFull.objCid)) :
    Option (Except Fault AddBlockRequest) :=
  newAddBlockRequest (memoryStore Ipld.inFull) wire follow noHeaders MapOrder.plain 4 tree linked

theorem made_request (tree : SignedChainTree (Store Ipld.inFull.objCid))
    (h : ((request tree).bind Except.toOption).isSome = true) :
    ∃ root block abr, tree.getRoot (memoryStore Ipld.inFull) = .ok root ∧
      newBlock (memoryStore Ipld.inFull) noHeaders Ipld.inFull tree linked = .ok block ∧
      request tree = some (.ok abr) := by
  obtain ⟨abr, habr⟩ := Option.isSome_iff_exists.mp h
  obtain ⟨r, hr, habr⟩ := Option.bind_eq_some_iff.mp habr
  rw [toOption_eq_some.mp habr] at hr
  obtain ⟨block, processed, hblock, -⟩ := newAddBlockRequest_ok hr
  obtain ⟨root, hroot, -⟩ := newBlock_ok hblock
  exact ⟨root, block, abr, hroot, hblock, hr⟩

/-- The request for a later block has the root and the linked node, and the signer follows. -/
theorem signer_recomputes_later : ∃ block abr,
    newBlock (memoryStore Ipld.inFull) noHeaders Ipld.inFull later linked = .ok block ∧
    request later = some (.ok abr) ∧
    Recomputes (memoryStore Ipld.inFull) wire follow MapOrder.plain 4 later block abr := by
  obtain ⟨root, block, abr, hroot, hblock, habr⟩ := made_request later (by decide +kernel)
  refine ⟨block, abr, hblock, habr, ?_⟩
  have hheight : ((later.getRoot (memoryStore Ipld.inFull)).toOption.map RootNode.height) =
      some 0 := by decide +kernel
  have hgenesis : later.isGenesis Ipld.inFull (memoryStore Ipld.inFull) = false := by
    decide +kernel
  refine (signer_recomputes_iff Ipld.inFull_faithful faithful_wire lawful_memoryStore
    (addressed_nodes _) hroot hblock habr).2.mpr ?_
  rw [hroot] at hheight
  rw [Enough, hgenesis, if_neg Bool.false_ne_true, Option.some.inj hheight]
  decide

/-- The first block of `genesis`. -/
noncomputable def firstBlock : BlockWithHeaders Cid where
  height := 0
  previousTip := none
  transactions := linked
  headers := .null

theorem newBlock_genesis : newBlock (memoryStore Ipld.inFull) noHeaders Ipld.inFull genesis
    linked = .ok firstBlock := by
  obtain ⟨root, -, -, hroot, -, -⟩ := made_request genesis (by decide +kernel)
  have hgenesis : genesis.isGenesis Ipld.inFull (memoryStore Ipld.inFull) = true := by
    decide +kernel
  unfold newBlock SignedChainTree.getHeight
  rw [hroot, hgenesis]
  rfl

/-- Two transactions that read the linked node: a link to it is set, and data below the link. -/
noncomputable def setBelowLink (store : Store Ipld.inFull.objCid) :
    Except Fault (Dag Ipld.inFull) :=
  applyTransactions (DagLib.std Ipld.inFull) "did:tupelo:a"
    { tip := (emptyTree Ipld.inFull).tip, store }
    [(Ranges.plain, InterferenceExample.setLink), (Ranges.plain, InterferenceExample.setBelow)]

/-- The client has the linked node and the signer does not get it. -/
theorem signer_lacks_linked_node :
    (∃ abr, request genesis = some (.ok abr) ∧
      ¬ Recomputes (memoryStore Ipld.inFull) wire follow MapOrder.plain 4 genesis firstBlock abr) ∧
    (∃ d, setBelowLink genesis.store = .ok d) ∧
    ¬ ∃ d, setBelowLink (newEmptyTree Ipld.inFull "did:tupelo:a").store = .ok d := by
  refine ⟨?_, ?_, ?_⟩
  · obtain ⟨root, -, abr, hroot, -, habr⟩ := made_request genesis (by decide +kernel)
    refine ⟨abr, habr, ?_⟩
    rintro ⟨⟨tree', htree', hsame⟩, -⟩
    obtain ⟨block, processed, hblock, hreq⟩ := newAddBlockRequest_ok habr
    obtain rfl := Except.ok.inj (newBlock_genesis.symm.trans hblock)
    obtain ⟨tree'', htree'', hcase⟩ := requestedTree_of_requested Ipld.inFull_faithful
      faithful_wire lawful_memoryStore (addressed_nodes _) hroot hreq
    obtain ⟨-, rfl⟩ := Prod.mk.inj (Except.ok.inj (htree'.symm.trans htree''))
    have hid : (genesis.id (memoryStore Ipld.inFull)).toOption = some "did:tupelo:a" := by
      decide +kernel
    have hid := toOption_eq_some.mp hid
    rw [if_neg (by decide), SignedChainTree.id_of_getRoot hroot hid] at hcase
    have hclient : ((processTracked (memoryStore Ipld.inFull) follow 4 genesis.tip genesis.store
        firstBlock).returned.bind Except.toOption).map Processed.valid = some true := by
      decide +kernel
    have hsigner : ((processTracked (memoryStore Ipld.inFull) follow 4
        (newEmptyTree Ipld.inFull "did:tupelo:a").tip
        (newEmptyTree Ipld.inFull "did:tupelo:a").store
        firstBlock).returned.bind Except.toOption).map Processed.valid = some false := by
      decide +kernel
    rw [hcase] at hsame
    rw [hsame.returned, hclient] at hsigner
    cases hsigner
  · have hok : (setBelowLink genesis.store).toOption.isSome = true := by decide +kernel
    obtain ⟨d, hd⟩ := Option.isSome_iff_exists.mp hok
    exact ⟨d, toOption_eq_some.mp hd⟩
  · have hfails : (setBelowLink (newEmptyTree Ipld.inFull
        "did:tupelo:a").store).toOption.isNone = true := by decide +kernel
    rintro ⟨d, hd⟩
    rw [hd] at hfails
    cases hfails

end ReplayExample

end Tupelo

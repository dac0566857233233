import Tupelo.Consensus.LedgerInvariant
import Tupelo.Consensus.Validators

/-!
# Chain trees

A chain tree is a DAG whose root has the id of the tree and a link to the tree the transactors
change. Processing a block belongs to the chaintree library: the validators see the whole chain
tree and the block, then the transactors run one after the other, and if all succeed the root
gets a link to the new tree. The chain of blocks the root also has is left out.

The main result is that what a receive is found to be about was really sent: a DAG with the tip
of a chain tree, whatever other nodes it has or lacks, shows only sends that are in the record
of that chain tree.
-/

namespace Tupelo

open Infra MerkleDag

variable {L : Ipld}

/-- `NewEmptyTree`. -/
def newEmptyTree (L : Ipld) (did : String) : Dag L :=
  let treeNode : Obj Cid := .map []
  let chainNode : Obj Cid := .map []
  Dag.ofNodes (.map [("id", .str did), ("tree", .link (L.objCid treeNode)),
    ("chain", .link (L.objCid chainNode))]) [treeNode, chainNode]

/-- `ChainTree.Tree`. -/
def treeOf (root : Dag L) : Option (Dag L) :=
  match root.get root.tip with
  | some (.map fields) =>
    match fields.lookup "tree" with
    | some (.link c) => some { tip := c, store := root.store }
    | _ => none
  | _ => none

theorem treeOf_eq_some {root tree : Dag L} (h : treeOf root = some tree) :
    ∃ fields c, root.store.nodes root.tip = some (.map fields) ∧
      fields.lookup "tree" = some (.link c) ∧ tree = { tip := c, store := root.store } := by
  unfold treeOf at h
  split at h
  · next fields hfields =>
    split at h
    · next c hc => exact ⟨fields, c, hfields, hc, (Option.some.inj h).symm⟩
    · cases h
  · cases h

/-- A path of the chain tree that goes into its tree. -/
theorem find_tree {root tree : Dag L} (h : treeOf root = some tree) (p : List String) :
    root.find ("tree" :: p) = tree.find p := by
  obtain ⟨fields, c, hroot, hc, rfl⟩ := treeOf_eq_some h
  simp only [Dag.find, hroot, Option.bind_some, find_cons_of_lookup hc, follow]

/-- A block, and the orders in which the calls that process it range over maps. -/
structure Block where
  transactions : List Transaction
  validatorRanges : Nat → Ranges
  transactorRanges : Nat → Ranges

/-- The transactors one after the other, from the transaction at position `i`. -/
def runTransactions (D : DagLib L) (ranges : Nat → Ranges) (did : String) :
    Nat → Dag L → List Transaction → Except Fault (Dag L)
  | _, tree, [] => .ok tree
  | i, tree, txn :: txns => do
    let newTree ← tokenTransactor D (ranges i) did tree txn
    runTransactions D ranges did (i + 1) newTree txns

/-- `ChainTree.ProcessBlock`, with the two validators of receives. No result is an invalid block. -/
def processBlock (D : DagLib L) (proofVerifier : Proof → Except Fault Bool) (did : String)
    (root : Dag L) (block : Block) : Except Fault (Option (Dag L)) := do
  let isRecipient ← isTokenRecipient D block.validatorRanges root (block.transactions.map some)
  let isProven ← hasValidProof L proofVerifier (block.transactions.map some)
  if isRecipient && isProven then
    let tree ← DagLib.orError "error getting tree" (treeOf root)
    let newTree ← runTransactions D block.transactorRanges did 0 tree block.transactions
    let newRoot ← D.set { root with store := newTree.store } ["tree"] (.link newTree.tip)
    return some newRoot
  else return none

variable {D : DagLib L}

theorem processBlock_ok {proofVerifier : Proof → Except Fault Bool} {did : String}
    {root root' : Dag L} {block : Block}
    (h : processBlock D proofVerifier did root block = .ok (some root')) :
    ∃ tree newTree, hasValidProof L proofVerifier (block.transactions.map some) = .ok true ∧
      treeOf root = some tree ∧
      runTransactions D block.transactorRanges did 0 tree block.transactions = .ok newTree ∧
      D.set { root with store := newTree.store } ["tree"] (.link newTree.tip) = .ok root' := by
  obtain ⟨isRecipient, -, h⟩ := bind_eq_ok.mp h
  obtain ⟨isProven, hproven, h⟩ := bind_eq_ok.mp h
  split at h
  · next hboth =>
    obtain ⟨tree, htree, h⟩ := bind_eq_ok.mp h
    obtain ⟨newTree, hnewTree, h⟩ := bind_eq_ok.mp h
    obtain ⟨newRoot, hnewRoot, h⟩ := bind_eq_ok.mp h
    rw [(Bool.and_eq_true_iff.mp hboth).2] at hproven
    rw [Option.some.inj (pure_eq_ok.mp h)] at hnewRoot
    exact ⟨tree, newTree, hproven, DagLib.orError_eq_ok htree, hnewTree, hnewRoot⟩
  · cases h

/-- The tree of the new chain tree is the one the transactors made, in a bigger store. -/
theorem treeOf_set (hL : L.Faithful) (hD : D.Sound) {root root' newTree tree : Dag L}
    (hroot : treeOf root = some tree) (hle : root.store ≤ newTree.store)
    (h : D.set { root with store := newTree.store } ["tree"] (.link newTree.tip) = .ok root') :
    treeOf root' = some { tip := newTree.tip, store := root'.store } ∧
      newTree.store ≤ root'.store := by
  have hinj := hL.objCid_injective
  have hset := hD.set h
  obtain ⟨fields, c, hnode, -, -⟩ := treeOf_eq_some hroot
  have hfind : Dag.find ({ root with store := newTree.store } : Dag L) [] =
      some (some (.map fields)) :=
    Option.bind_eq_some_iff.mpr ⟨_, hle _ _ hnode, find_nil _ _⟩
  have hafter := Dag.find_set_of_map (p := []) hinj hset hfind
  obtain ⟨o, ho, hres⟩ := Option.bind_eq_some_iff.mp hafter
  rw [find_nil] at hres
  obtain rfl := Option.some.inj (Option.some.inj hres)
  have hgrow : newTree.store ≤ root'.store :=
    Dag.le_set (d := { root with store := newTree.store }) hinj hset
  refine ⟨?_, hgrow⟩
  unfold treeOf Dag.get
  simp only [ho, Obj.lookup_setField_self]

/-! ## What a receive is found to be about -/

theorem findFirstLinkedNode_ok {tree : Dag L} {parentNode : List (String × Obj Cid)}
    {found : String × Obj Cid} (h : findFirstLinkedNode D tree parentNode = .ok found) :
    ∃ c, (found.1, .link c) ∈ parentNode ∧ D.get tree c = .ok found.2 := by
  unfold findFirstLinkedNode at h
  simp only at h
  split at h
  · next found' hfound =>
    obtain rfl := Except.ok.inj h
    obtain ⟨⟨k, v⟩, hmem, hv⟩ := List.exists_of_findSome?_eq_some hfound
    simp only at hv
    split at hv
    · next c =>
      obtain ⟨node, hnode, rfl⟩ := Option.map_eq_some_iff.mp hv
      exact ⟨c, hmem, toOption_eq_some.mp hnode⟩
    · cases hv
  · cases h

/-- The values of a map written entry by entry are among the entries. -/
theorem lookup_foldl_setField {es : List (Obj Cid × Nat)} {k : String} {v : Obj Cid} :
    ∀ {m : List (String × Obj Cid)},
      (es.foldl (fun m e => Obj.setField m (runeString e.2) e.1) m).lookup k = some v →
      m.lookup k = some v ∨ ∃ e ∈ es, e.1 = v := by
  induction es with
  | nil =>
    intro m h
    exact Or.inl h
  | cons e es ih =>
    intro m h
    rcases ih h with hm | ⟨e', he', hv⟩
    · by_cases hk : k = runeString e.2
      · subst hk
        rw [Obj.lookup_setField_self] at hm
        exact Or.inr ⟨e, List.mem_cons_self, Option.some.inj hm⟩
      · rw [Obj.lookup_setField_of_ne hk] at hm
        exact Or.inl hm
    · exact Or.inr ⟨e', List.mem_cons_of_mem _ he', hv⟩

theorem mem_of_lookup_tokenSendsMap {xs : List (Obj Cid)} {k : String} {v : Obj Cid}
    (h : (tokenSendsMap xs).lookup k = some v) : v ∈ xs := by
  rcases lookup_foldl_setField h with hnil | ⟨⟨x, i⟩, he, rfl⟩
  · cases hnil
  · exact List.fst_mem_of_mem_zipIdx he

theorem resolveAll_ok {what : String} {d : Dag L} {path : List String} {o : Obj Cid}
    (h : resolveAll D what d path = .ok o) : D.resolve d path = .ok (o, []) := by
  obtain ⟨⟨o', remaining⟩, hres, h⟩ := bind_eq_ok.mp h
  obtain ⟨hremaining, h⟩ := guard_eq_ok h
  rw [codeErr_eq_ok.mp hres, not_not.mp hremaining, Except.ok.inj h]

/-- The send that is found is one of the linked nodes of the sends list. -/
theorem getSendTokenFromReceive_ok (hD : D.Sound) {ord : RangeOrder} {senderDag : Dag L}
    {tokenName : TokenName} {s : TokenSend}
    (h : getSendTokenFromReceive D ord senderDag tokenName = .ok s) :
    ∃ xs c node,
      D.resolve senderDag ("tree" :: (recordPath tokenName.string ++ [tokenSendLabel])) =
        .ok (.list xs, []) ∧
      .link c ∈ xs ∧ senderDag.get c = some node ∧ decodeTokenSend node = .ok s := by
  obtain ⟨path, hpath, h⟩ := bind_eq_ok.mp h
  rw [tokensPath_eq] at hpath
  obtain rfl := Except.ok.inj hpath
  obtain ⟨uncast, huncast, h⟩ := bind_eq_ok.mp h
  have hres := resolveAll_ok huncast
  cases uncast with
  | list xs =>
    obtain ⟨⟨k, node⟩, hnode, h⟩ := bind_eq_ok.mp h
    obtain ⟨c, hmem, hget⟩ := findFirstLinkedNode_ok (codeErr_eq_ok.mp hnode)
    refine ⟨xs, c, node, hres, ?_, hD.get hget, codeErr_eq_ok.mp h⟩
    exact mem_of_lookup_tokenSendsMap (RangeOrder.lookup_of_mem_range hmem)
  | _ => cases h

theorem mem_of_mapM_asLink {xs : List (Obj Cid)} {c : Cid} : ∀ {cids : List Cid},
    xs.mapM Obj.asLink = some cids → .link c ∈ xs → c ∈ cids := by
  induction xs with
  | nil =>
    intro cids _ hc
    cases hc
  | cons x xs ih =>
    intro cids h hc
    rw [List.mapM_cons] at h
    obtain ⟨c', hc', h⟩ := Option.bind_eq_some_iff.mp h
    obtain ⟨cs, hcs, h⟩ := Option.bind_eq_some_iff.mp h
    rw [← Option.some.inj h]
    rcases List.mem_cons.mp hc with rfl | hc
    · rw [← Option.some.inj hc']
      exact List.mem_cons_self
    · exact List.mem_cons_of_mem _ (ih hcs hc)

theorem mem_of_readNodes {α : Type} {S : Store L.objCid}
    {decode : Obj Cid → Except Fault α} {cids : List Cid} {c : Cid} : ∀ {xs : List α},
      readNodes S decode cids = some xs → c ∈ cids →
      ∃ o x, S.nodes c = some o ∧ decode o = .ok x ∧ x ∈ xs := by
  induction cids with
  | nil =>
    intro xs _ hc
    cases hc
  | cons c' cids ih =>
    intro xs h hc
    unfold readNodes at h
    rw [List.mapM_cons] at h
    obtain ⟨x, hx, h⟩ := Option.bind_eq_some_iff.mp h
    obtain ⟨ys, hys, h⟩ := Option.bind_eq_some_iff.mp h
    rw [← Option.some.inj h]
    rcases List.mem_cons.mp hc with rfl | hc
    · obtain ⟨o, ho, hx⟩ := Option.bind_eq_some_iff.mp hx
      exact ⟨o, x, ho, toOption_eq_some.mp hx, List.mem_cons_self⟩
    · obtain ⟨o, y, ho, hy, hmem⟩ := ih hys hc
      exact ⟨o, y, ho, hy, List.mem_cons_of_mem _ hmem⟩

/-- **What a receive is found to be about was sent** by the chain tree with its tip. -/
theorem mem_sends_of_selectSend (hL : L.Faithful) (hD : D.Sound) {ranges : Ranges}
    {senderDag root tree : Dag L} {tokenName : TokenName} {s : TokenSend}
    {x : Option TokenRecord} (h : selectSend D ranges senderDag = .ok (tokenName, s))
    (htip : senderDag.tip = root.tip) (htree : treeOf root = some tree)
    (hx : tokenRecord tree tokenName.string = some x) : ∃ r, x = some r ∧ s ∈ r.sends := by
  have hinj := hL.objCid_injective
  obtain ⟨tn, -, h⟩ := bind_eq_ok.mp h
  obtain ⟨s', hs', h⟩ := bind_eq_ok.mp h
  obtain ⟨rfl, rfl⟩ := Prod.mk.inj (pure_eq_ok.mp h)
  obtain ⟨xs, c, node, hsender, hlink, hnode, hdecode⟩ := getSendTokenFromReceive_ok hD hs'
  -- the path leads to one thing in both DAGs
  have hagree : ∀ y, tree.find (recordPath tn.string ++ [tokenSendLabel]) = some y →
      y = some (.list xs) := by
    intro y hy
    rw [← find_tree htree] at hy
    obtain ⟨f, hf, hreports⟩ := hD.resolve hsender
    obtain rfl := Dag.look_agree hinj htip (Dag.look_of_find hy) hf
    cases y with
    | none => cases hreports.1
    | some o => rw [(Prod.mk.inj hreports).1]
  cases x with
  | none =>
    cases hagree _
      (Dag.find_append_missing (tokenRecord_eq_some_none.mp hx) [tokenSendLabel])
  | some r =>
    refine ⟨r, rfl, ?_⟩
    obtain ⟨fields, hmap, hreads⟩ := tokenRecord_eq_some_some.mp hx
    obtain ⟨cids, hcids, hsends⟩ := Option.bind_eq_some_iff.mp hreads.sends
    unfold readCids at hcids
    split at hcids
    · next hk => cases hagree _ (Dag.find_field hmap hk rfl)
    · next list hk =>
      split at hcids
      · next ys hys =>
        obtain rfl := Obj.list.inj
          (Option.some.inj (hagree _ (Dag.find_field hmap hk hys)))
        obtain ⟨o, s'', ho, hs'', hmem⟩ := mem_of_readNodes hsends
          (mem_of_mapM_asLink hcids hlink)
        obtain rfl : node = o := Store.agree hinj hnode ho
        rw [Except.ok.inj (hdecode.symm.trans hs'')]
        exact hmem
      · cases hcids
    · cases hcids

end Tupelo

import Tupelo.Consensus.LedgerAtomicity
import Tupelo.Consensus.ReceiveOrder
import Tupelo.Consensus.TreeTransactions
import Tupelo.Panic

/-!
# Transactors that do not panic

A transactor reads from a payload it has not tested for nil, and two assertions in
`transactionCidsForPath` (`sdk/consensus/tree_ledger.go`) take for granted what the ledger itself
has written: that the mints, sends and receives of a token are lists of links. A tree that
somebody else has made need not be like that. The DAG library has no root for a receive without
leaves, and it need not return from a write that goes through something else than maps.

`Transaction.Runs` has all of it, as far as the transactor comes, and `noPanic_transactor` says
that nothing else is needed.
-/

namespace Tupelo

open Infra MerkleDag

section Errors

variable {α : Type} {code : Nat} {memo : String → String} {x : Except Fault α}

@[simp] theorem noPanic_codeErr : NoPanic (codeErr code memo x) ↔ NoPanic x := by
  match x with
  | .ok _ => exact Iff.rfl
  | .error (.panic _) => exact Iff.rfl
  | .error (.coded _ _) => exact Iff.rfl
  | .error (.error _) => simp [codeErr]

@[simp] theorem noPanic_orError {msg : String} {x : Option α} : NoPanic (DagLib.orError msg x) := by
  cases x with
  | none => exact noPanic_error msg
  | some a => exact noPanic_ok a

@[simp] theorem noPanic_decodePath (path : String) : NoPanic (decodePath path) := by
  unfold decodePath
  refine Avoids.ite (fun _ => noPanic_ok _) fun _ => ?_
  exact Avoids.ite (fun _ => noPanic_error _) fun _ => noPanic_ok _

/-- A payload that is read at once. -/
theorem Transaction.noPanic_readPayload_bind {β : Type} {txn : Transaction} {want : TransactionType}
    (htype : txn.type = want) {payload : Option α} {f : α → Except Fault β} :
    NoPanic (txn.readPayload code want payload >>= f) ↔ ∃ p, payload = some p ∧ NoPanic (f p) := by
  rw [readPayload_of_type htype, noPanic_deref_bind]

end Errors

/-! ## Decoding -/

@[simp] theorem noPanic_structFields (known : List String) (o : Obj Cid) :
    NoPanic (structFields known o) := by
  cases o with
  | null => exact noPanic_ok _
  | map fields =>
    rw [structFields]
    exact Avoids.ite (fun _ => noPanic_ok _) fun _ => noPanic_error _
  | _ => exact noPanic_error _

@[simp] theorem noPanic_uintField (fields : List (String × Obj Cid)) (k : String) :
    NoPanic (uintField fields k) := by
  unfold uintField
  split
  · exact noPanic_ok _
  · exact noPanic_ok _
  · exact noPanic_error _

@[simp] theorem noPanic_strField (fields : List (String × Obj Cid)) (k : String) :
    NoPanic (strField fields k) := by
  unfold strField
  split
  · exact noPanic_ok _
  · exact noPanic_ok _
  · exact noPanic_error _

@[simp] theorem noPanic_linkField (fields : List (String × Obj Cid)) (k : String) :
    NoPanic (linkField fields k) := by
  unfold linkField
  split
  · exact noPanic_ok _
  · exact noPanic_ok _
  · exact noPanic_ok _
  · exact noPanic_error _

@[simp] theorem noPanic_decodeTokenMonetaryPolicy (o : Obj Cid) :
    NoPanic (decodeTokenMonetaryPolicy o) := by
  simp [decodeTokenMonetaryPolicy, noPanic_bind]

@[simp] theorem noPanic_decodeTokenSend (o : Obj Cid) : NoPanic (decodeTokenSend o) := by
  simp [decodeTokenSend, noPanic_bind]

@[simp] theorem noPanic_decodeTokenReceive (o : Obj Cid) : NoPanic (decodeTokenReceive o) := by
  simp [decodeTokenReceive, noPanic_bind]

@[simp] theorem noPanic_decodeToken (o : Obj Cid) : NoPanic (decodeToken o) := by
  simp [decodeToken, noPanic_bind]

/-! ## The library -/

variable {L : Ipld}

/--
The calls of the library that read return, and so do writes of a field in a map. For a DAG of no
nodes there is no root, which is `nodes[0]`.
-/
structure DagLib.NoPanics (D : DagLib L) : Prop where
  resolve : ∀ d p, NoPanic (D.resolve d p)
  resolveNode : ∀ d p, NoPanic (D.resolveNode d p)
  get : ∀ d c, NoPanic (D.get d c)
  createNode : ∀ d o, NoPanic (D.createNode d o)
  set : ∀ {d p fields}, d.find p = some (some (.map fields)) →
    ∀ k v, NoPanic (D.set d (p ++ [k]) v)
  setAsLink : ∀ {d p fields}, d.find p = some (some (.map fields)) →
    ∀ k v, NoPanic (D.setAsLink d (p ++ [k]) v)
  newDagWithNodes : ∀ {os}, NoPanic (D.newDagWithNodes os) ↔ os ≠ []

theorem DagLib.std_noPanics (L : Ipld) : (DagLib.std L).NoPanics where
  resolve d p := by
    simp only [std]
    split
    · exact noPanic_ok _
    · exact noPanic_ok _
    · exact noPanic_ok _
    · exact noPanic_error _
  resolveNode d p := by
    simp only [std]
    split
    · exact noPanic_orError
    · exact noPanic_error _
  get _ _ := noPanic_orError
  createNode _ _ := noPanic_ok _
  set _ _ _ := noPanic_orError
  setAsLink _ _ _ := noPanic_orError
  newDagWithNodes := by
    intro os
    cases os with
    | nil => exact iff_of_false (not_noPanic_panic _) fun h => h rfl
    | cons root rest => exact iff_of_true (noPanic_ok _) (List.cons_ne_nil _ _)

variable {D : DagLib L} {d d' : Dag L}

theorem DagLib.NoPanics.resolveInto {α : Type} (hN : D.NoPanics) {decode : Obj Cid → Except Fault α}
    (hdecode : ∀ o, NoPanic (decode o)) (d : Dag L) (path : List String) :
    NoPanic (D.resolveInto decode d path) :=
  (hN.resolveNode d path).bind fun node _ => hdecode node

/-! ## The lists of a token -/

/-- What `transactionCidsForPath` asserts of a value that is not nil: it is a list of links. -/
def IsCids (o : Obj Cid) : Prop := o = .null ∨ ∃ cids : List Cid, o = .list (cids.map .link)

/-- What is resolved at the path, if something is, is a list of links. -/
def ListRead (D : DagLib L) (d : Dag L) (path : List String) : Prop :=
  ∀ o rest, D.resolve d path = .ok (o, rest) → IsCids o

theorem noPanic_mapM_castCid : ∀ {xs : List (Obj Cid)},
    NoPanic (xs.mapM castCid) ↔ ∃ cids : List Cid, xs = cids.map .link
  | [] => iff_of_true (noPanic_pure _) ⟨[], rfl⟩
  | x :: xs => by
    rw [List.mapM_cons]
    constructor
    · intro h
      obtain ⟨hx, hxs⟩ := noPanic_bind.mp h
      cases x with
      | link c =>
        obtain ⟨cids, rfl⟩ := noPanic_mapM_castCid.mp (noPanic_bind.mp (hxs c rfl)).1
        exact ⟨c :: cids, rfl⟩
      | _ => exact absurd hx (not_noPanic_panic _)
    · rintro ⟨cids, hcids⟩
      cases cids with
      | nil => cases hcids
      | cons c cids =>
        obtain ⟨rfl, rfl⟩ := List.cons.inj hcids
        rw [mapM_castCid_links]
        exact noPanic_ok _

theorem noPanic_transactionCidsForPath (hN : D.NoPanics) {path : List String} :
    NoPanic (transactionCidsForPath D d path) ↔ ListRead D d path := by
  unfold transactionCidsForPath ListRead
  rw [noPanic_then (noPanic_wrapErr.mpr (hN.resolve d path)), Prod.forall]
  refine forall_congr' fun o => forall_congr' fun rest => ?_
  rw [wrapErr_eq_ok]
  refine imp_congr_right fun _ => ?_
  cases o with
  | null => exact iff_of_true (noPanic_ok _) (Or.inl rfl)
  | list xs =>
    refine noPanic_mapM_castCid.trans ?_
    simp [IsCids]
  | _ => exact iff_of_false (not_noPanic_panic _) (by simp [IsCids])

/-! ## The ledger -/

section Ledger

open TreeLedger

variable {l : TreeLedger L}

theorem noPanic_tokenTransactionCidsForType (hN : D.NoPanics) {label : String} :
    NoPanic (l.tokenTransactionCidsForType D label) ↔
      ListRead D l.tree (recordPath l.tokenName.string ++ [label]) := by
  unfold TreeLedger.tokenTransactionCidsForType
  rw [tokenPath_eq, ok_bind, noPanic_wrapErr]
  exact noPanic_transactionCidsForPath hN

theorem noPanic_sumTokenTransactions (hN : D.NoPanics) (cids : List Cid) :
    NoPanic (l.sumTokenTransactions D cids) := by
  refine Avoids.foldlM fun sum c _ => ?_
  refine NoPanic.bind (noPanic_wrapErr.mpr (hN.get l.tree c)) fun node _ => ?_
  exact NoPanic.bind (by simp) fun _ _ => noPanic_pure _

theorem noPanic_balance (hN : D.NoPanics) (l : TreeLedger L) : NoPanic (l.balance D) := by
  unfold balance
  rw [tokenPath_eq, ok_bind]
  refine NoPanic.bind ?_ fun _ _ => noPanic_pure _
  exact noPanic_wrapErr.mpr (hN.resolveInto noPanic_decodeToken l.tree _)

theorem noPanic_tokenExists (hN : D.NoPanics) (l : TreeLedger L) : NoPanic (l.tokenExists D) := by
  unfold tokenExists
  rw [tokenPath_eq, wrapErr_ok, ok_bind]
  refine NoPanic.bind (noPanic_wrapErr.mpr (hN.resolve l.tree _)) ?_
  rintro ⟨existingToken, remaining⟩ -
  cases existingToken <;> exact noPanic_pure _

theorem noPanic_checkMaximum (hN : D.NoPanics) (policy : TokenMonetaryPolicy) (cids : List Cid)
    (amount : UInt64) : NoPanic (l.checkMaximum D policy cids amount) := by
  refine Avoids.ite (fun _ => ?_) fun _ => noPanic_pure _
  refine NoPanic.bind (noPanic_wrapErr.mpr (noPanic_sumTokenTransactions hN cids)) fun _ _ => ?_
  exact Avoids.ite (fun _ => noPanic_error _) fun _ => noPanic_pure _

theorem noPanic_checkReceive (hN : D.NoPanics) (id : String) (r : Cid) :
    NoPanic (l.checkReceive D id r) := by
  refine NoPanic.bind (noPanic_wrapErr.mpr (hN.get l.tree r)) fun node _ => ?_
  refine NoPanic.bind (by simp) fun _ _ => ?_
  exact Avoids.ite (fun _ => noPanic_error _) fun _ => noPanic_pure _

/-- What `MintToken` asserts: if there is a policy, the list of mints is one of links. -/
def MintReads (D : DagLib L) (l : TreeLedger L) (amount : UInt64) : Prop :=
  amount ≠ 0 → ∀ policy, D.resolveInto decodeTokenMonetaryPolicy l.tree
    (recordPath l.tokenName.string ++ [monetaryPolicyLabel]) = .ok policy →
      ListRead D l.tree (recordPath l.tokenName.string ++ [tokenMintLabel])

/-- What `SendToken` asserts: if the balance is enough, the list of sends is one of links. -/
def SendReads (D : DagLib L) (l : TreeLedger L) (txId destination : String) (amount : UInt64) :
    Prop :=
  amount ≠ 0 → ∀ b, l.balance D = .ok b → amount ≤ b →
    ∀ c made, D.createNode l.tree (TokenSend.toObj { id := txId, amount, destination }) =
      .ok (c, made) → ListRead D made (recordPath l.tokenName.string ++ [tokenSendLabel])

/-- What a receive of a token that exists takes for granted. -/
structure ReceiveReads (D : DagLib L) (l : TreeLedger L) (sendTokenTxId : String)
    (amount : UInt64) : Prop where
  list : ListRead D l.tree (recordPath l.tokenName.string ++ [tokenReceiveLabel])
  write : ∀ cids, l.tokenTransactionCidsForType D tokenReceiveLabel = .ok cids →
    (∀ c ∈ cids, l.checkReceive D sendTokenTxId c = .ok ()) → ∀ c made, D.createNode l.tree
      (TokenReceive.toObj { sendTokenTransactionId := sendTokenTxId, amount }) = .ok (c, made) →
        NoPanic (D.setAsLink made (recordPath l.tokenName.string ++ [tokenReceiveLabel])
          (.list ((cids ++ [c]).map .link)))

section

variable (hL : L.Faithful) (hD : D.Sound) (hN : D.NoPanics)

include hL hD hN

/-- Once the list has been written there is a map that the balance is written in. -/
theorem noPanic_appendTransaction {tree : Dag L} {path : List String} {label : String}
    {cids : List Cid} {newBalance : Dag L → Except Fault UInt64}
    (hbalance : NoPanic (newBalance tree)) :
    NoPanic (appendTransaction D tree path label cids newBalance) ↔
      NoPanic (D.setAsLink tree (path ++ [label]) (.list (cids.map .link))) := by
  unfold appendTransaction
  rw [noPanic_bind, noPanic_wrapErr]
  refine and_iff_left_of_imp fun _ newTree hnew => ?_
  obtain ⟨fields, hmap⟩ := Dag.exists_map_of_field
    (Dag.find_setAsLink_self hL.objCid_injective (hD.setAsLink (wrapErr_eq_ok.mp hnew)))
  exact hbalance.bind fun b _ => noPanic_wrapErr.mpr (hN.set hmap _ _)

/-- **Only the first write of a new record is in question.** -/
theorem noPanic_createToken : NoPanic (l.createToken D).1 ↔
    NoPanic (D.setAsLink l.tree (recordPath l.tokenName.string) Token.zero) := by
  unfold createToken
  rw [commit_fst, tokenPath_eq, wrapErr_ok, ok_bind, noPanic_bind, noPanic_wrapErr]
  refine and_iff_left_of_imp fun _ newTree hnew => ?_
  have hmap := Dag.find_setAsLink_self (p := ["_tupelo", "tokens"]) hL.objCid_injective
    (hD.setAsLink (wrapErr_eq_ok.mp hnew))
  exact noPanic_wrapErr.mpr (hN.set hmap _ _)

theorem noPanic_establishToken {policy : TokenMonetaryPolicy} :
    NoPanic (l.establishToken D policy).1 ↔
      NoPanic (D.setAsLink l.tree (recordPath l.tokenName.string) Token.zero) := by
  rw [establishToken_fst, noPanic_bind, noPanic_createToken hL hD hN]
  refine and_iff_left_of_imp fun _ newTree hnew => ?_
  have hmap := find_created hL hD (createToken_eq_ok.mp hnew)
  exact noPanic_wrapErr.mpr (hN.setAsLink hmap _ _)

omit hL hN in
/-- A policy is that of a record which is a map. -/
theorem exists_map_of_policy {policy : TokenMonetaryPolicy}
    (h : D.resolveInto decodeTokenMonetaryPolicy l.tree
      (recordPath l.tokenName.string ++ [monetaryPolicyLabel]) = .ok policy) :
    ∃ fields, l.tree.find (recordPath l.tokenName.string) = some (some (.map fields)) := by
  obtain ⟨val, hval, -⟩ :=
    DagLib.resolveInto_ok hD (isIndex_recordPath_label l.tokenName rfl) h
  exact Dag.exists_map_of_field hval

theorem noPanic_mintToken {amount : UInt64} :
    NoPanic (l.mintToken D amount).1 ↔ MintReads D l amount := by
  unfold mintToken MintReads
  rw [commit_fst, tokenPath_eq, wrapErr_ok, ok_bind, noPanic_guard id]
  refine imp_congr_right fun _ => ?_
  rw [noPanic_then (noPanic_wrapErr.mpr (hN.resolveInto noPanic_decodeTokenMonetaryPolicy _ _))]
  refine forall_congr' fun policy => ?_
  rw [wrapErr_eq_ok]
  refine imp_congr_right fun hpolicy => ?_
  rw [noPanic_bind, noPanic_tokenTransactionCidsForType hN]
  refine and_iff_left_of_imp fun _ cids _ => ?_
  refine NoPanic.bind (noPanic_checkMaximum hN policy cids amount) fun _ _ => ?_
  refine NoPanic.bind (noPanic_wrapErr.mpr (hN.createNode _ _)) ?_
  rintro ⟨newMint, tree⟩ hnode
  obtain ⟨fields, hmap⟩ := exists_map_of_policy hD hpolicy
  have hmap' := Dag.find_createNode (o := TokenMint.toObj { amount }) hL.objCid_injective hmap
  rw [hD.createNode (wrapErr_eq_ok.mp hnode)] at hmap'
  refine (noPanic_appendTransaction hL hD hN ?_).mpr (hN.setAsLink hmap' _ _)
  exact NoPanic.bind (noPanic_wrapErr.mpr (noPanic_balance hN _)) fun _ _ => noPanic_pure _

omit hL hN in
/-- A balance above zero is that of a record which is a map. -/
theorem exists_map_of_balance {b : UInt64} (h : l.balance D = .ok b) (hb : b ≠ 0) :
    ∃ fields, l.tree.find (recordPath l.tokenName.string) = some (some (.map fields)) := by
  obtain ⟨val, token, hval, hdecode, rfl⟩ := balance_ok hD h
  cases val with
  | map fields => exact ⟨fields, hval⟩
  | null =>
    rw [← Except.ok.inj hdecode] at hb
    exact absurd rfl hb
  | _ => cases hdecode

theorem noPanic_sendToken {txId destination : String} {amount : UInt64} :
    NoPanic (l.sendToken D txId destination amount).1 ↔
      SendReads D l txId destination amount := by
  unfold sendToken SendReads
  rw [commit_fst, tokenPath_eq, ok_bind, noPanic_guard id]
  refine imp_congr_right fun hamount => ?_
  rw [noPanic_then (noPanic_balance hN l)]
  refine forall_congr' fun b => imp_congr_right fun hb => ?_
  rw [noPanic_guard id, UInt64.not_lt]
  refine imp_congr_right fun hle => ?_
  rw [noPanic_then (noPanic_wrapErr.mpr (hN.createNode _ _)), Prod.forall]
  refine forall_congr' fun c => forall_congr' fun made => ?_
  rw [wrapErr_eq_ok]
  refine imp_congr_right fun hnode => ?_
  rw [noPanic_bind, noPanic_wrapErr,
    noPanic_tokenTransactionCidsForType (l := { l with tree := made }) hN]
  refine and_iff_left_of_imp fun _ cids _ => ?_
  have hne : b ≠ 0 := by
    rintro rfl
    exact hamount (UInt64.le_zero_iff.mp hle)
  obtain ⟨fields, hmap⟩ := exists_map_of_balance hD hb hne
  have hmap' := Dag.find_createNode (o := TokenSend.toObj { id := txId, amount, destination })
    hL.objCid_injective hmap
  rw [hD.createNode hnode] at hmap'
  exact (noPanic_appendTransaction hL hD hN (noPanic_pure _)).mpr (hN.setAsLink hmap' _ _)

theorem noPanic_receive {id : String} {amount : UInt64} :
    NoPanic (receiveToken.receive D id amount l).1 ↔ ReceiveReads D l id amount := by
  have hchecks : ∀ cids : List Cid, NoPanic (cids.forM (l.checkReceive D id)) :=
    fun cids => Avoids.forM fun r _ => noPanic_checkReceive hN id r
  unfold receiveToken.receive
  rw [commit_fst, tokenPath_eq, ok_bind, noPanic_bind, noPanic_wrapErr,
    noPanic_tokenTransactionCidsForType hN]
  refine Iff.trans (and_congr_right fun _ => ?_)
    ⟨fun h => ⟨h.1, h.2⟩, fun h => ⟨h.list, h.write⟩⟩
  refine forall_congr' fun cids => ?_
  rw [wrapErr_eq_ok, noPanic_then (hchecks cids), ← forM_eq_ok]
  refine imp_congr_right fun _ => (Unique.forall_iff (α := Unit)).trans ?_
  refine imp_congr_right fun _ => ?_
  rw [noPanic_then (noPanic_wrapErr.mpr (hN.createNode _ _)), Prod.forall]
  refine forall_congr' fun c => forall_congr' fun made => ?_
  rw [wrapErr_eq_ok]
  refine imp_congr_right fun _ => noPanic_appendTransaction hL hD hN ?_
  exact NoPanic.bind (noPanic_wrapErr.mpr (noPanic_balance hN _)) fun _ _ => noPanic_pure _

/-- A token that has just been created has no receives. -/
theorem receiveReads_of_created {newTree : Dag L} (h : Creates D l newTree) (id : String)
    (amount : UInt64) : ReceiveReads D { l with tree := newTree } id amount where
  list o rest hres := by
    have hmap := find_created hL hD h
    have hnull := hD.resolve_found hres (Dag.find_field hmap rfl rfl)
    exact Or.inl (Prod.mk.inj hnull).1
  write cids _ _ c made hnode := by
    have hmap := Dag.find_createNode (o := TokenReceive.toObj
      { sendTokenTransactionId := id, amount }) hL.objCid_injective (find_created hL hD h)
    rw [hD.createNode hnode] at hmap
    exact hN.setAsLink hmap _ _

theorem noPanic_receiveToken {id : String} {amount : UInt64} :
    NoPanic (l.receiveToken D id amount).1 ↔
      (l.tokenExists D = .ok true → ReceiveReads D l id amount) ∧
      (l.tokenExists D = .ok false →
        NoPanic (D.setAsLink l.tree (recordPath l.tokenName.string) Token.zero)) := by
  rw [receiveToken_fst, noPanic_then (noPanic_tokenExists hN l), Bool.forall_bool', and_comm]
  refine and_congr (imp_congr_right fun _ => ?_) (imp_congr_right fun _ => ?_)
  · exact noPanic_receive hL hD hN
  · rw [if_neg Bool.false_ne_true, noPanic_bind, noPanic_createToken hL hD hN]
    refine and_iff_left_of_imp fun _ newTree hnew => ?_
    refine (noPanic_receive (l := { l with tree := newTree }) hL hD hN).mpr ?_
    exact receiveReads_of_created hL hD hN (createToken_eq_ok.mp hnew) id amount

end

end Ledger

/-! ## The transactors -/

theorem noPanic_canonicalName (hN : D.NoPanics) (ord : RangeOrder) (d : Dag L)
    (did name : String) (requireDefault : Bool) :
    NoPanic (canonicalName D ord d did name requireDefault) := by
  unfold canonicalName canonicalTokenName
  rw [noPanic_codeErr]
  refine Avoids.ite (fun _ => Avoids.ite (fun _ => noPanic_error _) fun _ => noPanic_ok _)
    fun _ => ?_
  refine NoPanic.bind (by simp) fun path _ => ?_
  refine NoPanic.bind (noPanic_wrapErr.mpr (hN.resolve d path)) ?_
  rintro ⟨tokensObj, remaining⟩ -
  refine Avoids.ite (fun _ => noPanic_ok _) fun _ => ?_
  cases tokensObj with
  | map tokens =>
    dsimp only
    split
    · exact noPanic_ok _
    · exact noPanic_ok _
    · exact noPanic_error _
  | _ => exact noPanic_error _

theorem noPanic_findFirstLinkedNode (d : Dag L) (parentNode : List (String × Obj Cid)) :
    NoPanic (findFirstLinkedNode D d parentNode) := by
  unfold findFirstLinkedNode
  dsimp only
  split
  · exact noPanic_ok _
  · exact noPanic_error _

theorem noPanic_resolveAll (hN : D.NoPanics) (what : String) (d : Dag L) (path : List String) :
    NoPanic (resolveAll D what d path) := by
  refine NoPanic.bind (noPanic_codeErr.mpr (hN.resolve d path)) ?_
  rintro ⟨uncast, remaining⟩ -
  exact Avoids.ite (fun _ => noPanic_coded _ _) fun _ => noPanic_ok _

theorem noPanic_selectSend (hN : D.NoPanics) (ranges : Ranges) (d : Dag L) :
    NoPanic (selectSend D ranges d) := by
  refine NoPanic.bind ?_ fun tokenName _ => NoPanic.bind ?_ fun _ _ => noPanic_pure _
  · unfold getTokenNameFromReceive
    rw [tokensPath_eq, ok_bind]
    refine (noPanic_resolveAll hN _ d _).bind fun uncastTokens _ => ?_
    cases uncastTokens with
    | map tokens =>
      refine NoPanic.bind (noPanic_codeErr.mpr (noPanic_findFirstLinkedNode d _)) ?_
      exact fun _ _ => noPanic_pure _
    | _ => exact noPanic_coded _ _
  · unfold getSendTokenFromReceive
    rw [tokensPath_eq, ok_bind]
    refine (noPanic_resolveAll hN _ d _).bind fun uncastTokenSends _ => ?_
    cases uncastTokenSends with
    | list tokenSends =>
      refine NoPanic.bind (noPanic_codeErr.mpr (noPanic_findFirstLinkedNode d _)) ?_
      exact fun _ _ => noPanic_codeErr.mpr (noPanic_decodeTokenSend _)
    | _ => exact noPanic_coded _ _

/-- A receive whose tip is a CID has at least one leaf. -/
theorem noPanic_getSenderDagFromReceive (hN : D.NoPanics) {payload : ReceiveTokenPayload} :
    NoPanic (getSenderDagFromReceive D payload) ↔
      ∀ tipCid, L.cast payload.tip = .ok tipCid → payload.leaves ≠ [] := by
  unfold getSenderDagFromReceive
  rw [noPanic_then (noPanic_codeErr.mpr (L.noPanic_cast payload.tip))]
  refine forall_congr' fun tipCid => ?_
  rw [codeErr_eq_ok]
  refine imp_congr_right fun _ => ?_
  cases hsome : payload.leaves.all Option.isSome with
  | false =>
    rw [orderLeaves_error tipCid hsome]
    refine iff_of_true (noPanic_coded _ _) ?_
    intro hnil
    rw [hnil] at hsome
    cases hsome
  | true =>
    rw [eq_map_filterMap hsome, orderLeaves_map, ok_bind, noPanic_codeErr, hN.newDagWithNodes]
    refine not_congr ?_
    rw [List.map_eq_nil_iff, ← List.length_eq_zero_iff, ← List.length_eq_zero_iff]
    have hperm := List.filter_append_perm (fun o => decide (L.objCid o = tipCid))
      (payload.leaves.filterMap id)
    rw [List.length_append, List.length_reverse, ← List.length_append, hperm.length_eq]

/--
What the transactor of a transaction takes for granted, as far as it comes: that its payload is
there, that a receive has leaves, that the list it adds to is one of links, and that the library
returns from a write which may go through something else than maps.
-/
def Transaction.Runs (D : DagLib L) (ranges : Ranges) (did : String) (d : Dag L)
    (txn : Transaction) : Prop :=
  match txn.type with
  | .setData => ∃ payload, txn.setDataPayload = some payload ∧
    ∀ path, decodePath payload.path = .ok path → ∀ val, payload.value = some val →
      NoPanic (if complexType val then D.setAsLink d (dataTreePath ++ path) val
        else D.set d (dataTreePath ++ path) val)
  | .setOwnership => ∃ payload, txn.setOwnershipPayload = some payload ∧
    NoPanic (D.setAsLink d authenticationsTreePath (authenticationObj payload.authentication))
  | .stake => NoPanic (D.setAsLink d stakeTreePath (txn.stakePayload.getD .null))
  | .establishToken => ∃ payload, txn.establishTokenPayload = some payload ∧
    ∀ tokenName, canonicalTokenName D ranges.tokens d did payload.name true = .ok tokenName →
      TreeLedger.tokenExists D { tokenName, tree := d } = .ok false →
        NoPanic (D.setAsLink d (recordPath tokenName.string) Token.zero)
  | .mintToken => ∃ payload, txn.mintTokenPayload = some payload ∧
    ∀ tokenName, canonicalTokenName D ranges.tokens d did payload.name true = .ok tokenName →
      MintReads D { tokenName, tree := d } payload.amount
  | .sendToken => ∃ payload, txn.sendTokenPayload = some payload ∧
    ∀ tokenName, canonicalTokenName D ranges.tokens d did payload.name false = .ok tokenName →
      SendReads D { tokenName, tree := d } payload.id payload.destination payload.amount
  | .receiveToken => ∃ payload, txn.receiveTokenPayload = some payload ∧
    ∀ tipCid, L.cast payload.tip = .ok tipCid → payload.leaves ≠ [] ∧
      ∀ senderDag, getSenderDagFromReceive D payload = .ok senderDag → tipCid = senderDag.tip →
        ∀ tokenName send, selectSend D ranges senderDag = .ok (tokenName, send) →
          let ledger : TreeLedger L := { tokenName, tree := d }
          (ledger.tokenExists D = .ok true →
            ReceiveReads D ledger payload.sendTokenTransactionId send.amount) ∧
          (ledger.tokenExists D = .ok false →
            NoPanic (D.setAsLink d (recordPath tokenName.string) Token.zero))

section Transactors

variable {txn : Transaction} (hL : L.Faithful) (hD : D.Sound) (hN : D.NoPanics)

theorem noPanic_setDataTransaction (htype : txn.type = .setData) :
    NoPanic (setDataTransaction D d txn) ↔ ∃ payload, txn.setDataPayload = some payload ∧
      ∀ path, decodePath payload.path = .ok path → ∀ val, payload.value = some val →
        NoPanic (if complexType val then D.setAsLink d (dataTreePath ++ path) val
          else D.set d (dataTreePath ++ path) val) := by
  unfold setDataTransaction
  rw [Transaction.noPanic_readPayload_bind htype]
  refine exists_congr fun payload => and_congr_right fun _ => ?_
  rw [noPanic_then (by simp)]
  refine forall_congr' fun path => ?_
  rw [codeErr_eq_ok]
  refine imp_congr_right fun _ => ?_
  rw [noPanic_then (by simp)]
  refine forall_congr' fun val => ?_
  rw [codeErr_eq_ok, DagLib.orError_eq_ok_iff, decodePath_treePathForData, noPanic_codeErr]
  rfl

theorem noPanic_setOwnershipTransaction (htype : txn.type = .setOwnership) :
    NoPanic (setOwnershipTransaction D d txn) ↔
      ∃ payload, txn.setOwnershipPayload = some payload ∧ NoPanic
        (D.setAsLink d authenticationsTreePath (authenticationObj payload.authentication)) := by
  unfold setOwnershipTransaction
  rw [Transaction.ensure_of_type htype, codeErr_ok, ok_bind,
    decodePath_treePathForAuthentications, codeErr_ok, ok_bind, noPanic_deref_bind]
  simp only [noPanic_codeErr]

theorem noPanic_stakeTransaction (htype : txn.type = .stake) :
    NoPanic (stakeTransaction D d txn) ↔
      NoPanic (D.setAsLink d stakeTreePath (txn.stakePayload.getD .null)) := by
  unfold stakeTransaction
  rw [Transaction.ensure_of_type htype, codeErr_ok, ok_bind, decodePath_treePathForStake,
    codeErr_ok, ok_bind, noPanic_codeErr]

include hN

/-- A name is resolved first. -/
theorem noPanic_canonicalName_bind {ord : RangeOrder} {did name : String} {requireDefault : Bool}
    {β : Type} {f : TokenName → Except Fault β} :
    NoPanic (canonicalName D ord d did name requireDefault >>= f) ↔
      ∀ tokenName, canonicalTokenName D ord d did name requireDefault = .ok tokenName →
        NoPanic (f tokenName) := by
  rw [noPanic_then (noPanic_canonicalName hN ord d did name requireDefault)]
  simp only [canonicalName, codeErr_eq_ok]

include hL hD

/-- **A transactor returns if and only if what it takes for granted is there.** -/
theorem noPanic_transactor {ranges : Ranges} {did : String} :
    NoPanic (transactor D ranges did d txn) ↔ txn.Runs D ranges did d := by
  unfold transactor Transaction.Runs
  cases htype : txn.type with
  | setData => exact noPanic_setDataTransaction htype
  | setOwnership => exact noPanic_setOwnershipTransaction htype
  | stake => exact noPanic_stakeTransaction htype
  | establishToken =>
    simp only [tokenTransactor, htype]
    unfold establishTokenTransaction
    rw [Transaction.noPanic_readPayload_bind htype]
    refine exists_congr fun payload => and_congr_right fun _ => ?_
    rw [noPanic_canonicalName_bind hN]
    refine forall_congr' fun tokenName => imp_congr_right fun _ => ?_
    rw [noPanic_then (noPanic_codeErr.mpr (noPanic_tokenExists hN _)), Bool.forall_bool]
    simp only [codeErr_eq_ok, if_true, noPanic_coded, implies_true, and_true,
      Bool.false_eq_true, if_false, noPanic_codeErr]
    exact imp_congr_right fun _ => noPanic_establishToken hL hD hN
  | mintToken =>
    simp only [tokenTransactor, htype]
    unfold mintTokenTransaction
    rw [Transaction.noPanic_readPayload_bind htype]
    refine exists_congr fun payload => and_congr_right fun _ => ?_
    rw [noPanic_canonicalName_bind hN]
    refine forall_congr' fun tokenName => imp_congr_right fun _ => ?_
    exact noPanic_codeErr.trans (noPanic_mintToken hL hD hN)
  | sendToken =>
    simp only [tokenTransactor, htype]
    unfold sendTokenTransaction
    rw [Transaction.noPanic_readPayload_bind htype]
    refine exists_congr fun payload => and_congr_right fun _ => ?_
    rw [noPanic_canonicalName_bind hN]
    refine forall_congr' fun tokenName => imp_congr_right fun _ => ?_
    exact noPanic_codeErr.trans (noPanic_sendToken hL hD hN)
  | receiveToken =>
    simp only [tokenTransactor, htype]
    unfold receiveTokenTransaction
    rw [Transaction.noPanic_readPayload_bind htype]
    refine exists_congr fun payload => and_congr_right fun _ => ?_
    rw [noPanic_then (noPanic_codeErr.mpr (L.noPanic_cast _))]
    refine forall_congr' fun tipCid => ?_
    rw [codeErr_eq_ok]
    refine imp_congr_right fun htip => ?_
    rw [noPanic_bind, noPanic_getSenderDagFromReceive hN]
    refine and_congr ⟨fun h => h tipCid htip, fun h _ _ => h⟩ ?_
    refine forall_congr' fun senderDag => imp_congr_right fun _ => ?_
    rw [noPanic_guard id, not_not]
    refine imp_congr_right fun _ => ?_
    rw [noPanic_then (noPanic_selectSend hN ranges senderDag), Prod.forall]
    refine forall_congr' fun tokenName => forall_congr' fun send => imp_congr_right fun _ => ?_
    exact noPanic_codeErr.trans (noPanic_receiveToken hL hD hN)

end Transactors

end Tupelo

import Tupelo.Consensus.TransactorFaults
import Tupelo.Sdk.ValidatorFaults
import Tupelo.Signer.ValidateAbr

/-!
# Requests that crash a signer

Requests come from an open topic, and `ValidateAbr` (`signer/gossip/txvalidator.go`) runs the block
validators of `sdk/gossip/types/validators.go` and the transactors on what a request says. Much of
it is a pointer, or is asserted to have a type: a transaction and its payload, the proof of a
receive and its parts, the ownership of a signature, the id of the tree, the lists of its tokens.

Here `ValidateAbr` is put together from the models of these functions: processing the block is no
longer an arbitrary computation but the validators, one after the other, and then the transactors.
`Expected` is what they take for granted of a request, as far as each of them comes, and
`validateAbr_returns_iff` says that a request which lacks any of it, and no other, makes the signer
panic.
-/

namespace Tupelo

open Infra MerkleDag

/-- The registered validators, with what they are generated from. -/
inductive BlockValidator where
  | isOwner
  /-- With the orders in which its calls range over maps. -/
  | isRecipient (ranges : Nat → Ranges)
  | hasBurn (transactionToken : String) (burnAmount : UInt64)

/-! ## `ValidateAbr` -/

/-- `TransactionValidator`, with its notary group and the libraries it calls. -/
structure TransactionValidator (L : Ipld) where
  wire : Wire TransactionPtrs
  dagLib : DagLib L
  graft : GraftableDags (Dag L)
  blockLib : BlockLib TransactionPtrs
  ecdsa : Ecdsa
  crypto : Crypto
  script : Script
  quorumCount : Nat
  verKeys : List (VerKey crypto)
  /-- The pointers to keys that there is memory for, if that is a limit. -/
  room : Option Nat
  /-- The validators of the group. -/
  groupValidators : List BlockValidator
  /-- The transactions that the group has a transactor for. -/
  transactions : TransactionType → Bool
  /-- The end of `ProcessBlock`: the new tree and the block come into the chain tree. -/
  finish : Dag L → Dag L → BlockWithHeaders TransactionPtrs →
    Except Fault (Processed L × StoreWrapper (Store L.objCid) Cid)

/-- The validators one after the other, up to one that fails or refuses. -/
def runValidators : List (Fueled Fault Bool) → Fueled Fault Bool
  | [] => pure true
  | validator :: validators => do
    let valid ← validator
    if !valid then pure false
    else runValidators validators

namespace TransactionValidator

open GraftableDags (finished)

variable {L : Ipld} (V : TransactionValidator L)

def proofVerifier (prf : Proof) : Except Fault Bool :=
  Proof.verify V.crypto L V.script prf V.quorumCount V.verKeys V.room

def blockValidator (fuel : Nat) (tree : Dag L) (block : BlockWithHeaders TransactionPtrs) :
    BlockValidator → Fueled Fault Bool
  | .isOwner => isOwner V.blockLib V.ecdsa V.crypto V.script V.graft fuel tree block
  | .isRecipient ranges =>
    finished (isTokenRecipient V.dagLib ranges tree block.transactions)
  | .hasBurn transactionToken burnAmount =>
    finished (hasBurn transactionToken burnAmount block.transactions)

/-- `blockValidators`: those of the group, and the one of proofs. -/
def blockValidators (fuel : Nat) (tree : Dag L) (block : BlockWithHeaders TransactionPtrs) :
    List (Fueled Fault Bool) :=
  V.groupValidators.map (V.blockValidator fuel tree block) ++
    [finished (hasValidProof L V.proofVerifier block.transactions)]

/-- The transactors one after the other, from the transaction at position `i`. -/
def runTransactors (ranges : Nat → Ranges) (did : String) :
    Nat → Dag L → TransactionPtrs → Except Fault (Dag L)
  | _, tree, [] => .ok tree
  | i, tree, t :: txns => do
    let txn ← deref t
    if V.transactions txn.type then
      let newTree ← transactor V.dagLib (ranges i) did tree txn
      runTransactors ranges did (i + 1) newTree txns
    else .error (.error "no transactor for the type of the transaction")

/-- `ChainTree.ProcessBlock` up to the new tree. There is none for a block that is not valid. -/
def processBlock (fuel : Nat) (ranges : Nat → Ranges) (did : String) (tree : Dag L)
    (block : BlockWithHeaders TransactionPtrs) : Fueled Fault (Option (Dag L)) := do
  let valid ← runValidators (V.blockValidators fuel tree block)
  if !valid then pure none
  else finished do
    let oldTree ← DagLib.orError "error getting tree" (treeOf tree)
    let newTree ← V.runTransactors ranges did 0 oldTree block.transactions
    return some newTree

def validateAbr (fuel : Nat) (ranges : Nat → Ranges) (ord : MapOrder) (abr : AddBlockRequest) :
    Fueled Fault (Option (Cid × List (Obj Cid))) := do
  let (block, tree) ← finished (requestedTree L V.wire abr)
  let rootValid ← finished (checkRoot L V.wire abr tree)
  if !rootValid then pure none
  else
    -- the id of the tree is that of the request, by the check of the root
    match ← V.processBlock fuel ranges (V.wire.string abr.objectId) tree block with
    | none => pure none
    | some newTree => finished do
      let (processed, tracker) ← V.finish tree newTree block
      acceptedTip ord abr tracker processed

end TransactionValidator

/-! ## What a request has to have -/

section Reads

variable {L : Ipld}

/-- No transaction of the block is nil. -/
def NoneNil (txns : TransactionPtrs) : Prop := ∀ t ∈ txns, ∃ txn, t = some txn

/-- What `isTokenBurn` reads from: the transaction and, of a send, the payload. -/
def BurnRead (t : Option Transaction) : Prop :=
  ∃ txn, t = some txn ∧ (txn.type = .sendToken → ∃ payload, txn.sendTokenPayload = some payload)

/--
What `IsTokenRecipient` takes for granted of a receive: its payload, a leaf, and, once a send is
selected, that the id of the tree is a string.
-/
def RecipientRead (D : DagLib L) (ranges : Ranges) (id : Obj Cid)
    (rt : Option ReceiveTokenPayload) : Prop :=
  ∃ payload, rt = some payload ∧ (∀ tip, L.cast payload.tip = .ok tip → payload.leaves ≠ []) ∧
    ∀ senderDag, getSenderDagFromReceive D payload = .ok senderDag →
      ∀ selected, selectSend D ranges senderDag = .ok selected → ∃ did, id = .str did

end Reads

namespace TransactionValidator

variable {L : Ipld} (V : TransactionValidator L)

/-- What `HasValidProof` takes for granted of a receive: its payload, and a proof with its parts. -/
def ProofRead (rt : Option ReceiveTokenPayload) : Prop :=
  ∃ payload, rt = some payload ∧ ∀ tip, L.cast payload.tip = .ok tip →
    ∃ p, payload.proof = some p ∧ (L.cast p.tip = .ok tip →
      p.Checked L V.script V.quorumCount V.verKeys V.room)

/-- What a validator of the group takes for granted, up to where it ends. -/
def Reads (fuel : Nat) (tree : Dag L) (block : BlockWithHeaders TransactionPtrs) :
    BlockValidator → Prop
  | .isOwner => ∀ headers, V.blockLib.toType block.headers = .ok headers →
    V.graft.new tree = .ok () → ∀ addrs, (V.graft.resolveOwners fuel tree).Ends (.ok addrs) →
      UpTo (fun addr => isBlockSignedBy V.blockLib V.ecdsa V.crypto V.script block addr = .ok false)
        (SignatureRead V.blockLib block) addrs
  | .isRecipient ranges => NoneNil block.transactions ∧
    ∀ id rest, V.dagLib.resolve tree ["id"] = .ok (id, rest) →
      UpTo (fun rt => isForRecipient V.dagLib (ranges rt.2) id rt.1 = .ok true)
        (fun rt => RecipientRead V.dagLib (ranges rt.2) id rt.1)
        (receivePayloads block.transactions).zipIdx
  | .hasBurn transactionToken burnAmount =>
    UpTo (fun t => isTokenBurn transactionToken burnAmount t = .ok false) BurnRead
      block.transactions

/-- What the transactors take for granted, up to the first that fails. -/
def TransactorsRun (ranges : Nat → Ranges) (did : String) : Nat → Dag L → TransactionPtrs → Prop
  | _, _, [] => True
  | i, tree, t :: txns => ∃ txn, t = some txn ∧ (V.transactions txn.type →
    txn.Runs V.dagLib (ranges i) did tree ∧
      ∀ newTree, transactor V.dagLib (ranges i) did tree txn = .ok newTree →
        TransactorsRun ranges did (i + 1) newTree txns)

/-- What is taken for granted of a block, by the transactors only if it is valid. -/
structure BlockRead (fuel : Nat) (ranges : Nat → Ranges) (did : String) (tree : Dag L)
    (block : BlockWithHeaders TransactionPtrs) : Prop where
  validators : UpTo (fun v => (V.blockValidator fuel tree block v).Ends (.ok true))
    (V.Reads fuel tree block) V.groupValidators
  proofs : (∀ v ∈ V.groupValidators, (V.blockValidator fuel tree block v).Ends (.ok true)) →
    NoneNil block.transactions ∧ UpTo (fun rt => hasProof L V.proofVerifier rt = .ok true)
      V.ProofRead (receivePayloads block.transactions)
  transactors : (runValidators (V.blockValidators fuel tree block)).Ends (.ok true) →
    ∀ inner, treeOf tree = some inner → V.TransactorsRun ranges did 0 inner block.transactions

/-- What a signer takes for granted of a request whose root has passed the checks. -/
def Expected (fuel : Nat) (ranges : Nat → Ranges) (abr : AddBlockRequest) : Prop :=
  ∀ block tree, requestedTree L V.wire abr = .ok (block, tree) →
    checkRoot L V.wire abr tree = .ok true →
      V.BlockRead fuel ranges (V.wire.string abr.objectId) tree block

/--
What is assumed of the libraries. Their calls return, apart from writes through something else than
maps; a DAG has what it is told; keys that were written can be read; a signature without bytes has
no key; and no tree is owned through endlessly many others.
-/
structure Reliable : Prop where
  decode : ∀ b, NoPanic (V.wire.decode b)
  decodeBlock : ∀ b, NoPanic (V.wire.decodeBlock b)
  sound : V.dagLib.Sound
  noPanics : V.dagLib.NoPanics
  toType : ∀ o, NoPanic (V.blockLib.toType o)
  objToHash : ∀ b, NoPanic (V.blockLib.objToHash b)
  sigToPub : ∀ hsh key, V.ecdsa.sigToPub hsh [] ≠ .ok key
  readable : V.crypto.Readable
  new : ∀ d, NoPanic (V.graft.new d)
  id : ∀ d, NoPanic (V.graft.id d)
  globalResolve : ∀ d path, NoPanic (V.graft.globalResolve d path)
  finishes : ∀ d, ∃ fuel, (V.graft.resolveOwners fuel d).Finishes
  finish : ∀ tree newTree block, NoPanic (V.finish tree newTree block)

end TransactionValidator

/-! ## The validators of transactions -/

section Validators

variable {α : Type} {x : Except Fault α}

@[simp] theorem noPanic_recodeErr {code : Nat} {memo : String → String} :
    NoPanic (recodeErr code memo x) ↔ NoPanic x := by
  match x with
  | .ok _ => exact Iff.rfl
  | .error (.panic _) => exact Iff.rfl
  | .error (.coded _ _) => simp [recodeErr]
  | .error (.error _) => simp [recodeErr]

theorem noPanic_getReceiveTokenPayloads : ∀ {txns : TransactionPtrs},
    NoPanic (getReceiveTokenPayloads txns) ↔ NoneNil txns
  | [] => iff_of_true (noPanic_ok _) (List.forall_mem_nil _)
  | t :: txns => by
    constructor
    · intro h
      obtain ⟨txn, ht, h⟩ := noPanic_deref_bind.mp h
      refine List.forall_mem_cons.mpr ⟨⟨txn, ht⟩, noPanic_getReceiveTokenPayloads.mp ?_⟩
      by_cases htype : txn.type = .receiveToken
      · rw [if_pos htype, Transaction.ensure_of_type htype, codeErr_ok, ok_bind] at h
        exact (noPanic_bind.mp h).1
      · rwa [if_neg htype] at h
    · intro h
      rw [getReceiveTokenPayloads_eq h]
      exact noPanic_ok _

/-- A validator that looks at the receives of a block, if there are any. -/
theorem noPanic_receives {code : Nat} {memo : String → String} {txns : TransactionPtrs}
    {f : List (Option ReceiveTokenPayload) → Except Fault Bool} (hf : NoPanic (f [])) :
    NoPanic (do
      let receiveTokens ← recodeErr code memo (getReceiveTokenPayloads txns)
      if receiveTokens.isEmpty then return true
      else f receiveTokens) ↔ NoneNil txns ∧ NoPanic (f (receivePayloads txns)) := by
  rw [noPanic_bind, noPanic_recodeErr, noPanic_getReceiveTokenPayloads]
  refine and_congr_right fun htxns => ?_
  simp only [getReceiveTokenPayloads_eq htxns, recodeErr_eq_ok, Except.ok.injEq, forall_eq']
  cases hrts : receivePayloads txns with
  | nil => exact iff_of_true (noPanic_pure _) hf
  | cons rt rts => rfl

theorem noPanic_isTokenBurn {tokenName : String} {burnAmount : UInt64} {t : Option Transaction} :
    NoPanic (isTokenBurn tokenName burnAmount t) ↔ BurnRead t := by
  unfold isTokenBurn BurnRead
  rw [noPanic_deref_bind]
  refine exists_congr fun txn => and_congr_right fun _ => ?_
  refine avoids_ite.trans ((and_iff_left fun _ => noPanic_pure _).trans ?_)
  refine imp_congr_right fun _ => noPanic_deref_bind.trans ?_
  exact exists_congr fun payload => and_iff_left (noPanic_pure _)

variable {L : Ipld} {D : DagLib L}

theorem noPanic_isForRecipient (hN : D.NoPanics) {ranges : Ranges} {id : Obj Cid}
    {rt : Option ReceiveTokenPayload} :
    NoPanic (isForRecipient D ranges id rt) ↔ RecipientRead D ranges id rt := by
  unfold isForRecipient RecipientRead
  rw [noPanic_deref_bind]
  refine exists_congr fun payload => and_congr_right fun _ => ?_
  rw [noPanic_bind, noPanic_getSenderDagFromReceive hN]
  refine and_congr_right fun _ => forall_congr' fun senderDag => imp_congr_right fun _ => ?_
  rw [noPanic_then (noPanic_selectSend hN ranges senderDag)]
  refine forall_congr' fun selected => imp_congr_right fun _ => ?_
  cases id with
  | str did => exact iff_of_true (noPanic_pure _) ⟨did, rfl⟩
  | _ => exact iff_of_false (not_noPanic_panic _) (by simp)

theorem noPanic_isTokenRecipient (hN : D.NoPanics) {ranges : Nat → Ranges} {tree : Dag L}
    {txns : TransactionPtrs} :
    NoPanic (isTokenRecipient D ranges tree txns) ↔ NoneNil txns ∧
      ∀ id rest, D.resolve tree ["id"] = .ok (id, rest) →
        UpTo (fun rt => isForRecipient D (ranges rt.2) id rt.1 = .ok true)
          (fun rt => RecipientRead D (ranges rt.2) id rt.1) (receivePayloads txns).zipIdx := by
  have hid : NoPanic (codeErr errUnknown ("error: " ++ ·) (D.resolve tree ["id"])) :=
    noPanic_codeErr.mpr (hN.resolve tree ["id"])
  refine (noPanic_receives (hid.bind fun _ _ => noPanic_pure true)).trans ?_
  refine and_congr_right fun _ => (noPanic_then hid).trans (Prod.forall.trans ?_)
  refine forall_congr' fun id => forall_congr' fun rest => ?_
  rw [codeErr_eq_ok]
  refine imp_congr_right fun _ => avoids_allM.trans ?_
  exact upTo_congr fun rt => noPanic_isForRecipient hN

namespace TransactionValidator

variable {V : TransactionValidator L}

theorem noPanic_hasProof (hC : V.crypto.Readable) {rt : Option ReceiveTokenPayload} :
    NoPanic (hasProof L V.proofVerifier rt) ↔ V.ProofRead rt := by
  have hcast : ∀ memo b, NoPanic (codeErr errInvalidTip memo (L.cast b)) :=
    fun _ b => noPanic_codeErr.mpr (L.noPanic_cast b)
  unfold hasProof ProofRead
  rw [noPanic_deref_bind]
  refine exists_congr fun payload => and_congr_right fun _ => ?_
  rw [noPanic_then (hcast _ _)]
  refine forall_congr' fun tip => ?_
  rw [codeErr_eq_ok]
  refine imp_congr_right fun _ => noPanic_deref_bind.trans ?_
  refine exists_congr fun p => and_congr_right fun _ => ?_
  rw [noPanic_then (hcast _ _)]
  simp only [codeErr_eq_ok]
  have hverify : NoPanic (recodeErr errUnknown ("error verifying proof: " ++ ·)
      (V.proofVerifier p)) ↔ p.Checked L V.script V.quorumCount V.verKeys V.room :=
    noPanic_recodeErr.trans (noPanic_verify hC)
  constructor
  · intro h htip
    have hp := h tip htip
    rwa [if_neg (not_not.mpr rfl), hverify] at hp
  · intro h proofTip hproofTip
    refine Avoids.ite (fun _ => noPanic_pure _) fun heq => hverify.mpr (h ?_)
    rw [hproofTip, not_not.mp heq]

theorem noPanic_hasValidProof (hC : V.crypto.Readable) {txns : TransactionPtrs} :
    NoPanic (hasValidProof L V.proofVerifier txns) ↔ NoneNil txns ∧
      UpTo (fun rt => hasProof L V.proofVerifier rt = .ok true) V.ProofRead
        (receivePayloads txns) := by
  refine (noPanic_receives (noPanic_pure true)).trans (and_congr_right fun _ => ?_)
  exact avoids_allM.trans (upTo_congr fun rt => noPanic_hasProof hC)

end TransactionValidator

end Validators

/-! ## The whole validation -/

theorem avoids_runValidators : ∀ {validators : List (Fueled Fault Bool)},
    Fueled.Avoids Fault.IsPanic (runValidators validators) ↔
      UpTo (fun v => v.Ends (.ok true)) (Fueled.Avoids Fault.IsPanic) validators
  | [] => iff_of_true (Fueled.avoids_pure _) trivial
  | v :: vs => by
    rw [runValidators, Fueled.avoids_bind, UpTo, ← avoids_runValidators, Bool.forall_bool]
    exact and_congr_right fun _ => and_iff_right fun _ => Fueled.avoids_pure _

theorem finishes_runValidators : ∀ {validators : List (Fueled Fault Bool)},
    (∀ v ∈ validators, v.Finishes) → (runValidators validators).Finishes
  | [], _ => Fueled.finishes_pure _
  | v :: vs, h => by
    refine (h v List.mem_cons_self).bind fun valid _ => ?_
    cases valid with
    | false => exact Fueled.finishes_pure _
    | true => exact finishes_runValidators fun v' hv' => h v' (List.mem_cons_of_mem _ hv')

theorem RootNode.noPanic_decode (o : Obj Cid) : NoPanic (RootNode.decode o) := by
  cases o with
  | map fields =>
    refine NoPanic.bind ?_ fun _ _ => NoPanic.bind ?_ fun _ _ => noPanic_pure _
    · unfold RootNode.decodeId
      split
      · exact noPanic_ok _
      · exact noPanic_ok _
      · exact noPanic_error _
    · unfold RootNode.decodeHeight
      split
      · exact noPanic_ok _
      · exact noPanic_ok _
      · exact noPanic_error _
  | _ => exact noPanic_error _

theorem noPanic_acceptedTip {L : Ipld} (ord : MapOrder) (abr : AddBlockRequest)
    (tracker : StoreWrapper (Store L.objCid) Cid) (processed : Processed L) :
    NoPanic (acceptedTip ord abr tracker processed) := by
  unfold acceptedTip
  split
  · exact noPanic_error _
  · have hnodes : NoPanic (tracker.newNodes (memoryStore L) ord) := by
      refine Avoids.mapM fun c _ => ?_
      split
      · exact noPanic_ok _
      · exact noPanic_error _
    have hrest : ∀ newTip, NoPanic (if processed.tip ≠ newTip then
          (.error (.error "error casting abr new tip: %!w(<nil>)") : Except Fault _)
        else do
          let newNodes ← wrapErr "error getting new nodes: "
            (tracker.newNodes (memoryStore L) ord)
          return some (newTip, newNodes)) := by
      intro newTip
      refine Avoids.ite (fun _ => noPanic_error _) fun _ => ?_
      exact NoPanic.bind (noPanic_wrapErr.mpr hnodes) fun _ _ => noPanic_pure _
    refine Avoids.ite (fun _ => noPanic_ok _) fun _ => Avoids.ite (fun _ => ?_) fun _ => ?_
    · exact NoPanic.bind (noPanic_wrapErr.mpr (L.noPanic_cast _)) fun newTip _ => hrest newTip
    · exact NoPanic.bind (noPanic_ok _) fun newTip _ => hrest newTip

namespace TransactionValidator

open GraftableDags (finished avoids_finished avoids_finished_bind finishes_finished)

variable {L : Ipld} {V : TransactionValidator L} {abr : AddBlockRequest}
  {block : BlockWithHeaders TransactionPtrs} {tree : Dag L}
variable {fuel : Nat} {ranges : Nat → Ranges}

namespace Reliable

theorem noPanic_requestedTree (hV : V.Reliable) (abr : AddBlockRequest) :
    NoPanic (requestedTree L V.wire abr) := by
  refine NoPanic.bind (noPanic_wrapErr.mpr (L.noPanic_cast _)) fun _ _ => ?_
  refine NoPanic.bind (noPanic_wrapErr.mpr (hV.decodeBlock _)) fun _ _ => ?_
  refine NoPanic.bind (noPanic_wrapErr.mpr ?_) fun _ _ => noPanic_pure _
  exact Avoids.mapM fun b _ => hV.decode b

theorem noPanic_checkRoot (abr : AddBlockRequest) (tree : Dag L) :
    NoPanic (checkRoot L V.wire abr tree) := by
  unfold checkRoot
  split
  · exact noPanic_error _
  · exact NoPanic.bind (noPanic_wrapErr.mpr (RootNode.noPanic_decode _)) fun _ _ => noPanic_pure _

theorem avoids_isOwner (hV : V.Reliable) : Fueled.Avoids Fault.IsPanic
    (isOwner V.blockLib V.ecdsa V.crypto V.script V.graft fuel tree block) ↔
      V.Reads fuel tree block .isOwner := by
  have howners : Fueled.Avoids Fault.IsPanic (codedOwners V.graft fuel tree) := by
    intro r hr
    obtain ⟨r', hr', rfl⟩ := Option.map_eq_some_iff.mp hr
    exact noPanic_codeErr.mpr (GraftableDags.avoids_resolveOwnersRecursively hV.new hV.id
      hV.globalResolve fuel tree [] r' hr')
  unfold isOwner Reads
  rw [avoids_finished_bind, and_iff_right (noPanic_codeErr.mpr (hV.toType _))]
  refine forall_congr' fun headers => ?_
  rw [codeErr_eq_ok, avoids_finished_bind, and_iff_right (noPanic_codeErr.mpr (hV.new tree))]
  refine imp_congr_right fun _ => (Unique.forall_iff (α := Unit)).trans ?_
  rw [codeErr_eq_ok, Fueled.avoids_bind, and_iff_right howners]
  refine imp_congr_right fun _ => forall_congr' fun addrs => ?_
  rw [codedOwners_ends, avoids_finished, signedByOne, NoPanic, avoids_anyM]
  simp only [codeErr_eq_ok]
  refine imp_congr_right fun _ => upTo_congr fun addr => noPanic_codeErr.trans ?_
  exact noPanic_isBlockSignedBy hV.sigToPub hV.toType hV.objToHash

theorem finishes_isOwner (h : (V.graft.resolveOwners fuel tree).Finishes) :
    (isOwner V.blockLib V.ecdsa V.crypto V.script V.graft fuel tree block).Finishes := by
  refine (finishes_finished _).bind fun _ _ => (finishes_finished _).bind fun _ _ => ?_
  refine Fueled.Finishes.bind ?_ fun _ _ => finishes_finished _
  obtain ⟨r, hr⟩ := h
  exact ⟨_, Option.map_eq_some_iff.mpr ⟨r, hr, rfl⟩⟩

theorem avoids_blockValidator (hV : V.Reliable) (v : BlockValidator) :
    Fueled.Avoids Fault.IsPanic (V.blockValidator fuel tree block v) ↔
      V.Reads fuel tree block v := by
  cases v with
  | isOwner => exact hV.avoids_isOwner
  | isRecipient ranges => exact avoids_finished.trans (noPanic_isTokenRecipient hV.noPanics)
  | hasBurn transactionToken burnAmount =>
    exact avoids_finished.trans (avoids_anyM.trans (upTo_congr fun t => noPanic_isTokenBurn))

theorem avoids_blockValidators (hV : V.Reliable) :
    Fueled.Avoids Fault.IsPanic (runValidators (V.blockValidators fuel tree block)) ↔
      UpTo (fun v => (V.blockValidator fuel tree block v).Ends (.ok true))
        (V.Reads fuel tree block) V.groupValidators ∧
      ((∀ v ∈ V.groupValidators, (V.blockValidator fuel tree block v).Ends (.ok true)) →
        NoneNil block.transactions ∧ UpTo (fun rt => hasProof L V.proofVerifier rt = .ok true)
          V.ProofRead (receivePayloads block.transactions)) := by
  rw [blockValidators, avoids_runValidators, upTo_append, upTo_map, List.forall_mem_map]
  refine and_congr (upTo_congr hV.avoids_blockValidator) (imp_congr_right fun _ => ?_)
  refine (and_iff_left fun _ => trivial).trans (avoids_finished.trans ?_)
  exact noPanic_hasValidProof hV.readable

theorem finishes_blockValidators (h : (V.graft.resolveOwners fuel tree).Finishes) :
    ∀ v ∈ V.blockValidators fuel tree block, v.Finishes := by
  intro v hv
  rcases List.mem_append.mp hv with hv | hv
  · obtain ⟨validator, -, rfl⟩ := List.mem_map.mp hv
    cases validator with
    | isOwner => exact finishes_isOwner h
    | isRecipient ranges => exact finishes_finished _
    | hasBurn transactionToken burnAmount => exact finishes_finished _
  · obtain rfl := List.mem_singleton.mp hv
    exact finishes_finished _

theorem noPanic_runTransactors (hV : V.Reliable) (hL : L.Faithful) {did : String} :
    ∀ {i : Nat} {tree : Dag L} {txns : TransactionPtrs},
      NoPanic (V.runTransactors ranges did i tree txns) ↔ V.TransactorsRun ranges did i tree txns
  | _, _, [] => iff_of_true (noPanic_ok _) trivial
  | i, tree, t :: txns => by
    rw [runTransactors, noPanic_deref_bind, TransactorsRun]
    refine exists_congr fun txn => and_congr_right fun _ => ?_
    refine avoids_ite.trans ((and_iff_left fun _ => noPanic_error _).trans ?_)
    refine imp_congr_right fun _ => noPanic_bind.trans (and_congr ?_ ?_)
    · exact noPanic_transactor hL hV.sound hV.noPanics
    · exact forall_congr' fun newTree => imp_congr_right fun _ => hV.noPanic_runTransactors hL

theorem avoids_processBlock (hV : V.Reliable) (hL : L.Faithful) {did : String} :
    Fueled.Avoids Fault.IsPanic (V.processBlock fuel ranges did tree block) ↔
      V.BlockRead fuel ranges did tree block := by
  have htransactors : Fueled.Avoids Fault.IsPanic (finished do
      let oldTree ← DagLib.orError "error getting tree" (treeOf tree)
      let newTree ← V.runTransactors ranges did 0 oldTree block.transactions
      return some newTree) ↔
        ∀ inner, treeOf tree = some inner →
          V.TransactorsRun ranges did 0 inner block.transactions := by
    rw [avoids_finished, noPanic_then noPanic_orError]
    refine forall_congr' fun inner => ?_
    rw [DagLib.orError_eq_ok_iff, noPanic_bind, and_iff_left fun _ _ => noPanic_pure _,
      hV.noPanic_runTransactors hL]
  rw [processBlock, Fueled.avoids_bind, hV.avoids_blockValidators, Bool.forall_bool]
  refine Iff.trans (and_congr_right fun _ => ?_)
    ⟨fun h => ⟨h.1.1, h.1.2, h.2⟩, fun h => ⟨⟨h.validators, h.proofs⟩, h.transactors⟩⟩
  refine (and_iff_right fun _ => Fueled.avoids_pure _).trans (imp_congr_right fun _ => ?_)
  exact htransactors

theorem finishes_processBlock (h : (V.graft.resolveOwners fuel tree).Finishes)
    (ranges : Nat → Ranges) (did : String) :
    (V.processBlock fuel ranges did tree block).Finishes := by
  refine (finishes_runValidators (finishes_blockValidators h)).bind fun valid _ => ?_
  cases valid with
  | false => exact Fueled.finishes_pure _
  | true => exact finishes_finished _

/-- No validator and no transactor panics, and nothing else can. -/
theorem avoids_validateAbr (hV : V.Reliable) (hL : L.Faithful) {ord : MapOrder} :
    Fueled.Avoids Fault.IsPanic (V.validateAbr fuel ranges ord abr) ↔
      V.Expected fuel ranges abr := by
  unfold validateAbr Expected
  rw [avoids_finished_bind, and_iff_right (hV.noPanic_requestedTree abr), Prod.forall]
  refine forall_congr' fun block => forall_congr' fun tree => imp_congr_right fun _ => ?_
  rw [avoids_finished_bind, and_iff_right (noPanic_checkRoot abr tree), Bool.forall_bool]
  refine (and_iff_right fun _ => Fueled.avoids_pure _).trans (imp_congr_right fun _ => ?_)
  rw [Bool.not_true, if_neg Bool.false_ne_true, Fueled.avoids_bind, hV.avoids_processBlock hL]
  refine and_iff_left fun newTree _ => ?_
  cases newTree with
  | none => exact Fueled.avoids_pure _
  | some newTree =>
    refine avoids_finished.mpr ((hV.finish tree newTree block).bind ?_)
    exact fun r _ => noPanic_acceptedTip ord abr r.2 r.1

/-- The validation needs fuel for the owners of the tree in the request, and for nothing else. -/
theorem finishes_validateAbr (hV : V.Reliable) (abr : AddBlockRequest) (ranges : Nat → Ranges)
    (ord : MapOrder) : ∃ fuel, (V.validateAbr fuel ranges ord abr).Finishes := by
  obtain ⟨fuel, hfuel⟩ : ∃ fuel, ∀ block tree, requestedTree L V.wire abr = .ok (block, tree) →
      (V.graft.resolveOwners fuel tree).Finishes := by
    cases htree : requestedTree L V.wire abr with
    | error e => exact ⟨0, fun _ _ h => by cases h⟩
    | ok r =>
      obtain ⟨fuel, hfuel⟩ := hV.finishes r.2
      refine ⟨fuel, fun block tree h => ?_⟩
      rwa [Except.ok.inj h] at hfuel
  refine ⟨fuel, (finishes_finished _).bind ?_⟩
  rintro ⟨block, tree⟩ htree
  refine (finishes_finished _).bind fun rootValid _ => ?_
  cases rootValid with
  | false => exact Fueled.finishes_pure _
  | true =>
    have howners := hfuel block tree (Option.some.inj htree)
    refine (finishes_processBlock howners ranges _).bind fun newTree _ => ?_
    cases newTree with
    | none => exact Fueled.finishes_pure _
    | some newTree => exact finishes_finished _

end Reliable

/--
**What is validated without a panic.**

Let the libraries be reliable, whatever validators the group has and in whatever order maps are
ranged over. `ValidateAbr` comes to an end on every request. It returns, with a new tip, with an
error or without either for a request that is not valid, if the request is as expected; and on
any other request a validator or a transactor panics.
-/
theorem validateAbr_returns_iff (hL : L.Faithful) (hV : V.Reliable) (ranges : Nat → Ranges)
    (ord : MapOrder) :
    (∃ fuel, (V.validateAbr fuel ranges ord abr).Finishes) ∧
      ∀ fuel, (∀ r, (V.validateAbr fuel ranges ord abr).Ends r → NoPanic r) ↔
        V.Expected fuel ranges abr :=
  ⟨hV.finishes_validateAbr abr ranges ord, fun _ => hV.avoids_validateAbr hL⟩

end TransactionValidator

/-! ## Requests -/

namespace ValidationExample

open OwnerExample (ecdsa script signature)

noncomputable abbrev L : Ipld := Ipld.inFull

/-- The signatures are named in the headers; the one without an ownership is an empty message. -/
def headers : Obj Cid → StandardHeaders
  | .str "signed" => signedBy (signature [1, 0])
  | .str "empty" => signedBy { ownership := none, signers := [], signature := [], preImage := "" }
  | _ => { signatures := ∅ }
where
  signedBy (sig : Signature) : StandardHeaders :=
    { signatures := (∅ : GoMap String (Option Signature)).insert "0x1" (some sig) }

/-- The send of one token, in a tree that is sent along. -/
def send : Obj Cid := TokenSend.toObj { id := "s", amount := 1, destination := "did:tupelo:0x1" }

noncomputable def record : Obj Cid := .map [("sends", .list [.link (L.objCid send)])]

noncomputable def sender : Obj Cid :=
  .map [("tree", .map [("_tupelo", .map [("tokens", .map
    [("did:tupelo:0x2:coin", .link (L.objCid record))])])])]

noncomputable def receive (leaves : List (Obj Cid)) : Transaction where
  type := .receiveToken
  receiveTokenPayload := some
    { sendTokenTransactionId := "s", tip := (L.objCid sender).bytes, proof := none
      leaves := leaves.map some }

/-- A tree with a token whose mints are no list, under a root with an id and under one without. -/
noncomputable def inner : Obj Cid :=
  .map [("_tupelo", .map [("tokens", .map [("did:tupelo:0x1:coin", .map
    [("monetaryPolicy", .link (L.objCid (TokenMonetaryPolicy.toObj { maximum := 0 }))),
      ("mints", .str "none")])])])]

noncomputable def nodes : List (Obj Cid) :=
  [inner, .map [("id", .str "did:tupelo:0x1"), ("tree", .link (L.objCid inner))],
    .map [("tree", .link (L.objCid inner))], TokenMonetaryPolicy.toObj { maximum := 0 }]

def setData : Transaction where
  type := .setData
  setDataPayload := some { path := "a", value := some (.uint 1) }

def mint : Transaction where
  type := .mintToken
  mintTokenPayload := some { name := "coin", amount := 1 }

def block (headers : String) (transactions : TransactionPtrs) : BlockWithHeaders TransactionPtrs :=
  { height := 0, previousTip := none, transactions, headers := .str headers }

/-- What can be read from a payload, which is a number. -/
noncomputable def blocks : List (BlockWithHeaders TransactionPtrs) :=
  [block "signed" [some setData],
    block "empty" [some setData],
    block "signed" [none],
    block "signed" [some { type := .sendToken }],
    block "signed" [some (receive [])],
    block "signed" [some (receive [sender, record, send])],
    block "signed" [some mint],
    block "signed" [some { type := .setData }],
    block "signed" [some { type := .setOwnership }],
    block "signed" [some { type := .establishToken }],
    block "signed" [some { type := .mintToken }],
    block "signed" [some { type := .receiveToken }]]

def item {β : Type} (items : List β) : Bytes → Except Fault β
  | [i] => DagLib.orError "not CBOR" items[i.toNat]?
  | _ => .error (.error "not CBOR")

noncomputable def validator (groupValidators : List BlockValidator) : TransactionValidator L where
  wire :=
    { rawData := fun _ => [], decode := item nodes, wrapBlock := fun _ => []
      decodeBlock := item blocks, bytes := fun _ => []
      string := fun b => if b = [] then "" else "did:tupelo:0x1" }
  dagLib := DagLib.std L
  graft :=
    { new := fun _ => .ok (), id := fun _ => .ok (.str "did:tupelo:0x1")
      globalResolve := fun _ _ => .ok .nil, pathsContainPrefix := fun _ _ => false
      sprint := Resolved.goType }
  blockLib := { toType := fun o => .ok (headers o), objToHash := fun _ => .ok [1, 2, 3] }
  ecdsa := ecdsa
  crypto := { OwnerExample.crypto with unmarshal := fun _ => some () }
  script := script
  quorumCount := 1
  verKeys := []
  room := none
  groupValidators := groupValidators
  transactions := fun _ => true
  finish := fun _ newTree _ => .ok
    ({ valid := true, err := none, tip := L.objCid (.map [("tree", .link newTree.tip)])
       isCid_tip := Ipld.inFull_faithful.isCid_cidOf _ }, wrapStoreForRefCounting newTree.store)

/-- A request for the first block of a tree, without any state. -/
noncomputable def request (i : UInt8) : AddBlockRequest :=
  { objectId := [1], previousTip := (L.objCid .null).bytes, newTip := [], height := 0
    payload := [i], state := [] }

/-- A request for a later block, with three nodes. -/
noncomputable def laterRequest (objectId : Bytes) (i root : UInt8) : AddBlockRequest :=
  { objectId, previousTip := ((nodes[root.toNat]?.map fun o => (L.objCid o).bytes).getD [])
    newTip := [], height := 1, payload := [i], state := [[0], [3], [root]] }

noncomputable def validate (groupValidators : List BlockValidator) (abr : AddBlockRequest) :
    Fueled Fault (Option (Cid × List (Obj Cid))) :=
  (validator groupValidators).validateAbr 1 (fun _ => Ranges.plain) MapOrder.plain abr

/-- The message, if the computation ends with a panic. -/
def panicOf {β : Type} : Option (Except Fault β) → Option String
  | some (.error (.panic msg)) => some msg
  | _ => none

theorem ends_of_panicOf {β : Type} {x : Fueled Fault β} {msg : String}
    (h : panicOf x.run = some msg) : x.Ends (.error (.panic msg)) := by
  unfold panicOf at h
  split at h
  · next msg' hmsg => exact Option.some.inj h ▸ hmsg
  · cases h

/-- What the runtime says of a nil pointer. -/
def nilPointer : String := "invalid memory address or nil pointer dereference"

/-- Requests that lack one thing each, with validators that look for it, and what comes of it. -/
noncomputable def incomplete : List (List BlockValidator × AddBlockRequest × String) :=
  [ -- an entry in the headers without an ownership
    ([.isOwner], request 1, nilPointer),
    -- a nil transaction
    ([.isOwner], request 2, nilPointer),
    -- a send without a payload
    ([.isOwner, .hasBurn "coin" 1], request 3, nilPointer),
    -- a receive without leaves
    ([.isOwner, .isRecipient fun _ => Ranges.plain], request 4, "index out of range"),
    -- a receive without a proof
    ([.isOwner, .isRecipient fun _ => Ranges.plain], request 5, nilPointer),
    -- a tree without an id
    ([.isOwner, .isRecipient fun _ => Ranges.plain], laterRequest [] 5 2,
      "interface conversion: interface is <nil>, not string"),
    -- a list of mints that is a string
    ([.isOwner], laterRequest [1] 6 1,
      "interface conversion: interface is string, not []interface \x7b\x7d"),
    -- transactions without a payload
    ([.isOwner], request 3, nilPointer),
    ([.isOwner], request 7, nilPointer),
    ([.isOwner], request 8, nilPointer),
    ([.isOwner], request 9, nilPointer),
    ([.isOwner], request 10, nilPointer),
    ([.isOwner], request 11, nilPointer)]

theorem noPanic_item {β : Type} (items : List β) (b : Bytes) : NoPanic (item items b) := by
  unfold item
  split
  · exact noPanic_orError
  · exact noPanic_error _

theorem reliable_validator (groupValidators : List BlockValidator) :
    (validator groupValidators).Reliable where
  decode b := noPanic_item nodes b
  decodeBlock b := noPanic_item blocks b
  sound := DagLib.std_sound L
  noPanics := DagLib.std_noPanics L
  toType _ := noPanic_ok _
  objToHash _ := noPanic_ok _
  sigToPub _ _ h := by cases h
  readable _ _ _ := ⟨(), rfl⟩
  new _ := noPanic_ok _
  id _ := noPanic_ok _
  globalResolve _ _ := noPanic_ok _
  finishes _ := ⟨1, .ok ["0x1"], rfl⟩
  finish _ _ _ := noPanic_ok _

/-- **Each of them crashes the signer**, the first by an empty message in its headers. -/
theorem incomplete_panics : (validator [.isOwner]).Reliable ∧
    (validate [.isOwner] (request 1)).Ends (.error (.panic nilPointer)) ∧
    ∀ e ∈ incomplete, (validate e.1 e.2.1).Ends (.error (.panic e.2.2)) := by
  have hall : incomplete.all (fun e => panicOf (validate e.1 e.2.1).run = some e.2.2) = true := by
    decide +kernel
  have hpanics : ∀ e ∈ incomplete, (validate e.1 e.2.1).Ends (.error (.panic e.2.2)) :=
    fun e he => ends_of_panicOf (of_decide_eq_true (List.all_eq_true.mp hall e he))
  have hfirst := hpanics ([.isOwner], request 1, nilPointer) List.mem_cons_self
  exact ⟨reliable_validator _, hfirst, hpanics⟩

/-- A request as expected, which is accepted, and the first of those that are not. -/
theorem validateAbr_returns_iff_example :
    (validator [.isOwner]).Expected 1 (fun _ => Ranges.plain) (request 0) ∧
    (∃ accepted, (validate [.isOwner] (request 0)).Ends (.ok (some accepted))) ∧
    ¬ (validator [.isOwner]).Expected 1 (fun _ => Ranges.plain) (request 1) := by
  have hreturns (abr : AddBlockRequest) : (∀ r, (validate [.isOwner] abr).Ends r → NoPanic r) ↔
      (validator [.isOwner]).Expected 1 (fun _ => Ranges.plain) abr :=
    (TransactionValidator.validateAbr_returns_iff Ipld.inFull_faithful
      (reliable_validator [.isOwner]) (fun _ => Ranges.plain) MapOrder.plain).2 1
  have haccepted : ((validate [.isOwner] (request 0)).run.bind fun r => r.toOption.join).isSome =
      true := by decide +kernel
  have hpanics : panicOf (validate [.isOwner] (request 1)).run = some nilPointer := by
    decide +kernel
  obtain ⟨accepted, haccepted⟩ := Option.isSome_iff_exists.mp haccepted
  obtain ⟨r, hr, haccepted⟩ := Option.bind_eq_some_iff.mp haccepted
  rw [Option.join_eq_some_iff, toOption_eq_some] at haccepted
  rw [haccepted] at hr
  refine ⟨(hreturns _).mp fun r' hr' => ?_, ⟨accepted, hr⟩, fun hexpected => ?_⟩
  · rw [← Fueled.Ends.unique hr hr']
    exact noPanic_ok _
  · exact not_noPanic_panic _ ((hreturns _).mpr hexpected _ (ends_of_panicOf hpanics))

end ValidationExample

end Tupelo

import Tupelo.Consensus.LedgerSpec
import Tupelo.Infra.MerkleEntry

/-!
# All transactions of a tree

The transactors of the transactions that set data, ownership and stake, next to those of tokens,
and the transactions of a list one after the other.

Each kind of transaction writes below a path of its own (`writes_transactor`).
-/

namespace Tupelo

open Infra MerkleDag

variable {L : Ipld}

/-! ## The transactors -/

/-- `complexType`, of what a value decodes to: maps, slices of anything and nil are complex. -/
def complexType : Obj Cid → Bool
  | .null => true
  | .list _ => true
  | .map _ => true
  | .uint _ => false
  | .str _ => false
  | .link _ => false
  | .other _ => false

/-- `[]string` as it is stored. -/
def authenticationObj (authentication : List String) : Obj Cid :=
  .list (authentication.map .str)

section

variable (D : DagLib L)

def setDataTransaction (tree : Dag L) (txn : Transaction) : Except Fault (Dag L) := do
  let payload ← txn.readPayload errUnknown .setData txn.setDataPayload
  let path ← codeErr errUnknown ("error decoding path: " ++ ·) (decodePath payload.path)
  let val ← codeErr errUnknown ("error decoding data value: " ++ ·)
    (DagLib.orError "not CBOR" payload.value)
  -- SET_DATA always sets inside tree/data; the error is not looked at
  let dataPath := (decodePath treePathForData).toOption.getD []
  let path := dataPath ++ path
  codeErr 999 ("error setting: " ++ ·)
    (if complexType val then D.setAsLink tree path val else D.set tree path val)

def setOwnershipTransaction (tree : Dag L) (txn : Transaction) : Except Fault (Dag L) := do
  let payload ← codeErr errUnknown ("error reading payload: " ++ ·)
    (txn.ensure .setOwnership txn.setOwnershipPayload)
  let path ← codeErr errUnknown ("error decoding path: " ++ ·)
    (decodePath treePathForAuthentications)
  let payload ← deref payload
  codeErr 999 ("error setting: " ++ ·)
    (D.setAsLink tree path (authenticationObj payload.authentication))

/-- The payload is stored as it is, also if there is none. -/
def stakeTransaction (tree : Dag L) (txn : Transaction) : Except Fault (Dag L) := do
  let payload ← codeErr errUnknown ("error reading payload: " ++ ·)
    (txn.ensure .stake txn.stakePayload)
  let path ← codeErr errUnknown ("error decoding path: " ++ ·) (decodePath treePathForStake)
  codeErr 999 ("error setting: " ++ ·) (D.setAsLink tree path (payload.getD .null))

/-- `DefaultTransactors`. -/
def transactor (ranges : Ranges) (chainTreeDID : String) (tree : Dag L) (txn : Transaction) :
    Except Fault (Dag L) :=
  match txn.type with
  | .setData => setDataTransaction D tree txn
  | .setOwnership => setOwnershipTransaction D tree txn
  | .stake => stakeTransaction D tree txn
  | _ => tokenTransactor D ranges chainTreeDID tree txn

/-- The transactions one after the other, each with the orders its calls range over maps in. -/
def applyTransactions (chainTreeDID : String) :
    Dag L → List (Ranges × Transaction) → Except Fault (Dag L)
  | tree, [] => .ok tree
  | tree, (ranges, txn) :: txns => do
    let newTree ← transactor D ranges chainTreeDID tree txn
    applyTransactions chainTreeDID newTree txns

end

/-! ## The paths -/

def tokensTreePath : List String := ["_tupelo", "tokens"]
def authenticationsTreePath : List String := ["_tupelo", "authentications"]
def stakeTreePath : List String := ["_tupelo", "stake"]
def dataTreePath : List String := ["data"]

theorem decodePath_treePathForAuthentications :
    decodePath treePathForAuthentications = .ok authenticationsTreePath := by decide +kernel

theorem decodePath_treePathForStake : decodePath treePathForStake = .ok stakeTreePath := by
  decide +kernel

theorem decodePath_treePathForData : decodePath treePathForData = .ok dataTreePath := by
  decide +kernel

/-- Where a transaction writes. -/
def writePath : TransactionType → List String
  | .setData => dataTreePath
  | .setOwnership => authenticationsTreePath
  | .stake => stakeTreePath
  | .establishToken | .mintToken | .sendToken | .receiveToken => tokensTreePath

/-! ## What the transactors write -/

variable {D : DagLib L} {d d' : Dag L} {txn : Transaction}

theorem setDataTransaction_ok (hD : D.Sound) (h : setDataTransaction D d txn = .ok d') :
    ∃ payload path val, txn.type = .setData ∧ txn.setDataPayload = some payload ∧
      decodePath payload.path = .ok path ∧ payload.value = some val ∧
      if complexType val then d.setAsLink D.lift (dataTreePath ++ path) val = some d'
      else d.set D.lift (dataTreePath ++ path) val = some d' := by
  obtain ⟨payload, hpayload, h⟩ := bind_eq_ok.mp h
  obtain ⟨path, hpath, h⟩ := bind_eq_ok.mp h
  obtain ⟨val, hval, h⟩ := bind_eq_ok.mp h
  obtain ⟨htype, hpayload⟩ := Transaction.readPayload_ok hpayload
  refine ⟨payload, path, val, htype, hpayload, codeErr_eq_ok.mp hpath,
    DagLib.orError_eq_ok (codeErr_eq_ok.mp hval), ?_⟩
  rw [decodePath_treePathForData, codeErr_eq_ok] at h
  split
  · next hc =>
    rw [if_pos hc] at h
    exact hD.setAsLink h
  · next hc =>
    rw [if_neg hc] at h
    exact hD.set h

theorem setOwnershipTransaction_ok (hD : D.Sound) (h : setOwnershipTransaction D d txn = .ok d') :
    ∃ payload, txn.type = .setOwnership ∧ txn.setOwnershipPayload = some payload ∧
      d.setAsLink D.lift authenticationsTreePath (authenticationObj payload.authentication) =
        some d' := by
  obtain ⟨pointer, hpointer, h⟩ := bind_eq_ok.mp h
  obtain ⟨htype, rfl⟩ := Transaction.ensure_ok (codeErr_eq_ok.mp hpointer)
  rw [decodePath_treePathForAuthentications, codeErr_ok, ok_bind] at h
  obtain ⟨payload, hpayload, hset⟩ := bind_eq_ok.mp h
  exact ⟨payload, htype, deref_eq_ok hpayload, hD.setAsLink (codeErr_eq_ok.mp hset)⟩

theorem stakeTransaction_ok (hD : D.Sound) (h : stakeTransaction D d txn = .ok d') :
    txn.type = .stake ∧
      d.setAsLink D.lift stakeTreePath (txn.stakePayload.getD .null) = some d' := by
  obtain ⟨payload, hpayload, h⟩ := bind_eq_ok.mp h
  obtain ⟨htype, rfl⟩ := Transaction.ensure_ok (codeErr_eq_ok.mp hpayload)
  rw [decodePath_treePathForStake, codeErr_ok, ok_bind] at h
  exact ⟨htype, hD.setAsLink (codeErr_eq_ok.mp h)⟩

section Ledger

open TreeLedger

variable {l : TreeLedger L}

theorem writes_appendTransaction (hD : D.Sound) {tree : Dag L} {name label : String}
    {cids : List Cid} {newBalance : Dag L → Except Fault UInt64}
    (h : appendTransaction D tree (recordPath name) label cids newBalance = .ok d') :
    Dag.Writes D.lift tokensTreePath tree d' := by
  obtain ⟨d₁, b, hlink, -, hset⟩ := appendTransaction_ok hD h
  exact (Dag.Writes.none.setAsLink [name, label] _ hlink).set [name, tokenBalanceLabel] _ hset

theorem writes_createNode (hD : D.Sound) {o : Obj Cid} {c : Cid} {d₁ : Dag L}
    (h : D.createNode d o = .ok (c, d₁)) : Dag.Writes D.lift tokensTreePath d d₁ := by
  rw [← (Prod.mk.inj (hD.createNode h)).2]
  exact Dag.Writes.none.createNode o

theorem writes_createToken (hD : D.Sound) (h : (l.createToken D).1 = .ok d') :
    Dag.Writes D.lift tokensTreePath l.tree d' := by
  obtain ⟨d₁, hlink, hset⟩ := createToken_ok hD h
  exact (Dag.Writes.none.setAsLink [l.tokenName.string] _ hlink).set
    [l.tokenName.string, tokenBalanceLabel] _ hset

theorem writes_establishToken (hD : D.Sound) {p : TokenMonetaryPolicy}
    (h : (l.establishToken D p).1 = .ok d') : Dag.Writes D.lift tokensTreePath l.tree d' := by
  obtain ⟨d₁, hcreate, hlink⟩ := establishToken_ok hD h
  exact (writes_createToken hD hcreate).setAsLink [l.tokenName.string, monetaryPolicyLabel] _ hlink

theorem writes_mintToken (hD : D.Sound) {amount : UInt64} (h : (l.mintToken D amount).1 = .ok d') :
    Dag.Writes D.lift tokensTreePath l.tree d' := by
  obtain ⟨_, _, c, d₀, _, -, -, -, -, hnode, h, -⟩ := mintToken_ok h
  exact (writes_createNode hD hnode).trans (writes_appendTransaction hD h)

theorem writes_sendToken (hD : D.Sound) {txId destination : String} {amount : UInt64}
    (h : (l.sendToken D txId destination amount).1 = .ok d') :
    Dag.Writes D.lift tokensTreePath l.tree d' := by
  obtain ⟨_, _, c, d₀, -, -, -, hnode, -, h⟩ := sendToken_ok h
  exact (writes_createNode hD hnode).trans (writes_appendTransaction hD h)

theorem writes_receive (hD : D.Sound) {id : String} {amount : UInt64}
    (h : (receiveToken.receive D id amount l).1 = .ok d') :
    Dag.Writes D.lift tokensTreePath l.tree d' := by
  obtain ⟨_, c, d₀, _, -, -, hnode, h, -⟩ := receive_ok h
  exact (writes_createNode hD hnode).trans (writes_appendTransaction hD h)

theorem writes_receiveToken (hD : D.Sound) {id : String} {amount : UInt64}
    (h : (l.receiveToken D id amount).1 = .ok d') : Dag.Writes D.lift tokensTreePath l.tree d' := by
  rcases receiveToken_ok h with ⟨-, h⟩ | ⟨-, d₁, hcreate, h⟩
  · exact writes_receive hD h
  · exact (writes_createToken hD hcreate).trans
      (writes_receive (l := { l with tree := d₁ }) hD h)

end Ledger

/-- **A transaction writes below the path of its kind.** -/
theorem writes_transactor (hD : D.Sound) {ranges : Ranges} {did : String}
    (h : transactor D ranges did d txn = .ok d') : Dag.Writes D.lift (writePath txn.type) d d' := by
  unfold transactor at h
  split at h
  · next htype =>
    rw [htype]
    obtain ⟨_, path, val, -, -, -, -, h⟩ := setDataTransaction_ok hD h
    split at h
    · exact Dag.Writes.none.setAsLink path val h
    · exact Dag.Writes.none.set path val h
  · next htype =>
    rw [htype]
    obtain ⟨_, -, -, h⟩ := setOwnershipTransaction_ok hD h
    exact Dag.Writes.none.setAsLink [] _ h
  · next htype =>
    rw [htype]
    obtain ⟨-, h⟩ := stakeTransaction_ok hD h
    exact Dag.Writes.none.setAsLink [] _ h
  · unfold tokenTransactor at h
    split at h
    · next htype =>
      rw [htype]
      obtain ⟨_, _, -, -, -, h⟩ := establishTokenTransaction_ok h
      exact writes_establishToken hD h
    · next htype =>
      rw [htype]
      obtain ⟨_, _, -, -, h⟩ := mintTokenTransaction_ok h
      exact writes_mintToken hD h
    · next htype =>
      rw [htype]
      obtain ⟨_, _, -, -, h⟩ := sendTokenTransaction_ok h
      exact writes_sendToken hD h
    · next htype =>
      rw [htype]
      obtain ⟨_, _, _, _, -, -, -, -, h⟩ := receiveTokenTransaction_ok h
      exact writes_receiveToken hD h
    · cases h

/-- The paths of two kinds part. -/
theorem apart_writePath {t t' : TransactionType} (h : writePath t ≠ writePath t') :
    Apart (writePath t) (writePath t') := by
  have hhead : ∀ p q : List String, Apart ("data" :: p) ("_tupelo" :: q) ∧
      Apart ("_tupelo" :: p) ("data" :: q) :=
    fun p q => ⟨.head (by decide) p q, .head (by decide) p q⟩
  have htail : ∀ {k k' : String}, k ≠ k' → Apart ["_tupelo", k] ["_tupelo", k'] :=
    fun hne => .tail _ (.head hne [] [])
  cases t <;> cases t' <;>
    first
    | exact absurd rfl h
    | exact (hhead _ _).1
    | exact (hhead _ _).2
    | exact htail (by decide)

end Tupelo

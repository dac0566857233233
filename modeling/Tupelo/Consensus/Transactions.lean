import Tupelo.Consensus.TreeLedger

/-!
# The token transactions

The transactors of the four token transactions. A transactor gets the DID of the chain tree, its
tree and the transaction, and returns the new tree or an error with a code; it reports a
transaction valid exactly when it returns a tree.

A receive carries nodes of the sending tree. The transactor makes a DAG of them, finds a token
and a send in it, and credits that. Which ones it finds depends on the order in which Go ranges
over two maps.
-/

namespace Tupelo

open Infra

/-! ## Payloads -/

structure EstablishTokenPayload where
  name : String
  monetaryPolicy : Option TokenMonetaryPolicy

structure MintTokenPayload where
  name : String
  amount : UInt64

structure SendTokenPayload where
  id : String
  name : String
  amount : UInt64
  destination : String

/-- The leaves are given by what `sw.Decode` makes of each; `none` is one that is not CBOR. -/
structure ReceiveTokenPayload where
  sendTokenTransactionId : String
  tip : Bytes
  proof : Option Proof
  leaves : List (Option (Obj Cid))

/-- The value is given by what `cbornode.DecodeInto` makes of it; `none` is one that is not CBOR. -/
structure SetDataPayload where
  path : String
  value : Option (Obj Cid)

structure SetOwnershipPayload where
  authentication : List String

/-- `Transaction_Type`. -/
inductive TransactionType where
  | establishToken
  | mintToken
  | sendToken
  | receiveToken
  | setData
  | setOwnership
  | stake
  deriving DecidableEq, Repr

/--
`transactions.Transaction`, with its payloads. The one of a stake is only ever stored, and given
as the object that is.
-/
structure Transaction where
  type : TransactionType
  establishTokenPayload : Option EstablishTokenPayload := none
  mintTokenPayload : Option MintTokenPayload := none
  sendTokenPayload : Option SendTokenPayload := none
  receiveTokenPayload : Option ReceiveTokenPayload := none
  setDataPayload : Option SetDataPayload := none
  setOwnershipPayload : Option SetOwnershipPayload := none
  stakePayload : Option (Obj Cid) := none

/--
The `Ensure…Payload` methods: the pointer to the payload that goes with the type. It may be nil.
-/
def Transaction.ensure {α : Type} (txn : Transaction) (want : TransactionType)
    (payload : Option α) : Except Fault (Option α) :=
  if txn.type = want then .ok payload
  else .error (.error "transaction is of another type")

theorem Transaction.ensure_of_type {α : Type} {txn : Transaction} {want : TransactionType}
    (htype : txn.type = want) (payload : Option α) : txn.ensure want payload = .ok payload :=
  if_pos htype

theorem Transaction.ensure_ok {α : Type} {txn : Transaction} {want : TransactionType}
    {payload p : Option α} (h : txn.ensure want payload = .ok p) :
    txn.type = want ∧ payload = p := by
  unfold ensure at h
  split at h
  · next htype => exact ⟨htype, Except.ok.inj h⟩
  · cases h

def errUnknown : Nat := 0
def errInvalidTip : Nat := 1

/-- `&ErrorCode{Code: code, Memo: memo(err)}` for an error. -/
def codeErr {α : Type} (code : Nat) (memo : String → String) : Except Fault α → Except Fault α
  | .error (.error msg) => .error (.coded code (memo msg))
  | x => x

@[simp] theorem codeErr_ok {α : Type} (code : Nat) (memo : String → String) (a : α) :
    codeErr code memo (.ok a) = .ok a := rfl

@[simp] theorem codeErr_eq_ok {α : Type} {code : Nat} {memo : String → String}
    {x : Except Fault α} {a : α} : codeErr code memo x = .ok a ↔ x = .ok a := by
  match x with
  | .ok _ => exact Iff.rfl
  | .error (.panic _) => exact Iff.rfl
  | .error (.coded _ _) => exact Iff.rfl
  | .error (.error _) => simp [codeErr]

/-- The payload that a transactor reads from as soon as it has the pointer. -/
def Transaction.readPayload {α : Type} (txn : Transaction) (code : Nat) (want : TransactionType)
    (payload : Option α) : Except Fault α := do
  let payload ← codeErr code ("error reading payload: " ++ ·) (txn.ensure want payload)
  deref payload

theorem Transaction.readPayload_of_type {α : Type} {txn : Transaction} {code : Nat}
    {want : TransactionType} (htype : txn.type = want) (payload : Option α) :
    txn.readPayload code want payload = deref payload := by
  rw [readPayload, ensure_of_type htype, codeErr_ok, ok_bind]

theorem Transaction.readPayload_ok {α : Type} {txn : Transaction} {code : Nat}
    {want : TransactionType} {payload : Option α} {p : α}
    (h : txn.readPayload code want payload = .ok p) : txn.type = want ∧ payload = some p := by
  obtain ⟨q, hq, h⟩ := bind_eq_ok.mp h
  obtain ⟨htype, rfl⟩ := ensure_ok (codeErr_eq_ok.mp hq)
  exact ⟨htype, deref_eq_ok h⟩

section

variable {L : Ipld} (D : DagLib L)

/-! ## Establishing, minting and sending -/

def canonicalName (ord : RangeOrder) (tree : Dag L) (chainTreeDID name : String)
    (requireDefault : Bool) : Except Fault TokenName :=
  codeErr errUnknown (fun e => "error getting canonical token name for " ++ name ++ ": " ++ e)
    (canonicalTokenName D ord tree chainTreeDID name requireDefault)

/-- The transactor returns the tree the ledger's method returned. -/
def establishTokenTransaction (ord : RangeOrder) (chainTreeDID : String) (tree : Dag L)
    (txn : Transaction) : Except Fault (Dag L) := do
  let payload ← txn.readPayload errUnknown .establishToken txn.establishTokenPayload
  let tokenName ← canonicalName D ord tree chainTreeDID payload.name true
  let ledger : TreeLedger L := { tokenName, tree }
  let tokenExists ← codeErr errUnknown
    (fun _ => "error checking for existence of token \"" ++ tokenName.string ++ "\"")
    (ledger.tokenExists D)
  if tokenExists then
    .error (.coded errUnknown ("error, token \"" ++ tokenName.string ++ "\" already exists"))
  else
    let monetaryPolicy := payload.monetaryPolicy.getD { maximum := 0 }
    codeErr errUnknown id (ledger.establishToken D monetaryPolicy).1

def mintTokenTransaction (ord : RangeOrder) (chainTreeDID : String) (tree : Dag L)
    (txn : Transaction) : Except Fault (Dag L) := do
  let payload ← txn.readPayload errUnknown .mintToken txn.mintTokenPayload
  let tokenName ← canonicalName D ord tree chainTreeDID payload.name true
  let ledger : TreeLedger L := { tokenName, tree }
  codeErr errUnknown ("error minting token: " ++ ·) (ledger.mintToken D payload.amount).1

def sendTokenTransaction (ord : RangeOrder) (chainTreeDID : String) (tree : Dag L)
    (txn : Transaction) : Except Fault (Dag L) := do
  let payload ← txn.readPayload errUnknown .sendToken txn.sendTokenPayload
  let tokenName ← canonicalName D ord tree chainTreeDID payload.name false
  let ledger : TreeLedger L := { tokenName, tree }
  codeErr 999 ("error sending token: " ++ ·)
    (ledger.sendToken D payload.id payload.destination payload.amount).1

/-! ## Receiving -/

/-- `findFirstLinkedNode`, over the entries in the order they are ranged over. -/
def findFirstLinkedNode (tree : Dag L) (parentNode : List (String × Obj Cid)) :
    Except Fault (String × Obj Cid) :=
  let linked := parentNode.findSome? fun e =>
    match e.2 with
    | .link nodeCid => (D.get tree nodeCid).toOption.map fun node => (e.1, node)
    | _ => none
  match linked with
  | some found => .ok found
  | none => .error (.error "no linked nodes were found in the DAG")

/-- One round of the loop over the leaves: the tip comes first. -/
def placeLeaf (tipCid : Cid) (nodes : List (Obj Cid)) :
    Option (Obj Cid) → Except Fault (List (Obj Cid))
  | none => .error (.coded 999 "error decoding CBOR node: ")
  | some cborNode =>
    .ok (if L.objCid cborNode = tipCid then cborNode :: nodes else nodes ++ [cborNode])

/-- The decoded leaves. -/
def orderLeaves (tipCid : Cid) : List (Option (Obj Cid)) → Except Fault (List (Obj Cid)) :=
  List.foldlM (placeLeaf (L := L) tipCid) []

def getSenderDagFromReceive (payload : ReceiveTokenPayload) : Except Fault (Dag L) := do
  let tipCid ← codeErr 999 ("error casting tip to CID: " ++ ·) (L.cast payload.tip)
  let nodes ← orderLeaves (L := L) tipCid payload.leaves
  codeErr 999 ("error recreating sender leaves DAG: " ++ ·) (D.newDagWithNodes nodes)

/-- The path of the tokens in a whole chain tree. -/
def tokensPath : Except Fault (List String) := do
  let treePath ← codeErr 999 ("error decoding tree path for tokens: " ++ ·)
    (decodePath treePathForTokens)
  return "tree" :: treePath

@[simp] theorem tokensPath_eq : tokensPath = .ok ["tree", "_tupelo", "tokens"] := by
  unfold tokensPath
  rw [decodePath_treePathForTokens]
  rfl

/-- A value that has to be at the end of a path. -/
def resolveAll (what : String) (senderDag : Dag L) (path : List String) :
    Except Fault (Obj Cid) := do
  let (uncast, remaining) ← codeErr 999 (fun e => "error resolving " ++ what ++ ": " ++ e)
    (D.resolve senderDag path)
  if remaining ≠ [] then
    .error (.coded 999 ("error resolving " ++ what ++ ": remaining path elements: " ++
      goSlice remaining))
  else .ok uncast

def getTokenNameFromReceive (ord : RangeOrder) (senderDag : Dag L) : Except Fault TokenName := do
  let path ← tokensPath
  let uncastTokens ← resolveAll D "tokens" senderDag path
  match uncastTokens with
  | .map tokens =>
    let (tokenName, _) ← codeErr 999 ("error finding token node: " ++ ·)
      (findFirstLinkedNode D senderDag (ord.range tokens))
    return tokenNameFromString tokenName
  | _ => .error (.coded 999 "error casting tokens map")

/-- `string(i)` for an index: the character with that number. -/
def runeString (i : Nat) : String :=
  String.ofList [if i.isValidChar then Char.ofNat i else Char.ofNat 0xFFFD]

/-- `for i, ts := range tokenSends { tokenSendsMap[string(i)] = ts }`. -/
def tokenSendsMap (tokenSends : List (Obj Cid)) : List (String × Obj Cid) :=
  (tokenSends.zipIdx).foldl (fun m e => Obj.setField m (runeString e.2) e.1) []

def getSendTokenFromReceive (ord : RangeOrder) (senderDag : Dag L) (tokenName : TokenName) :
    Except Fault TokenSend := do
  let path ← tokensPath
  let uncastTokenSends ← resolveAll D "token sends" senderDag
    (path ++ [tokenName.string, tokenSendLabel])
  match uncastTokenSends with
  | .list tokenSends =>
    let (_, tokenSendNode) ← codeErr 999 ("error find token send node: " ++ ·)
      (findFirstLinkedNode D senderDag (ord.range (tokenSendsMap tokenSends)))
    codeErr 999 ("error decoding token send node: " ++ ·) (decodeTokenSend tokenSendNode)
  | _ => .error (.coded 999 "error casting token sends")

/-- The orders in which one call ranges over the tokens and over the sends. -/
structure Ranges where
  tokens : RangeOrder
  sends : RangeOrder

def Ranges.plain : Ranges := ⟨RangeOrder.plain, RangeOrder.plain⟩

/-- The token and the send that a payload is found to be about. -/
def selectSend (ranges : Ranges) (senderDag : Dag L) : Except Fault (TokenName × TokenSend) := do
  let tokenName ← getTokenNameFromReceive D ranges.tokens senderDag
  let tokenSend ← getSendTokenFromReceive D ranges.sends senderDag tokenName
  return (tokenName, tokenSend)

def receiveTokenTransaction (ranges : Ranges) (_chainTreeDID : String) (tree : Dag L)
    (txn : Transaction) : Except Fault (Dag L) := do
  let payload ← txn.readPayload 999 .receiveToken txn.receiveTokenPayload
  let tipCid ← codeErr 999 ("error casting tip to CID: " ++ ·) (L.cast payload.tip)
  let senderDag ← getSenderDagFromReceive D payload
  -- verify tip matches root from leaves
  if tipCid ≠ senderDag.tip then .error (.coded 999 "invalid tip and/or leaves")
  else
    let (tokenName, tokenSend) ← selectSend D ranges senderDag
    let ledger : TreeLedger L := { tokenName, tree }
    codeErr 999 id (ledger.receiveToken D payload.sendTokenTransactionId tokenSend.amount).1

/-- The transactor of a token transaction, by its type. -/
def tokenTransactor (ranges : Ranges) (chainTreeDID : String) (tree : Dag L) (txn : Transaction) :
    Except Fault (Dag L) :=
  match txn.type with
  | .establishToken => establishTokenTransaction D ranges.tokens chainTreeDID tree txn
  | .mintToken => mintTokenTransaction D ranges.tokens chainTreeDID tree txn
  | .sendToken => sendTokenTransaction D ranges.tokens chainTreeDID tree txn
  | .receiveToken => receiveTokenTransaction D ranges chainTreeDID tree txn
  | _ => .error (.error "not a token transaction")

/-! ## What an accepted transaction has passed -/

variable {D} {ord : RangeOrder} {ranges : Ranges} {did : String} {d d' : Dag L}
  {txn : Transaction}

theorem establishTokenTransaction_ok (h : establishTokenTransaction D ord did d txn = .ok d') :
    ∃ payload tokenName, txn.establishTokenPayload = some payload ∧
      canonicalTokenName D ord d did payload.name true = .ok tokenName ∧
      TreeLedger.tokenExists D { tokenName, tree := d } = .ok false ∧
      (TreeLedger.establishToken D { tokenName, tree := d }
        (payload.monetaryPolicy.getD { maximum := 0 })).1 = .ok d' := by
  obtain ⟨payload, hpayload, h⟩ := bind_eq_ok.mp h
  obtain ⟨tokenName, hname, h⟩ := bind_eq_ok.mp h
  obtain ⟨tokenExists, hexists, h⟩ := bind_eq_ok.mp h
  cases tokenExists with
  | true => cases h
  | false =>
    exact ⟨payload, tokenName, (Transaction.readPayload_ok hpayload).2, codeErr_eq_ok.mp hname,
      codeErr_eq_ok.mp hexists, codeErr_eq_ok.mp h⟩

theorem mintTokenTransaction_ok (h : mintTokenTransaction D ord did d txn = .ok d') :
    ∃ payload tokenName, txn.mintTokenPayload = some payload ∧
      canonicalTokenName D ord d did payload.name true = .ok tokenName ∧
      (TreeLedger.mintToken D { tokenName, tree := d } payload.amount).1 = .ok d' := by
  obtain ⟨payload, hpayload, h⟩ := bind_eq_ok.mp h
  obtain ⟨tokenName, hname, h⟩ := bind_eq_ok.mp h
  exact ⟨payload, tokenName, (Transaction.readPayload_ok hpayload).2, codeErr_eq_ok.mp hname,
    codeErr_eq_ok.mp h⟩

theorem sendTokenTransaction_ok (h : sendTokenTransaction D ord did d txn = .ok d') :
    ∃ payload tokenName, txn.sendTokenPayload = some payload ∧
      canonicalTokenName D ord d did payload.name false = .ok tokenName ∧
      (TreeLedger.sendToken D { tokenName, tree := d } payload.id payload.destination
        payload.amount).1 = .ok d' := by
  obtain ⟨payload, hpayload, h⟩ := bind_eq_ok.mp h
  obtain ⟨tokenName, hname, h⟩ := bind_eq_ok.mp h
  exact ⟨payload, tokenName, (Transaction.readPayload_ok hpayload).2, codeErr_eq_ok.mp hname,
    codeErr_eq_ok.mp h⟩

/-- The tip of a receive is the root of its leaves. -/
theorem receiveTokenTransaction_ok (h : receiveTokenTransaction D ranges did d txn = .ok d') :
    ∃ payload senderDag tokenName tokenSend,
      txn.receiveTokenPayload = some payload ∧
      getSenderDagFromReceive D payload = .ok senderDag ∧ L.cast payload.tip = .ok senderDag.tip ∧
      selectSend D ranges senderDag = .ok (tokenName, tokenSend) ∧
      (TreeLedger.receiveToken D { tokenName, tree := d } payload.sendTokenTransactionId
        tokenSend.amount).1 = .ok d' := by
  obtain ⟨payload, hpayload, h⟩ := bind_eq_ok.mp h
  obtain ⟨tip, htip, h⟩ := bind_eq_ok.mp h
  obtain ⟨senderDag, hdag, h⟩ := bind_eq_ok.mp h
  obtain ⟨htips, h⟩ := guard_eq_ok h
  rw [not_not.mp htips] at htip
  obtain ⟨⟨tokenName, tokenSend⟩, hselect, h⟩ := bind_eq_ok.mp h
  exact ⟨payload, senderDag, tokenName, tokenSend, (Transaction.readPayload_ok hpayload).2, hdag,
    codeErr_eq_ok.mp htip, hselect, codeErr_eq_ok.mp h⟩

end

end Tupelo

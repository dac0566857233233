import Tupelo.Consensus.TokenName

/-!
# The token ledger of a chain tree

A token of a chain tree is a record under `_tupelo/tokens`: its monetary policy, the lists of
its mints, sends and receives, and its balance. `TreeLedger` changes the record of one token.

A method of the ledger returns a new tree or an error, and leaves a tree in the ledger, so a
method is a function from the ledger to both.
-/

namespace Tupelo

open Infra

/-! ## The structs and how they are written -/

/-- `transactions.TokenMonetaryPolicy`. A maximum of zero is no maximum. -/
structure TokenMonetaryPolicy where
  maximum : UInt64
  deriving DecidableEq, Repr

structure TokenMint where
  amount : UInt64
  deriving DecidableEq, Repr

structure TokenSend where
  id : String
  amount : UInt64
  destination : String
  deriving DecidableEq, Repr

structure TokenReceive where
  sendTokenTransactionId : String
  amount : UInt64
  deriving DecidableEq, Repr

/-- `Token`, as it stands in the node. -/
structure Token where
  monetaryPolicy : Option Cid
  mints : Option Cid
  sends : Option Cid
  receives : Option Cid
  balance : UInt64

def monetaryPolicyLabel : String := "monetaryPolicy"
def tokenBalanceLabel : String := "balance"
def tokenMintLabel : String := "mints"
def tokenSendLabel : String := "sends"
def tokenReceiveLabel : String := "receives"

def TokenMonetaryPolicy.toObj (p : TokenMonetaryPolicy) : Obj Cid :=
  .map [("maximum", .uint p.maximum)]

def TokenMint.toObj (m : TokenMint) : Obj Cid := .map [("amount", .uint m.amount)]

def TokenSend.toObj (s : TokenSend) : Obj Cid :=
  .map [("id", .str s.id), ("amount", .uint s.amount), ("destination", .str s.destination)]

def TokenReceive.toObj (r : TokenReceive) : Obj Cid :=
  .map [("amount", .uint r.amount), ("sendTokenTransactionId", .str r.sendTokenTransactionId)]

/-- `&Token{}`. -/
def Token.zero : Obj Cid :=
  .map [(tokenMintLabel, .null), (tokenSendLabel, .null), (tokenBalanceLabel, .uint 0),
    (tokenReceiveLabel, .null), (monetaryPolicyLabel, .null)]

def decodeTokenMonetaryPolicy (o : Obj Cid) : Except Fault TokenMonetaryPolicy := do
  let fields ← structFields ["maximum"] o
  return { maximum := ← uintField fields "maximum" }

def decodeTokenSend (o : Obj Cid) : Except Fault TokenSend := do
  let fields ← structFields ["id", "amount", "destination"] o
  let id ← strField fields "id"
  let amount ← uintField fields "amount"
  let destination ← strField fields "destination"
  return { id, amount, destination }

def decodeTokenReceive (o : Obj Cid) : Except Fault TokenReceive := do
  let fields ← structFields ["sendTokenTransactionId", "amount"] o
  let sendTokenTransactionId ← strField fields "sendTokenTransactionId"
  let amount ← uintField fields "amount"
  return { sendTokenTransactionId, amount }

def decodeToken (o : Obj Cid) : Except Fault Token := do
  let fields ← structFields [monetaryPolicyLabel, tokenMintLabel, tokenSendLabel,
    tokenReceiveLabel, tokenBalanceLabel] o
  let monetaryPolicy ← linkField fields monetaryPolicyLabel
  let mints ← linkField fields tokenMintLabel
  let sends ← linkField fields tokenSendLabel
  let receives ← linkField fields tokenReceiveLabel
  let balance ← uintField fields tokenBalanceLabel
  return { monetaryPolicy, mints, sends, receives, balance }

@[simp] theorem decodeTokenMonetaryPolicy_toObj (p : TokenMonetaryPolicy) :
    decodeTokenMonetaryPolicy p.toObj = .ok p := rfl

@[simp] theorem decodeTokenSend_toObj (s : TokenSend) : decodeTokenSend s.toObj = .ok s := rfl

@[simp] theorem decodeTokenReceive_toObj (r : TokenReceive) :
    decodeTokenReceive r.toObj = .ok r := rfl

/-! ## The ledger -/

structure TreeLedger (L : Ipld) where
  tokenName : TokenName
  tree : Dag L

/-- `TokenPath`, and the method `tokenPath`. -/
def tokenPath (tokenName : TokenName) : Except Fault (List String) := do
  let rootTokenPath ← wrapErr "error, unable to decode tree path for tokens: "
    (decodePath treePathForTokens)
  return rootTokenPath ++ [tokenName.string]

/-- The path of a token's record, by the string of its name. -/
def recordPath (name : String) : List String := ["_tupelo", "tokens"] ++ [name]

@[simp] theorem tokenPath_eq (tokenName : TokenName) :
    tokenPath tokenName = .ok (recordPath tokenName.string) := by
  unfold tokenPath
  rw [decodePath_treePathForTokens]
  rfl

/-- A name has a colon. -/
theorem isIndex_string (tokenName : TokenName) : isIndex tokenName.string = false := by
  simp [isIndex, TokenName.string, join]

theorem isIndex_recordPath (tokenName : TokenName) :
    ∀ a ∈ recordPath tokenName.string, isIndex a = false := by
  simp only [recordPath, List.cons_append, List.nil_append, List.forall_mem_cons]
  exact ⟨by decide, by decide, isIndex_string tokenName, by simp⟩

theorem isIndex_recordPath_label (tokenName : TokenName) {label : String}
    (h : isIndex label = false) :
    ∀ a ∈ recordPath tokenName.string ++ [label], isIndex a = false := by
  intro a ha
  rcases List.mem_append.mp ha with ha | ha
  · exact isIndex_recordPath tokenName a ha
  · rw [List.mem_singleton.mp ha, h]

/-- `%v` of a slice of strings. -/
def goSlice (path : List String) : String := "[" ++ join path " " ++ "]"

/-- `c.(cid.Cid)`. -/
def castCid : Obj Cid → Except Fault Cid
  | .link c => .ok c
  | o => .error (.panic ("interface conversion: interface is " ++ goType o ++ ", not cid.Cid"))

section

variable {L : Ipld} (D : DagLib L)

/-- `transactionCidsForPath`. -/
def transactionCidsForPath (tree : Dag L) (path : List String) : Except Fault (List Cid) := do
  let (uncastCids, _) ← wrapErr ("error resolving path " ++ goSlice path ++ ": ")
    (D.resolve tree path)
  match uncastCids with
  | .null => .ok []
  | .list cids => cids.mapM castCid
  | o => .error (.panic ("interface conversion: interface is " ++ goType o ++
      ", not []interface \x7b\x7d"))

namespace TreeLedger

variable (l : TreeLedger L)

/-- The end of a method: a new tree that was made is put in the ledger. -/
def commit (r : Except Fault (Dag L)) : Except Fault (Dag L) × TreeLedger L :=
  match r with
  | .ok newTree => (.ok newTree, { l with tree := newTree })
  | .error e => (.error e, l)

def tokenTransactionCidsForType (txType : String) : Except Fault (List Cid) := do
  let path ← tokenPath l.tokenName
  let tokenPath := path ++ [txType]
  wrapErr ("error fetching " ++ txType ++ " at " ++ goSlice tokenPath ++ ": ")
    (transactionCidsForPath D l.tree tokenPath)

/-- One round of the loop of `sumTokenTransactions`. -/
def addAmount (sum : UInt64) (c : Cid) : Except Fault UInt64 := do
  let node ← wrapErr ("error fetching node " ++ L.cidString c ++ ": ") (D.get l.tree c)
  let rec' ← wrapErr "error fetching amount: " (decodeTokenReceive node)
  return sum + rec'.amount

def sumTokenTransactions (cids : List Cid) : Except Fault UInt64 :=
  cids.foldlM (addAmount D l) 0

def balance : Except Fault UInt64 := do
  let path ← tokenPath l.tokenName
  let token ← wrapErr "error resolving token: " (D.resolveInto decodeToken l.tree path)
  return token.balance

def tokenExists : Except Fault Bool := do
  let path ← wrapErr "error getting token path: " (tokenPath l.tokenName)
  let (existingToken, _) ← wrapErr ("error attempting to resolve " ++ goSlice path ++ ": ")
    (D.resolve l.tree path)
  match existingToken with
  | .null => return false
  | _ => return true

def createToken : Except Fault (Dag L) × TreeLedger L :=
  l.commit do
    let path ← wrapErr "error getting token path: " (tokenPath l.tokenName)
    let newTree ← wrapErr "error creating new token: " (D.setAsLink l.tree path Token.zero)
    wrapErr "error setting balance: " (D.set newTree (path ++ [tokenBalanceLabel]) (.uint 0))

def establishToken (monetaryPolicy : TokenMonetaryPolicy) :
    Except Fault (Dag L) × TreeLedger L :=
  match l.createToken D with
  | (.error e, l) => (.error e, l)
  | (.ok newTree, l) => l.commit do
    let path ← tokenPath l.tokenName
    wrapErr "error setting monetary policy: "
      (D.setAsLink newTree (path ++ [monetaryPolicyLabel]) monetaryPolicy.toObj)

/-- The end of minting, sending and receiving: a longer list, then a new balance. -/
def appendTransaction (tree : Dag L) (path : List String) (label : String) (cids : List Cid)
    (newBalance : Dag L → Except Fault UInt64) : Except Fault (Dag L) := do
  let newTree ← wrapErr "error setting: "
    (D.setAsLink tree (path ++ [label]) (.list (cids.map .link)))
  let balance ← newBalance tree
  wrapErr "error updating balance: " (D.set newTree (path ++ [tokenBalanceLabel]) (.uint balance))

/-- The test of the monetary policy. The sum and the comparison are those of `uint64`. -/
def checkMaximum (monetaryPolicy : TokenMonetaryPolicy) (mintCids : List Cid) (amount : UInt64) :
    Except Fault Unit := do
  if monetaryPolicy.maximum > 0 then
    let currentMintedTotal ←
      wrapErr "error summing token mints: " (l.sumTokenTransactions D mintCids)
    if currentMintedTotal + amount > monetaryPolicy.maximum then
      .error (.error ("new mint would violate monetaryPolicy of maximum: " ++
        toString monetaryPolicy.maximum))

def mintToken (amount : UInt64) : Except Fault (Dag L) × TreeLedger L :=
  l.commit do
    if amount = 0 then .error (.error "error, must mint amount greater than 0")
    else
      let path ← wrapErr "error getting token path: " (tokenPath l.tokenName)
      let monetaryPolicy ← wrapErr "error decoding token monetary policy: "
        (D.resolveInto decodeTokenMonetaryPolicy l.tree (path ++ [monetaryPolicyLabel]))
      let mintCids ← l.tokenTransactionCidsForType D tokenMintLabel
      l.checkMaximum D monetaryPolicy mintCids amount
      let (newMint, tree) ← wrapErr "could not create new node: "
        (D.createNode l.tree (TokenMint.toObj { amount }))
      appendTransaction D tree path tokenMintLabel (mintCids ++ [newMint]) fun tree => do
        let currBalance ← wrapErr "error getting current balance: " (balance D { l with tree })
        return currBalance + amount

def sendToken (txId destination : String) (amount : UInt64) :
    Except Fault (Dag L) × TreeLedger L :=
  l.commit do
    if amount = 0 then .error (.error "error, must send an amount greater than 0")
    else
      let path ← tokenPath l.tokenName
      let availableBalance ← l.balance D
      if availableBalance < amount then
        .error (.error ("cannot send token, balance of " ++ toString availableBalance ++
          " is too low to send " ++ toString amount))
      else
        let (newSend, tree) ← wrapErr "could not create new node: "
          (D.createNode l.tree (TokenSend.toObj { id := txId, amount, destination }))
        let sentCids ← wrapErr "error getting existing token sends: "
          (tokenTransactionCidsForType D { l with tree } tokenSendLabel)
        appendTransaction D tree path tokenSendLabel (sentCids ++ [newSend]) fun _ =>
          return availableBalance - amount

/-- One round of the loop over the existing receives. -/
def checkReceive (sendTokenTxId : String) (r : Cid) : Except Fault Unit := do
  let node ← wrapErr "error getting existing token receive: " (D.get l.tree r)
  let tr ← wrapErr "error decoding token receive node: " (decodeTokenReceive node)
  if tr.sendTokenTransactionId = sendTokenTxId then
    .error (.error ("cannot receive token; transaction id " ++ tr.sendTokenTransactionId ++
      " already exists"))

def receiveToken (sendTokenTxId : String) (amount : UInt64) :
    Except Fault (Dag L) × TreeLedger L :=
  match (tokenPath l.tokenName).bind fun _ => l.tokenExists D with
  | .error e => (.error e, l)
  | .ok true => receive l
  | .ok false =>
    match l.createToken D with
    | (.error e, l) => (.error e, l)
    | (.ok _, l) => receive l
where
  /-- What follows once the token exists. -/
  receive (l : TreeLedger L) : Except Fault (Dag L) × TreeLedger L :=
    l.commit do
      let path ← tokenPath l.tokenName
      let tokenReceives ← wrapErr "error getting existing token receives: "
        (l.tokenTransactionCidsForType D tokenReceiveLabel)
      tokenReceives.forM (l.checkReceive D sendTokenTxId)
      let (newReceive, tree) ← wrapErr "error creating token receive node: "
        (D.createNode l.tree
          (TokenReceive.toObj { sendTokenTransactionId := sendTokenTxId, amount }))
      appendTransaction D tree path tokenReceiveLabel (tokenReceives ++ [newReceive]) fun tree => do
        let currBalance ← wrapErr "error getting current balance: " (balance D { l with tree })
        return currBalance + amount

end TreeLedger

end

end Tupelo

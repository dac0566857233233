import Tupelo.Consensus.ChainTree
import Tupelo.Sdk.RefTracking

/-!
# Making a request

The model of `NewAddBlockRequest` (`sdk/gossip/client/processblocks.go`): the client processes the
block on its own tree, through a store that keeps track of the nodes, and sends the nodes that
were touched along with the block.

Processing a block belongs to the chaintree library. Here it can be any deterministic computation
that reads the root of the tree and goes on from there, reaching the store by `Get` and `Add`. It
need not end, so what is modelled is the request after some number of its actions.

CBOR and Go's conversions between strings and bytes are the structure `Wire`.
-/

namespace Tupelo

open Infra

variable {L : Ipld} {α σ τ : Type}

/-! ## What is sent -/

/-- `chaintree.BlockWithHeaders`. The headers are as they are written, `null` without any. -/
@[ext] structure BlockWithHeaders (α : Type) where
  height : UInt64
  previousTip : Option Cid
  transactions : α
  headers : Obj Cid

structure Wire (α : Type) where
  /-- `Node.RawData`. -/
  rawData : Obj Cid → Bytes
  /-- `sw.Decode`. -/
  decode : Bytes → Except Fault (Obj Cid)
  /-- `sw.WrapObject(block).RawData()`. -/
  wrapBlock : BlockWithHeaders α → Bytes
  /-- `cbornode.DecodeInto` a block. -/
  decodeBlock : Bytes → Except Fault (BlockWithHeaders α)
  /-- `[]byte(s)`. -/
  bytes : String → Bytes
  /-- `string(b)`. -/
  string : Bytes → String

/-- What is written is read back. -/
structure Wire.Faithful (W : Wire α) : Prop where
  decode_rawData : ∀ o, W.decode (W.rawData o) = .ok o
  decodeBlock_wrapBlock : ∀ b, W.decodeBlock (W.wrapBlock b) = .ok b
  string_bytes : ∀ s, W.string (W.bytes s) = s

theorem Wire.Faithful.mapM_decode {W : Wire α} (hW : W.Faithful) (nodes : List (Obj Cid)) :
    (nodes.map W.rawData).mapM W.decode = .ok nodes := by
  induction nodes with
  | nil => rfl
  | cons o nodes ih =>
    rw [List.map_cons, List.mapM_cons, hW.decode_rawData, ih]
    rfl

/-! ## The root of a tree -/

/-- `chaintree.RootNode`, the fields that are looked at. -/
structure RootNode where
  id : String
  height : UInt64

def RootNode.decodeId : Option (Obj Cid) → Except Fault String
  | some (.str id) => .ok id
  | none => .ok ""
  | some _ => .error (.error "id is not a string")

def RootNode.decodeHeight : Option (Obj Cid) → Except Fault UInt64
  | some (.uint height) => .ok height
  | none => .ok 0
  | some _ => .error (.error "height is not a number")

/-- `cbornode.DecodeInto` a root. A field that is not there is left empty. -/
def RootNode.decode : Obj Cid → Except Fault RootNode
  | .map fields => do
    let id ← decodeId (fields.lookup "id")
    let height ← decodeHeight (fields.lookup "height")
    return { id, height }
  | _ => .error (.error "not a map")

/-! ## Processing a block -/

/-- What `ProcessBlock` returns, and the tip of the tree then, which is the CID of a node. -/
structure Processed (L : Ipld) where
  valid : Bool
  err : Option String
  tip : Cid
  isCid_tip : L.isCid tip.bytes = true

/-- `ChainTree.ProcessBlock`, from the root that `NewChainTree` has read. -/
structure ChainTreeLib (L : Ipld) (α σ : Type) where
  start : Cid → Obj Cid → BlockWithHeaders α → σ
  next : σ → StoreAction σ Cid (Obj Cid) (Processed L)

inductive Phase (α σ : Type) where
  | opening (tip : Cid) (block : BlockWithHeaders α)
  | processing (s : σ)
  | failed

/-- `NewChainTree`, which fails without a root, and then `ProcessBlock`. -/
def ChainTreeLib.program (lib : ChainTreeLib L α σ) :
    Phase α σ → StoreAction (Phase α σ) Cid (Obj Cid) (Except Fault (Processed L))
  | .opening tip block => .get tip fun
    | some root => .processing (lib.start tip root block)
    | none => .failed
  | .processing s =>
    match lib.next s with
    | .get c resume => .get c fun x => .processing (resume x)
    | .add o s' => .add o (.processing s')
    | .done out => .done (.ok out)
  | .failed => .done (.error (.error "error getting root"))

/-! ## The client -/

/-- `SignedChainTree`: the DAG of its chain tree. -/
structure SignedChainTree (τ : Type) where
  tip : Cid
  store : τ

namespace SignedChainTree

variable (L) (ops : StoreOps τ Cid (Obj Cid))

def id (tree : SignedChainTree τ) : Except Fault String :=
  match (ops.get tree.store tree.tip).1 with
  | some (.map fields) =>
    match fields.lookup "id" with
    | some (.str id) => .ok id
    | _ => .error (.error "error getting id")
  | _ => .error (.error "error getting id")

/-- `MustId`, which logs the error. -/
def mustId (tree : SignedChainTree τ) : String := (tree.id ops).toOption.getD ""

def isGenesis (tree : SignedChainTree τ) : Bool :=
  (newEmptyTree L (tree.mustId ops)).tip == tree.tip

def getRoot (tree : SignedChainTree τ) : Except Fault RootNode :=
  match (ops.get tree.store tree.tip).1 with
  | none => .error (.error "error, missing root: ipld: node not found")
  | some unmarshaledRoot => wrapErr "error decoding root: " (RootNode.decode unmarshaledRoot)

def getHeight (tree : SignedChainTree τ) : Except Fault UInt64 := do
  let root ← tree.getRoot ops
  return if tree.isGenesis L ops then 0 else root.height + 1

end SignedChainTree

section Request

variable (ops : StoreOps τ Cid (Obj Cid)) (W : Wire α) (lib : ChainTreeLib L α σ)
  (sign : BlockWithHeaders α → Except Fault (Obj Cid))

/-- `SignBlock` sets the headers; what goes into them is left open. -/
def signBlock (block : BlockWithHeaders α) : Except Fault (BlockWithHeaders α) := do
  let headers ← sign block
  return { block with headers }

/-- The block a request is about. -/
def newBlock (L : Ipld) (tree : SignedChainTree τ) (transactions : α) :
    Except Fault (BlockWithHeaders α) := do
  let height ← wrapErr "error getting tree height: " (tree.getHeight L ops)
  let blockTip := if tree.isGenesis L ops then none else some tree.tip
  wrapErr "error signing block: "
    (signBlock sign { height, previousTip := blockTip, transactions, headers := .null })

/-- `WrapTree`, and `ProcessBlock` on the tracked tree. -/
def processTracked (n : Nat) (tip : Cid) (store : τ) (block : BlockWithHeaders α) :
    Outcome (StoreWrapper τ Cid) Cid (Obj Cid) (Except Fault (Processed L)) :=
  runProgram (StoreWrapper.tracked ops L.objCid) lib.program n (.opening tip block)
    (wrapStoreForRefCounting store)

/-- The state of a request: the nodes that were touched. -/
def stateOf (ord : MapOrder) (block : BlockWithHeaders α) (tracker : StoreWrapper τ Cid) :
    Except Fault (List Bytes) :=
  -- only need state after the first Tx
  if block.height > 0 then do
    let touchedNodes ← wrapErr "error getting node: " (tracker.touchedNodes ops ord)
    return touchedNodes.map W.rawData
  else .ok []

/--
`NewAddBlockRequest`, if processing the block ends after `n` actions at most. The client sets the
validators of the notary group on a tree that has none; here they are part of the library.
-/
def newAddBlockRequest (ord : MapOrder) (n : Nat) (tree : SignedChainTree τ) (transactions : α) :
    Option (Except Fault AddBlockRequest) :=
  match newBlock ops sign L tree transactions with
  | .error err => some (.error err)
  | .ok block =>
    let tracked := processTracked ops lib n tree.tip tree.store block
    tracked.returned.map fun opened => do
      let processed ← wrapErr "error creating reference tracker: " opened
      if !processed.valid || processed.err.isSome then
        .error (.error ("error processing block (valid: " ++ toString processed.valid ++ "): " ++
          processed.err.getD "<nil>"))
      else
        let state ← stateOf ops W ord block tracked.store
        let chainId ← tree.id ops
        return {
          objectId := W.bytes chainId
          previousTip := tree.tip.bytes
          newTip := processed.tip.bytes
          height := block.height
          payload := W.wrapBlock block
          state }

end Request

/-! ## A request that was made -/

variable {ops : StoreOps τ Cid (Obj Cid)} {W : Wire α} {lib : ChainTreeLib L α σ}
  {sign : BlockWithHeaders α → Except Fault (Obj Cid)} {tree : SignedChainTree τ}
  {transactions : α} {ord : MapOrder} {n : Nat} {abr : AddBlockRequest}
variable {root : RootNode} {id : String}

theorem SignedChainTree.id_ok (h : tree.id ops = .ok id) :
    ∃ fields, (ops.get tree.store tree.tip).1 = some (.map fields) ∧
      fields.lookup "id" = some (.str id) := by
  unfold SignedChainTree.id at h
  split at h
  · next fields hnode =>
    split at h
    · next id' hid => exact ⟨fields, hnode, by rw [hid, Except.ok.inj h]⟩
    · cases h
  · cases h

theorem SignedChainTree.getRoot_ok (h : tree.getRoot ops = .ok root) :
    ∃ node, (ops.get tree.store tree.tip).1 = some node ∧ RootNode.decode node = .ok root := by
  unfold SignedChainTree.getRoot at h
  split at h
  · cases h
  · next node hnode => exact ⟨node, hnode, wrapErr_eq_ok.mp h⟩

theorem RootNode.decode_id {fields : List (String × Obj Cid)}
    (h : RootNode.decode (.map fields) = .ok root) (hid : fields.lookup "id" = some (.str id)) :
    root.id = id := by
  obtain ⟨id', hid', h⟩ := bind_eq_ok.mp h
  obtain ⟨height, -, h⟩ := bind_eq_ok.mp h
  rw [hid] at hid'
  rw [← pure_eq_ok.mp h, Except.ok.inj hid']

/-- The id of a tree is the one in its root. -/
theorem SignedChainTree.id_of_getRoot (hroot : tree.getRoot ops = .ok root)
    (hid : tree.id ops = .ok id) : root.id = id := by
  obtain ⟨node, hnode, hdecode⟩ := getRoot_ok hroot
  obtain ⟨fields, hfields, hlookup⟩ := id_ok hid
  rw [hnode] at hfields
  rw [Option.some.inj hfields] at hdecode
  exact RootNode.decode_id hdecode hlookup

theorem SignedChainTree.isGenesis_iff (hroot : tree.getRoot ops = .ok root)
    (hid : tree.id ops = .ok id) :
    tree.isGenesis L ops = true ↔ (newEmptyTree L root.id).tip = tree.tip := by
  have hmust : tree.mustId ops = root.id := by
    rw [mustId, hid, id_of_getRoot hroot hid]
    rfl
  rw [isGenesis, hmust, beq_iff_eq]

theorem newBlock_ok {block : BlockWithHeaders α}
    (h : newBlock ops sign L tree transactions = .ok block) :
    ∃ root, tree.getRoot ops = .ok root ∧
      block.height = if tree.isGenesis L ops then 0 else root.height + 1 := by
  obtain ⟨height, hheight, h⟩ := bind_eq_ok.mp h
  obtain ⟨root, hroot, hheight⟩ := bind_eq_ok.mp (wrapErr_eq_ok.mp hheight)
  obtain ⟨headers, -, h⟩ := bind_eq_ok.mp (wrapErr_eq_ok.mp h)
  refine ⟨root, hroot, ?_⟩
  rw [← pure_eq_ok.mp h, ← pure_eq_ok.mp hheight]

/-- What a request says. -/
structure Requested (ops : StoreOps τ Cid (Obj Cid)) (W : Wire α) (lib : ChainTreeLib L α σ)
    (ord : MapOrder) (n : Nat) (tree : SignedChainTree τ) (block : BlockWithHeaders α)
    (processed : Processed L) (abr : AddBlockRequest) : Prop where
  returned : (processTracked ops lib n tree.tip tree.store block).returned = some (.ok processed)
  valid : processed.valid = true
  err : processed.err = none
  objectId : ∃ id, tree.id ops = .ok id ∧ abr.objectId = W.bytes id
  previousTip : abr.previousTip = tree.tip.bytes
  newTip : abr.newTip = processed.tip.bytes
  height : abr.height = block.height
  payload : abr.payload = W.wrapBlock block
  state : if block.height > 0 then
      ∃ nodes, (processTracked ops lib n tree.tip tree.store block).store.touchedNodes ops ord =
        .ok nodes ∧ abr.state = nodes.map W.rawData
    else abr.state = []

theorem newAddBlockRequest_ok
    (h : newAddBlockRequest ops W lib sign ord n tree transactions = some (.ok abr)) :
    ∃ block processed, newBlock ops sign L tree transactions = .ok block ∧
      Requested ops W lib ord n tree block processed abr := by
  unfold newAddBlockRequest at h
  split at h
  · cases h
  · next block hblock =>
    obtain ⟨opened, hreturned, hrequest⟩ := Option.map_eq_some_iff.mp h
    obtain ⟨processed, hopened, hrequest⟩ := bind_eq_ok.mp hrequest
    rw [wrapErr_eq_ok.mp hopened] at hreturned
    obtain ⟨hvalid, hrequest⟩ := guard_eq_ok hrequest
    simp only [Bool.or_eq_true, not_or, Bool.not_eq_true, Bool.not_eq_false',
      Option.isSome_eq_false_iff, Option.isNone_iff_eq_none] at hvalid
    obtain ⟨state, hstate, hrequest⟩ := bind_eq_ok.mp hrequest
    obtain ⟨chainId, hid, hrequest⟩ := bind_eq_ok.mp hrequest
    obtain rfl := pure_eq_ok.mp hrequest
    refine ⟨block, processed, hblock, ⟨hreturned, hvalid.1, hvalid.2, ⟨chainId, hid, rfl⟩, rfl,
      rfl, rfl, rfl, ?_⟩⟩
    unfold stateOf at hstate
    split
    · next hpos =>
      rw [if_pos hpos] at hstate
      obtain ⟨nodes, hnodes, hstate⟩ := bind_eq_ok.mp hstate
      exact ⟨nodes, wrapErr_eq_ok.mp hnodes, (pure_eq_ok.mp hstate).symm⟩
    · next hzero =>
      rw [if_neg hzero] at hstate
      exact (Except.ok.inj hstate).symm

end Tupelo

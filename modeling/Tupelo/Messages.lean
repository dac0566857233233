import Mathlib.Data.Finmap
import Tupelo.Infra.MerkleDag

/-!
# The messages of the gossip protocol

The protobuf messages that signers and clients exchange, with the fields the program reads.
Round heights are `Nat`: a node counts its rounds up one by one from zero and a client only
compares them. The height of an `AddBlockRequest` is chosen by whoever sends it and the
signer adds one to it, so there it is a `UInt64`.

Pointers that the program dereferences without looking are `Option`; see `Fault`.
-/

namespace Tupelo

open Infra

/--
What stops a Go function: an `error` it returns, or a panic. Transactors and validators return
a `consensus.ErrorCode`, which has a code and a memo.
-/
inductive Fault where
  | error (msg : String)
  | coded (code : Nat) (memo : String)
  | panic (msg : String)
  deriving DecidableEq, Repr

/-- `fmt.Errorf("...: %w", err)` around a call. A panic passes through. -/
def wrapErr {α : Type} (context : String) : Except Fault α → Except Fault α
  | .error (.error msg) => .error (.error (context ++ msg))
  | x => x

@[simp] theorem wrapErr_ok {α : Type} (context : String) (a : α) :
    wrapErr context (.ok a) = .ok a := rfl

@[simp] theorem wrapErr_eq_ok {α : Type} {context : String} {x : Except Fault α} {a : α} :
    wrapErr context x = .ok a ↔ x = .ok a := by
  match x with
  | .ok _ => exact Iff.rfl
  | .error (.panic _) => exact Iff.rfl
  | .error (.coded _ _) => exact Iff.rfl
  | .error (.error _) => simp [wrapErr]

/-- Dereferencing a pointer. -/
def deref {α : Type} : Option α → Except Fault α
  | some x => .ok x
  | none => .error (.panic "invalid memory address or nil pointer dereference")

theorem deref_eq_ok {α : Type} {p : Option α} {a : α} (h : deref p = .ok a) : p = some a := by
  cases p with
  | none => cases h
  | some x => rw [Except.ok.inj h]

/-- `cid.Cid` is a wrapper around the bytes of the identifier. -/
@[ext] structure Cid where
  bytes : Bytes
  deriving DecidableEq, Repr

/-- `cid.Undef`. -/
def Cid.undef : Cid := ⟨[]⟩

/-- `services.AddBlockRequest`. -/
structure AddBlockRequest where
  objectId : Bytes
  previousTip : Bytes
  newTip : Bytes
  height : UInt64
  payload : Bytes
  state : List Bytes
  deriving DecidableEq, Repr

/-- A request without a block, for examples. -/
def AddBlockRequest.bare (objectId previousTip newTip : Bytes) (height : UInt64) :
    AddBlockRequest :=
  { objectId, previousTip, newTip, height, payload := [], state := [] }

/-- `gossip.Checkpoint`: the CIDs of the requests accepted in one round. -/
structure Checkpoint where
  height : Nat
  addBlockRequests : List Bytes
  deriving DecidableEq, Repr

/-- `gossip.Round`: a completed round. -/
@[ext]
structure Round where
  height : Nat
  stateCid : Bytes
  checkpointCid : Bytes
  deriving DecidableEq, Repr

/-- `signatures.PublicKey_Type`; `other` stands for the values without a name. -/
inductive KeyType where
  | secp256k1
  | blsGroupSig
  | other (n : Int)
  deriving DecidableEq, Repr

/-- `signatures.PublicKey`. -/
structure PublicKey where
  type : KeyType
  publicKey : Bytes
  deriving DecidableEq, Repr

/-- `signatures.Ownership`. -/
structure Ownership where
  publicKey : Option PublicKey
  conditions : String
  deriving DecidableEq, Repr

/-- `signatures.Signature`. `signers` counts how often each signer of the group is in it. -/
structure Signature where
  ownership : Option Ownership
  signers : List UInt32
  signature : Bytes
  preImage : String
  deriving DecidableEq, Repr

/-- `gossip.RoundConfirmation`. The signature covers `roundCid` only. -/
structure RoundConfirmation where
  roundCid : Bytes
  signature : Option Signature
  height : Nat
  deriving DecidableEq, Repr

/-- `gossip.Proof`. -/
structure Proof where
  objectId : Bytes
  tip : Bytes
  addBlockRequest : Option AddBlockRequest
  checkpoint : Option Checkpoint
  round : Option Round
  roundConfirmation : Option RoundConfirmation
  deriving DecidableEq, Repr

/--
The contents of a `hamt.Node`: object ids to the CIDs of their latest requests.

The HAMT library is not part of the repository. It is used as a finite map whose `Copy` is
deep and whose CID depends only on its contents, and that is what the type says: two equal
maps are the same node.
-/
abbrev Hamt := Finmap fun _ : Bytes => Cid

/--
The nodes that have a CID: those signers and clients keep in a DAG store, where a nil pointer
wraps to `null`, and the nodes of chain trees.
-/
inductive DagNode where
  | null
  | addBlockRequest (abr : AddBlockRequest)
  | checkpoint (cp : Checkpoint)
  | round (r : Round)
  | hamt (h : Hamt)
  | obj (o : Obj Cid)

end Tupelo

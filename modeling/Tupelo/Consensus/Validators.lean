import Tupelo.Consensus.Transactions
import Tupelo.Infra.AnyM

/-!
# Validators of transactions

A chain tree checks a whole block before it runs the block's transactions. Two of the validators
look at receives: `IsTokenRecipient` compares the destination of the send with the id of the
tree, and the validator made by `GenerateHasValidProof` checks the proof for the tip. The
transactions of a block are pointers, and so are their payloads. A third validator looks for a
send that burns.

Each call ranges over maps in its own order, so a validator takes the orders of its calls, by
the position of the receive in the block.
-/

namespace Tupelo

open Infra

/-- `%v` of an `ErrorCode` or another error, in the memo of a new `ErrorCode`. -/
def recodeErr {α : Type} (code : Nat) (memo : String → String) : Except Fault α → Except Fault α
  | .error (.error msg) => .error (.coded code (memo msg))
  | .error (.coded c msg) => .error (.coded code (memo (toString c ++ " - " ++ msg)))
  | x => x

@[simp] theorem recodeErr_eq_ok {α : Type} {code : Nat} {memo : String → String}
    {x : Except Fault α} {a : α} : recodeErr code memo x = .ok a ↔ x = .ok a := by
  match x with
  | .ok _ => exact Iff.rfl
  | .error (.panic _) => exact Iff.rfl
  | .error (.coded _ _) => simp [recodeErr]
  | .error (.error _) => simp [recodeErr]

/-- The transactions of a block that was decoded. -/
abbrev TransactionPtrs := List (Option Transaction)

def getReceiveTokenPayloads : TransactionPtrs → Except Fault (List (Option ReceiveTokenPayload))
  | [] => .ok []
  | t :: txns => do
    let t ← deref t
    if t.type = .receiveToken then
      let rt ← codeErr errUnknown ("error reading payload: " ++ ·)
        (t.ensure .receiveToken t.receiveTokenPayload)
      let receiveTokens ← getReceiveTokenPayloads txns
      return rt :: receiveTokens
    else getReceiveTokenPayloads txns

/-- The payloads of the receives among transactions that are there. -/
def receivePayloads (txns : TransactionPtrs) : List (Option ReceiveTokenPayload) :=
  txns.filterMap fun t => t.bind fun txn =>
    if txn.type = .receiveToken then some txn.receiveTokenPayload else none

/-- The type of a receive is tested before its payload is asked for. -/
theorem getReceiveTokenPayloads_eq : ∀ {txns : TransactionPtrs},
    (∀ t ∈ txns, ∃ txn, t = some txn) →
      getReceiveTokenPayloads txns = .ok (receivePayloads txns)
  | [], _ => rfl
  | t :: txns, h => by
    obtain ⟨⟨txn, rfl⟩, hrest⟩ := List.forall_mem_cons.mp h
    have ih := getReceiveTokenPayloads_eq hrest
    rw [getReceiveTokenPayloads, deref, ok_bind, ih, receivePayloads, receivePayloads,
      List.filterMap_cons]
    by_cases htype : txn.type = .receiveToken
    · simp only [if_pos htype, Transaction.ensure_of_type htype, Option.bind_some]
      rfl
    · simp only [if_neg htype, Option.bind_some]

theorem mem_receivePayloads {txns : TransactionPtrs} {rt : Option ReceiveTokenPayload} :
    rt ∈ receivePayloads txns ↔
      ∃ txn, some txn ∈ txns ∧ txn.type = .receiveToken ∧ txn.receiveTokenPayload = rt := by
  rw [receivePayloads, List.mem_filterMap]
  constructor
  · rintro ⟨t, ht, h⟩
    obtain ⟨txn, rfl, hpayload⟩ := Option.bind_eq_some_iff.mp h
    split at hpayload
    · next htype => exact ⟨txn, ht, htype, Option.some.inj hpayload⟩
    · cases hpayload
  · rintro ⟨txn, ht, htype, rfl⟩
    exact ⟨some txn, ht, if_pos htype⟩

section

variable {L : Ipld} (D : DagLib L)

/-- One round of the loop of `IsTokenRecipient`. -/
def isForRecipient (ranges : Ranges) (id : Obj Cid) (rt : Option ReceiveTokenPayload) :
    Except Fault Bool := do
  let rt ← deref rt
  let senderDag ← getSenderDagFromReceive D rt
  let (_, sendToken) ← selectSend D ranges senderDag
  match id with
  | .str id => return id = sendToken.destination
  | o => .error (.panic ("interface conversion: interface is " ++ goType o ++ ", not string"))

def isTokenRecipient (ranges : Nat → Ranges) (tree : Dag L) (txns : TransactionPtrs) :
    Except Fault Bool := do
  let receiveTokens ← recodeErr errUnknown ("error getting RECEIVE_TOKEN transactions: " ++ ·)
    (getReceiveTokenPayloads txns)
  if receiveTokens.isEmpty then return true
  else
    let (id, _) ← codeErr errUnknown ("error: " ++ ·) (D.resolve tree ["id"])
    receiveTokens.zipIdx.allM fun rt => isForRecipient D (ranges rt.2) id rt.1

/-- One round of the loop of `HasValidProof`. -/
def hasProof (L : Ipld) (proofVerifier : Proof → Except Fault Bool)
    (rt : Option ReceiveTokenPayload) : Except Fault Bool := do
  let rt ← deref rt
  let tip ← codeErr errInvalidTip ("error casting tip to CID: " ++ ·) (L.cast rt.tip)
  let receiveProof ← deref rt.proof
  let proofTip ← codeErr errInvalidTip ("error casting proof tip to CID: " ++ ·)
    (L.cast receiveProof.tip)
  if proofTip ≠ tip then return false
  else recodeErr errUnknown ("error verifying proof: " ++ ·) (proofVerifier receiveProof)

/-- The validator `GenerateHasValidProof` makes. -/
def hasValidProof (L : Ipld) (proofVerifier : Proof → Except Fault Bool)
    (txns : TransactionPtrs) : Except Fault Bool := do
  let receiveTokens ← recodeErr errUnknown ("error getting RECEIVE_TOKEN transactions: " ++ ·)
    (getReceiveTokenPayloads txns)
  if receiveTokens.isEmpty then return true
  else receiveTokens.allM (hasProof L proofVerifier)

def isTokenBurn (tokenName : String) (burnAmount : UInt64) (tx : Option Transaction) :
    Except Fault Bool := do
  let amount := if burnAmount = 0 then 1 else burnAmount
  let tx ← deref tx
  if tx.type = .sendToken then
    let payload ← deref tx.sendTokenPayload
    return decide (payload.name = tokenName ∧ amount ≤ payload.amount ∧ payload.destination = "")
  else return false

/-- The validator `HasBurnGenerator` makes: it looks for the first burn. -/
def hasBurn (tokenName : String) (burnAmount : UInt64) (txns : TransactionPtrs) :
    Except Fault Bool := txns.anyM (isTokenBurn tokenName burnAmount)

/-- An accepted receive has a proof that verifies for its tip. -/
def Proven (proofVerifier : Proof → Except Fault Bool) (rt : ReceiveTokenPayload) : Prop :=
  ∃ p, rt.proof = some p ∧ proofVerifier p = .ok true ∧ p.tip = rt.tip

theorem hasProof_ok {proofVerifier : Proof → Except Fault Bool} {rt : ReceiveTokenPayload}
    (h : hasProof L proofVerifier (some rt) = .ok true) : Proven proofVerifier rt := by
  rw [hasProof, deref, ok_bind] at h
  obtain ⟨tip, htip, h⟩ := bind_eq_ok.mp h
  obtain ⟨p, hp, h⟩ := bind_eq_ok.mp h
  obtain ⟨proofTip, hproofTip, h⟩ := bind_eq_ok.mp h
  split at h
  · cases h
  · next heq =>
    rw [not_not.mp heq] at hproofTip
    exact ⟨p, deref_eq_ok hp, recodeErr_eq_ok.mp h,
      Ipld.cast_inj (codeErr_eq_ok.mp hproofTip) (codeErr_eq_ok.mp htip)⟩

/-- **Every receive of a block that passes has a valid proof.** -/
theorem hasValidProof_ok {proofVerifier : Proof → Except Fault Bool} {txns : List Transaction}
    (h : hasValidProof L proofVerifier (txns.map some) = .ok true) {t : Transaction}
    {rt : ReceiveTokenPayload} (ht : t ∈ txns) (htype : t.type = .receiveToken)
    (hrt : t.receiveTokenPayload = some rt) : Proven proofVerifier rt := by
  have hthere : ∀ t ∈ txns.map some, ∃ txn, t = some txn := by
    intro t ht
    obtain ⟨txn, -, rfl⟩ := List.mem_map.mp ht
    exact ⟨txn, rfl⟩
  have hmem : some rt ∈ receivePayloads (txns.map some) :=
    mem_receivePayloads.mpr ⟨t, List.mem_map_of_mem ht, htype, hrt⟩
  unfold hasValidProof at h
  rw [getReceiveTokenPayloads_eq hthere] at h
  obtain ⟨rts, hrts, h⟩ := bind_eq_ok.mp h
  obtain rfl := Except.ok.inj (recodeErr_eq_ok.mp hrts)
  split at h
  · next hnil =>
    rw [List.isEmpty_iff.mp hnil] at hmem
    cases hmem
  · exact hasProof_ok (allM_eq_true.mp h (some rt) hmem)

end

end Tupelo

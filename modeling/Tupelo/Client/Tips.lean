import Tupelo.Client.Agreement
import Tupelo.Sdk.Proof
import Tupelo.SortedIpld

/-!
# The tip of an object, as a client reads it

The model of `GetTip` and `WaitForFirstRound` (`sdk/gossip/client/client.go`) and of
`ClientDagGetter.GetTip` (`sdk/gossip/types/graftedownership.go`): the client takes the round that
it has a quorum for, fetches the state of the round and looks the object up there.

What it returns is called a proof, but the round and the checkpoint are left out of it. So
`proof.Verify` rejects it, whatever it is given.
-/

namespace Tupelo

open Infra

variable {C : Crypto}
variable {confirmation : RoundConfirmation}

/-- Which case of its `select` ends `WaitForFirstRound`. -/
inductive WaitEnd where
  | received
  | timer
  | done
  deriving DecidableEq

/-- The errors of `GetTip`: `ErrNoRound`, `ErrTipNotFound`, or any other. -/
inductive GetTipError where
  | noRound
  | tipNotFound
  | other (f : Fault)
  deriving DecidableEq

/-- `fmt.Errorf` around an error of a call. -/
def fetching {α : Type} (context : String) (x : Except Fault α) : Except GetTipError α :=
  (wrapErr context x).mapError .other

theorem fetching_eq_ok {α : Type} {context : String} {x : Except Fault α} {a : α} :
    fetching context x = .ok a ↔ x = .ok a := by
  unfold fetching
  rw [mapError_eq_ok, wrapErr_eq_ok]

/-- A call does not fail with `ErrTipNotFound`: that comes from what follows. -/
theorem fetching_bind_tipNotFound {α β : Type} {context : String} {x : Except Fault α}
    {f : α → Except GetTipError β} (h : fetching context x >>= f = .error .tipNotFound) :
    ∃ a, x = .ok a ∧ f a = .error .tipNotFound := by
  cases x with
  | ok a => exact ⟨a, rfl, h⟩
  | error fault => cases fault <;> cases h

namespace RoundSubscriber

/-- A client that has a round does not wait. If `ctx` is done it does not fail either. -/
def waitForFirstRound (rs : RoundSubscriber C) (waited : WaitEnd) : Except GetTipError Unit :=
  match rs.current with
  | some _ => .ok ()
  | none => if waited = .timer then .error .noRound else .ok ()

/-- `GetTip` once a round is there. -/
def getTipOf (L : Ipld) (store : DagStore) (confirmation : RoundConfirmation) (did : Bytes) :
    Except GetTipError Proof := do
  let currentRound ← fetching "error fetching round: " (confirmation.fetchCompletedRound L store)
  let hamtNode ← fetching "error fetching hamt: " (currentRound.fetchHamt L store)
  match hamtNode.lookup did with
  | none => .error .tipNotFound
  | some txCID =>
    let abrNode ← fetching "error getting ABR: " (store.get txCID)
    let abr ← fetching "error decoding ABR: " abrNode.asAddBlockRequest
    return {
      objectId := did
      roundConfirmation := some confirmation
      tip := abr.newTip
      addBlockRequest := some abr
      checkpoint := none
      round := none }

/--
`GetTip`. The messages are those that the client handles between the call and its look at
`Current`, most of them while it waits.
-/
def getTip (L : Ipld) (store : DagStore) (rs : RoundSubscriber C) (messages : List Delivery)
    (waited : WaitEnd) (did : Bytes) : Except GetTipError Proof := do
  rs.waitForFirstRound waited
  match (rs.deliver L messages).current with
  | none => .error .noRound
  | some confirmation => getTipOf L store confirmation did

/-! ## What `GetTip` has read -/

variable {L : Ipld} {store : DagStore} {did : Bytes}

/-- The state that a client with this confirmation reads. -/
structure Reads (L : Ipld) (store : DagStore) (confirmation : RoundConfirmation) (r : Round)
    (hamt : Hamt) : Prop where
  round : confirmation.fetchCompletedRound L store = .ok r
  state : r.fetchHamt L store = .ok hamt

/-- In a store of content-addressed nodes, the CIDs say which round and which state these are. -/
theorem Reads.cids (hstore : store.Addressed L) {r : Round} {hamt : Hamt}
    (h : Reads L store confirmation r hamt) :
    L.cast confirmation.roundCid = .ok (L.cidOf (.round r)) ∧
      L.cast r.stateCid = .ok (L.cidOf (.hamt hamt)) := by
  obtain ⟨c, hc, hr⟩ := RoundConfirmation.fetchCompletedRound_ok h.round
  obtain ⟨c', hc', hh⟩ := Round.fetchHamt_ok h.state
  exact ⟨by rw [hc, hstore c _ hr], by rw [hc', hstore c' _ hh]⟩

theorem getTipOf_ok {proof : Proof} (h : getTipOf L store confirmation did = .ok proof) :
    ∃ r hamt txCID abr, Reads L store confirmation r hamt ∧ hamt.lookup did = some txCID ∧
      store txCID = some (.addBlockRequest abr) ∧
      proof = { objectId := did, roundConfirmation := some confirmation, tip := abr.newTip
                addBlockRequest := some abr, checkpoint := none, round := none } := by
  obtain ⟨r, hr, h⟩ := bind_eq_ok.mp h
  obtain ⟨hamt, hhamt, h⟩ := bind_eq_ok.mp h
  rw [fetching_eq_ok] at hr hhamt
  split at h
  · cases h
  · next txCID htx =>
    obtain ⟨x, hx, h⟩ := bind_eq_ok.mp h
    obtain ⟨abr, habr, h⟩ := bind_eq_ok.mp h
    rw [fetching_eq_ok] at hx habr
    have hx' := DagStore.get_ok hx
    cases x with
    | addBlockRequest a =>
      obtain rfl := Except.ok.inj habr
      exact ⟨r, hamt, txCID, a, ⟨hr, hhamt⟩, htx, hx', (pure_eq_ok.mp h).symm⟩
    | _ => cases habr

theorem getTipOf_tipNotFound (h : getTipOf L store confirmation did = .error .tipNotFound) :
    ∃ r hamt, Reads L store confirmation r hamt ∧ hamt.lookup did = none := by
  obtain ⟨r, hr, h⟩ := fetching_bind_tipNotFound h
  obtain ⟨hamt, hhamt, h⟩ := fetching_bind_tipNotFound h
  refine ⟨r, hamt, ⟨hr, hhamt⟩, ?_⟩
  split at h
  · next hnone => exact hnone
  · obtain ⟨x, -, h⟩ := fetching_bind_tipNotFound h
    obtain ⟨abr, -, h⟩ := fetching_bind_tipNotFound h
    cases h

variable {rs : RoundSubscriber C} {messages : List Delivery} {waited : WaitEnd}

/-- Whatever else happens, an answer is read from the round the client then has. -/
theorem getTip_answer {answer : Except GetTipError Proof}
    (h : rs.getTip L store messages waited did = answer) (hanswer : answer ≠ .error .noRound) :
    ∃ confirmation, (rs.deliver L messages).current = some confirmation ∧
      getTipOf L store confirmation did = answer := by
  unfold getTip at h
  cases hw : rs.waitForFirstRound waited with
  | error e =>
    rw [hw] at h
    unfold waitForFirstRound at hw
    split at hw
    · cases hw
    · split at hw
      · rw [← Except.error.inj hw] at h
        exact absurd h.symm hanswer
      · cases hw
  | ok u =>
    rw [hw, ok_bind] at h
    split at h
    · exact absurd h.symm hanswer
    · next confirmation hcur => exact ⟨confirmation, hcur, h⟩

/--
**What `GetTip` returns is not a proof.**

For every store of content-addressed nodes and whatever keys, quorum and script are used,
`Verify` does not accept it. If the signatures on its round confirmation are good the answer is
`false`, without an error: the round is missing, and what is hashed in its place has another CID.
-/
theorem getTip_proof_rejected (hL : L.Faithful) (hstore : store.Addressed L) {proof : Proof}
    (h : rs.getTip L store messages waited did = .ok proof) (run : Script) (quorumCount : Nat)
    (verKeys : List (VerKey C)) :
    Proof.verify C L run proof quorumCount verKeys ≠ .ok true ∧
      (Proof.verifyRoundConfirmation C run proof.roundConfirmation quorumCount verKeys =
          .ok true → Proof.verify C L run proof quorumCount verKeys = .ok false) := by
  obtain ⟨confirmation, -, htip⟩ := getTip_answer h (fun he => by cases he)
  obtain ⟨r, hamt, txCID, abr, hreads, -, -, rfl⟩ := getTipOf_ok htip
  refine ⟨?_, fun hsigned => ?_⟩
  · intro haccepted
    obtain ⟨conf, round, cp, abr', hall⟩ := Proof.verify_ok haccepted
    cases hall.round
  · have hcid := (hreads.cids hstore).1
    have hne : L.cidOf .null ≠ L.cidOf (.round r) := fun heq => by cases hL.injective heq
    have hlinks : Proof.verifyLinks L
        { objectId := did, roundConfirmation := some confirmation, tip := abr.newTip
          addBlockRequest := some abr, checkpoint := none, round := none } = .ok false := by
      unfold Proof.verifyLinks
      simp only [DagNode.ofPtr, deref, ok_bind, hcid, wrapErr, ne_eq, hne, not_false_eq_true,
        if_true]
      rfl
    unfold Proof.verify
    rw [hsigned]
    exact hlinks

end RoundSubscriber

/-! ## A client that reads a tip -/

namespace TipExample

def abr : AddBlockRequest := .bare [1] [] [7] 0

def hamt : Hamt := Finmap.singleton [1] (Ipld.sorted.cidOf (.addBlockRequest abr))

def round : Round where
  height := 5
  stateCid := (Ipld.sorted.cidOf (.hamt hamt)).bytes
  checkpointCid := [3]

def roundCid : Bytes := (Ipld.sorted.cidOf (.round round)).bytes

def store : DagStore :=
  [.addBlockRequest abr, .hamt hamt, .round round].foldl (DagStore.add Ipld.sorted) fun _ => none

theorem addressed_store : store.Addressed Ipld.sorted := by
  have hempty : DagStore.Addressed Ipld.sorted fun _ => none := fun _ _ h => by cases h
  exact DagStore.addressed_add (DagStore.addressed_add (DagStore.addressed_add hempty _) _) _

def verKeys : List (VerKey (Crypto.signing [roundCid])) := Crypto.twoKeys _

def group : NotaryGroup (Crypto.signing [roundCid]) where
  id := "group"
  signers := (AList.singleton "a" ⟨"a", ⟨[1], ()⟩⟩).insert "b" ⟨"b", ⟨[2], ()⟩⟩
  sortedIds := ["a", "b"]

def delivery : Delivery where
  msg := .ok
    { roundCid, height := 5
      signature := some { ownership := some { publicKey := none, conditions := "" }
                          signers := [1, 1], signature := [1], preImage := "" } }
  run := fun _ _ => .ok true
  store := store

/-- The confirmation comes while the client waits; it reads the tip, and that does not verify. -/
theorem getTip_proof_rejected_example : ∃ proof,
    (RoundSubscriber.new group).getTip Ipld.sorted store [delivery] .received [1] = .ok proof ∧
    proof.tip = [7] ∧
    Proof.verify _ Ipld.sorted (fun _ _ => .ok true) proof 2 verKeys = .ok false := by
  have hrun : ((RoundSubscriber.new group).getTip Ipld.sorted store [delivery] .received
      [1]).toOption.map (fun proof => (proof.tip, Proof.verifyRoundConfirmation
        (Crypto.signing [roundCid]) (fun _ _ => .ok true) proof.roundConfirmation 2 verKeys)) =
      some ([7], .ok true) := by decide +kernel
  obtain ⟨proof, hproof, hv⟩ := Option.map_eq_some_iff.mp hrun
  obtain ⟨htip, hsigned⟩ := Prod.mk.inj hv
  have hok := toOption_eq_some.mp hproof
  exact ⟨proof, hok, htip, (RoundSubscriber.getTip_proof_rejected Ipld.sorted_faithful
    addressed_store hok _ _ _).2 hsigned⟩

end TipExample

end Tupelo

import Tupelo.Client.RoundSubscriber

/-!
# What `current` of a client is worth

`handleMessage` verifies each confirmation once and aggregates afterwards without verifying
again. The first section shows that an aggregate still counts only signers who signed: so
`current` carries the signatures of a quorum, and two clients that follow one group agree on
the round of each height.

The height is another matter. Signers sign the CID of the round; the `Height` next to it in the
message is not signed, and it is never compared with the height inside the round. What a client
takes for its current height is as authentic as the messages it was handed.
-/

namespace Tupelo

open Infra

/-! ## Agreement -/

section Agreement

variable {C : Crypto} {L : Ipld} {group : NotaryGroup C} {keys : List (VerKey C)}
  {signed : VerKey C → Bytes → Prop}

/-- Whoever the confirmation counts has signed its round. -/
def SignedBy (keys : List (VerKey C)) (signed : VerKey C → Bytes → Prop)
    (conf : RoundConfirmation) : Prop :=
  ∀ sig, conf.signature = some sig →
    ∀ i, sig.Counts i → ∃ hi : i < keys.length, signed keys[i] conf.roundCid

theorem signedBy_of_validated (hunf : Unforgeable keys signed) {d : Delivery}
    {conf : RoundConfirmation} {sig sig' : Signature} (h : Validated keys d conf sig sig') :
    SignedBy keys signed conf := by
  intro s hs i hi
  have hss : s = sig' := by
    rw [h.signature] at hs
    exact (Option.some.inj hs).symm
  subst hss
  exact hunf.signed_of_counts h.restored h.verified hi

/-- Aggregation counts nobody who was not counted in a part. -/
theorem aggregates_signedBy : RoundSubscriber.Aggregates C (SignedBy keys signed) := by
  intro existing conf existingSig sig newSig hex hconf _ hround hes hsig hagg s hs i hi
  have hss : s = newSig := (Option.some.inj hs).symm
  subst hss
  rcases (counts_of_aggregate_pair hagg i).mp hi with h | h
  · exact hex existingSig hes i h
  · rw [show existing.roundCid = conf.roundCid from hround]
    exact hconf sig hsig i h

/-- **`current` carries the signatures of a quorum**, after whatever messages. -/
theorem current_signed_by_quorum (hkeys : group.verKeys = .ok keys)
    (hunf : Unforgeable keys signed) {ds : List Delivery} {cur : RoundConfirmation}
    (hcur : ((RoundSubscriber.new group).deliver L ds).current = some cur) :
    ∃ a : Finset Nat, quorumOf keys.length ≤ a.card ∧
      ∀ i ∈ a, ∃ hi : i < keys.length, signed keys[i] cur.roundCid := by
  have hinv : ((RoundSubscriber.new group).deliver L ds).Inv L (SignedBy keys signed) := by
    refine RoundSubscriber.inv_deliver aggregates_signedBy ds _ (RoundSubscriber.inv_new _ group) ?_
    intro d _ keys' conf sig sig' hkeys' hv
    have hk : keys' = keys := Except.ok.inj (hkeys'.symm.trans hkeys)
    subst hk
    exact signedBy_of_validated hunf hv
  obtain ⟨hsigned, sig, hsig, hq⟩ := hinv.current cur hcur
  rw [RoundSubscriber.deliver_group] at hq
  have hcount : group.quorumCount ≤ signerCount sig := of_decide_eq_true hq
  rw [NotaryGroup.quorumCount_eq hkeys, signerCount_eq_card] at hcount
  exact ⟨sig.counted, hcount, fun i hi => hsigned sig hsig i (Signature.mem_counted.mp hi)⟩

/--
**Clients agree.**

Two clients of one group, each after any sequence of messages: if their `current` point to
rounds of equal height, they point to the same round.
-/
theorem clients_agree (hkeys : group.verKeys = .ok keys) (hnd : keys.Nodup)
    (hfew : FewEquivocate L keys signed) (hunf : Unforgeable keys signed)
    (da db : List Delivery) {ca cb : RoundConfirmation} {ra rb : Round}
    (hca : ((RoundSubscriber.new group).deliver L da).current = some ca)
    (hcb : ((RoundSubscriber.new group).deliver L db).current = some cb)
    (hra : L.cast ca.roundCid = .ok (L.cidOf (.round ra)))
    (hrb : L.cast cb.roundCid = .ok (L.cidOf (.round rb)))
    (hheight : ra.height = rb.height) : ca.roundCid = cb.roundCid := by
  obtain ⟨a, hqa, ha⟩ := current_signed_by_quorum hkeys hunf hca
  obtain ⟨b, hqb, hb⟩ := current_signed_by_quorum hkeys hunf hcb
  rw [← Ipld.cast_ok hra] at ha ⊢
  rw [← Ipld.cast_ok hrb] at hb ⊢
  obtain ⟨key, -, -, -, hcid⟩ := exists_sound_signer hnd hfew hheight hqa hqb ha hb
  rw [hcid]

end Agreement

/-! ### A group of two signers -/

/-- The round both signers of the example complete. -/
def exampleRound : Round := { height := 5, stateCid := [2], checkpointCid := [3] }

noncomputable def exampleRoundCid : Bytes := (Ipld.inFull.cidOf (.round exampleRound)).bytes

noncomputable def exampleCrypto : Crypto := Crypto.signing [exampleRoundCid]

noncomputable def exampleKeys : List (VerKey exampleCrypto) := Crypto.twoKeys _

noncomputable def exampleGroup : NotaryGroup exampleCrypto where
  id := "group"
  signers := (AList.singleton "a" ⟨"a", ⟨[1], ()⟩⟩).insert "b" ⟨"b", ⟨[2], ()⟩⟩
  sortedIds := ["a", "b"]

/-- A confirmation of the example's round by the given signers, claiming the given height. -/
noncomputable def exampleDelivery (height : Nat) (signers : List UInt32) : Delivery where
  msg := .ok
    { roundCid := exampleRoundCid, height
      signature := some { ownership := some { publicKey := none, conditions := "" }
                          signers, signature := [1], preImage := "" } }
  run := fun _ _ => .ok true
  store := fun _ => none

theorem exampleRound_cast :
    Ipld.inFull.cast exampleRoundCid = .ok (Ipld.inFull.cidOf (.round exampleRound)) :=
  Ipld.inFull_faithful.cast_cidOf _

/-- What a client of the example has as `current`. -/
noncomputable def exampleCurrent (height : Nat) (signature : Bytes) : RoundConfirmation where
  roundCid := exampleRoundCid
  height := height
  signature := some
    { ownership := some { publicKey := some ⟨.blsGroupSig, [1]⟩, conditions := "" }
      signers := [1, 1], signature, preImage := "" }

theorem exampleGroup_verKeys : exampleGroup.verKeys = .ok exampleKeys := rfl

/-- One client hears the signers one by one, the other hears them at once. -/
theorem clients_agree_example :
    (exampleCurrent 5 [1]).roundCid = (exampleCurrent 7 [1]).roundCid :=
  clients_agree exampleGroup_verKeys (Crypto.twoKeys_nodup _)
    (Crypto.fewEquivocate_signing Ipld.inFull exampleRoundCid (List.cons_ne_nil _ _))
    (Crypto.unforgeable_signing [exampleRoundCid] exampleKeys)
    [exampleDelivery 5 [1, 0], exampleDelivery 5 [0, 1]] [exampleDelivery 7 [1, 1]]
    (by decide +kernel) (by decide +kernel) exampleRound_cast exampleRound_cast rfl

/-! ## The height of `current` -/

section RoundHeight

variable {C : Crypto} {L : Ipld}

/-- The height in the message is the one in the round it names. -/
def AuthenticHeight (L : Ipld) (conf : RoundConfirmation) : Prop :=
  ∀ r : Round, L.cast conf.roundCid = .ok (L.cidOf (.round r)) → conf.height = r.height

/-- A message handed on as signers send it: if its signature verifies, its height is authentic. -/
def Delivery.Unaltered (L : Ipld) (group : NotaryGroup C) (d : Delivery) : Prop :=
  ∀ keys conf sig sig', group.verKeys = .ok keys → Validated keys d conf sig sig' →
    AuthenticHeight L conf

/-- Aggregation keeps the height, so the client has the invariant with authentic heights. -/
theorem inv_of_unaltered {group : NotaryGroup C} {ds : List Delivery}
    (hds : ∀ d ∈ ds, d.Unaltered L group) :
    ((RoundSubscriber.new group).deliver L ds).Inv L (AuthenticHeight L) := by
  have hagg : RoundSubscriber.Aggregates C (AuthenticHeight L) := by
    intro existing conf existingSig sig newSig hex _ _ _ _ _ _ r hr
    exact hex r hr
  refine RoundSubscriber.inv_deliver hagg ds _ (RoundSubscriber.inv_new _ group) ?_
  intro d hd keys conf sig sig' hkeys hv
  exact hds d hd keys conf sig sig' hkeys hv

/--
**The height of `current` is authentic while no message is altered.**

Messages whose signature does not verify may claim any height.
-/
theorem current_height_authentic (group : NotaryGroup C) (ds : List Delivery)
    (hds : ∀ d ∈ ds, d.Unaltered L group) (cur : RoundConfirmation)
    (hcur : ((RoundSubscriber.new group).deliver L ds).current = some cur) :
    AuthenticHeight L cur :=
  ((inv_of_unaltered hds).current cur hcur).1

end RoundHeight

/-- The two signers confirm a round of height 5 and the client takes 5 for its height. -/
theorem current_height_authentic_example : AuthenticHeight Ipld.inFull (exampleCurrent 5 [1]) := by
  refine current_height_authentic exampleGroup
    [exampleDelivery 5 [1, 0], exampleDelivery 5 [0, 1]] ?_ _ (by decide +kernel)
  intro d hd keys conf sig sig' _ hv r hr
  have hmsg : conf.height = 5 ∧ conf.roundCid = exampleRoundCid := by
    rw [List.mem_cons, List.mem_singleton] at hd
    rcases hd with rfl | rfl
    · have hm := Except.ok.inj hv.msg
      exact ⟨(congrArg RoundConfirmation.height hm).symm,
        (congrArg RoundConfirmation.roundCid hm).symm⟩
    · have hm := Except.ok.inj hv.msg
      exact ⟨(congrArg RoundConfirmation.height hm).symm,
        (congrArg RoundConfirmation.roundCid hm).symm⟩
  have hbytes := Ipld.cast_ok hr
  rw [hmsg.2] at hbytes
  have hround : Ipld.inFull.cidOf (.round r) = Ipld.inFull.cidOf (.round exampleRound) :=
    congrArg Cid.mk hbytes
  have hr' : r = exampleRound := DagNode.round.inj (Ipld.inFull_faithful.injective hround)
  rw [hmsg.1, hr']
  rfl

/--
A relay that writes 7 for 5 into a confirmation of both signers: the message is accepted, and
the confirmation that the signers sent is then rejected.
-/
theorem current_height_altered :
    ∃ cur, ((RoundSubscriber.new exampleGroup).deliver Ipld.inFull
        [exampleDelivery 7 [1, 1]]).current = some cur ∧
      Ipld.inFull.cast cur.roundCid = .ok (Ipld.inFull.cidOf (.round exampleRound)) ∧
      cur.height = 7 ∧ exampleRound.height = 5 ∧
      (((RoundSubscriber.new exampleGroup).deliver Ipld.inFull
          [exampleDelivery 7 [1, 1]]).handleMessage Ipld.inFull (exampleDelivery 5 [1, 1])).2
        = .error (.error "confirmation of height 5 is less than current 7") := by
  refine ⟨exampleCurrent 7 [1], by decide +kernel, exampleRound_cast, rfl, rfl, ?_⟩
  decide +kernel

end Tupelo

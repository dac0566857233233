import Tupelo.Sdk.NotaryGroup
import Tupelo.Signer.Mempool

/-!
# Proofs of a tip

The model of `sdk/proof/proof.go`.

A proof is a chain of equalities: a quorum signed the CID of the round, the round names the CID
of the checkpoint, the checkpoint lists the CID of the request, and the request has the tip and
the object of the proof. `Accepted` writes the chain down, and `verify_ok` says that `verify`
checks all of it.

From the chain and the behaviour of signers that do not equivocate it follows that two proofs
for one object and height, in rounds of one height, prove the same tip.
-/

namespace Tupelo

open Infra

/-- What `sw.WrapObject` makes of a pointer. -/
def DagNode.ofPtr {α : Type} (node : α → DagNode) : Option α → DagNode
  | some x => node x
  | none => .null

namespace Proof

variable {C : Crypto}
variable {verKeys : List (VerKey C)} {abr : AddBlockRequest} {run : Script} {quorumCount : Nat}
  {cp : Checkpoint} {proof : Proof}

def verifyRoundConfirmation (C : Crypto) (run : Script) (conf : Option RoundConfirmation)
    (quorumCount : Nat) (verKeys : List (VerKey C)) (room : Option Nat := none) :
    Except Fault Bool := do
  let conf ← deref conf
  let sig ← deref conf.signature
  if signerCount sig < quorumCount then pure false
  else
    let sig ← wrapErr "error restoring public key: " (restoreBLSPublicKey sig verKeys room)
    wrapErr "error verifying round signature: " (valid C run sig conf.roundCid)

/-- The loop over the requests of the checkpoint, up to the one that is looked for. -/
def abrFound (L : Ipld) (abrCid : Cid) : List Bytes → Except Fault Bool
  | [] => .ok false
  | cpAbrCidBytes :: rest => do
    let cpAbrCid ←
      wrapErr "error casting checkpoint add block request cid: " (L.cast cpAbrCidBytes)
    if cpAbrCid = abrCid then pure true else abrFound L abrCid rest

/-- The equalities between the parts of the proof, in the order in which they are checked. -/
def verifyLinks (L : Ipld) (proof : Proof) : Except Fault Bool := do
  let roundCid := L.cidOf (.ofPtr .round proof.round)
  let conf ← deref proof.roundConfirmation
  let roundCidFromConf ←
    wrapErr "error casting round confirmation roundcid: " (L.cast conf.roundCid)
  if roundCid ≠ roundCidFromConf then pure false
  else
    let checkpointCid := L.cidOf (.ofPtr .checkpoint proof.checkpoint)
    let round ← deref proof.round
    let checkpointCidFromRound ←
      wrapErr "error casting round checkpoint cid: " (L.cast round.checkpointCid)
    if checkpointCid ≠ checkpointCidFromRound then pure false
    else
      let abrCid := L.cidOf (.ofPtr .addBlockRequest proof.addBlockRequest)
      let checkpoint ← deref proof.checkpoint
      let found ← abrFound L abrCid checkpoint.addBlockRequests
      if !found then pure false
      else
        let tipCid ← wrapErr "error casting tip cid: " (L.cast proof.tip)
        let abr ← deref proof.addBlockRequest
        let tipCidFromAbr ←
          wrapErr "error casting add block request new tip cid: " (L.cast abr.newTip)
        if tipCid ≠ tipCidFromAbr then pure false
        else if proof.objectId ≠ abr.objectId then pure false
        else pure true

def verify (C : Crypto) (L : Ipld) (run : Script) (proof : Proof) (quorumCount : Nat)
    (verKeys : List (VerKey C)) (room : Option Nat := none) : Except Fault Bool := do
  let validRoundConfirmation ← wrapErr "error verifying round confirmation: "
    (verifyRoundConfirmation C run proof.roundConfirmation quorumCount verKeys room)
  if !validRoundConfirmation then pure false
  else verifyLinks L proof

/-! ## What an accepted proof says -/

/-- The parts of a proof and how they hang together. -/
structure Accepted (L : Ipld) (run : Script) (proof : Proof) (quorumCount : Nat)
    (verKeys : List (VerKey C)) (rc : RoundConfirmation) (r : Round) (cp : Checkpoint)
    (abr : AddBlockRequest) : Prop where
  roundConfirmation : proof.roundConfirmation = some rc
  round : proof.round = some r
  checkpoint : proof.checkpoint = some cp
  addBlockRequest : proof.addBlockRequest = some abr
  signed : ∃ sig sig', rc.signature = some sig ∧ quorumCount ≤ signerCount sig ∧
    restoreBLSPublicKey sig verKeys = .ok sig' ∧ valid C run sig' rc.roundCid = .ok true
  roundCid : L.cast rc.roundCid = .ok (L.cidOf (.round r))
  checkpointCid : L.cast r.checkpointCid = .ok (L.cidOf (.checkpoint cp))
  listed : ∃ b ∈ cp.addBlockRequests, L.cast b = .ok (L.cidOf (.addBlockRequest abr))
  tip : proof.tip = abr.newTip
  objectId : proof.objectId = abr.objectId

theorem verifyRoundConfirmation_ok {conf : Option RoundConfirmation}
    (h : verifyRoundConfirmation C run conf quorumCount verKeys = .ok true) :
    ∃ c sig sig', conf = some c ∧ c.signature = some sig ∧ quorumCount ≤ signerCount sig ∧
      restoreBLSPublicKey sig verKeys = .ok sig' ∧ valid C run sig' c.roundCid = .ok true := by
  obtain ⟨c, hc, h⟩ := bind_eq_ok.mp h
  obtain ⟨sig, hsig, h⟩ := bind_eq_ok.mp h
  split at h
  · exact absurd (pure_eq_ok.mp h) Bool.false_ne_true
  · next hq =>
    obtain ⟨sig', hsig', h⟩ := bind_eq_ok.mp h
    rw [wrapErr_eq_ok] at hsig' h
    exact ⟨c, sig, sig', deref_eq_ok hc, deref_eq_ok hsig, not_lt.mp hq, hsig', h⟩

theorem abrFound_ok {L : Ipld} {abrCid : Cid} : ∀ {bs : List Bytes},
    abrFound L abrCid bs = .ok true → ∃ b ∈ bs, L.cast b = .ok abrCid
  | [], h => by cases h
  | b :: bs, h => by
    obtain ⟨c, hc, h⟩ := bind_eq_ok.mp h
    rw [wrapErr_eq_ok] at hc
    split at h
    · next heq => exact ⟨b, List.mem_cons_self, by rw [hc, heq]⟩
    · obtain ⟨b', hb', hcast⟩ := abrFound_ok h
      exact ⟨b', List.mem_cons_of_mem b hb', hcast⟩

/-- A check that passed: its negation returned `false`. -/
theorem check_ok {p : Prop} [Decidable p] {x : Except Fault Bool}
    (h : (if p then pure false else x) = .ok true) : ¬ p ∧ x = .ok true := by
  split at h
  · exact absurd (pure_eq_ok.mp h) Bool.false_ne_true
  · next hp => exact ⟨hp, h⟩

/-- **`verify` checks the whole chain.** -/
theorem verify_ok {L : Ipld} (h : verify C L run proof quorumCount verKeys = .ok true) :
    ∃ conf round cp abr, Accepted L run proof quorumCount verKeys conf round cp abr := by
  obtain ⟨v, hv, h⟩ := bind_eq_ok.mp h
  rw [wrapErr_eq_ok] at hv
  obtain ⟨hvtrue, h⟩ := check_ok h
  have hv' : v = true := by simpa using hvtrue
  rw [hv'] at hv
  obtain ⟨c, sig, sig', hc, hsigned⟩ := verifyRoundConfirmation_ok hv
  -- the links, one by one
  obtain ⟨conf, hconf, h⟩ := bind_eq_ok.mp h
  have hcc : c = conf := Option.some.inj (hc.symm.trans (deref_eq_ok hconf))
  subst hcc
  obtain ⟨roundCid, hrc, h⟩ := bind_eq_ok.mp h
  rw [wrapErr_eq_ok] at hrc
  obtain ⟨hround, h⟩ := check_ok h
  obtain ⟨round, hr, h⟩ := bind_eq_ok.mp h
  have hr' := deref_eq_ok hr
  obtain ⟨cpCid, hcpc, h⟩ := bind_eq_ok.mp h
  rw [wrapErr_eq_ok] at hcpc
  obtain ⟨hcp, h⟩ := check_ok h
  obtain ⟨cp, hcp', h⟩ := bind_eq_ok.mp h
  have hcp'' := deref_eq_ok hcp'
  obtain ⟨found, hfound, h⟩ := bind_eq_ok.mp h
  obtain ⟨hft, h⟩ := check_ok h
  have hft' : found = true := by simpa using hft
  rw [hft'] at hfound
  obtain ⟨tipCid, htip, h⟩ := bind_eq_ok.mp h
  obtain ⟨abr, habr, h⟩ := bind_eq_ok.mp h
  have habr' := deref_eq_ok habr
  obtain ⟨tipCid', htip', h⟩ := bind_eq_ok.mp h
  rw [wrapErr_eq_ok] at htip htip'
  obtain ⟨htips, h⟩ := check_ok h
  obtain ⟨hobj, -⟩ := check_ok h
  rw [not_not] at hround hcp htips hobj
  rw [hr', DagNode.ofPtr] at hround
  rw [hcp'', DagNode.ofPtr] at hcp
  rw [habr', DagNode.ofPtr] at hfound
  refine ⟨c, round, cp, abr, hc, hr', hcp'', habr', ⟨sig, sig', hsigned⟩, ?_, ?_, ?_, ?_, hobj⟩
  · rw [hround, hrc]
  · rw [hcp, hcpc]
  · exact abrFound_ok hfound
  · exact Ipld.cast_inj (htips ▸ htip) htip'

/-- A request among CIDs that can all be cast is found. -/
theorem abrFound_of_mapM {L : Ipld} {context : String} {abrCid : Cid} :
    ∀ {bs : List Bytes} {cids : List Cid},
      (bs.mapM fun b => wrapErr context (L.cast b)) = .ok cids → abrCid ∈ cids →
      abrFound L abrCid bs = .ok true
  | [], cids, h, hmem => by
    have hnil : [] = cids := pure_eq_ok.mp h
    rw [← hnil] at hmem
    cases hmem
  | b :: bs, cids, h, hmem => by
    rw [List.mapM_cons] at h
    obtain ⟨c, hc, h⟩ := bind_eq_ok.mp h
    obtain ⟨cs, hcs, h⟩ := bind_eq_ok.mp h
    have hcons := pure_eq_ok.mp h
    subst hcons
    rw [wrapErr_eq_ok] at hc
    unfold abrFound
    rw [hc]
    by_cases heq : c = abrCid
    · simp only [wrapErr, ok_bind, if_pos heq]
      rfl
    · simp only [wrapErr, ok_bind, if_neg heq]
      refine abrFound_of_mapM hcs ?_
      rcases List.mem_cons.mp hmem with rfl | hmem
      · exact absurd rfl heq
      · exact hmem

/-- **A proof that meets the chain is accepted**, if the CIDs it mentions can be cast. -/
theorem verify_of_accepted {L : Ipld} {rc : RoundConfirmation} {r : Round}
    (h : Accepted L run proof quorumCount verKeys rc r cp abr)
    (hfound : abrFound L (L.cidOf (.addBlockRequest abr)) cp.addBlockRequests = .ok true)
    {tipCid : Cid} (htip : L.cast abr.newTip = .ok tipCid) :
    verify C L run proof quorumCount verKeys = .ok true := by
  obtain ⟨sig, sig', hsig, hq, hrestore, hvalid⟩ := h.signed
  have hconf : verifyRoundConfirmation C run proof.roundConfirmation quorumCount verKeys
      = .ok true := by
    unfold verifyRoundConfirmation
    simp only [h.roundConfirmation, deref, ok_bind, hsig, if_neg (not_lt.mpr hq), hrestore, wrapErr,
      hvalid]
  have hlinks : verifyLinks L proof = .ok true := by
    unfold verifyLinks
    simp only [h.round, h.checkpoint, h.addBlockRequest, h.roundConfirmation, h.tip, h.objectId,
      DagNode.ofPtr, deref, ok_bind, h.roundCid, h.checkpointCid, hfound, htip, wrapErr]
    simp [pure, Except.pure]
  unfold verify
  rw [hconf]
  exact hlinks

/-! ## No two proofs fork an object -/

section Fork

variable {L : Ipld} {keys : List (VerKey C)} {signed : VerKey C → Bytes → Prop}

/--
Signers that do not equivocate sign a round only after its checkpoint has passed
`hasConflictingABRs` against their mempool, where requests are kept under their own CIDs.
-/
def SignConflictFree (L : Ipld) (keys : List (VerKey C)) (signed : VerKey C → Bytes → Prop) :
    Prop :=
  ∀ key ∈ keys, ¬ Equivocates L signed key → ∀ (r : Round) (cp : Checkpoint),
    signed key (L.cidOf (.round r)).bytes →
    L.cast r.checkpointCid = .ok (L.cidOf (.checkpoint cp)) →
    ∃ m : Mempool, m.Keyed L ∧ m.hasConflictingABRs L cp.addBlockRequests = .ok false

/-- An accepted proof carries the signatures of a quorum on its round. -/
theorem Accepted.quorum (hunf : Unforgeable keys signed) {conf : RoundConfirmation} {round : Round}
    (h : Accepted L run proof (quorumOf keys.length) keys conf round cp abr) :
    ∃ a : Finset Nat, quorumOf keys.length ≤ a.card ∧
      ∀ i ∈ a, ∃ hi : i < keys.length, signed keys[i] (L.cidOf (.round round)).bytes := by
  obtain ⟨sig, sig', -, hq, hrestore, hvalid⟩ := h.signed
  obtain ⟨-, hsigners, -⟩ := restoreBLSPublicKey_ok hrestore
  have hcounted : signerCount sig' = signerCount sig := by
    unfold signerCount
    rw [hsigners]
  rw [← hcounted, signerCount_eq_card] at hq
  refine ⟨sig'.counted, hq, ?_⟩
  intro i hi
  rw [Ipld.cast_ok h.roundCid]
  exact hunf.signed_of_counts hrestore hvalid (Signature.mem_counted.mp hi)

/-- The request of an accepted proof, in a mempool that knows the checkpoint. -/
theorem resolves_of_listed (hL : L.Faithful) {m : Mempool} (hm : m.Keyed L)
    (hcf : m.hasConflictingABRs L cp.addBlockRequests = .ok false)
    (h : ∃ b ∈ cp.addBlockRequests, L.cast b = .ok (L.cidOf (.addBlockRequest abr))) :
    ∃ b ∈ cp.addBlockRequests, ∃ w, m.Resolves L b w ∧ w.abr = abr := by
  obtain ⟨b, hb, hcast⟩ := h
  obtain ⟨ws, hres, -⟩ := Mempool.hasConflictingABRs_false hcf
  obtain ⟨i, hi, rfl⟩ := List.mem_iff_getElem.mp hb
  obtain ⟨id, hid, hget⟩ := hres.get hi (by rw [← hres.length_eq]; exact hi)
  refine ⟨_, hb, _, ⟨id, hid, hget⟩, ?_⟩
  have hids : L.cidOf (.addBlockRequest abr) = id := Except.ok.inj (hcast.symm.trans hid)
  exact DagNode.addBlockRequest.inj (hL.injective ((hm _ _ hget).2.trans hids.symm))

/--
**No two verifying proofs fork an object.**

Two accepted proofs whose rounds have one height and whose requests have one object and height
prove one tip.
-/
theorem proofs_agree (hL : L.Faithful) (hnd : keys.Nodup) (hfew : FewEquivocate L keys signed)
    (hunf : Unforgeable keys signed) (hfree : SignConflictFree L keys signed)
    (runp runq : Script) {p q : Proof}
    (hp : verify C L runp p (quorumOf keys.length) keys = .ok true)
    (hq : verify C L runq q (quorumOf keys.length) keys = .ok true)
    {rp rq : Round} (hrp : p.round = some rp) (hrq : q.round = some rq)
    (hround : rp.height = rq.height)
    {ap aq : AddBlockRequest} (hap : p.addBlockRequest = some ap)
    (haq : q.addBlockRequest = some aq) (hobj : ap.objectId = aq.objectId)
    (hheight : ap.height = aq.height) : p.tip = q.tip := by
  obtain ⟨confp, rp', cpp, ap', accp⟩ := verify_ok hp
  obtain ⟨confq, rq', cpq, aq', accq⟩ := verify_ok hq
  obtain rfl : rp' = rp := Option.some.inj (accp.round.symm.trans hrp)
  obtain rfl : rq' = rq := Option.some.inj (accq.round.symm.trans hrq)
  obtain rfl : ap' = ap := Option.some.inj (accp.addBlockRequest.symm.trans hap)
  obtain rfl : aq' = aq := Option.some.inj (accq.addBlockRequest.symm.trans haq)
  obtain ⟨a, hqa, ha⟩ := accp.quorum hunf
  obtain ⟨b, hqb, hb⟩ := accq.quorum hunf
  obtain ⟨key, hkey, hsound, hsigned, hcid⟩ :=
    exists_sound_signer hnd hfew hround hqa hqb ha hb
  -- one round, hence one checkpoint
  have hrounds : rp' = rq' := DagNode.round.inj (hL.injective hcid)
  subst hrounds
  have hcps : cpp = cpq :=
    DagNode.checkpoint.inj
      (hL.injective (Except.ok.inj (accp.checkpointCid.symm.trans accq.checkpointCid)))
  subst hcps
  -- which a signer found free of conflicts
  obtain ⟨m, hm, hcf⟩ := hfree key hkey hsound rp' cpp hsigned accp.checkpointCid
  obtain ⟨bp, hbp, wp, hwp, hwpa⟩ := resolves_of_listed hL hm hcf accp.listed
  obtain ⟨bq, hbq, wq, hwq, hwqa⟩ := resolves_of_listed hL hm hcf accq.listed
  have hset : toConflictSetID wp.abr = toConflictSetID wq.abr := by
    unfold toConflictSetID
    rw [hwpa, hwqa, hobj, hheight]
  have hw : wp = wq := Mempool.eq_of_csID_eq hcf hbp hbq hwp hwq hset
  rw [accp.tip, accq.tip, ← hwpa, ← hwqa, hw]

end Fork

/-! ### Two objects in one round -/

def exampleAbr (objectId : Bytes) : AddBlockRequest := .bare objectId [7] [8] 1

noncomputable def exampleWrapper (objectId : Bytes) : AddBlockWrapper where
  abr := exampleAbr objectId
  cid := Ipld.inFull.cidOf (.addBlockRequest (exampleAbr objectId))

noncomputable def exampleCheckpoint : Checkpoint :=
  Ipld.inFull.naming 5 [exampleAbr [1], exampleAbr [2]]

noncomputable def exampleRound : Round where
  height := 5
  stateCid := [9]
  checkpointCid := (Ipld.inFull.cidOf (.checkpoint exampleCheckpoint)).bytes

noncomputable def exampleMsg : Bytes := (Ipld.inFull.cidOf (.round exampleRound)).bytes

noncomputable def exampleKeys : List (VerKey (Crypto.signing [exampleMsg])) :=
  Crypto.twoKeys [exampleMsg]

/-- A proof for the first object, confirmed by the given signers. -/
noncomputable def exampleProof (signers : List UInt32) : Proof where
  objectId := [1]
  tip := [8]
  addBlockRequest := some (exampleAbr [1])
  checkpoint := some exampleCheckpoint
  round := some exampleRound
  roundConfirmation := some
    { roundCid := exampleMsg, height := 5
      signature := some { ownership := some { publicKey := none, conditions := "" }
                          signers, signature := [1], preImage := "" } }

theorem exampleKeys_signConflictFree :
    SignConflictFree Ipld.inFull exampleKeys fun _ msg => msg ∈ [exampleMsg] := by
  intro key _ _ r cp hsigned hcp
  have hr : r = exampleRound :=
    DagNode.round.inj (Ipld.inFull_faithful.injective
      (congrArg Cid.mk (List.mem_singleton.mp hsigned)))
  subst hr
  have hcast : Ipld.inFull.cast exampleRound.checkpointCid =
      .ok (Ipld.inFull.cidOf (.checkpoint exampleCheckpoint)) :=
    Ipld.inFull_faithful.cast_cidOf (.checkpoint exampleCheckpoint)
  have hcp' : cp = exampleCheckpoint :=
    DagNode.checkpoint.inj (Ipld.inFull_faithful.injective (Except.ok.inj (hcp.symm.trans hcast)))
  subst hcp'
  refine ⟨(Mempool.new.add Ipld.inFull (exampleWrapper [1])).add Ipld.inFull (exampleWrapper [2]),
    ?_, by decide +kernel⟩
  exact Mempool.keyed_add (Mempool.keyed_add Mempool.wf_new.keyed rfl) rfl

/-- Two proofs of one tip that differ in how often a signer counts. -/
theorem proofs_agree_example : (exampleProof [1, 1]).tip = (exampleProof [2, 1]).tip :=
  proofs_agree Ipld.inFull_faithful (Crypto.twoKeys_nodup _)
    (Crypto.fewEquivocate_signing Ipld.inFull exampleMsg (List.cons_ne_nil _ _))
    (Crypto.unforgeable_signing [exampleMsg] exampleKeys) exampleKeys_signConflictFree
    (fun _ _ => .ok true) (fun _ _ => .ok true)
    (by decide +kernel) (by decide +kernel) rfl rfl rfl rfl rfl rfl rfl

end Proof

end Tupelo

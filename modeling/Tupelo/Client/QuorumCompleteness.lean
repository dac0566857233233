import Tupelo.Client.SubscriberState
import Tupelo.Signer.Node

/-!
# A quorum that is heard is a round that is published

Signers and clients never talk about indices: a signer finds its own index by looking for its
key among the signers of the group, and a client reads the vector against its own list of keys.
The first sections say that what `confirmCompletedRound` of a member produces passes the checks
of a client that is behind.

The rest follows a client while the confirmations of one round come in, in any order and as
often as they come. Until the round is published the client has heard of every signer whose
confirmation it got: the only one it may refuse is of a signer it counts already. A quorum
cannot stay in flight, so the quorum that was heard was published.
-/

namespace Tupelo

open Infra

variable {C : Crypto}

/-! ## `NewNode` -/

/-- The loop of `NewNode` over the signers: where the key stands, and 0 if it is not there. -/
def signerIndexFrom (keyBytes : Bytes) : Nat → List (Option (Signer C)) → Except Fault Nat
  | _, [] => .ok 0
  | i, s :: rest => do
    let signer ← deref s
    if signer.verKey.value = keyBytes then pure i else signerIndexFrom keyBytes (i + 1) rest

/-- What a node of the group with the given key signs with. -/
def newNodeEnv (L : Ipld) (group : NotaryGroup C) (signKey : SignKey C) : Except Fault Env := do
  let signerIndex ← signerIndexFrom signKey.verKey.value 0 group.allSigners
  pure { L, sign := fun hsh => blsSign signKey hsh group.signers.keys.length signerIndex }

/-! ## Groups and their members -/

/-- A group with distinct signers, at least one, which have the given keys. -/
structure NotaryGroup.WellFormed (ng : NotaryGroup C) (keys : List (VerKey C)) : Prop where
  nonempty : ng.sortedIds ≠ []
  ids : ng.sortedIds.Perm ng.signers.keys
  verKeys : ng.verKeys = .ok keys
  distinct : (keys.map (·.value)).Nodup

/-- BLS correctness: what the key signs verifies under its verification key. -/
def SignKey.Correct (key : SignKey C) : Prop :=
  ∀ msg s, key.sign msg = .ok s → C.verify key.verKey.point msg s = true

theorem NotaryGroup.WellFormed.length {ng : NotaryGroup C} {keys : List (VerKey C)}
    (h : ng.WellFormed keys) : ng.signers.keys.length = keys.length := by
  rw [← h.ids.length_eq, verKeys_length h.verKeys]

/-- A signer whose key stands at `i` finds `i`. -/
theorem signerIndexFrom_eq : ∀ {l : List (Option (Signer C))} {keys : List (VerKey C)} (k : Nat),
    (l.mapM fun s => do
      let signer ← deref s
      pure signer.verKey) = .ok keys → (keys.map (·.value)).Nodup →
    ∀ {i : Nat} {key : VerKey C}, keys[i]? = some key →
      signerIndexFrom key.value k l = .ok (k + i)
  | [], keys, k, h, _, i, key, hi => by
    have hnil : [] = keys := pure_eq_ok.mp h
    rw [← hnil] at hi
    simp at hi
  | s :: l, keys, k, h, hnd, i, key, hi => by
    rw [List.mapM_cons] at h
    obtain ⟨vk, hvk, h⟩ := bind_eq_ok.mp h
    obtain ⟨vks, hvks, h⟩ := bind_eq_ok.mp h
    obtain ⟨signer, hsigner, hpure⟩ := bind_eq_ok.mp hvk
    have hvk' : signer.verKey = vk := pure_eq_ok.mp hpure
    have hcons := pure_eq_ok.mp h
    subst hcons
    rw [List.map_cons] at hnd
    obtain ⟨hnot, hnd'⟩ := List.nodup_cons.mp hnd
    unfold signerIndexFrom
    rw [deref_eq_ok hsigner]
    simp only [deref, ok_bind]
    cases i with
    | zero =>
      have hkey : vk = key := by simpa using hi
      rw [if_pos (by rw [hvk', hkey])]
      rfl
    | succ i =>
      have hi' : vks[i]? = some key := by simpa using hi
      have hne : signer.verKey.value ≠ key.value := by
        intro he
        refine hnot ?_
        rw [← hvk', he]
        exact List.mem_map_of_mem (List.mem_of_getElem? hi')
      rw [if_neg hne, signerIndexFrom_eq (k + 1) hvks hnd' hi']
      congr 1
      omega

/-- The message is what `confirmCompletedRound` of the node with the key produces. -/
def Delivery.ConfirmationOf (L : Ipld) (group : NotaryGroup C) (completed : Round)
    (signKey : SignKey C) (d : Delivery) : Prop :=
  ∃ E conf, newNodeEnv L group signKey = .ok E ∧
    Node.confirmCompletedRound E completed = .ok conf ∧ d.msg = .ok conf

/-- What a member sends: its own key, itself counted once, and a signature that verifies. -/
theorem Delivery.ConfirmationOf.msg {L : Ipld} {group : NotaryGroup C} {keys : List (VerKey C)}
    (hwf : group.WellFormed keys) {completed : Round} {signKey : SignKey C} {i : Nat}
    (hi : keys[i]? = some signKey.verKey) (hcorrect : signKey.Correct) {d : Delivery}
    (h : d.ConfirmationOf L group completed signKey) :
    ∃ s, C.verify signKey.verKey.point (L.cidOf (.round completed)).bytes s = true ∧ d.msg = .ok
      { roundCid := (L.cidOf (.round completed)).bytes, height := completed.height
        signature := some
          { ownership := some (blsToOwnership signKey.verKey)
            signers := (List.replicate keys.length 0).set i 1
            signature := s, preImage := "" } } := by
  obtain ⟨E, conf, hE, hconf, hmsg⟩ := h
  obtain ⟨signerIndex, hindex, hE⟩ := bind_eq_ok.mp hE
  have hE' := pure_eq_ok.mp hE
  subst hE'
  have hidx := signerIndexFrom_eq 0 hwf.verKeys hwf.distinct hi
  rw [hindex] at hidx
  have hsi : signerIndex = i := by simpa using hidx
  subst hsi
  obtain ⟨sig, hsig, hconf⟩ := bind_eq_ok.mp hconf
  have hconf' := pure_eq_ok.mp hconf
  subst hconf'
  rw [wrapErr_eq_ok] at hsig
  obtain ⟨-, hsig⟩ := guard_eq_ok hsig
  split at hsig
  · cases hsig
  · next s hs =>
    have hsig' := Except.ok.inj hsig
    refine ⟨s, hcorrect _ s hs, ?_⟩
    rw [hmsg, ← hsig', hwf.length]

/-- The nodes of the round can be fetched, and what its checkpoint lists are CIDs. -/
def DagStore.Fetchable (L : Ipld) (completed : Round) (store : DagStore) : Prop :=
  store (L.cidOf (.round completed)) = some (.round completed) ∧
    ∃ cp, completed.fetchCheckpoint L store = .ok cp ∧
      ∀ b ∈ cp.addBlockRequests, ∃ c, L.cast b = .ok c

theorem DagStore.Fetchable.notification {L : Ipld} (hL : L.Faithful) {completed : Round}
    {store : DagStore} (h : store.Fetchable L completed) {conf : RoundConfirmation}
    (hconf : conf.roundCid = (L.cidOf (.round completed)).bytes) :
    ∃ n, RoundSubscriber.notification L store conf = .ok n ∧ n.roundConfirmation = conf ∧
      n.completedRound = completed := by
  obtain ⟨hround, cp, hcp, hcast⟩ := h
  have hfetch : conf.fetchCompletedRound L store = .ok completed :=
    RoundConfirmation.fetchCompletedRound_of_mem (by rw [hconf, hL.cast_cidOf]) hround
  obtain ⟨accepted, hacc⟩ : ∃ r, (cp.addBlockRequests.mapM fun b =>
      wrapErr "error casting cid: " (L.cast b)) = .ok r := by
    refine mapM_ok fun b hb => ?_
    obtain ⟨c, hc⟩ := hcast b hb
    exact ⟨c, by rw [hc]; rfl⟩
  refine ⟨⟨accepted, cp, conf, completed⟩, ?_, rfl, rfl⟩
  unfold RoundSubscriber.notification
  simp only [hfetch, hcp, wrapErr, ok_bind]
  simp only [wrapErr] at hacc
  rw [hacc]
  rfl

/-! ## What a client does with it -/

namespace RoundSubscriber

variable [AddCommMonoid C.Point] {L : Ipld} {group : NotaryGroup C} {keys : List (VerKey C)}
  {rs : RoundSubscriber C} {d : Delivery} {completed : Round} {signKey : SignKey C} {i : Nat}

/-- What a member sends passes the checks of a client that is behind. -/
theorem validate_confirmation (hC : C.Additive) (hT : C.Total) (hwf : group.WellFormed keys)
    (hgroup : rs.group = group)
    (hbelow : ∀ cur, rs.current = some cur → cur.height < completed.height)
    (hi : keys[i]? = some signKey.verKey) (hcorrect : signKey.Correct)
    (hd : d.ConfirmationOf L group completed signKey) :
    ∃ conf, rs.validate d = .ok conf ∧ conf.roundCid = (L.cidOf (.round completed)).bytes ∧
      conf.height = completed.height ∧ ∀ j, conf.Counts j ↔ j = i := by
  obtain ⟨s, hverify, hmsg⟩ := hd.msg hwf hi hcorrect
  have hlt : i < keys.length := (List.getElem?_eq_some_iff.mp hi).1
  have hpoint := keySum_single hi
  obtain ⟨key, hkey⟩ := hT.marshal signKey.verKey.point
  rw [← hpoint] at hkey hverify
  let sig : Signature :=
    { ownership := some (blsToOwnership signKey.verKey)
      signers := (List.replicate keys.length 0).set i 1, signature := s, preImage := "" }
  have hlen : keys.length = sig.signers.length := by simp [sig]
  have hrestore := restoreBLSPublicKey_of_key hC.addsKeys hlen rfl hkey
  have hres := Signature.restored_of_restore hrestore
  have hvalid : valid C d.run _ (L.cidOf (.round completed)).bytes = .ok true :=
    (Signature.valid_iff hC hres _ _).mpr ⟨⟨_, rfl, rfl⟩, hverify⟩
  refine ⟨_, validate_of_valid hmsg hbelow (by rw [hgroup, hwf.verKeys]) rfl hrestore hvalid, rfl,
    rfl, fun j => ?_⟩
  rw [RoundConfirmation.counts_iff rfl]
  exact Signature.counts_single hlt rfl j

/-- Everything stored can be added to; a quorum does not stay in flight. -/
structure Sound (L : Ipld) (group : NotaryGroup C) (rs : RoundSubscriber C) : Prop where
  group_eq : rs.group = group
  inv : rs.Inv L (Verified group)
  tracks : ∃ log, rs.Tracks L log

theorem sound_deliver (hC : C.Additive) (L : Ipld) (group : NotaryGroup C) (ds : List Delivery) :
    ((new group).deliver L ds).Sound L group :=
  ⟨deliver_group ds _, inv_verified hC group ds, _, tracks_reachable L group ds⟩

theorem sound_handleMessage (hC : C.Additive) (h : rs.Sound L group) (d : Delivery) :
    (rs.handleMessage L d).1.Sound L group := by
  have hval : ∀ conf, rs.validate d = .ok conf → Verified group conf := by
    intro conf hc
    obtain ⟨-, keys, sig, sig', hkeys, hv⟩ := validate_ok hc
    rw [h.group_eq] at hkeys
    exact verified_of_validated hC hkeys hv
  obtain ⟨log, ht⟩ := h.tracks
  have hagg : Aggregates C (Verified group) := aggregates_verified hC
  exact ⟨by rw [handleMessage_group, h.group_eq], inv_handleMessage hagg h.inv hval, _,
    tracks_handleMessage hagg h.inv ht hval⟩

/-- The client has the signer's confirmation of the round in flight. -/
def Heard (L : Ipld) (completed : Round) (rs : RoundSubscriber C) (i : Nat) : Prop :=
  ∃ conf, rs.Stored completed.height (L.cidOf (.round completed)) conf ∧ conf.Counts i

/-- The client is still behind the round and has published nothing new. -/
structure Waiting (L : Ipld) (group : NotaryGroup C) (completed : Round)
    (stream : List ValidationNotification) (rs : RoundSubscriber C) : Prop where
  sound : rs.Sound L group
  below : ∀ cur, rs.current = some cur → cur.height < completed.height
  stream : rs.stream = stream

/-- The round is `current`, and one notification for it has been published. -/
structure Published (L : Ipld) (completed : Round) (stream : List ValidationNotification)
    (rs : RoundSubscriber C) : Prop where
  current : ∃ cur, rs.current = some cur ∧
    cur.roundCid = (L.cidOf (.round completed)).bytes ∧ cur.height = completed.height
  stream : ∃ n, rs.stream = stream ++ [n] ∧ n.completedRound = completed ∧
    n.roundConfirmation.roundCid = (L.cidOf (.round completed)).bytes

/-- **A confirmation that is refused is of a signer that counts already.** -/
theorem heard_of_refused (hC : C.Additive) (hT : C.Total) (hL : L.Faithful)
    (hsound : rs.Sound L group) {conf : RoundConfirmation} (hv : rs.validate d = .ok conf)
    (hround : conf.roundCid = (L.cidOf (.round completed)).bytes)
    (hheight : conf.height = completed.height) (hcounts : ∀ j, conf.Counts j ↔ j = i) {f : Fault}
    (ha : RoundConflictSet.add L rs.group (rs.conflictSet conf.height) conf = .error f) :
    rs.Heard L completed i := by
  obtain ⟨-, keys', sig₀, sig, hkeys', hval⟩ := validate_ok hv
  have hcid : L.cast conf.roundCid = .ok (L.cidOf (.round completed)) := by
    rw [hround, hL.cast_cidOf]
  obtain ⟨existing, hl, herr⟩ := RoundConflictSet.add_error hcid hval.signature ha
  have hst := stored_iff.mpr hl
  obtain ⟨-, hcast, keys, existingSig, hkeys, hes, hres, hsigns⟩ := hsound.inv.stored hst
  rw [hsound.group_eq, hkeys] at hkeys'
  have hres' := Signature.restored_of_restore hval.restored
  rw [← Except.ok.inj hkeys'] at hres'
  have hsigns' := ((Signature.valid_iff hC hres' _ _).mp hval.verified).2
  rw [Ipld.cast_inj hcast hcid] at hsigns
  obtain ⟨sum, hsum⟩ := hT.aggregateSignatures _ _ _ _ _ hsigns hsigns'
  obtain ⟨key, hkey⟩ := hT.marshal
    (C.aggregatePublicKeys [keySum existingSig.signers keys, keySum sig.signers keys])
  have hlen : existingSig.signers.length = sig.signers.length := by
    rw [← (hres.key hC.addsKeys).1, ← (hres'.key hC.addsKeys).1]
  rw [hheight] at hst
  refine ⟨existing, hst, ?_⟩
  rcases aggregateBLSSignatures_pair_total hlen (hres.hasKey hC.addsKeys)
    (hres'.hasKey hC.addsKeys) hsum hkey with ⟨r, hr⟩ | ⟨j, hj, hj'⟩
  · obtain ⟨f', hf'⟩ := herr existingSig hes
    rw [hr] at hf'
    cases hf'
  · rw [← RoundConfirmation.counts_iff hval.signature, hcounts] at hj'
    rw [← hj']
    exact (RoundConfirmation.counts_iff hes j).mpr hj

omit [AddCommMonoid C.Point] in
/-- **A confirmation that is filed** adds the signers it counts and forgets nobody. -/
theorem heard_of_filed {conf : RoundConfirmation} {added : Added}
    (hcid : L.cast conf.roundCid = .ok (L.cidOf (.round completed)))
    (hheight : conf.height = completed.height)
    (ha : RoundConflictSet.add L rs.group (rs.conflictSet conf.height) conf = .ok added) {j : Nat}
    (hj : conf.Counts j ∨ rs.Heard L completed j) :
    (rs.file conf.height added.conflictSet).Heard L completed j := by
  obtain ⟨cid, -, hcid', -, hset, -⟩ := RoundConflictSet.add_ok ha
  obtain rfl := Except.ok.inj (hcid.symm.trans hcid')
  refine ⟨added.updated, ?_, ?_⟩
  · rw [hset]
    exact stored_file.mpr (Or.inl ⟨hheight.symm, rfl, rfl⟩)
  · rw [counts_updated hcid ha]
    refine hj.imp_right ?_
    rintro ⟨existing, hex, hcounts⟩
    rw [← hheight] at hex
    exact ⟨existing, stored_iff.mp hex, hcounts⟩

/--
**One confirmation of a member.** Either it completes the quorum and the round is published, or
the client goes on waiting, has heard of the signer and forgets nobody.
-/
theorem waiting_step (hC : C.Additive) (hT : C.Total) (hL : L.Faithful)
    (hwf : group.WellFormed keys) {stream : List ValidationNotification}
    (h : rs.Waiting L group completed stream) (hi : keys[i]? = some signKey.verKey)
    (hcorrect : signKey.Correct) (hd : d.ConfirmationOf L group completed signKey)
    (hstore : d.store.Fetchable L completed) :
    (rs.handleMessage L d).1.Published L completed stream ∨
      ((rs.handleMessage L d).1.Waiting L group completed stream ∧
        (rs.handleMessage L d).1.Heard L completed i ∧
        ∀ j, rs.Heard L completed j → (rs.handleMessage L d).1.Heard L completed j) := by
  obtain ⟨conf, hv, hround, hheight, hcounts⟩ :=
    validate_confirmation hC hT hwf h.sound.group_eq h.below hi hcorrect hd
  have hcid : L.cast conf.roundCid = .ok (L.cidOf (.round completed)) := by
    rw [hround, hL.cast_cidOf]
  have hsound' := sound_handleMessage hC h.sound d
  rcases handleMessage_cases L rs d with
    ⟨hnone, hrs⟩ | ⟨conf', added, -, hv', ha, ⟨hq, hrs⟩ | ⟨hq, hrs⟩⟩
  · -- refused by `add`
    right
    rw [hrs]
    refine ⟨h, ?_, fun j hj => hj⟩
    cases ha : RoundConflictSet.add L rs.group (rs.conflictSet conf.height) conf with
    | error f => exact heard_of_refused hC hT hL h.sound hv hround hheight hcounts ha
    | ok added =>
      unfold accepts at hnone
      rw [hv] at hnone
      simp only [ha] at hnone
      cases hnone
  · -- filed
    obtain rfl := Except.ok.inj (hv.symm.trans hv')
    right
    rw [hrs] at hsound' ⊢
    refine ⟨⟨hsound', h.below, h.stream⟩, ?_, ?_⟩
    · exact heard_of_filed hcid hheight ha (Or.inl ((hcounts i).mpr rfl))
    · exact fun j hj => heard_of_filed hcid hheight ha (Or.inr hj)
  · -- a quorum
    obtain rfl := Except.ok.inj (hv.symm.trans hv')
    left
    obtain ⟨-, hheight', hround', -⟩ :=
      added_spec (aggregates_true C) (h.sound.inv.mono fun _ _ => trivial) trivial ha
    rw [hround] at hround'
    obtain ⟨n, hn, hnc, hnr⟩ := hstore.notification hL hround'
    rw [hrs]
    refine ⟨⟨added.updated, rfl, hround', by rw [hheight', hheight]⟩, n, ?_, hnr, ?_⟩
    · show rs.stream ++ published L d.store added.updated = stream ++ [n]
      rw [h.stream, published, hn]
      rfl
    · rw [hnc, hround']

omit [AddCommMonoid C.Point] in
/-- Once published, further confirmations of the round change nothing. -/
theorem published_deliver {stream : List ValidationNotification} :
    ∀ (ds : List Delivery) {rs : RoundSubscriber C}, rs.Published L completed stream →
      (∀ d ∈ ds, ∃ conf, d.msg = .ok conf ∧ conf.height = completed.height) →
      (rs.deliver L ds).Published L completed stream
  | [], _, h, _ => h
  | d :: ds, rs, h, hds => by
    obtain ⟨cur, hcur, -, hheight⟩ := h.current
    obtain ⟨conf, hmsg, hconf⟩ := hds d List.mem_cons_self
    show ((rs.handleMessage L d).1.deliver L ds).Published L completed stream
    rw [handleMessage_of_le hmsg hcur (by rw [hheight, hconf])]
    exact published_deliver ds h fun d' hd' => hds d' (List.mem_cons_of_mem d hd')

section Members

variable {stream : List ValidationNotification} {signKeys : Nat → SignKey C}
  {members : Finset Nat}

/-- **The confirmations of members, in any order and as often as they come.** -/
theorem waiting_deliver (hC : C.Additive) (hT : C.Total) (hL : L.Faithful)
    (hwf : group.WellFormed keys)
    (hmember : ∀ i ∈ members, keys[i]? = some (signKeys i).verKey)
    (hcorrect : ∀ i ∈ members, (signKeys i).Correct) :
    ∀ (ds : List Delivery) {rs : RoundSubscriber C}, rs.Waiting L group completed stream →
      (∀ d ∈ ds, d.store.Fetchable L completed ∧
        ∃ i ∈ members, d.ConfirmationOf L group completed (signKeys i)) →
      (rs.deliver L ds).Published L completed stream ∨
        ((rs.deliver L ds).Waiting L group completed stream ∧
          (∀ j, rs.Heard L completed j → (rs.deliver L ds).Heard L completed j) ∧
          ∀ i ∈ members, (∃ d ∈ ds, d.ConfirmationOf L group completed (signKeys i)) →
            (rs.deliver L ds).Heard L completed i)
  | [], _, h, _ => Or.inr ⟨h, fun _ hj => hj, by rintro i - ⟨d, hd, -⟩; cases hd⟩
  | d :: ds, rs, h, hds => by
    have hds' := fun d' hd' => hds d' (List.mem_cons_of_mem d hd')
    have hstep := fun i (him : i ∈ members) hd => waiting_step hC hT hL hwf h (hmember i him)
      (hcorrect i him) (d := d) hd (hds d List.mem_cons_self).1
    obtain ⟨-, i₀, hi₀, hd₀⟩ := hds d List.mem_cons_self
    show ((rs.handleMessage L d).1.deliver L ds).Published L completed stream ∨ _
    rcases hstep i₀ hi₀ hd₀ with hpub | ⟨hwait, -, hkeep⟩
    · refine Or.inl (published_deliver ds hpub ?_)
      intro d' hd'
      obtain ⟨-, i, him, hconf⟩ := hds' d' hd'
      obtain ⟨s, -, hmsg⟩ := hconf.msg hwf (hmember i him) (hcorrect i him)
      exact ⟨_, hmsg, rfl⟩
    · rcases waiting_deliver hC hT hL hwf hmember hcorrect ds hwait hds' with
        hpub | ⟨hwait', hkeep', hall⟩
      · exact Or.inl hpub
      · refine Or.inr ⟨hwait', fun j hj => hkeep' j (hkeep j hj), ?_⟩
        rintro i him ⟨d', hd', hconf⟩
        rcases List.mem_cons.mp hd' with rfl | hd'
        · rcases hstep i him hconf with hpub | ⟨-, hheard, -⟩
          · -- published and waiting at once
            obtain ⟨cur, hcur, -, hheight⟩ := hpub.current
            exact absurd (hwait.below cur hcur) (by omega)
          · exact hkeep' i hheard
        · exact hall i him ⟨d', hd', hconf⟩

/-- A quorum of signers cannot all have been heard while the client waits. -/
theorem Waiting.few_heard (hwf : group.WellFormed keys)
    (h : rs.Waiting L group completed stream) (hheard : ∀ i ∈ members, rs.Heard L completed i) :
    members.card < group.quorumCount := by
  by_contra hle
  have hpos : 0 < group.quorumCount := by
    have hne : 0 < group.sortedIds.length := List.length_pos_iff.mpr hwf.nonempty
    rw [NotaryGroup.quorumCount, quorumOf_eq]
    omega
  obtain ⟨i, him⟩ : members.Nonempty := Finset.card_pos.mp (by omega)
  obtain ⟨conf, hst, -⟩ := hheard i him
  obtain ⟨-, -, keys', sig, -, hsig, -⟩ := h.sound.inv.stored hst
  -- the one confirmation in flight for the round counts all of them
  have hsub : members ⊆ sig.counted := by
    intro j hj
    obtain ⟨conf', hst', hcounts⟩ := hheard j hj
    obtain rfl : conf = conf' :=
      Option.some.inj ((stored_iff.mp hst).symm.trans (stored_iff.mp hst'))
    exact Signature.mem_counted.mpr ((RoundConfirmation.counts_iff hsig j).mp hcounts)
  have hcard := Finset.card_le_card hsub
  obtain ⟨log, ht⟩ := h.sound.tracks
  have hpending := ht.pending _ _ _ sig hst hsig
  rw [h.sound.group_eq, isQuorum, decide_eq_false_iff_not, signerCount_eq_card] at hpending
  omega

/--
**Quorum completeness.**

A client, after whatever messages, is behind a completed round. It then gets the confirmations
that a quorum of members made of the round, in any order, as often as they come, and nothing
else, while the nodes of the round can be fetched. Then the round is `current`, and exactly one
notification has been published, for this round.
-/
theorem quorum_complete (hC : C.Additive) (hT : C.Total) (hL : L.Faithful)
    (hwf : group.WellFormed keys) (completed : Round) (signKeys : Nat → SignKey C)
    (members : Finset Nat) (hmember : ∀ i ∈ members, keys[i]? = some (signKeys i).verKey)
    (hcorrect : ∀ i ∈ members, (signKeys i).Correct)
    (hquorum : group.quorumCount ≤ members.card) (before ds : List Delivery)
    (hbelow : ∀ cur, ((new group).deliver L before).current = some cur →
      cur.height < completed.height)
    (hfetch : ∀ d ∈ ds, d.store.Fetchable L completed)
    (hfrom : ∀ d ∈ ds, ∃ i ∈ members, d.ConfirmationOf L group completed (signKeys i))
    (hall : ∀ i ∈ members, ∃ d ∈ ds, d.ConfirmationOf L group completed (signKeys i)) :
    let rs := (new group).deliver L before
    (∃ cur, (rs.deliver L ds).current = some cur ∧
      cur.roundCid = (L.cidOf (.round completed)).bytes ∧ cur.height = completed.height) ∧
    ∃ n, (rs.deliver L ds).stream = rs.stream ++ [n] ∧ n.completedRound = completed ∧
      n.roundConfirmation.roundCid = (L.cidOf (.round completed)).bytes := by
  intro rs
  have hwait : rs.Waiting L group completed rs.stream :=
    ⟨sound_deliver hC L group before, hbelow, rfl⟩
  rcases waiting_deliver hC hT hL hwf hmember hcorrect ds hwait
    (fun d hd => ⟨hfetch d hd, hfrom d hd⟩) with hpub | ⟨hwait', -, hheard⟩
  · exact ⟨hpub.current, hpub.stream⟩
  · have hfew := hwait'.few_heard hwf fun i him => hheard i him (hall i him)
    omega

end Members

end RoundSubscriber

/-! ### Two of three members -/

namespace RoundSubscriber.Example

/-- The keys of the three signers of the group. -/
def keys : List (VerKey Crypto.unary) :=
  [⟨List.replicate 2 0, (1 : Nat)⟩, ⟨List.replicate 3 0, (2 : Nat)⟩,
    ⟨List.replicate 5 0, (4 : Nat)⟩]

def signKey (i : Nat) : SignKey Crypto.unary where
  verKey := ⟨List.replicate (2 ^ i + 1) 0, (2 ^ i : Nat)⟩
  sign := fun msg => .ok (Crypto.unarySign (2 ^ i) msg)

theorem signKey_correct (i : Nat) : (signKey i).Correct := by
  intro msg s hs
  exact decide_eq_true (Except.ok.inj hs).symm

theorem group_wellFormed : group.WellFormed keys where
  nonempty := by decide
  ids := by decide
  verKeys := rfl
  distinct := by decide

/-- What `confirmCompletedRound` of signer `i` makes of the round of height 6. -/
noncomputable def confirmed (i : Nat) : Delivery where
  msg := .ok
    { roundCid := (roundCid 6).bytes, height := 6
      signature := some
        { ownership := some (blsToOwnership (signKey i).verKey)
          signers := (List.replicate 3 0).set i 1
          signature := Crypto.unarySign (2 ^ i) (roundCid 6).bytes, preImage := "" } }
  run := fun _ _ => .error "no script"
  store := store

theorem confirmed_fetchable : store.Fetchable Ipld.inFull (round 6) := by
  have hne : roundCid 6 ≠ roundCid 5 := by decide +kernel
  refine ⟨?_, checkpoint, by decide +kernel, ?_⟩
  · show store (roundCid 6) = some (.round (round 6))
    unfold store
    rw [if_neg hne, if_pos rfl]
  · intro b hb
    rw [List.mem_singleton.mp hb]
    exact ⟨_, Ipld.inFull_faithful.cast_cidOf _⟩

theorem confirmed_one : (confirmed 1).ConfirmationOf Ipld.inFull group (round 6) (signKey 1) :=
  ⟨_, _, rfl, rfl, rfl⟩

theorem confirmed_two : (confirmed 2).ConfirmationOf Ipld.inFull group (round 6) (signKey 2) :=
  ⟨_, _, rfl, rfl, rfl⟩

/-- The client has the round of height 5 and hears signer `c` twice before signer `b`. -/
theorem quorum_complete_example :
    ∃ n, (((new group).deliver Ipld.inFull [delivery 5 0, delivery 5 1]).deliver Ipld.inFull
        [confirmed 2, confirmed 2, confirmed 1]).stream
      = ((new group).deliver Ipld.inFull [delivery 5 0, delivery 5 1]).stream ++ [n] ∧
      n.completedRound = round 6 := by
  have hcur : ((new group).deliver Ipld.inFull [delivery 5 0, delivery 5 1]).current.map
      (fun cur => cur.height) = some 5 := by
    decide +kernel
  have hmem : ∀ d, d ∈ [confirmed 2, confirmed 2, confirmed 1] →
      d = confirmed 2 ∨ d = confirmed 1 := by
    intro d hd
    simpa [or_assoc] using hd
  have hbelow : ∀ cur, ((new group).deliver Ipld.inFull
      [delivery 5 0, delivery 5 1]).current = some cur → cur.height < (round 6).height := by
    intro cur h
    rw [h] at hcur
    have hheight : cur.height = 5 := Option.some.inj hcur
    rw [hheight]
    decide
  have hfetch : ∀ d ∈ [confirmed 2, confirmed 2, confirmed 1],
      d.store.Fetchable Ipld.inFull (round 6) := by
    intro d hd
    rcases hmem d hd with rfl | rfl <;> exact confirmed_fetchable
  have hfrom : ∀ d ∈ [confirmed 2, confirmed 2, confirmed 1], ∃ i ∈ ({1, 2} : Finset Nat),
      d.ConfirmationOf Ipld.inFull group (round 6) (signKey i) := by
    intro d hd
    rcases hmem d hd with rfl | rfl
    · exact ⟨2, by decide, confirmed_two⟩
    · exact ⟨1, by decide, confirmed_one⟩
  have hall : ∀ i ∈ ({1, 2} : Finset Nat), ∃ d ∈ [confirmed 2, confirmed 2, confirmed 1],
      d.ConfirmationOf Ipld.inFull group (round 6) (signKey i) := by
    intro i hi
    rcases Finset.mem_insert.mp hi with rfl | hi
    · exact ⟨confirmed 1, by simp, confirmed_one⟩
    · rw [Finset.mem_singleton.mp hi]
      exact ⟨confirmed 2, by simp, confirmed_two⟩
  obtain ⟨-, n, hn, hround, -⟩ := quorum_complete Crypto.unary_additive Crypto.unary_total
    Ipld.inFull_faithful group_wellFormed (round 6) signKey {1, 2} (by simp [keys, signKey])
    (fun i _ => signKey_correct i) (by decide +kernel) _ _ hbelow hfetch hfrom hall
  exact ⟨n, hn, hround⟩

end RoundSubscriber.Example

end Tupelo

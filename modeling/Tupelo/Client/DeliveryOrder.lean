import Tupelo.Client.Subscriptions

/-!
# The order in which confirmations arrive

Which rounds a client publishes depends on the order of the messages. A quorum at one height
makes the client drop what it has collected below and refuse what comes later for these heights:
when the confirmations of a later round overtake those of an earlier one, the earlier round is
never published, and whoever waits for a request in it waits in vain.

The rounds that could be published are those for which the messages together count a quorum.
They do not depend on the order. An order heeds them if none of their confirmations is refused
before the round has been published; all orders that do so publish the same rounds, namely
these, and serve the same subscriptions.
-/

namespace Tupelo

open Infra

/-- The message confirms the round at the height. -/
def Delivery.Names (d : Delivery) (height : Nat) (roundCid : Bytes) : Prop :=
  ∃ conf, d.msg = .ok conf ∧ conf.height = height ∧ conf.roundCid = roundCid

/-- The message confirms the round at the height and counts the signer. -/
def Delivery.CountsFor (d : Delivery) (height : Nat) (roundCid : Bytes) (i : Nat) : Prop :=
  ∃ conf, d.msg = .ok conf ∧ conf.height = height ∧ conf.roundCid = roundCid ∧ conf.Counts i

theorem Delivery.Names.unique {d : Delivery} {height height' : Nat} {roundCid roundCid' : Bytes}
    (h : d.Names height roundCid) (h' : d.Names height' roundCid') :
    height = height' ∧ roundCid = roundCid' := by
  obtain ⟨conf, hmsg, rfl, rfl⟩ := h
  obtain ⟨conf', hmsg', rfl, rfl⟩ := h'
  obtain rfl := Except.ok.inj (hmsg.symm.trans hmsg')
  exact ⟨rfl, rfl⟩

theorem Delivery.CountsFor.names {d : Delivery} {height : Nat} {roundCid : Bytes} {i : Nat}
    (h : d.CountsFor height roundCid i) : d.Names height roundCid := by
  obtain ⟨conf, hmsg, hheight, hround, -⟩ := h
  exact ⟨conf, hmsg, hheight, hround⟩

section Order

variable {C : Crypto} {L : Ipld} {group : NotaryGroup C}
variable {ds ds' : List Delivery} {conf : RoundConfirmation} {roundCid : Bytes} {height : Nat}

/-- The messages for the round together count a quorum. -/
def HasQuorum (group : NotaryGroup C) (ds : List Delivery) (height : Nat) (roundCid : Bytes) :
    Prop :=
  (∃ d ∈ ds, d.Names height roundCid) ∧
    ∃ signers : Finset Nat, group.quorumCount ≤ signers.card ∧
      ∀ i ∈ signers, ∃ d ∈ ds, d.CountsFor height roundCid i

theorem HasQuorum.perm (hperm : ds.Perm ds') (h : HasQuorum group ds height roundCid) :
    HasQuorum group ds' height roundCid := by
  obtain ⟨⟨d, hd, hnames⟩, signers, hcard, hall⟩ := h
  refine ⟨⟨d, hperm.mem_iff.mp hd, hnames⟩, signers, hcard, fun i hi => ?_⟩
  obtain ⟨d', hd', hcounts⟩ := hall i hi
  exact ⟨d', hperm.mem_iff.mp hd', hcounts⟩

namespace RoundSubscriber

variable {rs : RoundSubscriber C} {d : Delivery}

/-- A notification for the round at the height has been published. -/
def PublishedIn (rs : RoundSubscriber C) (height : Nat) (roundCid : Bytes) : Prop :=
  ∃ n ∈ rs.stream, n.roundConfirmation.height = height ∧ n.roundConfirmation.roundCid = roundCid

/--
No confirmation of a round that could be published is refused before the round has been
published.
-/
def Heeded (L : Ipld) (group : NotaryGroup C) (ds : List Delivery) : Prop :=
  ∀ pre d post, ds = pre ++ d :: post → ∀ height roundCid, d.Names height roundCid →
    HasQuorum group ds height roundCid →
    ((new group).deliver L pre).accepts L d ≠ none ∨
      ((new group).deliver L pre).PublishedIn height roundCid

/-! ## Sequences of messages -/

theorem deliver_append (ds ds' : List Delivery) (rs : RoundSubscriber C) :
    rs.deliver L (ds ++ ds') = (rs.deliver L ds).deliver L ds' :=
  List.foldl_append ..

theorem acceptedLog_append : ∀ (ds ds' : List Delivery) (rs : RoundSubscriber C),
    rs.acceptedLog L (ds ++ ds') = rs.acceptedLog L ds ++ (rs.deliver L ds).acceptedLog L ds'
  | [], _, _ => rfl
  | d :: ds, ds', rs => by
    rw [List.cons_append, acceptedLog, acceptedLog, acceptedLog_append ds ds', List.append_assoc]
    rfl

theorem PublishedIn.deliver (h : rs.PublishedIn height roundCid) (ds : List Delivery) :
    (rs.deliver L ds).PublishedIn height roundCid := by
  obtain ⟨n, hn, hround⟩ := h
  obtain ⟨notis, hstream, -⟩ := deliver_stream ds rs
  exact ⟨n, by rw [hstream]; exact List.mem_append_left _ hn, hround⟩

/-- What is accepted names the round and counts the signers that the message does. -/
theorem accepts_spec (h : rs.accepts L d = some conf) :
    d.Names conf.height conf.roundCid ∧
      ∀ i, conf.Counts i ↔ d.CountsFor conf.height conf.roundCid i := by
  have hv : rs.validate d = .ok conf := by
    unfold accepts at h
    cases hv : rs.validate d with
    | error f => rw [hv] at h; cases h
    | ok conf' =>
      rw [hv] at h
      simp only [] at h
      split at h
      · cases h
      · rw [Option.some.inj h]
  obtain ⟨-, keys, sig, sig', -, hval⟩ := validate_ok hv
  obtain ⟨-, hsigners, -⟩ := restoreBLSPublicKey_ok hval.restored
  have hcounts : ∀ i, sig'.Counts i ↔ sig.Counts i := by
    intro i
    unfold Signature.Counts
    rw [hsigners]
  refine ⟨⟨_, hval.msg, rfl, rfl⟩, fun i => ?_⟩
  rw [RoundConfirmation.counts_iff hval.signature, hcounts]
  constructor
  · intro hi
    exact ⟨_, hval.msg, rfl, rfl, sig, rfl, hi⟩
  · rintro ⟨conf', hmsg, -, -, hi⟩
    rw [← Except.ok.inj (hval.msg.symm.trans hmsg)] at hi
    exact (RoundConfirmation.counts_iff rfl i).mp hi

/-! ## What is published has a quorum -/

/-- Whoever the confirmation counts is counted by one of the messages for its round. -/
def From (ds : List Delivery) (conf : RoundConfirmation) : Prop :=
  (∃ d ∈ ds, d.Names conf.height conf.roundCid) ∧
    ∀ i, conf.Counts i → ∃ d ∈ ds, d.CountsFor conf.height conf.roundCid i

theorem aggregates_from (ds : List Delivery) : Aggregates C (From ds) := by
  intro existing conf existingSig sig newSig hex hconf hheight hround hes hsig hnew
  refine ⟨hex.1, fun i hi => ?_⟩
  rw [RoundConfirmation.counts_iff rfl, counts_of_aggregate_pair hnew,
    ← RoundConfirmation.counts_iff hes, ← RoundConfirmation.counts_iff hsig] at hi
  rcases hi with hi | hi
  · exact hex.2 i hi
  · show ∃ d ∈ ds, d.CountsFor existing.height existing.roundCid i
    rw [hheight, hround]
    exact hconf.2 i hi

theorem from_of_validated {keys : List (VerKey C)} (hd : d ∈ ds) {sig sig' : Signature}
    (h : Validated keys d conf sig sig') : From ds conf := by
  obtain ⟨-, hsigners, -⟩ := restoreBLSPublicKey_ok h.restored
  refine ⟨⟨d, hd, _, h.msg, rfl, rfl⟩, fun i hi => ?_⟩
  rw [RoundConfirmation.counts_iff h.signature] at hi
  unfold Signature.Counts at hi
  rw [hsigners] at hi
  exact ⟨d, hd, _, h.msg, rfl, rfl, sig, rfl, hi⟩

theorem hasQuorum_of_published (h : ((new group).deliver L ds).PublishedIn height roundCid) :
    HasQuorum group ds height roundCid := by
  obtain ⟨n, hn, rfl, rfl⟩ := h
  obtain ⟨notis, hstream, hnotis⟩ := deliver_stream ds (new group) (L := L)
  rw [hstream] at hn
  obtain ⟨pre, d, post, conf, hds, hcur, hnoti⟩ := hnotis n hn
  have hinv : ((new group).deliver L (pre ++ [d])).Inv L (From ds) := by
    refine inv_deliver (aggregates_from ds) _ _ (inv_new _ group) ?_
    intro d' hd' keys conf sig sig' _ hv
    refine from_of_validated ?_ hv
    rw [hds]
    rcases List.mem_append.mp hd' with hd' | hd'
    · exact List.mem_append_left _ hd'
    · rw [List.mem_singleton.mp hd']
      exact List.mem_append_right _ List.mem_cons_self
  obtain ⟨⟨hnames, hcounts⟩, sig, hsig, hq⟩ := hinv.current conf hcur
  rw [deliver_group] at hq
  have hcount : group.quorumCount ≤ signerCount sig := of_decide_eq_true hq
  rw [signerCount_eq_card] at hcount
  rw [(notification_ok hnoti).1]
  refine ⟨hnames, sig.counted, hcount, fun i hi => ?_⟩
  exact hcounts i ((RoundConfirmation.counts_iff hsig i).mpr (Signature.mem_counted.mp hi))

/-! ## What has a quorum is published -/

/-- In an order that heeds the round, what came for it was accepted or it is published. -/
theorem logged_or_published (hheed : Heeded L group ds) (hq : HasQuorum group ds height roundCid)
    {pre post : List Delivery} (hds : ds = pre ++ post) {d : Delivery} (hd : d ∈ pre) {i : Nat}
    (hcounts : d.CountsFor height roundCid i) :
    ((new group).deliver L pre).PublishedIn height roundCid ∨
      ∃ m ∈ (new group).acceptedLog L pre, m.height = height ∧ m.roundCid = roundCid ∧
        m.Counts i := by
  obtain ⟨p, q, rfl⟩ := List.append_of_mem hd
  rw [List.append_assoc, List.cons_append] at hds
  rcases hheed p d (q ++ post) hds height roundCid hcounts.names hq with hacc | hpub
  · obtain ⟨m, hm⟩ := Option.ne_none_iff_exists'.mp hacc
    obtain ⟨hnames, hcounts'⟩ := accepts_spec hm
    obtain ⟨rfl, rfl⟩ := hcounts.names.unique hnames
    refine Or.inr ⟨m, ?_, rfl, rfl, (hcounts' i).mpr hcounts⟩
    rw [acceptedLog_append]
    refine List.mem_append_right _ ?_
    rw [acceptedLog, hm]
    exact List.mem_cons_self
  · left
    rw [deliver_append]
    exact hpub.deliver _

/-- Whether the fetching succeeds depends on the round alone. -/
theorem notification_of_roundCid {store : DagStore} (conf' : RoundConfirmation)
    (hround : conf'.roundCid = conf.roundCid) {n : ValidationNotification}
    (h : notification L store conf = .ok n) :
    notification L store conf' = .ok { n with roundConfirmation := conf' } := by
  obtain ⟨-, hfetch, hcp, hacc⟩ := notification_ok h
  have hfetch' : conf'.fetchCompletedRound L store = .ok n.completedRound := by
    rw [← hfetch]
    unfold RoundConfirmation.fetchCompletedRound
    rw [hround]
  unfold notification
  rw [hfetch']
  simp only [wrapErr, ok_bind, hcp]
  simp only [wrapErr] at hacc
  rw [hacc]
  rfl

/-- With the last message for a round accepted, the log has whoever the messages count. -/
theorem logged_of_last {pre post : List Delivery} (hheed : Heeded L group ds)
    (hq : HasQuorum group ds conf.height conf.roundCid) (hds : ds = pre ++ d :: post)
    (hacc : ((new group).deliver L pre).accepts L d = some conf)
    (hpub : ¬ ((new group).deliver L pre).PublishedIn conf.height conf.roundCid)
    (hpost : ∀ d' ∈ post, ¬ d'.Names conf.height conf.roundCid) {i : Nat} {d' : Delivery}
    (hd' : d' ∈ ds) (hi : d'.CountsFor conf.height conf.roundCid i) :
    ∃ m ∈ (new group).acceptedLog L pre ++ [conf], m.SameRound conf ∧ m.Counts i := by
  rw [hds] at hd'
  rcases List.mem_append.mp hd' with hpre | hrest
  · rcases logged_or_published hheed hq hds hpre hi with h | ⟨m, hm, hheight, hround, hmi⟩
    · exact absurd h hpub
    · exact ⟨m, List.mem_append_left _ hm, ⟨hround, hheight⟩, hmi⟩
  · rcases List.mem_cons.mp hrest with rfl | hlater
    · exact ⟨conf, by simp, ⟨rfl, rfl⟩, ((accepts_spec hacc).2 i).mpr hi⟩
    · exact absurd hi.names (hpost d' hlater)

/-- **The last confirmation of a round that has a quorum publishes it**, if it was not before. -/
theorem published_of_hasQuorum (hheed : Heeded L group ds)
    (hfetch : ∀ d ∈ ds, ∀ conf, d.msg = .ok conf → ∃ n, notification L d.store conf = .ok n)
    (hq : HasQuorum group ds height roundCid) :
    ((new group).deliver L ds).PublishedIn height roundCid := by
  obtain ⟨pre, d, post, hds, hnames, hpost⟩ := exists_last _ hq.1
  by_cases hpub : ((new group).deliver L pre).PublishedIn height roundCid
  · rw [hds, deliver_append]
    exact hpub.deliver _
  have hsplit : (new group).deliver L ds
      = (((new group).deliver L pre).handleMessage L d).1.deliver L post := by
    rw [hds, deliver_append]
    rfl
  rw [hsplit]
  refine PublishedIn.deliver ?_ post
  -- it is accepted, and now all that the messages count is counted
  have haccepted := (hheed pre d post hds height roundCid hnames hq).resolve_right hpub
  rcases handleMessage_cases L ((new group).deliver L pre) d with
    ⟨hnone, -⟩ | ⟨conf, added, hacc, hv, ha, hcase⟩
  · exact absurd hnone haccepted
  obtain ⟨rfl, rfl⟩ := hnames.unique (accepts_spec hacc).1
  have hinv : ((new group).deliver L pre).Inv L fun _ => True :=
    inv_deliver (aggregates_true C) _ _ (inv_new _ group) fun _ _ _ _ _ _ _ _ => trivial
  obtain ⟨-, hheight, hround, sig, hsig, hmq⟩ := added_spec (aggregates_true C) hinv trivial ha
  have hcol := collects_added hinv (tracks_reachable L group pre) (validate_ok hv).1 ha
  have hquorum : added.makesQuorum = true := by
    obtain ⟨signers, hcard, hsigners⟩ := hq.2
    have hsub : signers ⊆ sig.counted := by
      intro i hi
      obtain ⟨d', hd', hcounts⟩ := hsigners i hi
      obtain ⟨m, hm, ⟨hmr, hmh⟩, hmi⟩ := logged_of_last hheed hq hds hacc hpub hpost hd' hcounts
      rw [Signature.mem_counted, ← RoundConfirmation.counts_iff hsig, hcol i]
      exact ⟨m, hm, ⟨hmr.trans hround.symm, hmh.trans hheight.symm⟩, hmi⟩
    have hle := hcard.trans (Finset.card_le_card hsub)
    rw [← signerCount_eq_card] at hle
    rw [hmq, deliver_group]
    exact decide_eq_true hle
  rcases hcase with ⟨hq', -⟩ | ⟨-, hrs⟩
  · rw [hquorum] at hq'
    cases hq'
  · obtain ⟨conf₀, hmsg, -, hround₀⟩ := hnames
    obtain ⟨n, hn⟩ := hfetch d (by rw [hds]; simp) conf₀ hmsg
    have hn' := notification_of_roundCid added.updated (hround.trans hround₀.symm) hn
    rw [hrs]
    refine ⟨{ n with roundConfirmation := added.updated }, ?_, hheight, hround⟩
    show _ ∈ _ ++ published L d.store added.updated
    rw [published, hn']
    exact List.mem_append_right _ List.mem_cons_self

/-- Two notifications for one round accept the same requests. -/
theorem accepted_of_roundCid (hL : L.Faithful) {store store' : DagStore} (hs : store.Addressed L)
    (hs' : store'.Addressed L) {conf' : RoundConfirmation} {n n' : ValidationNotification}
    (hn : notification L store conf = .ok n) (hn' : notification L store' conf' = .ok n')
    (hround : conf.roundCid = conf'.roundCid) : n.accepted = n'.accepted := by
  obtain ⟨-, hfetch, hcp, hacc⟩ := notification_ok hn
  obtain ⟨-, hfetch', hcp', hacc'⟩ := notification_ok hn'
  obtain ⟨c, hc, hget⟩ := RoundConfirmation.fetchCompletedRound_ok hfetch
  obtain ⟨c', hc', hget'⟩ := RoundConfirmation.fetchCompletedRound_ok hfetch'
  rw [hround] at hc
  obtain rfl := Except.ok.inj (hc.symm.trans hc')
  have hrounds : n.completedRound = n'.completedRound :=
    DagNode.round.inj (hL.injective ((hs _ _ hget).trans (hs' _ _ hget').symm))
  obtain ⟨k, hk, hgetk⟩ := Round.fetchCheckpoint_ok hcp
  obtain ⟨k', hk', hgetk'⟩ := Round.fetchCheckpoint_ok hcp'
  rw [hrounds] at hk
  obtain rfl := Except.ok.inj (hk.symm.trans hk')
  have hcps : n.checkpoint = n'.checkpoint :=
    DagNode.checkpoint.inj (hL.injective ((hs _ _ hgetk).trans (hs' _ _ hgetk').symm))
  rw [hcps] at hacc
  exact Except.ok.inj (hacc.symm.trans hacc')

end RoundSubscriber

/-! ## Orders that heed the rounds -/

open RoundSubscriber

/-- A caller that subscribes to the request before the messages arrive gets a proof. -/
def GetsProof (L : Ipld) (group : NotaryGroup C) (abr : AddBlockRequest) (ds : List Delivery) :
    Prop :=
  ∃ s ∈ ((Client.new group).run L (.subscribe abr (.ok ()) :: ds.map .message)).subscriptions,
    s.channel ≠ []

theorem getsProof_iff {abr : AddBlockRequest} :
    GetsProof L group abr ds ↔
      ∃ n ∈ ((new group).deliver L ds).stream,
        n.includes (L.cidOf (.addBlockRequest abr)) = true := by
  have hrun : ((Client.new group).run L (.subscribe abr (.ok ()) :: ds.map .message)).subscriptions
      = [((new group).deliver L ds).stream.foldl Subscription.publish
          { abr, abrCid := L.cidOf (.addBlockRequest abr), isDone := false, ctxDone := false
            subscribed := true, channel := [] }] := by
    show (((Client.new group).subscribe L abr (.ok ())).run L (ds.map .message)).subscriptions = _
    rw [Client.run_messages]
    rfl
  unfold GetsProof
  rw [hrun]
  simp only [List.mem_singleton, exists_eq_left]
  exact Subscription.foldl_publish_channel _ rfl rfl rfl rfl

theorem getsProof_mono (hL : L.Faithful) (hperm : ds.Perm ds')
    (hstore : ∀ d ∈ ds, d.store.Addressed L)
    (hpub : ∀ height roundCid, ((new group).deliver L ds).PublishedIn height roundCid →
      ((new group).deliver L ds').PublishedIn height roundCid)
    {abr : AddBlockRequest} (h : GetsProof L group abr ds) : GetsProof L group abr ds' := by
  obtain ⟨n, hn, hinc⟩ := getsProof_iff.mp h
  obtain ⟨n', hn', -, hround⟩ := hpub _ _ ⟨n, hn, rfl, rfl⟩
  obtain ⟨notis, hstream, hnotis⟩ := deliver_stream ds (new group) (L := L)
  obtain ⟨notis', hstream', hnotis'⟩ := deliver_stream ds' (new group) (L := L)
  rw [hstream] at hn
  have hmem' := hn'
  rw [hstream'] at hmem'
  obtain ⟨pre, d, post, conf, hds, -, hnoti⟩ := hnotis n hn
  obtain ⟨pre', d', post', conf', hds', -, hnoti'⟩ := hnotis' n' hmem'
  have hacc : n.accepted = n'.accepted := by
    refine accepted_of_roundCid hL (hstore d ?_) (hstore d' ?_) hnoti hnoti' ?_
    · rw [hds]
      simp
    · rw [hperm.mem_iff, hds']
      simp
    · rw [← (notification_ok hnoti).1, ← (notification_ok hnoti').1, hround]
  refine getsProof_iff.mpr ⟨n', hn', ?_⟩
  unfold ValidationNotification.includes at hinc ⊢
  rw [← hacc]
  exact hinc

/--
**Orders that heed the rounds publish the same.**

Two orders of the same messages, while all fetches succeed: if neither has a confirmation of a
round with a quorum refused before that round is published, they publish the same rounds, and a
request subscribed to before the first message gets its proof in one order iff in the other.
-/
theorem published_rounds_agree (hL : L.Faithful) {ds ds' : List Delivery} (hperm : ds.Perm ds')
    (hfetch : ∀ d ∈ ds, ∀ conf, d.msg = .ok conf →
      ∃ n, RoundSubscriber.notification L d.store conf = .ok n)
    (hstore : ∀ d ∈ ds, d.store.Addressed L)
    (hheed : Heeded L group ds) (hheed' : Heeded L group ds') :
    (∀ height roundCid, ((new group).deliver L ds).PublishedIn height roundCid ↔
      ((new group).deliver L ds').PublishedIn height roundCid) ∧
    ∀ abr, GetsProof L group abr ds ↔ GetsProof L group abr ds' := by
  have hfetch' : ∀ d ∈ ds', ∀ conf, d.msg = .ok conf →
      ∃ n, RoundSubscriber.notification L d.store conf = .ok n :=
    fun d hd => hfetch d (hperm.mem_iff.mpr hd)
  have hto : ∀ height roundCid, ((new group).deliver L ds).PublishedIn height roundCid →
      ((new group).deliver L ds').PublishedIn height roundCid := fun height roundCid h =>
    published_of_hasQuorum hheed' hfetch' ((hasQuorum_of_published h).perm hperm)
  have hfrom : ∀ height roundCid, ((new group).deliver L ds').PublishedIn height roundCid →
      ((new group).deliver L ds).PublishedIn height roundCid := fun height roundCid h =>
    published_of_hasQuorum hheed hfetch ((hasQuorum_of_published h).perm hperm.symm)
  refine ⟨fun height roundCid => ⟨hto height roundCid, hfrom height roundCid⟩, fun abr => ?_⟩
  constructor
  · exact getsProof_mono hL hperm hstore hto
  · exact getsProof_mono hL hperm.symm (fun d hd => hstore d (hperm.mem_iff.mpr hd)) hfrom

theorem RoundSubscriber.acceptedLog_length_le : ∀ (ds : List Delivery) (rs : RoundSubscriber C),
    (rs.acceptedLog L ds).length ≤ ds.length
  | [], _ => Nat.le_refl _
  | d :: ds, rs => by
    have htail := acceptedLog_length_le ds (rs.handleMessage L d).1
    have hhead : (rs.accepts L d).toList.length ≤ 1 := by
      cases rs.accepts L d <;> simp
    rw [acceptedLog, List.length_append, List.length_cons]
    omega

/-- An order in which every message is accepted heeds all rounds. -/
theorem RoundSubscriber.heeded_of_acceptedLog
    (h : ((new group).acceptedLog L ds).length = ds.length) : Heeded L group ds := by
  intro pre d post hds height roundCid _ _
  refine Or.inl fun hnone => ?_
  have hpre := acceptedLog_length_le pre (new group) (L := L)
  have hpost := acceptedLog_length_le post ((((new group).deliver L pre).handleMessage L d).1)
    (L := L)
  rw [hds, acceptedLog_append, acceptedLog, hnone] at h
  simp only [Option.toList_none, List.nil_append, List.length_append, List.length_cons] at h
  omega

end Order

/-! ### A later round that overtakes -/

namespace RoundSubscriber.Example

noncomputable def laterCheckpoint : Checkpoint := { height := 7, addBlockRequests := [] }

/-- A round that does not include the request. -/
noncomputable def laterRound : Round where
  height := 7
  stateCid := []
  checkpointCid := (Ipld.inFull.cidOf (.checkpoint laterCheckpoint)).bytes

noncomputable def laterCid : Cid := Ipld.inFull.cidOf (.round laterRound)

noncomputable def laterStore : DagStore := fun cid =>
  if cid = laterCid then some (.round laterRound)
  else if cid = Ipld.inFull.cidOf (.checkpoint laterCheckpoint) then
    some (.checkpoint laterCheckpoint)
  else none

/-- What signer `i` sends for it. -/
noncomputable def later (i : Nat) : Delivery where
  msg := .ok
    { roundCid := laterCid.bytes, height := 7
      signature := some
        { ownership := some { publicKey := none, conditions := "" }
          signers := (List.replicate 3 0).set i 1
          signature := Crypto.unarySign (2 ^ i) laterCid.bytes, preImage := "" } }
  run := fun _ _ => .error "no script"
  store := laterStore

theorem laterStore_addressed : laterStore.Addressed Ipld.inFull := by
  intro c x hx
  unfold laterStore at hx
  split at hx
  · next hc => rw [hc, ← Option.some.inj hx]; rfl
  · split at hx
    · next hc => rw [hc, ← Option.some.inj hx]
    · cases hx

/-- The messages for the two rounds, each round as it is completed. -/
noncomputable def inOrder : List Delivery := [delivery 5 0, delivery 5 1, later 0, later 1]

theorem inOrder_mem {d : Delivery} (hd : d ∈ inOrder) :
    d = delivery 5 0 ∨ d = delivery 5 1 ∨ d = later 0 ∨ d = later 1 := by
  simpa [inOrder] using hd

theorem inOrder_addressed : ∀ d ∈ inOrder, d.store.Addressed Ipld.inFull := by
  intro d hd
  rcases inOrder_mem hd with rfl | rfl | rfl | rfl
  · exact store_addressed
  · exact store_addressed
  · exact laterStore_addressed
  · exact laterStore_addressed

/-- What a message names can be fetched, if the evaluation says so. -/
theorem fetched {d : Delivery} (h : (d.msg.toOption.bind fun conf =>
    (RoundSubscriber.notification Ipld.inFull d.store conf).toOption).isSome = true)
    (conf : RoundConfirmation) (hmsg : d.msg = .ok conf) :
    ∃ n, RoundSubscriber.notification Ipld.inFull d.store conf = .ok n := by
  rw [hmsg] at h
  obtain ⟨n, hn⟩ := Option.isSome_iff_exists.mp h
  exact ⟨n, toOption_eq_some.mp hn⟩

theorem inOrder_fetched : ∀ d ∈ inOrder, ∀ conf, d.msg = .ok conf →
    ∃ n, RoundSubscriber.notification Ipld.inFull d.store conf = .ok n := by
  intro d hd
  rcases inOrder_mem hd with rfl | rfl | rfl | rfl <;> exact fetched (by decide +kernel)

/-- The confirmations of the two rounds interleave, and both are published. -/
theorem published_rounds_agree_example :
    GetsProof Ipld.inFull group abr inOrder ↔
      GetsProof Ipld.inFull group abr [delivery 5 1, later 0, delivery 5 0, later 1] := by
  have hperm : inOrder.Perm [delivery 5 1, later 0, delivery 5 0, later 1] :=
    (List.Perm.swap (delivery 5 1) (delivery 5 0) _).trans
      (List.Perm.cons _ (List.Perm.swap (later 0) (delivery 5 0) _))
  exact (published_rounds_agree Ipld.inFull_faithful hperm inOrder_fetched inOrder_addressed
    (heeded_of_acceptedLog (by decide +kernel)) (heeded_of_acceptedLog (by decide +kernel))).2 abr

/--
The later round overtakes: all confirmations are valid and all fetches succeed, but the earlier
round is published in the first order only, and so the caller gets its proof in the first only.
-/
theorem earlier_round_lost :
    inOrder.Perm [later 0, later 1, delivery 5 0, delivery 5 1] ∧
    (∀ d ∈ inOrder, ((new group).validate d).toOption.isSome = true) ∧
    (∀ d ∈ inOrder, ∀ conf, d.msg = .ok conf →
      ∃ n, RoundSubscriber.notification Ipld.inFull d.store conf = .ok n) ∧
    ((new group).deliver Ipld.inFull inOrder).PublishedIn 5 (roundCid 5).bytes ∧
    ¬ ((new group).deliver Ipld.inFull
      [later 0, later 1, delivery 5 0, delivery 5 1]).PublishedIn 5 (roundCid 5).bytes ∧
    GetsProof Ipld.inFull group abr inOrder ∧
    ¬ GetsProof Ipld.inFull group abr [later 0, later 1, delivery 5 0, delivery 5 1] := by
  refine ⟨?_, ?_, inOrder_fetched, ?_, ?_, ?_, ?_⟩
  · show ([delivery 5 0, delivery 5 1] ++ [later 0, later 1]).Perm ([later 0, later 1] ++ _)
    exact List.perm_append_comm
  · intro d hd
    rcases inOrder_mem hd with rfl | rfl | rfl | rfl <;> decide +kernel
  · unfold PublishedIn
    decide +kernel
  · unfold PublishedIn
    decide +kernel
  · rw [getsProof_iff]
    decide +kernel
  · rw [getsProof_iff]
    decide +kernel

end RoundSubscriber.Example

end Tupelo

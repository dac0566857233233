import Tupelo.Client.SubscriberState
import Tupelo.Infra.Lists
import Tupelo.Sdk.Proof

/-!
# Subscriptions to requests

The model of `subscribe` and `unsubscribe` of `sdk/gossip/client/roundsubscriber.go`, and the
proofs that subscribers get.

A subscription is a handler in the event stream. Of the notifications that come after it, the
first that includes its request makes the handler put a proof on the caller's channel, unless
the caller's context is done by then; afterwards the handler ignores everything.

The proof is put together from what the round subscriber fetched and summed. `Proof.verify`
computes the same CIDs, the same key and the same count from the parts; the main result is that
it accepts every proof that is delivered.
-/

namespace Tupelo

open Infra

/-! ## `roundsubscriber.go` -/

def ValidationNotification.includes (vn : ValidationNotification) (id : Cid) : Bool :=
  vn.accepted.any fun abrCid => abrCid = id

/-- A handler in the event stream, with the variables it closes over. -/
structure Subscription where
  abr : AddBlockRequest
  abrCid : Cid
  isDone : Bool
  /-- `doneCh` is closed. -/
  ctxDone : Bool
  /-- The handler has not been unsubscribed. -/
  subscribed : Bool
  /-- What was put on `ch`. -/
  channel : List Proof

namespace Subscription

/-- The proof for a request that a notification includes. -/
def proof (abr : AddBlockRequest) (noti : ValidationNotification) : Proof where
  objectId := abr.objectId
  tip := abr.newTip
  addBlockRequest := some abr
  checkpoint := some noti.checkpoint
  round := some noti.completedRound
  roundConfirmation := some noti.roundConfirmation

/-- The function that `subscribe` hands to the event stream. -/
def handle (s : Subscription) (noti : ValidationNotification) : Subscription :=
  if s.isDone then s
  else if s.ctxDone then { s with isDone := true }
  else if noti.includes s.abrCid then
    { s with isDone := true, channel := s.channel ++ [proof s.abr noti] }
  else s

/-- `stream.Publish`, for one handler. -/
def publish (s : Subscription) (noti : ValidationNotification) : Subscription :=
  if s.subscribed then s.handle noti else s

end Subscription

/-- A round subscriber with its subscriptions, in the order in which they were made. -/
structure Client (C : Crypto) where
  rounds : RoundSubscriber C
  subscriptions : List Subscription

/-- What happens to a client. -/
inductive ClientAction where
  /-- A message of the group arrives. -/
  | message (d : Delivery)
  /-- A caller subscribes; `put` is how storing the request goes. -/
  | subscribe (abr : AddBlockRequest) (put : Except String Unit)
  /-- The context of a caller is done. -/
  | cancel (i : Nat)
  | unsubscribe (i : Nat)

namespace Client

variable {C : Crypto}

def new (group : NotaryGroup C) : Client C := { rounds := .new group, subscriptions := [] }

/-- The subscriptions after some notifications have been published. -/
def publish (subscriptions : List Subscription) (notis : List ValidationNotification) :
    List Subscription :=
  subscriptions.map fun s => notis.foldl Subscription.publish s

def subscribe (L : Ipld) (c : Client C) (abr : AddBlockRequest) (put : Except String Unit) :
    Client C :=
  match put with
  | .error _ => c
  | .ok () =>
    let sub : Subscription :=
      { abr, abrCid := L.cidOf (.addBlockRequest abr), isDone := false, ctxDone := false
        subscribed := true, channel := [] }
    { c with subscriptions := c.subscriptions ++ [sub] }

def act (L : Ipld) (c : Client C) : ClientAction → Client C
  | .message d =>
    let rounds := (c.rounds.handleMessage L d).1
    { rounds, subscriptions :=
        publish c.subscriptions (rounds.stream.drop c.rounds.stream.length) }
  | .subscribe abr put => c.subscribe L abr put
  | .cancel i =>
    { c with subscriptions := c.subscriptions.modify i fun s => { s with ctxDone := true } }
  | .unsubscribe i =>
    { c with subscriptions := c.subscriptions.modify i fun s => { s with subscribed := false } }

/-- The client after a sequence of events. -/
def run (L : Ipld) (c : Client C) (as : List ClientAction) : Client C := as.foldl (act L) c

end Client

/-! ## What one subscription does -/

namespace Subscription

/-- Every proof on the channel was made from a notification with the property, at most one. -/
structure Served (L : Ipld) (P : ValidationNotification → Prop) (s : Subscription) : Prop where
  abrCid : s.abrCid = L.cidOf (.addBlockRequest s.abr)
  waiting : s.isDone = false → s.channel = []
  once : s.channel.length ≤ 1
  made : ∀ p ∈ s.channel, ∃ noti, P noti ∧ noti.includes s.abrCid = true ∧ p = proof s.abr noti

variable {L : Ipld} {P : ValidationNotification → Prop} {s : Subscription}
  {noti : ValidationNotification}

theorem Served.handle (h : s.Served L P) (hn : P noti) : (s.handle noti).Served L P := by
  unfold Subscription.handle
  split
  · exact h
  · next hdone =>
    have hempty : s.channel = [] := h.waiting (by simpa using hdone)
    split
    · exact ⟨h.abrCid, nofun, h.once, h.made⟩
    · split
      · next hinc =>
        refine ⟨h.abrCid, nofun, by simp [hempty], ?_⟩
        intro p hp
        have hp' : p = proof s.abr noti := by simpa [hempty] using hp
        exact ⟨noti, hn, hinc, hp'⟩
      · exact h

theorem Served.publish (h : s.Served L P) (hn : P noti) : (s.publish noti).Served L P := by
  unfold Subscription.publish
  split
  · exact h.handle hn
  · exact h

theorem Served.foldl_publish : ∀ {notis : List ValidationNotification} {s : Subscription},
    s.Served L P → (∀ n ∈ notis, P n) → (notis.foldl Subscription.publish s).Served L P
  | [], _, h, _ => h
  | n :: _, _, h, hn =>
    (h.publish (hn n List.mem_cons_self)).foldl_publish
      fun m hm => hn m (List.mem_cons_of_mem n hm)

theorem foldl_publish_of_done : ∀ (notis : List ValidationNotification) {s : Subscription},
    s.isDone = true → notis.foldl Subscription.publish s = s
  | [], _, _ => rfl
  | n :: notis, s, h => by
    have hs : s.publish n = s := by
      unfold Subscription.publish Subscription.handle
      simp [h]
    rw [List.foldl_cons, hs]
    exact foldl_publish_of_done notis h

/-- A caller that waits gets a proof exactly if a notification includes its request. -/
theorem foldl_publish_channel : ∀ (notis : List ValidationNotification) {s : Subscription},
    s.isDone = false → s.ctxDone = false → s.subscribed = true → s.channel = [] →
    ((notis.foldl Subscription.publish s).channel ≠ [] ↔
      ∃ n ∈ notis, n.includes s.abrCid = true)
  | [], s, _, _, _, hchannel => by simp [hchannel]
  | n :: notis, s, hdone, hctx, hsub, hchannel => by
    by_cases hinc : n.includes s.abrCid = true
    · have hs : s.publish n
          = { s with isDone := true, channel := s.channel ++ [proof s.abr n] } := by
        simp [Subscription.publish, Subscription.handle, hdone, hctx, hsub, hinc]
      rw [List.foldl_cons, foldl_publish_of_done notis (by rw [hs]), hs]
      exact iff_of_true (by simp) ⟨n, List.mem_cons_self, hinc⟩
    · have hs : s.publish n = s := by
        simp [Subscription.publish, Subscription.handle, hdone, hctx, hsub, hinc]
      rw [List.foldl_cons, hs, foldl_publish_channel notis hdone hctx hsub hchannel]
      simp [hinc]

end Subscription

/-! ## What a client does -/

namespace RoundSubscriber

variable {C : Crypto} {L : Ipld} {rs : RoundSubscriber C} {d : Delivery}

/-- What a message makes the subscriber publish: the notification of a new `current`. -/
theorem handleMessage_stream (L : Ipld) (rs : RoundSubscriber C) (d : Delivery) :
    ∃ notis, (rs.handleMessage L d).1.stream = rs.stream ++ notis ∧
      ∀ n ∈ notis, ∃ conf, (rs.handleMessage L d).1.current = some conf ∧
        notification L d.store conf = .ok n := by
  rcases handleMessage_cases L rs d with ⟨-, h⟩ | ⟨conf, added, -, -, -, ⟨-, h⟩ | ⟨-, h⟩⟩
  · exact ⟨[], by rw [h, List.append_nil], nofun⟩
  · exact ⟨[], by rw [h, List.append_nil]; rfl, nofun⟩
  · refine ⟨published L d.store added.updated, by rw [h], ?_⟩
    intro n hn
    refine ⟨added.updated, by rw [h]; rfl, ?_⟩
    exact toOption_eq_some.mp (Option.mem_toList.mp hn)

/-- The stream only grows, by notifications of what becomes `current`. -/
theorem deliver_stream : ∀ (ds : List Delivery) (rs : RoundSubscriber C),
    ∃ notis, (rs.deliver L ds).stream = rs.stream ++ notis ∧
      ∀ n ∈ notis, ∃ pre d post conf, ds = pre ++ d :: post ∧
        (rs.deliver L (pre ++ [d])).current = some conf ∧ notification L d.store conf = .ok n
  | [], rs => ⟨[], (List.append_nil _).symm, nofun⟩
  | d :: ds, rs => by
    obtain ⟨notis, hstream, hnotis⟩ := handleMessage_stream L rs d
    obtain ⟨notis', hstream', hnotis'⟩ := deliver_stream ds (rs.handleMessage L d).1
    refine ⟨notis ++ notis', ?_, ?_⟩
    · show ((rs.handleMessage L d).1.deliver L ds).stream = _
      rw [hstream', hstream, List.append_assoc]
    · intro n hn
      rcases List.mem_append.mp hn with hn | hn
      · obtain ⟨conf, hcur, hnoti⟩ := hnotis n hn
        exact ⟨[], d, ds, conf, rfl, hcur, hnoti⟩
      · obtain ⟨pre, d', post, conf, rfl, hcur, hnoti⟩ := hnotis' n hn
        exact ⟨d :: pre, d', post, conf, rfl, hcur, hnoti⟩

end RoundSubscriber

namespace Client

variable {C : Crypto} {L : Ipld}

/-- The messages among the events, in order. -/
def messages : List ClientAction → List Delivery
  | [] => []
  | .message d :: as => d :: messages as
  | _ :: as => messages as

/-- Only messages move the round subscriber. -/
theorem act_rounds (c : Client C) : ∀ a : ClientAction,
    (c.act L a).rounds = c.rounds.deliver L (messages [a])
  | .message _ => rfl
  | .subscribe _ (.ok ()) => rfl
  | .subscribe _ (.error _) => rfl
  | .cancel _ => rfl
  | .unsubscribe _ => rfl

theorem publish_publish (subscriptions : List Subscription) (a b : List ValidationNotification) :
    publish (publish subscriptions a) b = publish subscriptions (a ++ b) := by
  simp [publish]

/-- A client that only gets messages publishes what they add to the stream. -/
theorem run_messages : ∀ (ds : List Delivery) (c : Client C),
    c.run L (ds.map .message) = ⟨c.rounds.deliver L ds, publish c.subscriptions
      ((c.rounds.deliver L ds).stream.drop c.rounds.stream.length)⟩
  | [], c => by
    have hid : publish c.subscriptions [] = c.subscriptions := by simp [publish]
    show c = ⟨c.rounds, publish c.subscriptions (c.rounds.stream.drop c.rounds.stream.length)⟩
    rw [List.drop_length, hid]
  | d :: ds, c => by
    obtain ⟨a, ha, -⟩ := RoundSubscriber.handleMessage_stream L c.rounds d
    obtain ⟨b, hb, -⟩ := RoundSubscriber.deliver_stream ds (c.rounds.handleMessage L d).1 (L := L)
    show (c.act L (.message d)).run L (ds.map .message) = ⟨_, publish c.subscriptions
      (((c.rounds.handleMessage L d).1.deliver L ds).stream.drop c.rounds.stream.length)⟩
    rw [run_messages ds]
    show (⟨_, publish (publish c.subscriptions
      ((c.rounds.handleMessage L d).1.stream.drop c.rounds.stream.length))
      (((c.rounds.handleMessage L d).1.deliver L ds).stream.drop
        (c.rounds.handleMessage L d).1.stream.length)⟩ : Client C) = _
    rw [publish_publish, hb, List.drop_left, ha, List.drop_left, List.append_assoc,
      List.drop_left]
    rfl

/--
One event: if what it makes the subscriber publish has the property, the subscriptions stay
served.
-/
theorem served_act {P : ValidationNotification → Prop} {c : Client C} {a : ClientAction}
    (h : ∀ s ∈ c.subscriptions, s.Served L P)
    (hn : ∀ d, a = .message d → ∀ n ∈ (c.act L a).rounds.stream.drop c.rounds.stream.length, P n) :
    ∀ s ∈ (c.act L a).subscriptions, s.Served L P := by
  intro s hs
  cases a with
  | message d =>
    obtain ⟨s₀, hs₀, rfl⟩ := List.mem_map.mp hs
    exact (h s₀ hs₀).foldl_publish (hn d rfl)
  | subscribe abr put =>
    cases put with
    | error e => exact h s hs
    | ok u =>
      rcases List.mem_append.mp hs with hs | hs
      · exact h s hs
      · rw [List.mem_singleton.mp hs]
        exact ⟨rfl, fun _ => rfl, by simp, nofun⟩
  | cancel i =>
    exact forall_mem_modify (fun s₀ h₀ => ⟨h₀.abrCid, h₀.waiting, h₀.once, h₀.made⟩) h s hs
  | unsubscribe i =>
    exact forall_mem_modify (fun s₀ h₀ => ⟨h₀.abrCid, h₀.waiting, h₀.once, h₀.made⟩) h s hs

end Client

/-! ## Delivered proofs verify -/

/-- The condition script of the message, if it has one, evaluates to the same in `run`. -/
def Delivery.SameScript (run : Script) (d : Delivery) : Prop :=
  ∀ conf sig ownership, d.msg = .ok conf → conf.signature = some sig →
    sig.ownership = some ownership → ownership.conditions ≠ "" →
    d.run ownership.conditions sig.preImage = run ownership.conditions sig.preImage

section Verify

variable {C : Crypto} [AddCommMonoid C.Point] {L : Ipld} {group : NotaryGroup C}
  {keys : List (VerKey C)} {run : Script}

/-- The confirmation is valid as it stands, with the key of its vector. -/
def Provable (keys : List (VerKey C)) (run : Script) (conf : RoundConfirmation) : Prop :=
  ∃ sig, conf.signature = some sig ∧ sig.Restored keys ∧
    valid C run sig conf.roundCid = .ok true

omit [AddCommMonoid C.Point] in
theorem provable_of_validated {d : Delivery} {conf : RoundConfirmation} {sig sig' : Signature}
    (hd : d.SameScript run) (h : Validated keys d conf sig sig') : Provable keys run conf := by
  refine ⟨sig', h.signature, Signature.restored_of_restore h.restored, ?_⟩
  obtain ⟨-, ownership, key, hown, -, hs'⟩ := restoreBLSPublicKey_eq h.restored
  have hsame : validConditions d.run sig' { ownership with
      publicKey := some ⟨.blsGroupSig, key.value⟩ } = validConditions run sig' { ownership with
      publicKey := some ⟨.blsGroupSig, key.value⟩ } := by
    unfold validConditions
    by_cases hcond : ownership.conditions = ""
    · simp only [hcond, if_true]
    · have hpre : sig'.preImage = sig.preImage := by rw [hs']
      simp only [if_neg hcond, hpre, hd _ sig ownership h.msg rfl hown hcond]
  rw [← h.verified]
  unfold valid
  rw [hs'] at hsame ⊢
  simp only [deref, ok_bind, hsame]

/-- Being valid survives aggregation. -/
theorem aggregates_provable (hC : C.Additive) :
    RoundSubscriber.Aggregates C (Provable keys run) := by
  rintro existing conf existingSig sig newSig ⟨s, hs, hres, hvalid⟩ ⟨s', hs', hres', hvalid'⟩ -
    hround hes hsig hnew
  obtain rfl := Option.some.inj (hs.symm.trans hes)
  obtain rfl := Option.some.inj (hs'.symm.trans hsig)
  obtain ⟨hr, hcond, hsum⟩ := Signature.aggregate hC hres hres' hnew
  refine ⟨newSig, rfl, hr, (Signature.valid_iff hC hr run _).mpr ⟨hcond run, ?_⟩⟩
  refine hsum _ ((Signature.valid_iff hC hres run _).mp hvalid).2 ?_
  rw [hround]
  exact ((Signature.valid_iff hC hres' run _).mp hvalid').2

/-- What a notification holds, as `Proof.verify` will check it. -/
structure ValidationNotification.Backed (L : Ipld) (keys : List (VerKey C)) (quorumCount : Nat)
    (run : Script) (n : ValidationNotification) : Prop where
  signed : ∃ sig, n.roundConfirmation.signature = some sig ∧ quorumCount ≤ signerCount sig ∧
    restoreBLSPublicKey sig keys = .ok sig ∧
    valid C run sig n.roundConfirmation.roundCid = .ok true
  round : L.cast n.roundConfirmation.roundCid = .ok (L.cidOf (.round n.completedRound))
  checkpoint : L.cast n.completedRound.checkpointCid = .ok (L.cidOf (.checkpoint n.checkpoint))
  accepted : (n.checkpoint.addBlockRequests.mapM fun b =>
    wrapErr "error casting cid: " (L.cast b)) = .ok n.accepted

omit [AddCommMonoid C.Point] in
/-- What is fetched from a store where every node is under its own CID is what was named. -/
theorem backed_of_notification {store : DagStore} (hstore : store.Addressed L)
    {conf : RoundConfirmation} {quorumCount : Nat} (hprov : Provable keys run conf)
    (hq : ∃ sig, conf.signature = some sig ∧ quorumCount ≤ signerCount sig)
    {n : ValidationNotification} (hn : RoundSubscriber.notification L store conf = .ok n) :
    n.Backed L keys quorumCount run := by
  obtain ⟨hconf, hround, hcp, hacc⟩ := RoundSubscriber.notification_ok hn
  obtain ⟨c, hc, hget⟩ := RoundConfirmation.fetchCompletedRound_ok hround
  obtain ⟨c', hc', hget'⟩ := Round.fetchCheckpoint_ok hcp
  obtain ⟨sig, hsig, hres, hvalid⟩ := hprov
  obtain ⟨sig', hsig', hcount⟩ := hq
  obtain rfl := Option.some.inj (hsig.symm.trans hsig')
  constructor
  · rw [hconf]
    exact ⟨sig, hsig, hcount, hres, hvalid⟩
  · rw [hconf, hc, hstore _ _ hget]
  · rw [hc', hstore _ _ hget']
  · exact hacc

omit [AddCommMonoid C.Point] in
/-- **The proof made from such a notification is accepted.** -/
theorem verify_of_backed {quorumCount : Nat} {n : ValidationNotification}
    (hn : n.Backed L keys quorumCount run) {abr : AddBlockRequest}
    (hinc : n.includes (L.cidOf (.addBlockRequest abr)) = true) {tipCid : Cid}
    (htip : L.cast abr.newTip = .ok tipCid) :
    Proof.verify C L run (Subscription.proof abr n) quorumCount keys = .ok true := by
  have hmem : L.cidOf (.addBlockRequest abr) ∈ n.accepted := by
    simpa [ValidationNotification.includes] using hinc
  have hfound := Proof.abrFound_of_mapM hn.accepted hmem
  obtain ⟨sig, hsig, hcount, hres, hvalid⟩ := hn.signed
  exact Proof.verify_of_accepted
    { roundConfirmation := rfl, round := rfl, checkpoint := rfl, addBlockRequest := rfl
      signed := ⟨sig, sig, hsig, hcount, hres, hvalid⟩
      roundCid := hn.round, checkpointCid := hn.checkpoint
      listed := Proof.abrFound_ok hfound, tip := rfl, objectId := rfl } hfound htip

/-- Along every run, subscriptions are served from notifications that are backed. -/
theorem Client.served_run (hC : C.Additive) (hkeys : group.verKeys = .ok keys) :
    ∀ (as : List ClientAction) (c : Client C), c.rounds.group = group →
      c.rounds.Inv L (Provable keys run) →
      (∀ s ∈ c.subscriptions,
        s.Served L (ValidationNotification.Backed L keys group.quorumCount run)) →
      (∀ d ∈ messages as, d.SameScript run ∧ d.store.Addressed L) →
      ∀ s ∈ (c.run L as).subscriptions,
        s.Served L (ValidationNotification.Backed L keys group.quorumCount run)
  | [], _, _, _, hs, _ => hs
  | a :: as, c, hgroup, hinv, hs, hds => by
    have hmsgs : ∀ d, d ∈ messages [a] ∨ d ∈ messages as → d ∈ messages (a :: as) := by
      intro d hd
      cases a with
      | message d' => simpa [messages] using hd
      | _ => simpa [messages] using hd
    have hinv' : (c.act L a).rounds.Inv L (Provable keys run) := by
      rw [act_rounds]
      refine RoundSubscriber.inv_deliver (aggregates_provable hC) _ _ hinv ?_
      intro d hd keys' conf sig sig' hkeys' hv
      rw [hgroup, hkeys] at hkeys'
      rw [← Except.ok.inj hkeys'] at hv
      exact provable_of_validated (hds d (hmsgs d (Or.inl hd))).1 hv
    have hgroup' : (c.act L a).rounds.group = group := by
      rw [act_rounds, RoundSubscriber.deliver_group, hgroup]
    refine served_run hC hkeys as (c.act L a) hgroup' hinv' ?_
      fun d hd => hds d (hmsgs d (Or.inr hd))
    refine served_act hs ?_
    rintro d rfl n hn
    obtain ⟨notis, hstream, hnotis⟩ := RoundSubscriber.handleMessage_stream L c.rounds d
    have hrounds : (c.act L (.message d)).rounds = (c.rounds.handleMessage L d).1 := rfl
    rw [hrounds, hstream, List.drop_left] at hn
    obtain ⟨conf, hcur, hnoti⟩ := hnotis n hn
    obtain ⟨hprov, sig, hsig, hq⟩ := hinv'.current conf hcur
    rw [hgroup'] at hq
    exact backed_of_notification (hds d (hmsgs d (Or.inl (by simp [messages])))).2 hprov
      ⟨sig, hsig, of_decide_eq_true hq⟩ hnoti

/--
**Delivered proofs verify.**

In every run of a client each subscription gets at most one proof, and `Proof.verify` accepts
every proof delivered for a request whose new tip is a CID. The stores have what they return
under its own CID, and a condition script evaluates to the same for the verifier.
-/
theorem delivered_proofs_verify (hC : C.Additive) (L : Ipld) (hkeys : group.verKeys = .ok keys)
    (run : Script) (as : List ClientAction)
    (hscript : ∀ d ∈ Client.messages as, d.SameScript run)
    (hstore : ∀ d ∈ Client.messages as, d.store.Addressed L) :
    ∀ s ∈ ((Client.new group).run L as).subscriptions, s.channel.length ≤ 1 ∧
      ∀ tipCid, L.cast s.abr.newTip = .ok tipCid → ∀ p ∈ s.channel,
        Proof.verify C L run p group.quorumCount keys = .ok true := by
  intro s hs
  have hserved := Client.served_run hC hkeys as (Client.new group) rfl
    (RoundSubscriber.inv_new _ group) nofun (fun d hd => ⟨hscript d hd, hstore d hd⟩) s hs
  refine ⟨hserved.once, ?_⟩
  intro tipCid htip p hp
  obtain ⟨n, hn, hinc, rfl⟩ := hserved.made p hp
  rw [hserved.abrCid] at hinc
  exact verify_of_backed hn hinc htip

end Verify

/-! ### A subscription that is served -/

namespace RoundSubscriber.Example

theorem store_addressed : store.Addressed Ipld.inFull := by
  intro c x hx
  unfold store at hx
  split at hx
  · next hc => rw [hc, ← Option.some.inj hx]; rfl
  · split at hx
    · next hc => rw [hc, ← Option.some.inj hx]; rfl
    · split at hx
      · next hc => rw [hc, ← Option.some.inj hx]
      · cases hx

/-- The caller subscribes, two signers confirm the round, and one of them does so twice. -/
noncomputable def events : List ClientAction :=
  [.subscribe abr (.ok ()), .message (delivery 5 0), .message (delivery 5 0),
    .message (delivery 5 1), .message (delivery 6 0), .message (delivery 6 1)]

/-- What the caller gets. -/
noncomputable def delivered : Proof where
  objectId := abr.objectId
  tip := abr.newTip
  addBlockRequest := some abr
  checkpoint := some checkpoint
  round := some (round 5)
  roundConfirmation := some current

/-- The round of height 6 includes the request as well, but the proof is the one of height 5. -/
theorem delivered_proofs_verify_example :
    (((Client.new group).run Ipld.inFull events).subscriptions.map fun s => s.channel)
      = [[delivered]] ∧
    Proof.verify Crypto.unary Ipld.inFull (fun _ _ => .error "no script") delivered
      group.quorumCount [⟨List.replicate 2 0, (1 : Nat)⟩, ⟨List.replicate 3 0, (2 : Nat)⟩,
        ⟨List.replicate 5 0, (4 : Nat)⟩] = .ok true := by
  have hrun : (((Client.new group).run Ipld.inFull events).subscriptions.map fun s =>
      (s.abr, s.channel)) = [(abr, [delivered])] := by
    decide +kernel
  have hmem : (abr, [delivered]) ∈ ((Client.new group).run Ipld.inFull events).subscriptions.map
      fun s => (s.abr, s.channel) := by
    rw [hrun]
    exact List.mem_singleton_self _
  obtain ⟨s, hs, heq⟩ := List.mem_map.mp hmem
  have habr : s.abr = abr := congrArg Prod.fst heq
  have hchannel : s.channel = [delivered] := congrArg Prod.snd heq
  refine ⟨by simpa using congrArg (List.map Prod.snd) hrun, ?_⟩
  have hall := (delivered_proofs_verify Crypto.unary_additive Ipld.inFull rfl
    (fun _ _ => .error "no script") events ?_ ?_ s hs).2
  · exact hall (Ipld.inFull.cidOf .null)
      (by rw [habr]; exact Ipld.inFull_faithful.cast_cidOf .null) delivered
      (by rw [hchannel]; exact List.mem_singleton_self _)
  · intro d hd conf sig ownership _ _ _ _
    simp only [events, Client.messages, List.mem_cons, List.not_mem_nil, or_false] at hd
    rcases hd with rfl | rfl | rfl | rfl | rfl <;> rfl
  · intro d hd
    simp only [events, Client.messages, List.mem_cons, List.not_mem_nil, or_false] at hd
    rcases hd with rfl | rfl | rfl | rfl | rfl <;> exact store_addressed

end RoundSubscriber.Example

end Tupelo

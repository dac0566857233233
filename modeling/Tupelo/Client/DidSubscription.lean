import Tupelo.Client.GroupRuns
import Tupelo.Client.SubscriberState

/-!
# Following an object

The model of `SubscribeToDid` (`sdk/gossip/client/client.go`): a goroutine looks up the tip of the
object for every round that the client gets, and sends a proof when the tip is not the one it has
sent last. It ends with a `nil` when its context is done or `GetTip` fails, also for an object that
has no tip yet.

The client takes the height of a round from the message, so the goroutine may be sent back to an
older round by messages that were altered. If none is, what it sends goes along the chain of the
object, and never stands still.
-/

namespace Tupelo

open Infra

variable {C : Crypto} {L : Ipld}

/-! ## `SubscribeToDid` -/

/-- The goroutine of `SubscribeToDid`. What it has sent ends with `none`, the source's `nil`. -/
structure DidSubscription where
  currentProof : Option Proof
  ch : List (Option Proof)
  ended : Bool

namespace DidSubscription

def new : DidSubscription := { currentProof := none, ch := [], ended := false }

/-- The loop is left. -/
def finish (s : DidSubscription) : DidSubscription :=
  { s with ch := s.ch ++ [none], ended := true }

/-- A round was received; the argument is what `GetTip` returns. -/
def turn (s : DidSubscription) : Except GetTipError Proof → DidSubscription
  | .error _ => s.finish
  | .ok latestProof =>
    if s.currentProof.all fun currentProof => currentProof.tip ≠ latestProof.tip then
      { s with ch := s.ch ++ [some latestProof], currentProof := some latestProof }
    else s

/-- The proofs that were sent. -/
def proofs (s : DidSubscription) : List Proof := s.ch.filterMap id

end DidSubscription

/-- A subscription, and the messages that its client has handled. -/
structure DidRun where
  messages : List Delivery
  sub : DidSubscription

namespace DidRun

inductive Action (L : Ipld) where
  | message (d : Delivery)
  /--
  A round is received and the tip looked up in a store; these messages are handled during the
  call of `GetTip`.
  -/
  | confirmation (store : { store : DagStore // store.Addressed L }) (during : List Delivery)
      (waited : WaitEnd)
  /-- The context is done. -/
  | done

def act (G : SignerGroup C L) (did : Bytes) (s : DidRun) : Action L → Option DidRun
  | .message d => some { s with messages := s.messages ++ [d] }
  | .confirmation store during waited =>
    if s.sub.ended then none
    else some
      { messages := s.messages ++ during
        sub := s.sub.turn ((G.client s.messages).getTip L store.1 during waited did) }
  | .done => if s.sub.ended then none else some { s with sub := s.sub.finish }

/-- The messages that are handled. -/
def Action.messages : Action L → List Delivery
  | .message d => [d]
  | .confirmation _ during _ => during
  | .done => []

theorem messages_act {G : SignerGroup C L} {did : Bytes} {s s' : DidRun} {a : Action L}
    (h : act G did s a = some s') : s'.messages = s.messages ++ a.messages := by
  cases a with
  | message d =>
    obtain rfl := Option.some.inj h
    rfl
  | confirmation store during waited =>
    simp only [act] at h
    split at h
    · cases h
    · obtain rfl := Option.some.inj h
      rfl
  | done =>
    simp only [act] at h
    split at h
    · cases h
    · obtain rfl := Option.some.inj h
      exact (List.append_nil _).symm

/-- A subscription that is made when the client has handled these messages. -/
def system (G : SignerGroup C L) (did : Bytes) (messages : List Delivery) :
    System DidRun (Action L) where
  start := { messages, sub := .new }
  act := act G did

end DidRun

/-! ## Heights -/

namespace SignerGroup

variable {G : SignerGroup C L}

/-- The client of the group has the invariant of the round subscriber. -/
theorem client_inv (G : SignerGroup C L) (messages : List Delivery) :
    (G.client messages).Inv L fun _ => True :=
  RoundSubscriber.inv_deliver (RoundSubscriber.aggregates_true C) messages _
    (RoundSubscriber.inv_new _ _) fun _ _ _ _ _ _ _ _ => trivial

/-- A client never goes back to a lower height. -/
theorem client_height_le (messages : List Delivery) {cur : RoundConfirmation}
    (hcur : (G.client messages).current = some cur) (later : List Delivery) :
    ∃ cur', (G.client (messages ++ later)).current = some cur' ∧ cur.height ≤ cur'.height := by
  induction later using List.reverseRecOn with
  | nil => exact ⟨cur, by rw [List.append_nil]; exact hcur, le_rfl⟩
  | append_singleton later d ih =>
    obtain ⟨cur', hcur', hle⟩ := ih
    obtain ⟨cur'', hcur'', hstep⟩ :=
      RoundSubscriber.current_step (d := d) (G.client_inv (messages ++ later)) hcur'
    refine ⟨cur'', ?_, ?_⟩
    · rw [← List.append_assoc, ← client_deliver]
      exact hcur''
    · rcases hstep with rfl | hlt
      · exact hle
      · exact hle.trans hlt.le

/-- While no message is altered, the height a client has is that of its round. -/
theorem client_height_authentic {messages : List Delivery}
    (hds : ∀ d ∈ messages, d.Unaltered L G.group) {cur : RoundConfirmation}
    (hcur : (G.client messages).current = some cur) : AuthenticHeight L cur :=
  ((inv_of_unaltered hds).current cur hcur).1

end SignerGroup

/-! ## What is sent -/

/-- A request further along the chain of the object, in the history of a correct signer. -/
def Later (G : SignerGroup C L) (did : Bytes) (a b : AddBlockRequest) : Prop :=
  a.height.toNat < b.height.toNat ∧ ∃ i, i ∉ G.faulty ∧
    ∃ decided, ConfirmedHistory L (G.signer i) decided ∧ Descends decided did (some a) (some b)

/-- The requests of the proofs that were sent. -/
def DidSubscription.requests (s : DidSubscription) : List AddBlockRequest :=
  s.proofs.filterMap (·.addBlockRequest)

@[simp] theorem DidSubscription.proofs_finish (s : DidSubscription) :
    s.finish.proofs = s.proofs := by
  simp [proofs, finish]

@[simp] theorem DidSubscription.requests_finish (s : DidSubscription) :
    s.finish.requests = s.requests := by
  simp [requests]

namespace DidRun

variable {G : SignerGroup C L} {did : Bytes} {messages during : List Delivery} {s s' : DidRun}

/-- What a proof was read from, and how high the client has got since. -/
structure ReadBefore (G : SignerGroup C L) (did : Bytes) (messages : List Delivery)
    (proof : Proof) (abr : AddBlockRequest) : Prop where
  request : proof.addBlockRequest = some abr
  tip : proof.tip = abr.newTip
  read : ∃ r, Nonempty (TipRead G did r (some abr)) ∧
    ∃ cur, (G.client messages).current = some cur ∧ r.height ≤ cur.height

theorem ReadBefore.append {proof : Proof} {abr : AddBlockRequest}
    (h : ReadBefore G did messages proof abr) (later : List Delivery) :
    ReadBefore G did (messages ++ later) proof abr := by
  obtain ⟨hrequest, htip, r, hread, cur, hcur, hle⟩ := h
  obtain ⟨cur', hcur', hle'⟩ := SignerGroup.client_height_le messages hcur later
  exact ⟨hrequest, htip, r, hread, cur', hcur', hle.trans hle'⟩

/-- **A lookup goes on from the last one**, or finds the same tip. -/
theorem ReadBefore.lookup (hL : L.Faithful) (hunf : Unforgeable G.keys G.signed)
    {store : DagStore} (hstore : store.Addressed L) {waited : WaitEnd} {latest : Proof}
    (hlatest : (G.client messages).getTip L store during waited did = .ok latest)
    (hds : ∀ d ∈ messages ++ during, d.Unaltered L G.group) :
    ∃ abr, ReadBefore G did (messages ++ during) latest abr ∧
      ∀ proof old, ReadBefore G did messages proof old → proof.tip ≠ latest.tip →
        Later G did old abr := by
  obtain ⟨cur, hcur, htip⟩ :=
    RoundSubscriber.getTip_answer hlatest fun he => by cases he
  obtain ⟨r, hamt, txCID, abr, hreads, -, -, rfl⟩ := RoundSubscriber.getTipOf_ok htip
  have hclient : (G.client (messages ++ during)).current = some cur := by
    rw [← SignerGroup.client_deliver]
    exact hcur
  have hheight : cur.height = r.height :=
    SignerGroup.client_height_authentic hds hclient r (hreads.cids hstore).1
  have hread : TipRead G did r (some abr) :=
    { before := messages, messages := during, waited, store, addressed := hstore, current := cur
      hcurrent := hcur, hround := hreads.round
      answers := by
        rw [hlatest]
        exact .found _ }
  refine ⟨abr, ⟨rfl, rfl, r, ⟨hread⟩, cur, hclient, hheight.symm.le⟩, ?_⟩
  intro proof old hold hne
  obtain ⟨-, holdtip, r', ⟨hread'⟩, cur', hcur', hle⟩ := hold.append during
  obtain rfl := Option.some.inj (hcur'.symm.trans hclient)
  obtain ⟨i, hi, decided, hhistory, hold, hnew⟩ := hread'.exists_history hL hunf hread
  have hdesc := descends_stateAt decided (hle.trans hheight.le) did
  rw [← hold, ← hnew] at hdesc
  rcases hdesc.height_lt (hhistory.chains did) with rfl | hlt
  · exact absurd holdtip hne
  · exact ⟨hlt, i, hi, decided, hhistory, hdesc⟩

/-- The proof sent last is that of the last request. -/
def LastRead (G : SignerGroup C L) (did : Bytes) (messages : List Delivery)
    (requests : List AddBlockRequest) : Option Proof → Prop
  | none => requests = []
  | some proof => ∃ abr, ReadBefore G did messages proof abr ∧ requests.getLast? = some abr

/-- What has been sent so far. -/
structure Following (G : SignerGroup C L) (did : Bytes) (s : DidRun) : Prop where
  advances : s.sub.requests.IsChain (Later G did)
  last : LastRead G did s.messages s.sub.requests s.sub.currentProof
  sent : s.sub.ch = s.sub.proofs.map some ++ if s.sub.ended then [none] else []

theorem Following.append (h : Following G did s) (later : List Delivery) :
    Following G did { s with messages := s.messages ++ later } := by
  refine ⟨h.advances, ?_, h.sent⟩
  have hlast := h.last
  show LastRead G did (s.messages ++ later) s.sub.requests s.sub.currentProof
  cases hcurrent : s.sub.currentProof with
  | none =>
    rw [hcurrent] at hlast
    exact hlast
  | some proof =>
    rw [hcurrent] at hlast
    obtain ⟨abr, hread, hrequests⟩ := hlast
    exact ⟨abr, hread.append later, hrequests⟩

theorem Following.finish (h : Following G did s) (hended : s.sub.ended = false) :
    Following G did { s with sub := s.sub.finish } := by
  have hsent := h.sent
  rw [hended] at hsent
  refine ⟨by simpa using h.advances, ?_, ?_⟩
  · show LastRead G did s.messages s.sub.finish.requests s.sub.currentProof
    rw [DidSubscription.requests_finish]
    exact h.last
  · show s.sub.ch ++ [none] = s.sub.finish.proofs.map some ++ [none]
    rw [DidSubscription.proofs_finish]
    simpa using hsent

/-- A proof is sent if the tip is new, and then it is further along the chain. -/
theorem Following.send (h : Following G did s) (hended : s.sub.ended = false) {latest : Proof}
    {abr : AddBlockRequest} (hread : ReadBefore G did s.messages latest abr)
    (hlater : ∀ proof old, s.sub.currentProof = some proof →
      s.sub.requests.getLast? = some old → Later G did old abr) :
    Following G did { s with sub := { s.sub with
      ch := s.sub.ch ++ [some latest], currentProof := some latest } } := by
  have hproofs : (s.sub.ch ++ [some latest]).filterMap id = s.sub.proofs ++ [latest] := by
    simp [DidSubscription.proofs]
  have hrequests : (s.sub.proofs ++ [latest]).filterMap (·.addBlockRequest) =
      s.sub.requests ++ [abr] := by
    simp [DidSubscription.requests, hread.request]
  have hsent := h.sent
  have hlast := h.last
  rw [hended] at hsent
  refine ⟨?_, ⟨abr, hread, ?_⟩, ?_⟩
  · show List.IsChain (Later G did) (List.filterMap (·.addBlockRequest)
      ((s.sub.ch ++ [some latest]).filterMap id))
    rw [hproofs, hrequests]
    refine List.isChain_append.mpr ⟨h.advances, List.isChain_singleton _, ?_⟩
    intro old hold next hnext
    obtain rfl := Option.some.inj hnext
    cases hcurrent : s.sub.currentProof with
    | none =>
      rw [hcurrent] at hlast
      rw [show s.sub.requests = [] from hlast] at hold
      cases hold
    | some proof => exact hlater proof old hcurrent hold
  · show List.getLast? (List.filterMap (·.addBlockRequest)
      ((s.sub.ch ++ [some latest]).filterMap id)) = some abr
    rw [hproofs, hrequests, List.getLast?_concat]
  · show s.sub.ch ++ [some latest] = List.map some ((s.sub.ch ++ [some latest]).filterMap id) ++
      if s.sub.ended then [none] else []
    rw [hproofs, hended, List.map_append, hsent]
    simp

/-- **One step of the subscription.** -/
theorem Following.step (hL : L.Faithful) (hunf : Unforgeable G.keys G.signed)
    (h : Following G did s) {a : Action L} (hact : act G did s a = some s')
    (hds : ∀ d ∈ s'.messages, d.Unaltered L G.group) : Following G did s' := by
  cases a with
  | message d =>
    obtain rfl := Option.some.inj hact
    exact h.append [d]
  | done =>
    simp only [act] at hact
    split at hact
    · cases hact
    · next hended =>
      obtain rfl := Option.some.inj hact
      exact h.finish (Bool.eq_false_iff.mpr hended)
  | confirmation store during waited =>
    simp only [act] at hact
    split at hact
    · cases hact
    · next hended =>
      obtain rfl := Option.some.inj hact
      have hended' : s.sub.ended = false := Bool.eq_false_iff.mpr hended
      have happ := h.append during
      cases hlatest : (G.client s.messages).getTip L store.1 during waited did with
      | error e => exact happ.finish hended'
      | ok latest =>
        obtain ⟨abr, hread, hlater⟩ := ReadBefore.lookup hL hunf store.2 hlatest hds
        simp only [DidSubscription.turn]
        split
        · next hnew =>
          refine happ.send hended' hread fun proof old hproof hold => ?_
          have hlast := h.last
          rw [hproof] at hlast hnew
          obtain ⟨old', hread', hlast'⟩ := hlast
          obtain rfl := Option.some.inj (hold.symm.trans hlast')
          exact hlater proof _ hread' (by simpa using hnew)
        · exact happ

/--
**A subscription to an object moves forward along its chain.**

In a group as above, if no message that the client handles is altered: whatever the order of
messages, rounds and lookups, and from whatever content-addressed stores, every request that is
sent is further along the object's chain of decided requests than the one sent before, and at a
greater height. What is sent are proofs, and a `nil` at the end when the subscription has ended.
-/
theorem subscription_advances (hL : L.Faithful) (hunf : Unforgeable G.keys G.signed)
    {ok : DidRun → Action L → Bool} (h : (system G did messages).Reach ok s)
    (hds : ∀ d ∈ s.messages, d.Unaltered L G.group) :
    s.sub.requests.IsChain (Later G did) ∧
      s.sub.ch = s.sub.proofs.map some ++ if s.sub.ended then [none] else [] := by
  have hfollowing : Following G did s := by
    induction h with
    | start => exact ⟨List.isChain_nil, rfl, rfl⟩
    | @step s s' a _ _ hact ih =>
      refine Following.step hL hunf (ih fun d hd => hds d ?_) hact hds
      rw [messages_act hact]
      exact List.mem_append_left _ hd
  exact ⟨hfollowing.advances, hfollowing.sent⟩

end DidRun

/-! ## Two rounds of an object -/

namespace DidExample

open GroupExample (signers signer delivery roundCids run_lost unforgeable_signers addressed_signer)

/-- What the signers of the example send has the height of its round. -/
theorem unaltered_delivery {height : Nat} (hlt : height < 2) (counts : List UInt32) :
    (delivery height counts).Unaltered Ipld.sorted signers.group := by
  intro keys conf sig sig' _ hv r hr
  have hmsg := Except.ok.inj hv.msg
  have hheight : conf.height = height := (congrArg RoundConfirmation.height hmsg).symm
  have hcid : conf.roundCid = (roundCids[height]?).getD [] :=
    (congrArg RoundConfirmation.roundCid hmsg).symm
  have hheights : signer.node.pubsub.map (·.height) = List.range 2 := by decide +kernel
  obtain ⟨sent, hsent, hsentheight⟩ : ∃ sent, signer.node.pubsub[height]? = some sent ∧
      sent.height = height := by
    rw [← Option.map_eq_some_iff, ← List.getElem?_map, hheights, List.getElem?_range hlt]
  obtain ⟨decided, hhistory, -⟩ :=
    history_reach Ipld.sorted_faithful (System.reach_of_run run_lost)
  obtain ⟨completed, hround, hcompleted, -⟩ :=
    hhistory.confirmed sent (List.mem_of_getElem? hsent)
  rw [hcid, roundCids, List.getElem?_map, hsent] at hr
  simp only [Option.map_some, Option.getD_some] at hr
  rw [hround, show EquivocationExample.env.L = Ipld.sorted from rfl,
    Ipld.sorted_faithful.cast_cidOf] at hr
  obtain rfl := DagNode.round.inj (Ipld.sorted_faithful.injective (Except.ok.inj hr))
  rw [hheight, ← hcompleted, hsentheight]

/-- The first round, a lookup, the second round, a lookup; then the context is done. -/
noncomputable def actions : List (DidRun.Action Ipld.sorted) :=
  [.message (delivery 0 [1, 1, 1, 0]),
    .confirmation ⟨signer.node.dagStore, addressed_signer⟩ [] .received,
    .message (delivery 1 [1, 1, 1, 0]),
    .confirmation ⟨signer.node.dagStore, addressed_signer⟩ [] .received, .done]

theorem messages_runFrom : ∀ (as : List (DidRun.Action Ipld.sorted)) {s s' : DidRun},
    (DidRun.system signers [1] []).runFrom (fun _ _ => true) s as = some s' →
      s'.messages = s.messages ++ as.flatMap DidRun.Action.messages
  | [], s, s', h => by
    obtain rfl := Option.some.inj h
    exact (List.append_nil _).symm
  | a :: as, s, s', h => by
    obtain ⟨t, ht, h⟩ := Option.bind_eq_some_iff.mp h
    rw [messages_runFrom as h, DidRun.messages_act ht, List.append_assoc, List.flatMap_cons]

theorem subscription_advances_example : ∃ s,
    (DidRun.system signers [1] []).run (fun _ _ => true) actions = some s ∧
    s.sub.requests.map (·.newTip) = [[1], [3]] ∧ s.sub.requests.IsChain (Later signers [1]) ∧
    s.sub.ch = s.sub.proofs.map some ++ [none] := by
  have hrun : ((DidRun.system signers [1] []).run (fun _ _ => true) actions).map
      (fun s => (s.sub.requests.map (·.newTip), s.sub.ended)) = some ([[1], [3]], true) := by
    decide +kernel
  obtain ⟨s, hs, hv⟩ := Option.map_eq_some_iff.mp hrun
  obtain ⟨htips, hended⟩ := Prod.mk.inj hv
  have hmessages : s.messages = [delivery 0 [1, 1, 1, 0], delivery 1 [1, 1, 1, 0]] :=
    messages_runFrom actions hs
  obtain ⟨hchain, hsent⟩ := DidRun.subscription_advances Ipld.sorted_faithful unforgeable_signers
    (System.reach_of_run hs) (by
      rw [hmessages]
      exact List.forall_mem_cons.mpr ⟨unaltered_delivery (by decide) _,
        List.forall_mem_singleton.mpr (unaltered_delivery (by decide) _)⟩)
  rw [hended] at hsent
  exact ⟨s, hs, htips, hchain, hsent⟩

end DidExample

end Tupelo

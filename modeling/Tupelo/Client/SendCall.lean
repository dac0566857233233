import Tupelo.Client.Subscriptions
import Tupelo.Infra.Channel
import Tupelo.Infra.Transition
import Tupelo.SortedIpld

/-!
# Waiting for a request to be accepted

The model of `Client.Send` (`sdk/gossip/client/client.go`): it subscribes to the request, publishes
it, waits for a proof or for the timer, unsubscribes and closes the channel. Meanwhile the goroutine
of the round subscriber hands notifications to the subscription.

If nobody waits on the channel at that moment, the subscription leaves the proof to a goroutine
of its own, which blocks in the send. `Send` takes the proof from there if it gets to waiting for
it. If it returns an error instead, it closes the channel under the blocked goroutine, and that is a
panic: the process ends with it.
-/

namespace Tupelo

open Infra

/-- How `Send` fails. -/
inductive SendError where
  | subscribing
  | sending
  | timeout
  deriving DecidableEq

/-- Where a call of `Send` stands. -/
inductive SendPc where
  | subscribing
  | sending
  | waiting
  /-- The deferred `UnsubscribeFromAbr` is next, -/
  | leaving (result : Except SendError Proof)
  /-- and then the deferred `close`. -/
  | closing (result : Except SendError Proof)
  | returned (result : Except SendError Proof)
  deriving DecidableEq

/-- A call of `Send`, with the subscription and the channel it has made. -/
structure SendCall where
  pc : SendPc
  sub : Subscription
  resp : Chan Proof
  /-- A goroutine has sent on the closed channel. -/
  crashed : Bool

namespace SendCall

/-- What happens while a call goes on. -/
inductive Action where
  /-- `SubscribeToAbr`; `put` is how storing the request goes. -/
  | subscribe (put : Except String Unit)
  /-- `SendWithoutWait`. -/
  | send (published : Bool)
  /-- The `select`: there is a proof, -/
  | receive
  /-- or the timer is up. -/
  | timeout
  | unsubscribe
  | close
  /-- The round subscriber publishes a notification. -/
  | notify (noti : ValidationNotification)
  /-- The context is done. -/
  | cancel

def new (L : Ipld) (abr : AddBlockRequest) : SendCall where
  pc := .subscribing
  sub := { abr, abrCid := L.cidOf (.addBlockRequest abr), isDone := false, ctxDone := false
           subscribed := false, channel := [] }
  resp := .make 0
  crashed := false

/-- The subscription puts a proof on the channel: `Send` waits for it, or a goroutine blocks. -/
def offer (s : SendCall) (proof : Proof) : SendCall :=
  if s.pc = .waiting then { s with pc := .leaving (.ok proof) }
  else { s with resp := s.resp.send proof }

def notify (s : SendCall) (noti : ValidationNotification) : SendCall :=
  let sub := s.sub.publish noti
  match sub.channel.drop s.sub.channel.length with
  | [] => { s with sub }
  | proof :: _ => { s with sub }.offer proof

def act (s : SendCall) (a : Action) : Option SendCall :=
  -- nothing happens in a process that has ended
  if s.crashed then none
  else
    match a, s.pc with
    | .subscribe (.ok ()), .subscribing =>
      some { s with pc := .sending, sub := { s.sub with subscribed := true } }
    | .subscribe (.error _), .subscribing => some { s with pc := .closing (.error .subscribing) }
    | .send true, .sending => some { s with pc := .waiting }
    | .send false, .sending => some { s with pc := .leaving (.error .sending) }
    | .receive, .waiting =>
      s.resp.receive.map fun (proof, resp) => { s with pc := .leaving (.ok proof), resp }
    | .timeout, .waiting => some { s with pc := .leaving (.error .timeout) }
    | .unsubscribe, .leaving result =>
      some { s with pc := .closing result, sub := { s.sub with subscribed := false } }
    | .close, .closing result =>
      some { s with pc := .returned result, crashed := !s.resp.senders.isEmpty }
    | .notify noti, _ => some (s.notify noti)
    | .cancel, _ => some { s with sub := { s.sub with ctxDone := true } }
    | _, _ => none

def system (L : Ipld) (abr : AddBlockRequest) : System SendCall Action where
  start := new L abr
  act := act

/-! ## What a step does -/

/-- The calls that have a result, and whether the subscription can still be notified. -/
def result : SendPc → Option (Except SendError Proof)
  | .leaving r | .closing r | .returned r => some r
  | _ => none

def listening : SendPc → Bool
  | .sending | .waiting | .leaving _ => true
  | _ => false

/-- What a step does, with one constructor for each way. -/
inductive Step (s : SendCall) : SendCall → Prop where
  | subscribed (hpc : s.pc = .subscribing) :
      Step s { s with pc := .sending, sub := { s.sub with subscribed := true } }
  | refused (hpc : s.pc = .subscribing) : Step s { s with pc := .closing (.error .subscribing) }
  | published (hpc : s.pc = .sending) : Step s { s with pc := .waiting }
  | failed {e : SendError} (hpc : s.pc = .sending ∨ s.pc = .waiting) :
      Step s { s with pc := .leaving (.error e) }
  | received {proof : Proof} {resp : Chan Proof} (hpc : s.pc = .waiting)
      (hresp : s.resp.receive = some (proof, resp)) :
      Step s { s with pc := .leaving (.ok proof), resp }
  | unsubscribed {r : Except SendError Proof} (hpc : s.pc = .leaving r) :
      Step s { s with pc := .closing r, sub := { s.sub with subscribed := false } }
  | closed {r : Except SendError Proof} (hpc : s.pc = .closing r) :
      Step s { s with pc := .returned r, crashed := !s.resp.senders.isEmpty }
  /-- The subscription puts nothing on the channel, -/
  | unmoved {sub : Subscription} (habr : sub.abr = s.sub.abr) (hcid : sub.abrCid = s.sub.abrCid)
      (hsub : sub.subscribed = s.sub.subscribed) (hchannel : sub.channel = s.sub.channel)
      (hdone : s.sub.isDone = true → sub.isDone = true) : Step s { s with sub }
  /-- or a proof, as the first. -/
  | accepted {noti : ValidationNotification} (hsub : s.sub.subscribed = true)
      (hdone : s.sub.isDone = false) (hinc : noti.includes s.sub.abrCid = true) :
      Step s (offer { s with sub := { s.sub with
        isDone := true, channel := s.sub.channel ++ [Subscription.proof s.sub.abr noti] } }
          (Subscription.proof s.sub.abr noti))

theorem step_notify (s : SendCall) (noti : ValidationNotification) : Step s (s.notify noti) := by
  have hsame : ∀ {sub : Subscription}, sub = s.sub → Step s { s with sub } := by
    rintro _ rfl
    exact .unmoved rfl rfl rfl rfl id
  unfold notify Subscription.publish
  split
  · next hsub =>
    unfold Subscription.handle
    split
    · simp only [List.drop_length]
      exact hsame rfl
    · next hdone =>
      split
      · simp only [List.drop_length]
        exact .unmoved rfl rfl rfl rfl fun _ => rfl
      · split
        · next hinc =>
          simp only [List.drop_left]
          exact .accepted hsub (Bool.eq_false_iff.mpr hdone) hinc
        · simp only [List.drop_length]
          exact hsame rfl
  · simp only [List.drop_length]
    exact hsame rfl

theorem step_of_act {s s' : SendCall} {a : Action} (h : s.act a = some s') :
    s.crashed = false ∧ Step s s' := by
  unfold act at h
  split at h
  · cases h
  · next hcrashed =>
    refine ⟨Bool.eq_false_iff.mpr hcrashed, ?_⟩
    split at h
    · next hpc =>
      obtain rfl := Option.some.inj h
      exact .subscribed hpc
    · next hpc =>
      obtain rfl := Option.some.inj h
      exact .refused hpc
    · next hpc =>
      obtain rfl := Option.some.inj h
      exact .published hpc
    · next hpc =>
      obtain rfl := Option.some.inj h
      exact .failed (Or.inl hpc)
    · next hpc =>
      obtain ⟨⟨proof, resp⟩, hresp, rfl⟩ := Option.map_eq_some_iff.mp h
      exact .received hpc hresp
    · next hpc =>
      obtain rfl := Option.some.inj h
      exact .failed (Or.inr hpc)
    · next r hpc =>
      obtain rfl := Option.some.inj h
      exact .unsubscribed hpc
    · next r hpc =>
      obtain rfl := Option.some.inj h
      exact .closed hpc
    · obtain rfl := Option.some.inj h
      exact step_notify s _
    · obtain rfl := Option.some.inj h
      exact .unmoved rfl rfl rfl rfl id
    · cases h

/-! ## Where the proof is -/

/-- Where the proof is that the subscription has put on the channel. -/
inductive Whereabouts (channel pending : List Proof) (result : Option (Except SendError Proof)) :
    Prop where
  /-- There is none yet, -/
  | nowhere (hchannel : channel = []) (hpending : pending = [])
      (hresult : ∀ proof, result ≠ some (.ok proof))
  /-- a goroutine is blocked with it, -/
  | blocked {proof : Proof} (hchannel : channel = [proof]) (hpending : pending = [proof])
      (hresult : ∀ proof, result ≠ some (.ok proof))
  /-- or `Send` has it. -/
  | taken {proof : Proof} (hchannel : channel = [proof]) (hpending : pending = [])
      (hresult : result = some (.ok proof))

structure Inv (L : Ipld) (abr : AddBlockRequest) (s : SendCall) : Prop where
  abr : s.sub.abr = abr
  unbuffered : s.resp.capacity = 0
  subscribed : s.sub.subscribed = listening s.pc
  served : s.sub.Served L fun _ => True
  whereabouts : Whereabouts s.sub.channel s.resp.pending (result s.pc)
  crashed : s.crashed = true ↔ (∃ r, s.pc = .returned r) ∧ s.resp.pending ≠ []

variable {L : Ipld} {abr : AddBlockRequest} {s s' : SendCall}
  {channel pending : List Proof} {r r' : Option (Except SendError Proof)}

/-- A call goes on without a result, or fails. -/
theorem Whereabouts.mono (h : Whereabouts channel pending r)
    (hr : ∀ proof, r ≠ some (.ok proof)) (hr' : ∀ proof, r' ≠ some (.ok proof)) :
    Whereabouts channel pending r' := by
  cases h with
  | nowhere hchannel hpending _ => exact .nowhere hchannel hpending hr'
  | blocked hchannel hpending _ => exact .blocked hchannel hpending hr'
  | taken _ _ hresult => exact absurd hresult (hr _)

theorem inv_new (L : Ipld) (abr : AddBlockRequest) : (new L abr).Inv L abr where
  abr := rfl
  unbuffered := rfl
  subscribed := rfl
  served := ⟨rfl, fun _ => rfl, Nat.zero_le _, fun p hp => by cases hp⟩
  whereabouts := .nowhere rfl rfl fun proof h => by cases h
  crashed := iff_of_false Bool.false_ne_true fun h => h.2 rfl

/-- The first proof is blocked with its goroutine, unless `Send` waits for it. -/
theorem Inv.offer (h : s.Inv L abr) (hcrashed : s.crashed = false) {noti : ValidationNotification}
    (hsub : s.sub.subscribed = true) (hdone : s.sub.isDone = false)
    (hinc : noti.includes s.sub.abrCid = true) :
    (offer { s with sub := { s.sub with
      isDone := true, channel := s.sub.channel ++ [Subscription.proof s.sub.abr noti] } }
        (Subscription.proof s.sub.abr noti)).Inv L abr := by
  have hempty : s.sub.channel = [] := h.served.waiting hdone
  have hserved : ({ s.sub with isDone := true
                               channel := s.sub.channel ++ [Subscription.proof s.sub.abr noti] } :
      Subscription).Served L fun _ => True := by
    refine ⟨h.served.abrCid, fun hd => (by cases hd), by simp [hempty], ?_⟩
    intro p hp
    have hp' : p = Subscription.proof s.sub.abr noti := by simpa [hempty] using hp
    exact ⟨noti, trivial, hinc, hp'⟩
  obtain ⟨hpending, hresult⟩ : s.resp.pending = [] ∧ ∀ proof, result s.pc ≠ some (.ok proof) := by
    cases h.whereabouts with
    | nowhere _ hpending hresult => exact ⟨hpending, hresult⟩
    | blocked hchannel _ _ | taken hchannel _ _ => cases hempty.symm.trans hchannel
  have hopen : ∀ r, s.pc ≠ .returned r := by
    intro r hpc
    have hlistening := h.subscribed.symm.trans hsub
    rw [hpc] at hlistening
    cases hlistening
  have hfirst : s.sub.channel ++ [Subscription.proof s.sub.abr noti] =
      [Subscription.proof s.sub.abr noti] := by rw [hempty, List.nil_append]
  unfold SendCall.offer
  split
  · next hpc =>
    refine { abr := h.abr, unbuffered := h.unbuffered, served := hserved, subscribed := hsub
             whereabouts := .taken hfirst hpending rfl, crashed := ?_ }
    exact iff_of_false (Bool.eq_false_iff.mp hcrashed) fun hr => hr.2 hpending
  · refine { abr := h.abr, unbuffered := (s.resp.capacity_send _).trans h.unbuffered
             served := hserved, subscribed := h.subscribed
             whereabouts := .blocked hfirst ?_ hresult, crashed := ?_ }
    · rw [Chan.pending_send, hpending, List.nil_append]
    · refine iff_of_false (Bool.eq_false_iff.mp hcrashed) fun hr => ?_
      obtain ⟨⟨r, hr⟩, -⟩ := hr
      exact hopen r hr

/-- A call goes on without a proof. -/
theorem Inv.proceed (h : s.Inv L abr) (hcrashed : s.crashed = false) {pc : SendPc}
    {subscribed : Bool} (hsub : subscribed = listening pc)
    (hold : ∀ proof, result s.pc ≠ some (.ok proof)) (hnew : ∀ proof, result pc ≠ some (.ok proof))
    (hopen : ∀ r, pc ≠ .returned r) :
    ({ s with pc, sub := { s.sub with subscribed } } : SendCall).Inv L abr where
  abr := h.abr
  unbuffered := h.unbuffered
  subscribed := hsub
  served := ⟨h.served.abrCid, h.served.waiting, h.served.once, h.served.made⟩
  whereabouts := h.whereabouts.mono hold hnew
  crashed := by
    refine iff_of_false (Bool.eq_false_iff.mp hcrashed) fun hr => ?_
    obtain ⟨⟨r, hr⟩, -⟩ := hr
    exact hopen r hr

/-- **Every step keeps track of the proof.** -/
theorem Inv.step (h : s.Inv L abr) (hcrashed : s.crashed = false) (hstep : Step s s') :
    s'.Inv L abr := by
  -- as long as the call has not returned, nothing has crashed
  have hopen : ∀ {pc : SendPc} {p : List Proof}, (∀ r, pc ≠ .returned r) →
      (s.crashed = true ↔ (∃ r, pc = .returned r) ∧ p ≠ []) := by
    intro pc p hpc
    refine iff_of_false (Bool.eq_false_iff.mp hcrashed) fun hr => ?_
    obtain ⟨⟨r, hr⟩, -⟩ := hr
    exact hpc r hr
  have hw := h.whereabouts
  cases hstep with
  | subscribed hpc =>
    exact h.proceed hcrashed rfl (by simp [hpc, result]) (by simp [result]) (by simp)
  | refused hpc =>
    exact h.proceed hcrashed (by rw [h.subscribed, hpc]; rfl) (by simp [hpc, result])
      (by simp [result]) (by simp)
  | published hpc =>
    exact h.proceed hcrashed (by rw [h.subscribed, hpc]; rfl) (by simp [hpc, result])
      (by simp [result]) (by simp)
  | failed hpc =>
    have hnone : result s.pc = none ∧ listening s.pc = true := by
      rcases hpc with hpc | hpc <;> rw [hpc] <;> exact ⟨rfl, rfl⟩
    exact h.proceed hcrashed (by rw [h.subscribed, hnone.2]; rfl) (by simp [hnone.1])
      (by simp [result]) (by simp)
  | @received proof resp hpc hresp =>
    have hpending := Chan.pending_of_receive hresp
    refine { h with
      unbuffered := (Chan.capacity_of_receive hresp).trans h.unbuffered
      subscribed := by rw [h.subscribed, hpc]; rfl
      whereabouts := ?_
      crashed := hopen fun r hr => by cases hr }
    rw [hpc] at hw
    cases hw with
    | nowhere _ hnone _ => cases hnone.symm.trans hpending
    | blocked hchannel hblocked _ =>
      obtain ⟨rfl, hrest⟩ := List.cons.inj (hblocked.symm.trans hpending)
      exact .taken hchannel hrest.symm rfl
    | taken _ _ hresult => cases hresult
  | unsubscribed hpc =>
    rw [hpc] at hw
    exact { h with
      subscribed := rfl
      served := ⟨h.served.abrCid, h.served.waiting, h.served.once, h.served.made⟩
      whereabouts := hw
      crashed := hopen fun r hr => by cases hr }
  | closed hpc =>
    rw [hpc] at hw
    refine { h with
      subscribed := by rw [h.subscribed, hpc]; rfl
      whereabouts := hw
      crashed := ?_ }
    show (!s.resp.senders.isEmpty) = true ↔ _
    rw [Chan.senders_eq_pending h.unbuffered]
    simp
  | unmoved habr hcid hsub hchannel hdone =>
    refine { h with abr := habr.trans h.abr, subscribed := hsub.trans h.subscribed
                    served := ?_, whereabouts := ?_ }
    · refine ⟨by rw [hcid, habr]; exact h.served.abrCid, fun hd => ?_, ?_, ?_⟩
      · rw [hchannel]
        refine h.served.waiting (Bool.eq_false_iff.mpr fun hold => ?_)
        cases hd.symm.trans (hdone hold)
      · rw [hchannel]
        exact h.served.once
      · rw [hchannel, hcid, habr]
        exact h.served.made
    · show Whereabouts _ s.resp.pending (result s.pc)
      rw [hchannel]
      exact hw
  | accepted hsub hdone hinc => exact h.offer hcrashed hsub hdone hinc

theorem inv_reach {ok : SendCall → Action → Bool} (h : (system L abr).Reach ok s) :
    s.Inv L abr := by
  refine System.Reach.invariant (P := fun s => s.Inv L abr) (inv_new L abr) ?_ h
  intro s a s' hs _ hact
  obtain ⟨hcrashed, hstep⟩ := step_of_act hact
  exact hs.step hcrashed hstep

/--
**When `Send` ends the process.**

In every interleaving with the notifications of the round subscriber: if `Send` returns a proof, it
is made of a notification that includes the request, and nothing panics. If it returns an error,
a goroutine panics on the closed channel exactly if the subscription had accepted a notification
that includes the request. Nothing panics before `Send` returns.
-/
theorem send_crashes_iff {ok : SendCall → Action → Bool} (h : (system L abr).Reach ok s) :
    (∀ proof, s.pc = .returned (.ok proof) → s.crashed = false ∧
      ∃ noti : ValidationNotification,
        noti.includes (L.cidOf (.addBlockRequest abr)) = true ∧
        proof = Subscription.proof abr noti) ∧
    (∀ e, s.pc = .returned (.error e) → (s.crashed = true ↔ s.sub.channel ≠ [])) ∧
    (s.crashed = true → ∃ e, s.pc = .returned (.error e)) := by
  have hinv := inv_reach h
  have hw := hinv.whereabouts
  refine ⟨?_, ?_, ?_⟩
  · intro proof hpc
    rw [hpc] at hw
    cases hw with
    | nowhere _ _ hresult | blocked _ _ hresult => exact absurd rfl (hresult proof)
    | taken hchannel hpending hresult =>
      obtain rfl := Except.ok.inj (Option.some.inj hresult)
      obtain ⟨noti, -, hinc, hproof⟩ :=
        hinv.served.made proof (by rw [hchannel]; exact List.mem_singleton_self _)
      rw [hinv.served.abrCid, hinv.abr] at hinc
      rw [hinv.abr] at hproof
      refine ⟨Bool.eq_false_iff.mpr fun hcrashed => ?_, noti, hinc, hproof⟩
      exact (hinv.crashed.mp hcrashed).2 hpending
  · intro e hpc
    rw [hinv.crashed, and_iff_right ⟨_, hpc⟩]
    rw [hpc] at hw
    cases hw with
    | nowhere hchannel hpending _ => simp [hchannel, hpending]
    | blocked hchannel hpending _ => simp [hchannel, hpending]
    | taken _ _ hresult => cases hresult
  · intro hcrashed
    obtain ⟨⟨r, hpc⟩, hpending⟩ := hinv.crashed.mp hcrashed
    cases r with
    | error e => exact ⟨e, hpc⟩
    | ok proof =>
      rw [hpc] at hw
      cases hw with
      | nowhere _ hnone _ | taken _ hnone _ => exact absurd hnone hpending
      | blocked _ _ hresult => exact absurd rfl (hresult proof)

end SendCall

/-! ## The timer and the round -/

namespace SendExample

def abr : AddBlockRequest := .bare [1] [] [7] 0

/-- The round that accepts the request. -/
def noti : ValidationNotification where
  accepted := [Ipld.sorted.cidOf (.addBlockRequest abr)]
  checkpoint := { height := 1, addBlockRequests := [] }
  roundConfirmation := { roundCid := [], height := 1, signature := none }
  completedRound := { height := 1, checkpointCid := [], stateCid := [] }

/-- The notification comes when the timer is up and `Send` has not unsubscribed yet. -/
def late : List SendCall.Action :=
  [.subscribe (.ok ()), .send true, .timeout, .notify noti, .unsubscribe, .close]

/-- `Send` returns an error for a request that was accepted, and the process ends. -/
theorem send_crashes_iff_example : ∃ s,
    (SendCall.system Ipld.sorted abr).run (fun _ _ => true) late = some s ∧
    s.pc = .returned (.error .timeout) ∧ s.crashed = true := by
  have hrun : ((SendCall.system Ipld.sorted abr).run (fun _ _ => true) late).map
      (fun s => (s.pc, s.sub.channel.isEmpty)) = some (.returned (.error .timeout), false) := by
    decide +kernel
  obtain ⟨s, hs, hv⟩ := Option.map_eq_some_iff.mp hrun
  obtain ⟨hpc, hchannel⟩ := Prod.mk.inj hv
  refine ⟨s, hs, hpc, ?_⟩
  refine ((SendCall.send_crashes_iff (System.reach_of_run hs)).2.1 _ hpc).mpr ?_
  intro hempty
  rw [hempty] at hchannel
  cases hchannel

end SendExample

end Tupelo

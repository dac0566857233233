import Tupelo.Signer.DurableHistory
import Tupelo.Signer.SnowballerLoop

/-!
# A signer with its snowballer

`Node` models the actor of a signer, and takes a decision as an event that comes from outside,
with a checkpoint whose votes were not nilled out. `Snowballer` models the goroutine that decides.
Here the two run together, as in `signer/gossip/node.go`: they share the mempool, the goroutine
sends one `snowballerDone` when the snowball has decided, and the actor reads the decision from
the snowballer when it gets to the message.

`Linked` is what ties the two together in every state. From it follows that the whole signer
refines the runs of the node: when the message is handled the snowballer prefers a checkpoint, the
checkpoint lists requests, and all of them are in the mempool.
-/

namespace Tupelo

open Infra

/-- `alpha`, `beta` and `k` of every round. -/
structure SnowballConfig (A : FloatArith) where
  alpha : A.F
  beta : Int
  k : Nat

/-- The actor and the snowballer of its round. -/
structure WholeSigner (A : FloatArith) where
  traced : TracedNode
  snb : Snowballer A
  /-- The goroutine of the snowballer has sent its message. -/
  sent : Bool
  /-- The `snowballerDone` messages that the actor has yet to handle. -/
  mailbox : Nat

/-- What concerns only the actor. -/
def Node.Event.external : Node.Event → Bool
  | .startSnowball => false
  | .snowballerDone _ => false
  | _ => true

/-- The actions that make up `doTick`. -/
def Snowballer.Action.inTick : Snowballer.Action → Bool
  | .respond _ => true
  | .look => true
  | .tick _ => true
  | _ => false

namespace WholeSigner

variable {A : FloatArith}
variable {L : Ipld} {a : Action}

inductive Action where
  | event (e : Node.Event)
  /-- `SnowBallReceive` gets a `startSnowball`. -/
  | start (order : MapOrder)
  | ticking (a : Snowballer.Action)
  /-- The loop of the snowballer has ended. -/
  | send
  /-- The actor gets the `snowballerDone`. -/
  | receive
  | crash

/-- `newSnowballer`, for the current round of the node. -/
def newSnowballer (cfg : SnowballConfig A) (n : Node) : Snowballer A :=
  .new n.current.height (.new cfg.alpha cfg.beta cfg.k) n.mempool

/-- What the snowballer prefers. -/
def decision (s : WholeSigner A) : Option Checkpoint := s.snb.snowball.preferred.bind (·.checkpoint)

/-- Nothing results from what cannot happen, or panics. -/
def act (E : Env) (cfg : SnowballConfig A) (s : WholeSigner A) : Action → Option (WholeSigner A)
  | .event e =>
    if e.external then
      (TracedNode.act E s.traced (.event e)).map fun t =>
        { s with traced := t, snb := { s.snb with mempool := t.node.mempool } }
    else none
  | .start order =>
    (TracedNode.act E s.traced (.event .startSnowball)).map fun t =>
      { s with traced := t, snb := s.snb.start E.L order }
  | .ticking a =>
    if a.inTick then (s.snb.act E.L a).map fun snb => { s with snb } else none
  | .send =>
    if s.snb.snowball.decided && !s.sent then
      some { s with sent := true, mailbox := s.mailbox + 1 }
    else none
  | .receive =>
    if s.mailbox = 0 then none
    else do
      let cp ← s.decision
      let n ← (s.traced.node.handleSnowballerDone E.L cp).toOption
      let history :=
        TracedNode.record E.L s.traced.node s.traced.history (.event (.snowballerDone cp))
      pure { traced := ⟨n, history⟩, snb := newSnowballer cfg n, sent := false
             mailbox := s.mailbox - 1 }
  | .crash =>
    (TracedNode.act E s.traced .crash).map fun t =>
      { traced := t, snb := newSnowballer cfg t.node, sent := false, mailbox := 0 }

/-- The runs of a signer with its snowballer. -/
def system (E : Env) (cfg : SnowballConfig A) : System (WholeSigner A) Action where
  start :=
    { traced := (TracedNode.system E).start, snb := newSnowballer cfg Node.genesis, sent := false
      mailbox := 0 }
  act := act E cfg

/-- What the step is for the node alone. -/
def nodeAction (s : WholeSigner A) : Action → Option Tupelo.Action
  | .event e => some (.event e)
  | .start _ => some (.event .startSnowball)
  | .receive => s.decision.map fun cp => .event (.snowballerDone cp)
  | .crash => some .crash
  | .ticking _ => none
  | .send => none

/-- A condition on the runs of the node. -/
def lifted (ok : TracedNode → Tupelo.Action → Bool) (s : WholeSigner A) (a : Action) : Bool :=
  (s.nodeAction a).all (ok s.traced)

/-! ## What a step does -/

variable {E : Env} {cfg : SnowballConfig A} {s s' : WholeSigner A}

/-- The steps, with one constructor for each way. -/
inductive Step (E : Env) (cfg : SnowballConfig A) (s : WholeSigner A) :
    Action → WholeSigner A → Prop where
  | event {e : Node.Event} {n : Node} (hext : e.external = true)
      (hn : s.traced.node.step E e = some n) :
      Step E cfg s (.event e) { s with
        traced := ⟨n, TracedNode.record E.L s.traced.node s.traced.history (.event e)⟩
        snb := { s.snb with mempool := n.mempool } }
  | start (order : MapOrder) :
      Step E cfg s (.start order) { s with
        traced := ⟨s.traced.node.startSnowball, s.traced.history⟩, snb := s.snb.start E.L order }
  | ticking {a : Snowballer.Action} {snb : Snowballer A} (htick : a.inTick = true)
      (hsnb : s.snb.act E.L a = some snb) : Step E cfg s (.ticking a) { s with snb }
  | send (hdecided : s.snb.snowball.decided = true) (hsent : s.sent = false) :
      Step E cfg s .send { s with sent := true, mailbox := s.mailbox + 1 }
  | receive {cp : Checkpoint} {n : Node} (hmail : s.mailbox ≠ 0) (hcp : s.decision = some cp)
      (hdone : s.traced.node.handleSnowballerDone E.L cp = .ok n) :
      Step E cfg s .receive
        { traced := ⟨n, TracedNode.record E.L s.traced.node s.traced.history
            (.event (.snowballerDone cp))⟩
          snb := newSnowballer cfg n, sent := false, mailbox := s.mailbox - 1 }
  | crash {n : Node}
      (hn : Node.initRoundHolder s.traced.node.dagStore s.traced.node.dataStore
        s.traced.node.pubsub = .ok n) :
      Step E cfg s .crash
        { traced := ⟨n, s.traced.history⟩, snb := newSnowballer cfg n, sent := false, mailbox := 0 }

/-- **Every step is one of these.** -/
theorem step_of_act (h : act E cfg s a = some s') : Step E cfg s a s' := by
  cases a with
  | event e =>
    rw [act] at h
    split at h
    · next hext =>
      obtain ⟨t, ht, rfl⟩ := Option.map_eq_some_iff.mp h
      obtain ⟨n, hn, rfl⟩ := TracedNode.act_event ht
      exact .event hext hn
    · cases h
  | start order =>
    rw [act] at h
    obtain ⟨t, ht, rfl⟩ := Option.map_eq_some_iff.mp h
    obtain ⟨n, hn, rfl⟩ := TracedNode.act_event ht
    obtain rfl := Option.some.inj hn
    exact .start order
  | ticking a =>
    rw [act] at h
    split at h
    · next htick =>
      obtain ⟨snb, hsnb, rfl⟩ := Option.map_eq_some_iff.mp h
      exact .ticking htick hsnb
    · cases h
  | send =>
    rw [act] at h
    split at h
    · next hsend =>
      obtain ⟨hdecided, hsent⟩ := Bool.and_eq_true_iff.mp hsend
      obtain rfl := Option.some.inj h
      exact .send hdecided (by simpa using hsent)
    · cases h
  | receive =>
    rw [act] at h
    split at h
    · cases h
    · next hmail =>
      obtain ⟨cp, hcp, h⟩ := Option.bind_eq_some_iff.mp h
      obtain ⟨n, hn, h⟩ := Option.bind_eq_some_iff.mp h
      obtain rfl := Option.some.inj h
      exact .receive hmail hcp (toOption_eq_some.mp hn)
  | crash =>
    obtain ⟨t, ht, rfl⟩ := Option.map_eq_some_iff.mp h
    obtain ⟨n, hn, rfl⟩ := TracedNode.act_crash ht
    exact .crash hn

theorem threadStep_started {n n' : Node} {p : Nat} {r : PastRound} {ok : Bool} {pc : Pc}
    {next : Option Pc} (h : Node.ThreadStep E n p r ok pc n' next) : n'.started = n.started := by
  cases h <;> rfl

/-- The round goes on: at most a request has come into the mempool. -/
structure SameRound (L : Ipld) (n n' : Node) : Prop where
  mempool : n'.mempool = n.mempool ∨ ∃ abr, n'.mempool = Snowballer.stored L n.mempool abr
  started : n'.started = n.started
  height : n'.current.height = n.current.height

/-- An event of the actor goes on with the round. -/
theorem sameRound_step {n n' : Node} {e : Node.Event} (hext : e.external = true)
    (h : n.step E e = some n') : SameRound E.L n n' := by
  have hlook : ∀ {n₁}, Node.Looked E.L n n₁ → SameRound E.L n n₁ := by
    intro n₁ hn₁
    obtain ⟨heap, roundCache, rfl⟩ := hn₁.frame
    exact ⟨Or.inl rfl, rfl, rfl⟩
  cases Node.eventStep_of_step h with
  | drop hn₁ | answer hn₁ | tick hn₁ => exact hlook hn₁
  | await hn₁ => exact { hlook hn₁ with }
  | @store abr stored _ _ hn₁ =>
    obtain ⟨heap, roundCache, rfl⟩ := hn₁.frame
    cases stored with
    | false => exact ⟨Or.inl rfl, rfl, rfl⟩
    | true => exact ⟨Or.inr ⟨abr, rfl⟩, rfl, rfl⟩
  | @promote i stored w =>
    cases stored with
    | false => exact ⟨Or.inl rfl, rfl, rfl⟩
    | true => exact ⟨Or.inr ⟨w.abr, rfl⟩, rfl, rfl⟩
  | running | start | decided => cases hext
  | @background _ _ _ _ _ n₁ _ _ _ hthread =>
    have hsame : SameRound E.L n n₁ :=
      ⟨Or.inl hthread.frame.1, threadStep_started hthread, congrArg _ hthread.frame.2.1⟩
    rw [Node.setThread_eq]
    exact { hsame with }
  | republish hget | spawn hget => exact { hlook (Node.Looked.of_get hget) with }

/-! ## What ties the two together -/

structure Linked (L : Ipld) (s : WholeSigner A) : Prop where
  mempool : s.snb.mempool = s.traced.node.mempool
  started : s.snb.started = s.traced.node.started
  height : s.snb.height = s.traced.node.current.height
  pool : s.traced.node.mempool.Wf L
  /-- The message is sent once the snowball has decided, -/
  sent : s.sent = true → s.snb.snowball.decided = true
  /-- once, and it is the only one in the mailbox. -/
  mailbox : s.mailbox = if s.sent then 1 else 0

theorem linked_newSnowballer (cfg : SnowballConfig A) {t : TracedNode} (hpool : t.node.mempool.Wf L)
    (hstarted : t.node.started = false) :
    Linked L { traced := t, snb := newSnowballer cfg t.node, sent := false, mailbox := 0 } where
  mempool := rfl
  started := hstarted.symm
  height := rfl
  pool := hpool
  sent := fun h => by cases h
  mailbox := rfl

/-- Ticking leaves the round as it is, and does not touch a snowball that has decided. -/
theorem ticking_frame {snb snb' : Snowballer A} {a : Snowballer.Action} (htick : a.inTick = true)
    (h : snb.act L a = some snb') :
    snb'.mempool = snb.mempool ∧ snb'.started = snb.started ∧ snb'.height = snb.height ∧
      (snb.snowball.decided = true → snb'.snowball = snb.snowball) := by
  cases a with
  | storeAbr | start => cases htick
  | respond cp =>
    have hsnow := SnowballerLoop.snowball_respond h
    rw [Snowballer.act] at h
    split at h
    · obtain rfl := Option.some.inj h
      refine ⟨?_, ?_, ?_, fun _ => hsnow⟩ <;> (unfold Snowballer.respond; split <;> rfl)
    · cases h
  | look =>
    have hsnow := SnowballerLoop.snowball_look h
    obtain ⟨c, -, hlook⟩ := Option.bind_eq_some_iff.mp h
    rcases Snowballer.look_cases (toOption_eq_some.mp hlook) with
      rfl | ⟨c', -, rfl⟩ | ⟨cp, csIds, -, rfl⟩
    · exact ⟨rfl, rfl, rfl, fun _ => rfl⟩
    · exact ⟨rfl, rfl, rfl, fun _ => rfl⟩
    · exact ⟨rfl, rfl, rfl, fun _ => rfl⟩
  | tick orders =>
    rw [Snowballer.act] at h
    split at h
    · next hidle =>
      obtain rfl := Option.some.inj h
      have hundecided := (Snowballer.idle_iff.mp hidle).2.1
      exact ⟨rfl, rfl, rfl, fun hd => absurd (hundecided.symm.trans hd) Bool.false_ne_true⟩
    · cases h

theorem start_frame (L : Ipld) (snb : Snowballer A) (order : MapOrder) :
    (snb.start L order).mempool = snb.mempool ∧ (snb.start L order).started = true ∧
      (snb.start L order).height = snb.height := by
  unfold Snowballer.start
  split
  · next hs => exact ⟨rfl, hs, rfl⟩
  · simp only []
    split
    · exact ⟨rfl, rfl, rfl⟩
    · exact ⟨rfl, rfl, rfl⟩

theorem started_startSnowball (n : Node) : n.startSnowball.started = true ∧
    n.startSnowball.mempool = n.mempool ∧ n.startSnowball.current.height = n.current.height := by
  unfold Node.startSnowball
  split
  · next hs => exact ⟨hs, rfl, rfl⟩
  · simp only []
    split
    · exact ⟨rfl, rfl, rfl⟩
    · exact ⟨rfl, rfl, rfl⟩

/-- A decision ends the round: what the mempool has left is well-formed. -/
theorem pool_handleSnowballerDone (hL : L.Faithful) {n n' : Node} {cp : Checkpoint}
    (hpool : n.mempool.Wf L) (h : n.handleSnowballerDone L cp = .ok n') :
    n'.mempool.Wf L ∧ n'.started = false := by
  obtain ⟨state, n₁, abrs, inflight, promotions, hstate, -, rfl⟩ := Node.handleSnowballerDone_ok h
  obtain ⟨heap, roundCache, rfl⟩ := (Node.looked_previousState hstate).frame
  exact ⟨Mempool.wf_bulkDelete hL _ hpool, rfl⟩

theorem Linked.step (hL : E.L.Faithful) (h : Linked E.L s) (hstep : Step E cfg s a s')
    (hundecided : s.snb.started = false → s.snb.snowball.decided = false) : Linked E.L s' := by
  cases hstep with
  | event hext hn =>
    have hsame := sameRound_step hext hn
    refine { h with
      mempool := rfl, started := h.started.trans hsame.started.symm
      height := h.height.trans hsame.height.symm, pool := ?_ }
    rcases hsame.mempool with hm | ⟨abr, hm⟩
    · rw [hm]
      exact h.pool
    · rw [hm]
      exact Mempool.wf_add h.pool rfl
  | start order =>
    obtain ⟨hm, hs, hh⟩ := start_frame E.L s.snb order
    obtain ⟨hs', hm', hh'⟩ := started_startSnowball s.traced.node
    refine { h with
      mempool := ?_, started := hs.trans hs'.symm, height := ?_, pool := ?_, sent := ?_ }
    · rw [hm, h.mempool]
      exact hm'.symm
    · rw [hh, h.height]
      exact hh'.symm
    · show s.traced.node.startSnowball.mempool.Wf E.L
      rw [hm']
      exact h.pool
    · intro hsent
      have hdecided := h.sent hsent
      cases hst : s.snb.started with
      | false => exact absurd ((hundecided hst).symm.trans hdecided) Bool.false_ne_true
      | true =>
        have hsame : s.snb.start E.L order = s.snb := by
          unfold Snowballer.start
          rw [if_pos hst]
        show (s.snb.start E.L order).snowball.decided = true
        rw [hsame]
        exact hdecided
  | ticking htick hsnb =>
    obtain ⟨hm, hs, hh, hsnow⟩ := ticking_frame htick hsnb
    exact { h with
      mempool := hm.trans h.mempool, started := hs.trans h.started, height := hh.trans h.height
      sent := fun hsent => by
        rw [hsnow (h.sent hsent)]
        exact h.sent hsent }
  | send hdecided hsent =>
    have hmail : s.mailbox = 0 := by
      rw [h.mailbox, hsent]
      rfl
    exact { h with sent := fun _ => hdecided, mailbox := by rw [hmail]; rfl }
  | @receive cp n hmail hcp hdone =>
    obtain ⟨hpool, hstarted⟩ := pool_handleSnowballerDone hL h.pool hdone
    have hone : s.mailbox - 1 = 0 := by
      rw [h.mailbox]
      split <;> rfl
    rw [hone]
    exact linked_newSnowballer cfg hpool hstarted
  | crash hn =>
    obtain ⟨height, -, hpure⟩ := bind_eq_ok.mp hn
    obtain rfl := pure_eq_ok.mp hpure
    exact linked_newSnowballer cfg Mempool.wf_new rfl

/-! ## What the snowballer carries -/

/-- A criterion for each height: what is checked, voted for and decided meets the one of its. -/
def Carried (K : Nat → Snowballer.Criterion L) (s : WholeSigner A) : Prop :=
  s.snb.Inv (K s.snb.height)

theorem carried_newSnowballer (K : Nat → Snowballer.Criterion L) (cfg : SnowballConfig A) {n : Node}
    (hpool : n.mempool.Wf L) (hs : s.snb = newSnowballer cfg n) : Carried K s := by
  unfold Carried
  rw [hs]
  exact Snowballer.inv_start hpool.keyed

/-- **Every step carries the property on**, if the ends of checks have it. -/
theorem Carried.step {K : Nat → Snowballer.Criterion E.L} (h : Carried K s) (hlinked : Linked E.L s)
    (hlinked' : Linked E.L s') (hstep : Step E cfg s a s')
    (hrespond : ∀ cp, a = .ticking (.respond cp) → cp.addBlockRequests ≠ [] →
      (K s.snb.height).check s.snb.mempool (.hasAll cp true cp.addBlockRequests))
    (hdone : ∀ cp csIds, a = .ticking .look → s.snb.checking = some (.conflicts cp csIds []) →
      (K s.snb.height).check s.snb.mempool (.conflicts cp csIds []) →
      (K s.snb.height).vote s.snb.mempool cp) : Carried K s' := by
  cases hstep with
  | event hext hn =>
    unfold Carried at h ⊢
    rcases (sameRound_step hext hn).mempool with hm | ⟨abr, hm⟩
    · rw [hm, ← hlinked.mempool]
      exact h
    · rw [hm, ← hlinked.mempool]
      exact h.storeAbr abr
  | start order =>
    unfold Carried at h ⊢
    rw [(start_frame E.L s.snb order).2.2]
    exact h.start order
  | @ticking a snb htick hsnb =>
    unfold Carried at h ⊢
    rw [(ticking_frame htick hsnb).2.2.1]
    refine h.act hsnb ?_ ?_
    · rintro cp rfl
      exact hrespond cp rfl
    · rintro cp csIds rfl
      exact hdone cp csIds rfl
  | send => exact h
  | receive => exact carried_newSnowballer K cfg hlinked'.pool rfl
  | crash => exact carried_newSnowballer K cfg hlinked'.pool rfl

theorem linked_start (E : Env) (cfg : SnowballConfig A) : Linked E.L (system E cfg).start :=
  linked_newSnowballer cfg Mempool.wf_new rfl

theorem linked_reach (hL : E.L.Faithful) {ok : WholeSigner A → Action → Bool}
    (h : (system E cfg).Reach ok s) :
    Linked E.L s ∧ Carried (fun _ => Snowballer.admissible E.L hL) s := by
  refine h.invariant
    (P := fun s => Linked E.L s ∧ Carried (fun _ => Snowballer.admissible E.L hL) s)
    ⟨linked_start E cfg, carried_newSnowballer _ cfg (linked_start E cfg).pool rfl⟩ ?_
  rintro s a s' ⟨hlinked, hcarried⟩ - hact
  have hstep := step_of_act hact
  have hlinked' := hlinked.step hL hstep hcarried.undecided
  exact ⟨hlinked', hcarried.step hlinked hlinked' hstep (fun _ _ hne => hne)
    fun _ _ _ _ hcheck => Snowballer.admissible_done hL hcheck⟩

/-! ## The whole signer refines the node -/

/-- **What is in the mailbox is a decision that the node can take.** -/
theorem decision_of_mail (hlinked : Linked E.L s) {hL : E.L.Faithful}
    (hcarried : Carried (fun _ => Snowballer.admissible E.L hL) s) (hmail : s.mailbox ≠ 0) :
    ∃ cp, s.decision = some cp ∧ s.traced.node.started = true ∧
      s.traced.node.mempool.nilsVote E.L cp.addBlockRequests = .ok false := by
  have hsent : s.sent = true := by
    cases hs : s.sent with
    | true => rfl
    | false =>
      rw [hlinked.mailbox, hs] at hmail
      exact absurd rfl hmail
  have hdecided := hlinked.sent hsent
  obtain ⟨v, cp, hpref, hcp, hvote⟩ := hcarried.snowball.of_decided hdecided
  refine ⟨cp, ?_, ?_, ?_⟩
  · rw [decision, hpref]
    exact hcp
  · rw [← hlinked.started]
    cases hst : s.snb.started with
    | true => rfl
    | false => exact absurd ((hcarried.undecided hst).symm.trans hdecided) Bool.false_ne_true
  · rw [← hlinked.mempool]
    exact hvote

/-- One step of the whole signer is one step of the node, or none. -/
theorem node_step (hL : E.L.Faithful) (hlinked : Linked E.L s)
    (hcarried : Carried (fun _ => Snowballer.admissible E.L hL) s) (hstep : Step E cfg s a s') :
    (s.nodeAction a = none ∧ s'.traced = s.traced) ∨
      ∃ b, s.nodeAction a = some b ∧ TracedNode.act E s.traced b = some s'.traced := by
  cases hstep with
  | @event e n hext hn =>
    refine Or.inr ⟨.event e, rfl, ?_⟩
    rw [TracedNode.act, hn]
    rfl
  | start order => exact Or.inr ⟨.event .startSnowball, rfl, rfl⟩
  | ticking => exact Or.inl ⟨rfl, rfl⟩
  | send => exact Or.inl ⟨rfl, rfl⟩
  | @receive cp n hmail hcp hdone =>
    obtain ⟨cp', hcp', hstarted, hvote⟩ := decision_of_mail hlinked hcarried hmail
    obtain rfl := Option.some.inj (hcp'.symm.trans hcp)
    refine Or.inr ⟨.event (.snowballerDone cp'), by rw [nodeAction, hcp]; rfl, ?_⟩
    have hnode : s.traced.node.step E (.snowballerDone cp') = some n := by
      rw [Node.step, if_pos ⟨hstarted, hvote⟩, hdone]
      rfl
    rw [TracedNode.act, hnode]
    rfl
  | crash hn =>
    refine Or.inr ⟨.crash, rfl, ?_⟩
    rw [TracedNode.act, hn]
    rfl

theorem reach_traced (hL : E.L.Faithful) {ok : TracedNode → Tupelo.Action → Bool}
    (h : (system E cfg).Reach (lifted ok) s) : (TracedNode.system E).Reach ok s.traced := by
  induction h with
  | start => exact .start
  | @step s s' a hs hok hact ih =>
    obtain ⟨hlinked, hcarried⟩ := linked_reach hL hs
    rcases node_step hL hlinked hcarried (step_of_act hact) with ⟨-, heq⟩ | ⟨b, hb, hact'⟩
    · rw [heq]
      exact ih
    · refine ih.step b ?_ hact'
      rw [lifted, hb] at hok
      exact hok

/--
**A signer with its snowballer refines the node.**

For every condition on the steps of the node: the node of the whole signer is in a state that
the node reaches by itself. There is at most one `snowballerDone` in the mailbox, and while it is
there the snowballer prefers a checkpoint that the node takes: the round has been started, the
checkpoint lists requests of the mempool without conflicts, and the loop of
`handleSnowballerDone` finds all of them.
-/
theorem refines_node (hL : E.L.Faithful) {ok : TracedNode → Tupelo.Action → Bool}
    (h : (system E cfg).Reach (lifted ok) s) :
    (TracedNode.system E).Reach ok s.traced ∧ s.mailbox ≤ 1 ∧
      (s.mailbox = 1 → ∃ cp, s.decision = some cp ∧ cp.addBlockRequests ≠ [] ∧
        s.traced.node.step E (.snowballerDone cp) =
          (s.traced.node.handleSnowballerDone E.L cp).toOption ∧
        ∃ abrs n, Node.collect E.L cp.addBlockRequests s.traced.node = .ok (abrs, n)) := by
  obtain ⟨hlinked, hcarried⟩ := linked_reach hL h
  refine ⟨reach_traced hL h, ?_, fun hmail => ?_⟩
  · rw [hlinked.mailbox]
    split <;> decide
  · obtain ⟨cp, hcp, hstarted, hvote⟩ :=
      decision_of_mail hlinked hcarried (by rw [hmail]; exact Nat.one_ne_zero)
    obtain ⟨hne, ws, hres, -⟩ := Mempool.nilsVote_false_iff.mp hvote
    obtain ⟨abrs, n, hcollect, -⟩ := Snowballer.collect_of_resolves hres
    exact ⟨cp, hcp, hne, by rw [Node.step, if_pos ⟨hstarted, hvote⟩], abrs, n, hcollect⟩

/-! ### A signer that asks two peers -/

namespace Example

open RunExample (abr)

/-- The default `alpha` and `beta`, and two peers to ask. -/
def config : SnowballConfig exactArith where
  alpha := (333 / 500 : ℚ)
  beta := 10
  k := 2

def naming (a : AddBlockRequest) : Checkpoint := Ipld.sorted.naming 0 [a]

/-- Both peers answer with the proposal of the signer, in each of eleven ticks. -/
def deciding : List Action :=
  let response : List Action :=
    .ticking (.respond (naming (abr 0 1 0))) :: List.replicate 4 (.ticking .look)
  let tick : List Action := response ++ response ++ [.ticking (.tick TallyOrders.plain)]
  [.event (.addBlockRequest (abr 0 1 0) true), .start MapOrder.plain] ++
    (List.replicate 11 tick).flatten ++ [.send]

theorem refines_node_example : ∃ s cp,
    (system EquivocationExample.env config).run (lifted (steady Ipld.sorted)) deciding = some s ∧
    (TracedNode.system EquivocationExample.env).Reach (steady Ipld.sorted) s.traced ∧
    s.mailbox = 1 ∧ s.decision = some cp ∧ cp.addBlockRequests ≠ [] := by
  have hrun : ((system EquivocationExample.env config).run (lifted (steady Ipld.sorted))
      deciding).map (·.mailbox) = some 1 := by decide +kernel
  obtain ⟨s, hs, hmail⟩ := Option.map_eq_some_iff.mp hrun
  obtain ⟨hreach, -, hdecision⟩ :=
    refines_node (E := EquivocationExample.env) Ipld.sorted_faithful (System.reach_of_run hs)
  obtain ⟨cp, hcp, hne, -⟩ := hdecision hmail
  exact ⟨s, cp, hs, hreach, hmail, hcp, hne⟩

end Example

end WholeSigner

end Tupelo

import Tupelo.Client.RoundSubscriber
import Tupelo.Infra.Channel
import Tupelo.Infra.Transition
import Tupelo.SortedIpld

/-!
# Subscriptions to rounds

The model of `SubscribeToRounds`, of the subscription that `SubscribeToDid` makes
(`sdk/gossip/client/client.go`), and of the lock of the round subscriber.

The goroutine of the round subscriber calls the handlers while it holds the lock, as
`handleMessage` publishes before it returns. A handler that finds the context of its subscription
done calls `unsubscribe`, which takes the lock. The goroutine then waits for itself: the lock is
never released, and nothing that needs it ever happens again.

The handler may also put the round on the channel, as long as that has room. `SubscribeToDid`
keeps no one who could unsubscribe, and its channel has room for ten. So after its context is done
and its own goroutine has ended, the client gets through ten more rounds at most.
-/

namespace Tupelo

open Infra

variable {C : Crypto}

/-- A handler in the event stream, with the channel it serves. -/
structure RoundSubscription where
  ch : Chan RoundConfirmation
  /-- `doneCh` is closed. -/
  ctxDone : Bool
  /-- The handler has not been unsubscribed. -/
  subscribed : Bool
  /-- Someone has the subscription, and may unsubscribe it. -/
  held : Bool
  /-- Someone receives from the channel. -/
  consumed : Bool

/-- Where the goroutine of the round subscriber stands. It has the lock unless it waits. -/
inductive LoopPc where
  /-- It waits for a message. -/
  | next
  /-- It publishes; these handlers are yet to be called. -/
  | publishing (conf : RoundConfirmation) (todo : List Nat)
  /-- A handler waits for the lock to unsubscribe itself. -/
  | unsubscribing (i : Nat)
  deriving DecidableEq

/-- A client, by its round subscriber and its subscriptions to rounds. -/
structure RoundClient (C : Crypto) where
  rounds : RoundSubscriber C
  subs : List RoundSubscription
  loop : LoopPc

namespace RoundClient

inductive Action where
  /-- A message of the group is handled, up to the call of the first handler. -/
  | message (d : Delivery)
  /--
  The next handler is called; `receiver` says that someone waits on the channel, and `pick` which
  case of the `select` is taken if both can be.
  -/
  | handler (receiver pick : Bool)
  | subscribeToRounds (capacity : Nat)
  | subscribeToDid
  /-- The context of a subscription is done. -/
  | cancel (i : Nat)
  /-- A value is received from the channel of a subscription. -/
  | receive (i : Nat)
  /-- Who received from the channel does not any more. -/
  | leave (i : Nat)
  | unsubscribe (i : Nat)
  /-- `Current`, or another call that takes the lock and gives it back. -/
  | current

def new (group : NotaryGroup C) : RoundClient C :=
  { rounds := .new group, subs := [], loop := .next }

/-- The handlers that a notification is published to. -/
def handlers (subs : List RoundSubscription) : List Nat :=
  (List.range subs.length).filter fun i => (subs[i]?).any (·.subscribed)

/-- The handler of `SubscribeToRounds`; `none` if it goes to unsubscribe itself. -/
def handle (sub : RoundSubscription) (conf : RoundConfirmation) (receiver pick : Bool) :
    Option RoundSubscription :=
  if (receiver || sub.ch.hasRoom) && (pick || !sub.ctxDone) then
    -- a receiver that waits gets it from hand to hand
    some (if receiver then sub else { sub with ch := sub.ch.send conf })
  else if sub.ctxDone then none
  else some sub

def act (L : Ipld) (c : RoundClient C) : Action → Option (RoundClient C)
  | .message d =>
    match c.loop with
    | .next =>
      let rounds := (c.rounds.handleMessage L d).1
      match rounds.stream.drop c.rounds.stream.length with
      | [] => some { c with rounds }
      | noti :: _ =>
        some { c with rounds, loop := .publishing noti.roundConfirmation (handlers c.subs) }
    | _ => none
  | .handler receiver pick =>
    match c.loop with
    | .publishing _ [] => some { c with loop := .next }
    | .publishing conf (i :: todo) =>
      match c.subs[i]? with
      | none => none
      | some sub =>
        if receiver && !(sub.consumed && sub.ch.pending.isEmpty) then none
        else
          match handle sub conf receiver pick with
          | none => some { c with loop := .unsubscribing i }
          | some sub => some { c with subs := c.subs.set i sub, loop := .publishing conf todo }
    | _ => none
  | .subscribeToRounds capacity =>
    some { c with subs := c.subs ++
      [{ ch := .make capacity, ctxDone := false, subscribed := true, held := true
         consumed := true }] }
  | .subscribeToDid =>
    some { c with subs := c.subs ++
      [{ ch := .make 10, ctxDone := false, subscribed := true, held := false
         consumed := true }] }
  | .cancel i => some { c with subs := c.subs.modify i fun sub => { sub with ctxDone := true } }
  | .receive i =>
    match c.subs[i]? with
    | none => none
    | some sub =>
      if sub.consumed then
        sub.ch.receive.map fun (_, ch) => { c with subs := c.subs.set i { sub with ch } }
      else none
  | .leave i => some { c with subs := c.subs.modify i fun sub => { sub with consumed := false } }
  | .unsubscribe i =>
    match c.loop, c.subs[i]? with
    | .next, some sub =>
      if sub.held then some { c with subs := c.subs.set i { sub with subscribed := false } }
      else none
    | _, _ => none
  | .current =>
    match c.loop with
    | .next => some c
    | _ => none

def system (L : Ipld) (group : NotaryGroup C) : System (RoundClient C) Action where
  start := new group
  act := act L

/-! ## A message -/

/-- A message makes the round subscriber publish one notification, or none. -/
theorem handleMessage_publishes (L : Ipld) (rs : RoundSubscriber C) (d : Delivery) :
    (rs.handleMessage L d).1.stream = rs.stream ∨
      ∃ noti, (rs.handleMessage L d).1.stream = rs.stream ++ [noti] := by
  unfold RoundSubscriber.handleMessage
  split
  · exact Or.inl rfl
  · split
    · exact Or.inl rfl
    · simp only []
      split
      · unfold RoundSubscriber.handleQuorum
        simp only []
        split
        · next noti _ => exact Or.inr ⟨noti, rfl⟩
        · exact Or.inl rfl
      · exact Or.inl rfl

theorem nodup_handlers (subs : List RoundSubscription) : (handlers subs).Nodup :=
  List.nodup_range.filter _

theorem mem_handlers {subs : List RoundSubscription} {i : Nat} {sub : RoundSubscription}
    (h : subs[i]? = some sub) (hsub : sub.subscribed = true) : i ∈ handlers subs := by
  have hi : i < subs.length := (List.getElem?_eq_some_iff.mp h).1
  refine List.mem_filter.mpr ⟨List.mem_range.mpr hi, ?_⟩
  rw [h, Option.any_some]
  exact hsub

/-! ## A subscription that nobody is left for -/

/-- The context is done, no one receives, and no one can unsubscribe. -/
structure Abandoned (sub : RoundSubscription) : Prop where
  subscribed : sub.subscribed = true
  ctxDone : sub.ctxDone = true
  held : sub.held = false
  consumed : sub.consumed = false

/--
How many rounds the channel of the subscription `i` has taken, when `published` notifications have
been published, and it had `buffered` rounds after the first `before`.
-/
def Counted (before buffered i published length : Nat) : LoopPc → Prop
  | .next => length + before = buffered + published
  | .publishing _ todo => todo.Nodup ∧
      (i ∈ todo → length + before + 1 = buffered + published) ∧
      (i ∉ todo → length + before = buffered + published)
  | .unsubscribing _ => buffered + published ≤ length + before + 1

/-- The subscription `i` is abandoned and fills up. -/
def Filling (before buffered capacity i : Nat) (c : RoundClient C) : Prop :=
  ∃ sub, c.subs[i]? = some sub ∧ Abandoned sub ∧ sub.ch.capacity = capacity ∧
    Counted before buffered i c.rounds.stream.length sub.ch.buffer.length c.loop

variable {L : Ipld} {c c' : RoundClient C} {before buffered capacity i : Nat}

/-- What does not touch the subscription nor the goroutine keeps it. -/
theorem Filling.of_subs (h : Filling before buffered capacity i c) {subs : List RoundSubscription}
    (hsubs : ∀ sub, c.subs[i]? = some sub → Abandoned sub →
      ∃ sub', subs[i]? = some sub' ∧ Abandoned sub' ∧ sub'.ch = sub.ch) :
    Filling before buffered capacity i { c with subs } := by
  obtain ⟨sub, hsub, hab, hcap, hcount⟩ := h
  obtain ⟨sub', hsub', hab', hch⟩ := hsubs sub hsub hab
  refine ⟨sub', hsub', hab', by rw [hch]; exact hcap, ?_⟩
  rw [hch]
  exact hcount

theorem Filling.modify (h : Filling before buffered capacity i c) (j : Nat)
    {f : RoundSubscription → RoundSubscription}
    (hf : ∀ sub, Abandoned sub → Abandoned (f sub) ∧ (f sub).ch = sub.ch) :
    Filling before buffered capacity i { c with subs := c.subs.modify j f } := by
  refine h.of_subs fun sub hsub hab => ?_
  by_cases hj : j = i
  · exact ⟨f sub, by simp [hj, hsub], hf sub hab⟩
  · exact ⟨sub, by simp [hj, hsub], hab, rfl⟩

theorem Filling.set (h : Filling before buffered capacity i c) {j : Nat} (hj : j ≠ i)
    (sub : RoundSubscription) :
    Filling before buffered capacity i { c with subs := c.subs.set j sub } := by
  refine h.of_subs fun sub' hsub' hab => ⟨sub', ?_, hab, rfl⟩
  rw [List.getElem?_set_ne hj]
  exact hsub'

theorem Filling.append (h : Filling before buffered capacity i c) (sub : RoundSubscription) :
    Filling before buffered capacity i { c with subs := c.subs ++ [sub] } := by
  refine h.of_subs fun sub' hsub' hab => ⟨sub', ?_, hab, rfl⟩
  rw [List.getElem?_append_left (List.getElem?_eq_some_iff.mp hsub').1]
  exact hsub'

/-- A message is published to the subscription. -/
theorem Filling.message (h : Filling before buffered capacity i c) {d : Delivery}
    (hact : c.act L (.message d) = some c') : Filling before buffered capacity i c' := by
  obtain ⟨sub, hsub, hab, hcap, hcount⟩ := h
  simp only [act] at hact
  split at hact
  · next hloop =>
    rw [hloop] at hcount
    have hnext : sub.ch.buffer.length + before = buffered + c.rounds.stream.length := hcount
    rcases handleMessage_publishes L c.rounds d with hnone | ⟨noti, hone⟩
    · simp only [hnone, List.drop_length] at hact
      obtain rfl := Option.some.inj hact
      refine ⟨sub, hsub, hab, hcap, ?_⟩
      simp only [hloop, hnone]
      exact hnext
    · simp only [hone, List.drop_left] at hact
      obtain rfl := Option.some.inj hact
      refine ⟨sub, hsub, hab, hcap, nodup_handlers _, fun _ => ?_, fun hnot => ?_⟩
      · simp only [hone, List.length_append, List.length_singleton]
        omega
      · exact absurd (mem_handlers hsub hab.subscribed) hnot
  · cases hact

/-- The handler of an abandoned subscription has only these two ways. -/
theorem handle_abandoned {sub : RoundSubscription} (hab : Abandoned sub)
    (conf : RoundConfirmation) (pick : Bool) :
    handle sub conf false pick = none ∨
      (handle sub conf false pick = some { sub with ch := sub.ch.send conf } ∧
        sub.ch.hasRoom = true) := by
  unfold handle
  rw [hab.ctxDone]
  cases hroom : sub.ch.hasRoom with
  | false => exact Or.inl rfl
  | true =>
    cases pick with
    | false => exact Or.inl rfl
    | true => exact Or.inr ⟨rfl, rfl⟩

/-- The handler fills the channel of the subscription, or waits for the lock. -/
theorem Filling.handler (h : Filling before buffered capacity i c) { receiver pick : Bool}
    (hact : c.act L (.handler receiver pick) = some c') :
    Filling before buffered capacity i c' := by
  have hkeep := h
  obtain ⟨sub, hsub, hab, hcap, hcount⟩ := h
  simp only [act] at hact
  split at hact
  · next conf hloop =>
    -- the last handler has been called
    rw [hloop] at hcount
    obtain rfl := Option.some.inj hact
    exact ⟨sub, hsub, hab, hcap, hcount.2.2 List.not_mem_nil⟩
  · next conf j todo hloop =>
    rw [hloop] at hcount
    obtain ⟨hnodup, hin, hout⟩ := hcount
    obtain ⟨hj, hnodup'⟩ := List.nodup_cons.mp hnodup
    split at hact
    · cases hact
    · next sub' hsub' =>
      split at hact
      · cases hact
      · next hreceiver =>
        by_cases hji : j = i
        · -- this subscription: no one receives, so only its buffer can take the round
          subst hji
          obtain rfl := Option.some.inj (hsub.symm.trans hsub')
          have hnone : receiver = false := by
            simpa [hab.consumed] using hreceiver
          have hcount := hin List.mem_cons_self
          rw [hnone] at hact
          rcases handle_abandoned hab conf pick with hblock | ⟨hsend, hroom⟩
          · rw [hblock] at hact
            obtain rfl := Option.some.inj hact
            exact ⟨sub, hsub, hab, hcap, Nat.le_of_eq hcount.symm⟩
          · rw [hsend] at hact
            obtain rfl := Option.some.inj hact
            have hi := (List.getElem?_eq_some_iff.mp hsub).1
            refine ⟨{ sub with ch := sub.ch.send conf }, by simp [hi],
              ⟨hab.subscribed, hab.ctxDone, hab.held, hab.consumed⟩,
              (Chan.capacity_send _ _).trans hcap, hnodup', fun hin' => absurd hin' hj, fun _ => ?_⟩
            simp only [Chan.buffer_send hroom, List.length_append, List.length_singleton]
            omega
        · split at hact
          · obtain rfl := Option.some.inj hact
            refine ⟨sub, hsub, hab, hcap, ?_⟩
            show buffered + c.rounds.stream.length ≤ sub.ch.buffer.length + before + 1
            by_cases hi : i ∈ j :: todo
            · have := hin hi
              omega
            · have := hout hi
              omega
          · next sub'' _ =>
            obtain rfl := Option.some.inj hact
            refine ⟨sub, by rw [List.getElem?_set_ne hji]; exact hsub, hab, hcap, hnodup', ?_, ?_⟩
            · exact fun hi => hin (List.mem_cons_of_mem _ hi)
            · refine fun hi => hout fun hmem => ?_
              rcases List.mem_cons.mp hmem with rfl | hmem
              · exact hji rfl
              · exact hi hmem
  · cases hact

/-- **Every step of the client** leaves the subscription abandoned, and counts. -/
theorem Filling.step (h : Filling before buffered capacity i c) {a : Action}
    (hact : c.act L a = some c') : Filling before buffered capacity i c' := by
  cases a with
  | message d => exact h.message hact
  | handler receiver pick => exact h.handler hact
  | subscribeToRounds n | subscribeToDid =>
    obtain rfl := Option.some.inj hact
    exact h.append _
  | cancel j =>
    obtain rfl := Option.some.inj hact
    exact h.modify j fun sub hab => ⟨⟨hab.subscribed, rfl, hab.held, hab.consumed⟩, rfl⟩
  | leave j =>
    obtain rfl := Option.some.inj hact
    exact h.modify j fun sub hab => ⟨⟨hab.subscribed, hab.ctxDone, hab.held, rfl⟩, rfl⟩
  | receive j =>
    simp only [act] at hact
    split at hact
    · cases hact
    · next sub' hsub' =>
      split at hact
      · next hconsumed =>
        obtain ⟨⟨conf, ch⟩, -, rfl⟩ := Option.map_eq_some_iff.mp hact
        refine h.set ?_ _
        rintro rfl
        obtain ⟨sub, hsub, hab, -⟩ := h
        obtain rfl := Option.some.inj (hsub.symm.trans hsub')
        cases hab.consumed.symm.trans hconsumed
      · cases hact
  | unsubscribe j =>
    simp only [act] at hact
    split at hact
    · next sub' hloop hsub' =>
      split at hact
      · next hheld =>
        obtain rfl := Option.some.inj hact
        refine h.set ?_ _
        rintro rfl
        obtain ⟨sub, hsub, hab, -⟩ := h
        obtain rfl := Option.some.inj (hsub.symm.trans hsub')
        cases hab.held.symm.trans hheld
      · cases hact
    · cases hact
  | current =>
    simp only [act] at hact
    split at hact
    · obtain rfl := Option.some.inj hact
      exact h
    · cases hact

/-! ## The goroutine that waits for itself -/

/-- The action needs the lock, or the goroutine of the round subscriber. -/
def Action.needsLock : Action → Bool
  | .message _ | .handler _ _ | .unsubscribe _ | .current => true
  | _ => false

/-- A handler that waits for the lock waits on, and nothing that needs the lock is possible. -/
theorem unsubscribing_step {a : Action} {j : Nat} (hloop : c.loop = .unsubscribing j)
    (hact : c.act L a = some c') :
    a.needsLock = false ∧ c'.loop = .unsubscribing j ∧ c'.rounds = c.rounds := by
  cases a with
  | message d | handler receiver pick | unsubscribe k | current =>
    simp only [act, hloop] at hact
    cases hact
  | subscribeToRounds n | subscribeToDid | cancel k | leave k =>
    obtain rfl := Option.some.inj hact
    exact ⟨rfl, hloop, rfl⟩
  | receive k =>
    simp only [act] at hact
    split at hact
    · cases hact
    · split at hact
      · obtain ⟨_, -, rfl⟩ := Option.map_eq_some_iff.mp hact
        exact ⟨rfl, hloop, rfl⟩
      · cases hact

/-- **It waits forever.** -/
theorem unsubscribing_forever {ok : RoundClient C → Action → Bool} {group : NotaryGroup C}
    {j : Nat} : ∀ {actions : List Action} {c c' : RoundClient C}, c.loop = .unsubscribing j →
      (system L group).runFrom ok c actions = some c' →
      (∀ a ∈ actions, a.needsLock = false) ∧ c'.loop = .unsubscribing j ∧ c'.rounds = c.rounds
  | [], c, c', hloop, hrun => by
    obtain rfl := Option.some.inj hrun
    exact ⟨fun a ha => (by cases ha), hloop, rfl⟩
  | a :: actions, c, c', hloop, hrun => by
    rw [System.runFrom] at hrun
    split at hrun
    · obtain ⟨t, ht, hrun⟩ := Option.bind_eq_some_iff.mp hrun
      obtain ⟨ha, htloop, hrounds⟩ := unsubscribing_step (L := L) hloop ht
      obtain ⟨hall, hloop', hrounds'⟩ := unsubscribing_forever htloop hrun
      exact ⟨List.forall_mem_cons.mpr ⟨ha, hall⟩, hloop', hrounds'.trans hrounds⟩
    · cases hrun

/--
**A client does not survive a subscription that is abandoned.**

The context of a subscription to rounds is done, no one receives from its channel, and no one can
unsubscribe it: a subscription of `SubscribeToDid` whose goroutine has ended. Whatever happens
then, the client publishes at most as many more rounds as the channel has room for, and one more.
While it publishes that one, its goroutine comes to wait for a lock that it holds itself, and from
then on nothing that needs the lock is possible.
-/
theorem abandoned_blocks {group : NotaryGroup C} {ok : RoundClient C → Action → Bool}
    {actions : List Action} {sub : RoundSubscription} (hloop : c.loop = .next)
    (hsub : c.subs[i]? = some sub) (hab : Abandoned sub)
    (hrun : (system L group).runFrom ok c actions = some c') :
    let last := c.rounds.stream.length + (sub.ch.capacity - sub.ch.buffer.length) + 1
    c'.rounds.stream.length ≤ last ∧
    (c'.rounds.stream.length = last →
      (∃ conf todo, c'.loop = .publishing conf todo ∧ i ∈ todo) ∨
      ∃ j, c'.loop = .unsubscribing j ∧
        ∀ later c'', (system L group).runFrom ok c' later = some c'' →
          (∀ a ∈ later, a.needsLock = false) ∧ c''.loop = .unsubscribing j) := by
  intro last
  have hstart : Filling c.rounds.stream.length sub.ch.buffer.length sub.ch.capacity i c := by
    refine ⟨sub, hsub, hab, rfl, ?_⟩
    rw [hloop]
    rfl
  obtain ⟨sub', -, -, hcap, hcount⟩ := System.runFrom_invariant
    (P := fun c : RoundClient C => Filling _ _ _ i c)
    (fun c a c' hc _ hact => Filling.step (L := L) hc hact) hstart hrun
  have hbound := sub'.ch.bounded
  have hbefore := sub.ch.bounded
  rw [hcap] at hbound
  cases hc : c'.loop with
  | next =>
    rw [hc] at hcount
    have : sub'.ch.buffer.length + c.rounds.stream.length =
      sub.ch.buffer.length + c'.rounds.stream.length := hcount
    exact ⟨by omega, fun hlast => by omega⟩
  | publishing conf todo =>
    rw [hc] at hcount
    obtain ⟨-, hin, hout⟩ := hcount
    by_cases hi : i ∈ todo
    · have := hin hi
      exact ⟨by omega, fun _ => Or.inl ⟨conf, todo, rfl, hi⟩⟩
    · have := hout hi
      exact ⟨by omega, fun hlast => by omega⟩
  | unsubscribing j =>
    rw [hc] at hcount
    have : sub.ch.buffer.length + c'.rounds.stream.length ≤
      sub'.ch.buffer.length + c.rounds.stream.length + 1 := hcount
    refine ⟨by omega, fun _ => Or.inr ⟨j, rfl, fun later c'' hlater => ?_⟩⟩
    obtain ⟨hall, hforever, -⟩ := unsubscribing_forever hc hlater
    exact ⟨hall, hforever⟩

end RoundClient

/-! ## Eleven rounds after a subscription has ended -/

namespace AbandonedExample

def checkpoint : Checkpoint := { height := 0, addBlockRequests := [] }

def round (height : Nat) : Round where
  height := height
  stateCid := []
  checkpointCid := (Ipld.sorted.cidOf (.checkpoint checkpoint)).bytes

def roundCid (height : Nat) : Bytes := (Ipld.sorted.cidOf (.round (round height))).bytes

abbrev crypto : Crypto := Crypto.signing ((List.range 11).map roundCid)

def group : NotaryGroup crypto where
  id := "group"
  signers := (AList.singleton "a" ⟨"a", ⟨[1], ()⟩⟩).insert "b" ⟨"b", ⟨[2], ()⟩⟩
  sortedIds := ["a", "b"]

/-- A quorum for the round of a height. -/
def delivery (height : Nat) : Delivery where
  msg := .ok
    { roundCid := roundCid height, height
      signature := some { ownership := some { publicKey := none, conditions := "" }
                          signers := [1, 1], signature := [1], preImage := "" } }
  run := fun _ _ => .ok true
  store := [.checkpoint checkpoint, .round (round height)].foldl (DagStore.add Ipld.sorted)
    fun _ => none

/-- A caller subscribes to an object and cancels its context. -/
def ended : List RoundClient.Action := [.subscribeToDid, .cancel 0, .leave 0]

/-- Ten rounds go to the channel, the last one does not. -/
def rounds : List RoundClient.Action :=
  (List.range 10).flatMap (fun h => [.message (delivery h), .handler false true,
    .handler false true]) ++ [.message (delivery 10), .handler false true]

theorem abandoned_blocks_example : ∃ c c' j,
    (RoundClient.system Ipld.sorted group).run (fun _ _ => true) ended = some c ∧
    (RoundClient.system Ipld.sorted group).runFrom (fun _ _ => true) c rounds = some c' ∧
    c'.rounds.stream.length = 11 ∧ c'.loop = .unsubscribing j ∧
    ∀ later c'', (RoundClient.system Ipld.sorted group).runFrom (fun _ _ => true) c' later =
      some c'' → (∀ a ∈ later, a.needsLock = false) ∧ c''.loop = .unsubscribing j := by
  have hrun : ((RoundClient.system Ipld.sorted group).run (fun _ _ => true) ended).bind (fun c =>
      ((RoundClient.system Ipld.sorted group).runFrom (fun _ _ => true) c rounds).map fun c' =>
        decide (c.loop = .next ∧ c.rounds.stream.length = 0 ∧
          c'.rounds.stream.length = 11 ∧ c'.loop = .unsubscribing 0 ∧
          (c.subs[0]?).map (fun sub => (sub.subscribed, sub.ctxDone, sub.held, sub.consumed,
            sub.ch.capacity - sub.ch.buffer.length)) = some (true, true, false, false, 10))) =
      some true := by
    decide +kernel
  obtain ⟨c, hc, hnext⟩ := Option.bind_eq_some_iff.mp hrun
  obtain ⟨c', hc', hv⟩ := Option.map_eq_some_iff.mp hnext
  obtain ⟨hloop, hbefore, hafter, hloop', hsubs⟩ := of_decide_eq_true hv
  obtain ⟨sub, hsub, hfields⟩ := Option.map_eq_some_iff.mp hsubs
  simp only [Prod.mk.injEq] at hfields
  obtain ⟨hsubscribed, hdone, hheld, hconsumed, hroom⟩ := hfields
  have hlast := (RoundClient.abandoned_blocks hloop hsub
    ⟨hsubscribed, hdone, hheld, hconsumed⟩ hc').2 (by rw [hafter, hbefore, hroom])
  rcases hlast with ⟨conf, todo, hpub, -⟩ | ⟨j, hj, hforever⟩
  · cases hloop'.symm.trans hpub
  · exact ⟨c, c', j, hc, hc', hafter, hj, hforever⟩

end AbandonedExample

end Tupelo

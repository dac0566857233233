import Tupelo.Signer.Snowballer

/-!
# The loop of a snowballer and its context

`run` (`signer/gossip/snowballnetwork.go`) ticks until the snowball has decided. Before each tick
it looks at its context in a `select`; the `break` in that `select` leaves the `select` and not
the loop. So a tick begins whatever has been found there, and the loop ends with a decision or not
at all: `stops_iff_unobserved`.

The context may become done at any time. The loop takes one step for each of its statements, and
the state keeps what it has observed and which ticks it has begun.
-/

namespace Tupelo

open Infra

/-- Where `run` stands. -/
inductive RunPhase where
  /-- At the condition of the loop, -/
  | condition
  /-- at the `select`, -/
  | select
  /-- behind it, -/
  | selected
  /-- in `doTick`, -/
  | ticking
  /-- or behind the loop. -/
  | returned
  deriving DecidableEq

inductive RunEvent where
  /-- The `select` has found the context done. -/
  | observed
  /-- `doTick` has been called. -/
  | began
  deriving DecidableEq

/-- `run`, with its snowballer and its context. -/
structure SnowballerLoop (A : FloatArith) where
  snb : Snowballer A
  ctxDone : Bool
  phase : RunPhase
  events : List RunEvent

namespace SnowballerLoop

variable {A : FloatArith} (L : Ipld)
variable {ok : SnowballerLoop A → Action → Bool} {a : Action}

/-- What can happen next. -/
inductive Action where
  /-- The context becomes done. -/
  | cancel
  /-- The node stores a request. -/
  | storeAbr (abr : AddBlockRequest)
  /-- `for !snb.snowball.Decided()`. -/
  | evaluate
  /-- `select`. -/
  | poll
  | callTick
  /-- In a tick: a peer has answered, -/
  | respond (cp : Checkpoint)
  /-- the next CID of the response is looked up, -/
  | look
  /-- and no more responses come. -/
  | endTick (orders : TallyOrders)

/-- A step of the tick that is going on. -/
def inTick (r : SnowballerLoop A) (a : Snowballer.Action) (next : RunPhase) :
    Option (SnowballerLoop A) :=
  if r.phase = .ticking then
    (r.snb.act L a).map fun snb => { r with snb, phase := next }
  else none

def act (r : SnowballerLoop A) : Action → Option (SnowballerLoop A)
  | .cancel => some { r with ctxDone := true }
  | .storeAbr abr => (r.snb.act L (.storeAbr abr)).map fun snb => { r with snb }
  | .evaluate =>
    if r.phase = .condition then
      some { r with phase := if r.snb.snowball.decided then .returned else .select }
    else none
  | .poll =>
    if r.phase = .select then
      -- `case <-ctxDone: break` and `default:` go on at the same place
      some { r with
        phase := .selected
        events := if r.ctxDone then r.events ++ [.observed] else r.events }
    else none
  | .callTick =>
    if r.phase = .selected then
      some { r with phase := .ticking, events := r.events ++ [.began] }
    else none
  | .respond cp => r.inTick L (.respond cp) .ticking
  | .look => r.inTick L .look .ticking
  | .endTick orders => r.inTick L (.tick orders) .condition

/-- `run` of a snowballer that has been started. -/
def system (height : Nat) (alpha : A.F) (beta : Int) (k : Nat) (mempool : Mempool)
    (order : MapOrder) : System (SnowballerLoop A) Action where
  start :=
    { snb := (Snowballer.new height (Snowball.new alpha beta k) mempool).start L order
      ctxDone := false
      phase := .condition
      events := [] }
  act r a := r.act L a

/-- No tick begins once the context has been observed to be done. -/
def StopsWhenCancelled (events : List RunEvent) : Prop :=
  ∀ before after, events = before ++ .observed :: after → .began ∉ after

/-- After the context has been observed to be done, no peer answers. -/
def silent (r : SnowballerLoop A) : Action → Bool
  | .respond _ => decide (.observed ∉ r.events)
  | _ => true

variable {L} {r r' : SnowballerLoop A} {height : Nat} {alpha : A.F} {beta : Int} {k : Nat}
  {m : Mempool} {order : MapOrder}

/-! ## What a step does -/

/-- The steps of the loop, with one constructor for each way. -/
inductive Step (L : Ipld) (r : SnowballerLoop A) : Action → SnowballerLoop A → Prop where
  | cancelled : Step L r .cancel { r with ctxDone := true }
  | stored (abr : AddBlockRequest) : Step L r (.storeAbr abr)
      { r with snb := { r.snb with mempool := Snowballer.stored L r.snb.mempool abr } }
  | returned (hphase : r.phase = .condition) (hdecided : r.snb.snowball.decided = true) :
      Step L r .evaluate { r with phase := .returned }
  | entered (hphase : r.phase = .condition) (hdecided : r.snb.snowball.decided = false) :
      Step L r .evaluate { r with phase := .select }
  | observed (hphase : r.phase = .select) :
      Step L r .poll { r with phase := .selected, events := r.events ++ [.observed] }
  | passed (hphase : r.phase = .select) : Step L r .poll { r with phase := .selected }
  | began (hphase : r.phase = .selected) :
      Step L r .callTick { r with phase := .ticking, events := r.events ++ [.began] }
  | responded {cp : Checkpoint} {snb : Snowballer A} (hphase : r.phase = .ticking)
      (hact : r.snb.act L (.respond cp) = some snb) : Step L r (.respond cp) { r with snb }
  | looked {snb : Snowballer A} (hphase : r.phase = .ticking)
      (hact : r.snb.act L .look = some snb) : Step L r .look { r with snb }
  | ended {orders : TallyOrders} {snb : Snowballer A} (hphase : r.phase = .ticking)
      (hact : r.snb.act L (.tick orders) = some snb) :
      Step L r (.endTick orders) { r with snb, phase := .condition }

theorem inTick_eq_some {a : Snowballer.Action} {next : RunPhase}
    (h : r.inTick L a next = some r') : r.phase = .ticking ∧
      ∃ snb, r.snb.act L a = some snb ∧ r' = { r with snb, phase := next } := by
  unfold inTick at h
  split at h
  · next hphase =>
    obtain ⟨snb, hsnb, rfl⟩ := Option.map_eq_some_iff.mp h
    exact ⟨hphase, snb, hsnb, rfl⟩
  · cases h

/-- **Every step is one of these.** -/
theorem step_of_act (h : r.act L a = some r') : Step L r a r' := by
  cases a with
  | cancel =>
    obtain rfl := Option.some.inj h
    exact .cancelled
  | storeAbr abr =>
    obtain rfl := Option.some.inj h
    exact .stored abr
  | evaluate =>
    rw [act] at h
    split at h
    · next hphase =>
      obtain rfl := Option.some.inj h
      cases hd : r.snb.snowball.decided with
      | true => exact .returned hphase hd
      | false => exact .entered hphase hd
    · cases h
  | poll =>
    rw [act] at h
    split at h
    · next hphase =>
      obtain rfl := Option.some.inj h
      by_cases hdone : r.ctxDone = true
      · rw [if_pos hdone]
        exact .observed hphase
      · rw [if_neg hdone]
        exact .passed hphase
    · cases h
  | callTick =>
    rw [act] at h
    split at h
    · next hphase =>
      obtain rfl := Option.some.inj h
      exact .began hphase
    · cases h
  | respond cp =>
    obtain ⟨hphase, snb, hsnb, rfl⟩ := inTick_eq_some h
    rw [← hphase]
    exact .responded hphase hsnb
  | look =>
    obtain ⟨hphase, snb, hsnb, rfl⟩ := inTick_eq_some h
    rw [← hphase]
    exact .looked hphase hsnb
  | endTick orders =>
    obtain ⟨hphase, snb, hsnb, rfl⟩ := inTick_eq_some h
    exact .ended hphase hsnb

/-- **The loop refines the snowballer**: what holds of its runs holds here. -/
theorem reach_snb (h : (system L height alpha beta k m order).Reach ok r) :
    (Snowballer.system L height alpha beta k m).Reach (fun _ _ => true) r.snb := by
  refine h.invariant (P := fun r =>
    (Snowballer.system L height alpha beta k m).Reach (fun _ _ => true) r.snb) ?_ ?_
  · exact System.Reach.start.step (.start order) rfl rfl
  · intro r a r' hr _ hact
    cases step_of_act hact with
    | stored abr => exact hr.step (.storeAbr abr) rfl rfl
    | @responded cp _ _ hsnb => exact hr.step (.respond cp) rfl hsnb
    | looked _ hsnb => exact hr.step .look rfl hsnb
    | @ended orders _ _ hsnb => exact hr.step (.tick orders) rfl hsnb
    | _ => exact hr

/-! ## What a tick leaves -/

section Tick

variable {s s' : Snowballer A}

/-- Only the end of a tick changes the snowball. -/
theorem snowball_respond {cp : Checkpoint} (h : s.act L (.respond cp) = some s') :
    s'.snowball = s.snowball := by
  rw [Snowballer.act] at h
  split at h
  · obtain rfl := Option.some.inj h
    unfold Snowballer.respond
    split <;> rfl
  · cases h

theorem snowball_look (h : s.act L .look = some s') : s'.snowball = s.snowball := by
  obtain ⟨c, -, hlook⟩ := Option.bind_eq_some_iff.mp h
  rcases Snowballer.look_cases (toOption_eq_some.mp hlook) with rfl | ⟨c', -, rfl⟩ | ⟨cp, _, -, rfl⟩
  · rfl
  · rfl
  · rfl

theorem tick_eq_some {orders : TallyOrders} (h : s.act L (.tick orders) = some s') :
    s.checking = none ∧ s' = s.doTick L orders := by
  rw [Snowballer.act] at h
  split at h
  · next hidle => exact ⟨(Snowballer.idle_iff.mp hidle).2.2, (Option.some.inj h).symm⟩
  · cases h

/-- A tick without responses decides nothing. -/
theorem undecided_doTick (hvotes : s.votes = []) (hd : s.snowball.decided = false)
    (orders : TallyOrders) : (s.doTick L orders).snowball.decided = false := by
  have hnil : ∀ v ∈ calculateTallies L orders (List.replicate s.snowball.k (Vote.nil A)),
      v.For fun _ => False := by
    refine forall_calculateTallies fun v hv => ?_
    rw [(List.mem_replicate.mp hv).2]
    exact Vote.for_nil _
  have hnone : Snowball.majority L
      (calculateTallies L orders (List.replicate s.snowball.k (Vote.nil A))) = none := by
    rw [Option.eq_none_iff_forall_ne_some]
    intro v hv
    obtain ⟨hmem, hid⟩ := Snowball.majority_spec hv
    obtain ⟨cp, hcp⟩ := Vote.exists_checkpoint hid
    exact hnil v hmem cp hcp
  unfold Snowballer.doTick Snowball.tick
  simp [hvotes, hd, hnone]

end Tick

/-! ## Runs -/

/-- What the phases say of the snowballer. -/
structure Inv (r : SnowballerLoop A) : Prop where
  decided : r.phase ≠ .condition → r.snb.snowball.decided = decide (r.phase = .returned)
  fresh : r.phase ≠ .ticking → r.snb.votes = [] ∧ r.snb.checking = none
  /-- A tick follows every observation, unless it is just about to begin. -/
  ticksOn : r.phase ≠ .selected → ∀ before after,
    r.events = before ++ .observed :: after → .began ∈ after

theorem inv_start : (system L height alpha beta k m order).start.Inv where
  decided := fun h => absurd rfl h
  fresh := by
    intro _
    show (Snowballer.start L _ order).votes = [] ∧ (Snowballer.start L _ order).checking = none
    rcases Snowballer.start_cases L
      (Snowballer.new height (Snowball.new alpha beta k) m) order with h | ⟨-, snowball, h, -⟩
    · rw [h]
      exact ⟨rfl, rfl⟩
    · rw [h]
      exact ⟨rfl, rfl⟩
  ticksOn := by
    intro _ before after h
    simp [system] at h

/-- The last event is a tick that begins, so it comes after every other. -/
theorem began_mem_of_concat {events before after : List RunEvent}
    (h : events ++ [.began] = before ++ .observed :: after) : .began ∈ after := by
  have hlast := congrArg List.getLast? h
  rw [List.getLast?_concat, List.getLast?_append_of_ne_nil _ (List.cons_ne_nil _ _)] at hlast
  cases after with
  | nil => cases hlast
  | cons e rest =>
    rw [List.getLast?_cons_cons] at hlast
    exact List.mem_of_getLast? hlast.symm

/-- **Every step keeps what the phases say.** -/
theorem Inv.step (h : r.Inv) (hstep : Step L r a r') : r'.Inv := by
  cases hstep with
  | cancelled => exact ⟨h.decided, h.fresh, h.ticksOn⟩
  | stored abr => exact ⟨h.decided, h.fresh, h.ticksOn⟩
  | returned hphase hdecided =>
    have hne : r.phase ≠ .ticking ∧ r.phase ≠ .selected := by rw [hphase]; decide
    exact ⟨fun _ => hdecided, fun _ => h.fresh hne.1, fun _ => h.ticksOn hne.2⟩
  | entered hphase hdecided =>
    have hne : r.phase ≠ .ticking ∧ r.phase ≠ .selected := by rw [hphase]; decide
    exact ⟨fun _ => hdecided, fun _ => h.fresh hne.1, fun _ => h.ticksOn hne.2⟩
  | observed hphase =>
    have hdecided := h.decided (by rw [hphase]; decide)
    rw [hphase] at hdecided
    exact ⟨fun _ => hdecided, fun _ => h.fresh (by rw [hphase]; decide), fun hne => absurd rfl hne⟩
  | passed hphase =>
    have hdecided := h.decided (by rw [hphase]; decide)
    rw [hphase] at hdecided
    exact ⟨fun _ => hdecided, fun _ => h.fresh (by rw [hphase]; decide), fun hne => absurd rfl hne⟩
  | began hphase =>
    have hdecided := h.decided (by rw [hphase]; decide)
    rw [hphase] at hdecided
    exact ⟨fun _ => hdecided, fun hne => absurd rfl hne,
      fun _ _ _ hevents => began_mem_of_concat hevents⟩
  | responded hphase hact =>
    refine ⟨fun hne => ?_, fun hne => absurd hphase hne, h.ticksOn⟩
    rw [← h.decided hne, snowball_respond hact]
  | looked hphase hact =>
    refine ⟨fun hne => ?_, fun hne => absurd hphase hne, h.ticksOn⟩
    rw [← h.decided hne, snowball_look hact]
  | ended hphase hact =>
    obtain ⟨hchecking, rfl⟩ := tick_eq_some hact
    exact ⟨fun hne => absurd rfl hne, fun _ => ⟨rfl, hchecking⟩,
      fun _ => h.ticksOn (by rw [hphase]; decide)⟩

theorem inv_of_reach (h : (system L height alpha beta k m order).Reach ok r) : r.Inv := by
  refine h.invariant (P := Inv) inv_start ?_
  intro r a r' hr _ hact
  exact hr.step (step_of_act hact)

/-! ## Runs in which nobody answers any more -/

/-- The context has been observed to be done, and no vote is there to decide on. -/
def Idles (r : SnowballerLoop A) : Prop :=
  .observed ∈ r.events → r.snb.snowball.decided = false ∧ r.snb.votes = [] ∧
    r.snb.checking = none ∧ r.phase ≠ .returned

theorem Idles.step (h : r.Idles) (hinv : r.Inv) (hsilent : r.silent a = true)
    (hstep : Step L r a r') : r'.Idles := by
  intro hobserved
  cases hstep with
  | cancelled => exact h hobserved
  | stored abr => exact h hobserved
  | returned hphase hdecided =>
    rw [(h hobserved).1] at hdecided
    cases hdecided
  | entered hphase hdecided =>
    obtain ⟨-, hvotes, hchecking, -⟩ := h hobserved
    exact ⟨hdecided, hvotes, hchecking, fun hphase => by cases hphase⟩
  | observed hphase =>
    -- the loop has not decided, and no tick is going on
    have hdecided := hinv.decided (by rw [hphase]; decide)
    rw [hphase] at hdecided
    obtain ⟨hvotes, hchecking⟩ := hinv.fresh (by rw [hphase]; decide)
    exact ⟨hdecided, hvotes, hchecking, fun hphase => by cases hphase⟩
  | passed hphase =>
    obtain ⟨hdecided, hvotes, hchecking, -⟩ := h hobserved
    exact ⟨hdecided, hvotes, hchecking, fun hphase => by cases hphase⟩
  | began hphase =>
    have hbefore : .observed ∈ r.events := by simpa using hobserved
    obtain ⟨hdecided, hvotes, hchecking, -⟩ := h hbefore
    exact ⟨hdecided, hvotes, hchecking, fun hphase => by cases hphase⟩
  | responded hphase hact => exact absurd hobserved (of_decide_eq_true hsilent)
  | looked hphase hact =>
    obtain ⟨-, -, hchecking, -⟩ := h hobserved
    rw [Snowballer.act, hchecking] at hact
    cases hact
  | ended hphase hact =>
    obtain ⟨hdecided, hvotes, hchecking, -⟩ := h hobserved
    obtain ⟨-, rfl⟩ := tick_eq_some hact
    exact ⟨undecided_doTick hvotes hdecided _, rfl, hchecking, fun hphase => by cases hphase⟩

theorem idles_of_reach (h : (system L height alpha beta k m order).Reach silent r) :
    r.Inv ∧ r.Idles := by
  refine h.invariant (P := fun r => r.Inv ∧ r.Idles) ⟨inv_start, ?_⟩ ?_
  · intro hobserved
    cases hobserved
  · rintro r a r' ⟨hinv, hidles⟩ hok hact
    exact ⟨hinv.step (step_of_act hact), hidles.step hinv hok (step_of_act hact)⟩

/--
**The loop stops with a decision only.**

In every run, whenever the context becomes done: no tick begins after the loop has observed it
exactly if the loop has never observed it, except that a tick may be just about to begin. Once the
loop is behind its end the snowball has decided; so a loop that has observed the context, and gets
no more answers, never returns.
-/
theorem stops_iff_unobserved {ok : SnowballerLoop A → Action → Bool}
    (h : (system L height alpha beta k m order).Reach ok r) :
    (r.phase ≠ .selected → (StopsWhenCancelled r.events ↔ .observed ∉ r.events)) ∧
    (r.phase = .returned → r.snb.snowball.decided = true) ∧
    ((system L height alpha beta k m order).Reach silent r → .observed ∈ r.events →
      r.phase ≠ .returned) := by
  have hinv := inv_of_reach h
  refine ⟨fun hphase => ⟨fun hstops hmem => ?_, fun hnot before after hevents => ?_⟩,
    fun hphase => ?_, fun hsilent hmem => ((idles_of_reach hsilent).2 hmem).2.2.2⟩
  · obtain ⟨before, after, hevents⟩ := List.append_of_mem hmem
    exact hstops before after hevents (hinv.ticksOn hphase before after hevents)
  · exact absurd (by rw [hevents]; simp) hnot
  · rw [hinv.decided (by rw [hphase]; decide), hphase]
    rfl

namespace Example

/-- The loop of the round of the height 5, started with an empty mempool. -/
noncomputable def fifth : System (SnowballerLoop exactArith) Action :=
  system Ipld.inFull 5 (333 / 500 : ℚ) 10 2 Mempool.new MapOrder.plain

/-- Once around the loop, without an answer. -/
def round : List Action := [.evaluate, .poll, .callTick, .endTick TallyOrders.plain]

/-- Cancelled before its second tick, the loop goes on with it, and with the next. -/
theorem ticks_when_cancelled : ∃ r, fifth.Reach silent r ∧
    r.events = [.began, .observed, .began, .observed, .began] ∧
    ¬ StopsWhenCancelled r.events := by
  have hrun : (fifth.run silent (round ++ [.cancel] ++ round ++ round)).map (·.events) =
      some [.began, .observed, .began, .observed, .began] := by decide +kernel
  obtain ⟨r, hr, hevents⟩ := Option.map_eq_some_iff.mp hrun
  refine ⟨r, System.reach_of_run hr, hevents, fun hstops => ?_⟩
  exact hstops [.began] [.began, .observed, .began] hevents (by decide)

/-- The same run, by the theorem: it has observed the context and does not return. -/
theorem stops_iff_unobserved_example : ∃ r, fifth.Reach silent r ∧ .observed ∈ r.events ∧
    (StopsWhenCancelled r.events ↔ .observed ∉ r.events) ∧ r.phase ≠ .returned := by
  have hrun : (fifth.run silent (round ++ [.cancel] ++ round)).map
      (fun r => (r.phase, r.events)) = some (.condition, [.began, .observed, .began]) := by
    decide +kernel
  obtain ⟨r, hr, hvalues⟩ := Option.map_eq_some_iff.mp hrun
  obtain ⟨hphase, hevents⟩ := Prod.mk.inj hvalues
  have hreach := System.reach_of_run hr
  have hmem : .observed ∈ r.events := by rw [hevents]; decide
  obtain ⟨hstops, -, hnever⟩ := stops_iff_unobserved hreach
  exact ⟨r, hreach, hmem, hstops (by rw [hphase]; decide), hnever hreach hmem⟩

end Example

end SnowballerLoop

end Tupelo

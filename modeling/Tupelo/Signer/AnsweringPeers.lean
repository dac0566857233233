import Tupelo.Signer.ChainContinuity
import Tupelo.Signer.Snowballer
import Tupelo.Signer.SnowballSupport

/-!
# Answering peers while rounds go on

`handleStream` runs in a goroutine of its own. It makes up to three calls, each under a lock:
`rounds.Get` for the round of the height, `Preferred` of the snowball of that round and, if
nothing is preferred, `rounds.Current`. Between any two of them the snowball of the current round
may start or tick, the round may be decided and the next one set, and goroutines may run.

A handler that got the current round keeps its pointer while the round becomes a past one. That
is what `RoundRef` follows: the reference is to the current round until a decision turns it into
one to the heap of past rounds.

Past rounds always have a preference, so a handler that gets one answers with it. What is decided
between the second and the third call is the one danger: nothing was preferred, the round is now
below the current one, and the handler goes on to read the checkpoint of a vote that is nil.
-/

namespace Tupelo

open Infra

/-! ## The handlers -/

/-- The round a handler has got: the one that is being decided, or a past one. -/
inductive RoundRef where
  | current
  | past (p : Nat)
  deriving DecidableEq

/-- The next call a handler makes, or how it ended. -/
inductive StreamPc where
  | get
  | preferred (r : RoundRef)
  /-- Nothing is preferred in the round. -/
  | current (r : RoundRef)
  | answered (cp : Checkpoint)
  | panicked
  deriving DecidableEq

/-- A goroutine that runs `handleStream`, for the height that was asked for. -/
structure Stream where
  height : Nat
  pc : StreamPc
  deriving DecidableEq

/-- The checkpoint that is answered if there is none to answer. -/
def noResponse (height : Nat) : Checkpoint := { height, addBlockRequests := [] }

/-- The round at the reference, once the current round has gone to the position `p`. -/
def RoundRef.demote (p : Nat) : RoundRef → RoundRef
  | .current => .past p
  | .past q => .past q

def Stream.demote (p : Nat) (st : Stream) : Stream :=
  match st.pc with
  | .preferred r => { st with pc := .preferred (r.demote p) }
  | .current r => { st with pc := .current (r.demote p) }
  | _ => st

/-- A signer with the snowball of its current round and the handlers that are running. -/
structure Answering (A : FloatArith) where
  traced : TracedNode
  snowball : Snowball A
  streams : List Stream

namespace Answering

variable {A : FloatArith}

def node (s : Answering A) : Node := s.traced.node

/-- `r.snowball.Preferred()`, by the checkpoint of the vote. -/
def preferredOf (s : Answering A) : RoundRef → Option (Option Checkpoint)
  | .current => s.snowball.preferred.map (·.checkpoint)
  | .past p => s.node.heap[p]?.map fun r => some r.preferred

/-- `r.height`. -/
def heightOf (s : Answering A) : RoundRef → Option Nat
  | .current => some s.node.current.height
  | .past p => s.node.heap[p]?.map (·.height)

/-- `rounds.Get`, and where the handler goes on. -/
def getRound (L : Ipld) (n : Node) (height : Nat) : StreamPc :=
  if height = n.current.height then .preferred .current
  else match (n.get L height).1 with
    | none => .answered (noResponse height)
    | some p => .preferred (.past p)

/-- One call of a handler. There is none once it has ended. -/
def nextPc (L : Ipld) (s : Answering A) (st : Stream) : Option StreamPc :=
  match st.pc with
  | .get => some (getRound L s.node st.height)
  | .preferred r =>
    match s.preferredOf r with
    | none => some (.current r)
    | some none => some .panicked
    | some (some cp) => some (.answered cp)
  | .current r =>
    if (s.heightOf r).any fun height => decide (s.node.current.height ≤ height) then
      some (.answered (noResponse st.height))
    -- `preferred.Checkpoint`, of a vote that is nil
    else some .panicked
  | _ => none

/-- What the call does to the signer: `rounds.Get` may restore the round. -/
def called (E : Env) (s : Answering A) (st : Stream) : Option TracedNode :=
  match st.pc with
  | .get => s.traced.act E (.event (.stream st.height))
  | _ => some s.traced

inductive Act (A : FloatArith) where
  /-- What neither the snowball nor a handler does. -/
  | event (e : Node.Event)
  | start
  | tick (votes : List (Vote A))
  | done
  /-- A peer asks for a height. -/
  | ask (height : Nat)
  /-- The handler at the index makes its next call. -/
  | stream (i : Nat)

/-- The events of the node that are not modelled more finely here. -/
def isOther : Node.Event → Bool
  | .startSnowball | .snowballerDone _ | .stream _ => false
  | _ => true

/-- `snowballer.Start`, for the snowball: it prefers what the node prefers. -/
def startedSnowball (L : Ipld) (s : Answering A) (preferred : Option Checkpoint) : Snowball A :=
  if s.node.started then s.snowball
  else match preferred with
    | some cp => s.snowball.preferInLock L { checkpoint := some cp, tallyCount := A.ofNat 0 }
    | none => s.snowball

variable (E : Env) (alpha : A.F) (beta : Int) (k : Nat)

def act (s : Answering A) : Act A → Option (Answering A)
  | .event e =>
    if isOther e then (s.traced.act E (.event e)).map fun traced => { s with traced } else none
  | .start => (s.traced.act E (.event .startSnowball)).map fun traced =>
      { s with traced, snowball := s.startedSnowball E.L traced.node.current.preferred }
  | .tick votes =>
    if s.node.started && !s.snowball.decided then
      some { s with snowball := s.snowball.tick E.L votes }
    else none
  | .done =>
    if s.snowball.decided then do
      let cp ← s.snowball.preferred.bind (·.checkpoint)
      let traced ← s.traced.act E (.event (.snowballerDone cp))
      pure { traced, snowball := Snowball.new alpha beta k
             streams := s.streams.map (·.demote (traced.node.heap.length - 1)) }
    else none
  | .ask height => some { s with streams := s.streams ++ [{ height, pc := .get }] }
  | .stream i => do
    let st ← s.streams[i]?
    let pc ← s.nextPc E.L st
    let traced ← s.called E st
    pure { s with traced, streams := s.streams.set i { st with pc } }

/-- A signer from its first start on, with handlers that run at any time. -/
def system : System (Answering A) (Act A) where
  start := { traced := (TracedNode.system E).start, snowball := Snowball.new alpha beta k
             streams := [] }
  act := act E alpha beta k

/-! ## What an action does -/

section Steps

variable {E alpha beta k} {s s' : Answering A}

/-- The signer takes an event that is not a decision, or none. -/
def Unaffected (E : Env) (s s' : Answering A) : Prop :=
  s'.traced = s.traced ∨ ∃ e, s.traced.act E (.event e) = some s'.traced ∧
    ∀ cp, e ≠ .snowballerDone cp

theorem act_event {e : Node.Event} (h : act E alpha beta k s (.event e) = some s') :
    Unaffected E s s' ∧ s'.snowball = s.snowball ∧ s'.streams = s.streams := by
  rw [act] at h
  split at h
  · next hother =>
    obtain ⟨traced, htraced, rfl⟩ := Option.map_eq_some_iff.mp h
    refine ⟨Or.inr ⟨e, htraced, ?_⟩, rfl, rfl⟩
    rintro cp rfl
    cases hother
  · cases h

theorem act_start (h : act E alpha beta k s .start = some s') :
    Unaffected E s s' ∧ s'.streams = s.streams ∧
      s'.snowball = s.startedSnowball E.L s'.node.current.preferred := by
  rw [act] at h
  obtain ⟨traced, htraced, rfl⟩ := Option.map_eq_some_iff.mp h
  exact ⟨Or.inr ⟨_, htraced, fun cp => by rintro ⟨⟩⟩, rfl, rfl⟩

theorem act_tick {votes : List (Vote A)} (h : act E alpha beta k s (.tick votes) = some s') :
    s' = { s with snowball := s.snowball.tick E.L votes } := by
  rw [act] at h
  split at h
  · exact (Option.some.inj h).symm
  · cases h

theorem act_done (h : act E alpha beta k s .done = some s') :
    ∃ cp, s.traced.act E (.event (.snowballerDone cp)) = some s'.traced ∧
      s'.snowball = Snowball.new alpha beta k ∧
      s'.streams = s.streams.map (·.demote (s'.node.heap.length - 1)) := by
  rw [act] at h
  split at h
  · obtain ⟨cp, -, h⟩ := Option.bind_eq_some_iff.mp h
    obtain ⟨traced, htraced, h⟩ := Option.bind_eq_some_iff.mp h
    rw [← Option.some.inj h]
    exact ⟨cp, htraced, rfl, rfl⟩
  · cases h

theorem act_stream {i : Nat} (h : act E alpha beta k s (.stream i) = some s') :
    ∃ st pc, s.streams[i]? = some st ∧ s.nextPc E.L st = some pc ∧
      s.called E st = some s'.traced ∧ s'.snowball = s.snowball ∧
      s'.streams = s.streams.set i { st with pc } := by
  obtain ⟨st, hst, h⟩ := Option.bind_eq_some_iff.mp h
  obtain ⟨pc, hpc, h⟩ := Option.bind_eq_some_iff.mp h
  obtain ⟨traced, htraced, h⟩ := Option.bind_eq_some_iff.mp h
  rw [← Option.some.inj h]
  exact ⟨st, pc, hst, hpc, htraced, rfl, rfl⟩

theorem unaffected_called {st : Stream} (h : s.called E st = some s'.traced) :
    Unaffected E s s' := by
  unfold called at h
  split at h
  · exact Or.inr ⟨_, h, fun cp => by rintro ⟨⟩⟩
  · exact Or.inl (Option.some.inj h).symm

end Steps

end Answering

/-! ## The snowball prefers votes that have a checkpoint -/

section Preferred

variable {A : FloatArith} {L : Ipld} {s : Snowball A} {votes : List (Vote A)}

namespace Snowball

theorem countMajority_preferred_or (L : Ipld) (s : Snowball A) (m : Vote A) :
    (s.countMajority L m).preferred = s.preferred ∨
      (s.countMajority L m).preferred = some m := by
  rcases s.countMajority_preferred L m with ⟨-, h⟩ | ⟨p, hp, ⟨-, h⟩ | ⟨-, h⟩⟩
  · exact Or.inr h
  · exact Or.inr h
  · exact Or.inl (h.trans hp.symm)

/-- A tick keeps the preference, or prefers the majority, or the last one. -/
theorem tick_preferred (L : Ipld) (s : Snowball A) (votes : List (Vote A)) :
    (s.tick L votes).preferred = s.preferred ∨
      (∃ m, majority L votes = some m ∧ (s.tick L votes).preferred = some m) ∨
      ∃ last, s.last = some last ∧ (s.tick L votes).preferred = some last := by
  have hcount : ∀ m, majority L votes = some m →
      (countMajority L { s with totalCount := s.totalCount + 1 } m).preferred = s.preferred ∨
        ∃ m', majority L votes = some m' ∧
          (countMajority L { s with totalCount := s.totalCount + 1 } m).preferred = some m' := by
    intro m hm
    rcases countMajority_preferred_or L { s with totalCount := s.totalCount + 1 } m with h | h
    · exact Or.inl h
    · exact Or.inr ⟨m, hm, h⟩
  generalize hs' : s.tick L votes = s'
  have hticked := ticked_tick L s votes
  rw [hs'] at hticked
  cases hticked with
  | decided | lost => exact Or.inl rfl
  | adopted _ _ hm => exact Or.inr (Or.inl ⟨_, hm, rfl⟩)
  | fresh _ _ hm | again _ _ hm =>
    rcases hcount _ hm with h | h
    · exact Or.inl h
    · exact Or.inr (Or.inl h)
  | decides _ _ hlast _ _ _ hpref => exact Or.inr (Or.inr ⟨_, hlast, hpref⟩)

/-- What is preferred, and what was the majority last, are votes for a checkpoint. -/
structure Named (s : Snowball A) : Prop where
  preferred : ∀ v, s.preferred = some v → ∃ cp, v.checkpoint = some cp
  last : ∀ v, s.last = some v → ∃ cp, v.checkpoint = some cp

theorem named_new (alpha : A.F) (beta : Int) (k : Nat) : (new alpha beta k).Named where
  preferred := fun v h => by cases h
  last := fun v h => by cases h

theorem Named.preferInLock (h : s.Named) {v : Vote A} {cp : Checkpoint}
    (hv : v.checkpoint = some cp) : (s.preferInLock L v).Named where
  preferred := by
    intro v' hv'
    rw [← Option.some.inj hv']
    exact ⟨cp, hv⟩
  last := h.last

theorem exists_checkpoint_of_majority {m : Vote A} (h : majority L votes = some m) :
    ∃ cp, m.checkpoint = some cp :=
  Vote.exists_checkpoint (majority_spec h).2

/-- A tick keeps it whatever the votes are: a majority is never an empty vote. -/
theorem Named.tick (h : s.Named) (votes : List (Vote A)) : (s.tick L votes).Named where
  preferred := by
    intro v hv
    rcases tick_preferred L s votes with hp | ⟨m, hm, hp⟩ | ⟨last, hlast, hp⟩
    · exact h.preferred v (hp.symm.trans hv)
    · obtain rfl := Option.some.inj (hp.symm.trans hv)
      exact exists_checkpoint_of_majority hm
    · obtain rfl := Option.some.inj (hp.symm.trans hv)
      exact h.last last hlast
  last := by
    intro v hv
    rcases tick_cases L s votes with ⟨hl, -, -⟩ | ⟨m, hm, hl, -⟩ | ⟨last, hs, hl, -, -⟩
    · exact h.last v (hl.symm.trans hv)
    · obtain rfl := Option.some.inj (hl.symm.trans hv)
      exact exists_checkpoint_of_majority hm
    · obtain rfl := Option.some.inj (hl.symm.trans hv)
      exact h.last last hs

end Snowball

end Preferred

/-! ## The invariant -/

/-- The reference is to a round of the height. -/
def RoundRef.IsOf (n : Node) (height : Nat) : RoundRef → Prop
  | .current => n.current.height = height
  | .past p => PastAt n p height

/-- A handler has a round of the height it was asked for. -/
def Stream.Placed (n : Node) (st : Stream) : Prop :=
  match st.pc with
  | .preferred r | .current r => r.IsOf n st.height
  | _ => True

theorem Stream.Placed.mono {n n' : Node} {st : Stream} (h : st.Placed n)
    (hrefs : ∀ r : RoundRef, r.IsOf n st.height → r.IsOf n' st.height) : st.Placed n' := by
  unfold Stream.Placed at h ⊢
  split at h
  · exact hrefs _ h
  · exact hrefs _ h
  · trivial

theorem Stream.Placed.demote {n n' : Node} {st : Stream} {p : Nat} (h : st.Placed n)
    (hrefs : ∀ r : RoundRef, r.IsOf n st.height → (r.demote p).IsOf n' st.height) :
    (st.demote p).Placed n' := by
  obtain ⟨height, pc⟩ := st
  cases pc with
  | preferred r | current r => exact hrefs r h
  | _ => trivial

theorem RoundRef.IsOf.step {E : Env} {n n' : Node} {e : Node.Event} {height : Nat} {r : RoundRef}
    (h : r.IsOf n height) (hstep : n.step E e = some n') (he : ∀ cp, e ≠ .snowballerDone cp) :
    r.IsOf n' height := by
  cases r with
  | current => exact (current_height_step hstep he).trans h
  | past p => exact PastAt.step h hstep

/-- The round that was current is the one at the end of the heap. -/
theorem RoundRef.IsOf.decided {E : Env} {n n' : Node} {cp : Checkpoint} {height : Nat}
    {r : RoundRef} (h : r.IsOf n height) (hstep : n.step E (.snowballerDone cp) = some n') :
    (r.demote (n'.heap.length - 1)).IsOf n' height := by
  cases r with
  | current =>
    have hcurrent : n.current.height = height := h
    rw [← hcurrent]
    exact pastAt_decided hstep
  | past p => exact PastAt.step h hstep

namespace Answering

variable {A : FloatArith}
variable {L : Ipld} {pc : StreamPc}

structure Consistent (L : Ipld) (s : Answering A) : Prop where
  durable : Durable L s.node s.traced.history.decided
  named : s.snowball.Named
  streams : ∀ st ∈ s.streams, st.Placed s.node

/-- What one call of a handler does. -/
inductive Called (L : Ipld) (s : Answering A) (st : Stream) : StreamPc → Prop where
  | gotCurrent (hpc : st.pc = .get) (hheight : s.node.current.height = st.height) :
      Called L s st (.preferred .current)
  | gotPast {p : Nat} (hpc : st.pc = .get) (hne : st.height ≠ s.node.current.height)
      (hget : (s.node.get L st.height).1 = some p) : Called L s st (.preferred (.past p))
  | missing (hpc : st.pc = .get) (hget : (s.node.get L st.height).1 = none) :
      Called L s st (.answered (noResponse st.height))
  | unpreferred (hpc : st.pc = .preferred .current) : Called L s st (.current .current)
  | preferred {cp : Checkpoint} (hpc : st.pc = .preferred .current)
      (hheight : s.node.current.height = st.height) : Called L s st (.answered cp)
  | decided {p : Nat} {r : PastRound} (hpc : st.pc = .preferred (.past p))
      (hr : s.node.heap[p]? = some r) (hheight : r.height = st.height) :
      Called L s st (.answered r.preferred)
  | waiting (hpc : st.pc = .current .current) (hheight : s.node.current.height = st.height) :
      Called L s st (.answered (noResponse st.height))
  | overtaken {p : Nat} (hpc : st.pc = .current (.past p)) : Called L s st .panicked

section Invariant

variable {E : Env} {alpha : A.F} {beta : Int} {k : Nat} {s s' : Answering A} {st : Stream}

/-- A past round is below the current one. -/
theorem Consistent.height_lt (h : s.Consistent L) {p height : Nat} (hp : PastAt s.node p height) :
    height < s.node.current.height := by
  obtain ⟨r, hr, rfl⟩ := hp
  exact h.durable.lt_of_known (Or.inl ⟨r, List.mem_of_getElem? hr, rfl⟩)

theorem called_getRound (L : Ipld) (s : Answering A) (hpc : st.pc = .get) :
    Called L s st (getRound L s.node st.height) := by
  unfold getRound
  split
  · next hheight => exact .gotCurrent hpc hheight.symm
  · next hne =>
    split
    · next hget => exact .missing hpc hget
    · next p hget => exact .gotPast hpc hne hget

/-- **What one call can do.** A past round has a preference, and a preference is a checkpoint. -/
theorem called_of_nextPc (hs : s.Consistent L) (hst : st.Placed s.node)
    (h : s.nextPc L st = some pc) : Called L s st pc := by
  obtain ⟨height, place⟩ := st
  cases place with
  | get =>
    rw [← Option.some.inj h]
    exact called_getRound L s rfl
  | preferred r =>
    cases r with
    | current =>
      simp only [nextPc, preferredOf] at h
      cases hv : s.snowball.preferred with
      | none =>
        rw [hv] at h
        rw [← Option.some.inj h]
        exact .unpreferred rfl
      | some v =>
        obtain ⟨cp, hcp⟩ := hs.named.preferred v hv
        simp only [hv, Option.map_some, hcp] at h
        rw [← Option.some.inj h]
        exact .preferred rfl hst
    | past p =>
      obtain ⟨r, hr, hheight⟩ := hst
      simp only [nextPc, preferredOf, hr, Option.map_some] at h
      rw [← Option.some.inj h]
      exact .decided rfl hr hheight
  | current r =>
    cases r with
    | current =>
      simp only [nextPc, heightOf, Option.any_some, le_refl, decide_true, if_true] at h
      rw [← Option.some.inj h]
      exact .waiting rfl hst
    | past p =>
      have hlt : height < s.node.current.height := hs.height_lt hst
      obtain ⟨r, hr, hheight⟩ := hst
      have hnot : ¬ s.node.current.height ≤ r.height := by rw [hheight]; exact not_le.mpr hlt
      simp only [nextPc, heightOf, hr, Option.map_some, Option.any_some, hnot, decide_false,
        Bool.false_eq_true, if_false] at h
      rw [← Option.some.inj h]
      exact .overtaken rfl
  | answered | panicked => cases h

theorem consistent_start : (system E alpha beta k).start.Consistent E.L where
  durable := durable_genesis E.L
  named := Snowball.named_new alpha beta k
  streams := fun _ h => by cases h

/-- The signer takes an event: its own invariant stays, and the handlers keep their rounds. -/
theorem Consistent.unaffected (hL : E.L.Faithful) (hs : s.Consistent E.L)
    (h : Unaffected E s s') : Durable E.L s'.node s'.traced.history.decided ∧
      ∀ st : Stream, st.Placed s.node → st.Placed s'.node := by
  rcases h with h | ⟨e, hact, he⟩
  · unfold node
    rw [h]
    exact ⟨hs.durable, fun _ h => h⟩
  · obtain ⟨n, hstep, htraced⟩ := TracedNode.act_event hact
    unfold node
    rw [htraced]
    exact ⟨hs.durable.step hL hstep, fun st hst => hst.mono fun r hr => hr.step hstep he⟩

/-- Where a handler goes on, it has a round of its height. -/
theorem placed_of_called (hL : E.L.Faithful) (hs : s.Consistent E.L) (hst : st.Placed s.node)
    (hpc : Called E.L s st pc) (hcalled : s.called E st = some s'.traced) :
    ({ st with pc } : Stream).Placed s'.node := by
  have hkeep := (hs.unaffected hL (unaffected_called hcalled)).2
  cases hpc with
  | gotCurrent hget hheight =>
    have hplaced : ({ st with pc := .preferred .current } : Stream).Placed s.node := hheight
    exact hkeep _ hplaced
  | @gotPast p hget hne hfound =>
    rw [called, hget] at hcalled
    obtain ⟨n, hstep, htraced⟩ := TracedNode.act_event hcalled
    -- `handleStream` has looked up the round, which is now where the lookup says
    have hnode : s'.node = (s.node.get E.L st.height).2 := by
      unfold node
      rw [htraced, ← Option.some.inj hstep]
      show (s.node.handleStream E.L st.height).2 = _
      unfold Node.handleStream
      rw [if_neg hne]
      rfl
    rw [hnode]
    exact (hs.durable.stable.get hL st.height).2 p hfound
  | unpreferred hpref =>
    unfold Stream.Placed at hst
    rw [hpref] at hst
    have hplaced : ({ st with pc := .current .current } : Stream).Placed s.node := hst
    exact hkeep _ hplaced
  | missing | preferred | decided | waiting | overtaken => trivial

/-- What a snowball prefers when it is started is a checkpoint. -/
theorem Consistent.named_started (hs : s.Consistent L) (preferred : Option Checkpoint) :
    (s.startedSnowball L preferred).Named := by
  unfold startedSnowball
  split
  · exact hs.named
  · split
    · exact hs.named.preferInLock rfl
    · exact hs.named

/-- **Every action keeps the invariant.** -/
theorem Consistent.act (hL : E.L.Faithful) (hs : s.Consistent E.L) {a : Act A}
    (h : act E alpha beta k s a = some s') : s'.Consistent E.L := by
  cases a with
  | event e =>
    obtain ⟨hun, hsnowball, hstreams⟩ := act_event h
    obtain ⟨hdurable, hkeep⟩ := hs.unaffected hL hun
    refine ⟨hdurable, by rw [hsnowball]; exact hs.named, ?_⟩
    rw [hstreams]
    exact fun st hst => hkeep st (hs.streams st hst)
  | start =>
    obtain ⟨hun, hstreams, hsnowball⟩ := act_start h
    obtain ⟨hdurable, hkeep⟩ := hs.unaffected hL hun
    refine ⟨hdurable, by rw [hsnowball]; exact hs.named_started _, ?_⟩
    rw [hstreams]
    exact fun st hst => hkeep st (hs.streams st hst)
  | tick votes =>
    rw [act_tick h]
    exact ⟨hs.durable, hs.named.tick votes, hs.streams⟩
  | done =>
    obtain ⟨cp, hact, hsnowball, hstreams⟩ := act_done h
    obtain ⟨n, hstep, htraced⟩ := TracedNode.act_event hact
    have hnode : s'.node = n := by rw [node, htraced]
    refine ⟨?_, by rw [hsnowball]; exact Snowball.named_new alpha beta k, ?_⟩
    · rw [hnode, htraced]
      exact hs.durable.step hL hstep
    · rw [hstreams, hnode]
      intro st' hst'
      obtain ⟨st, hst, rfl⟩ := List.mem_map.mp hst'
      exact (hs.streams st hst).demote fun r hr => hr.decided hstep
  | ask height =>
    rw [← Option.some.inj h]
    exact ⟨hs.durable, hs.named, forall_mem_concat hs.streams trivial⟩
  | stream i =>
    obtain ⟨st, pc, hst, hpc, hcalled, hsnowball, hstreams⟩ := act_stream h
    have hplaced := hs.streams st (List.mem_of_getElem? hst)
    obtain ⟨hdurable, hkeep⟩ := hs.unaffected hL (unaffected_called hcalled)
    refine ⟨hdurable, by rw [hsnowball]; exact hs.named, ?_⟩
    rw [hstreams]
    intro st' hst'
    rcases List.mem_or_eq_of_mem_set hst' with hmem | rfl
    · exact hkeep st' (hs.streams st' hmem)
    · exact placed_of_called hL hs hplaced (called_of_nextPc hs hplaced hpc) hcalled

theorem consistent_reach (hL : E.L.Faithful) {ok : Answering A → Act A → Bool}
    (h : (system E alpha beta k).Reach ok s) : s.Consistent E.L :=
  h.invariant (P := fun s => s.Consistent E.L) consistent_start
    fun _ _ _ hs _ hact => hs.act hL hact

end Invariant

/-! ## When handlers are safe -/

/-- The handler has found nothing preferred in the current round, and is yet to compare heights. -/
def AtRisk (st : Stream) : Prop := st.pc = .current .current

instance (st : Stream) : Decidable (AtRisk st) := inferInstanceAs (Decidable (_ = _))

/-- No round is decided while a handler is at risk. -/
def undisturbed (s : Answering A) : Act A → Bool
  | .done => s.streams.all fun st => !decide (AtRisk st)
  | _ => true

/-- The handler has not panicked, and is not about to. -/
def Calm (st : Stream) : Prop := st.pc ≠ .panicked ∧ ∀ p, st.pc ≠ .current (.past p)

section Safety

variable {E : Env} {alpha : A.F} {beta : Int} {k : Nat} {s s' : Answering A} {st : Stream}

theorem Calm.demote (h : Calm st) (hrisk : ¬ AtRisk st) (p : Nat) : Calm (st.demote p) := by
  obtain ⟨height, pc⟩ := st
  cases pc with
  | current r =>
    cases r with
    | current => exact absurd rfl hrisk
    | past q => exact h
  | preferred r => exact ⟨fun h => (by cases h), fun q h => (by cases h)⟩
  | _ => exact h

theorem Calm.called (h : Calm st) (hpc : Called L s st pc) : Calm { st with pc } := by
  cases hpc with
  | overtaken hover => exact absurd hover (h.2 _)
  | _ => exact ⟨fun h => (by cases h), fun q h => (by cases h)⟩

theorem calm_act (hs : s.Consistent E.L) (h : ∀ st ∈ s.streams, Calm st) {a : Act A}
    (hok : undisturbed s a = true) (hact : act E alpha beta k s a = some s') :
    ∀ st ∈ s'.streams, Calm st := by
  cases a with
  | event e =>
    rw [(act_event hact).2.2]
    exact h
  | start =>
    rw [(act_start hact).2.1]
    exact h
  | tick votes =>
    rw [act_tick hact]
    exact h
  | done =>
    obtain ⟨cp, -, -, hstreams⟩ := act_done hact
    rw [hstreams]
    intro st' hst'
    obtain ⟨st, hst, rfl⟩ := List.mem_map.mp hst'
    have hrisk : ¬ AtRisk st := by simpa using List.all_eq_true.mp hok st hst
    exact (h st hst).demote hrisk _
  | ask height =>
    rw [← Option.some.inj hact]
    exact forall_mem_concat h ⟨fun h => (by cases h), fun q h => (by cases h)⟩
  | stream i =>
    obtain ⟨st, pc, hst, hpc, -, -, hstreams⟩ := act_stream hact
    have hmem := List.mem_of_getElem? hst
    rw [hstreams]
    intro st' hst'
    rcases List.mem_or_eq_of_mem_set hst' with hmem' | rfl
    · exact h st' hmem'
    · exact (h st hmem).called (called_of_nextPc hs (hs.streams st hmem) hpc)

theorem calm_reach (hL : E.L.Faithful) (h : (system E alpha beta k).Reach undisturbed s) :
    ∀ st ∈ s.streams, Calm st := by
  have hboth : s.Consistent E.L ∧ ∀ st ∈ s.streams, Calm st := by
    refine h.invariant
      (P := fun s : Answering A => s.Consistent E.L ∧ ∀ st ∈ s.streams, Calm st)
      ⟨consistent_start, fun _ h => by cases h⟩ ?_
    intro s a s' hs hok hact
    exact ⟨hs.1.act hL hact, calm_act hs.1 hs.2 hok hact⟩
  exact hboth.2

/-- A handler that is overtaken by a decision panics at its next call. -/
theorem panics_of_overtaken (hs : s'.Consistent E.L) (hdone : act E alpha beta k s .done = some s')
    {i : Nat} (hi : s.streams[i]? = some st) (hrisk : AtRisk st) :
    ∃ s'', act E alpha beta k s' (.stream i) = some s'' ∧
      s''.streams[i]? = some { st with pc := .panicked } := by
  obtain ⟨height, pc⟩ := st
  obtain rfl : pc = .current .current := hrisk
  obtain ⟨cp, -, -, hstreams⟩ := act_done hdone
  set p := s'.node.heap.length - 1
  set late : Stream := { height, pc := .current (.past p) }
  have hi' : s'.streams[i]? = some late := by
    rw [hstreams, List.getElem?_map, hi]
    rfl
  obtain ⟨pc, hpc⟩ : ∃ pc, s'.nextPc E.L late = some pc := by
    simp only [nextPc, late]
    split <;> exact ⟨_, rfl⟩
  have hpanics : pc = .panicked := by
    cases called_of_nextPc hs (hs.streams late (List.mem_of_getElem? hi')) hpc with
    | overtaken => rfl
    | _ hplace => cases hplace
  refine ⟨{ s' with streams := s'.streams.set i { late with pc } }, ?_, ?_⟩
  · rw [act, hi']
    simp only [Option.bind_eq_bind, Option.bind_some, hpc]
    rfl
  · rw [hpanics]
    exact List.getElem?_set_self (List.getElem?_eq_some_iff.mp hi').1

/-- For a past height a call answers what was decided, unless the round is not found. -/
theorem answer_decided (hs : s.Consistent E.L) {i : Nat} {cp : Checkpoint}
    (hi : s.streams[i]? = some st) (hlt : st.height < s.node.current.height)
    (hact : act E alpha beta k s (.stream i) = some s')
    (hanswer : s'.streams[i]? = some { st with pc := .answered cp }) :
    (∃ d, s.traced.history.decided[st.height]? = some d ∧ cp = d.checkpoint) ∨
      (st.pc = .get ∧ (s.node.get E.L st.height).1 = none ∧ cp = noResponse st.height) := by
  obtain ⟨st₁, pc, hi₁, hpc, -, -, hstreams⟩ := act_stream hact
  obtain rfl := Option.some.inj (hi.symm.trans hi₁)
  have hpc' : pc = .answered cp := by
    rw [hstreams, List.getElem?_set_self (List.getElem?_eq_some_iff.mp hi).1] at hanswer
    exact congrArg Stream.pc (Option.some.inj hanswer)
  rw [hpc'] at hpc
  cases called_of_nextPc hs (hs.streams st (List.mem_of_getElem? hi)) hpc with
  | missing hget hnone => exact Or.inr ⟨hget, hnone, rfl⟩
  | preferred _ hheight => exact absurd hheight.symm (Nat.ne_of_lt hlt)
  | waiting _ hheight => exact absurd hheight.symm (Nat.ne_of_lt hlt)
  | @decided p r _ hr hheight =>
    have hmem := List.mem_of_getElem? hr
    obtain ⟨d, hd, hcp⟩ := (hs.durable.stable.rounds r hmem).1.checkpoint
    rw [hheight] at hd
    exact Or.inl ⟨d, (grown_upTo E.L s.node.dagStore _ _).getElem? hd, hcp⟩

end Safety

/-! ## The result -/

/--
**Handlers are safe if no round is decided at the wrong moment.** As long as no decision falls
between the two calls of a handler that found nothing preferred in the current round, no handler
panics; one that is overtaken in this way panics at its next call. At any moment of any run, the
answer for a height below the current one is the checkpoint decided there, unless `rounds.Get`
does not find the round: it is neither cached nor stored, and the answer is empty.
-/
theorem handlers_safe_unless_overtaken (E : Env) (alpha : A.F) (beta : Int) (k : Nat)
    (hL : E.L.Faithful) :
    (∀ s, (system E alpha beta k).Reach undisturbed s →
      ∀ st ∈ s.streams, st.pc ≠ .panicked) ∧
    (∀ s s', (system E alpha beta k).Reach (fun _ _ => true) s →
      act E alpha beta k s .done = some s' → ∀ i st, s.streams[i]? = some st → AtRisk st →
        ∃ s'', act E alpha beta k s' (.stream i) = some s'' ∧
          s''.streams[i]? = some { st with pc := .panicked }) ∧
    ∀ s s' i st cp, (system E alpha beta k).Reach (fun _ _ => true) s →
      s.streams[i]? = some st → st.height < s.node.current.height →
      act E alpha beta k s (.stream i) = some s' →
      s'.streams[i]? = some { st with pc := .answered cp } →
        (∃ d, s.traced.history.decided[st.height]? = some d ∧ cp = d.checkpoint) ∨
          (st.pc = .get ∧ (s.node.get E.L st.height).1 = none ∧ cp = noResponse st.height) := by
  refine ⟨?_, ?_, ?_⟩
  · intro s hs st hst
    exact (calm_reach hL hs st hst).1
  · intro s s' hs hdone i st hi hrisk
    exact panics_of_overtaken ((consistent_reach hL hs).act hL hdone) hdone hi hrisk
  · intro s s' i st cp hs hi hlt hact hanswer
    exact answer_decided (consistent_reach hL hs) hi hlt hact hanswer

/-! ### A decision between two calls -/

namespace Example

open RunExample (abr env)

noncomputable def proposal : Checkpoint := Ipld.inFull.naming 0 [abr 0 1 0]

/-- The default `alpha` and `beta`, and two peers to ask. -/
noncomputable def signer : System (Answering exactArith) (Act exactArith) :=
  system env (333 / 500 : ℚ) 10 2

/-- A request comes, and in eleven ticks all votes are for it. -/
noncomputable def firstRound : List (Act exactArith) :=
  [.event (.addBlockRequest (abr 0 1 0) true), .start] ++
    List.replicate 11 (.tick [{ checkpoint := some proposal, tallyCount := (1 : ℚ) }]) ++ [.done]

/-- A peer that asks for the first round after it has been decided. -/
noncomputable def afterwards : List (Act exactArith) := firstRound ++ [.ask 0, .stream 0]

/-- A peer that asks before, and whose handler is overtaken. -/
noncomputable def overtaking : List (Act exactArith) :=
  [.ask 0, .stream 0, .stream 0] ++ firstRound ++ [.stream 0]

theorem handlers_safe_example : ∃ s s',
    signer.Reach undisturbed s ∧ (∀ st ∈ s.streams, st.pc ≠ .panicked) ∧
    signer.act s (.stream 0) = some s' ∧
    s'.streams[0]? = some { height := 0, pc := .answered proposal } ∧
    ∃ d, s.traced.history.decided[0]? = some d ∧ proposal = d.checkpoint := by
  have hrun : (signer.run undisturbed afterwards).map (fun s =>
      (s.streams, s.node.current.height, (signer.act s (.stream 0)).map (·.streams[0]?))) =
      some ([{ height := 0, pc := .preferred (.past 0) }], 1,
        some (some { height := 0, pc := .answered proposal })) := by decide +kernel
  obtain ⟨s, hs, hv⟩ := Option.map_eq_some_iff.mp hrun
  obtain ⟨hstreams, hv⟩ := Prod.mk.inj hv
  obtain ⟨hheight, hv⟩ := Prod.mk.inj hv
  obtain ⟨s', hs', hanswer⟩ := Option.map_eq_some_iff.mp hv
  have hreach : signer.Reach undisturbed s := System.reach_of_run hs
  obtain ⟨hsafe, -, hdecided⟩ :=
    handlers_safe_unless_overtaken (A := exactArith) env (333 / 500 : ℚ) 10 2
      Ipld.inFull_faithful
  refine ⟨s, s', hreach, hsafe s hreach, hs', hanswer, ?_⟩
  rcases hdecided s s' 0 { height := 0, pc := .preferred (.past 0) } proposal
    (hreach.mono fun _ _ _ => rfl) (by rw [hstreams]; rfl) (by rw [hheight]; exact Nat.one_pos)
    hs' hanswer with h | ⟨hget, -⟩
  · exact h
  · cases hget

/-- The handler reads that nothing is preferred, the round is decided, and the handler panics. -/
theorem handler_panics : ∃ s, signer.run (fun _ _ => true) overtaking = some s ∧
    s.streams = [{ height := 0, pc := .panicked }] ∧
    s.traced.history.decided.map (·.checkpoint) = [proposal] := by
  have hrun : (signer.run (fun _ _ => true) overtaking).map (fun s =>
      (s.streams, s.traced.history.decided.map (·.checkpoint))) =
      some ([{ height := 0, pc := .panicked }], [proposal]) := by decide +kernel
  obtain ⟨s, hs, hv⟩ := Option.map_eq_some_iff.mp hrun
  obtain ⟨hstreams, hdecided⟩ := Prod.mk.inj hv
  exact ⟨s, hs, hstreams, hdecided⟩

end Example

end Answering

end Tupelo

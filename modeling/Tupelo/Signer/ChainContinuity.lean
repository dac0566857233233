import Tupelo.Signer.Histories

/-!
# Continuity of the chains of objects

Nothing is checked when a round is decided: that its requests extend the chains of their objects
rests on what has been let into the mempool. `handleAddBlockRequest` lets in what extends
`getCurrent`, and deleting the conflicts of what has been decided throws out the rest.

The requests promoted from flight are let in by goroutines, and these do not look at
`getCurrent` again. If one runs after a later round has advanced its object, a request that no
longer extends the chain is in the mempool, and can be decided.
-/

namespace Tupelo

open Infra Node

variable {L : Ipld} {n : Node} {decided : List Decision}

/-! ## The mempool extends the state -/

/-- Every request of the mempool extends the chain of its object. -/
def PoolExtends (n : Node) (decided : List Decision) : Prop :=
  ∀ id w, n.mempool.get id = some w → Extends (stateNow decided w.abr.objectId) w.abr

/-- Two requests that extend one chain have one height. -/
theorem extends_height_eq {current : Option AddBlockRequest} {a b : AddBlockRequest}
    (ha : Extends current a) (hb : Extends current b) : a.height = b.height := by
  cases current with
  | none => exact Eq.trans ha (Eq.symm hb)
  | some c => exact UInt64.toNat_inj.mp (ha.1.trans hb.1.symm)

theorem poolExtends_storeAbr (h : PoolExtends n decided) {w : AddBlockWrapper}
    (hw : Extends (stateNow decided w.abr.objectId) w.abr) (stored : Bool) :
    PoolExtends (n.storeAbr L w stored) decided := by
  unfold storeAbr
  split
  · intro id v hv
    have hv' : (n.mempool.add L { w with cid := L.cidOf (.addBlockRequest w.abr) }).get id
        = some v := hv
    rw [Mempool.get_add] at hv'
    split at hv'
    · rw [← Option.some.inj hv']
      exact hw
    · exact h id v hv'
  · exact h

/-- Looking up a round leaves the mempool as it is. -/
theorem poolExtends_looked (h : PoolExtends n decided) {n₁ : Node} (hn₁ : Looked L n n₁) :
    PoolExtends n₁ decided := by
  obtain ⟨heap, roundCache, rfl⟩ := hn₁.frame
  exact h

/-- What is applied for a checkpoint was in the mempool. -/
theorem applied_extends_state (h : PoolExtends n decided) {cp : Checkpoint} {abr : AddBlockRequest}
    (habr : abr ∈ TracedNode.applied L n cp) : Extends (stateNow decided abr.objectId) abr := by
  obtain ⟨b, -, hb⟩ := List.mem_filterMap.mp habr
  obtain ⟨id, -, hid⟩ := Option.bind_eq_some_iff.mp hb
  obtain ⟨w, hw, rfl⟩ := Option.map_eq_some_iff.mp hid
  exact h id w hw

/-- **A decision throws out whatever it overtakes.** -/
theorem poolExtends_handleSnowballerDone (hL : L.Faithful) (hwf : n.mempool.Wf L)
    (h : PoolExtends n decided) {cp : Checkpoint} {n' : Node}
    (hdone : n.handleSnowballerDone L cp = .ok n') :
    PoolExtends n' (decided ++ [{ checkpoint := cp, applied := TracedNode.applied L n cp }]) := by
  obtain ⟨state, n₁, abrs, inflight, promotions, hstate, hnames, rfl⟩ :=
    handleSnowballerDone_ok hdone
  obtain ⟨heap, roundCache, rfl⟩ := (looked_previousState hstate).frame
  intro id w hw
  obtain ⟨hpool, hleft⟩ := (Mempool.get_bulkDelete_iff hL _ hwf).mp hw
  have hext := h id w hpool
  have happlied : TracedNode.applied L n cp = abrs.map (·.2.abr) := applied_eq hnames
  unfold stateNow
  rw [logAll_append, latest_append, happlied]
  cases hl : latest (·.objectId) (abrs.map (·.2.abr)) w.abr.objectId with
  | none => exact hext
  | some a =>
    -- a request of the object was applied: it extended the same chain, so it was a conflict
    exfalso
    obtain ⟨e, he, rfl⟩ := List.mem_map.mp (mem_of_latest hl)
    have hobj : e.2.abr.objectId = w.abr.objectId := key_of_latest hl
    have hpoole := get_of_named hnames he
    have hexte := h e.1 e.2 hpoole
    rw [hobj] at hexte
    refine hleft e.1 (List.mem_map_of_mem he) e.2 hpoole ?_
    unfold toConflictSetID
    rw [hobj, extends_height_eq hext hexte]

/-! ## Runs -/

/--
The condition: a spawned `storeAbr` runs while its request extends what `getCurrent` returns for
its object.
-/
def timely (L : Ipld) (s : TracedNode) : Action → Bool
  | .event (.promotion i _) =>
    match s.node.promotions[i]? with
    | none => true
    | some w =>
      match (s.node.getCurrent L w.abr.objectId).1 with
      | .ok current => decide (Extends current w.abr)
      | .error _ => false
  | .event _ => true
  | .crash => false

theorem poolExtends_step {E : Env} (hL : E.L.Faithful) {s : TracedNode} {n' : Node}
    {history : History} {e : Node.Event} (hdurable : Durable E.L s.node history.decided)
    (h : PoolExtends s.node history.decided) (hok : timely E.L s (.event e) = true)
    (hstep : s.node.step E e = some n') :
    PoolExtends n' (TracedNode.record E.L s.node history (.event e)).decided := by
  cases eventStep_of_step hstep with
  | drop hn₁ | answer hn₁ | tick hn₁ => exact poolExtends_looked h hn₁
  | await hn₁ =>
    have h₁ := poolExtends_looked h hn₁
    exact h₁
  | store hn₁ hcurrent hextends =>
    rw [hdurable.getCurrent_ok hL hcurrent] at hextends
    exact poolExtends_storeAbr (poolExtends_looked h hn₁) hextends _
  | @promote i stored w hw =>
    have hpromoted : PoolExtends
        { s.node with promotions := s.node.promotions.eraseIdx i } history.decided := h
    refine poolExtends_storeAbr hpromoted ?_ stored
    simp only [timely, hw] at hok
    split at hok
    · next current hcur =>
      rw [← hdurable.getCurrent_ok hL hcur]
      exact of_decide_eq_true hok
    · cases hok
  | running | start => exact h
  | decided hdone => exact poolExtends_handleSnowballerDone hL hdurable.stable.pool h hdone
  | background _ _ hthread =>
    intro id w hw
    refine h id w ?_
    rw [← hthread.frame.1]
    rwa [setThread_eq] at hw
  | republish hget | spawn hget =>
    have h₁ := poolExtends_looked h (Looked.of_get hget)
    exact h₁

theorem poolExtends_genesis : PoolExtends Node.genesis decided := by
  intro id w hw
  simp [Node.genesis, Mempool.new, Mempool.get] at hw

theorem poolExtends_reach {E : Env} (hL : E.L.Faithful) {s : TracedNode}
    (h : (TracedNode.system E).Reach (timely E.L) s) :
    Durable E.L s.node s.history.decided ∧ PoolExtends s.node s.history.decided := by
  refine h.invariant
    (P := fun s => Durable E.L s.node s.history.decided ∧ PoolExtends s.node s.history.decided)
    ⟨durable_genesis E.L, poolExtends_genesis⟩ ?_
  rintro s a s' ⟨hdurable, hpool⟩ hok hact
  cases a with
  | crash => cases hok
  | event e =>
    obtain ⟨n, hn, rfl⟩ := TracedNode.act_event hact
    exact ⟨hdurable.step hL hn, poolExtends_step hL hdurable hpool hok hn⟩

/--
**Chain continuity.**

In every run in which promoted requests are stored while they extend the chain of their object,
every request that is applied for a decided checkpoint extends what `getCurrent` returns for its
object: it is the first of its object, or has the next height and the tip of the last.
-/
theorem applied_extends {E : Env} (hL : E.L.Faithful) {s s' : TracedNode} {cp : Checkpoint}
    (h : (TracedNode.system E).Reach (timely E.L) s)
    (hdone : TracedNode.act E s (.event (.snowballerDone cp)) = some s') :
    cp.addBlockRequests = (TracedNode.applied E.L s.node cp).map
        (fun abr => (E.L.cidOf (.addBlockRequest abr)).bytes) ∧
      ∀ abr ∈ TracedNode.applied E.L s.node cp, ∃ current,
        (s.node.getCurrent E.L abr.objectId).1 = .ok current ∧ Extends current abr := by
  obtain ⟨hdurable, hpool⟩ := poolExtends_reach hL h
  obtain ⟨n', hn', rfl⟩ := TracedNode.act_event hdone
  obtain ⟨-, hd⟩ := step_snowballerDone hn'
  obtain ⟨state, n₁, abrs, -, -, hstate, -, -⟩ := handleSnowballerDone_ok hd
  refine ⟨?_, fun abr habr => ⟨_, ?_, applied_extends_state hpool habr⟩⟩
  · exact (hdurable.handleSnowballerDone hL hd).named _ List.mem_concat_self
  · have hcurrent := hdurable.stable.getCurrent_of_previousState hL hstate abr.objectId
    rwa [hdurable.before_eq] at hcurrent

/-! ## A promotion that comes too late -/

namespace ChainExample

open RunExample

/-- The first request is decided while the next one, with tip 2, is in flight. -/
noncomputable def firstRound : List Action :=
  [.event (.addBlockRequest (abr 0 1 0) true), .event (.addBlockRequest (abr 1 2 1) true)]
    ++ deciding 0 [abr 0 1 0]

/-- Its promotion runs at once, and it is decided. -/
noncomputable def inTime : List Action :=
  firstRound ++ [.event (.promotion 0 true), .event .startSnowball]

/-- Another request of its height, with tip 3, arrives and is decided; then the promotion runs. -/
noncomputable def tooLate : List Action :=
  firstRound ++ [.event (.addBlockRequest (abr 1 3 1) true)] ++ deciding 1 [abr 1 3 1]
    ++ [.event (.promotion 0 true), .event .startSnowball]

noncomputable def last (height : Nat) : Checkpoint := Ipld.inFull.naming height [abr 1 2 1]

theorem applied_extends_example : ∃ s s',
    (TracedNode.system env).run (timely Ipld.inFull) inTime = some s ∧
    TracedNode.act env s (.event (.snowballerDone (last 1))) = some s' ∧
    TracedNode.applied Ipld.inFull s.node (last 1) = [abr 1 2 1] ∧
    ∃ current, (s.node.getCurrent Ipld.inFull [1]).1 = .ok current ∧
      Extends current (abr 1 2 1) := by
  have hrun : ((TracedNode.system env).run (timely Ipld.inFull) inTime).map (fun s =>
      ((TracedNode.act env s (.event (.snowballerDone (last 1)))).isSome,
        TracedNode.applied Ipld.inFull s.node (last 1))) = some (true, [abr 1 2 1]) := by
    decide +kernel
  obtain ⟨s, hs, hv⟩ := Option.map_eq_some_iff.mp hrun
  obtain ⟨hsome, happlied⟩ := Prod.mk.inj hv
  obtain ⟨s', hs'⟩ := Option.isSome_iff_exists.mp hsome
  have hext := (applied_extends Ipld.inFull_faithful (System.reach_of_run hs) hs').2 (abr 1 2 1)
  refine ⟨s, s', hs, hs', happlied, ?_⟩
  exact hext (by
    show abr 1 2 1 ∈ TracedNode.applied Ipld.inFull s.node (last 1)
    rw [happlied]
    exact List.mem_singleton_self _)

/-- The object is at height 1 already, and the request at height 1 is applied over it. -/
theorem applied_too_late : ∃ s s',
    (TracedNode.system env).run uninterrupted tooLate = some s ∧
    TracedNode.act env s (.event (.snowballerDone (last 2))) = some s' ∧
    TracedNode.applied Ipld.inFull s.node (last 2) = [abr 1 2 1] ∧
    (s.node.getCurrent Ipld.inFull [1]).1 = .ok (some (abr 1 3 1)) ∧
    ¬ Extends (some (abr 1 3 1)) (abr 1 2 1) ∧
    (s'.node.getCurrent Ipld.inFull [1]).1 = .ok (some (abr 1 2 1)) := by
  have hrun : ((TracedNode.system env).run uninterrupted tooLate).map (fun s =>
      (TracedNode.applied Ipld.inFull s.node (last 2), (s.node.getCurrent Ipld.inFull [1]).1,
        (TracedNode.act env s (.event (.snowballerDone (last 2)))).map fun s' =>
          (s'.node.getCurrent Ipld.inFull [1]).1)) =
      some ([abr 1 2 1], .ok (some (abr 1 3 1)), some (.ok (some (abr 1 2 1)))) := by
    decide +kernel
  obtain ⟨s, hs, hv⟩ := Option.map_eq_some_iff.mp hrun
  obtain ⟨happlied, hv⟩ := Prod.mk.inj hv
  obtain ⟨hcur, hv⟩ := Prod.mk.inj hv
  obtain ⟨s', hs', hcur'⟩ := Option.map_eq_some_iff.mp hv
  exact ⟨s, s', hs, hs', happlied, hcur, by decide, hcur'⟩

end ChainExample

end Tupelo

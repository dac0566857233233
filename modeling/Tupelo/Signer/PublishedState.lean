import Tupelo.Signer.Equivocation

/-!
# What a signer publishes

A state is copied for the next round while it is still being moved to the HAMT, and the moving
takes place in goroutines that run at any time. None of this can be seen from outside: a lookup
in the state of a round returns the same request at all times, the HAMT that is published for a
round is the state after it, and signers that decide the same checkpoints sign the same rounds.
-/

namespace Tupelo

open Infra

variable {L : Ipld} {decided decided' : List Decision}

/-- **A lookup in a round's state returns the abstract state after that round.** -/
theorem find_eq_stateAt (hL : L.Faithful) {n : Node} (h : Durable L n decided) {r : PastRound}
    (hr : r ∈ n.heap) (obj : Bytes) :
    r.state.find n.dagStore obj = .ok (stateAt decided r.height obj) := by
  have hstate : stateAt (upTo decided r.height) r.height = stateAt decided r.height := by
    unfold stateAt logTo upTo
    rw [List.take_take, Nat.min_self]
  rw [← hstate]
  refine (h.stable.rounds r hr).1.state.find_eq hL fun abr habr => ?_
  obtain ⟨d, hd, hmem⟩ := List.mem_flatMap.mp (mem_of_latest habr)
  exact (h.stable.backed _ (Or.inl ⟨r, hr, rfl⟩)).kept d (List.mem_of_mem_take hd) abr hmem

/-- Every height below the current one has its round. -/
theorem past_uninterrupted {E : Env} {s : TracedNode}
    (h : (TracedNode.system E).Reach uninterrupted s) :
    ∀ k < s.node.current.height, ∃ p, PastAt s.node p k := by
  refine h.invariant (P := fun s => ∀ k < s.node.current.height, ∃ p, PastAt s.node p k)
    (fun k hk => absurd hk (Nat.not_lt_zero k)) ?_
  intro s a s' hs hok hact k hk
  cases a with
  | crash => cases hok
  | event e =>
    obtain ⟨n, hn, rfl⟩ := TracedNode.act_event hact
    by_cases hlt : k < s.node.current.height
    · obtain ⟨p, hp⟩ := hs k hlt
      exact ⟨p, hp.step hn⟩
    · by_cases he : ∃ cp, e = .snowballerDone cp
      · obtain ⟨cp, rfl⟩ := he
        have hk' : k < s.node.current.height + 1 :=
          height_handleSnowballerDone (Node.step_snowballerDone hn).2 ▸ hk
        rw [Nat.le_antisymm (Nat.le_of_lt_succ hk') (not_lt.mp hlt)]
        exact ⟨_, pastAt_decided hn⟩
      · rw [← current_height_step hn (not_exists.mp he)] at hlt
        exact absurd hk hlt

/-! ## Histories only grow -/

/-- Decisions are only appended. -/
theorem decided_prefix_act {E : Env} {s s' : TracedNode} {a : Action}
    (h : TracedNode.act E s a = some s') : s.history.decided <+: s'.history.decided := by
  obtain ⟨n, -, rfl⟩ := Option.map_eq_some_iff.mp h
  show s.history.decided <+: (TracedNode.record E.L s.node s.history a).decided
  unfold TracedNode.record
  split
  · exact List.prefix_append _ _
  · exact List.prefix_refl _

theorem decided_prefix_run {E : Env} {ok : TracedNode → Action → Bool} :
    ∀ {as : List Action} {s s' : TracedNode},
      (TracedNode.system E).runFrom ok s as = some s' → s.history.decided <+: s'.history.decided
  | [], s, s', h => by
    rw [← Option.some.inj h]
  | a :: as, s, s', h => by
    rw [System.runFrom] at h
    split at h
    · obtain ⟨s₁, h₁, h⟩ := Option.bind_eq_some_iff.mp h
      exact (decided_prefix_act h₁).trans (decided_prefix_run h)
    · cases h

/-! ## Equal decisions, equal rounds -/

/-- Checkpoints name requests by their CIDs, so equal checkpoints apply equal requests. -/
theorem applied_of_checkpoint (hL : L.Faithful) {d d' : Decision}
    (hd : d.checkpoint.addBlockRequests =
      d.applied.map fun abr => (L.cidOf (.addBlockRequest abr)).bytes)
    (hd' : d'.checkpoint.addBlockRequests =
      d'.applied.map fun abr => (L.cidOf (.addBlockRequest abr)).bytes)
    (h : d.checkpoint = d'.checkpoint) : d = d' := by
  have hinj : Function.Injective
      fun abr : AddBlockRequest => (L.cidOf (.addBlockRequest abr)).bytes := by
    intro a b hab
    exact DagNode.addBlockRequest.inj (hL.injective (congrArg Cid.mk hab))
  refine Decision.ext h (List.map_injective_iff.mpr hinj ?_)
  rw [← hd, ← hd', h]

theorem decided_eq (hL : L.Faithful) :
    ∀ {ds ds' : List Decision},
      (∀ d ∈ ds, d.checkpoint.addBlockRequests =
        d.applied.map fun abr => (L.cidOf (.addBlockRequest abr)).bytes) →
      (∀ d ∈ ds', d.checkpoint.addBlockRequests =
        d.applied.map fun abr => (L.cidOf (.addBlockRequest abr)).bytes) →
      ds.map (·.checkpoint) = ds'.map (·.checkpoint) → ds = ds'
  | [], [], _, _, _ => rfl
  | [], _ :: _, _, _, h => by cases h
  | _ :: _, [], _, _, h => by cases h
  | d :: ds, d' :: ds', hn, hn', h => by
    obtain ⟨hcp, hrest⟩ := List.cons.inj h
    rw [applied_of_checkpoint hL (hn d List.mem_cons_self) (hn' d' List.mem_cons_self) hcp,
      decided_eq hL (fun e he => hn e (List.mem_cons_of_mem _ he))
        (fun e he => hn' e (List.mem_cons_of_mem _ he)) hrest]

/-! ## The published state -/

/-- Everything that is seen of a signer after a run is a function of its decisions. -/
structure SeenAs (L : Ipld) (n : Node) (decided : List Decision) : Prop where
  /-- A checkpoint names the requests that were applied for it. -/
  applied : ∀ d ∈ decided, d.checkpoint.addBlockRequests =
    d.applied.map fun abr => (L.cidOf (.addBlockRequest abr)).bytes
  /-- Every decided round is there, -/
  present : ∀ k < decided.length, ∃ r ∈ n.heap, r.height = k
  /-- and a lookup in its state returns the latest request of the rounds up to it. -/
  find : ∀ r ∈ n.heap, r.height < decided.length ∧
    ∀ obj, r.state.find n.dagStore obj = .ok (stateAt decided r.height obj)
  /-- What is stored is a round with the decided checkpoint and the state after it, -/
  stored : ∀ height b, n.dataStore (roundKey height) = some b →
    ∃ completed, b = (L.cidOf (.round completed)).bytes ∧ completed.height = height ∧
      IsCompleted L n.dagStore decided completed
  /-- and what is published confirms such a round. -/
  published : ∀ conf ∈ n.pubsub, IsConfirmation L n.dagStore decided conf

/--
**The published state refines the decided history.**

Let a signer be at `s` and later, without a crash in between, at `s'`. What is seen of it at
`s'` is as its decisions say; on the rounds decided by `s` these are the decisions it had at
`s`, so that no lookup changes its answer. And another signer, whatever its key and whatever
the interleaving of its run, that has decided the same checkpoints up to some height has signed
the same round if both have published a confirmation of that height.
-/
theorem published_state_refines {L : Ipld} (hL : L.Faithful)
    {sign sign' : Bytes → Except Fault Signature} {s s' t : TracedNode} {as : List Action}
    (hs : (TracedNode.system ⟨L, sign⟩).Reach uninterrupted s)
    (hs' : (TracedNode.system ⟨L, sign⟩).runFrom uninterrupted s as = some s')
    (ht : (TracedNode.system ⟨L, sign'⟩).Reach uninterrupted t) :
    SeenAs L s'.node s'.history.decided ∧
    (∀ r ∈ s'.node.heap, r.height < s.history.decided.length →
      ∀ obj, r.state.find s'.node.dagStore obj = .ok (stateAt s.history.decided r.height obj)) ∧
    (∀ conf ∈ s'.node.pubsub, ∀ conf' ∈ t.node.pubsub, conf.height = conf'.height →
      (s'.history.decided.take (conf.height + 1)).map (·.checkpoint) =
        (t.history.decided.take (conf.height + 1)).map (·.checkpoint) →
      conf.roundCid = conf'.roundCid) := by
  have hreach := System.reach_of_runFrom hs hs'
  have h := durable_uninterrupted hL hreach
  have h' := durable_uninterrupted hL ht
  have hpub := confirmed_reach hL (reach_of_uninterrupted hL hreach)
  have hpub' := confirmed_reach hL (reach_of_uninterrupted hL ht)
  refine ⟨⟨h.named, ?_, ?_, ?_, fun conf => h.isConfirmation hpub⟩, ?_, ?_⟩
  · intro k hk
    rw [← h.height] at hk
    obtain ⟨p, r, hr, hheight⟩ := past_uninterrupted hreach k hk
    exact ⟨r, List.mem_of_getElem? hr, hheight⟩
  · intro r hr
    exact ⟨by rw [← h.height]; exact h.lt_of_known (Or.inl ⟨r, hr, rfl⟩), find_eq_stateAt hL h hr⟩
  · intro height b hb
    obtain ⟨completed, hcid, hheight, hc, -⟩ := h.stable.data height b hb
    exact ⟨completed, hcid, hheight, (grown_upTo L s'.node.dagStore _ height).isCompleted hc⟩
  · intro r hr hlt obj
    rw [find_eq_stateAt hL h hr, stateAt_of_extends (decided_prefix_run hs') hlt]
  · intro conf hconf conf' hconf' hheight hcps
    obtain ⟨completed, hcid, hh, hc⟩ := h.isConfirmation hpub hconf
    obtain ⟨completed', hcid', hh', hc'⟩ := h'.isConfirmation hpub' hconf'
    have hds := decided_eq hL (fun d hd => h.named d (List.mem_of_mem_take hd))
      (fun d hd => h'.named d (List.mem_of_mem_take hd)) hcps
    rw [hh] at hds
    have heq := isCompleted_unique hc hc' (by rw [← hh, hheight, hh']) hds
    rw [hcid, hcid', heq]

/-! ### Two signers, two interleavings -/

namespace PublishedStateExample

open RunExample

/-- A request of another object. -/
def other : AddBlockRequest := .bare [2] [0] [1] 0

/-- Two objects in the first round. -/
noncomputable def firstRound : List Action :=
  [.event (.addBlockRequest (abr 0 1 0) true), .event (.addBlockRequest other true)] ++
    deciding 0 [abr 0 1 0, other]

/-- The second round is decided when one object of the first has been set. -/
noncomputable def early : List Action :=
  firstRound ++ background 0 2 ++ round 1 (abr 1 2 1) ++ background 0 21

/-- The first round is published before the second is decided. -/
noncomputable def late : List Action :=
  firstRound ++ background 0 12 ++ round 1 (abr 1 2 1)

/-- Both signers publish the same round at height 0. -/
theorem published_state_refines_example : ∃ s t,
    (TracedNode.system ⟨Ipld.inFull, sign [1, 0]⟩).run uninterrupted early = some s ∧
    (TracedNode.system ⟨Ipld.inFull, sign [0, 1]⟩).run uninterrupted late = some t ∧
    s.node.pubsub.map (·.height) = [0, 1] ∧ t.node.pubsub.map (·.height) = [0] ∧
    ∀ conf ∈ s.node.pubsub, ∀ conf' ∈ t.node.pubsub, conf.height = conf'.height →
      conf.roundCid = conf'.roundCid := by
  have hs : ((TracedNode.system ⟨Ipld.inFull, sign [1, 0]⟩).run uninterrupted early).map
      (fun s => (s.node.pubsub.map (·.height), (s.history.decided.take 1).map (·.checkpoint))) =
        some ([0, 1], [Ipld.inFull.naming 0 [abr 0 1 0, other]]) := by decide +kernel
  have ht : ((TracedNode.system ⟨Ipld.inFull, sign [0, 1]⟩).run uninterrupted late).map
      (fun s => (s.node.pubsub.map (·.height), (s.history.decided.take 1).map (·.checkpoint))) =
        some ([0], [Ipld.inFull.naming 0 [abr 0 1 0, other]]) := by decide +kernel
  obtain ⟨s, hs, hsv⟩ := Option.map_eq_some_iff.mp hs
  obtain ⟨t, ht, htv⟩ := Option.map_eq_some_iff.mp ht
  obtain ⟨hsh, hsd⟩ := Prod.mk.inj hsv
  obtain ⟨hth, htd⟩ := Prod.mk.inj htv
  refine ⟨s, t, hs, ht, hsh, hth, ?_⟩
  intro conf hconf conf' hconf' hheight
  refine (published_state_refines Ipld.inFull_faithful System.Reach.start hs
    (System.reach_of_run ht)).2.2 conf hconf conf' hconf' hheight ?_
  have h0 : conf.height = 0 := by
    have hmem := List.mem_map_of_mem (f := (·.height)) hconf'
    rw [hth, List.mem_singleton] at hmem
    rw [hheight, hmem]
  rw [h0, hsd, htd]

end PublishedStateExample

end Tupelo

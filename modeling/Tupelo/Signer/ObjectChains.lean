import Tupelo.Signer.DurableHistory
import Tupelo.Signer.WholeSigner

/-!
# Every height of an object is decided once

What becomes of the requests that a signer has accepted.

* `applied_once` — the requests that were applied for an object have the heights 0, 1, 2 and so on,
  each once, and each is on the tip of the one before; what waits in the mempool is for the next
  height. Crashes do not change this.
* `pooled_until_settled` — a request stays in the mempool until one of its conflict set is decided,
  whatever the signer does in between, short of a crash.
-/

namespace Tupelo

open Infra Node

variable {L : Ipld}
variable {w : AddBlockWrapper} {E : Env} {s s' : TracedNode}

/-! ## The requests that were applied -/

/--
**Every height of an object is applied once, in order.**

In every run with heights written in order and promoted requests stored in time, crashes
included, the decisions that the signer has confirmed and not lost are one list. In it, the
requests of every object have the heights 0, 1, 2 and so on, each on the tip of the one before, and
a request in the mempool is for the height after them.
-/
theorem applied_once {E : Env} (hL : E.L.Faithful) {s : TracedNode}
    (h : (TracedNode.system E).Reach (steady E.L) s) :
    ∃ decided, List.Sublist decided s.history.decided ∧
      (∀ conf ∈ s.node.pubsub, IsConfirmation E.L s.node.dagStore decided conf) ∧
      (∀ obj, Consecutive (chainOf decided obj)) ∧
      ∀ id w, s.node.mempool.get id = some w →
        w.abr.height.toNat = (chainOf decided w.abr.objectId).length := by
  obtain ⟨decided, hhistory, hpool⟩ := history_reach hL h
  refine ⟨decided, hhistory.sub, hhistory.confirmed, hhistory.chains, ?_⟩
  intro id w hw
  have hext := hpool id w hw
  rw [stateNow_eq_getLast?] at hext
  exact (hhistory.chains _).height_eq hext

namespace ChainsExample

open RunExample (round abr background)
open EquivocationExample (env)
open DurableExample (lost)

/-- Height 1 is decided twice, as a crash loses the first decision; then height 2 is accepted. -/
theorem applied_once_example : ∃ s,
    (TracedNode.system env).run (steady env.L)
      (lost ++ [.event (.addBlockRequest (abr 3 4 2) true)]) = some s ∧
    (∃ id w, s.node.mempool.get id = some w ∧ w.abr = abr 3 4 2) ∧
    (chainOf s.history.decided [1]).map (·.height) = [0, 1, 1] ∧
    ∃ decided, List.Sublist decided s.history.decided ∧
      (∀ conf ∈ s.node.pubsub, IsConfirmation env.L s.node.dagStore decided conf) ∧
      (∀ obj, Consecutive (chainOf decided obj)) ∧
      ∀ id w, s.node.mempool.get id = some w →
        w.abr.height.toNat = (chainOf decided w.abr.objectId).length := by
  have hrun : ((TracedNode.system env).run (steady env.L)
      (lost ++ [.event (.addBlockRequest (abr 3 4 2) true)])).map (fun s =>
        ((s.node.mempool.get (env.L.cidOf (.addBlockRequest (abr 3 4 2)))).map (·.abr),
          (chainOf s.history.decided [1]).map (·.height))) =
      some (some (abr 3 4 2), [0, 1, 1]) := by decide +kernel
  obtain ⟨s, hs, hv⟩ := Option.map_eq_some_iff.mp hrun
  obtain ⟨hpool, hheights⟩ := Prod.mk.inj hv
  obtain ⟨w, hw, habr⟩ := Option.map_eq_some_iff.mp hpool
  exact ⟨s, hs, ⟨_, w, hw, habr⟩, hheights,
    applied_once Ipld.sorted_faithful (System.reach_of_run hs)⟩

end ChainsExample

/-! ## What becomes of a request in the mempool -/

/-- The decisions have settled the conflict set of the request. -/
def Settled (decided : List Decision) (w : AddBlockWrapper) : Prop :=
  ∃ d ∈ decided, ∃ abr ∈ d.applied, toConflictSetID abr = toConflictSetID w.abr

theorem get_stored (hL : L.Faithful) {m : Mempool} (hm : m.Keyed L) (abr : AddBlockRequest)
    {id : Cid} (hw : m.get id = some w) : (Snowballer.stored L m abr).get id = some w := by
  unfold Snowballer.stored
  rw [Mempool.get_add]
  split
  · next heq =>
    -- the same CID: it is the same request
    obtain ⟨hcid, hid⟩ := hm id w hw
    have habr : w.abr = abr := by
      have hnode := hL.injective (hid.trans heq)
      cases hnode
      rfl
    rw [← habr, hid, ← hcid]
  · exact hw

/-- **One event**: the request is still there, or the event has settled it. -/
theorem pooled_step (hL : E.L.Faithful) {e : Node.Event} (hpool : s.node.mempool.Wf E.L)
    (hact : TracedNode.act E s (.event e) = some s') :
    s'.node.mempool.Wf E.L ∧ ∃ later, s'.history.decided = s.history.decided ++ later ∧
      ∀ id w, s.node.mempool.get id = some w →
        s'.node.mempool.get id = some w ∨ Settled later w := by
  obtain ⟨n, hn, rfl⟩ := TracedNode.act_event hact
  by_cases hext : e.external = true
  · have hdecided : (TracedNode.record E.L s.node s.history (.event e)).decided =
        s.history.decided ++ [] := by
      rw [List.append_nil]
      cases e <;> first | rfl | cases hext
    rcases (WholeSigner.sameRound_step hext hn).mempool with hm | ⟨abr, hm⟩
    · refine ⟨by rw [hm]; exact hpool, [], hdecided, fun id w hw => Or.inl ?_⟩
      rw [hm]
      exact hw
    · refine ⟨by rw [hm]; exact Mempool.wf_add hpool rfl, [], hdecided, fun id w hw => Or.inl ?_⟩
      rw [hm]
      exact get_stored hL hpool.keyed abr hw
  · cases e with
    | startSnowball =>
      have hm : n.mempool = s.node.mempool := by
        cases Node.eventStep_of_step hn <;> rfl
      refine ⟨by rw [hm]; exact hpool, [], (List.append_nil _).symm, fun id w hw => Or.inl ?_⟩
      rw [hm]
      exact hw
    | snowballerDone cp =>
      obtain ⟨-, hdone⟩ := step_snowballerDone hn
      refine ⟨(WholeSigner.pool_handleSnowballerDone hL hpool hdone).1, _, rfl, ?_⟩
      obtain ⟨state, n₁, abrs, inflight, promotions, hstate, hnames, rfl⟩ :=
        handleSnowballerDone_ok hdone
      obtain ⟨heap, roundCache, rfl⟩ := (looked_previousState hstate).frame
      intro id w hw
      by_cases hset : ∀ d ∈ abrs.map (·.1), ∀ b, s.node.mempool.get d = some b →
          toConflictSetID w.abr ≠ toConflictSetID b.abr
      · exact Or.inl ((Mempool.get_bulkDelete_iff hL _ hpool).mpr ⟨hw, hset⟩)
      · push Not at hset
        obtain ⟨d, hd, b, hb, heq⟩ := hset
        obtain ⟨named, hnamed, rfl⟩ := List.mem_map.mp hd
        cases (get_of_named hnames hnamed).symm.trans hb
        refine Or.inr ⟨_, List.mem_singleton_self _, named.2.abr, ?_, heq.symm⟩
        show named.2.abr ∈ TracedNode.applied E.L s.node cp
        rw [TracedNode.applied, applied_eq hnames]
        exact List.mem_map_of_mem hnamed
    | _ => exact absurd rfl hext

theorem pool_reach (hL : E.L.Faithful) {ok : TracedNode → Action → Bool}
    (h : (TracedNode.system E).Reach ok s) : s.node.mempool.Wf E.L := by
  refine System.Reach.invariant (P := fun s => s.node.mempool.Wf E.L) Mempool.wf_new ?_ h
  intro s a s' hs _ hact
  cases a with
  | event e => exact (pooled_step hL hs hact).1
  | crash =>
    obtain ⟨n, hn, rfl⟩ := TracedNode.act_crash hact
    obtain ⟨height, -, hpure⟩ := bind_eq_ok.mp hn
    obtain rfl := pure_eq_ok.mp hpure
    exact Mempool.wf_new

/-- The request is in the mempool, or has been settled since the decisions `base`. -/
def Tracked (base : List Decision) (id : Cid) (w : AddBlockWrapper) (s : TracedNode) : Prop :=
  ∃ later, s.history.decided = base ++ later ∧
    (s.node.mempool.get id = some w ∨ Settled later w)

theorem Settled.append {later : List Decision} (h : Settled later w) (more : List Decision) :
    Settled (later ++ more) w := by
  obtain ⟨d, hd, habr⟩ := h
  exact ⟨d, List.mem_append_left _ hd, habr⟩

theorem Tracked.step (hL : E.L.Faithful) {base : List Decision} {id : Cid} {e : Node.Event}
    (h : Tracked base id w s) (hpool : s.node.mempool.Wf E.L)
    (hact : TracedNode.act E s (.event e) = some s') : Tracked base id w s' := by
  obtain ⟨later, hbase, hw⟩ := h
  obtain ⟨-, more, hmore, hstep⟩ := pooled_step hL hpool hact
  refine ⟨later ++ more, by rw [hmore, hbase, List.append_assoc], ?_⟩
  rcases hw with hw | hsettled
  · refine (hstep id w hw).imp_right ?_
    rintro ⟨d, hd, habr⟩
    exact ⟨d, List.mem_append_right _ hd, habr⟩
  · exact Or.inr (hsettled.append more)

/-- The signer goes on. -/
def noCrash (_ : TracedNode) : Action → Bool
  | .crash => false
  | .event _ => true

/--
**An accepted request is not lost.**

From any reachable state, whatever follows short of a crash: a request that is in the mempool is
there until a request of its conflict set is applied, this one or another.
-/
theorem pooled_until_settled {E : Env} (hL : E.L.Faithful) {ok : TracedNode → Action → Bool}
    {s s' : TracedNode} (h : (TracedNode.system E).Reach ok s) {actions : List Action}
    (hrun : (TracedNode.system E).runFrom noCrash s actions = some s') {id : Cid}
    {w : AddBlockWrapper} (hw : s.node.mempool.get id = some w) :
    Tracked s.history.decided id w s' := by
  refine (System.runFrom_invariant (P := fun t => t.node.mempool.Wf E.L ∧
    Tracked s.history.decided id w t) ?_ ⟨pool_reach hL h, ?_⟩ hrun).2
  · rintro t (e | _) t' ⟨hpool, htracked⟩ hok hact
    · exact ⟨(pooled_step hL hpool hact).1, htracked.step hL hpool hact⟩
    · cases hok
  · exact ⟨[], (List.append_nil _).symm, Or.inl hw⟩

namespace ChainsExample

open RunExample (abr)
open EquivocationExample (env)

/-- Two requests for height 0 of one object. -/
def rivals : List Action :=
  [.event (.addBlockRequest (abr 0 1 0) true), .event (.addBlockRequest (abr 0 2 0) true)]

/-- The first is decided. -/
def decision : List Action :=
  [.event .startSnowball, .event (.snowballerDone
    { height := 0, addBlockRequests := [(env.L.cidOf (.addBlockRequest (abr 0 1 0))).bytes] })]

/-- The second request is not in the mempool any more: its conflict set is settled. -/
theorem pooled_until_settled_example : ∃ s s' id w,
    (TracedNode.system env).run (fun _ _ => true) rivals = some s ∧
    (TracedNode.system env).runFrom noCrash s decision = some s' ∧
    s.node.mempool.get id = some w ∧ w.abr = abr 0 2 0 ∧ s'.node.mempool.get id = none ∧
    Tracked s.history.decided id w s' := by
  have hrun : ((TracedNode.system env).run (fun _ _ => true) rivals).bind (fun s =>
      ((TracedNode.system env).runFrom noCrash s decision).map fun s' =>
        ((s.node.mempool.get (env.L.cidOf (.addBlockRequest (abr 0 2 0)))).map (·.abr),
          (s'.node.mempool.get (env.L.cidOf (.addBlockRequest (abr 0 2 0)))).isNone)) =
      some (some (abr 0 2 0), true) := by decide +kernel
  obtain ⟨s, hs, hnext⟩ := Option.bind_eq_some_iff.mp hrun
  obtain ⟨s', hs', hv⟩ := Option.map_eq_some_iff.mp hnext
  obtain ⟨hpool, hgone⟩ := Prod.mk.inj hv
  obtain ⟨w, hw, habr⟩ := Option.map_eq_some_iff.mp hpool
  exact ⟨s, s', _, w, hs, hs', hw, habr, Option.isNone_iff_eq_none.mp hgone,
    pooled_until_settled Ipld.sorted_faithful (System.reach_of_run hs) hs' hw⟩

end ChainsExample

end Tupelo

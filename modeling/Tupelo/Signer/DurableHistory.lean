import Tupelo.Signer.ChainContinuity
import Tupelo.Signer.Equivocation

/-!
# One history through crashes

A crash loses the decisions whose rounds have not been stored; the signer decides their heights
again. The decisions it has not lost are one list, and this list explains everything it has
ever confirmed: the round of each height has the checkpoint that stands there and the state after
the decisions up to it. So a confirmed round always builds on the ones confirmed before, whatever
crashes lie between them.

If moreover the goroutines that store promoted requests run in time, every request in the list
extends the chain of its object, so that an object never goes back and never forks from one
confirmed state to a later one.

Both need that heights are written in order, as `Resume` does.
-/

namespace Tupelo

open Infra Node

variable {L : Ipld} {n n' : Node} {decided : List Decision}
variable {s : TracedNode} {E : Env}

/-! ## The decisions that are left -/

theorem Ordered.lt_of_known (ho : Ordered L n) {k : Nat} (h : Known n k) :
    k < n.current.height := by
  rcases h with ⟨r, hr, rfl⟩ | hdata
  · exact ho.heap r hr
  · obtain ⟨b, hb⟩ := Option.ne_none_iff_exists'.mp hdata
    exact (ho.data k b hb).1.lt_current ho

/-- **A crash leaves the decisions below the height at which the signer resumes.** -/
theorem Durable.crash (ho : Ordered L n) (h : Durable L n decided)
    (hn' : initRoundHolder n.dagStore n.dataStore n.pubsub = .ok n') :
    Durable L n' (decided.take n'.current.height) := by
  have ho' := ordered_crash ho hn'
  have hstable := h.stable.crash hn'
  obtain ⟨height, hheight, hpure⟩ := bind_eq_ok.mp hn'
  obtain rfl := pure_eq_ok.mp hpure
  have hle : height ≤ decided.length := by
    rcases resumeHeight_eq ho with ⟨-, hr⟩ | ⟨last, hlast, hr⟩
    · rw [← Except.ok.inj (hr.symm.trans hheight)]
      exact Nat.zero_le _
    · have hlt : last < n.current.height :=
        ReachedLast.lt_current ho ⟨last, hlast, Nat.le_refl last⟩
      rw [← Except.ok.inj (hr.symm.trans hheight), ← h.height]
      exact hlt
  exact
    { height := (List.length_take_of_le hle).symm
      stable := hstable.congr fun k hk => upTo_take (ho'.lt_of_known hk)
      named := fun d hd => h.named d (List.mem_of_mem_take hd) }

/-! ## Runs -/

theorem record_sublist (L : Ipld) (n : Node) (a : Action) {h h' : History}
    (hsub : List.Sublist h.decided h'.decided) :
    List.Sublist (TracedNode.record L n h a).decided (TracedNode.record L n h' a).decided := by
  unfold TracedNode.record
  split
  · exact hsub.append (List.Sublist.refl _)
  · exact hsub

theorem durable_reach (hL : E.L.Faithful) (h : (TracedNode.system E).Reach inOrder s) :
    ∃ decided, List.Sublist decided s.history.decided ∧ Durable E.L s.node decided := by
  induction h with
  | start => exact ⟨[], List.Sublist.refl _, durable_genesis E.L⟩
  | @step s s' a hs hok hact ih =>
    obtain ⟨decided, hsub, hdurable⟩ := ih
    have ho := ordered_reach hL hs
    cases a with
    | event e =>
      obtain ⟨n, hn, rfl⟩ := TracedNode.act_event hact
      have hdurable' : Durable E.L s.node { s.history with decided }.decided := hdurable
      exact ⟨_, record_sublist E.L s.node (.event e) hsub, hdurable'.step hL hn⟩
    | crash =>
      obtain ⟨n, hn, rfl⟩ := TracedNode.act_crash hact
      exact ⟨_, (List.take_sublist _ _).trans hsub, hdurable.crash ho hn⟩

/--
**Whatever a signer has confirmed is one history.**

At any time of a run with any number of crashes, there is a list of decisions, taken by the signer
in this order, such that every round it has ever confirmed has the checkpoint decided at its
height and the state after the decisions up to it. The next height comes after all of them.
-/
theorem confirmed_rounds_share_history {E : Env} (hL : E.L.Faithful) {s : TracedNode}
    (h : (TracedNode.system E).Reach inOrder s) :
    ∃ decided, List.Sublist decided s.history.decided ∧
      decided.length = s.node.current.height ∧
      ∀ conf ∈ s.node.pubsub, conf.height < decided.length ∧
        IsConfirmation E.L s.node.dagStore decided conf := by
  obtain ⟨decided, hsub, hdurable⟩ := durable_reach hL h
  have hconfirmed := confirmed_reach hL (reach_of_inOrder hL h)
  refine ⟨decided, hsub, hdurable.height.symm, fun conf hconf => ?_⟩
  have hc := hdurable.isConfirmation hconfirmed hconf
  refine ⟨?_, hc⟩
  obtain ⟨completed, -, hheight, ⟨d, hd, -⟩, -⟩ := hc
  rw [hheight]
  exact (List.getElem?_eq_some_iff.mp hd).1

namespace DurableExample

open RunExample (round abr background)
open EquivocationExample (env)

/--
Round 0 is published. Round 1 is decided and lost in a crash, then decided with another request
and published.
-/
noncomputable def lost : List Action :=
  round 0 (abr 0 1 0) ++ background 0 11 ++ round 1 (abr 1 2 1) ++ background 0 3 ++ [.crash]
    ++ round 1 (abr 1 3 1) ++ background 0 11

theorem confirmed_rounds_share_history_example : ∃ s,
    (TracedNode.system env).run inOrder lost = some s ∧
    s.node.pubsub.map (·.height) = [0, 1] ∧ s.history.decided.length = 3 ∧
    ∃ decided, List.Sublist decided s.history.decided ∧
      decided.length = s.node.current.height ∧
      ∀ conf ∈ s.node.pubsub, conf.height < decided.length ∧
        IsConfirmation env.L s.node.dagStore decided conf := by
  have hrun : ((TracedNode.system env).run inOrder lost).map
      (fun s => (s.node.pubsub.map (·.height), s.history.decided.length)) =
        some ([0, 1], 3) := by decide +kernel
  obtain ⟨s, hs, hv⟩ := Option.map_eq_some_iff.mp hrun
  obtain ⟨hpub, hlength⟩ := Prod.mk.inj hv
  exact ⟨s, hs, hpub, hlength,
    confirmed_rounds_share_history Ipld.sorted_faithful (System.reach_of_run hs)⟩

end DurableExample

/-! ## Chains of objects -/

/-- Every request extends the chain of its object, as the decisions before have left it. -/
def Chained (decided : List Decision) : Prop :=
  ∀ k d, decided[k]? = some d →
    ∀ abr ∈ d.applied, Extends (stateNow (decided.take k) abr.objectId) abr

theorem chained_take (h : Chained decided) (k : Nat) : Chained (decided.take k) := by
  intro i d hd
  have hi : i < k := by
    have hlt := (List.getElem?_eq_some_iff.mp hd).1
    rw [List.length_take] at hlt
    omega
  rw [List.getElem?_take_of_lt hi] at hd
  rw [List.take_take, Nat.min_eq_left (Nat.le_of_lt hi)]
  exact h i d hd

theorem chained_concat (h : Chained decided) {d : Decision}
    (hd : ∀ abr ∈ d.applied, Extends (stateNow decided abr.objectId) abr) :
    Chained (decided ++ [d]) := by
  refine forall_getElem?_concat (fun k d' hd' => ?_) ?_
  · have hk := (List.getElem?_eq_some_iff.mp hd').1
    rw [List.take_append_of_le_length (Nat.le_of_lt hk)]
    exact h k d' hd'
  · rw [List.take_left]
    exact hd

/-- The heights are written in order, and promoted requests are stored in time. -/
def steady (L : Ipld) (s : TracedNode) (a : Action) : Bool :=
  inOrder s a && match a with
    | .crash => true
    | .event _ => timely L s a

theorem steady_inOrder {a : Action} (h : steady L s a = true) :
    inOrder s a = true := (Bool.and_eq_true_iff.mp h).1

theorem steady_timely {e : Event} (h : steady L s (.event e) = true) :
    timely L s (.event e) = true := (Bool.and_eq_true_iff.mp h).2

/-- **A decision applies what extends the chains.** -/
theorem chained_record (hpool : PoolExtends n decided) (h : Chained decided) (a : Action) :
    Chained (TracedNode.record L n { decided } a).decided := by
  unfold TracedNode.record
  split
  · exact chained_concat h fun abr habr => applied_extends_state hpool habr
  · exact h

theorem chained_reach (hL : E.L.Faithful) (h : (TracedNode.system E).Reach (steady E.L) s) :
    ∃ decided, List.Sublist decided s.history.decided ∧ Durable E.L s.node decided ∧
      PoolExtends s.node decided ∧ Chained decided := by
  induction h with
  | start =>
    exact ⟨[], List.Sublist.refl _, durable_genesis E.L, poolExtends_genesis,
      fun k d hd => by cases hd⟩
  | @step s s' a hs hok hact ih =>
    obtain ⟨decided, hsub, hdurable, hpool, hchained⟩ := ih
    have ho := ordered_reach hL (hs.mono fun _ _ => steady_inOrder)
    cases a with
    | event e =>
      obtain ⟨n, hn, rfl⟩ := TracedNode.act_event hact
      have hdurable' : Durable E.L s.node { s.history with decided }.decided := hdurable
      exact ⟨_, record_sublist E.L s.node (.event e) hsub, hdurable'.step hL hn,
        poolExtends_step hL hdurable' hpool (steady_timely hok) hn,
        chained_record hpool hchained _⟩
    | crash =>
      obtain ⟨n, hn, rfl⟩ := TracedNode.act_crash hact
      refine ⟨_, (List.take_sublist _ _).trans hsub, hdurable.crash ho hn, ?_,
        chained_take hchained _⟩
      -- the mempool is empty after a crash
      obtain ⟨height, -, hpure⟩ := bind_eq_ok.mp hn
      obtain rfl := pure_eq_ok.mp hpure
      exact poolExtends_genesis

/-! ## The chain of an object -/

/-- The requests of an object that were applied, in their order. -/
def chainOf (decided : List Decision) (obj : Bytes) : List AddBlockRequest :=
  (logAll decided).filter fun abr => abr.objectId = obj

/-- The heights from 0 on, without a gap, each request on the tip of the one before. -/
structure Consecutive (chain : List AddBlockRequest) : Prop where
  heights : chain.map (fun abr => abr.height.toNat) = List.range chain.length
  tips : chain.IsChain fun current next => next.previousTip = current.newTip

theorem chainOf_concat (decided : List Decision) (d : Decision) (obj : Bytes) :
    chainOf (decided ++ [d]) obj =
      chainOf decided obj ++ d.applied.filter fun abr => abr.objectId = obj := by
  unfold chainOf logAll
  rw [List.flatMap_append, List.filter_append, List.flatMap_singleton]

/-- An object is at the end of its chain. -/
theorem stateNow_eq_getLast? (decided : List Decision) (obj : Bytes) :
    stateNow decided obj = (chainOf decided obj).getLast? := by
  unfold stateNow latest chainOf
  rw [List.getLast?_eq_head?_reverse, ← List.filter_reverse, List.head?_filter]

/-- The heights count the requests. -/
theorem Consecutive.height_getLast? {chain : List AddBlockRequest} (h : Consecutive chain)
    {abr : AddBlockRequest} (hlast : chain.getLast? = some abr) :
    chain.length = abr.height.toNat + 1 := by
  obtain ⟨before, rfl⟩ := List.getLast?_eq_some_iff.mp hlast
  have hheights := h.heights
  rw [List.map_append, List.length_append, List.length_singleton, List.range_succ] at hheights
  have hheight : abr.height.toNat = before.length :=
    List.singleton_inj.mp (List.append_inj_right hheights (by simp))
  rw [List.length_append, List.length_singleton, hheight]

/-- The height that comes next is the number of requests so far. -/
theorem Consecutive.height_eq {chain : List AddBlockRequest} (h : Consecutive chain)
    {abr : AddBlockRequest} (hext : Extends chain.getLast? abr) :
    abr.height.toNat = chain.length := by
  cases hlast : chain.getLast? with
  | none =>
    rw [hlast] at hext
    have hzero : abr.height = 0 := hext
    rw [List.getLast?_eq_none_iff.mp hlast, hzero]
    rfl
  | some last =>
    rw [hlast] at hext
    rw [h.height_getLast? hlast]
    exact hext.1

theorem Consecutive.concat {chain : List AddBlockRequest} (h : Consecutive chain)
    {abr : AddBlockRequest} (hext : Extends chain.getLast? abr) :
    Consecutive (chain ++ [abr]) where
  heights := by
    rw [List.map_append, h.heights, List.map_singleton, h.height_eq hext, List.length_append,
      List.length_singleton, List.range_succ]
  tips := by
    refine List.isChain_append.mpr ⟨h.tips, List.isChain_singleton _, ?_⟩
    intro current hcurrent next hnext
    have hnext' : abr = next := Option.some.inj hnext
    rw [Option.mem_def.mp hcurrent] at hext
    rw [← hnext']
    exact hext.2

/-- The start of a chain is one too. -/
theorem Consecutive.of_start {chain chain' : List AddBlockRequest} (h : Consecutive chain')
    (hstart : chain <+: chain') : Consecutive chain := by
  obtain ⟨later, rfl⟩ := hstart
  refine ⟨?_, (List.isChain_append.mp h.tips).1⟩
  have hheights := h.heights
  rw [List.map_append, List.length_append, List.range_add] at hheights
  exact List.append_inj_left hheights (by simp)

/-! ## Decisions without conflicts -/

/-- No decision applies two requests of one conflict set. -/
def ConflictFree (decided : List Decision) : Prop :=
  ∀ d ∈ decided, (d.applied.map toConflictSetID).Nodup

theorem applied_of_resolves {n : Node} {cp : Checkpoint} {ws : List AddBlockWrapper}
    (h : List.Forall₂ (Mempool.Resolves L n.mempool) cp.addBlockRequests ws) :
    TracedNode.applied L n cp = ws.map (·.abr) := by
  unfold TracedNode.applied
  generalize cp.addBlockRequests = bs at h
  induction h with
  | nil => rfl
  | cons hb _ ih =>
    obtain ⟨id, hid, hget⟩ := hb
    rw [List.filterMap_cons, hid, List.map_cons, ← ih]
    simp [Except.toOption, hget]

theorem conflictFree_reach {ok : TracedNode → Action → Bool}
    (h : (TracedNode.system E).Reach ok s) : ConflictFree s.history.decided := by
  refine System.Reach.invariant (P := fun s => ConflictFree s.history.decided) ?_ ?_ h
  · intro d hd
    cases hd
  · intro s a s' hs _ hact
    cases a with
    | crash =>
      obtain ⟨n, -, rfl⟩ := TracedNode.act_crash hact
      exact hs
    | event e =>
      obtain ⟨n, hn, rfl⟩ := TracedNode.act_event hact
      cases e with
      | snowballerDone cp =>
        obtain ⟨hvote, -⟩ := step_snowballerDone hn
        obtain ⟨-, ws, hres, hnodup⟩ := Mempool.nilsVote_false_iff.mp hvote
        refine forall_mem_concat hs ?_
        show ((TracedNode.applied E.L s.node cp).map toConflictSetID).Nodup
        rw [applied_of_resolves hres, List.map_map]
        exact hnodup
      | _ => exact hs

/-- A decision has at most one request of an object: all of them extend the same one. -/
theorem applied_filter {obj : Bytes} {d : Decision} {current : Option AddBlockRequest}
    (hfree : (d.applied.map toConflictSetID).Nodup)
    (hext : ∀ abr ∈ d.applied, abr.objectId = obj → Extends current abr) :
    (d.applied.filter fun abr => abr.objectId = obj) = [] ∨
      ∃ abr, (d.applied.filter fun abr => abr.objectId = obj) = [abr] ∧ Extends current abr := by
  have hmem : ∀ abr ∈ d.applied.filter (fun abr => abr.objectId = obj),
      abr.objectId = obj ∧ Extends current abr := by
    intro abr habr
    obtain ⟨hin, hobj⟩ := List.mem_filter.mp habr
    exact ⟨of_decide_eq_true hobj, hext abr hin (of_decide_eq_true hobj)⟩
  have hnodup : ((d.applied.filter fun abr => abr.objectId = obj).map toConflictSetID).Nodup :=
    hfree.sublist (List.filter_sublist.map _)
  match hlist : d.applied.filter (fun abr => abr.objectId = obj) with
  | [] => exact Or.inl hlist
  | [abr] =>
    rw [hlist] at hmem
    exact Or.inr ⟨abr, hlist, (hmem abr (List.mem_singleton_self _)).2⟩
  | a :: b :: rest =>
    exfalso
    rw [hlist] at hmem hnodup
    obtain ⟨hobja, hexta⟩ := hmem a List.mem_cons_self
    obtain ⟨hobjb, hextb⟩ := hmem b (List.mem_cons_of_mem _ List.mem_cons_self)
    have hsame : toConflictSetID a = toConflictSetID b := by
      unfold toConflictSetID
      rw [hobja, hobjb, extends_height_eq hexta hextb]
    have hnot := (List.nodup_cons.mp hnodup).1
    exact hnot (by rw [hsame]; exact List.mem_cons_self)

/-- **The chain of an object has every height once.** -/
theorem Chained.consecutive (h : Chained decided) (hfree : ConflictFree decided) (obj : Bytes) :
    Consecutive (chainOf decided obj) := by
  induction decided using List.reverseRecOn with
  | nil => exact ⟨rfl, List.isChain_nil⟩
  | append_singleton decided d ih =>
    have hbefore : Chained decided := by
      have htake := chained_take h decided.length
      rwa [List.take_left] at htake
    have ih' := ih hbefore fun d hd => hfree d (List.mem_append_left _ hd)
    have hext : ∀ abr ∈ d.applied, abr.objectId = obj →
        Extends (chainOf decided obj).getLast? abr := by
      intro abr habr hobj
      have hnow := h decided.length d List.getElem?_concat_length abr habr
      rw [List.take_left, hobj, stateNow_eq_getLast?] at hnow
      exact hnow
    have hlast := hfree d (List.mem_append_right _ (List.mem_singleton_self _))
    rw [chainOf_concat]
    rcases applied_filter hlast hext with hnil | ⟨abr, hone, hnext⟩
    · rw [hnil, List.append_nil]
      exact ih'
    · rw [hone]
      exact ih'.concat hnext

/-! ## From one confirmed state to the next -/

/--
The history behind what a signer has confirmed: decisions that it has made, which explain every
confirmation, and in which the requests of each object are a chain.
-/
structure ConfirmedHistory (L : Ipld) (s : TracedNode) (decided : List Decision) : Prop where
  sub : List.Sublist decided s.history.decided
  confirmed : ∀ conf ∈ s.node.pubsub, IsConfirmation L s.node.dagStore decided conf
  chains : ∀ obj, Consecutive (chainOf decided obj)

theorem history_reach (hL : E.L.Faithful) (h : (TracedNode.system E).Reach (steady E.L) s) :
    ∃ decided, ConfirmedHistory E.L s decided ∧ PoolExtends s.node decided := by
  obtain ⟨decided, hsub, hdurable, hpool, hchained⟩ := chained_reach hL h
  have hconfirmed := confirmed_reach hL (reach_of_inOrder hL (h.mono fun _ _ => steady_inOrder))
  have hfree : ConflictFree decided := fun d hd => conflictFree_reach h d (hsub.subset hd)
  exact ⟨decided, ⟨hsub, fun conf hconf => hdurable.isConfirmation hconfirmed hconf,
    hchained.consecutive hfree⟩, hpool⟩

/--
In this history the chain of the object leads from the first to the second: they are the ends of
two parts of it from its beginning, of which the second goes on from the first.
-/
def Descends (decided : List Decision) (obj : Bytes) (current next : Option AddBlockRequest) :
    Prop :=
  ∃ chain chain', chain <+: chain' ∧ chain' <+: chainOf decided obj ∧
    chain.getLast? = current ∧ chain'.getLast? = next

/-- A chain that goes on goes up. -/
theorem Descends.height_lt {obj : Bytes} {a b : AddBlockRequest}
    (h : Descends decided obj (some a) (some b)) (hchain : Consecutive (chainOf decided obj)) :
    a = b ∨ a.height.toNat < b.height.toNat := by
  obtain ⟨chain, chain', hle, hstart, ha, hb⟩ := h
  have hchain' := hchain.of_start hstart
  have hlen := (hchain'.of_start hle).height_getLast? ha
  have hlen' := hchain'.height_getLast? hb
  rcases hle.length_le.eq_or_lt with heq | hlt
  · obtain rfl := hle.eq_of_length heq
    exact Or.inl (Option.some.inj (ha.symm.trans hb))
  · exact Or.inr (by omega)

/-- More decisions, longer chains. -/
theorem chainOf_start {decided' : List Decision} (h : decided <+: decided') (obj : Bytes) :
    chainOf decided obj <+: chainOf decided' obj := by
  obtain ⟨later, rfl⟩ := h
  unfold chainOf logAll
  rw [List.flatMap_append, List.filter_append]
  exact List.prefix_append _ _

/-- **An object never goes back.** -/
theorem descends_stateAt (decided : List Decision) {k k' : Nat} (hle : k ≤ k') (obj : Bytes) :
    Descends decided obj (stateAt decided k obj) (stateAt decided k' obj) := by
  have htake : decided.take (k + 1) <+: decided.take (k' + 1) :=
    List.take_prefix_take_left (Nat.succ_le_succ hle)
  exact ⟨_, _, chainOf_start htake obj, chainOf_start (List.take_prefix _ _) obj,
    (stateNow_eq_getLast? _ obj).symm, (stateNow_eq_getLast? _ obj).symm⟩

/-- The confirmation is for a round with this state. -/
def ConfirmsState (L : Ipld) (conf : RoundConfirmation) (hamt : Hamt) : Prop :=
  ∃ completed : Round, conf.roundCid = (L.cidOf (.round completed)).bytes ∧
    completed.stateCid = (L.cidOf (.hamt hamt)).bytes

/-- From one state to the other, every object goes along its chain in the history, or stays. -/
def Advances (L : Ipld) (decided : List Decision) (hamt hamt' : Hamt) : Prop :=
  ∀ obj, ∃ current current',
    hamt.lookup obj = current.map (fun abr => L.cidOf (.addBlockRequest abr)) ∧
    hamt'.lookup obj = current'.map (fun abr => L.cidOf (.addBlockRequest abr)) ∧
    Descends decided obj current current'

theorem IsConfirmation.exists_state {store : DagStore} {conf : RoundConfirmation}
    (h : IsConfirmation L store decided conf) :
    ∃ hamt, ConfirmsState L conf hamt ∧ IsState L decided conf.height hamt := by
  obtain ⟨completed, hcid, hheight, -, hamt, hstate, his, -⟩ := h
  rw [hheight]
  exact ⟨hamt, ⟨completed, hcid, hstate⟩, his⟩

/--
**Objects advance along their chains from each confirmed state to every later one.**

Whatever crashes a signer has been through, one list of decisions is behind all it has confirmed,
and in it the requests of every object have the heights 0, 1, 2 and so on, each on the tip of the
one before. Take any two confirmations. Every object has, in the state of the later height, the
request of the earlier state or one that comes after it in this chain.
-/
theorem confirmed_states_advance {E : Env} (hL : E.L.Faithful) {s : TracedNode}
    (h : (TracedNode.system E).Reach (steady E.L) s) :
    ∃ decided, ConfirmedHistory E.L s decided ∧
      ∀ conf ∈ s.node.pubsub, ∀ conf' ∈ s.node.pubsub, conf.height ≤ conf'.height →
        ∃ hamt hamt', ConfirmsState E.L conf hamt ∧ ConfirmsState E.L conf' hamt' ∧
          Advances E.L decided hamt hamt' := by
  obtain ⟨decided, hhistory, -⟩ := history_reach hL h
  refine ⟨decided, hhistory, fun conf hconf conf' hconf' hle => ?_⟩
  obtain ⟨hamt, hc, hstate⟩ := (hhistory.confirmed conf hconf).exists_state
  obtain ⟨hamt', hc', hstate'⟩ := (hhistory.confirmed conf' hconf').exists_state
  exact ⟨hamt, hamt', hc, hc',
    fun obj => ⟨_, _, hstate obj, hstate' obj, descends_stateAt decided hle obj⟩⟩

theorem DurableExample.confirmed_states_advance_example : ∃ s conf conf' decided hamt hamt',
    (TracedNode.system EquivocationExample.env).run (steady Ipld.sorted) lost = some s ∧
    conf ∈ s.node.pubsub ∧ conf' ∈ s.node.pubsub ∧ conf.height = 0 ∧ conf'.height = 1 ∧
    ConfirmedHistory Ipld.sorted s decided ∧
    ConfirmsState Ipld.sorted conf hamt ∧ ConfirmsState Ipld.sorted conf' hamt' ∧
    Advances Ipld.sorted decided hamt hamt' := by
  have hrun : ((TracedNode.system EquivocationExample.env).run (steady Ipld.sorted) lost).map
      (fun s => s.node.pubsub.map (·.height)) = some [0, 1] := by decide +kernel
  obtain ⟨s, hs, hpub⟩ := Option.map_eq_some_iff.mp hrun
  obtain ⟨conf, hconf, h0⟩ := List.mem_map.mp (show 0 ∈ s.node.pubsub.map (·.height) by
    rw [hpub]
    decide)
  obtain ⟨conf', hconf', h1⟩ := List.mem_map.mp (show 1 ∈ s.node.pubsub.map (·.height) by
    rw [hpub]
    decide)
  obtain ⟨decided, hhistory, hadv⟩ := confirmed_states_advance (E := EquivocationExample.env)
    Ipld.sorted_faithful (System.reach_of_run hs)
  obtain ⟨hamt, hamt', hc, hc', hobjs⟩ := hadv conf hconf conf' hconf' (by rw [h0, h1]; decide)
  exact ⟨s, conf, conf', decided, hamt, hamt', hs, hconf, hconf', h0, h1, hhistory, hc, hc', hobjs⟩

end Tupelo

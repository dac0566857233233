import Tupelo.Signer.Histories

/-!
# Rounds from the cache and rounds from the store

`roundHolder.Get` finds a round in its cache, as it was when it was decided, or restores it from
the stores. To a caller that looks at the checkpoint or at the state of the round the two are the
same. But `restoreRound` makes a round that has not decided and has not been published; so a
signer that starts again does not publish its last round any more.

`Stable` is the invariant behind the first half. It holds through restarts, as long as no height
is decided for which a round has been stored.
-/

namespace Tupelo

open Infra Node

variable {L : Ipld} {n : Node} {history : Nat → List Decision}
variable {r : PastRound} {s : TracedNode} {E : Env}

/-! ## Runs -/

/-- No height is decided for which a round has been stored. -/
def freshHeights (s : TracedNode) : Action → Bool
  | .event (.snowballerDone _) => (s.node.dataStore (roundKey s.node.current.height)).isNone
  | _ => true

/-- **Every event keeps all rounds of a height at one history.** -/
theorem Stable.step (hL : E.L.Faithful) {n' : Node} {e : Node.Event} (h : Stable E.L s.node history)
    (hok : freshHeights s (.event e) = true) (hstep : s.node.step E e = some n') :
    ∃ history', Stable E.L n' history' := by
  by_cases he : ∃ cp, e = .snowballerDone cp
  · obtain ⟨cp, rfl⟩ := he
    -- the new height is not known yet, so its history may be any
    refine ⟨Function.update history s.node.current.height _,
      h.handleSnowballerDone hL (fun k hk => Function.update_of_ne ?_ _ _)
        (Function.update_self ..) (step_snowballerDone hstep).2⟩
    rintro rfl
    exact hk.elim (Nat.lt_irrefl _) fun hdata => hdata (Option.isNone_iff_eq_none.mp hok)
  · exact ⟨_, h.event hL (not_exists.mp he) hstep⟩

theorem stable_reach (hL : E.L.Faithful) (h : (TracedNode.system E).Reach freshHeights s) :
    ∃ history, Stable E.L s.node history := by
  refine h.invariant (P := fun s => ∃ history, Stable E.L s.node history)
    ⟨_, stable_genesis E.L⟩ ?_
  rintro s a s' ⟨history, hstable⟩ hok hact
  cases a with
  | event e =>
    obtain ⟨n, hn, rfl⟩ := TracedNode.act_event hact
    exact hstable.step hL hok hn
  | crash =>
    obtain ⟨n, hn, rfl⟩ := TracedNode.act_crash hact
    exact ⟨history, hstable.crash hn⟩

/-- It is enough that runs of a kind never come to a height that has been stored. -/
theorem reach_freshHeights {ok : TracedNode → Action → Bool}
    (hnone : ∀ {s}, (TracedNode.system E).Reach ok s →
      s.node.dataStore (roundKey s.node.current.height) = none)
    (h : (TracedNode.system E).Reach ok s) : (TracedNode.system E).Reach freshHeights s := by
  induction h with
  | start => exact .start
  | @step s s' a hs hok hact ih =>
    refine .step a ih ?_ hact
    match a with
    | .event (.snowballerDone cp) => exact Option.isNone_iff_eq_none.mpr (hnone hs)
    | .event (.addBlockRequest _ _) | .event (.promotion _ _) | .event .startSnowball
    | .event (.background _ _ _) | .event (.stream _) | .event (.republish _) => rfl
    | .crash => rfl

/-- A signer that does not crash decides each height once. -/
theorem reach_of_uninterrupted (hL : E.L.Faithful)
    (h : (TracedNode.system E).Reach uninterrupted s) :
    (TracedNode.system E).Reach freshHeights s := by
  refine reach_freshHeights (fun hs => of_not_not fun hdata => ?_) h
  exact Nat.lt_irrefl _ ((durable_uninterrupted hL hs).lt_of_stored hdata)

/-! ## What a caller sees of a round -/

namespace Node

/-- The round that `Get` returns, for a height other than the current one. -/
def found (L : Ipld) (n : Node) (height : Nat) : Option PastRound :=
  (n.get L height).1.bind fun p => (n.get L height).2.heap[p]?

/-- Does `publishCompletedRound` go on after it has put the state? -/
def publishes (E : Env) (n : Node) (p : Nat) (r : PastRound) : Bool :=
  ((n.stepThread E p r 0 true .putState).bind (·.2)).isSome

/-- What `maybeRepublish` does when it has found the previous round. -/
def republished (n : Node) (ok : Bool) (p : Nat) (r : PastRound) : Node :=
  if !r.published then n
  else match n.roundRepublishCache.peek r.height with
    | some conf => if ok then { n with pubsub := n.pubsub ++ [conf] } else n
    | none => { n with threads := n.threads ++ [{ round := p, pc := .putState }] }

theorem maybeRepublish_eq (L : Ipld) (n : Node) (ok : Bool) :
    n.maybeRepublish L ok =
      if n.started then n
      else match n.get L (prevHeight n.current.height) with
        | (none, n) => n
        | (some p, n) =>
          match n.heap[p]? with
          | none => n
          | some r => n.republished ok p r := rfl

theorem publishes_eq (E : Env) (n : Node) (p : Nat) (r : PastRound) :
    n.publishes E p r = r.decided := by
  cases hd : r.decided with
  | false => simp [publishes, stepThread, hd]
  | true => simp [publishes, stepThread, hd]

theorem republished_of_unpublished (h : r.published = false) (n : Node) (ok : Bool) (p : Nat) :
    n.republished ok p r = n := by
  simp [republished, h]

theorem found_of_cached {height p : Nat} (L : Ipld) (hcached : n.roundCache.peek height = some p)
    (hr : n.heap[p]? = some r) : n.found L height = some r := by
  have hget : n.roundCache.get height = (some p, (n.roundCache.get height).2) := by
    rw [← hcached, ← Lru.get_fst]
  unfold found get
  rw [hget]
  exact hr

theorem found_of_restored {height : Nat} (hmiss : n.roundCache.peek height = none)
    (hr : n.restoreRound L height = .ok r) : n.found L height = some r := by
  unfold found
  rw [get_of_restored hmiss hr]
  exact List.getElem?_concat_length

/-- **A round that has to be restored is not published again.** -/
theorem maybeRepublish_of_restored (hmiss : n.roundCache.peek (prevHeight n.current.height) = none)
    (hr : n.restoreRound L (prevHeight n.current.height) = .ok r) (hpub : r.published = false)
    (ok : Bool) : (n.maybeRepublish L ok).pubsub = n.pubsub ∧
      (n.maybeRepublish L ok).threads = n.threads := by
  rw [maybeRepublish_eq, get_of_restored hmiss hr]
  by_cases hstarted : n.started = true
  · rw [if_pos hstarted]
    exact ⟨rfl, rfl⟩
  · rw [if_neg hstarted]
    simp [republished_of_unpublished hpub]

/-- A restored round depends on the stores only. -/
theorem restoreRound_congr {n' : Node} (hdag : n'.dagStore = n.dagStore)
    (hdata : n'.dataStore = n.dataStore) (L : Ipld) (height : Nat) :
    n'.restoreRound L height = n.restoreRound L height := by
  unfold Node.restoreRound
  rw [hdag, hdata]

end Node

/-- The same checkpoint and the same state, at the same height. -/
structure SameRound (L : Ipld) (store : DagStore) (r r' : PastRound) : Prop where
  height : r.height = r'.height
  preferred : L.cidOf (.checkpoint r.preferred) = L.cidOf (.checkpoint r'.preferred)
  find : ∀ objectID, r.state.find store objectID = r'.state.find store objectID

/-- **No caller can tell the one round from the other.** -/
structure Interchangeable (E : Env) (n : Node) (r r' : PastRound) : Prop
    extends SameRound E.L n.dagStore r r' where
  decided : r.decided = r'.decided
  publish : ∀ p q, n.publishes E p r = n.publishes E q r'
  republish : ∀ ok p q, (n.republished ok p r).pubsub = (n.republished ok q r').pubsub ∧
    (n.republished ok p r).threads.length = (n.republished ok q r').threads.length

/-- Rounds that refine one history are the same. -/
theorem sameRound_of_refines (hL : L.Faithful) {store : DagStore} {decided : List Decision}
    {r' : PastRound} (hback : Backed L store decided r.height) (hr : r.Refines L decided)
    (hr' : r'.Refines L decided) (hheight : r.height = r'.height) : SameRound L store r r' := by
  obtain ⟨d, hd, hpref⟩ := hr.checkpoint
  obtain ⟨d', hd', hpref'⟩ := hr'.checkpoint
  rw [← hheight, hd] at hd'
  obtain rfl := Option.some.inj hd'
  have hstore : ∀ objectID abr, stateAt decided r.height objectID = some abr →
      store (L.cidOf (.addBlockRequest abr)) = some (.addBlockRequest abr) := by
    intro objectID abr habr
    rw [stateAt_of_length_le (Nat.le_of_eq hback.length)] at habr
    obtain ⟨dec, hdec, hmem⟩ := List.mem_flatMap.mp (mem_of_latest habr)
    exact hback.kept dec hdec abr hmem
  refine ⟨hheight, by rw [hpref, hpref'], fun objectID => ?_⟩
  rw [hr.state.find_eq hL (hstore objectID)]
  rw [hr'.state.find_eq hL (hheight ▸ hstore objectID), hheight]

/--
**Cached and restored rounds have the same checkpoint and the same state, and are
interchangeable just when the cached one has been restored itself.**

In every run, crashes included, in which no height is decided for which a round has been stored:
for every round that is stored and in the cache, any node on the same stores that does not have
it in its cache restores it.
-/
theorem interchangeable_iff_restored {E : Env} (hL : E.L.Faithful) {s : TracedNode}
    (h : (TracedNode.system E).Reach freshHeights s) {height p : Nat} {r : PastRound}
    (hcached : s.node.roundCache.peek height = some p) (hr : s.node.heap[p]? = some r)
    (hstored : s.node.dataStore (roundKey height) ≠ none) {n' : Node}
    (hdag : n'.dagStore = s.node.dagStore) (hdata : n'.dataStore = s.node.dataStore)
    (hmiss : n'.roundCache.peek height = none) :
    s.node.found E.L height = some r ∧ ∃ r', n'.found E.L height = some r' ∧
      SameRound E.L s.node.dagStore r r' ∧
      (Interchangeable E s.node r r' ↔ r.decided = false) := by
  obtain ⟨history, hstable⟩ := stable_reach hL h
  obtain ⟨r₀, hr₀, hheight⟩ := hstable.cache height p hcached
  obtain rfl := Option.some.inj (hr₀.symm.trans hr)
  subst hheight
  obtain ⟨hrefines, hpub⟩ := hstable.rounds r₀ (List.mem_of_getElem? hr)
  obtain ⟨r', hr', hrefines', hheight', hdecided', hpub'⟩ := hstable.restoreRound hL hstored
  have hsame : SameRound E.L s.node.dagStore r₀ r' :=
    sameRound_of_refines hL (hstable.backed _ (Or.inr hstored)) hrefines hrefines' hheight'.symm
  refine ⟨found_of_cached E.L hcached hr, r', found_of_restored hmiss ?_, hsame, ?_, ?_⟩
  · rw [restoreRound_congr hdag hdata, hr']
  · intro hinter
    rw [hinter.decided, hdecided']
  · intro hdecided
    have hunpublished : r₀.published = false := by
      cases hp : r₀.published with
      | false => rfl
      | true => cases hdecided.symm.trans (hpub hp)
    refine { hsame with decided := by rw [hdecided, hdecided'], publish := ?_, republish := ?_ }
    · intro p q
      rw [publishes_eq, publishes_eq, hdecided, hdecided']
    · intro ok p q
      rw [republished_of_unpublished hunpublished, republished_of_unpublished hpub']
      exact ⟨rfl, rfl⟩

/-! ## A restart after a round has been published -/

namespace RestoredExample

open RunExample

/-- Round 0 is published. -/
noncomputable def published : List Action := round 0 (abr 0 1 0) ++ background 0 11

/-- The signer is started again, and is asked for the round. -/
theorem interchangeable_iff_restored_example : ∃ s₀ s r r',
    (TracedNode.system env).run freshHeights (published ++ [.crash]) = some s₀ ∧
    TracedNode.act env s₀ (.event (.stream 0)) = some s ∧
    s.node.found env.L 0 = some r ∧ s₀.node.found env.L 0 = some r' ∧
    Interchangeable env s.node r r' := by
  have hrun : ((TracedNode.system env).run freshHeights (published ++ [.crash])).map (fun s =>
      (s.node.roundCache.peek 0, s.node.roundCache.size, s.node.current.height,
        (s.node.dataStore (roundKey 0)).isSome)) = some (none, 64, 1, true) := by decide +kernel
  obtain ⟨s₀, hs₀, hv⟩ := Option.map_eq_some_iff.mp hrun
  simp only [Prod.mk.injEq] at hv
  obtain ⟨hmiss, hsize, hheight, hstored⟩ := hv
  have hreach := System.reach_of_run hs₀
  have hsome := Option.isSome_iff_ne_none.mp hstored
  obtain ⟨history, hstable⟩ := stable_reach Ipld.inFull_faithful hreach
  obtain ⟨r, hr, -, -, hdecided, -⟩ := hstable.restoreRound Ipld.inFull_faithful hsome
  have hget := get_of_restored hmiss hr
  obtain ⟨s, hact, hs⟩ : ∃ s, TracedNode.act env s₀ (.event (.stream 0)) = some s ∧
      s.node = (s₀.node.get env.L 0).2 := by
    refine ⟨⟨(s₀.node.handleStream env.L 0).2, s₀.history⟩, rfl, ?_⟩
    unfold handleStream
    rw [hheight]
    rfl
  rw [show s₀.node.get env.L 0 = _ from hget] at hs
  have hcached : s.node.roundCache.peek 0 = some s₀.node.heap.length := by
    rw [hs]
    exact Lru.peek_add_self _ (by rw [hsize]; decide) 0 _
  have hat : s.node.heap[s₀.node.heap.length]? = some r := by
    rw [hs]
    exact List.getElem?_concat_length
  obtain ⟨hfound, r', hr', -, hiff⟩ := interchangeable_iff_restored (E := env)
    Ipld.inFull_faithful (.step (.event (.stream 0)) hreach rfl hact) hcached hat
    (by rw [hs]; exact hsome) (by rw [hs]) (by rw [hs]) hmiss
  exact ⟨s₀, s, r, r', hs₀, hact, hfound, hr', hiff.mpr hdecided⟩

/-- The signer publishes its round again and again before it is restarted, and not after. -/
theorem restart_stops_republishing : ∃ s n' r r',
    (TracedNode.system env).run freshHeights published = some s ∧
    initRoundHolder s.node.dagStore s.node.dataStore s.node.pubsub = .ok n' ∧
    s.node.found env.L 0 = some r ∧ n'.found env.L 0 = some r' ∧
    (r.decided, r.published) = (true, true) ∧ (r'.decided, r'.published) = (false, false) ∧
    s.node.pubsub.length = 1 ∧ (s.node.maybeRepublish env.L true).pubsub.length = 2 ∧
    (n'.maybeRepublish env.L true).pubsub.length = 1 ∧
    (n'.maybeRepublish env.L true).threads.length = 0 ∧
    ¬ Interchangeable env s.node r r' := by
  have hrun : ((TracedNode.system env).run freshHeights published).map (fun s =>
      ((s.node.found env.L 0).map fun r => (r.decided, r.published),
        s.node.pubsub.length, (s.node.maybeRepublish env.L true).pubsub.length,
        (s.node.dataStore (roundKey 0)).isSome, resumeHeight s.node.dataStore)) =
      some (some (true, true), 1, 2, true, .ok 1) := by decide +kernel
  obtain ⟨s, hs, hv⟩ := Option.map_eq_some_iff.mp hrun
  simp only [Prod.mk.injEq] at hv
  obtain ⟨hcached, hpub, hagain, hstored, hresume⟩ := hv
  obtain ⟨r, hr, hrv⟩ := Option.map_eq_some_iff.mp hcached
  obtain ⟨history, hstable⟩ := stable_reach Ipld.inFull_faithful (System.reach_of_run hs)
  obtain ⟨r', hr', -, -, hdecided', hpub'⟩ :=
    hstable.restoreRound Ipld.inFull_faithful (Option.isSome_iff_ne_none.mp hstored)
  obtain ⟨n', hinit, hn'⟩ : ∃ n',
      initRoundHolder s.node.dagStore s.node.dataStore s.node.pubsub = .ok n' ∧
      n' = { Node.genesis with
        current := { height := 1, preferred := none }, dagStore := s.node.dagStore
        dataStore := s.node.dataStore, pubsub := s.node.pubsub } := by
    unfold initRoundHolder
    rw [hresume]
    exact ⟨_, rfl, rfl⟩
  have hrestore : n'.restoreRound env.L 0 = .ok r' := by
    rw [restoreRound_congr (n := s.node) (by rw [hn']) (by rw [hn'])]
    exact hr'
  have hmiss : n'.roundCache.peek 0 = none := by
    rw [hn']
    rfl
  have hprev : prevHeight n'.current.height = 0 := by
    rw [hn']
    rfl
  refine ⟨s, n', r, r', hs, hinit, hr, found_of_restored hmiss hrestore, hrv, ?_, hpub, hagain, ?_⟩
  · rw [hdecided', hpub']
  rw [← hprev] at hmiss hrestore
  obtain ⟨hsent, hthreads⟩ := maybeRepublish_of_restored hmiss hrestore hpub' true
  refine ⟨?_, ?_, fun hinter => ?_⟩
  · rw [hsent, hn']
    exact hpub
  · rw [hthreads, hn']
    rfl
  have hdecided := hinter.decided
  rw [(Prod.mk.inj hrv).1, hdecided'] at hdecided
  cases hdecided

end RestoredExample

end Tupelo

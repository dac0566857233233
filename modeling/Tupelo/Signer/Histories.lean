import Tupelo.Signer.Refinement

/-!
# The histories behind the rounds of a signer

`Stable` says that all rounds of a height refine one history, wherever they are: in the heap, in
the data store or with a goroutine. `history` has, for every height, the decisions that led to
the round of this height. A crash does not change it, and neither does a decision on a height for
which no round has been stored.

`Durable` says that these histories are the starts of one list of decisions, with one for each
height below the current one. Every event keeps this, or appends a decision.
-/

namespace Tupelo

open Infra Node

/-! ## Rounds stay where they are -/

section Heap

variable {E : Env} {n n' : Node}

/-- A position of the heap has a round of the height. -/
def PastAt (n : Node) (p height : Nat) : Prop := ∃ r, n.heap[p]? = some r ∧ r.height = height

theorem PastAt.append {p height : Nat} (h : PastAt n p height) {rs : List PastRound}
    (hheap : n'.heap = n.heap ++ rs) : PastAt n' p height := by
  obtain ⟨r, hr, hheight⟩ := h
  refine ⟨r, ?_, hheight⟩
  rw [hheap]
  exact getElem?_append_of_some hr

theorem PastAt.of_heap_eq {p height : Nat} (h : PastAt n p height) (hheap : n'.heap = n.heap) :
    PastAt n' p height := by
  unfold PastAt
  rw [hheap]
  exact h

theorem PastAt.looked {L : Ipld} {p height : Nat} (h : PastAt n p height) {n₁ : Node}
    (hn₁ : Looked L n n₁) : PastAt n₁ p height := by
  refine hn₁.rule (P := fun n₁ => PastAt n₁ p height) h ?_
  intro k
  rcases get_cases L n k with ⟨q, -, hget⟩ | hget | ⟨r, -, hget⟩
  · rw [hget]
    exact h.of_heap_eq rfl
  · rw [hget]
    exact h
  · rw [hget]
    exact h.append rfl

/-- A goroutine replaces its own round by one of the same height, or no round. -/
theorem Node.ThreadStep.heap_eq {p : Nat} {r : PastRound} {ok : Bool} {pc : Pc}
    {next : Option Pc} (hr : n.heap[p]? = some r) (h : ThreadStep E n p r ok pc n' next) :
    ∃ r', n'.heap = n.heap.set p r' ∧ r'.height = r.height := by
  have hsame : n.heap = n.heap.set p r := by
    obtain ⟨hlt, hget⟩ := List.getElem?_eq_some_iff.mp hr
    rw [← hget, List.set_getElem_self]
  cases h with
  | settle | unpublished | publish => exact ⟨_, rfl, rfl⟩
  | _ => exact ⟨r, hsame, rfl⟩

theorem PastAt.threadStep {p height q : Nat} {r : PastRound} {ok : Bool} {pc : Pc}
    {next : Option Pc} (h : PastAt n p height) (hr : n.heap[q]? = some r)
    (hstep : ThreadStep E n q r ok pc n' next) : PastAt n' p height := by
  obtain ⟨r', hheap, hr'⟩ := hstep.heap_eq hr
  obtain ⟨x, hx, hheight⟩ := h
  obtain ⟨x', hx', rfl | ⟨rfl, rfl⟩⟩ := getElem?_set_of_some r' hr hx
  · exact ⟨x', by rw [hheap, hx'], hheight⟩
  · exact ⟨x', by rw [hheap, hx'], hr'.trans hheight⟩

theorem storeAbr_frame (L : Ipld) (n : Node) (w : AddBlockWrapper) (stored : Bool) :
    (n.storeAbr L w stored).heap = n.heap ∧ (n.storeAbr L w stored).current = n.current := by
  unfold storeAbr
  split <;> exact ⟨rfl, rfl⟩

/-- **No event moves a past round**, or changes its height. -/
theorem PastAt.step {p height : Nat} {e : Event} (h : PastAt n p height)
    (hstep : n.step E e = some n') : PastAt n' p height := by
  cases eventStep_of_step hstep with
  | drop hn₁ | answer hn₁ | tick hn₁ => exact h.looked hn₁
  | await hn₁ => exact (h.looked hn₁).of_heap_eq rfl
  | store hn₁ => exact (h.looked hn₁).of_heap_eq (storeAbr_frame ..).1
  | promote => exact h.of_heap_eq (storeAbr_frame ..).1
  | running | start => exact h
  | decided hdone =>
    obtain ⟨state, n₁, abrs, inflight, promotions, hstate, -, rfl⟩ :=
      handleSnowballerDone_ok hdone
    exact (h.looked (looked_previousState hstate)).append rfl
  | background ht hr hth => exact (h.threadStep hr hth).of_heap_eq (by rw [setThread_eq])
  | republish hget | spawn hget => exact (h.looked (Looked.of_get hget)).of_heap_eq rfl

theorem height_looked {L : Ipld} {n₁ : Node} (hn₁ : Looked L n n₁) :
    n₁.current.height = n.current.height := by
  obtain ⟨heap, roundCache, rfl⟩ := hn₁.frame
  rfl

/-- Only a decision moves on to the next height. -/
theorem current_height_step {e : Event} (hstep : n.step E e = some n')
    (he : ∀ cp, e ≠ .snowballerDone cp) : n'.current.height = n.current.height := by
  cases eventStep_of_step hstep with
  | drop hn₁ | await hn₁ | answer hn₁ | tick hn₁ => exact (height_looked hn₁ :)
  | store hn₁ =>
    rw [(storeAbr_frame ..).2]
    exact height_looked hn₁
  | promote => rw [(storeAbr_frame ..).2]
  | running | start => rfl
  | decided => exact absurd rfl (he _)
  | background ht hr hth => rw [setThread_eq, hth.frame.2.1]
  | republish hget | spawn hget => exact (height_looked (Looked.of_get hget) :)

theorem height_handleSnowballerDone {L : Ipld} {cp : Checkpoint}
    (h : n.handleSnowballerDone L cp = .ok n') :
    n'.current.height = n.current.height + 1 := by
  obtain ⟨state, n₁, abrs, inflight, promotions, hstate, -, rfl⟩ := handleSnowballerDone_ok h
  show n₁.current.height + 1 = _
  rw [height_looked (looked_previousState hstate)]

/-- A decision leaves the round at the end of the heap. -/
theorem pastAt_decided {cp : Checkpoint} (h : n.step E (.snowballerDone cp) = some n') :
    PastAt n' (n'.heap.length - 1) n.current.height := by
  obtain ⟨state, n₁, abrs, inflight, promotions, hstate, -, rfl⟩ :=
    handleSnowballerDone_ok (step_snowballerDone h).2
  rw [← height_looked (looked_previousState hstate)]
  exact ⟨_, List.getLast?_eq_getElem?.symm.trans List.getLast?_concat, rfl⟩

end Heap

/-! ## One history for each height -/

/-- The requests that the history has applied are in the store. -/
structure Backed (L : Ipld) (store : DagStore) (decided : List Decision) (height : Nat) :
    Prop where
  length : decided.length = height + 1
  kept : ∀ d ∈ decided, ∀ abr ∈ d.applied, Holds L store (.addBlockRequest abr)

/-- There is a round of this height, in the heap or in the data store. -/
def Known (n : Node) (height : Nat) : Prop :=
  (∃ r ∈ n.heap, r.height = height) ∨ n.dataStore (roundKey height) ≠ none

/-- The round that a goroutine has completed is of this height. -/
def Pc.Of (height : Nat) : Pc → Prop
  | .addRound completed => completed.height = height
  | .putHeight completed => completed.height = height
  | .putRound completed => completed.height = height
  | .confirm completed => completed.height = height
  | _ => True

/-- **All rounds of a height refine one history.** -/
structure Stable (L : Ipld) (n : Node) (history : Nat → List Decision) : Prop where
  addressed : n.dagStore.Addressed L
  pool : n.mempool.Wf L
  poolKept : ∀ id w, n.mempool.get id = some w → Holds L n.dagStore (.addBlockRequest w.abr)
  rounds : ∀ r ∈ n.heap, r.Refines L (history r.height) ∧ (r.published = true → r.decided = true)
  backed : ∀ height, Known n height → Backed L n.dagStore (history height) height
  heights : ∀ r ∈ n.heap, r.height < n.current.height ∨ n.dataStore (roundKey r.height) ≠ none
  cache : ∀ height p, n.roundCache.peek height = some p →
    ∃ r, n.heap[p]? = some r ∧ r.height = height
  threads : ∀ t ∈ n.threads, ∃ r, n.heap[t.round]? = some r ∧ r.decided = true ∧
    t.pc.Of r.height ∧ PcInv L n.dagStore (history r.height) r t.pc
  data : ∀ height b, n.dataStore (roundKey height) = some b →
    ∃ completed, b = (L.cidOf (.round completed)).bytes ∧ completed.height = height ∧
      IsCompleted L n.dagStore (history height) completed ∧ Holds L n.dagStore (.round completed)

theorem stable_genesis (L : Ipld) : Stable L Node.genesis fun _ => [] where
  addressed := fun _ _ h => by cases h
  pool := Mempool.wf_new
  poolKept := fun _ _ h => by simp [Node.genesis, Mempool.new, Mempool.get] at h
  rounds := fun _ h => by cases h
  backed := by
    rintro height (⟨r, hr, -⟩ | hdata)
    · cases hr
    · exact absurd rfl hdata
  heights := fun _ h => by cases h
  cache := fun _ _ h => by cases h
  threads := fun _ h => by cases h
  data := fun _ _ h => by cases h

variable {L : Ipld} {n : Node} {history : Nat → List Decision}
variable {height k : Nat} {state : GlobalState} {n₁ : Node}

/-! ## Looking up a round -/

/-- What is stored is restored, and refines the history of its height. -/
theorem Stable.restoreRound (hL : L.Faithful) (h : Stable L n history)
    (hstored : n.dataStore (roundKey height) ≠ none) :
    ∃ r, n.restoreRound L height = .ok r ∧ r.Refines L (history height) ∧ r.height = height ∧
      r.decided = false ∧ r.published = false := by
  obtain ⟨b, hb⟩ := Option.ne_none_iff_exists'.mp hstored
  obtain ⟨completed, rfl, hheight, hc, hround⟩ := h.data height b hb
  exact restoreRound_of_completed hL hb hheight hc hround

/-- One more round. -/
theorem Stable.push (h : Stable L n history) {r : PastRound}
    (hr : r.Refines L (history r.height)) (hpub : r.published = true → r.decided = true)
    (hbacked : Backed L n.dagStore (history r.height) r.height)
    (hheight : r.height < n.current.height ∨ n.dataStore (roundKey r.height) ≠ none) :
    Stable L { n with
      heap := n.heap ++ [r]
      roundCache := n.roundCache.add r.height n.heap.length } history :=
  { h with
    rounds := forall_mem_concat h.rounds ⟨hr, hpub⟩
    backed := by
      rintro height (⟨x, hx, rfl⟩ | hdata)
      · rcases List.mem_append.mp hx with hx | hx
        · exact h.backed _ (Or.inl ⟨x, hx, rfl⟩)
        · rw [List.mem_singleton.mp hx]
          exact hbacked
      · exact h.backed _ (Or.inr hdata)
    heights := forall_mem_concat h.heights hheight
    cache := cache_push h.cache r
    threads := by
      intro t ht
      obtain ⟨r', hr', hpc⟩ := h.threads t ht
      exact ⟨r', getElem?_append_of_some hr', hpc⟩ }

theorem Stable.get (hL : L.Faithful) (h : Stable L n history) (height : Nat) :
    Stable L (n.get L height).2 history ∧ ∀ p, (n.get L height).1 = some p →
      ∃ r, (n.get L height).2.heap[p]? = some r ∧ r.height = height := by
  rcases get_cases L n height with ⟨p, hp, heq⟩ | heq | ⟨r, hr, heq⟩
  · rw [heq]
    refine ⟨{ h with cache := ?_ }, ?_⟩
    · intro k q hq
      rw [Lru.peek_get] at hq
      exact h.cache k q hq
    · intro q hq
      rw [← Option.some.inj hq]
      exact h.cache height p hp
  · rw [heq]
    exact ⟨h, fun p hp => by cases hp⟩
  · rw [heq]
    obtain ⟨b, -, hb, -⟩ := restoreRound_ok hr
    have hstored : n.dataStore (roundKey height) ≠ none := by simp [hb]
    obtain ⟨r', hr', hrefines, hheight, hd, hp⟩ := h.restoreRound hL hstored
    obtain rfl := Except.ok.inj (hr'.symm.trans hr)
    subst hheight
    refine ⟨h.push hrefines (fun htrue => ?_) (h.backed _ (Or.inr hstored)) (Or.inr hstored), ?_⟩
    · cases htrue.symm.trans hp
    · intro p hp
      rw [← Option.some.inj hp]
      exact ⟨r', by simp, rfl⟩

theorem Stable.looked (hL : L.Faithful) (h : Stable L n history) (hn₁ : Looked L n n₁) :
    Stable L n₁ history :=
  hn₁.rule (P := fun n₁ => Stable L n₁ history) h fun height => (h.get hL height).1

/-! ## Requests -/

/-- The store keeps what it has, and gets more. -/
theorem Stable.grow (h : Stable L n history) {store : DagStore} (haddressed : store.Addressed L)
    (hholds : ∀ x, Holds L n.dagStore x → Holds L store x) :
    Stable L { n with dagStore := store } history := by
  have hg : ∀ decided, Grown L n.dagStore decided store decided :=
    fun decided => ⟨hholds, List.prefix_rfl⟩
  exact
    { h with
      addressed := haddressed
      poolKept := fun id w hw => hholds _ (h.poolKept id w hw)
      backed := by
        intro height hknown
        obtain ⟨hlength, hkept⟩ := h.backed height hknown
        exact ⟨hlength, fun d hd abr habr => hholds _ (hkept d hd abr habr)⟩
      threads := by
        intro t ht
        obtain ⟨r, hr, hd, hof, hpc⟩ := h.threads t ht
        exact ⟨r, hr, hd, hof, (hg _).pcInv (h.rounds r (List.mem_of_getElem? hr)).1 hpc⟩
      data := by
        intro height b hb
        obtain ⟨completed, hcid, hheight, hc, hround⟩ := h.data height b hb
        exact ⟨completed, hcid, hheight, (hg _).isCompleted hc, hholds _ hround⟩ }

theorem Stable.addNode (hL : L.Faithful) (h : Stable L n history) (x : DagNode) :
    Stable L (n.addNode L x) history :=
  h.grow (DagStore.addressed_add h.addressed x) fun _ => DagStore.add_of_mem hL h.addressed x

theorem Stable.storeAbr (hL : L.Faithful) (h : Stable L n history) (w : AddBlockWrapper)
    (stored : Bool) : Stable L (n.storeAbr L w stored) history := by
  cases stored with
  | false => exact h
  | true =>
    have hadd := h.addNode hL (.addBlockRequest w.abr)
    refine { hadd with pool := Mempool.wf_add h.pool rfl, poolKept := ?_ }
    intro id v hv
    rw [show (n.storeAbr L w true).mempool = n.mempool.add L
      { w with cid := L.cidOf (.addBlockRequest w.abr) } from rfl, Mempool.get_add] at hv
    split at hv
    · rw [← Option.some.inj hv]
      exact DagStore.add_self L n.dagStore (.addBlockRequest w.abr)
    · exact hadd.poolKept id v hv

/-! ## A decision -/

/-- The history up to the height before. -/
def before (history : Nat → List Decision) : Nat → List Decision
  | 0 => []
  | height + 1 => history height

/-- The state after decisions for all heights so far. The store has the requests they applied. -/
structure After (L : Ipld) (n : Node) (decided : List Decision) (state : GlobalState) :
    Prop where
  length : decided.length = n.current.height
  represents : state.Represents L (stateNow decided)
  kept : ∀ d ∈ decided, ∀ abr ∈ d.applied, Holds L n.dagStore (.addBlockRequest abr)

theorem After.find (hL : L.Faithful) {decided : List Decision} (h : After L n decided state)
    (obj : Bytes) : state.find n.dagStore obj = .ok (stateNow decided obj) := by
  refine h.represents.find_eq hL fun abr habr => ?_
  obtain ⟨d, hd, hmem⟩ := List.mem_flatMap.mp (mem_of_latest habr)
  exact h.kept d hd abr hmem

/-- The round before has the state after its history. -/
theorem Stable.find_previous (hL : L.Faithful) (h : Stable L n history) (h0 : n.current.height ≠ 0)
    {p : Nat} (hget : n.get L (n.current.height - 1) = (some p, n₁)) :
    ∃ r, n₁.heap[p]? = some r ∧ After L n (before history n.current.height) r.state := by
  obtain ⟨hstable, hfound⟩ := h.get hL (n.current.height - 1)
  rw [hget] at hstable hfound
  obtain ⟨r, hr, hheight⟩ := hfound p rfl
  have hmem := List.mem_of_getElem? hr
  obtain ⟨hlength, hkept⟩ := hstable.backed _ (Or.inl ⟨r, hmem, rfl⟩)
  have hrep := (hstable.rounds r hmem).1.state
  rw [stateAt_of_length_le (Nat.le_of_eq hlength)] at hrep
  rw [(Looked.of_get hget).dagStore] at hkept
  have hbefore : before history n.current.height = history r.height := by
    obtain ⟨k, hk⟩ := Nat.exists_eq_succ_of_ne_zero h0
    rw [hheight, hk]
    rfl
  refine ⟨r, hr, ?_⟩
  rw [hbefore]
  exact ⟨by omega, hrep, hkept⟩

theorem Stable.previousState (hL : L.Faithful) (h : Stable L n history)
    (hstate : n.previousState L = .ok (state, n₁)) :
    After L n (before history n.current.height) state := by
  rcases previousState_ok hstate with ⟨h0, rfl, rfl⟩ | ⟨h0, p, r, hget, hr, rfl⟩
  · rw [h0]
    exact ⟨h0.symm, GlobalState.represents_new, fun d hd => by cases hd⟩
  · obtain ⟨r', hr', hafter⟩ := h.find_previous hL h0 hget
    obtain rfl := Option.some.inj (hr'.symm.trans hr)
    exact hafter

/-- **`getCurrent` returns the state after the history**, if it returns anything. -/
theorem Stable.getCurrent_ok (hL : L.Faithful) (h : Stable L n history) {obj : Bytes}
    {current : Option AddBlockRequest} (hcur : (n.getCurrent L obj).1 = .ok current) :
    current = stateNow (before history n.current.height) obj := by
  unfold getCurrent at hcur
  split at hcur
  · next h0 =>
    rw [h0, ← Except.ok.inj hcur]
    rfl
  · next h0 =>
    split at hcur
    · cases hcur
    · next p n₁ hget =>
      obtain ⟨r, hr, hafter⟩ := h.find_previous hL h0 hget
      simp only [hr, (Looked.of_get hget).dagStore] at hcur
      exact (Except.ok.inj ((hafter.find hL obj).symm.trans hcur)).symm

/-- Where a decision finds its previous state, `getCurrent` finds it too. -/
theorem Stable.getCurrent_of_previousState (hL : L.Faithful) (h : Stable L n history)
    (hstate : n.previousState L = .ok (state, n₁)) (obj : Bytes) :
    (n.getCurrent L obj).1 = .ok (stateNow (before history n.current.height) obj) := by
  unfold getCurrent
  rcases previousState_ok hstate with ⟨h0, -, -⟩ | ⟨h0, p, r, hget, hr, rfl⟩
  · rw [if_pos h0, h0]
    rfl
  · rw [if_neg h0, hget]
    simp only [hr, (Looked.of_get hget).dagStore]
    exact (h.previousState hL hstate).find hL obj

/-- Only the histories of known heights matter. -/
theorem Stable.congr {history' : Nat → List Decision} (h : Stable L n history)
    (hsame : ∀ k, Known n k → history' k = history k) : Stable L n history' :=
  { h with
    rounds := by
      intro r hr
      rw [hsame _ (Or.inl ⟨r, hr, rfl⟩)]
      exact h.rounds r hr
    backed := by
      intro k hk
      rw [hsame k hk]
      exact h.backed k hk
    threads := by
      intro t ht
      obtain ⟨r, hr, hpc⟩ := h.threads t ht
      refine ⟨r, hr, ?_⟩
      rw [hsame _ (Or.inl ⟨r, List.mem_of_getElem? hr, rfl⟩)]
      exact hpc
    data := by
      intro k b hb
      rw [hsame k (Or.inr (by rw [hb]; simp))]
      exact h.data k b hb }

theorem Stable.of_known (h : Stable L n history) (hk : Known n k) :
    k < n.current.height ∨ n.dataStore (roundKey k) ≠ none := by
  rcases hk with ⟨r, hr, rfl⟩ | hdata
  · exact h.heights r hr
  · exact Or.inr hdata

/-- **A decision makes a round of the current height**, whose history ends in the decision. -/
theorem Stable.handleSnowballerDone (hL : L.Faithful) (h : Stable L n history) {cp : Checkpoint}
    {n' : Node} {history' : Nat → List Decision}
    (hsame : ∀ k, k < n.current.height ∨ n.dataStore (roundKey k) ≠ none →
      history' k = history k)
    (hself : history' n.current.height = before history n.current.height ++
      [{ checkpoint := cp, applied := TracedNode.applied L n cp }])
    (hdone : n.handleSnowballerDone L cp = .ok n') : Stable L n' history' := by
  obtain ⟨state, n₁, abrs, inflight, promotions, hstate, hnames, rfl⟩ :=
    handleSnowballerDone_ok hdone
  obtain ⟨hlength, hrep, hkept⟩ := h.previousState hL hstate
  have h₁ := h.looked hL (looked_previousState hstate)
  obtain ⟨heap, roundCache, rfl⟩ := (looked_previousState hstate).frame
  have hget : ∀ e ∈ abrs, n.mempool.get e.1 = some e.2 := fun e he => get_of_named hnames he
  have hnew := refines_decided cp hlength.symm h.pool.keyed hrep hget
  rw [show TracedNode.applied L n cp = abrs.map (·.2.abr) from applied_eq hnames] at hself
  have hbacked : Backed L n.dagStore (history' n.current.height) n.current.height := by
    rw [hself]
    refine ⟨by simp [hlength], forall_mem_concat hkept ?_⟩
    intro abr habr
    obtain ⟨e, he, rfl⟩ := List.mem_map.mp habr
    exact h.poolKept _ _ (hget e he)
  rw [← hself] at hnew
  have h₂ := h₁.congr fun k hk => hsame k (h₁.of_known hk)
  -- the node counts the height up, and the new round is below
  have h₃ : Stable L { n with
      heap, roundCache
      current := { height := n.current.height + 1, preferred := none } } history' :=
    { h₂ with heights := fun r hr => (h₂.heights r hr).imp_left Nat.lt_succ_of_lt }
  have h₄ := h₃.push (r :=
    { height := n.current.height, preferred := cp, decided := true
      state := state.addInflights (abrs.map (·.2)), published := false })
    hnew (fun _ => rfl) hbacked (Or.inl (Nat.lt_succ_self _))
  exact { h₄ with
    pool := Mempool.wf_bulkDelete hL _ h.pool
    poolKept := fun id w hw =>
      h.poolKept id w ((Mempool.get_bulkDelete_iff hL _ h.pool).mp hw).1
    threads := forall_mem_concat h₄.threads
      ⟨_, List.getElem?_concat_length, rfl, trivial, trivial⟩ }

/-! ## Goroutines -/

section ThreadStep

variable {E : Env} {n' : Node} {p : Nat} {r : PastRound} {ok : Bool} {pc : Pc}
  {next : Option Pc}

theorem Node.ThreadStep.of_height (h : ThreadStep E n p r ok pc n' next)
    (hof : pc.Of r.height) : ∀ q, next = some q → q.Of r.height := by
  intro q hq
  cases h with
  | addCheckpoint | addRound | putHeight | putRound =>
    obtain rfl := Option.some.inj hq
    first
      | exact hof
      | rfl
  | putState =>
    split at hq
    · obtain rfl := Option.some.inj hq
      trivial
    · cases hq
  | start | settled | settle | flush | confirm =>
    obtain rfl := Option.some.inj hq
    trivial
  | _ => cases hq

/-- Under the key of a round stands what stood there, or a completed round of this height. -/
theorem Node.ThreadStep.stored (h : ThreadStep E n p r ok pc n' next) (height : Nat) :
    n'.dataStore (roundKey height) = n.dataStore (roundKey height) ∨
      ∃ completed, pc = .putRound completed ∧ completed.height = height ∧
        n'.dataStore (roundKey height) = some (E.L.cidOf (.round completed)).bytes := by
  rcases h.dataStore with heq | ⟨completed, -, -, heq⟩ | ⟨completed, hpc, -, heq⟩
  · rw [heq]
    exact Or.inl rfl
  · rw [heq, putLastCompletedHeight_roundKey]
    exact Or.inl rfl
  · rw [heq, putCompletedRound_roundKey]
    split
    · next hk => exact Or.inr ⟨completed, hpc, hk.symm, rfl⟩
    · exact Or.inl rfl

/-- A round is replaced by one that refines its history as well, and helps its goroutines. -/
theorem Stable.setRound (h : Stable L n history) {r r' : PastRound} (hr : n.heap[p]? = some r)
    (hheight : r'.height = r.height) (hrefines : r'.Refines L (history r.height))
    (hdecided : r'.decided = true)
    (hpcs : ∀ q, PcInv L n.dagStore (history r.height) r q →
      PcInv L n.dagStore (history r.height) r' q) :
    Stable L { n with heap := n.heap.set p r' } history := by
  have hmem := List.mem_of_getElem? hr
  -- every round is one that was there, or the new one
  have hback : ∀ x ∈ n.heap.set p r', x ∈ n.heap ∨ x = r' := fun x => List.mem_or_eq_of_mem_set
  exact
    { h with
      rounds := by
        intro x hx
        rcases hback x hx with hx | rfl
        · exact h.rounds x hx
        · exact ⟨hheight ▸ hrefines, fun _ => hdecided⟩
      backed := by
        rintro height (⟨x, hx, rfl⟩ | hdata)
        · rcases hback x hx with hx | rfl
          · exact h.backed _ (Or.inl ⟨x, hx, rfl⟩)
          · exact h.backed _ (Or.inl ⟨r, hmem, hheight.symm⟩)
        · exact h.backed _ (Or.inr hdata)
      heights := by
        intro x hx
        rcases hback x hx with hx | rfl
        · exact h.heights x hx
        · rw [hheight]
          exact h.heights r hmem
      cache := by
        intro k q hq
        obtain ⟨x, hx, rfl⟩ := h.cache k q hq
        obtain ⟨x', hx', rfl | ⟨rfl, rfl⟩⟩ := getElem?_set_of_some r' hr hx
        · exact ⟨x', hx', rfl⟩
        · exact ⟨x', hx', hheight⟩
      threads := by
        intro t ht
        obtain ⟨x, hx, hxd, hxof, hxpc⟩ := h.threads t ht
        obtain ⟨x', hx', rfl | ⟨rfl, rfl⟩⟩ := getElem?_set_of_some r' hr hx
        · exact ⟨x', hx', hxd, hxof, hxpc⟩
        · refine ⟨x', hx', hdecided, hheight ▸ hxof, ?_⟩
          rw [hheight]
          exact hpcs _ hxpc }

/-- A completed round is stored under its height, if at all. -/
theorem Stable.setData (h : Stable L n history) {r : PastRound} (hr : r ∈ n.heap)
    (dataStore : DataStore)
    (hstored : ∀ height, dataStore (roundKey height) = n.dataStore (roundKey height) ∨
      ∃ completed, completed.height = height ∧ r.height = height ∧
        dataStore (roundKey height) = some (L.cidOf (.round completed)).bytes ∧
        IsCompleted L n.dagStore (history height) completed ∧
        Holds L n.dagStore (.round completed)) :
    Stable L { n with dataStore } history :=
  { h with
    backed := by
      rintro height (hx | hdata)
      · exact h.backed _ (Or.inl hx)
      · rcases hstored height with heq | ⟨completed, -, hheight, -⟩
        · exact h.backed _ (Or.inr (heq ▸ hdata))
        · exact h.backed _ (Or.inl ⟨r, hr, hheight⟩)
    heights := by
      intro x hx
      refine (h.heights x hx).imp_right fun hold => ?_
      rcases hstored x.height with heq | ⟨completed, -, -, heq, -⟩
      · show dataStore _ ≠ none
        rwa [heq]
      · show dataStore _ ≠ none
        simp [heq]
    data := by
      intro height b hb
      rcases hstored height with heq | ⟨completed, hk, -, heq, hcompleted⟩
      · exact h.data height b (heq ▸ hb)
      · exact ⟨completed, Option.some.inj (hb.symm.trans heq), hk, hcompleted⟩ }

/-- What a goroutine does not touch. -/
theorem Node.ThreadStep.unchanged (h : ThreadStep E n p r ok pc n' next) :
    ∃ republish pubsub, n' = { n with
      heap := n'.heap, dagStore := n'.dagStore, dataStore := n'.dataStore
      roundRepublishCache := republish, pubsub } := by
  cases h <;> exact ⟨_, _, rfl⟩

theorem Stable.threadStep (hL : E.L.Faithful) (h : Stable E.L n history)
    (hr : n.heap[p]? = some r) (hd : r.decided = true) (hof : pc.Of r.height)
    (hpc : PcInv E.L n.dagStore (history r.height) r pc)
    (hstep : ThreadStep E n p r ok pc n' next) :
    Stable E.L n' history ∧ ∃ r', n'.heap[p]? = some r' ∧ r'.decided = true ∧
      ∀ q, next = some q → q.Of r'.height ∧ PcInv E.L n'.dagStore (history r'.height) r' q := by
  obtain ⟨r', hheap, hheight, hdecided, hrefines, hpcs, hnext⟩ := round_threadStep hL h.addressed
    hr (h.rounds r (List.mem_of_getElem? hr)).1 hpc hstep
  obtain ⟨haddressed, hholds⟩ := grown_threadStep hL h.addressed hstep
  have hat : n'.heap[p]? = some r' := by
    rw [hheap, List.getElem?_set_self (List.getElem?_eq_some_iff.mp hr).1]
  refine ⟨?_, r', hat, hdecided.trans hd, fun q hq => ?_⟩
  · have h₂ := (h.setRound hr hheight hrefines (hdecided.trans hd) hpcs).grow haddressed hholds
    have hmem : r' ∈ n.heap.set p r' := by
      rw [← hheap]
      exact List.mem_of_getElem? hat
    have h₃ := h₂.setData hmem n'.dataStore fun height => by
      rcases hstep.stored height with heq | ⟨completed, rfl, rfl, heq⟩
      · exact Or.inl heq
      · have hk : completed.height = r.height := hof
        have hg : Grown E.L n.dagStore (history r.height) n'.dagStore (history r.height) :=
          ⟨hholds, List.prefix_rfl⟩
        refine Or.inr ⟨completed, rfl, hheight.trans hk.symm, heq, ?_, hholds _ hpc.2.2⟩
        rw [hk]
        exact hg.isCompleted hpc.2.1
    obtain ⟨republish, pubsub, heq⟩ := hstep.unchanged
    rw [heq, hheap]
    exact { h₃ with }
  · rw [hheight]
    exact ⟨hstep.of_height hof q hq, hnext q hq⟩

end ThreadStep

theorem Stable.setThread (h : Stable L n history) {i : Nat} {t : Thread} {r : PastRound}
    (hr : n.heap[t.round]? = some r) (hd : r.decided = true) {next : Option Pc}
    (hnext : ∀ q, next = some q → q.Of r.height ∧ PcInv L n.dagStore (history r.height) r q) :
    Stable L (n.setThread i t next) history := by
  rw [setThread_eq]
  exact { h with
    threads := forall_setThread h.threads fun pc hpc => ⟨r, hr, hd, hnext pc hpc⟩ }

/-! ## Events -/

section Events

variable {E : Env} {n' : Node} {e : Event}

/-- **Every event other than a decision keeps all rounds at their histories.** -/
theorem Stable.event (hL : E.L.Faithful) (h : Stable E.L n history)
    (he : ∀ cp, e ≠ .snowballerDone cp) (hstep : n.step E e = some n') :
    Stable E.L n' history := by
  cases eventStep_of_step hstep with
  | drop hn₁ | answer hn₁ | tick hn₁ => exact h.looked hL hn₁
  | await hn₁ => exact { h.looked hL hn₁ with }
  | store hn₁ => exact (h.looked hL hn₁).storeAbr hL _ _
  | @promote i =>
    have hpromoted : Stable E.L { n with promotions := n.promotions.eraseIdx i } history :=
      { h with }
    exact hpromoted.storeAbr hL _ _
  | running => exact h
  | start => exact { h with }
  | decided => exact absurd rfl (he _)
  | background ht hr hthread =>
    obtain ⟨r₀, hr₀, hd, hof, hpc⟩ := h.threads _ (List.mem_of_getElem? ht)
    obtain rfl := Option.some.inj (hr₀.symm.trans hr)
    obtain ⟨h₁, r', hr', hd', hnext⟩ := h.threadStep hL hr hd hof hpc hthread
    exact h₁.setThread hr' hd' hnext
  | republish hget hconf => exact { h.looked hL (Looked.of_get hget) with }
  | spawn hget hr hpub =>
    have h₁ := h.looked hL (Looked.of_get hget)
    obtain ⟨hrefines, hdecided⟩ := h₁.rounds _ (List.mem_of_getElem? hr)
    refine { h₁ with threads := forall_mem_concat h₁.threads ?_ }
    exact ⟨_, hr, hdecided hpub, trivial, hrefines.published hpub⟩

end Events

/-- What is stored stays, and nothing else does. -/
theorem Stable.crash (h : Stable L n history) {n' : Node}
    (hn' : initRoundHolder n.dagStore n.dataStore n.pubsub = .ok n') :
    Stable L n' history := by
  obtain ⟨height, -, hpure⟩ := bind_eq_ok.mp hn'
  obtain rfl := pure_eq_ok.mp hpure
  exact
    { addressed := h.addressed
      pool := Mempool.wf_new
      poolKept := fun id w hw => by simp [Mempool.new, Mempool.get] at hw
      rounds := fun _ hr => by cases hr
      backed := by
        rintro height (⟨r, hr, -⟩ | hdata)
        · cases hr
        · exact h.backed height (Or.inr hdata)
      heights := fun _ hr => by cases hr
      cache := fun _ _ hp => by cases hp
      threads := fun _ ht => by cases ht
      data := h.data }

/-! ## One history for all heights -/

/-- The decisions up to each height. -/
def upTo (decided : List Decision) (height : Nat) : List Decision := decided.take (height + 1)

theorem upTo_take {decided : List Decision} (h : height < k) :
    upTo (decided.take k) height = upTo decided height := by
  unfold upTo
  rw [List.take_take, Nat.min_eq_left h]

theorem upTo_concat {decided : List Decision} (h : height < decided.length)
    (later : List Decision) : upTo (decided ++ later) height = upTo decided height :=
  List.take_append_of_le_length h

/-- **All rounds of the signer refine one history**, of which crashes have left these decisions. -/
structure Durable (L : Ipld) (n : Node) (decided : List Decision) : Prop where
  height : n.current.height = decided.length
  stable : Stable L n (upTo decided)
  named : ∀ d ∈ decided, d.checkpoint.addBlockRequests =
    d.applied.map fun abr => (L.cidOf (.addBlockRequest abr)).bytes

theorem durable_genesis (L : Ipld) : Durable L Node.genesis [] where
  height := rfl
  stable := by
    have hnil : upTo [] = fun _ => [] := rfl
    rw [hnil]
    exact stable_genesis L
  named := fun _ h => by cases h

section Durable

variable {n' : Node} {decided : List Decision}

theorem Durable.before_eq (h : Durable L n decided) :
    before (upTo decided) n.current.height = decided := by
  rw [h.height]
  cases hlength : decided.length with
  | zero => exact (List.length_eq_zero_iff.mp hlength).symm
  | succ k => exact List.take_of_length_le (Nat.le_of_eq hlength)

/-- The start of a history grows into it. -/
theorem grown_upTo (L : Ipld) (store : DagStore) (decided : List Decision) (height : Nat) :
    Grown L store (upTo decided height) store decided :=
  ⟨fun _ h => h, List.take_prefix _ _⟩

theorem Durable.lt_of_stored (h : Durable L n decided) (hk : n.dataStore (roundKey k) ≠ none) :
    k < n.current.height := by
  obtain ⟨b, hb⟩ := Option.ne_none_iff_exists'.mp hk
  obtain ⟨completed, -, rfl, hc, -⟩ := h.stable.data k b hb
  obtain ⟨d, hd, -⟩ := hc.checkpoint
  rw [h.height]
  exact lt_of_lt_of_le (List.getElem?_eq_some_iff.mp hd).1 (List.length_take_le' _ _)

theorem Durable.lt_of_known (h : Durable L n decided) (hk : Known n k) : k < n.current.height :=
  (h.stable.of_known hk).elim id h.lt_of_stored

theorem Durable.getCurrent_ok (hL : L.Faithful) (h : Durable L n decided) {obj : Bytes}
    {current : Option AddBlockRequest} (hcur : (n.getCurrent L obj).1 = .ok current) :
    current = stateNow decided obj := by
  have heq := h.stable.getCurrent_ok hL hcur
  rwa [h.before_eq] at heq

/-- **A decision is appended.** -/
theorem Durable.handleSnowballerDone (hL : L.Faithful) (h : Durable L n decided)
    {cp : Checkpoint} (hdone : n.handleSnowballerDone L cp = .ok n') :
    Durable L n' (decided ++ [{ checkpoint := cp, applied := TracedNode.applied L n cp }]) := by
  have hstable : Stable L n'
      (upTo (decided ++ [{ checkpoint := cp, applied := TracedNode.applied L n cp }])) := by
    refine h.stable.handleSnowballerDone hL (fun k hk => upTo_concat ?_ _) ?_ hdone
    · rw [← h.height]
      exact hk.elim id h.lt_of_stored
    · rw [h.before_eq, h.height]
      exact List.take_of_length_le (by simp)
  obtain ⟨state, n₁, abrs, inflight, promotions, hstate, hnames, rfl⟩ :=
    handleSnowballerDone_ok hdone
  obtain ⟨heap, roundCache, rfl⟩ := (looked_previousState hstate).frame
  have happlied : TracedNode.applied L n cp = abrs.map (·.2.abr) := applied_eq hnames
  refine ⟨?_, hstable, forall_mem_concat h.named ?_⟩
  · rw [height_handleSnowballerDone hdone, h.height, List.length_append, List.length_singleton]
  · rw [happlied]
    exact bytes_of_named h.stable.pool.keyed hnames

/-- **Every event keeps the history, or appends a decision.** -/
theorem Durable.step {E : Env} (hL : E.L.Faithful) {history : History}
    (h : Durable E.L n history.decided) {e : Event} (hstep : n.step E e = some n') :
    Durable E.L n' (TracedNode.record E.L n history (.event e)).decided := by
  by_cases he : ∃ cp, e = .snowballerDone cp
  · obtain ⟨cp, rfl⟩ := he
    exact h.handleSnowballerDone hL (step_snowballerDone hstep).2
  · have hne := not_exists.mp he
    rw [TracedNode.record_of_ne hne]
    exact ⟨(current_height_step hstep hne).trans h.height, h.stable.event hL hne hstep, h.named⟩

/-- **A signer that does not crash refines the history of its decisions.** -/
theorem durable_uninterrupted {E : Env} (hL : E.L.Faithful) {s : TracedNode}
    (h : (TracedNode.system E).Reach uninterrupted s) :
    Durable E.L s.node s.history.decided := by
  refine h.invariant (P := fun s => Durable E.L s.node s.history.decided)
    (durable_genesis E.L) ?_
  intro s a s' hs hok hact
  cases a with
  | crash => cases hok
  | event e =>
    obtain ⟨n, hn, rfl⟩ := TracedNode.act_event hact
    exact hs.step hL hn

end Durable

end Tupelo

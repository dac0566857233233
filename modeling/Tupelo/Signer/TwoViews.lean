import Tupelo.Signer.Refinement

/-!
# Two views of an object

A signer looks up the request an object is at in two ways. `getCurrent` decides which requests
are taken; it asks the state of the last completed round, which has an overlay of requests that
are still in flight. `NodeDagGetter.GetTip` resolves the owners of objects while requests are
validated; it stores the HAMT of that state and loads it again, without the overlay.

The two agree once the background process has moved everything from the overlay to the HAMT.
Before, the HAMT has the object at an older request or not at all. In the genesis round there is
no completed round and `GetTip` fails in another way than for an object it does not know.

The module models `GetTip` (`sdk/gossip/types/graftedownership.go`) with the functions of the
node it calls, and compares the two in every state that a signer can reach, crashes included.
-/

namespace Tupelo

open Infra

/-- The errors of `GetTip`: `chaintree.ErrTipNotFound`, or any other. -/
inductive TipError where
  | tipNotFound
  | other (f : Fault)
  deriving DecidableEq

namespace Node

/-! ## `node.go` -/

/-- `put` is how storing the HAMT goes. -/
def getLastCompletedRound (L : Ipld) (n : Node) (put : Except Fault Unit) :
    Except Fault Round × Node :=
  match n.get L (prevHeight n.current.height) with
  | (none, n) => (.error (.error "could not find last completed round"), n)
  | (some p, n) =>
    match n.heap[p]?, put with
    | none, _ => (.error (.panic "invalid memory address or nil pointer dereference"), n)
    | _, .error f => (.error f, n)
    | some previousRound, .ok () =>
      let hamt := previousRound.state.hamt
      (.ok { height := previousRound.height, stateCid := (L.cidOf (.hamt hamt)).bytes
             checkpointCid := (L.cidOf (.checkpoint previousRound.preferred)).bytes },
        n.addNode L (.hamt hamt))

def getAddBlockRequest (n : Node) (txCID : Cid) : Except Fault AddBlockRequest := do
  let abrNode ← n.dagStore.get txCID
  abrNode.asAddBlockRequest

/-! ## `graftedownership.go` -/

/-- `NodeDagGetter.getLastABR`. -/
def getLastABR (L : Ipld) (n : Node) (did : Bytes) (put : Except Fault Unit) :
    Except TipError AddBlockRequest × Node :=
  match n.getLastCompletedRound L put with
  | (.error f, n) => (.error (.other f), n)
  | (.ok rw, n) =>
    match rw.fetchHamt L n.dagStore with
    | .error f => (.error (.other f), n)
    | .ok hamtNode =>
      match hamtNode.lookup did with
      | none => (.error .tipNotFound, n)
      | some txCID => ((n.getAddBlockRequest txCID).mapError .other, n)

/-- `NodeDagGetter.GetTip`. -/
def getTip (L : Ipld) (n : Node) (did : Bytes) (put : Except Fault Unit) :
    Except TipError Cid × Node :=
  let (abr, n) := n.getLastABR L did put
  (do
    let abr ← abr
    (L.cast abr.newTip).mapError .other, n)

/-! ## The views once nothing is in flight -/

/-- What `GetTip` may answer when `getCurrent` answers so. -/
def Agree (L : Ipld) (current : Except Fault (Option AddBlockRequest))
    (tip : Except TipError Cid) : Prop :=
  (current = .ok none ∧ tip = .error .tipNotFound) ∨
  (∃ abr c, current = .ok (some abr) ∧ L.cast abr.newTip = .ok c ∧ tip = .ok c) ∨
  ∃ f f', current = .error f ∧ tip = .error (.other f')

section Settled

variable {L : Ipld} {n : Node}
variable {r : PastRound} {n₁ : Node} {p : Nat}

theorem getAddBlockRequest_ok {c : Cid} {abr : AddBlockRequest}
    (h : n.getAddBlockRequest c = .ok abr) : n.dagStore c = some (.addBlockRequest abr) := by
  obtain ⟨x, hx, h⟩ := bind_eq_ok.mp h
  cases x with
  | addBlockRequest abr' => rw [DagStore.get_ok hx, Except.ok.inj h]
  | _ => cases h

/-- With the previous round found, `getCurrent` asks its state. -/
theorem getCurrent_of_get (h0 : n.current.height ≠ 0)
    (hget : n.get L (n.current.height - 1) = (some p, n₁)) (hr : n₁.heap[p]? = some r) (did : Bytes)
    : (n.getCurrent L did).1 = r.state.find n.dagStore did := by
  have hstore : n₁.dagStore = n.dagStore := (Looked.of_get hget).dagStore
  unfold getCurrent
  rw [if_neg h0, hget]
  simp only [hr, deref, ok_bind, hstore]

theorem getLastABR_of_get (hL : L.Faithful) (h0 : n.current.height ≠ 0)
    (hget : n.get L (n.current.height - 1) = (some p, n₁)) (hr : n₁.heap[p]? = some r)
    (did : Bytes) :
    (n.getLastABR L did (.ok ())).1 =
      match r.state.hamt.lookup did with
      | none => .error .tipNotFound
      | some txCID =>
        ((n.addNode L (.hamt r.state.hamt)).getAddBlockRequest txCID).mapError .other := by
  have hstore : n₁.dagStore = n.dagStore := (Looked.of_get hget).dagStore
  have hprev : prevHeight n.current.height = n.current.height - 1 := if_neg h0
  have hfetch : Round.fetchHamt L (n₁.addNode L (.hamt r.state.hamt)).dagStore
      { height := r.height, stateCid := (L.cidOf (.hamt r.state.hamt)).bytes
        checkpointCid := (L.cidOf (.checkpoint r.preferred)).bytes } = .ok r.state.hamt :=
    Round.fetchHamt_of_mem hL rfl (DagStore.add_self ..)
  unfold getLastABR getLastCompletedRound
  rw [hprev, hget]
  simp only [hr, hfetch]
  cases r.state.hamt.lookup did with
  | none => rfl
  | some txCID =>
    simp only [getAddBlockRequest, addNode, hstore]

/-- `GetTip` returns the tip of the request that the HAMT has, whatever is in flight. -/
theorem getTip_of_lookup (hL : L.Faithful) (hs : n.dagStore.Addressed L) (h0 : n.current.height ≠ 0)
    (hget : n.get L (n.current.height - 1) = (some p, n₁)) (hr : n₁.heap[p]? = some r) {did : Bytes}
    {c : Cid} (hl : r.state.hamt.lookup did = some c) {abr : AddBlockRequest}
    (hc : n.dagStore c = some (.addBlockRequest abr)) (htip : L.isCid abr.newTip = true) :
    (n.getTip L did (.ok ())).1 = .ok ⟨abr.newTip⟩ := by
  have hlast := getLastABR_of_get hL h0 hget hr did
  have hc' := DagStore.add_of_mem hL hs (.hamt r.state.hamt) hc
  simp only [hl, getAddBlockRequest, addNode, DagStore.get, hc', ok_bind,
    DagNode.asAddBlockRequest, mapError_ok] at hlast
  simp only [getTip, hlast, ok_bind, Ipld.cast, if_pos htip, mapError_ok]

/--
**With nothing in flight the two views agree**, in a node whose HAMTs name requests that are
at a CID.
-/
theorem agree_of_settled (hL : L.Faithful) (hs : n.dagStore.Addressed L)
    (htips : ∀ c abr, n.dagStore c = some (.addBlockRequest abr) → L.isCid abr.newTip = true)
    (h0 : n.current.height ≠ 0) (hget : n.get L (n.current.height - 1) = (some p, n₁))
    (hr : n₁.heap[p]? = some r) (hsettled : r.Settled)
    (hdefined : ∀ obj c, r.state.hamt.lookup obj = some c → c ≠ Cid.undef) (did : Bytes) :
    Agree L (n.getCurrent L did).1 (n.getTip L did (.ok ())).1 := by
  have htip : (n.getTip L did (.ok ())).1 = (do
      let abr ← (n.getLastABR L did (.ok ())).1
      (L.cast abr.newTip).mapError .other) := rfl
  rw [htip, getCurrent_of_get h0 hget hr, getLastABR_of_get hL h0 hget hr]
  unfold GlobalState.find
  rw [hsettled did]
  cases hl : r.state.hamt.lookup did with
  | none => exact Or.inl ⟨rfl, rfl⟩
  | some c =>
    simp only [if_neg (hdefined did c hl), getAddBlockRequest, addNode]
    cases hc : n.dagStore c with
    | none =>
      -- the node that was just added is no request either
      refine Or.inr (Or.inr ?_)
      unfold DagStore.get DagStore.add
      by_cases heq : c = L.cidOf (.hamt r.state.hamt)
      · rw [hc, heq, Function.update_self]
        exact ⟨_, _, rfl, rfl⟩
      · rw [Function.update_of_ne heq, hc]
        exact ⟨_, _, rfl, rfl⟩
    | some x =>
      cases x with
      | addBlockRequest abr =>
        refine Or.inr (Or.inl ⟨abr, ⟨abr.newTip⟩, ?_, ?_, ?_⟩)
        · simp only [DagStore.get, hc]
          rfl
        · unfold Ipld.cast
          rw [if_pos (htips c abr hc)]
        · have htip' := getTip_of_lookup hL hs h0 hget hr hl hc (htips c abr hc)
          rwa [htip, getLastABR_of_get hL h0 hget hr, hl] at htip'
      | _ =>
        have hc' := DagStore.add_of_mem hL hs (.hamt r.state.hamt) hc
        simp only [DagStore.get, hc, hc']
        exact Or.inr (Or.inr ⟨_, _, rfl, rfl⟩)

end Settled

end Node

/-! ## What a signer keeps -/

/-- A request is at a CID, and a HAMT has defined CIDs. -/
def DagNode.Tipped (L : Ipld) : DagNode → Prop
  | .addBlockRequest abr => L.isCid abr.newTip = true
  | .hamt h => ∀ obj c, h.lookup obj = some c → c ≠ Cid.undef
  | _ => True

/-- The CIDs of a state are defined, those it has in flight included. -/
structure GlobalState.Defined (gs : GlobalState) : Prop where
  hamt : ∀ obj c, gs.hamt.lookup obj = some c → c ≠ Cid.undef
  inflight : ∀ obj w, gs.inflight.lookup obj = some w → w.cid ≠ Cid.undef

/-- So are those that a background process has still to move. -/
def Pc.Defined : Pc → Prop
  | .txs todo => ∀ e ∈ todo, e.2.cid ≠ Cid.undef
  | _ => True

/-- Every request waits for its turn with a tip that is a CID. -/
structure Awaited (L : Ipld) (inflight : Lru Bytes AddBlockWrapper)
    (promotions : List AddBlockWrapper) : Prop where
  cached : ∀ k w, inflight.peek k = some w → L.isCid w.abr.newTip = true
  promoted : ∀ w ∈ promotions, L.isCid w.abr.newTip = true

/-- What both views need of a signer. -/
structure Tipped (L : Ipld) (n : Node) : Prop where
  addressed : n.dagStore.Addressed L
  store : ∀ c x, n.dagStore c = some x → x.Tipped L
  pool : n.mempool.Wf L
  awaited : Awaited L n.inflight n.promotions
  heap : ∀ r ∈ n.heap, r.state.Defined
  threads : ∀ t ∈ n.threads, t.pc.Defined

open Node

variable {L : Ipld} {n : Node}
variable {w : AddBlockWrapper} {E : Env} {s : TracedNode}

theorem tipped_genesis (L : Ipld) : Tipped L Node.genesis where
  addressed := fun _ _ h => by cases h
  store := fun _ _ h => by cases h
  pool := Mempool.wf_new
  awaited :=
    { cached := fun _ _ h => by cases h
      promoted := fun _ h => by cases h }
  heap := fun _ h => by cases h
  threads := fun _ h => by cases h

/-! ### States -/

theorem GlobalState.defined_new : GlobalState.new.Defined where
  hamt := fun _ _ h => by simp [GlobalState.new] at h
  inflight := fun _ _ h => by simp [GlobalState.new] at h

theorem GlobalState.Defined.settle {gs : GlobalState} (hgs : gs.Defined) (obj : Bytes)
    (hw : w.cid ≠ Cid.undef) : (gs.settle obj w).Defined where
  hamt := by
    intro obj' c hc
    by_cases ho : obj' = obj
    · rw [ho, GlobalState.settle, Finmap.lookup_insert] at hc
      rwa [← Option.some.inj hc]
    · rw [GlobalState.settle, Finmap.lookup_insert_of_ne _ ho] at hc
      exact hgs.hamt obj' c hc
  inflight := by
    intro obj' w' hw'
    by_cases ho : obj' = obj
    · rw [ho, GlobalState.settle, AList.lookup_erase] at hw'
      cases hw'
    · rw [GlobalState.settle, AList.lookup_erase_ne ho] at hw'
      exact hgs.inflight obj' w' hw'

theorem GlobalState.Defined.addInflights {gs : GlobalState} (hgs : gs.Defined)
    {ws : List AddBlockWrapper} (hws : ∀ w ∈ ws, w.cid ≠ Cid.undef) :
    (gs.addInflights ws).Defined where
  hamt := hgs.hamt
  inflight := by
    intro obj w hw
    rw [GlobalState.addInflights, GoMap.lookup_insertAll] at hw
    cases hl : latest (fun w : AddBlockWrapper => w.abr.objectId) ws obj with
    | some w' =>
      rw [hl] at hw
      have hww : w' = w := by simpa using hw
      rw [← hww]
      exact hws w' (mem_of_latest hl)
    | none =>
      rw [hl] at hw
      exact hgs.inflight obj w (by simpa using hw)

/-! ### Requests -/

theorem tipped_addNode (ht : Tipped L n) {x : DagNode} (hx : x.Tipped L) :
    Tipped L (n.addNode L x) :=
  { ht with
    addressed := DagStore.addressed_add ht.addressed x
    store := by
      intro c y hy
      have hy' : Function.update n.dagStore (L.cidOf x) (some x) c = some y := hy
      by_cases hc : c = L.cidOf x
      · rw [hc, Function.update_self] at hy'
        rwa [← Option.some.inj hy']
      · rw [Function.update_of_ne hc] at hy'
        exact ht.store c y hy' }

theorem tipped_storeAbr (ht : Tipped L n) (hw : L.isCid w.abr.newTip = true) (stored : Bool) :
    Tipped L (n.storeAbr L w stored) := by
  cases stored with
  | false => exact ht
  | true =>
    exact
      { tipped_addNode ht (x := .addBlockRequest w.abr) hw with
        pool := Mempool.wf_add ht.pool rfl }

/-- A lookup may restore a round, with the HAMT of the store. -/
theorem tipped_get (ht : Tipped L n) (height : Nat) : Tipped L (n.get L height).2 := by
  rcases get_cases L n height with ⟨p, -, h⟩ | h | ⟨r, hr, h⟩
  · rw [h]
    exact { ht with }
  · rw [h]
    exact ht
  · rw [h]
    refine { ht with heap := ?_ }
    obtain ⟨-, -, -, -, -, -, hempty, c, hc⟩ := restoreRound_ok hr
    refine forall_mem_concat ht.heap ?_
    refine ⟨ht.store c _ hc, ?_⟩
    intro obj w hw
    rw [hempty] at hw
    cases hw

theorem tipped_looked (ht : Tipped L n) {n₁ : Node} (hn₁ : Looked L n n₁) : Tipped L n₁ :=
  hn₁.rule ht (tipped_get ht)

theorem tipped_storeAsInFlight (ht : Tipped L n) (hw : L.isCid w.abr.newTip = true) :
    Tipped L (n.storeAsInFlight w) := by
  exact { ht with awaited := ⟨Lru.forall_peek_add ht.awaited.cached hw, ht.awaited.promoted⟩ }

/-! ### Decisions -/

theorem awaited_promoteNext (ha : Awaited L n.inflight n.promotions) (w : AddBlockWrapper) :
    Awaited L (n.promoteNext w).inflight (n.promoteNext w).promotions := by
  rcases promoteNext_inflight n w with ⟨-, heq⟩ | ⟨next, hnext, heq⟩
  · rw [heq]
    exact ha
  · rw [heq]
    refine ⟨?_, ?_⟩
    · intro k v hv
      have hold := Lru.peek_of_peek_remove hv
      rw [Lru.peek_get] at hold
      exact ha.cached k v hold
    · intro v hv
      simp only [] at hv
      split at hv
      · rcases List.mem_append.mp hv with hmem | hmem
        · exact ha.promoted v hmem
        · rw [List.mem_singleton.mp hmem]
          exact ha.cached _ next hnext
      · exact ha.promoted v hv

/-- The requests of the mempool go into the state under their own CIDs. -/
theorem tipped_handleSnowballerDone (hL : L.Faithful) (ht : Tipped L n) {cp : Checkpoint}
    {n' : Node} (h : n.handleSnowballerDone L cp = .ok n') : Tipped L n' := by
  obtain ⟨⟨state, n₁⟩, hstate, h⟩ := bind_eq_ok.mp h
  obtain ⟨⟨abrs, n₂⟩, habrs, h⟩ := bind_eq_ok.mp h
  have ht₁ : Tipped L n₁ := tipped_looked ht (looked_previousState hstate)
  have hdefined : state.Defined := by
    rcases previousState_ok hstate with ⟨-, rfl, -⟩ | ⟨-, p, r, -, hr, rfl⟩
    · exact GlobalState.defined_new
    · exact ht₁.heap r (List.mem_of_getElem? hr)
  have hawaited : Awaited L n₂.inflight n₂.promotions :=
    collect_rule (P := fun m => Awaited L m.inflight m.promotions)
      (fun _ w hm => awaited_promoteNext hm w) habrs ht₁.awaited
  obtain ⟨hnames, inflight, promotions, rfl⟩ := collect_ok habrs
  have hws : ∀ w ∈ abrs.map (·.2), w.cid ≠ Cid.undef := by
    intro w hw
    obtain ⟨e, he, rfl⟩ := List.mem_map.mp hw
    obtain ⟨hcid, haddr⟩ := ht₁.pool.keyed e.1 e.2 (get_of_named hnames he)
    rw [hcid, ← haddr]
    exact hL.cidOf_ne_undef _
  rw [← pure_eq_ok.mp h]
  exact
    { addressed := ht₁.addressed
      store := ht₁.store
      pool := Mempool.wf_bulkDelete hL _ ht₁.pool
      awaited := hawaited
      heap := forall_mem_concat ht₁.heap (hdefined.addInflights hws)
      threads := forall_mem_concat ht₁.threads trivial }

/-! ### Goroutines -/

theorem tipped_setRound (ht : Tipped L n) (p : Nat) {r : PastRound} (hr : r.state.Defined) :
    Tipped L (n.setRound p r) := by
  refine { ht with heap := ?_ }
  intro r' hr'
  rcases List.mem_or_eq_of_mem_set hr' with hmem | rfl
  · exact ht.heap r' hmem
  · exact hr

theorem tipped_threadStep {n n' : Node} (ht : Tipped E.L n) {p : Nat} {r : PastRound}
    (hr : r.state.Defined) {ok : Bool} {pc : Pc} (hpc : pc.Defined) {next : Option Pc}
    (h : ThreadStep E n p r ok pc n' next) : Tipped E.L n' ∧ ∀ q, next = some q → q.Defined := by
  cases h with
  | fail | unconfirmed => exact ⟨ht, fun q hq => by cases hq⟩
  | start =>
    refine ⟨ht, ?_⟩
    rintro q ⟨⟩ e he
    exact hr.inflight e.1 e.2 (GoMap.mem_pairs.mp he)
  | settled | flush => exact ⟨ht, by rintro q ⟨⟩; trivial⟩
  | settle hpick =>
    refine ⟨tipped_setRound ht p (hr.settle _ (hpc _ (List.mem_of_getElem? hpick))), ?_⟩
    rintro q ⟨⟩ e he
    exact hpc e (List.mem_of_mem_eraseIdx he)
  | putState =>
    refine ⟨tipped_addNode ht hr.hamt, ?_⟩
    intro q hq
    split at hq
    · rw [← Option.some.inj hq]
      trivial
    · cases hq
  | addCheckpoint | addRound => exact ⟨tipped_addNode ht trivial, by rintro q ⟨⟩; trivial⟩
  | putHeight | putRound | confirm => exact ⟨{ ht with }, by rintro q ⟨⟩; trivial⟩
  | unpublished => exact ⟨tipped_setRound ht p ⟨hr.hamt, hr.inflight⟩, fun q hq => by cases hq⟩
  | publish =>
    have hset := tipped_setRound ht p (r := { r with published := true }) ⟨hr.hamt, hr.inflight⟩
    exact ⟨{ hset with }, fun q hq => by cases hq⟩

theorem tipped_setThread (ht : Tipped L n) {i : Nat} {t : Thread} {next : Option Pc}
    (hnext : ∀ pc, next = some pc → pc.Defined) : Tipped L (n.setThread i t next) := by
  rw [setThread_eq]
  exact { ht with threads := forall_setThread ht.threads hnext }

/-! ## Runs -/

/-- The tips of requests are CIDs: the validator computes them. -/
def tipsAreCids (L : Ipld) (_ : TracedNode) : Action → Bool
  | .event (.addBlockRequest abr _) => L.isCid abr.newTip
  | _ => true

theorem tipped_step (hL : E.L.Faithful) {n' : Node} {e : Node.Event} (ht : Tipped E.L s.node)
    (hok : tipsAreCids E.L s (.event e) = true) (h : s.node.step E e = some n') :
    Tipped E.L n' := by
  cases eventStep_of_step h with
  | drop hn₁ | answer hn₁ | tick hn₁ => exact tipped_looked ht hn₁
  | await hn₁ => exact tipped_storeAsInFlight (tipped_looked ht hn₁) hok
  | @store abr stored _ _ hn₁ =>
    have htip : E.L.isCid abr.newTip = true := hok
    exact tipped_storeAbr (tipped_looked ht hn₁) htip stored
  | @promote i _ w hw =>
    have hpromoted : Tipped E.L { s.node with promotions := s.node.promotions.eraseIdx i } :=
      { ht with
        awaited := ⟨ht.awaited.cached, fun v hv =>
          ht.awaited.promoted v (List.mem_of_mem_eraseIdx hv)⟩ }
    exact tipped_storeAbr hpromoted (ht.awaited.promoted w (List.mem_of_getElem? hw)) _
  | running => exact ht
  | start => exact { ht with }
  | decided hdone => exact tipped_handleSnowballerDone hL ht hdone
  | background hmem hr hstep =>
    obtain ⟨ht₁, hnext⟩ := tipped_threadStep ht (ht.heap _ (List.mem_of_getElem? hr))
      (ht.threads _ (List.mem_of_getElem? hmem)) hstep
    exact tipped_setThread ht₁ hnext
  | republish hget => exact { tipped_looked ht (Looked.of_get hget) with }
  | spawn hget =>
    have ht₁ := tipped_looked ht (Looked.of_get hget)
    exact { ht₁ with threads := forall_mem_concat ht₁.threads trivial }

/-- A crash leaves the stores. -/
theorem tipped_act (hL : E.L.Faithful) {s' : TracedNode} {a : Action} (ht : Tipped E.L s.node)
    (hok : tipsAreCids E.L s a = true) (h : TracedNode.act E s a = some s') :
    Tipped E.L s'.node := by
  cases a with
  | event e =>
    obtain ⟨n', hn', rfl⟩ := TracedNode.act_event h
    exact tipped_step hL ht hok hn'
  | crash =>
    obtain ⟨n', hn', rfl⟩ := TracedNode.act_crash h
    obtain ⟨height, -, hn'⟩ := bind_eq_ok.mp hn'
    rw [← pure_eq_ok.mp hn']
    exact { tipped_genesis E.L with addressed := ht.addressed, store := ht.store }

theorem tipped_reach (hL : E.L.Faithful) (h : (TracedNode.system E).Reach (tipsAreCids E.L) s) :
    Tipped E.L s.node :=
  h.invariant (P := fun s => Tipped E.L s.node) (tipped_genesis E.L)
    fun _ _ _ ht hok hact => tipped_act hL ht hok hact

/-! ## When the views agree -/

/-- The goroutine is in `backgroundProcess`, before the HAMT has been flushed. -/
def Pc.drains : Pc → Bool
  | .start | .txs _ | .flush => true
  | _ => false

/-- Nothing of the last completed round is in flight, and its HAMT has been flushed. -/
def lastDrained (L : Ipld) (n : Node) : Bool :=
  match n.get L (n.current.height - 1) with
  | (none, _) => true
  | (some p, n) =>
    n.heap[p]?.all fun r =>
      r.state.inflight.entries.isEmpty && n.threads.all fun t => t.round != p || !t.pc.drains

theorem agree_of_drained (hL : L.Faithful) (ht : Tipped L n) (h0 : n.current.height ≠ 0)
    (hdrained : lastDrained L n = true) (did : Bytes) :
    Agree L (n.getCurrent L did).1 (n.getTip L did (.ok ())).1 := by
  cases hget : n.get L (n.current.height - 1) with
  | mk found n₁ =>
    have hprev : prevHeight n.current.height = n.current.height - 1 := if_neg h0
    cases found with
    | none =>
      refine Or.inr (Or.inr ⟨.error "we don't have the previous round",
        .error "could not find last completed round", ?_, ?_⟩)
      · unfold getCurrent
        rw [if_neg h0, hget]
      · unfold getTip getLastABR getLastCompletedRound
        rw [hprev, hget]
        rfl
    | some p =>
      cases hr : n₁.heap[p]? with
      | none =>
        refine Or.inr (Or.inr
          ⟨.panic "invalid memory address or nil pointer dereference",
            .panic "invalid memory address or nil pointer dereference", ?_, ?_⟩)
        · unfold getCurrent
          rw [if_neg h0, hget]
          simp only [hr, deref]
          rfl
        · unfold getTip getLastABR getLastCompletedRound
          rw [hprev, hget]
          simp only [hr]
          rfl
      | some r =>
        have ht₁ := tipped_get ht (n.current.height - 1)
        rw [hget] at ht₁
        have hdefined := ht₁.heap r (List.mem_of_getElem? hr)
        have hsettled : r.Settled := by
          intro obj
          unfold lastDrained at hdrained
          rw [hget] at hdrained
          simp only [hr, Option.all_some, Bool.and_eq_true, List.isEmpty_iff] at hdrained
          rw [AList.lookup_eq_none, AList.mem_keys, AList.keys, hdrained.1]
          exact List.not_mem_nil
        exact agree_of_settled hL ht.addressed (fun c abr hc => ht.store c _ hc) h0 hget hr
          hsettled hdefined.hamt did

/--
**The two views of an object agree once the last completed round has been drained.**

Let the tips of requests be CIDs. In every state of a signer after the genesis round in which
the background process has moved all of the last completed round to the HAMT and has flushed it,
`GetTip` returns for an object the new tip of the request that `getCurrent` returns. It answers
`ErrTipNotFound` for the objects that `getCurrent` does not find.
-/
theorem two_views_agree {E : Env} (hL : E.L.Faithful) {s : TracedNode}
    (h : (TracedNode.system E).Reach (tipsAreCids E.L) s) (h0 : s.node.current.height ≠ 0)
    (hdrained : lastDrained E.L s.node = true) (did : Bytes) :
    (∀ tip, (s.node.getTip E.L did (.ok ())).1 = .ok tip ↔
      ∃ abr, (s.node.getCurrent E.L did).1 = .ok (some abr) ∧ tip.bytes = abr.newTip) ∧
    ((s.node.getTip E.L did (.ok ())).1 = .error .tipNotFound ↔
      (s.node.getCurrent E.L did).1 = .ok none) := by
  rcases agree_of_drained hL (tipped_reach hL h) h0 hdrained did with
    ⟨hcur, htip⟩ | ⟨abr, c, hcur, hcast, htip⟩ | ⟨f, f', hcur, htip⟩
  · rw [hcur, htip]
    simp
  · rw [hcur, htip]
    refine ⟨?_, by simp⟩
    intro tip
    constructor
    · rintro ⟨⟩
      exact ⟨abr, rfl, Ipld.cast_ok hcast⟩
    · rintro ⟨abr', habr', htip'⟩
      obtain rfl := Option.some.inj (Except.ok.inj habr')
      have hbytes : tip.bytes = c.bytes := htip'.trans (Ipld.cast_ok hcast).symm
      obtain ⟨b⟩ := tip
      obtain ⟨b'⟩ := c
      rw [show b = b' from hbytes]
  · rw [hcur, htip]
    simp

namespace TwoViewsExample

open RunExample

/-- The tips of the object: two CIDs. -/
noncomputable def tip : Nat → Cid
  | 0 => Ipld.inFull.cidOf (.checkpoint { height := 0, addBlockRequests := [] })
  | _ => Ipld.inFull.cidOf (.checkpoint { height := 1, addBlockRequests := [] })

noncomputable def create : AddBlockRequest := .bare [1] [] (tip 0).bytes 0

noncomputable def update : AddBlockRequest := .bare [1] (tip 0).bytes (tip 1).bytes 1

/-- The goroutine of the first round drains its state. -/
noncomputable def drained : List Action := round 0 create ++ background 0 4

theorem two_views_agree_example : ∃ s,
    (TracedNode.system env).run (tipsAreCids env.L) drained = some s ∧
    s.node.current.height ≠ 0 ∧ lastDrained env.L s.node = true ∧
    (s.node.getTip env.L [1] (.ok ())).1 = .ok (tip 0) ∧
    (s.node.getTip env.L [2] (.ok ())).1 = .error .tipNotFound := by
  have hrun : ((TracedNode.system env).run (tipsAreCids env.L) drained).map
      (fun s => (s.node.current.height, lastDrained env.L s.node,
        (s.node.getCurrent env.L [1]).1.toOption, (s.node.getCurrent env.L [2]).1.toOption)) =
        some (1, true, some (some create), some none) := by decide +kernel
  obtain ⟨s, hs, hv⟩ := Option.map_eq_some_iff.mp hrun
  obtain ⟨hheight, hv⟩ := Prod.mk.inj hv
  obtain ⟨hdrained, hv⟩ := Prod.mk.inj hv
  obtain ⟨hcreated, hmissing⟩ := Prod.mk.inj hv
  have h0 : s.node.current.height ≠ 0 := by
    rw [hheight]
    decide
  have hviews := two_views_agree Ipld.inFull_faithful (System.reach_of_run hs) h0 hdrained
  refine ⟨s, hs, h0, hdrained, ?_, ?_⟩
  · exact ((hviews [1]).1 (tip 0)).mpr ⟨create, toOption_eq_some.mp hcreated, rfl⟩
  · exact (hviews [2]).2.mpr (toOption_eq_some.mp hmissing)

/--
Where the views differ. After the second round, and before the background process has moved its
request, `GetTip` returns the tip of the first one. In the genesis round it fails in another way
than for an object it does not know.
-/
theorem two_views_differ :
    (∃ s, (TracedNode.system env).run (tipsAreCids env.L)
        (drained ++ round 1 update) = some s ∧
      (s.node.getCurrent env.L [1]).1 = .ok (some update) ∧
      (s.node.getTip env.L [1] (.ok ())).1 = .ok (tip 0) ∧ (tip 0).bytes ≠ update.newTip) ∧
    (Node.genesis.getCurrent env.L [1]).1 = .ok none ∧
    (Node.genesis.getTip env.L [1] (.ok ())).1 ≠ .error .tipNotFound := by
  have hrun : ((TracedNode.system env).run (tipsAreCids env.L)
      (drained ++ round 1 update)).map
        (fun s => ((s.node.getCurrent env.L [1]).1.toOption, s.node.current.height,
          (s.node.get env.L (s.node.current.height - 1)).1.bind
            fun p => (s.node.get env.L (s.node.current.height - 1)).2.heap[p]?.bind
              fun r => r.state.hamt.lookup [1],
          (s.node.getAddBlockRequest (env.L.cidOf (.addBlockRequest create))).toOption)) =
        some (some (some update), 2, some (env.L.cidOf (.addBlockRequest create)),
          some create) := by decide +kernel
  obtain ⟨s, hs, hv⟩ := Option.map_eq_some_iff.mp hrun
  obtain ⟨hcurrent, hv⟩ := Prod.mk.inj hv
  obtain ⟨hheight, hv⟩ := Prod.mk.inj hv
  obtain ⟨hlookup, hstored⟩ := Prod.mk.inj hv
  obtain ⟨p, hp, hlookup⟩ := Option.bind_eq_some_iff.mp hlookup
  obtain ⟨r, hr, hl⟩ := Option.bind_eq_some_iff.mp hlookup
  have h0 : s.node.current.height ≠ 0 := by
    rw [hheight]
    decide
  have haddressed := (tipped_reach Ipld.inFull_faithful (System.reach_of_run hs)).addressed
  have htip := getTip_of_lookup Ipld.inFull_faithful haddressed h0 (Prod.ext hp rfl) hr hl
    (getAddBlockRequest_ok (toOption_eq_some.mp hstored)) (by decide +kernel)
  refine ⟨⟨s, hs, toOption_eq_some.mp hcurrent, htip, ?_⟩, rfl, ?_⟩
  · decide +kernel
  · decide +kernel

end TwoViewsExample

end Tupelo

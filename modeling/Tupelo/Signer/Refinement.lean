import Tupelo.Signer.Run

/-!
# The state of a signer refines the history of its decisions

Abstractly, the state after round `r` is the log of all requests applied in rounds `0` to `r`,
read as a map from objects to their latest request. This module relates everything a signer
holds to that log: the states of its rounds, whatever the background processes have done to
them, the rounds it has stored and the confirmations it has published.

The goroutines of a round keep these relations, each at its own place (`PcInv`).
-/

namespace Tupelo

open Infra

/-! ## The abstract state -/

/-- The requests applied in rounds `0` to `r`. -/
def logTo (decided : List Decision) (r : Nat) : List AddBlockRequest :=
  (decided.take (r + 1)).flatMap (·.applied)

/-- All requests applied so far. -/
def logAll (decided : List Decision) : List AddBlockRequest := decided.flatMap (·.applied)

/-- The state after round `r`: for every object its latest request. -/
def stateAt (decided : List Decision) (r : Nat) : Bytes → Option AddBlockRequest :=
  latest (·.objectId) (logTo decided r)

/-- The state after all rounds. -/
def stateNow (decided : List Decision) : Bytes → Option AddBlockRequest :=
  latest (·.objectId) (logAll decided)

variable {decided decided' : List Decision} {r : Nat}
variable {abrs : List (Cid × AddBlockWrapper)} {obj : Bytes} {completed : Round} {bs : List Bytes}
  {m : Mempool}

/-- Later decisions do not change an earlier state. -/
theorem stateAt_of_extends (h : decided <+: decided') (hr : r < decided.length) :
    stateAt decided' r = stateAt decided r := by
  obtain ⟨later, rfl⟩ := h
  unfold stateAt logTo
  rw [List.take_append_of_le_length (by omega)]

theorem stateAt_of_length_le (hr : decided.length ≤ r + 1) :
    stateAt decided r = stateNow decided := by
  unfold stateAt stateNow logTo logAll
  rw [List.take_of_length_le hr]

/-- The log after one more decision. -/
theorem logAll_append (d : Decision) : logAll (decided ++ [d]) = logAll decided ++ d.applied := by
  simp [logAll]

/-! ## What nodes of the DAG stand for -/

section Meaning

variable (L : Ipld) (store : DagStore) (decided : List Decision)

/-- The store has the node under its CID. -/
def Holds (x : DagNode) : Prop := store (L.cidOf x) = some x

/-- The HAMT maps each object to the CID of its request in the state after round `r`. -/
def IsState (r : Nat) (h : Hamt) : Prop :=
  ∀ obj, h.lookup obj = (stateAt decided r obj).map fun abr => L.cidOf (.addBlockRequest abr)

/-- The round has the checkpoint decided at its height, and the state after it; both are kept. -/
structure IsCompleted (completed : Round) : Prop where
  checkpoint : ∃ d, decided[completed.height]? = some d ∧
    completed.checkpointCid = (L.cidOf (.checkpoint d.checkpoint)).bytes ∧
    Holds L store (.checkpoint d.checkpoint)
  state : ∃ h, completed.stateCid = (L.cidOf (.hamt h)).bytes ∧
    IsState L decided completed.height h ∧ Holds L store (.hamt h)

/-- A confirmation of a completed round. -/
def IsConfirmation (conf : RoundConfirmation) : Prop :=
  ∃ completed, conf.roundCid = (L.cidOf (.round completed)).bytes ∧
    conf.height = completed.height ∧ IsCompleted L store decided completed

end Meaning

/-- Nothing of the state of the round is in flight any more. -/
def PastRound.Settled (r : PastRound) : Prop := ∀ obj, r.state.inflight.lookup obj = none

/-- The round was decided with its checkpoint, and its state is the one after it. -/
structure PastRound.Refines (L : Ipld) (decided : List Decision) (r : PastRound) : Prop where
  checkpoint : ∃ d, decided[r.height]? = some d ∧ r.preferred = d.checkpoint
  state : r.state.Represents L (stateAt decided r.height)
  published : r.published = true → r.Settled

/-- What is true at each place of a goroutine for the round `r`. -/
def PcInv (L : Ipld) (store : DagStore) (decided : List Decision) (r : PastRound) : Pc → Prop
  | .start => True
  | .txs rest =>
    (∀ obj w, r.state.inflight.lookup obj = some w → ∃ e ∈ rest, e.1 = obj) ∧
      ∀ e ∈ rest, r.state.view e.1 = some e.2.cid
  | .flush => r.Settled
  | .putState => r.Settled
  | .addCheckpoint stateCid => r.Settled ∧
      ∃ h, stateCid = L.cidOf (.hamt h) ∧ IsState L decided r.height h ∧ Holds L store (.hamt h)
  | .addRound completed => r.Settled ∧ IsCompleted L store decided completed
  | .putHeight completed =>
      r.Settled ∧ IsCompleted L store decided completed ∧ Holds L store (.round completed)
  | .putRound completed =>
      r.Settled ∧ IsCompleted L store decided completed ∧ Holds L store (.round completed)
  | .confirm completed =>
      r.Settled ∧ IsCompleted L store decided completed ∧ Holds L store (.round completed)
  | .publish conf => r.Settled ∧ IsConfirmation L store decided conf

/-! ## Growth

The store and the history only grow, and all of the above stays true.
-/

section Growth

variable {L : Ipld} {store store' : DagStore}

/-- The store and the history have grown. -/
structure Grown (L : Ipld) (store : DagStore) (decided : List Decision) (store' : DagStore)
    (decided' : List Decision) : Prop where
  store : ∀ x, Holds L store x → Holds L store' x
  decided : decided <+: decided'

theorem Grown.add (hL : L.Faithful) (hs : store.Addressed L) (decided : List Decision)
    (x : DagNode) : Grown L store decided (store.add L x) decided :=
  ⟨fun _ h => DagStore.add_of_mem hL hs x h, List.prefix_refl _⟩

variable (hg : Grown L store decided store' decided')

include hg

theorem Grown.getElem? {k : Nat} {d : Decision} (h : decided[k]? = some d) :
    decided'[k]? = some d := by
  obtain ⟨later, hl⟩ := hg.decided
  have hk : k < decided.length := (List.getElem?_eq_some_iff.mp h).1
  rw [← hl, List.getElem?_append_left hk, h]

theorem Grown.isState {k : Nat} {d : Decision} (hk : decided[k]? = some d) {h : Hamt}
    (hh : IsState L decided k h) : IsState L decided' k h := by
  intro obj
  rw [stateAt_of_extends hg.decided (List.getElem?_eq_some_iff.mp hk).1]
  exact hh obj

theorem Grown.isCompleted (h : IsCompleted L store decided completed) :
    IsCompleted L store' decided' completed := by
  obtain ⟨⟨d, hd, hcid, hcp⟩, hamt, hstate, hh, hkept⟩ := h
  exact ⟨⟨d, hg.getElem? hd, hcid, hg.store _ hcp⟩,
    hamt, hstate, hg.isState hd hh, hg.store _ hkept⟩

theorem Grown.isConfirmation {conf : RoundConfirmation}
    (h : IsConfirmation L store decided conf) : IsConfirmation L store' decided' conf := by
  obtain ⟨completed, hcid, hheight, hc⟩ := h
  exact ⟨completed, hcid, hheight, hg.isCompleted hc⟩

theorem Grown.pcInv {r : PastRound} (hr : r.Refines L decided) {pc : Pc}
    (h : PcInv L store decided r pc) : PcInv L store' decided' r pc := by
  obtain ⟨d, hd, -⟩ := hr.checkpoint
  cases pc with
  | start => exact h
  | txs rest => exact h
  | flush => exact h
  | putState => exact h
  | addCheckpoint stateCid =>
    obtain ⟨hs, hamt, hc, hh, hkept⟩ := h
    exact ⟨hs, hamt, hc, hg.isState hd hh, hg.store _ hkept⟩
  | addRound completed => exact ⟨h.1, hg.isCompleted h.2⟩
  | putHeight completed => exact ⟨h.1, hg.isCompleted h.2.1, hg.store _ h.2.2⟩
  | putRound completed => exact ⟨h.1, hg.isCompleted h.2.1, hg.store _ h.2.2⟩
  | confirm completed => exact ⟨h.1, hg.isCompleted h.2.1, hg.store _ h.2.2⟩
  | publish conf => exact ⟨h.1, hg.isConfirmation h.2⟩

end Growth

section Steps

variable {L : Ipld} {n : Node}

/-! ### Looking up a round -/

theorem getElem?_append_of_some {α : Type} {l l' : List α} {p : Nat} {x : α}
    (h : l[p]? = some x) : (l ++ l')[p]? = some x := by
  rw [List.getElem?_append_left (List.getElem?_eq_some_iff.mp h).1, h]

/-- The cache names rounds of the heap, also after one more has been added to both. -/
theorem cache_push {heap : List PastRound} {cache : Lru Nat Nat}
    (h : ∀ k p, cache.peek k = some p → ∃ r, heap[p]? = some r ∧ r.height = k) (r : PastRound) :
    ∀ k p, (cache.add r.height heap.length).peek k = some p →
      ∃ r', (heap ++ [r])[p]? = some r' ∧ r'.height = k := by
  refine Lru.forall_peek_add ?_ ⟨r, List.getElem?_concat_length, rfl⟩
  intro k p hp
  obtain ⟨r', hr', hk⟩ := h k p hp
  exact ⟨r', getElem?_append_of_some hr', hk⟩

/-- A completed round that the data store has is restored as it was decided. -/
theorem restoreRound_of_completed (hL : L.Faithful) {height : Nat}
    (hdata : n.dataStore (roundKey height) = some (L.cidOf (.round completed)).bytes)
    (hheight : completed.height = height) (hc : IsCompleted L n.dagStore decided completed)
    (hround : Holds L n.dagStore (.round completed)) :
    ∃ r, n.restoreRound L height = .ok r ∧ r.Refines L decided ∧ r.height = height ∧
      r.decided = false ∧ r.published = false := by
  obtain ⟨⟨d, hd, hcid, hcp⟩, hamt, hstate, hh, hkept⟩ := hc
  refine ⟨_, Node.restoreRound_of_stored hL hdata hround hcid hcp hstate hkept, ?_, hheight, rfl,
    rfl⟩
  exact ⟨⟨d, hd, rfl⟩, GlobalState.represents_of_hamt hh, fun hp => by cases hp⟩

/-! ### A decision -/

/-- The requests that a checkpoint names, by their wrappers. -/
theorem applied_eq (h : List.Forall₂ (Node.Names L m) bs abrs) :
    (bs.filterMap fun b => (L.cast b).toOption.bind fun id => (m.get id).map (·.abr)) =
      abrs.map (·.2.abr) := by
  induction h with
  | nil => rfl
  | cons hb _ ih =>
    rw [List.filterMap_cons, hb.1, List.map_cons, ← ih]
    simp [Except.toOption, hb.2]

theorem bytes_of_named (hm : m.Keyed L) (h : List.Forall₂ (Node.Names L m) bs abrs) :
    bs = (abrs.map (·.2.abr)).map fun abr => (L.cidOf (.addBlockRequest abr)).bytes := by
  induction h with
  | nil => rfl
  | cons hb _ ih =>
    rw [List.map_cons, List.map_cons, ← ih, (hm _ _ hb.2).2, Ipld.cast_ok hb.1]

theorem get_of_named (h : List.Forall₂ (Node.Names L m) bs abrs) {e : Cid × AddBlockWrapper}
    (he : e ∈ abrs) : m.get e.1 = some e.2 := by
  induction h with
  | nil => cases he
  | cons hb _ ih =>
    rcases List.mem_cons.mp he with rfl | he'
    · exact hb.2
    · exact ih he'

/-- The round that was decided refines the history with the decision. -/
theorem refines_decided (cp : Checkpoint) (hheight : n.current.height = decided.length)
    (hkeyed : n.mempool.Keyed L) {state : GlobalState}
    (hrep : state.Represents L (stateNow decided))
    (hget : ∀ e ∈ abrs, n.mempool.get e.1 = some e.2) :
    PastRound.Refines L (decided ++ [{ checkpoint := cp, applied := abrs.map (·.2.abr) }])
      { height := n.current.height, preferred := cp, decided := true
        state := state.addInflights (abrs.map (·.2)), published := false } := by
  refine ⟨⟨{ checkpoint := cp, applied := abrs.map (·.2.abr) }, ?_, rfl⟩, ?_,
    fun hp => by cases hp⟩
  · show (decided ++ [_])[n.current.height]? = _
    rw [hheight]
    exact List.getElem?_concat_length
  · rw [stateAt_of_length_le (by rw [hheight]; simp), stateNow, logAll_append]
    have hmap : abrs.map (·.2.abr) = (abrs.map (·.2)).map (·.abr) := by
      rw [List.map_map]
      rfl
    rw [hmap]
    refine GlobalState.Represents.addInflights hrep ?_
    intro w hw
    obtain ⟨e, he, rfl⟩ := List.mem_map.mp hw
    obtain ⟨h1, h2⟩ := hkeyed _ _ (hget e he)
    rw [h1, h2]

/-! ### Goroutines of a completed round -/

/-- What is found after one element has been replaced. -/
theorem getElem?_set_of_some {α : Type} {l : List α} {p q : Nat} {r x : α} (r' : α)
    (hr : l[p]? = some r) (hx : l[q]? = some x) :
    ∃ x', (l.set p r')[q]? = some x' ∧ (x' = x ∨ x = r ∧ x' = r') := by
  by_cases hq : p = q
  · subst hq
    have hlt : p < l.length := (List.getElem?_eq_some_iff.mp hr).1
    exact ⟨r', List.getElem?_set_self hlt, Or.inr ⟨Option.some.inj (hx.symm.trans hr), rfl⟩⟩
  · exact ⟨x, by rw [List.getElem?_set_ne hq, hx], Or.inl rfl⟩

theorem settled_settle {r : PastRound} (h : r.Settled) (obj : Bytes) (w : AddBlockWrapper) :
    PastRound.Settled { r with state := r.state.settle obj w } := by
  intro o
  show (r.state.inflight.erase obj).lookup o = none
  by_cases ho : o = obj
  · rw [ho, AList.lookup_erase]
  · rw [AList.lookup_erase_ne ho]
    exact h o

/-- Settling one object disturbs no goroutine of the round. -/
theorem pcInv_settle {r : PastRound} {w : AddBlockWrapper} (hview : r.state.view obj = some w.cid)
    {store : DagStore} (pc : Pc) (h : PcInv L store decided r pc) :
    PcInv L store decided { r with state := r.state.settle obj w } pc := by
  cases pc with
  | start => trivial
  | txs rest =>
    refine ⟨?_, ?_⟩
    · intro o v hv
      by_cases ho : o = obj
      · rw [ho] at hv
        have hnone : (r.state.inflight.erase obj).lookup obj = none := AList.lookup_erase _ _
        exact absurd (hnone.symm.trans hv) (by simp)
      · have hv' : (r.state.inflight.erase obj).lookup o = some v := hv
        rw [AList.lookup_erase_ne ho] at hv'
        exact h.1 o v hv'
    · intro e he
      show (r.state.settle obj w).view e.1 = _
      rw [GlobalState.view_settle hview]
      exact h.2 e he
  | flush => exact settled_settle h obj w
  | putState => exact settled_settle h obj w
  | addCheckpoint stateCid => exact ⟨settled_settle h.1 obj w, h.2⟩
  | addRound completed => exact ⟨settled_settle h.1 obj w, h.2⟩
  | putHeight completed => exact ⟨settled_settle h.1 obj w, h.2⟩
  | putRound completed => exact ⟨settled_settle h.1 obj w, h.2⟩
  | confirm completed => exact ⟨settled_settle h.1 obj w, h.2⟩
  | publish conf => exact ⟨settled_settle h.1 obj w, h.2⟩

section Places

variable {r : PastRound} {store : DagStore}

/-- At first every object in flight is yet to be set. -/
theorem pcInv_txs (L : Ipld) (store : DagStore) (decided : List Decision) (r : PastRound) :
    PcInv L store decided r (.txs (r.state.inflight.entries.map fun e => (e.1, e.2))) := by
  refine ⟨?_, ?_⟩
  · intro obj w hw
    exact ⟨(obj, w), GoMap.mem_pairs.mpr hw, rfl⟩
  · rintro ⟨obj, w⟩ he
    have hw := GoMap.mem_pairs.mp he
    unfold GlobalState.view
    rw [hw]

/-- Nothing is left to set, so nothing is left in flight. -/
theorem settled_of_txs_nil (h : PcInv L store decided r (.txs [])) : r.Settled := by
  intro obj
  cases hl : r.state.inflight.lookup obj with
  | none => rfl
  | some w =>
    obtain ⟨e, he, -⟩ := h.1 obj w hl
    cases he

/-- An object that was set is no longer to be set. -/
theorem pcInv_eraseIdx {todo : List (Bytes × AddBlockWrapper)} {pick : Nat} {w : AddBlockWrapper}
    (hpick : todo[pick]? = some (obj, w))
    (hpc : PcInv L store decided { r with state := r.state.settle obj w } (.txs todo)) :
    PcInv L store decided { r with state := r.state.settle obj w }
      (.txs (todo.eraseIdx pick)) := by
  refine ⟨?_, fun e he => hpc.2 e (List.mem_of_mem_eraseIdx he)⟩
  intro o v hv
  obtain ⟨e, he, ho⟩ := hpc.1 o v hv
  obtain ⟨i, hi⟩ := List.mem_iff_getElem?.mp he
  refine ⟨e, List.mem_eraseIdx_iff_getElem?.mpr ⟨i, ?_, hi⟩, ho⟩
  rintro rfl
  have hobj : o = obj := by rw [← ho, Option.some.inj (hi.symm.trans hpick)]
  have hnone : (r.state.inflight.erase obj).lookup obj = none := AList.lookup_erase _ _
  rw [hobj] at hv
  exact absurd (hnone.symm.trans hv) (by simp)

theorem isConfirmation_of_confirm {E : Env} {conf : RoundConfirmation}
    (h : Node.confirmCompletedRound E completed = .ok conf)
    (hcompleted : IsCompleted E.L store decided completed) :
    IsConfirmation E.L store decided conf := by
  obtain ⟨sig, -, hsig⟩ := bind_eq_ok.mp h
  rw [← pure_eq_ok.mp hsig]
  exact ⟨completed, rfl, rfl, hcompleted⟩

end Places

section ThreadStep

variable {E : Env} {n n' : Node} {p : Nat} {r : PastRound} {ok : Bool} {pc : Pc} {next : Option Pc}

/-- A goroutine adds to the store. -/
theorem grown_threadStep (hL : E.L.Faithful) (hs : n.dagStore.Addressed E.L)
    (h : Node.ThreadStep E n p r ok pc n' next) :
    n'.dagStore.Addressed E.L ∧ ∀ x, Holds E.L n.dagStore x → Holds E.L n'.dagStore x := by
  cases h with
  | putState | addCheckpoint | addRound =>
    exact ⟨DagStore.addressed_add hs _, fun _ h => DagStore.add_of_mem hL hs _ h⟩
  | _ => exact ⟨hs, fun _ h => h⟩

/--
**What a goroutine makes of its round** refines the history as before, and is as good for the
other goroutines of the round. At the place where it goes on, its own invariant holds.
-/
theorem round_threadStep (hL : E.L.Faithful) (hs : n.dagStore.Addressed E.L)
    (hr : n.heap[p]? = some r) (hrefines : r.Refines E.L decided)
    (hpc : PcInv E.L n.dagStore decided r pc) (h : Node.ThreadStep E n p r ok pc n' next) :
    ∃ r', n'.heap = n.heap.set p r' ∧ r'.height = r.height ∧ r'.decided = r.decided ∧
      r'.Refines E.L decided ∧
      (∀ q, PcInv E.L n.dagStore decided r q → PcInv E.L n.dagStore decided r' q) ∧
      ∀ q, next = some q → PcInv E.L n'.dagStore decided r' q := by
  have hsame : n.heap = n.heap.set p r := by
    obtain ⟨hlt, hget⟩ := List.getElem?_eq_some_iff.mp hr
    rw [← hget, List.set_getElem_self]
  have hpublished : r.Settled → PastRound.Refines E.L decided { r with published := true } :=
    fun hsettled => ⟨hrefines.checkpoint, hrefines.state, fun _ => hsettled⟩
  cases h with
  | fail pc => exact ⟨r, hsame, rfl, rfl, hrefines, fun _ h => h, fun q hq => by cases hq⟩
  | start ok =>
    refine ⟨r, hsame, rfl, rfl, hrefines, fun _ h => h, ?_⟩
    rintro q ⟨⟩
    exact pcInv_txs E.L n.dagStore decided r
  | settled ok =>
    refine ⟨r, hsame, rfl, rfl, hrefines, fun _ h => h, ?_⟩
    rintro q ⟨⟩
    exact settled_of_txs_nil hpc
  | settle hpick =>
    next obj w =>
    have hview : r.state.view obj = some w.cid := hpc.2 (obj, w) (List.mem_of_getElem? hpick)
    refine ⟨_, rfl, rfl, rfl, ?_, fun q => pcInv_settle hview q, ?_⟩
    · exact ⟨hrefines.checkpoint, hrefines.state.settle hview,
        fun hp => settled_settle (hrefines.published hp) obj w⟩
    · rintro q ⟨⟩
      exact pcInv_eraseIdx hpick (pcInv_settle hview _ hpc)
  | flush =>
    refine ⟨r, hsame, rfl, rfl, hrefines, fun _ h => h, ?_⟩
    rintro q ⟨⟩
    exact hpc
  | putState =>
    refine ⟨r, hsame, rfl, rfl, hrefines, fun _ h => h, ?_⟩
    intro q hq
    split at hq
    · rw [← Option.some.inj hq]
      exact ⟨hpc, r.state.hamt, rfl, hrefines.state.lookup_hamt hpc, DagStore.add_self ..⟩
    · cases hq
  | addCheckpoint stateCid =>
    refine ⟨r, hsame, rfl, rfl, hrefines, fun _ h => h, ?_⟩
    rintro q ⟨⟩
    obtain ⟨hsettled, hamt, rfl, hstate, hkept⟩ := hpc
    obtain ⟨d, hd, hpref⟩ := hrefines.checkpoint
    have hg := Grown.add hL hs decided (.checkpoint r.preferred)
    refine ⟨hsettled, ⟨d, hd, by rw [hpref], ?_⟩, hamt, rfl, hstate, hg.store _ hkept⟩
    rw [← hpref]
    exact DagStore.add_self ..
  | addRound completed =>
    refine ⟨r, hsame, rfl, rfl, hrefines, fun _ h => h, ?_⟩
    rintro q ⟨⟩
    have hg := Grown.add hL hs decided (.round completed)
    exact ⟨hpc.1, hg.isCompleted hpc.2, DagStore.add_self ..⟩
  | putHeight completed | putRound completed =>
    refine ⟨r, hsame, rfl, rfl, hrefines, fun _ h => h, ?_⟩
    rintro q ⟨⟩
    exact hpc
  | unconfirmed ok completed =>
    exact ⟨r, hsame, rfl, rfl, hrefines, fun _ h => h, fun q hq => by cases hq⟩
  | confirm ok hconf =>
    refine ⟨r, hsame, rfl, rfl, hrefines, fun _ h => h, ?_⟩
    rintro q ⟨⟩
    exact ⟨hpc.1, isConfirmation_of_confirm hconf hpc.2.1⟩
  | unpublished conf | publish conf =>
    exact ⟨_, rfl, rfl, rfl, hpublished hpc.1, fun q h => by cases q <;> exact h,
      fun q hq => by cases hq⟩

end ThreadStep

end Steps

/-- A completed round is determined by the decisions up to it. -/
theorem isCompleted_unique {L : Ipld} {store store' : DagStore} {completed' : Round}
    (h : IsCompleted L store decided completed) (h' : IsCompleted L store' decided' completed')
    (hheight : completed.height = completed'.height)
    (hds : decided.take (completed.height + 1) = decided'.take (completed.height + 1)) :
    completed = completed' := by
  obtain ⟨⟨d, hd, hcid, -⟩, hamt, hstate, hh, -⟩ := h
  obtain ⟨⟨d', hd', hcid', -⟩, hamt', hstate', hh', -⟩ := h'
  rw [← hheight] at hd' hh'
  have hdd : d = d' := by
    have h1 : (decided.take (completed.height + 1))[completed.height]? = some d := by
      rw [List.getElem?_take_of_lt (Nat.lt_succ_self _), hd]
    have h2 : (decided'.take (completed.height + 1))[completed.height]? = some d' := by
      rw [List.getElem?_take_of_lt (Nat.lt_succ_self _), hd']
    rw [hds] at h1
    exact Option.some.inj (h1.symm.trans h2)
  have hhamt : hamt = hamt' := by
    refine Finmap.ext_lookup fun obj => ?_
    rw [hh obj, hh' obj]
    unfold stateAt logTo
    rw [hds]
  refine Round.ext hheight ?_ ?_
  · rw [hstate, hstate', hhamt]
  · rw [hcid, hcid', hdd]

/-- No crash. -/
def uninterrupted (_ : TracedNode) : Action → Bool
  | .event _ => true
  | .crash => false

end Tupelo

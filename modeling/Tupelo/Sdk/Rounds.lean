import Tupelo.Infra.Except
import Tupelo.Ipld

/-!
# Fetching what a round refers to

The model of `sdk/gossip/types/rounds.go`. The wrappers cache what they have fetched; content
addressing makes the cached value the one a second fetch would return, so the model fetches
every time. A wrapper without a store does not occur.
-/

namespace Tupelo

open Infra

def RoundConfirmation.fetchCompletedRound (L : Ipld) (store : DagStore)
    (rc : RoundConfirmation) : Except Fault Round := do
  let roundCid ← wrapErr "error casting round cid: " (L.cast rc.roundCid)
  let roundNode ← wrapErr "error getting node: " (store.get roundCid)
  wrapErr "error decoding: " roundNode.asRound

def Round.fetchCheckpoint (L : Ipld) (store : DagStore) (r : Round) :
    Except Fault Checkpoint := do
  let checkpointCid ← wrapErr "error casting checkpoint cid: " (L.cast r.checkpointCid)
  let checkpointNode ← wrapErr "error fetching checkpoint " (store.get checkpointCid)
  wrapErr "error decoding " checkpointNode.asCheckpoint

def Round.fetchHamt (L : Ipld) (store : DagStore) (r : Round) : Except Fault Hamt := do
  let stateCid ← wrapErr "error casting state cid: " (L.cast r.stateCid)
  let n ← wrapErr "error loading hamt " (store.get stateCid)
  wrapErr "error loading hamt " n.asHamt

variable {L : Ipld} {store : DagStore} {r : Round}

theorem DagStore.get_ok {c : Cid} {x : DagNode} (h : store.get c = .ok x) : store c = some x := by
  unfold get at h
  split at h
  · next y hy => rw [hy, Except.ok.inj h]
  · cases h

/-- A fetched round is the one the confirmation names. -/
theorem RoundConfirmation.fetchCompletedRound_ok {rc : RoundConfirmation}
    (h : rc.fetchCompletedRound L store = .ok r) :
    ∃ c, L.cast rc.roundCid = .ok c ∧ store c = some (.round r) := by
  obtain ⟨c, hc, h⟩ := bind_eq_ok.mp h
  obtain ⟨x, hx, h⟩ := bind_eq_ok.mp h
  rw [wrapErr_eq_ok] at hc hx h
  cases x with
  | round r' => exact ⟨c, hc, by rw [DagStore.get_ok hx, Except.ok.inj h]⟩
  | _ => cases h

theorem RoundConfirmation.fetchCompletedRound_of_mem {rc : RoundConfirmation} {c : Cid}
    (hrc : L.cast rc.roundCid = .ok c) (hr : store c = some (.round r)) :
    rc.fetchCompletedRound L store = .ok r := by
  unfold fetchCompletedRound DagStore.get
  rw [hrc]
  simp only [wrapErr, ok_bind, hr, DagNode.asRound]

/-- A fetched HAMT is the one the round names. -/
theorem Round.fetchHamt_ok {h : Hamt} (hfetch : r.fetchHamt L store = .ok h) :
    ∃ c, L.cast r.stateCid = .ok c ∧ store c = some (.hamt h) := by
  obtain ⟨c, hc, hfetch⟩ := bind_eq_ok.mp hfetch
  obtain ⟨x, hx, hfetch⟩ := bind_eq_ok.mp hfetch
  rw [wrapErr_eq_ok] at hc hx hfetch
  cases x with
  | hamt h' => exact ⟨c, hc, by rw [DagStore.get_ok hx, Except.ok.inj hfetch]⟩
  | _ => cases hfetch

/-- A fetched checkpoint is the one the round names. -/
theorem Round.fetchCheckpoint_ok {cp : Checkpoint} (h : r.fetchCheckpoint L store = .ok cp) :
    ∃ c, L.cast r.checkpointCid = .ok c ∧ store c = some (.checkpoint cp) := by
  obtain ⟨c, hc, h⟩ := bind_eq_ok.mp h
  obtain ⟨x, hx, h⟩ := bind_eq_ok.mp h
  rw [wrapErr_eq_ok] at hc hx h
  cases x with
  | checkpoint cp' => exact ⟨c, hc, by rw [DagStore.get_ok hx, Except.ok.inj h]⟩
  | _ => cases h

theorem Round.fetchCheckpoint_of_mem (hL : L.Faithful) {cp : Checkpoint}
    (hr : r.checkpointCid = (L.cidOf (.checkpoint cp)).bytes)
    (hcp : store (L.cidOf (.checkpoint cp)) = some (.checkpoint cp)) :
    r.fetchCheckpoint L store = .ok cp := by
  unfold fetchCheckpoint DagStore.get
  rw [hr, hL.cast_cidOf]
  simp only [wrapErr, ok_bind, hcp, DagNode.asCheckpoint]

theorem Round.fetchHamt_of_mem (hL : L.Faithful) {h : Hamt}
    (hr : r.stateCid = (L.cidOf (.hamt h)).bytes)
    (hh : store (L.cidOf (.hamt h)) = some (.hamt h)) : r.fetchHamt L store = .ok h := by
  unfold fetchHamt DagStore.get
  rw [hr, hL.cast_cidOf]
  simp only [wrapErr, ok_bind, hh, DagNode.asHamt]

end Tupelo

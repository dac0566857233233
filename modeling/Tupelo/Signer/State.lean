import Tupelo.Infra.GoMap
import Tupelo.Infra.Except
import Tupelo.Ipld
import Tupelo.Signer.Mempool

/-!
# The global state of a round

The model of `signer/gossip/state.go`.

The state of a round maps every object to its latest request. It is kept in two places: the
requests of the last rounds stand in `inflight`, and a background process moves them one by one
to the HAMT. `Represents` says what the two together stand for; moving a request does not
change it, adding the requests of a checkpoint appends to it.
-/

namespace Tupelo

open Infra

/-- `globalState`. -/
structure GlobalState where
  hamt : Hamt
  inflight : GoMap Bytes AddBlockWrapper

/-- The `services.AddBlockRequest{}` that `Find` returns for an undefined CID. -/
def AddBlockRequest.zero : AddBlockRequest :=
  { objectId := [], previousTip := [], newTip := [], height := 0, payload := [], state := [] }

namespace GlobalState

/-- `newGlobalState`. -/
def new : GlobalState := { hamt := ∅, inflight := ∅ }

def addInflights (gs : GlobalState) (abrws : List AddBlockWrapper) : GlobalState :=
  { gs with inflight := GoMap.insertAll gs.inflight (fun w => w.abr.objectId) (fun w => w) abrws }

def find (store : DagStore) (gs : GlobalState) (objectID : Bytes) :
    Except Fault (Option AddBlockRequest) :=
  match gs.inflight.lookup objectID with
  | some wrapper => .ok (some wrapper.abr)
  | none =>
    match gs.hamt.lookup objectID with
    | none => .ok none
    | some abrCid =>
      if abrCid = Cid.undef then .ok (some AddBlockRequest.zero)
      else do
        let node ← wrapErr "error getting abr: " (store.get abrCid)
        let abr ← wrapErr "error getting abr: " node.asAddBlockRequest
        pure (some abr)

/-- What `backgroundProcess` does with one object, under the lock: `Set` and `delete`. -/
def settle (gs : GlobalState) (objectID : Bytes) (w : AddBlockWrapper) : GlobalState where
  hamt := gs.hamt.insert objectID w.cid
  inflight := gs.inflight.erase objectID

/-! ## What a state stands for -/

variable {L : Ipld} {gs : GlobalState} {f : Bytes → Option AddBlockRequest}

/-- The CID of the request an object is at. -/
def view (gs : GlobalState) (objectID : Bytes) : Option Cid :=
  match gs.inflight.lookup objectID with
  | some w => some w.cid
  | none => gs.hamt.lookup objectID

/-- The state has every object at the request `f` has it at. -/
structure Represents (L : Ipld) (gs : GlobalState) (f : Bytes → Option AddBlockRequest) :
    Prop where
  view : ∀ obj, gs.view obj = (f obj).map fun abr => L.cidOf (.addBlockRequest abr)
  keyed : ∀ obj w, gs.inflight.lookup obj = some w → w.cid = L.cidOf (.addBlockRequest w.abr)

theorem view_settle {obj : Bytes} {w : AddBlockWrapper} (h : gs.view obj = some w.cid)
    (obj' : Bytes) : (gs.settle obj w).view obj' = gs.view obj' := by
  unfold view settle
  by_cases ho : obj' = obj
  · subst ho
    rw [AList.lookup_erase]
    simp only [Finmap.lookup_insert]
    exact h.symm
  · rw [AList.lookup_erase_ne ho, Finmap.lookup_insert_of_ne _ ho]

theorem represents_new : new.Represents L fun _ => none where
  view := fun _ => by simp [new, GlobalState.view]
  keyed := fun _ _ h => by simp [new] at h

/-- A state without anything in flight: the HAMT has it all. -/
theorem represents_of_hamt {h : Hamt}
    (hh : ∀ obj, h.lookup obj = (f obj).map fun abr => L.cidOf (.addBlockRequest abr)) :
    ({ hamt := h, inflight := ∅ } : GlobalState).Represents L f where
  view := fun obj => by
    show h.lookup obj = _
    exact hh obj
  keyed := fun _ _ h => by simp at h

/-- **Moving a request to the HAMT does not change what the state stands for.** -/
theorem Represents.settle (hr : gs.Represents L f) {obj : Bytes} {w : AddBlockWrapper}
    (h : gs.view obj = some w.cid) : (gs.settle obj w).Represents L f where
  view := fun obj' => by rw [view_settle h, hr.view]
  keyed := by
    intro obj' w' h'
    by_cases ho : obj' = obj
    · rw [ho, GlobalState.settle, AList.lookup_erase] at h'
      cases h'
    · rw [GlobalState.settle, AList.lookup_erase_ne ho] at h'
      exact hr.keyed obj' w' h'

/-- **Adding the requests of a checkpoint appends them to the log.** -/
theorem Represents.addInflights {log : List AddBlockRequest}
    (hr : gs.Represents L (latest (·.objectId) log)) {ws : List AddBlockWrapper}
    (hws : ∀ w ∈ ws, w.cid = L.cidOf (.addBlockRequest w.abr)) :
    (gs.addInflights ws).Represents L (latest (·.objectId) (log ++ ws.map (·.abr))) where
  view := by
    intro obj
    have hlatest : latest (·.objectId) (ws.map (·.abr)) obj =
        (latest (fun w : AddBlockWrapper => w.abr.objectId) ws obj).map (·.abr) :=
      latest_map _ (fun _ => rfl) ws obj
    have hold := hr.view obj
    unfold GlobalState.view GlobalState.addInflights at *
    rw [latest_append, hlatest]
    simp only [GoMap.lookup_insertAll]
    cases hl : latest (fun w : AddBlockWrapper => w.abr.objectId) ws obj with
    | some w => simp [hws w (mem_of_latest hl)]
    | none => simpa using hold
  keyed := by
    intro obj w hw
    rw [GlobalState.addInflights, GoMap.lookup_insertAll] at hw
    cases hl : latest (fun w : AddBlockWrapper => w.abr.objectId) ws obj with
    | some w' =>
      rw [hl] at hw
      have hww : w' = w := by simpa using hw
      rw [← hww]
      exact hws w' (mem_of_latest hl)
    | none =>
      rw [hl] at hw
      exact hr.keyed obj w (by simpa using hw)

/-- **`find` returns what the state stands for**, if the requests are in the store. -/
theorem Represents.find_eq (hL : L.Faithful) (hr : gs.Represents L f) {store : DagStore}
    {obj : Bytes} (hstore : ∀ abr, f obj = some abr →
      store (L.cidOf (.addBlockRequest abr)) = some (.addBlockRequest abr)) :
    gs.find store obj = .ok (f obj) := by
  have hview := hr.view obj
  unfold GlobalState.view at hview
  unfold find
  cases hi : gs.inflight.lookup obj with
  | some w =>
    rw [hi] at hview
    simp only [hr.keyed obj w hi] at hview
    obtain ⟨abr, habr, hcid⟩ := Option.map_eq_some_iff.mp hview.symm
    have hw : abr = w.abr := DagNode.addBlockRequest.inj (hL.injective hcid)
    rw [habr, hw]
  | none =>
    rw [hi] at hview
    simp only [] at hview ⊢
    rw [hview]
    cases hf : f obj with
    | none => rfl
    | some abr =>
      have hne := hL.cidOf_ne_undef (.addBlockRequest abr)
      simp only [Option.map_some, if_neg hne, DagStore.get, hstore abr hf, wrapErr, ok_bind,
        DagNode.asAddBlockRequest]
      rfl

/-- With nothing in flight, what a state stands for determines the HAMT. -/
theorem Represents.lookup_hamt (hr : gs.Represents L f)
    (hempty : ∀ obj, gs.inflight.lookup obj = none) (obj : Bytes) :
    gs.hamt.lookup obj = (f obj).map fun abr => L.cidOf (.addBlockRequest abr) := by
  have hview := hr.view obj
  unfold GlobalState.view at hview
  rwa [hempty obj] at hview

end GlobalState

end Tupelo

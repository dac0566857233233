import Mathlib.Data.String.Basic
import Tupelo.Infra.Transition
import Tupelo.Signer.Mempool

/-!
# The representation invariant of the mempool

The mempool keeps its requests twice, by CID and in conflict sets, and keeps the preferred
request of a conflict set as a running minimum. `Rep` ties these together. It holds after any
sequence of operations in which a CID is always added with the same request; which request that
is, is the function `abrOf`.

What a signer proposes is the preferred request of every conflict set. By the invariant that is
one request for each set, so no signer that knows the requests nils out the vote.
-/

namespace Tupelo

open Infra

/-! ## Conflict sets -/

/-- The preferred CID is a member, and no member has a lesser string. -/
structure ConflictSet.LeastPreferred (L : Ipld) (cs : ConflictSet) : Prop where
  mem : cs.preferred ∈ cs.ids
  le : ∀ id ∈ cs.ids, L.cidString cs.preferred ≤ L.cidString id

/-- The first member is the preferred one. -/
theorem ConflictSet.leastPreferred_first (L : Ipld) (id : Cid) :
    (ConflictSet.empty.add L id).LeastPreferred L := by
  have hpreferred : (ConflictSet.empty.add L id).preferred = id := by
    simp [ConflictSet.add, ConflictSet.empty]
  refine ⟨?_, ?_⟩
  · rw [hpreferred]
    exact List.mem_singleton_self id
  · intro x hx
    rw [hpreferred, List.mem_singleton.mp hx]

/-- Another member becomes the preferred one if its string is less. -/
theorem ConflictSet.LeastPreferred.add {L : Ipld} {cs : ConflictSet} (h : cs.LeastPreferred L)
    (hdefined : cs.preferred ≠ Cid.undef) (id : Cid) : (cs.add L id).LeastPreferred L := by
  by_cases hlt : L.cidString id < L.cidString cs.preferred
  · have hpreferred : (cs.add L id).preferred = id := if_pos (Or.inr hlt)
    refine ⟨?_, ?_⟩
    · rw [hpreferred]
      exact List.mem_append_right _ (List.mem_singleton_self id)
    · intro x hx
      rw [hpreferred]
      rcases List.mem_append.mp hx with hx | hx
      · exact le_trans (le_of_lt hlt) (h.le x hx)
      · rw [List.mem_singleton.mp hx]
  · have hpreferred : (cs.add L id).preferred = cs.preferred :=
      if_neg (not_or.mpr ⟨hdefined, hlt⟩)
    refine ⟨?_, ?_⟩
    · rw [hpreferred]
      exact List.mem_append_left _ h.mem
    · intro x hx
      rw [hpreferred]
      rcases List.mem_append.mp hx with hx | hx
      · exact h.le x hx
      · rw [List.mem_singleton.mp hx]
        exact not_lt.mp hlt

namespace Mempool

/-! ## Sequences of operations -/

/-- An operation on the mempool that changes it. -/
inductive Op where
  | add (w : AddBlockWrapper)
  | deleteIDAndConflictSet (id : Cid)
  | bulkDelete (ids : List Cid)

def apply (L : Ipld) (m : Mempool) : Op → Mempool
  | .add w => m.add L w
  | .deleteIDAndConflictSet id => m.deleteIDAndConflictSet id
  | .bulkDelete ids => m.bulkDelete ids

/-- A mempool, from `newMempool` on. -/
def system (L : Ipld) : System Mempool Op where
  start := new
  act m op := some (m.apply L op)

/-- Requests are added under CIDs, a given CID always with the same request. -/
def sameRequest (L : Ipld) (abrOf : Cid → AddBlockRequest) (_ : Mempool) : Op → Bool
  | .add w => L.isCid w.cid.bytes && decide (w.abr = abrOf w.cid)
  | _ => true

/-! ## The invariant -/

/-- The requests and the conflict sets list the same CIDs, each in the set of its request. -/
structure Rep (L : Ipld) (abrOf : Cid → AddBlockRequest) (m : Mempool) : Prop where
  abr : ∀ id w, m.get id = some w → w.abr = abrOf id ∧ L.isCid id.bytes = true
  listed : ∀ id w, m.get id = some w →
    ∃ cs, m.conflictSets.lookup (toConflictSetID w.abr) = some cs ∧ id ∈ cs.ids
  sets : ∀ csID cs, m.conflictSets.lookup csID = some cs →
    (∀ id ∈ cs.ids, ∃ w, m.get id = some w ∧ toConflictSetID w.abr = csID) ∧
      cs.LeastPreferred L

variable {L : Ipld} {abrOf : Cid → AddBlockRequest} {m : Mempool}
variable {w : AddBlockWrapper} {cs : ConflictSet} {csID : Bytes}

theorem Rep.filed (h : m.Rep L abrOf) : m.Filed where
  listed := h.listed
  only := by
    intro csID cs hcs id hid w hw
    obtain ⟨v, hv, hset⟩ := (h.sets csID cs hcs).1 id hid
    rw [Option.some.inj (hw.symm.trans hv)]
    exact hset

theorem rep_new (L : Ipld) (abrOf : Cid → AddBlockRequest) : new.Rep L abrOf where
  abr := fun _ _ h => by simp [new, get] at h
  listed := fun _ _ h => by simp [new, get] at h
  sets := fun _ _ h => by simp [new] at h

/-- The preferred CID of a conflict set is a CID. -/
theorem Rep.preferred_ne_undef (hL : L.Faithful) (h : m.Rep L abrOf)
    (hcs : m.conflictSets.lookup csID = some cs) : cs.preferred ≠ Cid.undef := by
  intro hundef
  obtain ⟨hids, hleast⟩ := h.sets csID cs hcs
  obtain ⟨w, hw, -⟩ := hids _ hleast.mem
  have hcid := (h.abr _ w hw).2
  rw [hundef, show Cid.undef.bytes = [] from rfl, hL.isCid_nil] at hcid
  cases hcid

/-- A CID of the pool is added again with the request it stands for. -/
theorem Rep.get_add_of_some (h : m.Rep L abrOf) (hw : w.abr = abrOf w.cid) {id : Cid}
    {v : AddBlockWrapper} (hv : m.get id = some v) :
    ∃ u, (m.add L w).get id = some u ∧ u.abr = v.abr := by
  rw [get_add]
  split
  · next hid =>
    refine ⟨w, rfl, ?_⟩
    rw [hw, ← hid, (h.abr id v hv).1]
  · exact ⟨v, hv, rfl⟩

/-- What a conflict set lists after a request was added. -/
theorem Rep.sets_add (hL : L.Faithful) (h : m.Rep L abrOf) (hw : w.abr = abrOf w.cid)
    (hcs : (m.add L w).conflictSets.lookup csID = some cs) :
    (∀ id ∈ cs.ids, ∃ v, (m.add L w).get id = some v ∧ toConflictSetID v.abr = csID) ∧
      cs.LeastPreferred L := by
  have hold : ∀ id, (∃ v, m.get id = some v ∧ toConflictSetID v.abr = csID) →
      ∃ v, (m.add L w).get id = some v ∧ toConflictSetID v.abr = csID := by
    rintro id ⟨v, hv, hset⟩
    obtain ⟨u, hu, huv⟩ := h.get_add_of_some hw hv
    exact ⟨u, hu, by rw [huv, hset]⟩
  by_cases hk : csID = toConflictSetID w.abr
  · subst hk
    have hnew : ∃ v, (m.add L w).get w.cid = some v ∧
        toConflictSetID v.abr = toConflictSetID w.abr :=
      ⟨w, by rw [get_add, if_pos rfl], rfl⟩
    rw [add, AList.lookup_insert, Option.some.injEq] at hcs
    cases hl : m.conflictSets.lookup (toConflictSetID w.abr) with
    | none =>
      rw [hl, Option.getD_none] at hcs
      rw [← hcs]
      refine ⟨?_, ConflictSet.leastPreferred_first L w.cid⟩
      intro id hid
      rw [List.mem_singleton.mp hid]
      exact hnew
    | some old =>
      rw [hl, Option.getD_some] at hcs
      rw [← hcs]
      obtain ⟨hids, hleast⟩ := h.sets _ old hl
      refine ⟨?_, hleast.add (h.preferred_ne_undef hL hl) w.cid⟩
      intro id hid
      rcases List.mem_append.mp hid with hid | hid
      · exact hold id (hids id hid)
      · rw [List.mem_singleton.mp hid]
        exact hnew
  · rw [add, AList.lookup_insert_ne hk] at hcs
    obtain ⟨hids, hleast⟩ := h.sets csID cs hcs
    exact ⟨fun id hid => hold id (hids id hid), hleast⟩

theorem rep_add (hL : L.Faithful) (h : m.Rep L abrOf) (hcid : L.isCid w.cid.bytes = true)
    (hw : w.abr = abrOf w.cid) : (m.add L w).Rep L abrOf where
  abr := by
    intro id v hv
    rw [get_add] at hv
    split at hv
    · next hid =>
      rw [← Option.some.inj hv, hid]
      exact ⟨hw, hcid⟩
    · exact h.abr id v hv
  listed := listed_add h.listed w
  sets := fun _ _ hcs => h.sets_add hL hw hcs

theorem rep_delete (h : m.Rep L abrOf) (d : Cid) : (m.deleteIDAndConflictSet d).Rep L abrOf := by
  cases hb : m.get d with
  | none =>
    rw [delete_none hb]
    exact h
  | some b =>
    obtain ⟨-, -, -, hsets⟩ := delete_some h.filed hb
    refine ⟨?_, ?_, ?_⟩
    · intro id w hw
      exact h.abr id w ((get_delete_iff h.filed hb).mp hw).1
    · intro id w hw
      obtain ⟨hw', hne⟩ := (get_delete_iff h.filed hb).mp hw
      rw [hsets, AList.lookup_erase_ne hne]
      exact h.listed id w hw'
    · intro csID cs hcs
      rw [hsets] at hcs
      by_cases hk : csID = toConflictSetID b.abr
      · rw [hk, AList.lookup_erase] at hcs
        cases hcs
      · rw [AList.lookup_erase_ne hk] at hcs
        obtain ⟨hids, hleast⟩ := h.sets csID cs hcs
        refine ⟨?_, hleast⟩
        -- what another set lists was not taken along
        intro id hid
        obtain ⟨w, hw, hset⟩ := hids id hid
        exact ⟨w, (get_delete_iff h.filed hb).mpr ⟨hw, by rw [hset]; exact hk⟩, hset⟩

theorem rep_bulkDelete : ∀ (ids : List Cid) {m : Mempool}, m.Rep L abrOf →
    (m.bulkDelete ids).Rep L abrOf
  | [], _, h => h
  | d :: ids, _, h => rep_bulkDelete ids (rep_delete h d)

/-- **The invariant holds of every mempool**, after whatever operations. -/
theorem rep_of_reach (hL : L.Faithful) (h : (system L).Reach (sameRequest L abrOf) m) :
    m.Rep L abrOf := by
  refine h.invariant (P := fun m => m.Rep L abrOf) (rep_new L abrOf) ?_
  intro m op m' hm hok hact
  rw [← Option.some.inj hact]
  cases op with
  | add w =>
    obtain ⟨hcid, hw⟩ := Bool.and_eq_true_iff.mp hok
    exact rep_add hL hm hcid (of_decide_eq_true hw)
  | deleteIDAndConflictSet id => exact rep_delete hm id
  | bulkDelete ids => exact rep_bulkDelete ids hm

/-! ## What callers see -/

/-- The two halves of the mempool, and what the calls that read it return. -/
structure Consistent (L : Ipld) (m : Mempool) : Prop where
  /-- The conflict sets list the CIDs of the pool, -/
  keys : ∀ id, (∃ csID cs, m.conflictSets.lookup csID = some cs ∧ id ∈ cs.ids) ↔
    ∃ w, m.get id = some w
  /-- each only in the set of its own request. -/
  own : ∀ csID cs, m.conflictSets.lookup csID = some cs → ∀ id ∈ cs.ids, ∀ w,
    m.get id = some w → csID = toConflictSetID w.abr
  least : ∀ csID cs, m.conflictSets.lookup csID = some cs →
    cs.ids ≠ [] ∧ cs.LeastPreferred L
  /-- The requests that are preferred are one of each conflict set. -/
  preferred : m.preferred.map (fun id => (m.get id).map fun w => toConflictSetID w.abr) =
    m.conflictSets.keys.map some
  length : m.length = 0 ↔ m.preferred = []

/-- The conflict set of a preferred CID is the one it is preferred in. -/
theorem Rep.get_preferred (h : m.Rep L abrOf) (hcs : m.conflictSets.lookup csID = some cs) :
    ∃ w, m.get cs.preferred = some w ∧ w.abr = abrOf cs.preferred ∧
      toConflictSetID w.abr = csID := by
  obtain ⟨hids, hleast⟩ := h.sets csID cs hcs
  obtain ⟨w, hw, hset⟩ := hids _ hleast.mem
  exact ⟨w, hw, (h.abr _ w hw).1, hset⟩

theorem lookup_of_mem_entries {e : Sigma fun _ : Bytes => ConflictSet}
    (he : e ∈ m.conflictSets.entries) : m.conflictSets.lookup e.1 = some e.2 :=
  AList.mem_lookup_iff.mpr he

/-- The conflict sets of the preferred CIDs, by the requests they stand for. -/
theorem Rep.csIDs_preferred (h : m.Rep L abrOf) :
    m.preferred.map (fun id => toConflictSetID (abrOf id)) = m.conflictSets.keys := by
  unfold preferred AList.keys List.keys
  rw [List.map_map]
  refine List.map_congr_left ?_
  intro e he
  obtain ⟨w, -, habr, hset⟩ := h.get_preferred (lookup_of_mem_entries he)
  show toConflictSetID (abrOf e.2.preferred) = e.1
  rw [← habr, hset]

theorem Rep.length_eq_zero_iff (h : m.Rep L abrOf) : m.length = 0 ↔ m.preferred = [] := by
  unfold length preferred
  rw [List.length_eq_zero_iff, List.map_eq_nil_iff]
  constructor
  · intro habrs
    -- a conflict set would list a request of the pool
    cases hsets : m.conflictSets.entries with
    | nil => rfl
    | cons e es =>
      have he : e ∈ m.conflictSets.entries := by rw [hsets]; exact List.mem_cons_self
      obtain ⟨w, hw, -⟩ := h.get_preferred (lookup_of_mem_entries he)
      have hmem := AList.mem_lookup_iff.mp (Option.mem_def.mpr hw)
      rw [habrs] at hmem
      cases hmem
  · intro hsets
    -- and a request of the pool would be listed in one
    cases habrs : m.abrs.entries with
    | nil => rfl
    | cons e es =>
      have he : e ∈ m.abrs.entries := by rw [habrs]; exact List.mem_cons_self
      obtain ⟨cs, hcs, -⟩ := h.listed e.1 e.2 (AList.mem_lookup_iff.mpr he)
      have hmem := AList.mem_lookup_iff.mp (Option.mem_def.mpr hcs)
      rw [hsets] at hmem
      cases hmem

theorem Rep.consistent (h : m.Rep L abrOf) : m.Consistent L where
  keys := by
    intro id
    constructor
    · rintro ⟨csID, cs, hcs, hid⟩
      obtain ⟨w, hw, -⟩ := (h.sets csID cs hcs).1 id hid
      exact ⟨w, hw⟩
    · rintro ⟨w, hw⟩
      obtain ⟨cs, hcs, hid⟩ := h.listed id w hw
      exact ⟨_, cs, hcs, hid⟩
  own := by
    intro csID cs hcs id hid w hw
    exact (h.filed.only csID cs hcs id hid w hw).symm
  least := by
    intro csID cs hcs
    have hleast := (h.sets csID cs hcs).2
    exact ⟨List.ne_nil_of_mem hleast.mem, hleast⟩
  preferred := by
    unfold Mempool.preferred AList.keys List.keys
    rw [List.map_map, List.map_map]
    refine List.map_congr_left ?_
    intro e he
    obtain ⟨w, hw, -, hset⟩ := h.get_preferred (lookup_of_mem_entries he)
    show (m.get e.2.preferred).map _ = some e.1
    rw [hw, Option.map_some, hset]
  length := h.length_eq_zero_iff

/-! ## A proposal, read by another signer -/

/-- CIDs of the pool resolve to the requests they stand for. -/
theorem Rep.resolves (h : m.Rep L abrOf) : ∀ {ids : List Cid}, m.contains ids = true →
    ∃ ws, List.Forall₂ (Resolves L m) (ids.map (·.bytes)) ws ∧
      ws.map (fun w => toConflictSetID w.abr) = ids.map fun id => toConflictSetID (abrOf id)
  | [], _ => ⟨[], List.Forall₂.nil, rfl⟩
  | id :: ids, hall => by
    obtain ⟨hid, hids⟩ := Bool.and_eq_true_iff.mp hall
    obtain ⟨w, hw⟩ := Option.isSome_iff_exists.mp hid
    obtain ⟨habr, hcid⟩ := h.abr id w hw
    obtain ⟨ws, hres, hsets⟩ := h.resolves hids
    have hcast : L.cast id.bytes = .ok id := by
      unfold Ipld.cast
      rw [if_pos hcid]
    refine ⟨w :: ws, List.Forall₂.cons ⟨id, hcast, hw⟩ hres, ?_⟩
    rw [List.map_cons, List.map_cons, hsets, habr]

/--
**The mempool is consistent, and its proposal is admissible everywhere.**

After any operations in which a CID is always added with the same request: the requests and the
conflict sets agree; and the preferred requests, in whatever order the map is ranged over, pass
both checks of every pool that has them.
-/
theorem mempool_consistent (hL : L.Faithful) (h : (system L).Reach (sameRequest L abrOf) m) :
    m.Consistent L ∧
    ∀ m', (system L).Reach (sameRequest L abrOf) m' → ∀ ps : List Cid, ps.Perm m.preferred →
      m'.contains ps = true →
      m'.mempoolHasAllABRs L (ps.map (·.bytes)) = .ok true ∧
      m'.hasConflictingABRs L (ps.map (·.bytes)) = .ok false := by
  have hrep := rep_of_reach hL h
  refine ⟨hrep.consistent, ?_⟩
  intro m' h' ps hperm hall
  obtain ⟨ws, hres, hsets⟩ := (rep_of_reach hL h').resolves hall
  have hnodup : (ws.map fun w => toConflictSetID w.abr).Nodup := by
    rw [hsets, (hperm.map _).nodup_iff, hrep.csIDs_preferred]
    exact m.conflictSets.nodupKeys
  exact ⟨hasAllABRs_of_resolves hres,
    hasConflictingFrom_of_resolves hres hnodup fun _ _ hmem => by cases hmem⟩

/-! ### Two requests for one object, and one for another -/

namespace Example

def request (objectId newTip : Bytes) : AddBlockRequest := .bare objectId [] newTip 0

noncomputable def wrapper (abr : AddBlockRequest) : AddBlockWrapper :=
  { abr, cid := Ipld.inFull.cidOf (.addBlockRequest abr) }

/-- The request a CID of the example stands for. -/
noncomputable def requestOf (id : Cid) : AddBlockRequest :=
  if id = (wrapper (request [1] [1])).cid then request [1] [1]
  else if id = (wrapper (request [1] [2])).cid then request [1] [2]
  else request [2] [1]

/-- A signer that has heard of all three, of one of them twice. -/
noncomputable def ops : List Op :=
  [.add (wrapper (request [1] [2])), .add (wrapper (request [1] [1])),
    .add (wrapper (request [2] [1])), .add (wrapper (request [1] [2]))]

/-- A signer that has also decided on a request for the first object before. -/
noncomputable def ops' : List Op :=
  [.add (wrapper (request [1] [2])), .bulkDelete [(wrapper (request [1] [2])).cid],
    .add (wrapper (request [2] [1])), .add (wrapper (request [1] [1])),
    .deleteIDAndConflictSet Cid.undef, .add (wrapper (request [1] [2]))]

theorem mempool_consistent_example : ∃ m m',
    (system Ipld.inFull).Reach (sameRequest Ipld.inFull requestOf) m ∧
    (system Ipld.inFull).Reach (sameRequest Ipld.inFull requestOf) m' ∧
    m.Consistent Ipld.inFull ∧ m.preferred.length = 2 ∧ m.length = 3 ∧
    m'.mempoolHasAllABRs Ipld.inFull (m.preferred.map (·.bytes)) = .ok true ∧
    m'.hasConflictingABRs Ipld.inFull (m.preferred.map (·.bytes)) = .ok false := by
  have hrun : ((system Ipld.inFull).run (sameRequest Ipld.inFull requestOf) ops).map
      (fun m => (m.preferred, m.length)) =
      some ([(wrapper (request [1] [1])).cid, (wrapper (request [2] [1])).cid], 3) := by
    decide +kernel
  have hrun' : ((system Ipld.inFull).run (sameRequest Ipld.inFull requestOf) ops').map
      (fun m => m.contains [(wrapper (request [1] [1])).cid, (wrapper (request [2] [1])).cid]) =
      some true := by
    decide +kernel
  obtain ⟨m, hm, hvalues⟩ := Option.map_eq_some_iff.mp hrun
  obtain ⟨m', hm', hcontains⟩ := Option.map_eq_some_iff.mp hrun'
  obtain ⟨hpreferred, hlength⟩ := Prod.mk.inj hvalues
  have hreach := System.reach_of_run hm
  have hreach' := System.reach_of_run hm'
  obtain ⟨hconsistent, hadmissible⟩ := mempool_consistent Ipld.inFull_faithful hreach
  obtain ⟨hall, hfree⟩ := hadmissible m' hreach' m.preferred (List.Perm.refl _)
    (by rw [hpreferred]; exact hcontains)
  exact ⟨m, m', hreach, hreach', hconsistent, by rw [hpreferred]; rfl, hlength, hall, hfree⟩

end Example

end Mempool

end Tupelo

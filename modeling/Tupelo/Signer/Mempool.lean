import Tupelo.Infra.GoMap
import Tupelo.Infra.Except
import Tupelo.Ipld

/-!
# The mempool of a signer

The model of `signer/gossip/mempool.go`, and of the two checks that
`signer/gossip/snowballnetwork.go` makes of a checkpoint against it.

The mempool holds validated requests by their CIDs. Requests of one object and height conflict:
their CIDs are listed in one conflict set, and deleting one deletes them all.

`Mempool.Listed` is the invariant behind that: every request in the pool stands in the list of
its conflict set. `Mempool.Keyed` is about the callers: they add a request under its own CID.
-/

namespace Tupelo

open Infra

/-- `AddBlockWrapper`: a request, and its CID once it has been stored. -/
structure AddBlockWrapper where
  abr : AddBlockRequest
  cid : Cid
  deriving DecidableEq, Repr

/-- `strconv.FormatUint(n, 10)`. -/
def formatUint (n : UInt64) : Bytes := (Nat.toDigits 10 n.toNat).map Char.toUInt8

/-- `toConflictSetID`. -/
def toConflictSetID (abr : AddBlockRequest) : Bytes := abr.objectId ++ formatUint abr.height

/-- `conflictSet`. -/
structure ConflictSet where
  ids : List Cid
  preferred : Cid
  deriving DecidableEq, Repr

def ConflictSet.empty : ConflictSet := { ids := [], preferred := Cid.undef }

def ConflictSet.add (L : Ipld) (cs : ConflictSet) (id : Cid) : ConflictSet where
  ids := cs.ids ++ [id]
  preferred :=
    if cs.preferred = Cid.undef ∨ L.cidString id < L.cidString cs.preferred then id
    else cs.preferred

/-- `mempool`. -/
structure Mempool where
  abrs : GoMap Cid AddBlockWrapper
  conflictSets : GoMap Bytes ConflictSet

namespace Mempool

def new : Mempool := { abrs := ∅, conflictSets := ∅ }

def add (L : Ipld) (m : Mempool) (w : AddBlockWrapper) : Mempool :=
  let indexKey := toConflictSetID w.abr
  let cs := (m.conflictSets.lookup indexKey).getD ConflictSet.empty
  { abrs := m.abrs.insert w.cid w
    conflictSets := m.conflictSets.insert indexKey (cs.add L w.cid) }

def get (m : Mempool) (id : Cid) : Option AddBlockWrapper := m.abrs.lookup id

def deleteIDAndConflictSet (m : Mempool) (id : Cid) : Mempool :=
  match m.abrs.lookup id with
  | none => m
  | some existing =>
    let abrs := m.abrs.erase id
    let csID := toConflictSetID existing.abr
    match m.conflictSets.lookup csID with
    | none => { m with abrs := abrs }
    | some cs =>
      { abrs := GoMap.eraseAll abrs cs.ids, conflictSets := m.conflictSets.erase csID }

def bulkDelete (m : Mempool) (ids : List Cid) : Mempool := ids.foldl deleteIDAndConflictSet m

def contains (m : Mempool) (ids : List Cid) : Bool := ids.all fun id => (m.get id).isSome

/-- The preferred request of every conflict set; the code ranges over a map, in any order. -/
def preferred (m : Mempool) : List Cid := m.conflictSets.entries.map fun e => e.2.preferred

def length (m : Mempool) : Nat := m.abrs.entries.length

/-! ## `snowballnetwork.go` -/

/-- A CID of a checkpoint that does not cast is a panic in all of the signer. -/
def castOrPanic (L : Ipld) (cidBytes : Bytes) : Except Fault Cid :=
  match L.cast cidBytes with
  | .ok id => .ok id
  | .error _ => .error (.panic "error casting add block request cid")

def mempoolHasAllABRs (L : Ipld) (m : Mempool) : List Bytes → Except Fault Bool
  | [] => .ok true
  | cidBytes :: rest => do
    let abrCID ← castOrPanic L cidBytes
    -- the loop goes on after a missing one, to ask the syncer for the others too
    let hasRest ← mempoolHasAllABRs L m rest
    pure (m.contains [abrCID] && hasRest)

/-- The loop of `hasConflictingABRs`; `csIds` are the conflict sets seen so far. -/
def hasConflictingFrom (L : Ipld) (m : Mempool) : List Bytes → List Bytes → Except Fault Bool
  | _, [] => .ok false
  | csIds, cidBytes :: rest => do
    let abrCID ← castOrPanic L cidBytes
    match m.get abrCID with
    | none => pure true
    | some wrapper =>
      let conflictSetID := toConflictSetID wrapper.abr
      if conflictSetID ∈ csIds then pure true
      else hasConflictingFrom L m (conflictSetID :: csIds) rest

def hasConflictingABRs (L : Ipld) (m : Mempool) (abrCIDs : List Bytes) : Except Fault Bool :=
  hasConflictingFrom L m [] abrCIDs

/-- Whether `doTick` nils out a vote for these requests. -/
def nilsVote (L : Ipld) (m : Mempool) (abrs : List Bytes) : Except Fault Bool :=
  if abrs.length = 0 then .ok true
  else do
    let hasAll ← m.mempoolHasAllABRs L abrs
    if !hasAll then pure true else m.hasConflictingABRs L abrs

/-! ## What the operations do -/

variable {L : Ipld} {m : Mempool}
variable {bs : List Bytes} {w : AddBlockWrapper}

/-- Every request of the pool is there under its own CID. -/
def Keyed (L : Ipld) (m : Mempool) : Prop :=
  ∀ id w, m.get id = some w → w.cid = id ∧ L.cidOf (.addBlockRequest w.abr) = id

/-- The pool and its conflict sets agree. -/
structure Wf (L : Ipld) (m : Mempool) : Prop where
  keyed : m.Keyed L
  /-- A request of the pool is listed in its conflict set, -/
  listed : ∀ id w, m.get id = some w →
    ∃ cs, m.conflictSets.lookup (toConflictSetID w.abr) = some cs ∧ id ∈ cs.ids
  /-- and what a conflict set lists are requests of that conflict set. -/
  only : ∀ csID cs, m.conflictSets.lookup csID = some cs →
    ∀ id ∈ cs.ids, ∃ abr, L.cidOf (.addBlockRequest abr) = id ∧ toConflictSetID abr = csID

theorem get_add (L : Ipld) (m : Mempool) (w : AddBlockWrapper) (id : Cid) :
    (m.add L w).get id = if id = w.cid then some w else m.get id := by
  unfold get add
  by_cases h : id = w.cid
  · rw [if_pos h, h, AList.lookup_insert]
  · rw [if_neg h, AList.lookup_insert_ne h]

theorem wf_new : new.Wf L where
  keyed := fun _ _ h => by simp [new, get] at h
  listed := fun _ _ h => by simp [new, get] at h
  only := fun _ _ h => by simp [new] at h

theorem keyed_add (h : m.Keyed L) (hw : w.cid = L.cidOf (.addBlockRequest w.abr)) :
    (m.add L w).Keyed L := by
  intro id v hv
  rw [get_add] at hv
  split at hv
  · next hid =>
    rw [← Option.some.inj hv, hid]
    exact ⟨rfl, hw.symm⟩
  · exact h id v hv

/-- What is listed in its conflict set stays there, and the new request comes into its own. -/
theorem listed_add (h : ∀ id v, m.get id = some v →
      ∃ cs, m.conflictSets.lookup (toConflictSetID v.abr) = some cs ∧ id ∈ cs.ids)
    (w : AddBlockWrapper) (id : Cid) (v : AddBlockWrapper) (hv : (m.add L w).get id = some v) :
    ∃ cs, (m.add L w).conflictSets.lookup (toConflictSetID v.abr) = some cs ∧ id ∈ cs.ids := by
  rw [get_add] at hv
  by_cases hk : toConflictSetID v.abr = toConflictSetID w.abr
  · -- the conflict set that has just grown by `w.cid`
    refine ⟨_, by rw [add, hk, AList.lookup_insert], ?_⟩
    rw [ConflictSet.add, List.mem_append, List.mem_singleton]
    split at hv
    · next hid => exact Or.inr hid
    · obtain ⟨cs, hcs, hmem⟩ := h id v hv
      rw [← hk, hcs]
      exact Or.inl hmem
  · split at hv
    · next hid => exact absurd (by rw [Option.some.inj hv]) hk
    · obtain ⟨cs, hcs, hmem⟩ := h id v hv
      exact ⟨cs, by rw [add, AList.lookup_insert_ne hk, hcs], hmem⟩

theorem wf_add (h : m.Wf L) (hw : w.cid = L.cidOf (.addBlockRequest w.abr)) : (m.add L w).Wf L where
  keyed := keyed_add h.keyed hw
  listed := listed_add h.listed w
  only := by
    intro csID cs hcs id hid
    by_cases hk : csID = toConflictSetID w.abr
    · subst hk
      rw [add, AList.lookup_insert, Option.some.injEq] at hcs
      rw [← hcs, ConflictSet.add, List.mem_append, List.mem_singleton] at hid
      rcases hid with hid | hid
      · cases hl : m.conflictSets.lookup (toConflictSetID w.abr) with
        | none =>
          rw [hl] at hid
          cases hid
        | some cs' =>
          rw [hl] at hid
          exact h.only _ cs' hl id hid
      · exact ⟨w.abr, by rw [hid, hw], rfl⟩
    · rw [add, AList.lookup_insert_ne hk] at hcs
      exact h.only _ cs hcs id hid

/-- Every request of the pool is listed in its own conflict set and in no other. -/
structure Filed (m : Mempool) : Prop where
  listed : ∀ id w, m.get id = some w →
    ∃ cs, m.conflictSets.lookup (toConflictSetID w.abr) = some cs ∧ id ∈ cs.ids
  only : ∀ csID cs, m.conflictSets.lookup csID = some cs → ∀ id ∈ cs.ids, ∀ w,
    m.get id = some w → toConflictSetID w.abr = csID

theorem Wf.filed (hL : L.Faithful) (h : m.Wf L) : m.Filed where
  listed := h.listed
  only := by
    intro csID cs hcs id hid w hw
    obtain ⟨abr, habr, hset⟩ := h.only csID cs hcs id hid
    have heq : L.cidOf (.addBlockRequest w.abr) = L.cidOf (.addBlockRequest abr) :=
      (h.keyed id w hw).2.trans habr.symm
    rw [DagNode.addBlockRequest.inj (hL.injective heq), hset]

theorem delete_none {d : Cid} (h : m.get d = none) : m.deleteIDAndConflictSet d = m := by
  have h' : m.abrs.lookup d = none := h
  unfold deleteIDAndConflictSet
  rw [h']

/-- Deleting a request takes its conflict set away, and all the set lists. -/
theorem delete_some (hm : m.Filed) {d : Cid} {b : AddBlockWrapper} (hb : m.get d = some b) :
    ∃ cs, m.conflictSets.lookup (toConflictSetID b.abr) = some cs ∧
      (∀ id, (m.deleteIDAndConflictSet d).get id = if id ∈ cs.ids then none else m.get id) ∧
      (m.deleteIDAndConflictSet d).conflictSets =
        m.conflictSets.erase (toConflictSetID b.abr) := by
  obtain ⟨cs, hcs, hd⟩ := hm.listed d b hb
  have hb' : m.abrs.lookup d = some b := hb
  refine ⟨cs, hcs, ?_, ?_⟩
  · intro id
    unfold deleteIDAndConflictSet get
    simp only [hb', hcs, GoMap.lookup_eraseAll]
    by_cases hid : id ∈ cs.ids
    · rw [if_pos hid, if_pos hid]
    · rw [if_neg hid, if_neg hid, AList.lookup_erase_ne]
      rintro rfl
      exact hid hd
  · unfold deleteIDAndConflictSet
    simp only [hb', hcs]

/-- **Deleting a request deletes its conflicts**, and nothing else. -/
theorem get_delete_iff (hm : m.Filed) {d : Cid} {b : AddBlockWrapper} (hb : m.get d = some b)
    {id : Cid} :
    (m.deleteIDAndConflictSet d).get id = some w ↔
      m.get id = some w ∧ toConflictSetID w.abr ≠ toConflictSetID b.abr := by
  obtain ⟨cs, hcs, hget, -⟩ := delete_some hm hb
  rw [hget]
  by_cases hid : id ∈ cs.ids
  · rw [if_pos hid]
    constructor
    · intro h
      cases h
    · rintro ⟨hw, hne⟩
      exact absurd (hm.only _ cs hcs id hid w hw) hne
  · rw [if_neg hid]
    refine ⟨fun hw => ⟨hw, fun heq => hid ?_⟩, fun h => h.1⟩
    obtain ⟨cs', hcs', hmem⟩ := hm.listed id w hw
    rw [heq, hcs] at hcs'
    rw [Option.some.inj hcs']
    exact hmem

theorem wf_delete (hL : L.Faithful) (hm : m.Wf L) (d : Cid) :
    (m.deleteIDAndConflictSet d).Wf L := by
  cases hb : m.get d with
  | none =>
    rw [delete_none hb]
    exact hm
  | some b =>
    have hfiled := hm.filed hL
    obtain ⟨-, -, -, hsets⟩ := delete_some hfiled hb
    refine ⟨?_, ?_, ?_⟩
    · intro id w hw
      exact hm.keyed id w ((get_delete_iff hfiled hb).mp hw).1
    · intro id w hw
      obtain ⟨hw', hne⟩ := (get_delete_iff hfiled hb).mp hw
      rw [hsets, AList.lookup_erase_ne hne]
      exact hm.listed id w hw'
    · intro csID cs' hcs' id hid
      rw [hsets] at hcs'
      by_cases hk : csID = toConflictSetID b.abr
      · rw [hk, AList.lookup_erase] at hcs'
        cases hcs'
      · rw [AList.lookup_erase_ne hk] at hcs'
        exact hm.only csID cs' hcs' id hid

theorem wf_bulkDelete (hL : L.Faithful) : ∀ (ids : List Cid) {m : Mempool}, m.Wf L →
    (m.bulkDelete ids).Wf L
  | [], _, hm => hm
  | d :: ids, _, hm => wf_bulkDelete hL ids (wf_delete hL hm d)

/-- **What a batch leaves** is what conflicts with no request of the batch. -/
theorem get_bulkDelete_iff (hL : L.Faithful) : ∀ (ids : List Cid) {m : Mempool}, m.Wf L →
    ∀ {id : Cid} {w : AddBlockWrapper}, (m.bulkDelete ids).get id = some w ↔
      m.get id = some w ∧ ∀ d ∈ ids, ∀ b, m.get d = some b →
        toConflictSetID w.abr ≠ toConflictSetID b.abr
  | [], m, _, id, w => by
    show m.get id = some w ↔ _
    simp
  | d :: ids, m, hm, id, w => by
    show ((m.deleteIDAndConflictSet d).bulkDelete ids).get id = some w ↔ _
    rw [get_bulkDelete_iff hL ids (wf_delete hL hm d), List.forall_mem_cons]
    cases hb : m.get d with
    | none =>
      rw [delete_none hb]
      simp
    | some b =>
      have hfiled := hm.filed hL
      rw [get_delete_iff hfiled hb]
      constructor
      · rintro ⟨⟨hw, hne⟩, hrest⟩
        refine ⟨hw, ?_, ?_⟩
        · intro b' hb'
          rw [← Option.some.inj hb']
          exact hne
        · -- a request the first deletion took along had the conflict set of `b`
          intro e he c hc
          by_cases hcb : toConflictSetID c.abr = toConflictSetID b.abr
          · rw [hcb]
            exact hne
          · exact hrest e he c ((get_delete_iff hfiled hb).mpr ⟨hc, hcb⟩)
      · rintro ⟨hw, hne, hrest⟩
        refine ⟨⟨hw, hne b rfl⟩, ?_⟩
        intro e he c hc
        exact hrest e he c ((get_delete_iff hfiled hb).mp hc).1

/-! ### The conflict check -/

theorem castOrPanic_ok {b : Bytes} {id : Cid} : castOrPanic L b = .ok id ↔ L.cast b = .ok id := by
  unfold castOrPanic
  cases L.cast b with
  | ok c => rfl
  | error f => simp

/-- The request a CID of a checkpoint stands for. -/
def Resolves (L : Ipld) (m : Mempool) (b : Bytes) (w : AddBlockWrapper) : Prop :=
  ∃ id, L.cast b = .ok id ∧ m.get id = some w

theorem hasConflictingFrom_false : ∀ {bs csIds : List Bytes},
    hasConflictingFrom L m csIds bs = .ok false →
      ∃ ws, List.Forall₂ (Resolves L m) bs ws ∧
        (ws.map fun w => toConflictSetID w.abr).Nodup ∧
        ∀ w ∈ ws, toConflictSetID w.abr ∉ csIds
  | [], _, _ => ⟨[], List.Forall₂.nil, List.nodup_nil, fun _ h => by cases h⟩
  | b :: bs, csIds, h => by
    obtain ⟨id, hid, h⟩ := bind_eq_ok.mp h
    rw [castOrPanic_ok] at hid
    cases hw : m.get id with
    | none =>
      rw [hw] at h
      exact absurd (pure_eq_ok.mp h) Bool.false_ne_true.symm
    | some w =>
      rw [hw] at h
      simp only [] at h
      split at h
      · exact absurd (pure_eq_ok.mp h) Bool.false_ne_true.symm
      · next hnew =>
        obtain ⟨ws, hres, hnd, hout⟩ := hasConflictingFrom_false h
        refine ⟨w :: ws, List.Forall₂.cons ⟨id, hid, hw⟩ hres, ?_, ?_⟩
        · rw [List.map_cons, List.nodup_cons]
          refine ⟨?_, hnd⟩
          intro hmem
          obtain ⟨v, hv, hvw⟩ := List.mem_map.mp hmem
          exact hout v hv (by rw [hvw]; exact List.mem_cons_self)
        · intro v hv
          rcases List.mem_cons.mp hv with rfl | hv'
          · exact hnew
          · exact fun hin => hout v hv' (List.mem_cons_of_mem _ hin)

/--
**A checkpoint that passes the check** names requests of the pool, no two of one conflict set.
-/
theorem hasConflictingABRs_false (h : hasConflictingABRs L m bs = .ok false) :
    ∃ ws, List.Forall₂ (Resolves L m) bs ws ∧ (ws.map fun w => toConflictSetID w.abr).Nodup := by
  obtain ⟨ws, hres, hnd, -⟩ := hasConflictingFrom_false h
  exact ⟨ws, hres, hnd⟩

/-- A vote that counts is one for requests that pass the check. -/
theorem hasConflictingABRs_of_nilsVote (h : nilsVote L m bs = .ok false) :
    bs ≠ [] ∧ hasConflictingABRs L m bs = .ok false := by
  obtain ⟨hlen, h⟩ : ¬ bs.length = 0 ∧ _ := by
    unfold nilsVote at h
    split at h
    · cases h
    · next hlen => exact ⟨hlen, h⟩
  obtain ⟨hasAll, -, h⟩ := bind_eq_ok.mp h
  refine ⟨fun he => hlen (by rw [he]; rfl), ?_⟩
  split at h
  · exact absurd (pure_eq_ok.mp h) Bool.false_ne_true.symm
  · exact h

theorem hasAllABRs_of_resolves {ws : List AddBlockWrapper} (h : List.Forall₂ (Resolves L m) bs ws) :
    m.mempoolHasAllABRs L bs = .ok true := by
  induction h with
  | nil => rfl
  | cons hb _ ih =>
    obtain ⟨id, hid, hget⟩ := hb
    rw [mempoolHasAllABRs, castOrPanic_ok.mpr hid, ok_bind, ih, ok_bind]
    simp [contains, hget]

theorem hasConflictingFrom_of_resolves {ws : List AddBlockWrapper}
    (h : List.Forall₂ (Resolves L m) bs ws) : ∀ {csIds : List Bytes},
      (ws.map fun w => toConflictSetID w.abr).Nodup →
      (∀ w ∈ ws, toConflictSetID w.abr ∉ csIds) → hasConflictingFrom L m csIds bs = .ok false := by
  induction h with
  | nil =>
    intro csIds _ _
    rfl
  | @cons b w bs ws hb _ ih =>
    intro csIds hnodup hnew
    obtain ⟨id, hid, hget⟩ := hb
    rw [List.map_cons, List.nodup_cons] at hnodup
    rw [hasConflictingFrom, castOrPanic_ok.mpr hid, ok_bind]
    simp only [hget]
    rw [if_neg (hnew w List.mem_cons_self)]
    refine ih hnodup.2 ?_
    intro v hv hmem
    rcases List.mem_cons.mp hmem with heq | hmem
    · exact hnodup.1 (List.mem_map.mpr ⟨v, hv, heq⟩)
    · exact hnew v (List.mem_cons_of_mem _ hv) hmem

/-- **A vote counts** exactly if it names requests of the pool, no two of one conflict set. -/
theorem nilsVote_false_iff : nilsVote L m bs = .ok false ↔
    bs ≠ [] ∧ ∃ ws, List.Forall₂ (Resolves L m) bs ws ∧
      (ws.map fun w => toConflictSetID w.abr).Nodup := by
  constructor
  · intro h
    obtain ⟨hne, hfree⟩ := hasConflictingABRs_of_nilsVote h
    exact ⟨hne, hasConflictingABRs_false hfree⟩
  · rintro ⟨hne, ws, hres, hnodup⟩
    unfold nilsVote hasConflictingABRs
    rw [if_neg fun h => hne (List.length_eq_zero_iff.mp h), hasAllABRs_of_resolves hres, ok_bind,
      hasConflictingFrom_of_resolves hres hnodup fun _ _ hmem => by cases hmem]
    rfl

/-- In such a checkpoint the conflict set determines the request. -/
theorem eq_of_csID_eq (h : hasConflictingABRs L m bs = .ok false) {b c : Bytes} (hb : b ∈ bs)
    (hc : c ∈ bs) {v : AddBlockWrapper} (hw : Resolves L m b w) (hv : Resolves L m c v)
    (heq : toConflictSetID w.abr = toConflictSetID v.abr) : w = v := by
  obtain ⟨ws, hres, hnd⟩ := hasConflictingABRs_false h
  have hmem : ∀ {b w}, b ∈ bs → Resolves L m b w → w ∈ ws := by
    intro b w hb hw
    obtain ⟨i, hi, rfl⟩ := List.mem_iff_getElem.mp hb
    have hi' : i < ws.length := by rw [← hres.length_eq]; exact hi
    obtain ⟨id, hid, hget⟩ := hres.get hi hi'
    obtain ⟨id', hid', hget'⟩ := hw
    have hids : id = id' := Except.ok.inj (hid.symm.trans hid')
    rw [hids, hget'] at hget
    rw [Option.some.inj hget]
    exact List.get_mem ws ⟨i, hi'⟩
  exact List.inj_on_of_nodup_map hnd (hmem hb hw) (hmem hc hv) heq

end Mempool

end Tupelo

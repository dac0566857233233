import Tupelo.Signer.MempoolInvariant
import Tupelo.Signer.Snowballer

/-!
# What signers with the same requests propose

When a round starts, a signer proposes the preferred request of every conflict set. Which
requests these are does not depend on the order in which the requests came: the preferred one of
a conflict set is the one with the least CID.

The checkpoint lists them in the order in which the map of the conflict sets is ranged over, and
its CID is that of the list. So signers with the same mempool propose different checkpoints as
soon as there are two conflict sets.
-/

namespace Tupelo

open Infra

namespace Mempool

/-- The mempool that these requests lead to, added one after the other. -/
def built (L : Ipld) (abrs : List AddBlockRequest) : Mempool :=
  abrs.foldl (Snowballer.stored L) new

variable {L : Ipld} {abrs abrs' : List AddBlockRequest}

theorem built_concat (L : Ipld) (abrs : List AddBlockRequest) (abr : AddBlockRequest) :
    built L (abrs ++ [abr]) = Snowballer.stored L (built L abrs) abr := List.foldl_concat ..

/-- The pool has the requests that were added, each under its CID. -/
theorem get_built {id : Cid} {w : AddBlockWrapper} (hL : L.Faithful) :
    (built L abrs).get id = some w ↔
      ∃ abr ∈ abrs, id = L.cidOf (.addBlockRequest abr) ∧ w = { abr, cid := id } := by
  induction abrs using List.reverseRecOn with
  | nil => simp [built, new, get]
  | append_singleton abrs a ih =>
    rw [built_concat, Snowballer.stored, get_add]
    split
    · next hid =>
      constructor
      · intro h
        exact ⟨a, by simp, hid, by rw [← Option.some.inj h, hid]⟩
      · rintro ⟨abr, -, hid', rfl⟩
        rw [hid] at hid'
        rw [hid, DagNode.addBlockRequest.inj (hL.injective hid')]
    · next hid =>
      rw [ih]
      constructor
      · rintro ⟨abr, habr, hrest⟩
        exact ⟨abr, List.mem_append_left _ habr, hrest⟩
      · rintro ⟨abr, habr, hid', hw⟩
        rcases List.mem_append.mp habr with habr | habr
        · exact ⟨abr, habr, hid', hw⟩
        · rw [List.mem_singleton.mp habr] at hid'
          exact absurd hid' hid

/-- Distinct requests have distinct CIDs, so a CID stands for one request. -/
theorem exists_abrOf (hL : L.Faithful) : ∃ abrOf : Cid → AddBlockRequest,
    ∀ abr, abrOf (L.cidOf (.addBlockRequest abr)) = abr := by
  have hinj : Function.Injective fun abr => L.cidOf (.addBlockRequest abr) := by
    intro a b h
    exact DagNode.addBlockRequest.inj (hL.injective h)
  have : Nonempty AddBlockRequest := ⟨⟨[], [], [], 0, [], []⟩⟩
  exact hinj.hasLeftInverse

theorem rep_built (hL : L.Faithful) {abrOf : Cid → AddBlockRequest}
    (habrOf : ∀ abr, abrOf (L.cidOf (.addBlockRequest abr)) = abr) (abrs : List AddBlockRequest) :
    (built L abrs).Rep L abrOf := by
  induction abrs using List.reverseRecOn with
  | nil => exact rep_new L abrOf
  | append_singleton abrs a ih =>
    rw [built_concat]
    exact rep_add hL ih (hL.isCid_cidOf _) (habrOf a).symm

/-- The CID of a request that has the least one among those it conflicts with. -/
def Chosen (L : Ipld) (abrs : List AddBlockRequest) (p : Cid) : Prop :=
  ∃ a ∈ abrs, p = L.cidOf (.addBlockRequest a) ∧ ∀ b ∈ abrs,
    toConflictSetID b = toConflictSetID a →
      L.cidString p ≤ L.cidString (L.cidOf (.addBlockRequest b))

theorem mem_preferred {m : Mempool} {p : Cid} :
    p ∈ m.preferred ↔ ∃ csID cs, m.conflictSets.lookup csID = some cs ∧ cs.preferred = p := by
  unfold preferred
  rw [List.mem_map]
  constructor
  · rintro ⟨e, he, rfl⟩
    exact ⟨e.1, e.2, lookup_of_mem_entries he, rfl⟩
  · rintro ⟨csID, cs, hcs, rfl⟩
    exact ⟨⟨csID, cs⟩, AList.mem_lookup_iff.mp hcs, rfl⟩

/-- **The preferred requests are chosen**, whatever the order in which the requests came. -/
theorem mem_preferred_built (hL : L.Faithful) (hstring : Function.Injective L.cidString)
    {p : Cid} : p ∈ (built L abrs).preferred ↔ Chosen L abrs p := by
  obtain ⟨abrOf, habrOf⟩ := exists_abrOf hL
  have hrep := rep_built hL habrOf abrs
  -- the preferred request of a conflict set is the least of it
  have hleast : ∀ {csID cs}, (built L abrs).conflictSets.lookup csID = some cs →
      ∃ a ∈ abrs, cs.preferred = L.cidOf (.addBlockRequest a) ∧ toConflictSetID a = csID ∧
        ∀ b ∈ abrs, toConflictSetID b = csID →
          L.cidString cs.preferred ≤ L.cidString (L.cidOf (.addBlockRequest b)) := by
    intro csID cs hcs
    obtain ⟨w, hw, -, hset⟩ := hrep.get_preferred hcs
    obtain ⟨a, ha, hcid, rfl⟩ := (get_built hL).mp hw
    refine ⟨a, ha, hcid, hset, ?_⟩
    intro b hb hbset
    obtain ⟨cs', hcs', hmem⟩ := hrep.listed _ _ ((get_built hL).mpr ⟨b, hb, rfl, rfl⟩)
    rw [show toConflictSetID b = csID from hbset, hcs] at hcs'
    rw [← Option.some.inj hcs'] at hmem
    exact (hrep.sets csID cs hcs).2.le _ hmem
  rw [mem_preferred]
  constructor
  · rintro ⟨csID, cs, hcs, rfl⟩
    obtain ⟨a, ha, hcid, hset, hle⟩ := hleast hcs
    exact ⟨a, ha, hcid, fun b hb hbset => hle b hb (hbset.trans hset)⟩
  · rintro ⟨a, ha, rfl, hle⟩
    obtain ⟨cs, hcs, -⟩ := hrep.listed _ _ ((get_built hL).mpr ⟨a, ha, rfl, rfl⟩)
    refine ⟨toConflictSetID a, cs, hcs, ?_⟩
    obtain ⟨b, hb, hcid, hset, hle'⟩ := hleast hcs
    refine hstring (le_antisymm (hle' a ha rfl) ?_)
    rw [hcid]
    exact hle b hb hset

theorem nodup_preferred (hL : L.Faithful) (abrs : List AddBlockRequest) :
    (built L abrs).preferred.Nodup := by
  obtain ⟨abrOf, habrOf⟩ := exists_abrOf hL
  refine List.Nodup.of_map (fun id => toConflictSetID (abrOf id)) ?_
  rw [(rep_built hL habrOf abrs).csIDs_preferred]
  exact (built L abrs).conflictSets.nodupKeys

/-- **The same requests are preferred**, in some order. -/
theorem preferred_perm (hL : L.Faithful) (hstring : Function.Injective L.cidString)
    (hsame : ∀ a, a ∈ abrs ↔ a ∈ abrs') :
    (built L abrs).preferred.Perm (built L abrs').preferred := by
  rw [List.perm_ext_iff_of_nodup (nodup_preferred hL abrs) (nodup_preferred hL abrs')]
  intro p
  rw [mem_preferred_built hL hstring, mem_preferred_built hL hstring]
  unfold Chosen
  simp only [hsame]

/-- There is at most one conflict set exactly if all requests conflict. -/
theorem length_preferred_le_one_iff (hL : L.Faithful) :
    (built L abrs).preferred.length ≤ 1 ↔
      ∀ a ∈ abrs, ∀ b ∈ abrs, toConflictSetID a = toConflictSetID b := by
  obtain ⟨abrOf, habrOf⟩ := exists_abrOf hL
  have hrep := rep_built hL habrOf abrs
  have hkeys : ∀ {csID}, csID ∈ (built L abrs).conflictSets.keys ↔
      ∃ a ∈ abrs, toConflictSetID a = csID := by
    intro csID
    constructor
    · intro hmem
      obtain ⟨cs, hcs⟩ := Option.isSome_iff_exists.mp (AList.lookup_isSome.mpr hmem)
      obtain ⟨w, hw, -, hset⟩ := hrep.get_preferred hcs
      obtain ⟨a, ha, -, rfl⟩ := (get_built hL).mp hw
      exact ⟨a, ha, hset⟩
    · rintro ⟨a, ha, rfl⟩
      obtain ⟨cs, hcs, -⟩ := hrep.listed _ _ ((get_built hL).mpr ⟨a, ha, rfl, rfl⟩)
      exact AList.lookup_isSome.mp (Option.isSome_iff_exists.mpr ⟨cs, hcs⟩)
  have hlength : (built L abrs).preferred.length = (built L abrs).conflictSets.keys.length := by
    rw [← hrep.csIDs_preferred, List.length_map]
  have hnodup : (built L abrs).conflictSets.keys.Nodup := (built L abrs).conflictSets.nodupKeys
  rw [hlength]
  generalize (built L abrs).conflictSets.keys = keys at hkeys hnodup
  constructor
  · intro hle a ha b hb
    have hka := hkeys.mpr ⟨a, ha, rfl⟩
    have hkb := hkeys.mpr ⟨b, hb, rfl⟩
    rcases keys with _ | ⟨k, _ | ⟨k', rest⟩⟩
    · cases hka
    · rw [List.mem_singleton.mp hka, List.mem_singleton.mp hkb]
    · simp only [List.length_cons] at hle
      omega
  · intro hall
    rcases keys with _ | ⟨k, _ | ⟨k', rest⟩⟩
    · exact Nat.zero_le 1
    · exact Nat.le_refl 1
    · -- two conflict sets, and a request of each
      obtain ⟨a, ha, rfl⟩ := hkeys.mp List.mem_cons_self
      obtain ⟨b, hb, rfl⟩ := hkeys.mp (List.mem_cons_of_mem _ List.mem_cons_self)
      rw [List.nodup_cons, hall a ha b hb] at hnodup
      exact absurd List.mem_cons_self hnodup.1

end Mempool

namespace Snowballer

variable {A : FloatArith} {L : Ipld}

/-- The id of the vote that the snowballer of a round prefers once it has started. -/
def proposed (L : Ipld) (height : Nat) (snowball : Snowball A) (m : Mempool) (order : MapOrder) :
    Option String :=
  ((new height snowball m).start L order).snowball.preferred.map (·.id L)

variable {height : Nat} {m m' : Mempool} {order order' : MapOrder} {alpha : A.F} {beta : Int}
  {k : Nat}

theorem proposed_eq (L : Ipld) (height : Nat) (alpha : A.F) (beta : Int) (k : Nat) (m : Mempool)
    (order : MapOrder) :
    proposed L height (Snowball.new alpha beta k) m order =
      if order.order m.preferred = [] then none
      else some (L.cidString (L.cidOf (.checkpoint
        { height, addBlockRequests := (order.order m.preferred).map (·.bytes) }))) := by
  unfold proposed start new
  simp only [Bool.false_eq_true, if_false]
  by_cases hnil : order.order m.preferred = []
  · rw [hnil]
    rfl
  · rw [if_pos (List.length_pos_iff.mpr hnil), if_neg hnil]
    rfl

/-- The id of a proposal determines what is proposed, and in which order. -/
theorem proposed_eq_iff (hL : L.Faithful) (hstring : Function.Injective L.cidString) :
    proposed L height (Snowball.new alpha beta k) m order =
        proposed L height (Snowball.new alpha beta k) m' order' ↔
      order.order m.preferred = order'.order m'.preferred := by
  rw [proposed_eq, proposed_eq]
  constructor
  · intro h
    by_cases hnil : order.order m.preferred = []
    · rw [if_pos hnil] at h
      by_cases hnil' : order'.order m'.preferred = []
      · rw [hnil, hnil']
      · rw [if_neg hnil'] at h
        cases h
    · rw [if_neg hnil] at h
      by_cases hnil' : order'.order m'.preferred = []
      · rw [if_pos hnil'] at h
        cases h
      · rw [if_neg hnil'] at h
        have hcp := DagNode.checkpoint.inj (hL.injective (hstring (Option.some.inj h)))
        have hbytes := congrArg Checkpoint.addBlockRequests hcp
        exact List.map_injective_iff.mpr (fun c c' hc => Cid.ext hc) hbytes
  · intro h
    rw [h]

/--
**Signers with the same requests propose the same checkpoint** exactly if all the requests
conflict. Then there is one preferred request, and it does not matter in which orders the
requests came and the map is ranged over.
-/
theorem proposed_same_iff (hL : L.Faithful) (hstring : Function.Injective L.cidString)
    (height : Nat) (alpha : A.F) (beta : Int) (k : Nat) (R : List AddBlockRequest) :
    (∀ abrs abrs' : List AddBlockRequest, (∀ a, a ∈ abrs ↔ a ∈ R) → (∀ a, a ∈ abrs' ↔ a ∈ R) →
      ∀ order order' : MapOrder,
        proposed L height (Snowball.new alpha beta k) (Mempool.built L abrs) order =
          proposed L height (Snowball.new alpha beta k) (Mempool.built L abrs') order') ↔
      ∀ a ∈ R, ∀ b ∈ R, toConflictSetID a = toConflictSetID b := by
  constructor
  · intro h
    have hreversed := h R R (fun _ => Iff.rfl) (fun _ => Iff.rfl) MapOrder.reversed MapOrder.plain
    rw [proposed_eq_iff hL hstring, MapOrder.order_plain] at hreversed
    exact (Mempool.length_preferred_le_one_iff hL).mp
      (MapOrder.length_le_one_of_reversed (Mempool.nodup_preferred hL R) hreversed)
  · intro hall abrs abrs' habrs habrs' order order'
    rw [proposed_eq_iff hL hstring]
    have hshort : (Mempool.built L abrs).preferred.length ≤ 1 := by
      rw [Mempool.length_preferred_le_one_iff hL]
      intro a ha b hb
      exact hall a ((habrs a).mp ha) b ((habrs b).mp hb)
    have hperm := Mempool.preferred_perm hL hstring fun a => (habrs a).trans (habrs' a).symm
    rw [MapOrder.eq_of_perm (order.perm _) hshort,
      MapOrder.eq_of_perm ((order'.perm _).trans hperm.symm) hshort]

/-! ### Two objects -/

namespace Example

/-- Two requests for one object. -/
def rivals : List AddBlockRequest := [request, { request with newTip := [3] }]

theorem proposed_same_iff_example :
    proposed Ipld.inFull 5 (Snowball.new (A := exactArith) (333 / 500 : ℚ) 10 2)
        (Mempool.built Ipld.inFull rivals) MapOrder.plain =
      proposed Ipld.inFull 5 (Snowball.new (A := exactArith) (333 / 500 : ℚ) 10 2)
        (Mempool.built Ipld.inFull (rivals ++ rivals.reverse)) MapOrder.reversed := by
  have hall : ∀ a ∈ rivals, ∀ b ∈ rivals, toConflictSetID a = toConflictSetID b := by decide
  refine (proposed_same_iff (A := exactArith) Ipld.inFull_faithful Ipld.inFull_cidString_injective 5
    (333 / 500 : ℚ) 10 2 rivals).mpr hall rivals (rivals ++ rivals.reverse) (fun _ => Iff.rfl) ?_
    MapOrder.plain MapOrder.reversed
  intro a
  simp

/-- Requests for two objects. -/
def unrelated : List AddBlockRequest := [request, { request with objectId := [2] }]

/-- **The same mempool makes two proposals** for the two orders of its conflict sets. -/
theorem proposed_differently :
    proposed Ipld.inFull 5 (Snowball.new (A := exactArith) (333 / 500 : ℚ) 10 2)
        (Mempool.built Ipld.inFull unrelated) MapOrder.plain ≠
      proposed Ipld.inFull 5 (Snowball.new (A := exactArith) (333 / 500 : ℚ) 10 2)
        (Mempool.built Ipld.inFull unrelated) MapOrder.reversed := by
  decide +kernel

end Example

end Snowballer

end Tupelo

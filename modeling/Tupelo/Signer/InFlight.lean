import Tupelo.Infra.Lists
import Tupelo.Signer.Refinement
import Tupelo.Signer.RequestKeys

/-!
# Requests in flight

A request that comes too early waits until the request before it is decided. Then
`handleSnowballerDone` takes it out of the cache and, if the tips match, has it stored in the
mempool.

The cache has one place for each object and height, and the last request that comes takes it,
whatever its tips are. So a request is promoted if nothing else gets in its place until then.
-/

namespace Tupelo

open Infra

namespace Node

variable {L : Ipld} {n : Node}
variable {abr : AddBlockRequest} {n' : Node}

/-- The request is too early for what is known of its object. -/
def Early : Option AddBlockRequest → AddBlockRequest → Prop
  | none, abr => abr.height ≠ 0
  | some current, abr => current.height.toNat + 1 < abr.height.toNat

/-- Whether `handleAddBlockRequest` stores the request as one in flight. -/
def queues (L : Ipld) (n : Node) (abr : AddBlockRequest) : Bool :=
  match (n.getCurrent L abr.objectId).1 with
  | .error _ => false
  | .ok none => decide (abr.height ≠ 0)
  | .ok (some current) =>
    decide (¬ current.height > abr.height ∧ current.height + 1 ≠ abr.height ∧
      abr.height > current.height + 1)

theorem queues_of_early {current : Option AddBlockRequest}
    (hcurrent : (n.getCurrent L abr.objectId).1 = .ok current) (h : Early current abr) :
    n.queues L abr = true := by
  unfold queues
  rw [hcurrent]
  cases current with
  | none => exact decide_eq_true h
  | some current =>
    have hlt : current.height.toNat + 1 < abr.height.toNat := h
    have hbound := abr.height.toNat_lt
    have hone : (1 : UInt64).toNat = 1 := rfl
    have hnext : (current.height + 1).toNat = current.height.toNat + 1 := by
      rw [UInt64.toNat_add, hone]
      omega
    refine decide_eq_true ⟨?_, ?_, ?_⟩
    · rw [gt_iff_lt, UInt64.lt_iff_toNat_lt]
      omega
    · intro heq
      rw [heq] at hnext
      omega
    · rw [gt_iff_lt, UInt64.lt_iff_toNat_lt, hnext]
      exact hlt

/-- Looking up a round leaves the requests alone. -/
theorem Looked.requests {n₁ : Node} (h : Looked L n n₁) : n₁.mempool = n.mempool ∧
    n₁.inflight = n.inflight ∧ n₁.promotions = n.promotions := by
  obtain ⟨heap, roundCache, rfl⟩ := h.frame
  exact ⟨rfl, rfl, rfl⟩

theorem storeAbr_inflight (L : Ipld) (n : Node) (w : AddBlockWrapper) (stored : Bool) :
    (n.storeAbr L w stored).inflight = n.inflight ∧
      (n.storeAbr L w stored).promotions = n.promotions := by
  cases stored with
  | false => exact ⟨rfl, rfl⟩
  | true => exact ⟨rfl, rfl⟩

/-- A request that arrives is put in flight, or leaves the cache as it is. -/
theorem handleAddBlockRequest_inflight (L : Ipld) (n : Node) (w : AddBlockWrapper)
    (stored : Bool) : (n.handleAddBlockRequest L w stored).inflight =
      if n.queues L w.abr then n.inflight.add w.abr.slot.key w else n.inflight := by
  have hlooked := (looked_getCurrent L n w.abr.objectId).requests.2.1
  unfold handleAddBlockRequest queues
  simp only []
  cases hg : n.getCurrent L w.abr.objectId with
  | mk current n₁ =>
    have hn₁ : n₁.inflight = n.inflight := by
      rw [hg] at hlooked
      exact hlooked
    have hstored : (n₁.storeAbr L w stored).inflight = n.inflight :=
      (storeAbr_inflight L n₁ w stored).1.trans hn₁
    have hqueued : (n₁.storeAsInFlight w).inflight = n.inflight.add w.abr.slot.key w := by
      rw [← hn₁]
      rfl
    cases current with
    | error f => exact hn₁
    | ok current =>
      cases current with
      | none =>
        by_cases h0 : w.abr.height = 0
        · simp [h0, hstored]
        · simp [h0, hqueued]
      | some current =>
        by_cases hold : current.height > w.abr.height
        · simp [hold, hn₁]
        · by_cases hnext : current.height + 1 = w.abr.height
          · by_cases htip : current.newTip ≠ w.abr.previousTip
            · simp [hold, hnext, htip, hn₁]
            · simp [hold, hnext, htip, hstored]
          · by_cases hearly : w.abr.height > current.height + 1
            · simp [hold, hnext, hearly, hqueued]
            · simp [hold, hnext, hearly, hn₁]

/-! ## A request that waits -/

/-- The key under which a decision looks for the request after `abr`. -/
def nextKey (abr : AddBlockRequest) : Bytes := inFlightID abr.objectId (abr.height + 1)

/-- The request is in flight. -/
def Waits (n : Node) (abr : AddBlockRequest) : Prop :=
  n.inflight.peek abr.slot.key = some { abr, cid := Cid.undef }

theorem waits_of_queues (hf : n.Filing L) {stored : Bool} (h : n.queues L abr = true) :
    (n.handleAddBlockRequest L { abr, cid := Cid.undef } stored).Waits abr := by
  unfold Waits
  rw [handleAddBlockRequest_inflight, if_pos h]
  exact Lru.peek_add_self _ (by rw [hf.size]; omega) _ _

/-- The cache of requests in flight changes when one arrives and when a round is decided. -/
theorem step_inflight {E : Env} {e : Event} (h : n.step E e = some n') :
    n'.inflight = n.inflight ∨ (∃ abr stored, e = .addBlockRequest abr stored) ∨
      ∃ cp, e = .snowballerDone cp := by
  cases eventStep_of_step h with
  | drop | await | store => exact Or.inr (Or.inl ⟨_, _, rfl⟩)
  | decided => exact Or.inr (Or.inr ⟨_, rfl⟩)
  | promote => exact Or.inl (storeAbr_inflight _ _ _ _).1
  | running | start => exact Or.inl rfl
  | background ht hr hthread =>
    exact Or.inl ((setThread_inflight _ _ _ _).2.trans hthread.inflight)
  | answer hn₁ | tick hn₁ => exact Or.inl hn₁.requests.2.1
  | @republish _ _ n₁ _ _ hget | @spawn _ _ n₁ _ hget =>
    exact Or.inl (show n₁.inflight = n.inflight from (Looked.of_get hget).requests.2.1)

/-! ## A decision -/

/-- What a decision finds of the requests of its checkpoint, and does with those in flight. -/
theorem handleSnowballerDone_collect {cp : Checkpoint} (h : n.handleSnowballerDone L cp = .ok n') :
    ∃ n₁ abrs n₂, Looked L n n₁ ∧ collect L cp.addBlockRequests n₁ = .ok (abrs, n₂) ∧
      n'.inflight = n₂.inflight ∧ n'.promotions = n₂.promotions ∧
      TracedNode.applied L n cp = abrs.map (·.2.abr) := by
  obtain ⟨⟨state, n₁⟩, hstate, h⟩ := bind_eq_ok.mp h
  obtain ⟨⟨abrs, n₂⟩, habrs, h⟩ := bind_eq_ok.mp h
  have hlook := looked_previousState hstate
  refine ⟨n₁, abrs, n₂, hlook, habrs, ?_, ?_, ?_⟩
  · rw [← pure_eq_ok.mp h]
  · rw [← pure_eq_ok.mp h]
  · unfold TracedNode.applied
    rw [← hlook.requests.1]
    exact applied_eq (collect_ok habrs).1

/-- No request of the checkpoint looks under the key. -/
theorem peek_collect {key : Bytes} : ∀ {bs : List Bytes} {n n' : Node}
    {abrs : List (Cid × AddBlockWrapper)}, collect L bs n = .ok (abrs, n') →
    (∀ d ∈ abrs.map (·.2.abr), nextKey d ≠ key) → n'.inflight.peek key = n.inflight.peek key
  | [], n, n', abrs, h, _ => by
    obtain ⟨-, rfl⟩ := Prod.mk.inj (Except.ok.inj h)
    rfl
  | b :: bs, n, n', abrs, h, hne => by
    obtain ⟨id, w, rest, rfl, -, hrest⟩ := collect_cons h
    rw [List.map_cons, List.forall_mem_cons] at hne
    rw [peek_collect hrest hne.2, peek_promoteNext n w hne.1.symm]

theorem promotions_promoteNext (n : Node) (w : AddBlockWrapper) :
    n.promotions <+: (n.promoteNext w).promotions := by
  rcases promoteNext_inflight n w with ⟨-, heq⟩ | ⟨next, -, heq⟩
  · rw [heq]
  · rw [heq]
    simp only []
    split
    · exact List.prefix_append _ _
    · exact List.prefix_refl _

/-- **The request that waits is promoted** by the first one that looks under its key. -/
theorem promoted_collect : ∀ {bs : List Bytes} {n n' : Node}
    {abrs : List (Cid × AddBlockWrapper)}, collect L bs n = .ok (abrs, n') → n.Waits abr →
    (∃ d ∈ abrs.map (·.2.abr), nextKey d = abr.slot.key) →
    (∀ d ∈ abrs.map (·.2.abr), nextKey d = abr.slot.key → d.newTip = abr.previousTip) →
    ∃ ps, n'.promotions = n.promotions ++ ps ∧ { abr, cid := Cid.undef } ∈ ps
  | [], n, n', abrs, h, _, hsome, _ => by
    obtain ⟨rfl, -⟩ := Prod.mk.inj (Except.ok.inj h)
    obtain ⟨d, hd, -⟩ := hsome
    cases hd
  | b :: bs, n, n', abrs, h, hwaits, hsome, hmatch => by
    obtain ⟨id, w, rest, rfl, -, hrest⟩ := collect_cons h
    rw [List.map_cons] at hsome hmatch
    rw [List.forall_mem_cons] at hmatch
    by_cases hkey : nextKey w.abr = abr.slot.key
    · rcases promoteNext_inflight n w with ⟨hnone, -⟩ | ⟨next, hnext, heq⟩
      · rw [show inFlightID w.abr.objectId (w.abr.height + 1) = abr.slot.key from hkey,
          show n.inflight.peek abr.slot.key = _ from hwaits] at hnone
        cases hnone
      · rw [show inFlightID w.abr.objectId (w.abr.height + 1) = abr.slot.key from hkey,
          show n.inflight.peek abr.slot.key = _ from hwaits] at hnext
        have htip : next.abr.previousTip = w.abr.newTip := by
          rw [← Option.some.inj hnext]
          exact (hmatch.1 hkey).symm
        have hpromoted : (n.promoteNext w).promotions =
            n.promotions ++ [{ abr, cid := Cid.undef }] := by
          rw [heq, Option.some.inj hnext]
          exact if_pos htip
        -- what comes after it only adds to the promotions
        have hprefix : (n.promoteNext w).promotions <+: n'.promotions :=
          collect_rule (P := fun m => (n.promoteNext w).promotions <+: m.promotions)
            (fun m v hm => hm.trans (promotions_promoteNext m v)) hrest (List.prefix_refl _)
        obtain ⟨ps, hps⟩ := hprefix
        refine ⟨{ abr, cid := Cid.undef } :: ps, ?_, List.mem_cons_self⟩
        rw [← hps, hpromoted, List.append_assoc]
        rfl
    · have hwaits' : (n.promoteNext w).Waits abr := by
        unfold Waits
        rw [peek_promoteNext n w (Ne.symm hkey)]
        exact hwaits
      have hsome' : ∃ d ∈ rest.map (·.2.abr), nextKey d = abr.slot.key := by
        obtain ⟨d, hd, hdkey⟩ := hsome
        rcases List.mem_cons.mp hd with rfl | hd
        · exact absurd hdkey hkey
        · exact ⟨d, hd, hdkey⟩
      obtain ⟨ps, hps, hmem⟩ := promoted_collect hrest hwaits' hsome' hmatch.2
      obtain ⟨qs, hqs⟩ := promotions_promoteNext n w
      refine ⟨qs ++ ps, ?_, List.mem_append_right _ hmem⟩
      rw [hps, ← hqs, List.append_assoc]

/-! ### A promotion that comes first -/

/--
The mempool after a decision, if the goroutines of some promotions have stored their requests
before the batch is deleted. The handler starts them in its loop, and does not wait.
-/
def promotedFirst (L : Ipld) (n : Node) (cp : Checkpoint) (ws : List AddBlockWrapper) : Mempool :=
  (ws.foldl (fun m w => m.add L { w with cid := L.cidOf (.addBlockRequest w.abr) })
    n.mempool).bulkDelete (cp.addBlockRequests.filterMap fun b => (L.cast b).toOption)

/-- A mempool after requests have been stored. -/
theorem wf_stored (ws : List AddBlockWrapper) : ∀ {m : Mempool}, m.Wf L →
    (ws.foldl (fun m w => m.add L { w with cid := L.cidOf (.addBlockRequest w.abr) }) m).Wf L := by
  induction ws with
  | nil => exact fun h => h
  | cons w ws ih => exact fun h => ih (Mempool.wf_add h rfl)

theorem get_stored (hL : L.Faithful) {a : AddBlockRequest} {ws : List AddBlockWrapper} :
    ∀ {m : Mempool}, ({ abr := a, cid := Cid.undef } ∈ ws ∨
      m.get (L.cidOf (.addBlockRequest a)) =
        some { abr := a, cid := L.cidOf (.addBlockRequest a) }) →
    (ws.foldl (fun m w => m.add L { w with cid := L.cidOf (.addBlockRequest w.abr) }) m).get
      (L.cidOf (.addBlockRequest a)) =
        some { abr := a, cid := L.cidOf (.addBlockRequest a) } := by
  induction ws with
  | nil => exact fun h => h.resolve_left List.not_mem_nil
  | cons w ws ih =>
    intro m h
    refine ih ?_
    by_cases hw : w.abr = a
    · right
      rw [Mempool.get_add, hw, if_pos rfl]
    · rcases h with hmem | hget
      · rcases List.mem_cons.mp hmem with rfl | hmem
        · exact absurd rfl hw
        · exact Or.inl hmem
      · right
        have hne : L.cidOf (.addBlockRequest a) ≠ L.cidOf (.addBlockRequest w.abr) :=
          fun heq => hw (DagNode.addBlockRequest.inj (hL.injective heq)).symm
        rw [Mempool.get_add, if_neg hne, hget]

/-- **It is not deleted with the batch**, unless the batch has a request of its conflict set. -/
theorem get_promotedFirst (hL : L.Faithful) (hpool : n.mempool.Wf L) {cp : Checkpoint}
    {a : AddBlockRequest}
    (hkey : ∀ d ∈ TracedNode.applied L n cp, toConflictSetID d ≠ toConflictSetID a)
    (h : n.handleSnowballerDone L cp = .ok n') {ws : List AddBlockWrapper}
    (ha : { abr := a, cid := Cid.undef } ∈ ws) :
    (n.promotedFirst L cp ws).get (L.cidOf (.addBlockRequest a)) =
      some { abr := a, cid := L.cidOf (.addBlockRequest a) } := by
  have hstored := wf_stored ws hpool
  refine (Mempool.get_bulkDelete_iff hL _ hstored).mpr ⟨get_stored hL (Or.inl ha), ?_⟩
  intro id hid b hb
  obtain ⟨bits, hbits, hcast⟩ := List.mem_filterMap.mp hid
  obtain ⟨n₁, abrs, n₂, hlook, hcollect, -, -, -⟩ := handleSnowballerDone_collect h
  obtain ⟨e, hnames⟩ := exists_of_forall₂ (collect_ok hcollect).1 hbits
  rw [hlook.requests.1] at hnames
  obtain rfl : id = e.1 := Except.ok.inj ((toOption_eq_some.mp hcast).symm.trans hnames.1)
  -- what the CID stood for in the mempool, it stands for now
  have hsame : b.abr = e.2.abr := DagNode.addBlockRequest.inj (hL.injective
    ((hstored.keyed _ b hb).2.trans (hpool.keyed _ e.2 hnames.2).2.symm))
  rw [hsame]
  refine (hkey e.2.abr (List.mem_filterMap.mpr ⟨bits, hbits, ?_⟩)).symm
  rw [hcast, Option.bind_some, hnames.2, Option.map_some]

end Node

/-! ## While it waits -/

namespace TracedNode

/-- The runs of a signer from the state `s` on. -/
def following (E : Env) (s : TracedNode) : System TracedNode Action := { system E with start := s }

/--
Nothing takes the place of the request: no other request is put in flight under its key, none
for which there is no room, and no request is decided that looks under its key. The signer does
not restart.
-/
def undisplaced (L : Ipld) (abr : AddBlockRequest) (s : TracedNode) : Action → Bool
  | .crash => false
  | .event (.addBlockRequest other _) =>
    !s.node.queues L other || decide (other = abr) ||
      decide (other.slot.key ≠ abr.slot.key ∧
        (s.node.inflight.without other.slot.key).length < s.node.inflight.size)
  | .event (.snowballerDone cp) =>
    (applied L s.node cp).all fun d => decide (Node.nextKey d ≠ abr.slot.key)
  | _ => true

theorem waits_step {E : Env} {s : TracedNode} {n' : Node} {abr : AddBlockRequest} {e : Node.Event}
    (hf : s.node.Filing E.L) (hwaits : s.node.Waits abr)
    (hok : undisplaced E.L abr s (.event e) = true) (h : s.node.step E e = some n') :
    n'.Waits abr := by
  rcases Node.step_inflight h with hsame | ⟨other, stored, rfl⟩ | ⟨cp, rfl⟩
  · unfold Node.Waits
    rw [hsame]
    exact hwaits
  · rw [← Option.some.inj h]
    by_cases hqueues : s.node.queues E.L other = true
    · by_cases hother : other = abr
      · rw [hother] at hqueues ⊢
        exact Node.waits_of_queues hf hqueues
      · have hroom : other.slot.key ≠ abr.slot.key ∧
            (s.node.inflight.without other.slot.key).length < s.node.inflight.size := by
          simpa [undisplaced, hqueues, hother] using hok
        unfold Node.Waits
        rw [Node.handleAddBlockRequest_inflight, if_pos hqueues]
        have hkeep : abr.slot.key ∉ s.node.inflight.evicted other.slot.key := by
          rw [Lru.evicted_eq_nil hroom.2]
          exact List.not_mem_nil
        exact ((Lru.peek_add_eq_iff hf.distinct (by rw [hf.size]; omega) hroom.1.symm _).mpr
          hkeep).trans hwaits
    · unfold Node.Waits
      rw [Node.handleAddBlockRequest_inflight, if_neg hqueues]
      exact hwaits
  · have hdone := (Node.step_snowballerDone h).2
    obtain ⟨n₁, abrs, n₂, hlook, hcollect, hinflight, -, happlied⟩ :=
      Node.handleSnowballerDone_collect hdone
    have hnone : ∀ d ∈ abrs.map (·.2.abr), Node.nextKey d ≠ abr.slot.key := by
      rw [← happlied]
      intro d hd
      exact of_decide_eq_true (List.all_eq_true.mp hok d hd)
    unfold Node.Waits
    rw [hinflight, Node.peek_collect hcollect hnone, hlook.requests.2.1]
    exact hwaits

theorem waits_following {E : Env} (hL : E.L.Faithful) {s₁ s : TracedNode} {abr : AddBlockRequest}
    (hf : s₁.node.Filing E.L) (hwaits : s₁.node.Waits abr)
    (h : (following E s₁).Reach (undisplaced E.L abr) s) :
    s.node.Filing E.L ∧ s.node.Waits abr := by
  refine h.invariant (P := fun s => s.node.Filing E.L ∧ s.node.Waits abr) ⟨hf, hwaits⟩ ?_
  intro s a s' hs hok hact
  cases a with
  | crash => cases hok
  | event e =>
    obtain ⟨n, hn, rfl⟩ := act_event hact
    exact ⟨hs.1.step hL hn, waits_step hs.1 hs.2 hok hn⟩

/-- The next height of a request whose height is not the last. -/
theorem nextKey_eq {a d : AddBlockRequest} (hobject : d.objectId = a.objectId)
    (hheight : d.height.toNat + 1 = a.height.toNat) : Node.nextKey d = a.slot.key := by
  have hnext : d.height + 1 = a.height := by
    rw [← UInt64.toNat_inj, UInt64.toNat_add, show (1 : UInt64).toNat = 1 from rfl, hheight]
    exact Nat.mod_eq_of_lt a.height.toNat_lt
  unfold Node.nextKey
  rw [hobject, hnext]
  rfl

/--
**A request in flight is promoted** when the request before it is decided, if nothing has taken
its place. It came too early, and waited through whatever events; the decision has it stored,
and it is in the mempool once that has been done: after the batch is deleted or, the goroutine
being faster, before. In that case a request of its conflict set in the batch would take it along.
-/
theorem inFlight_promoted {E : Env} (hL : E.L.Faithful) {s₀ s₁ s₂ s₃ : TracedNode}
    {a d : AddBlockRequest} {current : Option AddBlockRequest} {stored : Bool} {cp : Checkpoint}
    (h₀ : (system E).Reach (fun _ _ => true) s₀)
    (hcurrent : (s₀.node.getCurrent E.L a.objectId).1 = .ok current)
    (hearly : Node.Early current a)
    (h₁ : act E s₀ (.event (.addBlockRequest a stored)) = some s₁)
    (h₂ : (following E s₁).Reach (undisplaced E.L a) s₂)
    (h₃ : act E s₂ (.event (.snowballerDone cp)) = some s₃)
    (hd : d ∈ applied E.L s₂.node cp) (hobject : d.objectId = a.objectId)
    (hheight : d.height.toNat + 1 = a.height.toNat) (htip : d.newTip = a.previousTip)
    (hmatch : ∀ d' ∈ applied E.L s₂.node cp, Node.nextKey d' = a.slot.key →
      d'.newTip = d.newTip)
    (hkey : ∀ d' ∈ applied E.L s₂.node cp, toConflictSetID d' ≠ toConflictSetID a) :
    (∃ ps, s₃.node.promotions = s₂.node.promotions ++ ps ∧ { abr := a, cid := Cid.undef } ∈ ps) ∧
    (∃ i s₄, act E s₃ (.event (.promotion i true)) = some s₄ ∧
      s₄.node.mempool.get (E.L.cidOf (.addBlockRequest a)) =
        some { abr := a, cid := E.L.cidOf (.addBlockRequest a) }) ∧
    ∀ ws, { abr := a, cid := Cid.undef } ∈ ws →
      (s₂.node.promotedFirst E.L cp ws).get (E.L.cidOf (.addBlockRequest a)) =
        some { abr := a, cid := E.L.cidOf (.addBlockRequest a) } := by
  have hf := filing_reach hL h₀
  obtain ⟨hf₂, hwaits⟩ : s₂.node.Filing E.L ∧ s₂.node.Waits a := by
    obtain ⟨n₁, hn₁, rfl⟩ := act_event h₁
    refine waits_following hL (hf.step hL hn₁) ?_ h₂
    rw [← Option.some.inj hn₁]
    exact Node.waits_of_queues hf (Node.queues_of_early hcurrent hearly)
  have hpromoted : ∃ ps, s₃.node.promotions = s₂.node.promotions ++ ps ∧
      { abr := a, cid := Cid.undef } ∈ ps := by
    obtain ⟨n₃, hn₃, rfl⟩ := act_event h₃
    obtain ⟨n₁, abrs, n₂, hlook, hcollect, -, hpromotions, happlied⟩ :=
      Node.handleSnowballerDone_collect (Node.step_snowballerDone hn₃).2
    obtain ⟨heap, roundCache, rfl⟩ := hlook.frame
    rw [happlied] at hd hmatch
    rw [htip] at hmatch
    obtain ⟨ps, hps, hmem⟩ := Node.promoted_collect hcollect hwaits
      ⟨d, hd, nextKey_eq hobject hheight⟩ hmatch
    exact ⟨ps, hpromotions.trans hps, hmem⟩
  refine ⟨hpromoted, ?_, fun ws hws => ?_⟩
  swap
  · obtain ⟨n₃, hn₃, rfl⟩ := act_event h₃
    exact Node.get_promotedFirst hL hf₂.pool hkey (Node.step_snowballerDone hn₃).2 hws
  obtain ⟨ps, hps, hmem⟩ := hpromoted
  obtain ⟨i, hi⟩ := List.mem_iff_getElem?.mp (by
    rw [hps]
    exact List.mem_append_right _ hmem :
      ({ abr := a, cid := Cid.undef } : AddBlockWrapper) ∈ s₃.node.promotions)
  refine ⟨i, _, by rw [act, Node.step, hi]; rfl, ?_⟩
  show (Mempool.add E.L _ _).get _ = _
  rw [Mempool.get_add, if_pos rfl]

/-! ### A request at height 1 and its rivals -/

namespace InFlightExample

open RunExample (abr env)

/-- The request that waits, and the one before it. -/
def early : AddBlockRequest := abr 1 2 1

def before : AddBlockRequest := abr 0 1 0

noncomputable def first : Checkpoint := Ipld.inFull.naming 0 [before]

/-- A signer that puts the request in flight, -/
noncomputable def queued : Option TracedNode :=
  act env (system env).start (.event (.addBlockRequest early true))

/-- hears of another one, and of the one before it, -/
noncomputable def meanwhile (other : AddBlockRequest) : List Action :=
  [.event (.addBlockRequest other true), .event (.addBlockRequest before true),
    .event .startSnowball]

/-- and decides that. -/
noncomputable def decided : Action := .event (.snowballerDone first)

theorem inFlight_promoted_example : ∃ s₁ s₂ s₃ i s₄,
    act env (system env).start (.event (.addBlockRequest early true)) = some s₁ ∧
    (following env s₁).Reach (undisplaced Ipld.inFull early) s₂ ∧
    act env s₂ decided = some s₃ ∧ act env s₃ (.event (.promotion i true)) = some s₄ ∧
    s₄.node.mempool.get (Ipld.inFull.cidOf (.addBlockRequest early)) =
      some { abr := early, cid := Ipld.inFull.cidOf (.addBlockRequest early) } ∧
    (s₂.node.promotedFirst Ipld.inFull first [{ abr := early, cid := Cid.undef }]).get
      (Ipld.inFull.cidOf (.addBlockRequest early)) =
        some { abr := early, cid := Ipld.inFull.cidOf (.addBlockRequest early) } := by
  have hrun : (queued.bind fun s₁ =>
      ((following env s₁).run (undisplaced Ipld.inFull early)
        (meanwhile (.bare [2] [1] [2] 1))).bind
        fun s₂ => (act env s₂ decided).map fun _ => applied Ipld.inFull s₂.node first) =
      some [before] := by decide +kernel
  obtain ⟨s₁, h₁, hrun⟩ := Option.bind_eq_some_iff.mp hrun
  obtain ⟨s₂, h₂, hrun⟩ := Option.bind_eq_some_iff.mp hrun
  obtain ⟨s₃, h₃, happlied⟩ := Option.map_eq_some_iff.mp hrun
  have hreach := System.reach_of_run h₂
  have hheight : Node.Early none early := by
    show early.height ≠ 0
    decide
  have honly : ∀ d ∈ applied env.L s₂.node first, d = before := by
    rw [show env.L = Ipld.inFull from rfl, happlied]
    exact fun d => List.mem_singleton.mp
  have hmem : before ∈ applied env.L s₂.node first := by
    rw [show env.L = Ipld.inFull from rfl, happlied]
    exact List.mem_singleton_self before
  obtain ⟨-, ⟨i, s₄, h₄, hpool⟩, hovertaken⟩ := inFlight_promoted (E := env) (a := early)
    (d := before) Ipld.inFull_faithful System.Reach.start rfl hheight h₁ hreach h₃ hmem rfl rfl rfl
    (fun d hd _ => by rw [honly d hd]) (fun d hd => by rw [honly d hd]; decide)
  exact ⟨s₁, s₂, s₃, i, s₄, h₁, hreach, h₃, h₄, hpool, hovertaken _ (List.mem_singleton_self _)⟩

/-- **A request of the same object and height takes the place**, and is not promoted either. -/
theorem inFlight_displaced : ∃ s₁ s₂ s₃,
    act env (system env).start (.event (.addBlockRequest early true)) = some s₁ ∧
    s₁.node.Waits early ∧ (following env s₁).Reach (fun _ _ => true) s₂ ∧
    applied Ipld.inFull s₂.node first = [before] ∧ before.newTip = early.previousTip ∧
    act env s₂ decided = some s₃ ∧ s₃.node.promotions = [] ∧ s₃.node.inflight.entries = [] ∧
    s₃.node.mempool.length = 0 := by
  have hrun : (queued.bind fun s₁ =>
      ((following env s₁).run (fun _ _ => true) (meanwhile (abr 9 2 1))).bind
        fun s₂ => (act env s₂ decided).map fun s₃ =>
          (s₁.node.inflight.peek early.slot.key, applied Ipld.inFull s₂.node first,
            s₃.node.promotions.length + s₃.node.inflight.entries.length, s₃.node.mempool.length)) =
      some (some { abr := early, cid := Cid.undef }, [before], 0, 0) := by decide +kernel
  obtain ⟨s₁, h₁, hrun⟩ := Option.bind_eq_some_iff.mp hrun
  obtain ⟨s₂, h₂, hrun⟩ := Option.bind_eq_some_iff.mp hrun
  obtain ⟨s₃, h₃, hvalues⟩ := Option.map_eq_some_iff.mp hrun
  obtain ⟨hwaits, hvalues⟩ := Prod.mk.inj hvalues
  obtain ⟨happlied, hvalues⟩ := Prod.mk.inj hvalues
  obtain ⟨hnone, hpool⟩ := Prod.mk.inj hvalues
  obtain ⟨hpromotions, hinflight⟩ := Nat.add_eq_zero_iff.mp hnone
  exact ⟨s₁, s₂, s₃, h₁, hwaits, System.reach_of_run h₂, happlied, rfl, h₃,
    List.length_eq_zero_iff.mp hpromotions, List.length_eq_zero_iff.mp hinflight, hpool⟩

end InFlightExample

end TracedNode

end Tupelo

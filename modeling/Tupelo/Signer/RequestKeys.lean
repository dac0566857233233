import Mathlib.Data.Set.Basic
import Tupelo.Signer.Run

/-!
# The keys of requests

Conflict sets and requests in flight are kept under one kind of key: the bytes of the object's
id, followed by the height in decimal digits. Nothing separates the two. So an id that ends in
digits has, for some heights, the keys of the id without them.

`Shifted` is that and nothing else; where no two of the slots in use are shifted, the keys are
exact, and with them whatever is done by key.
-/

namespace Tupelo

open Infra

/-! ## Decimal digits -/

theorem toUInt8_inj {c d : Char} (hc : c.isDigit = true) (hd : d.isDigit = true)
    (h : c.toUInt8 = d.toUInt8) : c = d := by
  have hbound : ∀ {c : Char}, c.isDigit = true → c.val.toNat < 2 ^ 8 := by
    intro c hc
    have hle := (Bool.and_eq_true_iff.mp hc).2
    have hle' := UInt32.le_iff_toNat_le.mp (of_decide_eq_true hle)
    have h9 : ('9' : Char).val.toNat = 57 := rfl
    omega
  have hval := congrArg UInt8.toNat h
  unfold Char.toUInt8 at hval
  rw [UInt32.toNat_toUInt8, UInt32.toNat_toUInt8, Nat.mod_eq_of_lt (hbound hc),
    Nat.mod_eq_of_lt (hbound hd)] at hval
  exact Char.ext (UInt32.toNat_inj.mp hval)

theorem map_toUInt8_inj : ∀ {cs ds : List Char}, (∀ c ∈ cs, c.isDigit = true) →
    (∀ d ∈ ds, d.isDigit = true) → cs.map Char.toUInt8 = ds.map Char.toUInt8 → cs = ds
  | [], [], _, _, _ => rfl
  | [], _ :: _, _, _, h => by cases h
  | _ :: _, [], _, _, h => by cases h
  | c :: cs, d :: ds, hc, hd, h => by
    rw [List.map_cons, List.map_cons] at h
    obtain ⟨hhead, htail⟩ := List.cons.inj h
    rw [List.forall_mem_cons] at hc hd
    rw [toUInt8_inj hc.1 hd.1 hhead, map_toUInt8_inj hc.2 hd.2 htail]

theorem formatUint_injective : Function.Injective formatUint := by
  intro a b h
  have hdigit : ∀ (n : Nat), ∀ c ∈ Nat.toDigits 10 n, c.isDigit = true := fun n c hc =>
    Nat.isDigit_of_mem_toDigits (by omega) (by omega) hc
  have hdigits := map_toUInt8_inj (hdigit _) (hdigit _) h
  rw [← UInt64.toNat_inj, ← Nat.ofDigitChars_ten_toDigits (n := a.toNat), hdigits,
    Nat.ofDigitChars_ten_toDigits]

/-! ## Slots -/

/-- What a key is made of: an object and a height. -/
@[ext]
structure Slot where
  objectId : Bytes
  height : UInt64
  deriving DecidableEq

def AddBlockRequest.slot (abr : AddBlockRequest) : Slot := ⟨abr.objectId, abr.height⟩

def Slot.key (s : Slot) : Bytes := s.objectId ++ formatUint s.height

theorem toConflictSetID_eq (abr : AddBlockRequest) : toConflictSetID abr = abr.slot.key := rfl

theorem inFlightID_eq (abr : AddBlockRequest) :
    Node.inFlightID abr.objectId abr.height = abr.slot.key := rfl

/-- The id of `s` is that of `t` followed by digits which the height of `s` lacks. -/
def Shifted (s t : Slot) : Prop :=
  ∃ ds, ds ≠ [] ∧ s.objectId = t.objectId ++ ds ∧ formatUint t.height = ds ++ formatUint s.height

/-- **Two slots have one key** if they are the same or one of them is the other one shifted. -/
theorem key_eq_iff {s t : Slot} : s.key = t.key ↔ s = t ∨ Shifted s t ∨ Shifted t s := by
  unfold Slot.key
  rw [List.append_eq_append_iff]
  have hsame : ∀ {s t : Slot}, s.objectId = t.objectId →
      formatUint s.height = formatUint t.height → s = t := by
    intro s t hid hheight
    exact Slot.ext hid (formatUint_injective hheight)
  constructor
  · rintro (⟨ds, hid, hheight⟩ | ⟨ds, hid, hheight⟩)
    · cases ds with
      | nil => exact Or.inl (hsame (by rw [hid, List.append_nil]) hheight)
      | cons d ds => exact Or.inr (Or.inr ⟨d :: ds, List.cons_ne_nil d ds, hid, hheight⟩)
    · cases ds with
      | nil => exact Or.inl (hsame (by rw [hid, List.append_nil]) hheight.symm)
      | cons d ds => exact Or.inr (Or.inl ⟨d :: ds, List.cons_ne_nil d ds, hid, hheight⟩)
  · rintro (rfl | ⟨ds, -, hid, hheight⟩ | ⟨ds, -, hid, hheight⟩)
    · exact Or.inl ⟨[], (List.append_nil _).symm, rfl⟩
    · exact Or.inr ⟨ds, hid, hheight⟩
    · exact Or.inl ⟨ds, hid, hheight⟩

/-- Ids of one length are not shifted. -/
theorem not_shifted_of_length {s t : Slot} (h : s.objectId.length = t.objectId.length) :
    ¬ Shifted s t := by
  rintro ⟨ds, hne, hid, -⟩
  rw [hid, List.length_append] at h
  exact hne (List.length_eq_zero_iff.mp (by omega))

theorem Shifted.objectId_ne {s t : Slot} (h : Shifted s t) : s.objectId ≠ t.objectId := by
  intro heq
  exact not_shifted_of_length (by rw [heq]) h

namespace Node

/-! ## What a signer keeps by key -/

/-- The mempool and the requests in flight are filed under their keys. -/
structure Filing (L : Ipld) (n : Node) : Prop where
  pool : n.mempool.Wf L
  distinct : n.inflight.Distinct
  size : n.inflight.size = 500
  own : ∀ key w, n.inflight.peek key = some w → w.abr.slot.key = key

theorem filing_genesis (L : Ipld) : Filing L genesis where
  pool := Mempool.wf_new
  distinct := List.nodup_nil
  size := rfl
  own := fun _ _ h => by cases h

variable {L : Ipld} {n : Node}

/-- Rounds, stores and goroutines do not matter. -/
theorem Filing.congr (h : Filing L n) {n' : Node} (hpool : n'.mempool = n.mempool)
    (hinflight : n'.inflight = n.inflight) : Filing L n' where
  pool := hpool ▸ h.pool
  distinct := hinflight ▸ h.distinct
  size := hinflight ▸ h.size
  own := hinflight ▸ h.own

theorem Filing.looked (h : Filing L n) {n₁ : Node} (hn₁ : Looked L n n₁) : Filing L n₁ := by
  obtain ⟨heap, roundCache, rfl⟩ := hn₁.frame
  exact h.congr rfl rfl

theorem Filing.storeAsInFlight (h : Filing L n) (w : AddBlockWrapper) :
    Filing L (n.storeAsInFlight w) where
  pool := h.pool
  distinct := h.distinct.add _ w
  size := h.size
  own := Lru.forall_peek_add h.own rfl

theorem Filing.storeAbr (h : Filing L n) (w : AddBlockWrapper) (stored : Bool) :
    Filing L (n.storeAbr L w stored) := by
  cases stored with
  | false => exact h
  | true => exact ⟨Mempool.wf_add h.pool rfl, h.distinct, h.size, h.own⟩

theorem Filing.promoteNext (h : Filing L n) (w : AddBlockWrapper) :
    Filing L (n.promoteNext w) := by
  rcases promoteNext_inflight n w with ⟨-, heq⟩ | ⟨next, -, heq⟩
  · rw [heq]
    exact h
  · rw [heq]
    refine ⟨h.pool, (h.distinct.get _).remove _, (Lru.get_size _ _).trans h.size, ?_⟩
    intro key v hv
    have hold := Lru.peek_of_peek_remove hv
    rw [Lru.peek_get] at hold
    exact h.own key v hold

theorem Filing.handleSnowballerDone (hL : L.Faithful) (h : Filing L n) {cp : Checkpoint}
    {n' : Node} (hdone : n.handleSnowballerDone L cp = .ok n') : Filing L n' := by
  obtain ⟨⟨state, n₁⟩, hstate, hdone⟩ := bind_eq_ok.mp hdone
  obtain ⟨⟨abrs, n₂⟩, habrs, hdone⟩ := bind_eq_ok.mp hdone
  have h₂ : Filing L n₂ := collect_rule (fun _ w hn => hn.promoteNext w) habrs
    (h.looked (looked_previousState hstate))
  rw [← pure_eq_ok.mp hdone]
  exact ⟨Mempool.wf_bulkDelete hL _ h₂.pool, h₂.distinct, h₂.size, h₂.own⟩

theorem ThreadStep.inflight {E : Env} {n' : Node} {p : Nat} {r : PastRound} {ok : Bool} {pc : Pc}
    {next : Option Pc} (h : ThreadStep E n p r ok pc n' next) : n'.inflight = n.inflight := by
  cases h <;> rfl

theorem setThread_inflight (n : Node) (i : Nat) (t : Thread) (next : Option Pc) :
    (n.setThread i t next).mempool = n.mempool ∧ (n.setThread i t next).inflight = n.inflight := by
  cases next with
  | none => exact ⟨rfl, rfl⟩
  | some pc => exact ⟨rfl, rfl⟩

theorem Filing.step {E : Env} (hL : E.L.Faithful) (h : Filing E.L n) {n' : Node} {e : Event}
    (hstep : n.step E e = some n') : Filing E.L n' := by
  cases eventStep_of_step hstep with
  | drop hn₁ | answer hn₁ | tick hn₁ => exact h.looked hn₁
  | await hn₁ => exact (h.looked hn₁).storeAsInFlight _
  | store hn₁ => exact (h.looked hn₁).storeAbr _ _
  | promote hw =>
    refine Filing.storeAbr ?_ _ _
    exact h.congr rfl rfl
  | running => exact h
  | start => exact h.congr rfl rfl
  | decided hdone => exact h.handleSnowballerDone hL hdone
  | background ht hr hthread =>
    obtain ⟨hpool, -, -⟩ := hthread.frame
    obtain ⟨hpool', hinflight'⟩ := setThread_inflight _ _ _ _
    exact h.congr (hpool'.trans hpool) (hinflight'.trans hthread.inflight)
  | republish hget => exact (h.looked (Looked.of_get hget)).congr rfl rfl
  | spawn hget => exact (h.looked (Looked.of_get hget)).congr rfl rfl

end Node

/-- **Every signer files by key**, after whatever events and restarts. -/
theorem filing_reach {E : Env} (hL : E.L.Faithful) {ok : TracedNode → Action → Bool}
    {s : TracedNode} (h : (TracedNode.system E).Reach ok s) : s.node.Filing E.L := by
  refine h.invariant (P := fun s => s.node.Filing E.L) (Node.filing_genesis E.L) ?_
  intro s a s' hs _ hact
  cases a with
  | event e =>
    obtain ⟨n, hn, rfl⟩ := TracedNode.act_event hact
    exact hs.step hL hn
  | crash =>
    obtain ⟨n, hn, rfl⟩ := TracedNode.act_crash hact
    obtain ⟨height, -, hn⟩ := bind_eq_ok.mp hn
    rw [← pure_eq_ok.mp hn]
    exact (Node.filing_genesis E.L).congr rfl rfl

/-! ## Exact keys -/

/-- What the keys of the slots `R` are for, in the state `n` of a signer. -/
structure KeysExact (L : Ipld) (n : Node) (R : Set Slot) : Prop where
  conflictSets : ∀ a b : AddBlockRequest, a.slot ∈ R → b.slot ∈ R →
    (toConflictSetID a = toConflictSetID b ↔ a.objectId = b.objectId ∧ a.height = b.height)
  inFlight : ∀ a b : AddBlockRequest, a.slot ∈ R → b.slot ∈ R →
    (Node.inFlightID a.objectId a.height = Node.inFlightID b.objectId b.height ↔
      a.objectId = b.objectId ∧ a.height = b.height)
  /-- A decided request takes along the requests of its object and height. -/
  delete : ∀ d b, n.mempool.get d = some b → b.abr.slot ∈ R →
    ∀ id w, n.mempool.get id = some w → w.abr.slot ∈ R →
      ((n.mempool.deleteIDAndConflictSet d).get id = none ↔
        w.abr.objectId = b.abr.objectId ∧ w.abr.height = b.abr.height)
  /-- A checkpoint with one request for each of its objects passes. -/
  checkpoint : ∀ bs ws, List.Forall₂ (Mempool.Resolves L n.mempool) bs ws →
    (∀ w ∈ ws, w.abr.slot ∈ R) → (ws.map fun w => w.abr.objectId).Nodup →
    n.mempool.hasConflictingABRs L bs = .ok false
  /-- A request that is stored in flight leaves those of other objects where they are, -/
  store : ∀ w : AddBlockWrapper, w.abr.slot ∈ R → ∀ t ∈ R, t.objectId ≠ w.abr.objectId →
    (n.storeAsInFlight w).inflight.peek t.key = n.inflight.peek t.key
  /-- and so does the next request of an object that is taken out. -/
  remove : ∀ w : AddBlockWrapper, (⟨w.abr.objectId, w.abr.height + 1⟩ : Slot) ∈ R →
    ∀ t ∈ R, t.objectId ≠ w.abr.objectId →
    (n.promoteNext w).inflight.peek t.key = n.inflight.peek t.key

/-- Storing a request of one object in flight evicts no request of another. -/
def EvictsNoOther (n : Node) (R : Set Slot) : Prop :=
  ∀ s ∈ R, ∀ t ∈ R, t.objectId ≠ s.objectId → t.key ∉ n.inflight.evicted s.key

section Exact

variable {L : Ipld} {n : Node} {R : Set Slot}

theorem slot_eq_iff {a b : AddBlockRequest} :
    a.slot = b.slot ↔ a.objectId = b.objectId ∧ a.height = b.height := Slot.mk.injEq .. ▸ Iff.rfl

theorem key_eq_iff_of_not_shifted (h : ∀ s ∈ R, ∀ t ∈ R, ¬ Shifted s t) {s t : Slot}
    (hs : s ∈ R) (ht : t ∈ R) : s.key = t.key ↔ s = t := by
  rw [key_eq_iff]
  constructor
  · rintro (heq | hshift | hshift)
    · exact heq
    · exact absurd hshift (h s hs t ht)
    · exact absurd hshift (h t ht s hs)
  · exact Or.inl

theorem key_ne_of_not_shifted (h : ∀ s ∈ R, ∀ t ∈ R, ¬ Shifted s t) {s t : Slot} (hs : s ∈ R)
    (ht : t ∈ R) (hids : s.objectId ≠ t.objectId) : s.key ≠ t.key := by
  intro heq
  exact hids (by rw [(key_eq_iff_of_not_shifted h hs ht).mp heq])

theorem get_delete_eq_none_iff {m : Mempool} (hm : m.Filed) {d id : Cid} {b w : AddBlockWrapper}
    (hb : m.get d = some b) (hw : m.get id = some w) :
    (m.deleteIDAndConflictSet d).get id = none ↔ toConflictSetID w.abr = toConflictSetID b.abr := by
  constructor
  · intro hnone
    by_contra hne
    rw [(Mempool.get_delete_iff hm hb).mpr ⟨hw, hne⟩] at hnone
    cases hnone
  · intro heq
    cases hget : (m.deleteIDAndConflictSet d).get id with
    | none => rfl
    | some v =>
      obtain ⟨hv, hne⟩ := (Mempool.get_delete_iff hm hb).mp hget
      rw [← Option.some.inj (hw.symm.trans hv)] at hne
      exact absurd heq hne

theorem hasConflictingABRs_of_distinct (h : ∀ s ∈ R, ∀ t ∈ R, ¬ Shifted s t) {bs : List Bytes}
    {ws : List AddBlockWrapper} (hres : List.Forall₂ (Mempool.Resolves L n.mempool) bs ws)
    (hR : ∀ w ∈ ws, w.abr.slot ∈ R) (hnodup : (ws.map fun w => w.abr.objectId).Nodup) :
    n.mempool.hasConflictingABRs L bs = .ok false := by
  refine Mempool.hasConflictingFrom_of_resolves hres ?_ fun _ _ hmem => by cases hmem
  refine List.Nodup.map_on ?_ (List.Nodup.of_map _ hnodup)
  intro v hv w hw heq
  have hslot := (key_eq_iff_of_not_shifted h (hR v hv) (hR w hw)).mp heq
  exact List.inj_on_of_nodup_map hnodup hv hw (congrArg Slot.objectId hslot)

theorem peek_promoteNext (n : Node) (w : AddBlockWrapper) {key : Bytes}
    (hkey : key ≠ Node.inFlightID w.abr.objectId (w.abr.height + 1)) :
    (n.promoteNext w).inflight.peek key = n.inflight.peek key := by
  rcases Node.promoteNext_inflight n w with ⟨-, heq⟩ | ⟨next, -, heq⟩
  · rw [heq]
  · rw [heq]
    show ((n.inflight.get _).2.remove _).peek key = n.inflight.peek key
    rw [Lru.peek_remove_ne _ hkey, Lru.peek_get]

theorem peek_storeAsInFlight_iff (hf : n.Filing L) (w : AddBlockWrapper) {key : Bytes}
    (hkey : key ≠ w.abr.slot.key) :
    (n.storeAsInFlight w).inflight.peek key = n.inflight.peek key ↔
      key ∉ n.inflight.evicted w.abr.slot.key :=
  Lru.peek_add_eq_iff hf.distinct (by rw [hf.size]; omega) hkey w

end Exact

/--
**The keys are exact** exactly for slots of which none is another one shifted, as long as
requests in flight are not evicted for those of other objects.
-/
theorem keysExact_iff {E : Env} (hL : E.L.Faithful) {s : TracedNode}
    (h : (TracedNode.system E).Reach (fun _ _ => true) s) (R : Set Slot) :
    KeysExact E.L s.node R ↔
      (∀ a ∈ R, ∀ b ∈ R, ¬ Shifted a b) ∧ EvictsNoOther s.node R := by
  have hfiling := filing_reach hL h
  -- a request for a slot; the rest of it does not matter
  have hrequest : ∀ t : Slot, ∃ abr : AddBlockRequest, abr.slot = t := fun t =>
    ⟨{ objectId := t.objectId, previousTip := [], newTip := [], height := t.height, payload := []
       state := [] }, rfl⟩
  constructor
  · intro hexact
    have hshift : ∀ a ∈ R, ∀ b ∈ R, ¬ Shifted a b := by
      intro a ha b hb hshift
      obtain ⟨x, rfl⟩ := hrequest a
      obtain ⟨y, rfl⟩ := hrequest b
      have hkey : toConflictSetID x = toConflictSetID y := by
        rw [toConflictSetID_eq, toConflictSetID_eq]
        exact key_eq_iff.mpr (Or.inr (Or.inl hshift))
      exact hshift.objectId_ne ((hexact.conflictSets x y ha hb).mp hkey).1
    refine ⟨hshift, ?_⟩
    intro a ha b hb hne
    obtain ⟨x, rfl⟩ := hrequest a
    have hkey := key_ne_of_not_shifted hshift hb ha hne
    exact (peek_storeAsInFlight_iff hfiling ⟨x, Cid.undef⟩ hkey).mp
      (hexact.store ⟨x, Cid.undef⟩ ha b hb hne)
  · rintro ⟨hshift, hevict⟩
    constructor
    case conflictSets =>
      intro a b ha hb
      rw [toConflictSetID_eq, toConflictSetID_eq, ← slot_eq_iff]
      exact key_eq_iff_of_not_shifted hshift ha hb
    case inFlight =>
      intro a b ha hb
      rw [inFlightID_eq, inFlightID_eq, ← slot_eq_iff]
      exact key_eq_iff_of_not_shifted hshift ha hb
    case delete =>
      intro d b hb hbR id w hw hwR
      rw [← slot_eq_iff, ← key_eq_iff_of_not_shifted hshift hwR hbR]
      exact get_delete_eq_none_iff (hfiling.pool.filed hL) hb hw
    case checkpoint =>
      intro bs ws hres hR hnodup
      exact hasConflictingABRs_of_distinct hshift hres hR hnodup
    case store =>
      intro w hw t ht hids
      have hkey := key_ne_of_not_shifted hshift ht hw hids
      exact (peek_storeAsInFlight_iff hfiling w hkey).mpr (hevict _ hw t ht hids)
    case remove =>
      intro w hw t ht hids
      exact peek_promoteNext s.node w (key_ne_of_not_shifted hshift ht hw hids)

/-! ### Two objects, the id of one of them with a digit more -/

namespace KeysExample

open RunExample (env)

def request (objectId : Bytes) (height : UInt64) : AddBlockRequest :=
  .bare objectId [1] [2] height

/-- Requests for objects that the signer does not know wait. -/
noncomputable def waiting (requests : List AddBlockRequest) : Option TracedNode :=
  (TracedNode.system env).run (fun _ _ => true)
    (requests.map fun abr => .event (.addBlockRequest abr true))

/-- The slots of objects whose ids are one byte long. -/
def oneByte : Set Slot := { s | s.objectId.length = 1 }

theorem keysExact_iff_example : ∃ s, (TracedNode.system env).Reach (fun _ _ => true) s ∧
    s.node.inflight.entries.length = 2 ∧ KeysExact Ipld.inFull s.node oneByte := by
  have hrun : (waiting [request [97] 11, request [98] 1]).map
      (fun s => s.node.inflight.entries.length) = some 2 := by decide +kernel
  obtain ⟨s, hs, hlength⟩ := Option.map_eq_some_iff.mp hrun
  have hreach := System.reach_of_run hs
  refine ⟨s, hreach, hlength, (keysExact_iff Ipld.inFull_faithful hreach oneByte).mpr ⟨?_, ?_⟩⟩
  · intro a ha b hb
    exact not_shifted_of_length (Eq.trans ha (Eq.symm hb))
  · intro a ha b hb hne
    have hsize := (filing_reach Ipld.inFull_faithful hreach).size
    rw [Lru.evicted_eq_nil]
    · exact List.not_mem_nil
    · refine Nat.lt_of_le_of_lt (List.length_filter_le _ _) ?_
      rw [hlength, hsize]
      omega

/-- The first object at height 11, and the one whose id is followed by a 1 at height 1. -/
def first : AddBlockRequest := request [97] 11

def second : AddBlockRequest := request [97, 49] 1

noncomputable def pool : Mempool :=
  [first, second].foldl (fun m abr =>
    m.add Ipld.inFull { abr, cid := Ipld.inFull.cidOf (.addBlockRequest abr) }) Mempool.new

/-- **Requests of two objects share a key**, and all that is done by key mixes them up. -/
theorem keys_collide : first.objectId ≠ second.objectId ∧
    toConflictSetID first = toConflictSetID second ∧
    (pool.deleteIDAndConflictSet (Ipld.inFull.cidOf (.addBlockRequest first))).length = 0 ∧
    pool.hasConflictingABRs Ipld.inFull
      [(Ipld.inFull.cidOf (.addBlockRequest first)).bytes,
        (Ipld.inFull.cidOf (.addBlockRequest second)).bytes] = .ok true ∧
    ∃ s, (TracedNode.system env).Reach (fun _ _ => true) s ∧
      s.node.inflight.peek (Node.inFlightID first.objectId first.height) =
        some { abr := second, cid := Cid.undef } := by
  have hdelete : (pool.deleteIDAndConflictSet
      (Ipld.inFull.cidOf (.addBlockRequest first))).length = 0 := by decide +kernel
  have hreject : (pool.hasConflictingABRs Ipld.inFull
      [(Ipld.inFull.cidOf (.addBlockRequest first)).bytes,
        (Ipld.inFull.cidOf (.addBlockRequest second)).bytes]).toOption = some true := by
    decide +kernel
  have hrun : (waiting [first, second]).map
      (fun s => s.node.inflight.peek (Node.inFlightID first.objectId first.height)) =
      some (some { abr := second, cid := Cid.undef }) := by decide +kernel
  obtain ⟨s, hs, hpeek⟩ := Option.map_eq_some_iff.mp hrun
  exact ⟨by decide, by decide, hdelete, toOption_eq_some.mp hreject, s, System.reach_of_run hs,
    hpeek⟩

end KeysExample

end Tupelo

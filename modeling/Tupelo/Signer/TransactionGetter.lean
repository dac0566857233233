import Tupelo.Infra.Lru
import Tupelo.Signer.Mempool

/-!
# Fetching missing requests

The model of `signer/gossip/txsyncer.go`. A snowballer that meets the CID of a request which is not
in the mempool sends it to the actor `transactionGetter`. The actor fetches the request, validates
it and sends it on to the node.

Whether a fetch or a validation succeeds changes from one message to the next, so a message carries
the store and the validator as they are when it is handled. A CID is put into the cache before the
validation, and what is in the cache is not fetched again (`forwards_iff`).
-/

namespace Tupelo

open Infra

/-- A CID that is sent to the actor, with what the actor meets while handling it. -/
structure CidMessage where
  msg : Cid
  store : DagStore
  /-- `ValidateAbr`: the new tip and the new nodes of a valid request. -/
  validateAbr : AddBlockRequest → Except Fault (Option (Cid × List (Obj Cid)))

/-- `tg.store.Get`. -/
def CidMessage.fetch (m : CidMessage) : Except Fault AddBlockRequest := do
  let node ← m.store.get m.msg
  node.asAddBlockRequest

/-- The message finds its request, and finds it valid. -/
def CidMessage.Valid (m : CidMessage) : Prop :=
  ∃ abr out, m.fetch = .ok abr ∧ m.validateAbr abr = .ok (some out)

/-- What is sent to the node: the request with its new tip, and its new nodes. -/
structure Forward where
  abr : AddBlockRequest
  newNodes : List (Obj Cid)

/-- `transactionGetter`, with what it has sent to the node's actor for which CID. -/
structure TransactionGetter where
  cache : Lru String Unit
  forwarded : List (Cid × Forward)

namespace TransactionGetter

/-- `Receive` of `actor.Started`. -/
def started : TransactionGetter := { cache := Lru.new 500, forwarded := [] }

/-- `tg.cache.Contains(msg.String())`. -/
def ignores (L : Ipld) (tg : TransactionGetter) (c : Cid) : Bool :=
  (tg.cache.peek (L.cidString c)).isSome

/-- `Receive` of a CID. -/
def receive (L : Ipld) (tg : TransactionGetter) (m : CidMessage) : TransactionGetter :=
  if tg.ignores L m.msg then tg
  else
    match m.fetch with
    | .error _ => tg
    | .ok abr =>
      let tg := { tg with cache := tg.cache.add (L.cidString m.msg) () }
      match m.validateAbr abr with
      | .ok (some (newTip, newNodes)) =>
        { tg with
          forwarded :=
            tg.forwarded ++ [(m.msg, { abr := { abr with newTip := newTip.bytes }, newNodes })] }
      | _ => tg

/-- The actor after some messages. -/
def run (L : Ipld) (ms : List CidMessage) : TransactionGetter := ms.foldl (receive L) started

/-- A request for the CID has been sent to the node. -/
def Forwarded (tg : TransactionGetter) (c : Cid) : Prop := ∃ w, (c, w) ∈ tg.forwarded

/-! ## One message -/

variable {L : Ipld} {tg : TransactionGetter} {m : CidMessage} {c : Cid}

/-- **What a message can do**: nothing; or its CID is cached, and the request may be sent on. -/
theorem receive_cases (L : Ipld) (tg : TransactionGetter) (m : CidMessage) :
    (tg.ignores L m.msg = true ∧ tg.receive L m = tg) ∨
    (tg.ignores L m.msg = false ∧ (∃ f, m.fetch = .error f) ∧ tg.receive L m = tg) ∨
    ∃ sent, tg.ignores L m.msg = false ∧ (∃ abr, m.fetch = .ok abr) ∧
      tg.receive L m =
        { cache := tg.cache.add (L.cidString m.msg) (), forwarded := tg.forwarded ++ sent } ∧
      (m.Valid ∧ (∃ w, sent = [(m.msg, w)]) ∨ ¬ m.Valid ∧ sent = []) := by
  unfold receive
  cases hi : tg.ignores L m.msg with
  | true => exact Or.inl ⟨rfl, rfl⟩
  | false =>
    refine Or.inr ?_
    simp only [Bool.false_eq_true, if_false]
    cases hf : m.fetch with
    | error f => exact Or.inl ⟨trivial, ⟨f, rfl⟩, rfl⟩
    | ok abr =>
      refine Or.inr ?_
      simp only []
      split
      · next newTip newNodes hv =>
        exact ⟨_, trivial, ⟨abr, rfl⟩, rfl, Or.inl ⟨⟨abr, _, hf, hv⟩, _, rfl⟩⟩
      · next hinvalid =>
        refine ⟨[], trivial, ⟨abr, rfl⟩, by rw [List.append_nil], Or.inr ⟨?_, rfl⟩⟩
        rintro ⟨abr', ⟨newTip, newNodes⟩, hf', hv⟩
        obtain rfl := Except.ok.inj (hf.symm.trans hf')
        exact hinvalid newTip newNodes hv

theorem size_receive (L : Ipld) (tg : TransactionGetter) (m : CidMessage) :
    (tg.receive L m).cache.size = tg.cache.size := by
  rcases receive_cases L tg m with ⟨-, h⟩ | ⟨-, -, h⟩ | ⟨sent, -, -, h, -⟩
  · rw [h]
  · rw [h]
  · rw [h]
    rfl

theorem Forwarded.receive (h : tg.Forwarded c) : (tg.receive L m).Forwarded c := by
  obtain ⟨w, hw⟩ := h
  rcases receive_cases L tg m with ⟨-, heq⟩ | ⟨-, -, heq⟩ | ⟨sent, -, -, heq, -⟩
  · rw [heq]
    exact ⟨w, hw⟩
  · rw [heq]
    exact ⟨w, hw⟩
  · rw [heq]
    exact ⟨w, List.mem_append_left _ hw⟩

/-- A message that is not ignored and finds a valid request sends it on. -/
theorem forwarded_of_valid (hi : tg.ignores L m.msg = false) (hvalid : m.Valid) :
    (tg.receive L m).Forwarded m.msg := by
  obtain ⟨abr, out, hf, hv⟩ := hvalid
  rcases receive_cases L tg m with ⟨hi', -⟩ | ⟨-, ⟨f, hf'⟩, -⟩ | ⟨sent, -, -, heq, hsent⟩
  · cases hi.symm.trans hi'
  · cases hf.symm.trans hf'
  · rcases hsent with ⟨-, w, rfl⟩ | ⟨hinvalid, -⟩
    · rw [heq]
      exact ⟨w, List.mem_append_right _ List.mem_cons_self⟩
    · exact absurd ⟨abr, out, hf, hv⟩ hinvalid

/-! ## Ignoring only what was sent on -/

/-- What is ignored has been sent on. -/
def Justified (L : Ipld) (tg : TransactionGetter) : Prop :=
  ∀ c, tg.ignores L c = true → tg.Forwarded c

theorem justified_started (L : Ipld) : started.Justified L := by
  intro c h
  cases h

/-- A message that is looked at finds a valid request, or its CID had been sent on. -/
theorem Justified.receive (hinj : Function.Injective L.cidString) (h : tg.Justified L)
    (hfound : tg.ignores L m.msg = false → ∀ abr, m.fetch = .ok abr →
      m.Valid ∨ tg.Forwarded m.msg) : (tg.receive L m).Justified L := by
  intro c hc
  have hcases := receive_cases L tg m
  rcases hcases with ⟨-, heq⟩ | ⟨-, -, heq⟩ | ⟨sent, hi, ⟨abr, hf⟩, heq, -⟩
  · rw [heq] at hc ⊢
    exact h c hc
  · rw [heq] at hc ⊢
    exact h c hc
  · obtain ⟨⟨⟩, hpeek⟩ := Option.isSome_iff_exists.mp hc
    rw [heq] at hpeek
    rcases Lru.peek_of_peek_add hpeek with ⟨hkey, -⟩ | hold
    · obtain rfl := hinj hkey
      rcases hfound hi abr hf with hvalid | hforwarded
      · exact forwarded_of_valid hi hvalid
      · exact hforwarded.receive
    · exact (h c (Option.isSome_iff_exists.mpr ⟨(), hold⟩)).receive

theorem run_concat (L : Ipld) (ms : List CidMessage) (m : CidMessage) :
    run L (ms ++ [m]) = (run L ms).receive L m := by
  simp [run]

theorem size_run (L : Ipld) (ms : List CidMessage) : (run L ms).cache.size = 500 := by
  induction ms using List.reverseRecOn with
  | nil => rfl
  | append_singleton ms m ih => rw [run_concat, size_receive, ih]

/-- A CID that was looked at and found is ignored from then on. -/
theorem ignores_of_found {ms : List CidMessage} (hi : (run L ms).ignores L m.msg = false)
    {abr : AddBlockRequest} (hf : m.fetch = .ok abr) :
    ((run L ms).receive L m).ignores L m.msg = true := by
  rcases receive_cases L (run L ms) m with ⟨hi', -⟩ | ⟨-, ⟨f, hf'⟩, -⟩ | ⟨sent, -, -, heq, -⟩
  · cases hi.symm.trans hi'
  · cases hf.symm.trans hf'
  · rw [heq]
    unfold ignores
    rw [Lru.peek_add_self _ (by rw [size_run]; decide)]
    rfl

/--
**When a missing request is never suppressed for good.** At every moment of a run only what has
been sent on is ignored, and a request that can be fetched and is valid then has been sent on once
it is asked for, exactly if no message meets a request that is not valid before one for its CID has
been sent on.
-/
theorem forwards_iff (hinj : Function.Injective L.cidString) (ms : List CidMessage) :
    (∀ pre, pre <+: ms →
      (∀ c, (run L pre).ignores L c = true → (run L pre).Forwarded c) ∧
      ∀ m : CidMessage, m.Valid → (run L (pre ++ [m])).Forwarded m.msg) ↔
    ∀ pre m, pre ++ [m] <+: ms → (run L pre).ignores L m.msg = false →
      ∀ abr, m.fetch = .ok abr → m.Valid ∨ (run L pre).Forwarded m.msg := by
  constructor
  · intro h pre m hpre hi abr hf
    refine or_iff_not_imp_left.mpr fun hinvalid => ?_
    -- it is in the cache now, so it must have been sent on, and this was not the message for it
    have hnow := (h (pre ++ [m]) hpre).1 m.msg (by rw [run_concat]; exact ignores_of_found hi hf)
    rw [run_concat] at hnow
    rcases receive_cases L (run L pre) m with ⟨-, heq⟩ | ⟨-, -, heq⟩ | ⟨sent, -, -, heq, hsent⟩
    · rwa [heq] at hnow
    · rwa [heq] at hnow
    · rcases hsent with ⟨hvalid, -⟩ | ⟨-, rfl⟩
      · exact absurd hvalid hinvalid
      · rw [heq] at hnow
        obtain ⟨w, hw⟩ := hnow
        exact ⟨w, by simpa using hw⟩
  · intro h pre hpre
    have hjustified : (run L pre).Justified L := by
      induction pre using List.reverseRecOn with
      | nil => exact justified_started L
      | append_singleton pre m ih =>
        rw [run_concat]
        exact (ih ((List.prefix_append pre [m]).trans hpre)).receive hinj (h pre m hpre)
    refine ⟨hjustified, ?_⟩
    intro m hvalid
    rw [run_concat]
    cases hi : (run L pre).ignores L m.msg with
    | true => exact (hjustified m.msg hi).receive
    | false => exact forwarded_of_valid hi hvalid

/-! ### One request, asked for twice -/

namespace Example

def abr : AddBlockRequest := .bare [1] [2] [] 1

noncomputable def abrCid : Cid := Ipld.inFull.cidOf (.addBlockRequest abr)

/-- The request can be fetched; whether it is valid depends on the state of the node. -/
noncomputable def ask (valid : Bool) : CidMessage where
  msg := abrCid
  store := fun c => if c = abrCid then some (.addBlockRequest abr) else none
  validateAbr := fun _ => .ok (if valid then some (⟨[7]⟩, []) else none)

theorem forwards_example : (run Ipld.inFull [ask true]).ignores Ipld.inFull abrCid = true ∧
    (run Ipld.inFull [ask true]).Forwarded abrCid := by
  have hfetch : (ask true).fetch = .ok abr := by
    simp [CidMessage.fetch, DagStore.get, ask, DagNode.asAddBlockRequest]
  have hignored : (run Ipld.inFull [ask true]).ignores Ipld.inFull abrCid = true := by
    decide +kernel
  refine ⟨hignored, ((forwards_iff Ipld.inFull_cidString_injective [ask true]).mpr ?_
    [ask true] (List.prefix_refl _)).1 abrCid hignored⟩
  rintro pre m ⟨rest, hrest⟩ -
  obtain rfl : m = ask true := by
    cases pre with
    | nil => simpa using (List.cons.inj hrest).1
    | cons a pre => simp at hrest
  intro abr _
  exact Or.inl ⟨_, _, hfetch, rfl⟩

/-- **A request that was once not valid is not looked at again** when it is. -/
theorem suppressed : (run Ipld.inFull [ask false, ask true]).forwarded.length = 0 ∧
    (run Ipld.inFull [ask true]).forwarded.length = 1 := by
  decide +kernel

end Example

end TransactionGetter

end Tupelo

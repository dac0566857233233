import Tupelo.Client.Tips
import Tupelo.Signer.DurableHistory

/-!
# Clients of a group of signers

This module puts the parts together: signers that run, crash and start again as `Signer` has it,
a group in which less than a third of them may do anything at all, and clients that collect
confirmations as `Client` has it and look up tips.

That a signer does not equivocate was an assumption of agreement before. Here it is derived: what
a correct signer signs is what it has published, and that is one history of decisions. Two
quorums share a correct signer, so that whatever two clients read of an object comes from one
history. They see the object on one chain.
-/

namespace Tupelo

open Infra

variable {C : Crypto} {L : Ipld}
variable {found : Option AddBlockRequest} {r : Round}

/-! ## Groups -/

/-- A group with the signers as they stand; `faulty` are the positions of those that may lie. -/
structure SignerGroup (C : Crypto) (L : Ipld) where
  group : NotaryGroup C
  keys : List (VerKey C)
  verKeys : group.verKeys = .ok keys
  nodup : keys.Nodup
  faulty : Finset Nat
  few : (faulty.card : ℤ) ≤ ((keys.length : ℤ) - 1) / 3
  sign : Nat → Bytes → Except Fault Signature
  signer : Nat → TracedNode
  reach : ∀ i, i ∉ faulty → (TracedNode.system ⟨L, sign i⟩).Reach (steady L) (signer i)

namespace SignerGroup

variable (G : SignerGroup C L)

/-- A correct signer signs the rounds whose confirmations it publishes. -/
def Signs (i : Nat) (msg : Bytes) : Prop :=
  i ∈ G.faulty ∨ ∃ conf ∈ (G.signer i).node.pubsub, conf.roundCid = msg

def signed (key : VerKey C) (msg : Bytes) : Prop :=
  ∃ i, G.keys[i]? = some key ∧ G.Signs i msg

variable {G}

theorem signs_of_signed {i : Nat} {hi : i < G.keys.length} {msg : Bytes}
    (h : G.signed (G.keys[i]) msg) : G.Signs i msg := by
  obtain ⟨j, hj, hsigns⟩ := h
  rw [← List.getElem?_eq_getElem hi] at hj
  rwa [(List.getElem?_inj hi G.nodup).mp hj.symm]

/-- The client after these messages. -/
def client (G : SignerGroup C L) (messages : List Delivery) : RoundSubscriber C :=
  (RoundSubscriber.new G.group).deliver L messages

theorem client_deliver (messages later : List Delivery) :
    (G.client messages).deliver L later = G.client (messages ++ later) :=
  (List.foldl_append ..).symm

/-- The positions that a client has counted for its round. -/
theorem counted (hunf : Unforgeable G.keys G.signed) {messages : List Delivery}
    {cur : RoundConfirmation} (hcur : (G.client messages).current = some cur) :
    ∃ a : Finset Nat, quorumOf G.keys.length ≤ a.card ∧
      ∀ i ∈ a, i < G.keys.length ∧ G.Signs i cur.roundCid := by
  obtain ⟨a, hquorum, ha⟩ := current_signed_by_quorum G.verKeys hunf hcur
  refine ⟨a, hquorum, fun i hi => ?_⟩
  obtain ⟨hlt, hsigned⟩ := ha i hi
  exact ⟨hlt, signs_of_signed hsigned⟩

/-- **A correct signer stands behind what two clients have.** -/
theorem exists_correct (hunf : Unforgeable G.keys G.signed) {da db : List Delivery}
    {ca cb : RoundConfirmation} (hca : (G.client da).current = some ca)
    (hcb : (G.client db).current = some cb) :
    ∃ i, i ∉ G.faulty ∧
      (∃ conf ∈ (G.signer i).node.pubsub, conf.roundCid = ca.roundCid) ∧
      ∃ conf ∈ (G.signer i).node.pubsub, conf.roundCid = cb.roundCid := by
  obtain ⟨a, hqa, ha⟩ := counted hunf hca
  obtain ⟨b, hqb, hb⟩ := counted hunf hcb
  have hsize : (Finset.range G.keys.length).card + G.faulty.card < a.card + b.card := by
    rw [quorumOf_eq] at hqa hqb
    rw [Finset.card_range]
    exact Quorum.two_thirds_overlap hqa hqb G.few
  obtain ⟨i, hia, hib, hif⟩ := Quorum.exists_mem_inter_not_mem
    (fun i hi => Finset.mem_range.mpr (ha i hi).1) (fun i hi => Finset.mem_range.mpr (hb i hi).1)
    hsize
  exact ⟨i, hif, (ha i hia).2.resolve_left hif, (hb i hib).2.resolve_left hif⟩

end SignerGroup

/-! ## What a client reads of a history -/

/-- What `GetTip` has found out about the object. -/
inductive Answers : Except GetTipError Proof → Option AddBlockRequest → Prop where
  | found (proof : Proof) : Answers (.ok proof) proof.addBlockRequest
  | notFound : Answers (.error .tipNotFound) none

theorem Answers.ne_noRound {answer : Except GetTipError Proof} (h : Answers answer found) :
    answer ≠ .error .noRound := by
  cases h with
  | found => exact fun he => by cases he
  | notFound => exact fun he => by cases he

section Reading

variable {store kept : DagStore} {decided : List Decision} {conf cur : RoundConfirmation}

/-- A client that reads a confirmed round reads the state after the decisions up to it. -/
theorem isState_of_reads (hL : L.Faithful) (hstore : store.Addressed L)
    (hconf : IsConfirmation L kept decided conf) (hcid : conf.roundCid = cur.roundCid) {hamt : Hamt}
    (h : RoundSubscriber.Reads L store cur r hamt) : IsState L decided r.height hamt := by
  obtain ⟨completed, hround, -, -, state, hstate, his, -⟩ := hconf
  obtain ⟨hcr, hch⟩ := h.cids hstore
  rw [← hcid, hround, hL.cast_cidOf] at hcr
  obtain rfl := DagNode.round.inj (hL.injective (Except.ok.inj hcr))
  rw [hstate, hL.cast_cidOf] at hch
  obtain rfl := DagNode.hamt.inj (hL.injective (Except.ok.inj hch))
  exact his

theorem answer_eq (hL : L.Faithful) (hstore : store.Addressed L)
    (hconf : IsConfirmation L kept decided conf) (hcid : conf.roundCid = cur.roundCid)
    (hr : cur.fetchCompletedRound L store = .ok r) {did : Bytes}
    (h : Answers (RoundSubscriber.getTipOf L store cur did) found) :
    found = stateAt decided r.height did := by
  generalize hanswer : RoundSubscriber.getTipOf L store cur did = answer at h
  cases h with
  | found proof =>
    obtain ⟨r', hamt, txCID, abr, hreads, hlookup, habr, rfl⟩ :=
      RoundSubscriber.getTipOf_ok hanswer
    obtain rfl := Except.ok.inj (hr.symm.trans hreads.round)
    have hstate := isState_of_reads hL hstore hconf hcid hreads did
    rw [hlookup, ← hstore _ _ habr] at hstate
    obtain ⟨abr', habr', heq⟩ := Option.map_eq_some_iff.mp hstate.symm
    rw [habr', DagNode.addBlockRequest.inj (hL.injective heq)]
  | notFound =>
    obtain ⟨r', hamt, hreads, hlookup⟩ := RoundSubscriber.getTipOf_tipNotFound hanswer
    obtain rfl := Except.ok.inj (hr.symm.trans hreads.round)
    have hstate := isState_of_reads hL hstore hconf hcid hreads did
    rw [hlookup] at hstate
    exact (Option.map_eq_none_iff.mp hstate.symm).symm

end Reading

/-- An answer that a client gets: the round it is read from, and the store it is read in. -/
structure TipRead (G : SignerGroup C L) (did : Bytes) (r : Round)
    (found : Option AddBlockRequest) where
  before : List Delivery
  messages : List Delivery
  waited : WaitEnd
  store : DagStore
  addressed : store.Addressed L
  current : RoundConfirmation
  hcurrent : ((G.client before).deliver L messages).current = some current
  hround : current.fetchCompletedRound L store = .ok r
  answers : Answers ((G.client before).getTip L store messages waited did) found

theorem TipRead.getTipOf {G : SignerGroup C L} {did : Bytes} (t : TipRead G did r found) :
    Answers (RoundSubscriber.getTipOf L t.store t.current did) found := by
  have h := t.answers
  obtain ⟨confirmation, hcur, htip⟩ := RoundSubscriber.getTip_answer rfl h.ne_noRound
  obtain rfl := Option.some.inj (hcur.symm.trans t.hcurrent)
  rwa [htip]

/-- What the client has when it reads. -/
theorem TipRead.client {G : SignerGroup C L} {did : Bytes} (t : TipRead G did r found) :
    (G.client (t.before ++ t.messages)).current = some t.current := by
  rw [← SignerGroup.client_deliver]
  exact t.hcurrent

variable {G : SignerGroup C L} {did : Bytes}

/-- **Two answers come from the history of one correct signer.** -/
theorem TipRead.exists_history (hL : L.Faithful) (hunf : Unforgeable G.keys G.signed)
    {ra rb : Round} {a b : Option AddBlockRequest} (ta : TipRead G did ra a)
    (tb : TipRead G did rb b) :
    ∃ i, i ∉ G.faulty ∧ ∃ decided, ConfirmedHistory L (G.signer i) decided ∧
      a = stateAt decided ra.height did ∧ b = stateAt decided rb.height did := by
  obtain ⟨i, hi, ⟨conf, hconf, hcid⟩, conf', hconf', hcid'⟩ :=
    SignerGroup.exists_correct hunf ta.client tb.client
  obtain ⟨decided, hhistory, -⟩ := history_reach hL (G.reach i hi)
  exact ⟨i, hi, decided, hhistory,
    answer_eq hL ta.addressed (hhistory.confirmed conf hconf) hcid ta.hround ta.getTipOf,
    answer_eq hL tb.addressed (hhistory.confirmed conf' hconf') hcid' tb.hround tb.getTipOf⟩

/--
**What a client reads has been decided.**

The request that `GetTip` finds for an object is for this object and was applied by a correct
signer, in the history behind its confirmations. There it ends a chain of requests from the first
of the object, each with the next height and on the tip of the one before.
-/
theorem getTip_reads_decided (hL : L.Faithful) (hunf : Unforgeable G.keys G.signed) {r : Round}
    {abr : AddBlockRequest} (t : TipRead G did r (some abr)) :
    abr.objectId = did ∧ ∃ i, i ∉ G.faulty ∧ ∃ decided, ConfirmedHistory L (G.signer i) decided ∧
      (∃ d ∈ decided, abr ∈ d.applied) ∧
      ∃ before, before ++ [abr] <+: chainOf decided did ∧ Consecutive (before ++ [abr]) := by
  obtain ⟨i, hi, decided, hhistory, hfound, -⟩ := t.exists_history hL hunf t
  obtain ⟨d, hd, habr⟩ := List.mem_flatMap.mp (mem_of_latest hfound.symm)
  refine ⟨key_of_latest hfound.symm, i, hi, decided, hhistory,
    ⟨d, List.mem_of_mem_take hd, habr⟩, ?_⟩
  have hlast : (chainOf (decided.take (r.height + 1)) did).getLast? = some abr :=
    (stateNow_eq_getLast? _ did).symm.trans hfound.symm
  obtain ⟨before, hbefore⟩ := List.getLast?_eq_some_iff.mp hlast
  have hstart := chainOf_start (List.take_prefix (r.height + 1) decided) did
  rw [hbefore] at hstart
  exact ⟨before, hstart, (hhistory.chains did).of_start hstart⟩

/--
**Clients see every object on one chain.**

Two answers, of any two clients at any two times, after whatever messages, from whatever
content-addressed stores. Both are on the chain of the object in the history of one correct
signer, and what is read from the round of the lower height comes first there. From rounds of
equal height both read the same.
-/
theorem tips_on_one_chain (hL : L.Faithful) (hunf : Unforgeable G.keys G.signed) {ra rb : Round}
    {a b : Option AddBlockRequest} (ta : TipRead G did ra a) (tb : TipRead G did rb b)
    (hle : ra.height ≤ rb.height) :
    (∃ i, i ∉ G.faulty ∧ ∃ decided, ConfirmedHistory L (G.signer i) decided ∧
      Descends decided did a b) ∧ (ra.height = rb.height → a = b) := by
  obtain ⟨i, hi, decided, hhistory, rfl, rfl⟩ := ta.exists_history hL hunf tb
  exact ⟨⟨i, hi, decided, hhistory, descends_stateAt decided hle did⟩, fun heq => by rw [heq]⟩

/-! ## Four signers, one of which may lie -/

namespace GroupExample

open DurableExample (lost)
open EquivocationExample (env)

/-- The signers have all run alike: they have confirmed rounds 0 and 1, with a crash between. -/
noncomputable def signer : TracedNode :=
  ((TracedNode.system env).run (steady Ipld.sorted) lost).getD (TracedNode.system env).start

theorem run_lost :
    (TracedNode.system env).run (steady Ipld.sorted) lost = some signer := by
  have hsome : ((TracedNode.system env).run (steady Ipld.sorted) lost).isSome = true := by
    decide +kernel
  obtain ⟨s, hs⟩ := Option.isSome_iff_exists.mp hsome
  rw [signer, hs]
  rfl

noncomputable def roundCids : List Bytes := signer.node.pubsub.map (·.roundCid)

noncomputable def crypto : Crypto := Crypto.signing roundCids

noncomputable def keys : List (VerKey crypto) := [⟨[1], ()⟩, ⟨[2], ()⟩, ⟨[3], ()⟩, ⟨[4], ()⟩]

noncomputable def group : NotaryGroup crypto where
  id := "group"
  signers := (((AList.singleton "a" ⟨"a", ⟨[1], ()⟩⟩).insert "b" ⟨"b", ⟨[2], ()⟩⟩).insert "c"
    ⟨"c", ⟨[3], ()⟩⟩).insert "d" ⟨"d", ⟨[4], ()⟩⟩
  sortedIds := ["a", "b", "c", "d"]

theorem nodup_keys : keys.Nodup := by
  refine List.Nodup.of_map VerKey.value ?_
  decide

noncomputable def signers : SignerGroup crypto Ipld.sorted where
  group := group
  keys := keys
  verKeys := rfl
  nodup := nodup_keys
  faulty := {3}
  few := by decide
  sign := fun _ => env.sign
  signer := fun _ => signer
  reach := fun _ _ => System.reach_of_run run_lost

theorem unforgeable_signers : Unforgeable signers.keys signers.signed := by
  intro run s s' msg hrestore hvalid i hi hcounts
  have hmsg := Crypto.unforgeable_signing roundCids keys run s s' msg hrestore hvalid i hi hcounts
  obtain ⟨conf, hconf, hcid⟩ := List.mem_map.mp hmsg
  exact ⟨i, List.getElem?_eq_getElem hi, Or.inr ⟨conf, hconf, hcid⟩⟩

/-- Three signers confirm the round of this height, and the client takes the nodes from one. -/
noncomputable def delivery (height : Nat) (counts : List UInt32) : Delivery where
  msg := .ok
    { roundCid := (roundCids[height]?).getD [], height
      signature := some { ownership := some { publicKey := none, conditions := "" }
                          signers := counts, signature := [1], preImage := "" } }
  run := fun _ _ => .ok true
  store := signer.node.dagStore

theorem addressed_signer : signer.node.dagStore.Addressed Ipld.sorted :=
  (ordered_reach Ipld.sorted_faithful
    ((System.reach_of_run run_lost).mono fun _ _ => steady_inOrder)).addressed

/-- What a client that has got the confirmation reads: the height of the round, and the tip. -/
noncomputable def reads (counts : List UInt32) (height : Nat) :
    Option (Option Nat × Option (Option Bytes)) :=
  (signers.client [delivery height counts]).current.map fun cur =>
    ((cur.fetchCompletedRound Ipld.sorted signer.node.dagStore).toOption.map (·.height),
      ((signers.client [delivery height counts]).getTip Ipld.sorted signer.node.dagStore [] .timer
        [1]).toOption.map fun proof => proof.addBlockRequest.map (·.newTip))

theorem exists_tipRead {counts : List UInt32} {height height' : Nat} {tip : Bytes}
    (h : reads counts height = some (some height', some (some tip))) :
    ∃ r abr, r.height = height' ∧ abr.newTip = tip ∧
      Nonempty (TipRead signers [1] r (some abr)) := by
  obtain ⟨cur, hcur, hv⟩ := Option.map_eq_some_iff.mp h
  obtain ⟨hround, htip⟩ := Prod.mk.inj hv
  obtain ⟨r, hr, hheight⟩ := Option.map_eq_some_iff.mp hround
  obtain ⟨proof, hproof, habr⟩ := Option.map_eq_some_iff.mp htip
  obtain ⟨abr, habr, hnew⟩ := Option.map_eq_some_iff.mp habr
  refine ⟨r, abr, hheight, hnew, ⟨?_⟩⟩
  exact
    { before := [delivery height counts], messages := [], waited := .timer
      store := signer.node.dagStore, addressed := addressed_signer, current := cur
      hcurrent := hcur, hround := toOption_eq_some.mp hr
      answers := by
        rw [toOption_eq_some.mp hproof, ← habr]
        exact .found proof }

theorem getTip_reads_decided_example : ∃ abr : AddBlockRequest,
    abr.newTip = [3] ∧ abr.objectId = [1] ∧ ∃ i, i ∉ signers.faulty ∧ ∃ decided,
    ConfirmedHistory Ipld.sorted (signers.signer i) decided ∧ (∃ d ∈ decided, abr ∈ d.applied) ∧
    ∃ before, before ++ [abr] <+: chainOf decided [1] ∧ Consecutive (before ++ [abr]) := by
  obtain ⟨r, abr, -, hnew, ⟨t⟩⟩ :=
    exists_tipRead (show reads [1, 1, 1, 0] 1 = some (some 1, some (some [3])) by decide +kernel)
  exact ⟨abr, hnew, getTip_reads_decided Ipld.sorted_faithful unforgeable_signers t⟩

/-- One client reads at height 0 and the other at height 1, with the liar among its signers. -/
theorem tips_on_one_chain_example : ∃ a b : AddBlockRequest,
    a.newTip = [1] ∧ b.newTip = [3] ∧ ∃ i, i ∉ signers.faulty ∧ ∃ decided,
    ConfirmedHistory Ipld.sorted (signers.signer i) decided ∧
    Descends decided [1] (some a) (some b) := by
  obtain ⟨ra, a, hra, ha, ⟨ta⟩⟩ :=
    exists_tipRead (show reads [1, 1, 1, 0] 0 = some (some 0, some (some [1])) by decide +kernel)
  obtain ⟨rb, b, hrb, hb, ⟨tb⟩⟩ :=
    exists_tipRead (show reads [1, 1, 0, 1] 1 = some (some 1, some (some [3])) by decide +kernel)
  have hle : ra.height ≤ rb.height := by
    rw [hra, hrb]
    decide
  exact ⟨a, b, ha, hb,
    (tips_on_one_chain Ipld.sorted_faithful unforgeable_signers ta tb hle).1⟩

end GroupExample

end Tupelo

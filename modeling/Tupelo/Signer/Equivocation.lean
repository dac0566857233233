import Tupelo.Signer.RestoredRounds
import Tupelo.Signer.Resume
import Tupelo.SortedIpld

/-!
# A signer confirms one round of each height

What a signer publishes is signed, and others count its signature. A signer that signs two rounds
of one height equivocates. Here is why it does not: a round is confirmed only after its CID
has been stored under the key of its height, and what is stored there is not replaced by anything
else, however often the signer crashes, as long as no height is decided for which a round has
been stored.

The code does not enforce this condition. It holds of every run without a crash
(`reach_of_uninterrupted`) and of every run in which the heights are written in order
(`reach_of_inOrder`). Otherwise the signer may resume at a height that it has confirmed, and
confirm another round there.
-/

namespace Tupelo

open Infra Node

/-! ## The invariant -/

/-- The data store has this CID for the round of the height. -/
def Recorded (n : Node) (height : Nat) (roundCid : Bytes) : Prop :=
  n.dataStore (roundKey height) = some roundCid

/-- A goroutine confirms, and publishes, what has been stored. -/
def Pc.Recorded (L : Ipld) (n : Node) : Pc → Prop
  | .confirm completed => Tupelo.Recorded n completed.height (L.cidOf (.round completed)).bytes
  | .publish conf => Tupelo.Recorded n conf.height conf.roundCid
  | _ => True

/-- Every confirmation is of the round that is stored for its height. -/
structure Confirmed (L : Ipld) (n : Node) : Prop where
  threads : ∀ t ∈ n.threads, t.pc.Recorded L n
  republish : ∀ height conf, n.roundRepublishCache.peek height = some conf →
    Recorded n conf.height conf.roundCid
  pubsub : ∀ conf ∈ n.pubsub, Recorded n conf.height conf.roundCid

theorem confirmed_genesis (L : Ipld) : Confirmed L Node.genesis where
  threads := fun _ h => by cases h
  republish := fun _ _ h => by cases h
  pubsub := fun _ h => by cases h

variable {L : Ipld} {n n' : Node} {history : Nat → List Decision}

/-- What is stored for a height stays. -/
def Keeps (n n' : Node) : Prop :=
  ∀ height roundCid, Recorded n height roundCid → Recorded n' height roundCid

theorem Keeps.pc (h : Keeps n n') {pc : Pc} (hpc : pc.Recorded L n) : pc.Recorded L n' := by
  cases pc with
  | confirm completed => exact h _ _ hpc
  | publish conf => exact h _ _ hpc
  | start | txs _ | flush | putState | addCheckpoint _ | addRound _ | putHeight _ | putRound _ =>
    exact trivial

/-- A step that publishes nothing, and keeps what is stored. -/
theorem Confirmed.keep (h : Confirmed L n) (hkeeps : Keeps n n')
    (hrepublish : n'.roundRepublishCache = n.roundRepublishCache) (hpubsub : n'.pubsub = n.pubsub)
    (hthreads : ∀ t ∈ n'.threads, t ∈ n.threads ∨ t.pc.Recorded L n') : Confirmed L n' where
  threads := by
    intro t ht
    rcases hthreads t ht with hold | hnew
    · exact hkeeps.pc (h.threads t hold)
    · exact hnew
  republish := by
    rw [hrepublish]
    exact fun height conf hconf => hkeeps _ _ (h.republish height conf hconf)
  pubsub := by
    rw [hpubsub]
    exact fun conf hconf => hkeeps _ _ (h.pubsub conf hconf)

theorem Confirmed.looked (h : Confirmed L n) {n₁ : Node} (hn₁ : Looked L n n₁) :
    Confirmed L n₁ := by
  obtain ⟨heap, roundCache, rfl⟩ := hn₁.frame
  exact { h with }

theorem Confirmed.storeAbr (h : Confirmed L n) (w : AddBlockWrapper) (stored : Bool) :
    Confirmed L (n.storeAbr L w stored) := by
  cases stored with
  | false => exact h
  | true => exact { h with }

/-! ## What a goroutine stores -/

section ThreadStep

variable {E : Env} {p : Nat} {r : PastRound} {ok : Bool} {pc : Pc} {next : Option Pc}

/-- **What is stored for a height is not replaced.** All rounds of a height are the same one. -/
theorem Stable.keeps (h : Stable E.L n history) (hof : pc.Of r.height)
    (hpc : PcInv E.L n.dagStore (history r.height) r pc)
    (hstep : ThreadStep E n p r ok pc n' next) : Keeps n n' := by
  intro height roundCid hrec
  rcases hstep.stored height with heq | ⟨completed, rfl, rfl, heq⟩
  · exact heq.trans hrec
  · have hk : completed.height = r.height := hof
    obtain ⟨stored, rfl, hheight, hc, -⟩ := h.data _ _ hrec
    have hcompleted : IsCompleted E.L n.dagStore (history completed.height) completed := by
      rw [hk]
      exact hpc.2.1
    have hsame : completed = stored := isCompleted_unique hcompleted hc hheight.symm rfl
    exact heq.trans (by rw [← hsame])

/-- A round is confirmed after it has been stored, and published after it has been confirmed. -/
theorem Node.ThreadStep.recorded (hpc : pc.Recorded E.L n)
    (hstep : ThreadStep E n p r ok pc n' next) : ∀ q, next = some q → q.Recorded E.L n' := by
  intro q hq
  cases hstep with
  | putRound completed =>
    rw [← Option.some.inj hq]
    show (n.putCompletedRound E.L completed).dataStore (roundKey completed.height) = _
    rw [putCompletedRound_roundKey, if_pos rfl]
  | confirm ok hconf =>
    obtain ⟨sig, -, hsig⟩ := bind_eq_ok.mp hconf
    rw [← Option.some.inj hq, ← pure_eq_ok.mp hsig]
    exact hpc
  | putState =>
    split at hq
    · rw [← Option.some.inj hq]
      exact trivial
    · cases hq
  | start | settled | settle | flush | addCheckpoint | addRound | putHeight =>
    rw [← Option.some.inj hq]
    exact trivial
  | fail | unconfirmed | unpublished | publish => cases hq

theorem Confirmed.threadStep (h : Confirmed E.L n) (hkeeps : Keeps n n') (hpc : pc.Recorded E.L n)
    (hstep : ThreadStep E n p r ok pc n' next) : Confirmed E.L n' := by
  have hthreads : ∀ t ∈ n'.threads, t ∈ n.threads ∨ t.pc.Recorded E.L n' := by
    rw [hstep.frame.2.2]
    exact fun t ht => Or.inl ht
  cases hstep with
  | confirm ok hconf =>
    obtain ⟨sig, -, hsig⟩ := bind_eq_ok.mp hconf
    obtain rfl := pure_eq_ok.mp hsig
    exact { h with republish := Lru.forall_peek_add h.republish hpc }
  | publish conf => exact { h with pubsub := forall_mem_concat h.pubsub hpc }
  | fail | start | settled | settle | flush | putState | addCheckpoint | addRound | putHeight
  | putRound | unconfirmed | unpublished => exact h.keep hkeeps rfl rfl hthreads

end ThreadStep

theorem Confirmed.setThread (h : Confirmed L n) {i : Nat} {t : Thread} {next : Option Pc}
    (hnext : ∀ q, next = some q → q.Recorded L n) : Confirmed L (n.setThread i t next) := by
  rw [setThread_eq]
  exact { h with threads := forall_setThread h.threads hnext }

/-! ## Runs -/

theorem Confirmed.step {E : Env} {e : Event} (hstable : Stable E.L n history)
    (h : Confirmed E.L n) (hstep : n.step E e = some n') : Confirmed E.L n' := by
  cases eventStep_of_step hstep with
  | drop hn₁ | answer hn₁ | tick hn₁ => exact h.looked hn₁
  | await hn₁ => exact { h.looked hn₁ with }
  | store hn₁ => exact (h.looked hn₁).storeAbr _ _
  | @promote i =>
    have hpromoted : Confirmed E.L { n with promotions := n.promotions.eraseIdx i } := { h with }
    exact hpromoted.storeAbr _ _
  | running => exact h
  | start => exact { h with }
  | decided hdone =>
    obtain ⟨state, n₁, abrs, inflight, promotions, hstate, -, rfl⟩ := handleSnowballerDone_ok hdone
    have h₁ := h.looked (looked_previousState hstate)
    exact { h₁ with threads := forall_mem_concat h₁.threads trivial }
  | background ht hr hthread =>
    have hmem := List.mem_of_getElem? ht
    obtain ⟨r, hr', -, hof, hpc⟩ := hstable.threads _ hmem
    obtain rfl := Option.some.inj (hr'.symm.trans hr)
    have hkeeps := hstable.keeps hof hpc hthread
    have hrecorded := h.threads _ hmem
    exact (h.threadStep hkeeps hrecorded hthread).setThread (hthread.recorded hrecorded)
  | republish hget hconf =>
    have h₁ := h.looked (Looked.of_get hget)
    exact { h₁ with pubsub := forall_mem_concat h₁.pubsub (h₁.republish _ _ hconf) }
  | spawn hget =>
    have h₁ := h.looked (Looked.of_get hget)
    exact { h₁ with threads := forall_mem_concat h₁.threads trivial }

/-- A crash takes the goroutines and the caches; the data store and what was published remain. -/
theorem Confirmed.crash (h : Confirmed L n)
    (hn' : initRoundHolder n.dagStore n.dataStore n.pubsub = .ok n') : Confirmed L n' := by
  obtain ⟨height, -, hpure⟩ := bind_eq_ok.mp hn'
  obtain rfl := pure_eq_ok.mp hpure
  exact
    { threads := fun _ ht => by cases ht
      republish := fun _ _ hconf => by cases hconf
      pubsub := h.pubsub }

theorem confirmed_reach {E : Env} (hL : E.L.Faithful) {s : TracedNode}
    (h : (TracedNode.system E).Reach freshHeights s) : Confirmed E.L s.node := by
  induction h with
  | start => exact confirmed_genesis E.L
  | step a hs hok hact ih =>
    obtain ⟨history, hstable⟩ := stable_reach hL hs
    cases a with
    | event e =>
      obtain ⟨n, hn, rfl⟩ := TracedNode.act_event hact
      exact ih.step hstable hn
    | crash =>
      obtain ⟨n, hn, rfl⟩ := TracedNode.act_crash hact
      exact ih.crash hn

/-- What is confirmed is in the history. -/
theorem Durable.isConfirmation {decided : List Decision} (h : Durable L n decided)
    (hconfirmed : Confirmed L n) {conf : RoundConfirmation} (hconf : conf ∈ n.pubsub) :
    IsConfirmation L n.dagStore decided conf := by
  have hrec := hconfirmed.pubsub conf hconf
  obtain ⟨completed, hcid, hheight, hc, -⟩ := h.stable.data _ _ hrec
  exact ⟨completed, hcid, hheight.symm, (grown_upTo L _ decided _).isCompleted hc⟩

/-- A signer whose heights are written in order never decides a height that it has stored. -/
theorem reach_of_inOrder {E : Env} (hL : E.L.Faithful) {s : TracedNode}
    (h : (TracedNode.system E).Reach inOrder s) :
    (TracedNode.system E).Reach freshHeights s := by
  refine reach_freshHeights (fun hs => Option.eq_none_iff_forall_ne_some.mpr fun b hb => ?_) h
  have hordered := ordered_reach hL hs
  exact Nat.lt_irrefl _ ((hordered.data _ b hb).1.lt_current hordered)

/--
**A signer confirms one round of each height.**

Whatever it has published, over all its crashes: each confirmation is for a round of the height
it gives, and two confirmations of one height are for the same round.
-/
theorem confirms_one_round {E : Env} (hL : E.L.Faithful) {s : TracedNode}
    (h : (TracedNode.system E).Reach freshHeights s) {conf : RoundConfirmation}
    (hconf : conf ∈ s.node.pubsub) :
    (∃ completed, conf.roundCid = (E.L.cidOf (.round completed)).bytes ∧
      completed.height = conf.height) ∧
    ∀ conf' ∈ s.node.pubsub, conf'.height = conf.height → conf'.roundCid = conf.roundCid := by
  have hconfirmed := confirmed_reach hL h
  obtain ⟨history, hstable⟩ := stable_reach hL h
  have hrec := hconfirmed.pubsub conf hconf
  refine ⟨?_, ?_⟩
  · obtain ⟨completed, hcid, hheight, -⟩ := hstable.data _ _ hrec
    exact ⟨completed, hcid, hheight⟩
  · intro conf' hconf' hheight
    have hrec' := hconfirmed.pubsub conf' hconf'
    rw [hheight] at hrec'
    exact Option.some.inj (hrec'.symm.trans hrec)

namespace EquivocationExample

open RunExample (round abr background sign)

def env : Env := ⟨Ipld.sorted, sign [1]⟩

/-- Two rounds, the second published twice; a crash, and one more round. -/
noncomputable def restarted : List Action :=
  round 0 (abr 0 1 0) ++ background 0 11 ++ round 1 (abr 1 2 1) ++ background 0 11
    ++ [.event (.republish true), .crash] ++ round 2 (abr 2 3 2) ++ background 0 11

theorem confirms_one_round_example : ∃ s conf,
    (TracedNode.system env).run freshHeights restarted = some s ∧
    s.node.pubsub.map (·.height) = [0, 1, 1, 2] ∧ conf ∈ s.node.pubsub ∧
    (∃ completed, conf.roundCid = (env.L.cidOf (.round completed)).bytes ∧
      completed.height = conf.height) ∧
    ∀ conf' ∈ s.node.pubsub, conf'.height = conf.height → conf'.roundCid = conf.roundCid := by
  have hrun : ((TracedNode.system env).run freshHeights restarted).map
      (fun s => s.node.pubsub.map (·.height)) = some [0, 1, 1, 2] := by decide +kernel
  obtain ⟨s, hs, hpub⟩ := Option.map_eq_some_iff.mp hrun
  obtain ⟨conf, hconf, -⟩ := List.mem_map.mp (show 1 ∈ s.node.pubsub.map (·.height) by
    rw [hpub]
    decide)
  exact ⟨s, conf, hs, hpub, hconf,
    confirms_one_round Ipld.sorted_faithful (System.reach_of_run hs) hconf⟩

end EquivocationExample

end Tupelo

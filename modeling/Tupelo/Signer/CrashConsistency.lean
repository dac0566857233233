import Tupelo.Signer.Equivocation

/-!
# What a crash leaves of completed rounds

`storeCompletedRound` writes the last completed height and then, under the key of that height,
the CID of the round. The nodes the round refers to have been added before. A signer that starts
again looks for the round of the last completed height.

It is there unless the two writes were torn apart: by a crash between them, or by a failure of
the second. The condition `atomicPuts` excludes just that. It is the round that was published if
in addition no height is decided again for which a round has been stored (`freshHeights`).
-/

namespace Tupelo

open Infra Node

/-- The round of the last completed height is stored, or a goroutine is about to store it. -/
def LastStored (n : Node) : Prop :=
  ∀ b, n.dataStore lastCompletedHeightKey = some b → ∃ h, b = putUvarint 10 h ∧
    ((∃ c, n.dataStore (roundKey h) = some c) ∨
      ∃ t ∈ n.threads, ∃ completed, t.pc = .putRound completed ∧ completed.height = h)

variable {n : Node}
variable {s : TracedNode} {E : Env}

/-! ## Runs -/

/-- The goroutine stands between the two writes. -/
def Pc.betweenPuts : Pc → Bool
  | .putRound _ => true
  | _ => false

/--
The condition: no crash while a goroutine stands between the two writes of
`storeCompletedRound`, and the second write does not fail.
-/
def atomicPuts (s : TracedNode) : Action → Bool
  | .event (.background i _ ok) =>
    match s.node.threads[i]? with
    | some { pc := .putRound _, .. } => ok
    | _ => true
  | .event _ => true
  | .crash => s.node.threads.all fun t => !t.pc.betweenPuts

/-- The other goroutines stay where they are. -/
theorem mem_setThread_of_ne {i : Nat} {t t' : Thread} (ht : n.threads[i]? = some t)
    (ht' : t' ∈ n.threads) (hne : t' ≠ t) (next : Option Pc) :
    t' ∈ (n.setThread i t next).threads := by
  obtain ⟨j, hj⟩ := List.mem_iff_getElem?.mp ht'
  have hij : i ≠ j := by
    rintro rfl
    exact hne (Option.some.inj (hj.symm.trans ht))
  cases next with
  | none => exact List.mem_eraseIdx_iff_getElem?.mpr ⟨j, hij.symm, hj⟩
  | some pc =>
    refine List.mem_iff_getElem?.mpr ⟨j, ?_⟩
    show (n.threads.set i { t with pc })[j]? = some t'
    rw [List.getElem?_set_ne hij, hj]

/-- A round that another goroutine is about to store, it still is. -/
theorem pending_setThread {i height : Nat} {t : Thread} (ht : n.threads[i]? = some t)
    (hne : ∀ completed, t.pc = .putRound completed → completed.height ≠ height)
    (h : ∃ t ∈ n.threads, ∃ completed, t.pc = .putRound completed ∧ completed.height = height)
    (next : Option Pc) : ∃ t' ∈ (n.setThread i t next).threads, ∃ completed,
      t'.pc = .putRound completed ∧ completed.height = height := by
  obtain ⟨t', ht', completed, hpc, hheight⟩ := h
  refine ⟨t', mem_setThread_of_ne ht ht' ?_ next, completed, hpc, hheight⟩
  rintro rfl
  exact hne completed hpc hheight

theorem setThread_dataStore (n : Node) (i : Nat) (t : Thread) (next : Option Pc) :
    (n.setThread i t next).dataStore = n.dataStore := by
  cases next <;> rfl

/-- A goroutine that stands elsewhere and writes nothing. -/
theorem lastStored_of_same {n n₁ : Node} (hl : LastStored n) (hdata : n₁.dataStore = n.dataStore)
    (hthreads : n₁.threads = n.threads) {i : Nat} {t : Thread} (ht : n.threads[i]? = some t)
    (hne : ∀ completed, t.pc ≠ .putRound completed) (next : Option Pc) :
    LastStored (n₁.setThread i t next) := by
  intro b hb
  rw [setThread_dataStore, hdata] at hb ⊢
  obtain ⟨height, hbytes, hkey | hpending⟩ := hl b hb
  · exact ⟨height, hbytes, Or.inl hkey⟩
  · rw [← hthreads] at ht hpending
    exact ⟨height, hbytes, Or.inr
      (pending_setThread ht (fun c hc => absurd hc (hne c)) hpending next)⟩

/-- **A step of a goroutine never leaves the last height without its round.** -/
theorem lastStored_stepBackground {n' : Node} {i pick : Nat} {ok : Bool} (hl : LastStored s.node)
    (hok : atomicPuts s (.event (.background i pick ok)) = true)
    (h : s.node.stepBackground E i pick ok = some n') : LastStored n' := by
  obtain ⟨⟨p, pc⟩, r, n₁, next, ht, hr, hstep, rfl⟩ := stepBackground_ok h
  cases hstep with
  | putHeight completed =>
    -- the goroutine itself is now about to store the round
    intro b hb
    rw [setThread_dataStore, putLastCompletedHeight_last] at hb
    refine ⟨completed.height, (Option.some.inj hb).symm, Or.inr ⟨⟨p, .putRound completed⟩, ?_,
      completed, rfl, rfl⟩⟩
    exact List.mem_iff_getElem?.mpr
      ⟨i, List.getElem?_set_self (List.getElem?_eq_some_iff.mp ht).1⟩
  | putRound completed =>
    intro b hb
    rw [setThread_dataStore, putCompletedRound_last] at hb
    obtain ⟨height, hbytes, hcase⟩ := hl b hb
    refine ⟨height, hbytes, ?_⟩
    rw [setThread_dataStore, putCompletedRound_roundKey]
    by_cases hk : height = completed.height
    · rw [if_pos hk]
      exact Or.inl ⟨_, rfl⟩
    · rw [if_neg hk]
      refine hcase.imp_right fun hpending =>
        pending_setThread (n := s.node.putCompletedRound E.L completed) ht ?_ hpending _
      rintro c ⟨⟩
      exact Ne.symm hk
  | fail pc =>
    -- the second write does not fail
    refine lastStored_of_same hl rfl rfl ht ?_ _
    rintro c rfl
    simp [atomicPuts, ht] at hok
  | _ =>
    refine lastStored_of_same hl ?_ ?_ ht ?_ _
    · rfl
    · rfl
    · rintro c ⟨⟩

/-- After a crash that tears no writes apart nothing is about to be stored. -/
theorem LastStored.stored (hl : LastStored s.node) (hcrash : atomicPuts s .crash = true) {b : Bytes}
    (hb : s.node.dataStore lastCompletedHeightKey = some b) :
    ∃ h c, b = putUvarint 10 h ∧ s.node.dataStore (roundKey h) = some c := by
  obtain ⟨height, hbytes, ⟨c, hkey⟩ | ⟨t, ht, completed, hpc, -⟩⟩ := hl b hb
  · exact ⟨height, c, hbytes, hkey⟩
  · have hno := List.all_eq_true.mp hcrash t ht
    rw [hpc] at hno
    cases hno

theorem lastStored_act {s' : TracedNode} {a : Action} (hl : LastStored s.node)
    (hok : atomicPuts s a = true) (h : TracedNode.act E s a = some s') : LastStored s'.node := by
  cases a with
  | event e =>
    obtain ⟨n', hn', rfl⟩ := TracedNode.act_event h
    rcases step_sameStore hn' with ⟨hdata, hthreads⟩ | ⟨i, pick, ok, rfl⟩
    · intro b hb
      rw [hdata] at hb
      obtain ⟨height, hbytes, hcase⟩ := hl b hb
      refine ⟨height, hbytes, ?_⟩
      rcases hcase with hkey | ⟨t, ht, hpc⟩
      · exact Or.inl (by rw [hdata]; exact hkey)
      · exact Or.inr ⟨t, hthreads.subset ht, hpc⟩
    · exact lastStored_stepBackground hl hok hn'
  | crash =>
    obtain ⟨n', hn', rfl⟩ := TracedNode.act_crash h
    obtain ⟨height, -, hn'⟩ := bind_eq_ok.mp hn'
    rw [← pure_eq_ok.mp hn']
    intro b hb
    obtain ⟨k, c, hbytes, hkey⟩ := hl.stored hok hb
    exact ⟨k, hbytes, Or.inl ⟨c, hkey⟩⟩

/-- No write is torn apart, and no height is decided for which a round has been stored. -/
def crashSafe (s : TracedNode) (a : Action) : Bool := atomicPuts s a && freshHeights s a

theorem lastStored_reach (h : (TracedNode.system E).Reach crashSafe s) : LastStored s.node :=
  h.invariant (P := fun s => LastStored s.node) (fun _ hb => by cases hb)
    fun _ _ _ hs hok hact => lastStored_act hs (Bool.and_eq_true_iff.mp hok).1 hact

/--
**A signer that starts again finds its last completed round.**

Let a run have no write of `storeCompletedRound` torn apart, neither by a failure nor by a
crash, the crash that ends it included, and decide no height for which a round has been stored.
If the data store has a last completed height, a signer started on the stores finds a round of
that height, and every confirmation published for the height names a round with its checkpoint
and its state.
-/
theorem restart_finds_last_round {E : Env} (hL : E.L.Faithful) {s : TracedNode}
    (h : (TracedNode.system E).Reach crashSafe s) (hcrash : atomicPuts s .crash = true)
    {b : Bytes} (hb : s.node.dataStore lastCompletedHeightKey = some b) :
    ∃ height n p n' r completed, uvarint b = some height ∧
      initRoundHolder s.node.dagStore s.node.dataStore s.node.pubsub = .ok n ∧
      n.get E.L height = (some p, n') ∧ n'.heap[p]? = some r ∧ r.height = height ∧
      r.state.inflight = ∅ ∧ completed.height = height ∧
      completed.checkpointCid = (E.L.cidOf (.checkpoint r.preferred)).bytes ∧
      completed.stateCid = (E.L.cidOf (.hamt r.state.hamt)).bytes ∧
      ∀ conf ∈ s.node.pubsub, conf.height = height →
        conf.roundCid = (E.L.cidOf (.round completed)).bytes := by
  have hfresh : (TracedNode.system E).Reach freshHeights s :=
    h.mono fun _ _ hok => (Bool.and_eq_true_iff.mp hok).2
  obtain ⟨height, c, rfl, hkey⟩ := (lastStored_reach h).stored hcrash hb
  obtain ⟨history, hstable⟩ := stable_reach hL hfresh
  obtain ⟨completed, rfl, hheight, ⟨⟨d, -, hcp, hcpKept⟩, hamt, hstate, -, hstateKept⟩, hround⟩ :=
    hstable.data height c hkey
  have hresume : resumeHeight s.node.dataStore = .ok (height + 1) := by
    unfold resumeHeight
    rw [hb]
    simp
  have hinit : ∃ n, initRoundHolder s.node.dagStore s.node.dataStore s.node.pubsub = .ok n ∧
      n.dagStore = s.node.dagStore ∧ n.dataStore = s.node.dataStore ∧
      n.roundCache = Lru.new 64 := by
    unfold initRoundHolder
    rw [hresume]
    exact ⟨_, rfl, rfl, rfl, rfl⟩
  obtain ⟨n, hn, hdag, hdata, hcache⟩ := hinit
  rw [← hdag] at hcpKept hstateKept hround
  have hkey' := hkey
  rw [← hdata] at hkey'
  have hrestored := restoreRound_of_stored hL hkey' hround hcp hcpKept hstate hstateKept
  have hget := get_of_restored (by rw [hcache]; rfl) hrestored
  refine ⟨height, n, _, _, _, completed, uvarint_putUvarint _ _, hn, hget,
    List.getElem?_concat_length, hheight, rfl, hheight, hcp, hstate, ?_⟩
  intro conf hconf hconfHeight
  have hrecorded := (confirmed_reach hL hfresh).pubsub conf hconf
  rw [hconfHeight] at hrecorded
  exact Option.some.inj (hrecorded.symm.trans hkey)

namespace CrashExample

open RunExample

/-- Round 0 is decided and the goroutine that stores it takes the given number of steps. -/
noncomputable def storing (steps : Nat) : List Action :=
  round 0 (abr 0 1 0) ++ background 0 steps

/-- The signer crashes when round 0 has been published. -/
theorem restart_finds_last_round_example : ∃ s,
    (TracedNode.system env).run crashSafe (storing 11) = some s ∧ s.node.pubsub.length = 1 ∧
    ∃ n p n' r completed, completed.height = 0 ∧
      initRoundHolder s.node.dagStore s.node.dataStore s.node.pubsub = .ok n ∧
      n.get env.L 0 = (some p, n') ∧ n'.heap[p]? = some r ∧
      completed.checkpointCid = (env.L.cidOf (.checkpoint r.preferred)).bytes ∧
      ∀ conf ∈ s.node.pubsub, conf.height = 0 →
        conf.roundCid = (env.L.cidOf (.round completed)).bytes := by
  have hrun : ((TracedNode.system env).run crashSafe (storing 11)).map
      (fun s => (atomicPuts s .crash, s.node.dataStore lastCompletedHeightKey,
        s.node.pubsub.length)) = some (true, some (putUvarint 10 0), 1) := by decide +kernel
  obtain ⟨s, hs, hv⟩ := Option.map_eq_some_iff.mp hrun
  obtain ⟨hcrash, hv⟩ := Prod.mk.inj hv
  obtain ⟨hlast, hlength⟩ := Prod.mk.inj hv
  obtain ⟨height, n, p, n', r, completed, hheight, hn, hget, hr, -, -, hcompleted, hcp, -, hconf⟩ :=
    restart_finds_last_round Ipld.inFull_faithful (System.reach_of_run hs) hcrash hlast
  rw [uvarint_putUvarint] at hheight
  obtain rfl := Option.some.inj hheight
  exact ⟨s, hs, hlength, n, p, n', r, completed, hcompleted, hn, hget, hr, hcp, hconf⟩

/--
The signer crashes between the two writes of `storeCompletedRound`. It resumes at height 1 and
does not find round 0.
-/
theorem restart_misses_last_round : ∃ s,
    (TracedNode.system env).run (fun _ _ => true) (storing 8) = some s ∧
    s.node.dataStore lastCompletedHeightKey = some (putUvarint 10 0) ∧
    ∃ n, initRoundHolder s.node.dagStore s.node.dataStore s.node.pubsub = .ok n ∧
      n.current.height = 1 ∧ (n.get env.L 0).1 = none := by
  have hrun : ((TracedNode.system env).run (fun _ _ => true) (storing 8)).map
      (fun s => (s.node.dataStore lastCompletedHeightKey,
        (initRoundHolder s.node.dagStore s.node.dataStore s.node.pubsub).toOption.map
          fun n => (n.current.height, (n.get env.L 0).1))) =
        some (some (putUvarint 10 0), some (1, none)) := by decide +kernel
  obtain ⟨s, hs, hv⟩ := Option.map_eq_some_iff.mp hrun
  obtain ⟨hlast, hv⟩ := Prod.mk.inj hv
  obtain ⟨n, hn, hv⟩ := Option.map_eq_some_iff.mp hv
  obtain ⟨hcurrent, hget⟩ := Prod.mk.inj hv
  refine ⟨s, hs, hlast, n, ?_, hcurrent, hget⟩
  cases hinit : initRoundHolder s.node.dagStore s.node.dataStore s.node.pubsub with
  | error e =>
    rw [hinit] at hn
    cases hn
  | ok n₀ =>
    rw [hinit] at hn
    rw [Option.some.inj hn]

end CrashExample

end Tupelo

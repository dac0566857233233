import Tupelo.Signer.Refinement

/-!
# Where a signer resumes

A signer that starts again resumes above the last completed height it finds in the data store.
Each completed round writes that height in a goroutine of its own and without looking at what is
there. As long as the goroutines write in the order of their rounds, the height never
decreases, and a signer resumes above everything it has confirmed. If an earlier round writes
last, the signer resumes at a height it has confirmed.
-/

namespace Tupelo

open Infra Node

/-! ## Heights in the data store -/

/-- The last completed height is at least `k`. -/
def ReachedLast (ds : DataStore) (k : Nat) : Prop :=
  ∃ h, ds lastCompletedHeightKey = some (putUvarint 10 h) ∧ k ≤ h

/-- The last completed height, if there is one, is at most `k`. -/
def NotBeyond (ds : DataStore) (k : Nat) : Prop :=
  ∀ h, ds lastCompletedHeightKey = some (putUvarint 10 h) → h ≤ k

theorem putUvarint_inj {size h h' : Nat} (heq : putUvarint size h = putUvarint size h') :
    h = h' := by
  have hdec := congrArg uvarint heq
  rw [uvarint_putUvarint, uvarint_putUvarint] at hdec
  exact Option.some.inj hdec

/-- The goroutine has yet to write the last completed height. -/
def Pc.beforePut : Pc → Bool
  | .putRound _ | .confirm _ | .publish _ => false
  | _ => true

/-- Where the goroutine of a round stands between the round and the last completed height. -/
def PcOrdered (ds : DataStore) (r : PastRound) : Pc → Prop
  | .addRound completed => completed.height = r.height ∧ NotBeyond ds r.height
  | .putHeight completed => completed.height = r.height ∧ NotBeyond ds r.height
  | .putRound completed => completed.height = r.height ∧ ReachedLast ds r.height
  | .confirm completed => completed.height = r.height ∧ ReachedLast ds r.height
  | .publish conf => conf.height = r.height ∧ ReachedLast ds r.height
  | _ => NotBeyond ds r.height

/-- Another round object of the same height will do. -/
theorem PcOrdered.congr {ds : DataStore} {r r' : PastRound} (hr : r'.height = r.height) {pc : Pc}
    (h : PcOrdered ds r pc) : PcOrdered ds r' pc := by
  cases pc <;> simp only [PcOrdered, hr] at h ⊢ <;> exact h

/-- The last completed height has not decreased, and has not overtaken who has yet to write it. -/
theorem PcOrdered.mono {ds ds' : DataStore} {r : PastRound} {pc : Pc}
    (hreached : ∀ k, ReachedLast ds k → ReachedLast ds' k)
    (hbeyond : pc.beforePut = true → NotBeyond ds r.height → NotBeyond ds' r.height)
    (h : PcOrdered ds r pc) : PcOrdered ds' r pc := by
  cases pc with
  | putRound | confirm | publish => exact ⟨h.1, hreached _ h.2⟩
  | addRound | putHeight => exact ⟨h.1, hbeyond rfl h.2⟩
  | start | txs | flush | putState | addCheckpoint => exact hbeyond rfl h

/-- The invariant of runs in which heights are written in order. -/
structure Ordered (L : Ipld) (n : Node) : Prop where
  addressed : n.dagStore.Addressed L
  last : ∀ b, n.dataStore lastCompletedHeightKey = some b →
    ∃ h, b = putUvarint 10 h ∧ h < n.current.height
  heap : ∀ r ∈ n.heap, r.height < n.current.height
  cache : ∀ height p, n.roundCache.peek height = some p →
    ∃ r, n.heap[p]? = some r ∧ r.height = height
  data : ∀ height b, n.dataStore (roundKey height) = some b → ReachedLast n.dataStore height ∧
    ∃ completed, b = (L.cidOf (.round completed)).bytes ∧ completed.height = height
  threads : ∀ t ∈ n.threads, ∃ r, n.heap[t.round]? = some r ∧ PcOrdered n.dataStore r t.pc
  republish : ∀ height conf, n.roundRepublishCache.peek height = some conf →
    ReachedLast n.dataStore conf.height
  pubsub : ∀ conf ∈ n.pubsub, ReachedLast n.dataStore conf.height

variable {L : Ipld} {n : Node}
variable {r : PastRound} {s : TracedNode} {E : Env} {k p : Nat} {n' : Node}

theorem ordered_genesis (L : Ipld) : Ordered L Node.genesis where
  addressed := fun _ _ h => by cases h
  last := fun _ h => by cases h
  heap := fun _ h => by cases h
  cache := fun _ _ h => by cases h
  data := fun _ _ h => by cases h
  threads := fun _ h => by cases h
  republish := fun _ _ h => by cases h
  pubsub := fun _ h => by cases h

theorem ReachedLast.lt_current (ho : Ordered L n) (h : ReachedLast n.dataStore k) :
    k < n.current.height := by
  obtain ⟨last, hlast, hk⟩ := h
  obtain ⟨last', heq, hlt⟩ := ho.last _ hlast
  rw [← putUvarint_inj heq] at hlt
  omega

/-- The round below the current one is not below the last completed height. -/
theorem Ordered.notBeyond (ho : Ordered L n) (hk : n.current.height ≤ k + 1) :
    NotBeyond n.dataStore k := by
  intro h hh
  obtain ⟨h', heq, hlt⟩ := ho.last _ hh
  rw [← putUvarint_inj heq] at hlt
  omega

/-! ## Steps -/

/-- Another round in the heap. -/
theorem ordered_push (ho : Ordered L n) (hr : r.height < n.current.height) :
    Ordered L { n with
      heap := n.heap ++ [r]
      roundCache := n.roundCache.add r.height n.heap.length } :=
  { ho with
    heap := forall_mem_concat ho.heap hr
    cache := cache_push ho.cache r
    threads := by
      intro t ht
      obtain ⟨r', hr', hpc⟩ := ho.threads t ht
      exact ⟨r', getElem?_append_of_some hr', hpc⟩ }

theorem height_restored (hL : L.Faithful) (ho : Ordered L n) {height : Nat}
    (h : n.restoreRound L height = .ok r) : r.height = height ∧ r.height < n.current.height := by
  obtain ⟨b, gr, hb, hdag, hheight, -⟩ := restoreRound_ok h
  obtain ⟨hreached, completed, rfl, hcompleted⟩ := ho.data height b hb
  have hcid : L.cidOf (.round gr) = L.cidOf (.round completed) := ho.addressed _ _ hdag
  rw [hheight, DagNode.round.inj (hL.injective hcid), hcompleted]
  exact ⟨rfl, hreached.lt_current ho⟩

theorem ordered_get (hL : L.Faithful) (ho : Ordered L n) (height : Nat) :
    Ordered L (n.get L height).2 ∧ ∀ p, (n.get L height).1 = some p →
      ∃ r, (n.get L height).2.heap[p]? = some r ∧ r.height = height := by
  rcases get_cases L n height with ⟨p, hp, h⟩ | h | ⟨r, hr, h⟩
  · rw [h]
    refine ⟨{ ho with cache := ?_ }, ?_⟩
    · intro k q hq
      rw [Lru.peek_get] at hq
      exact ho.cache k q hq
    · intro q hq
      rw [← Option.some.inj hq]
      exact ho.cache height p hp
  · rw [h]
    exact ⟨ho, fun p hp => by cases hp⟩
  · rw [h]
    obtain ⟨rfl, hlt⟩ := height_restored hL ho hr
    refine ⟨ordered_push ho hlt, ?_⟩
    intro p hp
    rw [← Option.some.inj hp]
    exact ⟨r, by simp, rfl⟩

theorem ordered_addNode (ho : Ordered L n) (x : DagNode) : Ordered L (n.addNode L x) :=
  { ho with addressed := DagStore.addressed_add ho.addressed x }

theorem ordered_storeAbr (ho : Ordered L n) (w : AddBlockWrapper) (stored : Bool) :
    Ordered L (n.storeAbr L w stored) := by
  unfold storeAbr
  split
  · exact { ordered_addNode ho (.addBlockRequest w.abr) with }
  · exact ho

theorem ordered_looked (hL : L.Faithful) (ho : Ordered L n) {n₁ : Node} (hn₁ : Looked L n n₁) :
    Ordered L n₁ :=
  hn₁.rule ho fun height => (ordered_get hL ho height).1

/-- A new goroutine is for the round that was current, above everything that is stored. -/
theorem ordered_handleSnowballerDone (hL : L.Faithful) (ho : Ordered L n) {cp : Checkpoint}
    (h : n.handleSnowballerDone L cp = .ok n') : Ordered L n' := by
  obtain ⟨state, n₁, abrs, inflight, promotions, hstate, -, rfl⟩ := handleSnowballerDone_ok h
  have ho₁ : Ordered L n₁ := ordered_looked hL ho (looked_previousState hstate)
  have hbumped : Ordered L { n₁ with current := ⟨n₁.current.height + 1, none⟩ } :=
    { ho₁ with
      last := by
        intro b hb
        obtain ⟨k, hk, hlt⟩ := ho₁.last b hb
        exact ⟨k, hk, Nat.lt_succ_of_lt hlt⟩
      heap := fun r hr => Nat.lt_succ_of_lt (ho₁.heap r hr) }
  have hpushed := ordered_push hbumped (r :=
    { height := n₁.current.height, preferred := cp, decided := true
      state := state.addInflights (abrs.map (·.2)), published := false })
    (Nat.lt_succ_self _)
  exact { hpushed with
    threads := forall_mem_concat hpushed.threads
      ⟨_, List.getElem?_concat_length, ho₁.notBeyond (Nat.le_succ _)⟩ }

/-- Another goroutine for the last completed round is not beyond anything stored. -/
theorem ordered_spawn (hL : L.Faithful) (ho : Ordered L n) {n₁ : Node}
    (hget : n.get L (prevHeight n.current.height) = (some p, n₁)) (hr : n₁.heap[p]? = some r) :
    Ordered L { n₁ with threads := n₁.threads ++ [{ round := p, pc := .putState }] } := by
  obtain ⟨ho₁, hfound⟩ := ordered_get hL ho (prevHeight n.current.height)
  rw [hget] at ho₁ hfound
  refine { ho₁ with threads := ?_ }
  refine forall_mem_concat ho₁.threads ?_
  -- the round below the current one
  obtain ⟨r', hr', hheight⟩ := hfound p rfl
  obtain rfl : r' = r := Option.some.inj (hr'.symm.trans hr)
  refine ⟨r', hr, ho₁.notBeyond ?_⟩
  obtain ⟨heap, cache, hframe⟩ := (Looked.of_get hget).frame
  rw [hframe, hheight]
  unfold prevHeight
  split
  · next h0 =>
    show n.current.height ≤ _
    omega
  · show n.current.height ≤ _
    omega

/-! ### Goroutines -/

theorem ordered_setRound (ho : Ordered L n) {r' : PastRound} (hr : n.heap[p]? = some r)
    (hheight : r'.height = r.height) : Ordered L (n.setRound p r') := by
  have hget : ∀ (q : Nat) (x : PastRound), n.heap[q]? = some x →
      ∃ x', (n.heap.set p r')[q]? = some x' ∧ x'.height = x.height := by
    intro q x hx
    obtain ⟨x', hx', rfl | ⟨rfl, rfl⟩⟩ := getElem?_set_of_some r' hr hx
    · exact ⟨x', hx', rfl⟩
    · exact ⟨x', hx', hheight⟩
  exact
    { ho with
      heap := by
        intro x hx
        rcases List.mem_or_eq_of_mem_set hx with h | h
        · exact ho.heap x h
        · rw [h, hheight]
          exact ho.heap r (List.mem_of_getElem? hr)
      cache := by
        intro k q hq
        obtain ⟨x, hx, hk⟩ := ho.cache k q hq
        obtain ⟨x', hx', hxk⟩ := hget q x hx
        exact ⟨x', hx', by rw [hxk, hk]⟩
      threads := by
        intro t ht
        obtain ⟨x, hx, hpc⟩ := ho.threads t ht
        obtain ⟨x', hx', hxk⟩ := hget t.round x hx
        exact ⟨x', hx', hpc.congr hxk⟩ }

/-- No goroutine of a round below `height` has yet to write the last completed height. -/
def NoneBelow (n : Node) (height : Nat) : Prop :=
  ∀ t ∈ n.threads, t.pc.beforePut = true → ∀ r, n.heap[t.round]? = some r → height ≤ r.height

/-- **The last completed height is written**: it grows, and nobody is left behind. -/
theorem ordered_putLastCompletedHeight (ho : Ordered L n) {height : Nat}
    (hlt : height < n.current.height) (hlast : NotBeyond n.dataStore height)
    (hnone : NoneBelow n height) : Ordered L (n.putLastCompletedHeight height) := by
  have hgrow : ∀ k, ReachedLast n.dataStore k →
      ReachedLast (n.putLastCompletedHeight height).dataStore k := by
    rintro k ⟨h, hh, hk⟩
    exact ⟨height, putLastCompletedHeight_last n height, le_trans hk (hlast h hh)⟩
  have hnew : ∀ k, height ≤ k → NotBeyond (n.putLastCompletedHeight height).dataStore k := by
    intro k hk h hh
    rw [putLastCompletedHeight_last] at hh
    rw [← putUvarint_inj (Option.some.inj hh)]
    exact hk
  exact
    { ho with
      last := by
        intro b hb
        rw [putLastCompletedHeight_last] at hb
        exact ⟨height, (Option.some.inj hb).symm, hlt⟩
      data := by
        intro k b hb
        rw [putLastCompletedHeight_roundKey] at hb
        obtain ⟨hreached, hcompleted⟩ := ho.data k b hb
        exact ⟨hgrow k hreached, hcompleted⟩
      threads := by
        intro t ht
        obtain ⟨r, hr, hpc⟩ := ho.threads t ht
        exact ⟨r, hr, hpc.mono hgrow fun hbefore _ => hnew _ (hnone t ht hbefore r hr)⟩
      republish := fun k conf hconf => hgrow _ (ho.republish k conf hconf)
      pubsub := fun conf hconf => hgrow _ (ho.pubsub conf hconf) }

theorem ordered_putCompletedRound (ho : Ordered L n) {completed : Round}
    (hreached : ReachedLast n.dataStore completed.height) :
    Ordered L (n.putCompletedRound L completed) := by
  have hlast := putCompletedRound_last L n completed
  have hsame : ∀ k, ReachedLast n.dataStore k →
      ReachedLast (n.putCompletedRound L completed).dataStore k := by
    rintro k ⟨h, hh, hk⟩
    exact ⟨h, by rw [hlast, hh], hk⟩
  exact
    { ho with
      last := by
        intro b hb
        rw [hlast] at hb
        exact ho.last b hb
      data := by
        intro k b hb
        rw [putCompletedRound_roundKey] at hb
        split at hb
        · next hk =>
          rw [hk]
          exact ⟨hsame _ hreached, completed, (Option.some.inj hb).symm, rfl⟩
        · obtain ⟨hk, hcompleted⟩ := ho.data k b hb
          exact ⟨hsame k hk, hcompleted⟩
      threads := by
        intro t ht
        obtain ⟨r, hr, hpc⟩ := ho.threads t ht
        exact ⟨r, hr, hpc.mono hsame fun _ hk h hh => hk h (hlast ▸ hh)⟩
      republish := fun k conf hconf => hsame _ (ho.republish k conf hconf)
      pubsub := fun conf hconf => hsame _ (ho.pubsub conf hconf) }

/-- **A step of a goroutine keeps the order**, if it writes the height in order. -/
theorem ordered_threadStep {n : Node} (ho : Ordered E.L n) (hr : n.heap[p]? = some r) {ok : Bool}
    {pc : Pc} (hpc : PcOrdered n.dataStore r pc)
    (hnone : ∀ completed, pc = .putHeight completed → NoneBelow n completed.height)
    {next : Option Pc} (h : ThreadStep E n p r ok pc n' next) :
    Ordered E.L n' ∧ ∀ q, next = some q → PcOrdered n'.dataStore r q := by
  have hpublished : Ordered E.L (n.setRound p { r with published := true }) :=
    ordered_setRound ho hr rfl
  cases h with
  | fail pc => exact ⟨ho, fun q hq => by cases hq⟩
  | start ok =>
    refine ⟨ho, ?_⟩
    rintro q ⟨⟩
    exact hpc
  | settled ok =>
    refine ⟨ho, ?_⟩
    rintro q ⟨⟩
    exact hpc
  | settle hpick =>
    refine ⟨ordered_setRound ho hr rfl, ?_⟩
    rintro q ⟨⟩
    exact hpc
  | flush =>
    refine ⟨ho, ?_⟩
    rintro q ⟨⟩
    exact hpc
  | putState =>
    refine ⟨ordered_addNode ho _, ?_⟩
    intro q hq
    split at hq
    · rw [← Option.some.inj hq]
      exact hpc
    · cases hq
  | addCheckpoint stateCid =>
    refine ⟨ordered_addNode ho _, ?_⟩
    rintro q ⟨⟩
    exact ⟨rfl, hpc⟩
  | addRound completed =>
    refine ⟨ordered_addNode ho _, ?_⟩
    rintro q ⟨⟩
    exact hpc
  | putHeight completed =>
    have hheight := hpc.1
    have hcur := ho.heap r (List.mem_of_getElem? hr)
    refine ⟨ordered_putLastCompletedHeight ho (by omega) (by rw [hheight]; exact hpc.2)
      (hnone completed rfl), ?_⟩
    rintro q ⟨⟩
    exact ⟨hheight, completed.height, putLastCompletedHeight_last n _, by omega⟩
  | putRound completed =>
    refine ⟨ordered_putCompletedRound ho (by rw [hpc.1]; exact hpc.2), ?_⟩
    rintro q ⟨⟩
    obtain ⟨hheight, last, hlast, hle⟩ := hpc
    exact ⟨hheight, last, by rw [putCompletedRound_last, hlast], hle⟩
  | unconfirmed ok completed => exact ⟨ho, fun q hq => by cases hq⟩
  | confirm ok hconf =>
    next completed conf =>
    have hheight : conf.height = r.height := by
      obtain ⟨sig, -, hsig⟩ := bind_eq_ok.mp hconf
      rw [← pure_eq_ok.mp hsig]
      exact hpc.1
    refine ⟨{ ho with republish := Lru.forall_peek_add ho.republish ?_ }, ?_⟩
    · rw [hheight]
      exact hpc.2
    · rintro q ⟨⟩
      exact ⟨hheight, hpc.2⟩
  | unpublished conf => exact ⟨hpublished, fun q hq => by cases hq⟩
  | publish conf =>
    refine ⟨{ hpublished with pubsub := ?_ }, fun q hq => by cases hq⟩
    intro c hc
    rcases List.mem_append.mp hc with h | h
    · exact ho.pubsub c h
    · rw [List.mem_singleton.mp h, hpc.1]
      exact hpc.2

/-! ## Runs -/

/--
The condition: when a goroutine writes the last completed height, none of a round below it has
yet to do so.
-/
def inOrder (s : TracedNode) : Action → Bool
  | .event (.background i _ _) =>
    match s.node.threads[i]? with
    | some { pc := .putHeight completed, .. } =>
      s.node.threads.all fun t => !t.pc.beforePut ||
        (s.node.heap[t.round]?).all fun r => completed.height ≤ r.height
    | _ => true
  | _ => true

theorem noneBelow_of_inOrder {i pick : Nat} {ok : Bool} {t : Thread}
    (ht : s.node.threads[i]? = some t) (h : inOrder s (.event (.background i pick ok)) = true)
    (completed : Round) (hpc : t.pc = .putHeight completed) :
    NoneBelow s.node completed.height := by
  cases t with
  | mk round pc =>
    obtain rfl : pc = .putHeight completed := hpc
    simp only [inOrder, ht, List.all_eq_true, Bool.or_eq_true, Bool.not_eq_true'] at h
    intro t' ht' hbefore r hr
    rcases h t' ht' with hno | hall
    · rw [hbefore] at hno
      cases hno
    · rw [hr] at hall
      simpa using hall

theorem ordered_setThread (ho : Ordered L n) {i : Nat} {t : Thread} (hr : n.heap[t.round]? = some r)
    {next : Option Pc} (hnext : ∀ pc, next = some pc → PcOrdered n.dataStore r pc) :
    Ordered L (n.setThread i t next) := by
  rw [setThread_eq]
  exact { ho with
    threads := forall_setThread ho.threads fun pc hpc => ⟨r, hr, hnext pc hpc⟩ }

theorem ordered_step (hL : E.L.Faithful) {e : Node.Event} (ho : Ordered E.L s.node)
    (hok : inOrder s (.event e) = true) (h : s.node.step E e = some n') : Ordered E.L n' := by
  cases eventStep_of_step h with
  | drop hn₁ | answer hn₁ | tick hn₁ => exact ordered_looked hL ho hn₁
  | await hn₁ => exact { ordered_looked hL ho hn₁ with }
  | store hn₁ => exact ordered_storeAbr (ordered_looked hL ho hn₁) _ _
  | @promote i =>
    have hpromoted : Ordered E.L { s.node with promotions := s.node.promotions.eraseIdx i } :=
      { ho with }
    exact ordered_storeAbr hpromoted _ _
  | running => exact ho
  | start => exact { ho with }
  | decided hdone => exact ordered_handleSnowballerDone hL ho hdone
  | background ht hr hstep =>
    obtain ⟨r₀, hr₀, hpc⟩ := ho.threads _ (List.mem_of_getElem? ht)
    obtain rfl := Option.some.inj (hr₀.symm.trans hr)
    obtain ⟨ho₁, hnext⟩ := ordered_threadStep ho hr hpc (noneBelow_of_inOrder ht hok) hstep
    obtain ⟨r', hr', hheight⟩ := hstep.heap hr
    exact ordered_setThread ho₁ hr' fun q hq => (hnext q hq).congr hheight
  | republish hget hconf =>
    have ho₁ := ordered_looked hL ho (Looked.of_get hget)
    exact { ho₁ with pubsub := forall_mem_concat ho₁.pubsub (ho₁.republish _ _ hconf) }
  | spawn hget hr => exact ordered_spawn hL ho hget hr

/-- The height at which the signer would resume. -/
theorem resumeHeight_eq (ho : Ordered L n) :
    (n.dataStore lastCompletedHeightKey = none ∧ resumeHeight n.dataStore = .ok 0) ∨
    ∃ h, n.dataStore lastCompletedHeightKey = some (putUvarint 10 h) ∧
      resumeHeight n.dataStore = .ok (h + 1) := by
  unfold resumeHeight
  cases hl : n.dataStore lastCompletedHeightKey with
  | none => exact Or.inl ⟨rfl, rfl⟩
  | some b =>
    obtain ⟨h, rfl, -⟩ := ho.last b hl
    exact Or.inr ⟨h, rfl, by simp⟩

/-- A crash leaves the stores; what resumes is above all of them. -/
theorem ordered_crash (ho : Ordered L n)
    (h : initRoundHolder n.dagStore n.dataStore n.pubsub = .ok n') : Ordered L n' := by
  obtain ⟨height, hheight, h⟩ := bind_eq_ok.mp h
  rw [← pure_eq_ok.mp h]
  exact
    { addressed := ho.addressed
      last := by
        intro b hb
        rcases resumeHeight_eq ho with ⟨hnone, -⟩ | ⟨last, hlast, hresume⟩
        · exact absurd (hnone.symm.trans hb) (by simp)
        · refine ⟨last, Option.some.inj (hb.symm.trans hlast), ?_⟩
          rw [← Except.ok.inj (hresume.symm.trans hheight)]
          exact Nat.lt_succ_self last
      heap := fun _ hr => by cases hr
      cache := fun _ _ hp => by cases hp
      data := ho.data
      threads := fun _ ht => by cases ht
      republish := fun _ _ hp => by cases hp
      pubsub := ho.pubsub }

theorem ordered_act (hL : E.L.Faithful) {s' : TracedNode} {a : Action} (ho : Ordered E.L s.node)
    (hok : inOrder s a = true) (h : TracedNode.act E s a = some s') : Ordered E.L s'.node := by
  cases a with
  | event e =>
    obtain ⟨n, hn, rfl⟩ := TracedNode.act_event h
    exact ordered_step hL ho hok hn
  | crash =>
    obtain ⟨n, hn, rfl⟩ := TracedNode.act_crash h
    exact ordered_crash ho hn

theorem ordered_reach (hL : E.L.Faithful) (h : (TracedNode.system E).Reach inOrder s) :
    Ordered E.L s.node :=
  h.invariant (P := fun s => Ordered E.L s.node) (ordered_genesis E.L)
    fun _ _ _ ho hok hact => ordered_act hL ho hok hact

/-- The last completed height does not decrease. -/
theorem reachedLast_act {s' : TracedNode} {a : Action} (ho : Ordered E.L s.node)
    (h : TracedNode.act E s a = some s') (hok : inOrder s a = true)
    (hk : ReachedLast s.node.dataStore k) : ReachedLast s'.node.dataStore k := by
  cases a with
  | crash =>
    obtain ⟨n, hn, rfl⟩ := TracedNode.act_crash h
    obtain ⟨height, -, hn⟩ := bind_eq_ok.mp hn
    rw [← pure_eq_ok.mp hn]
    exact hk
  | event e =>
    obtain ⟨n', hn', rfl⟩ := TracedNode.act_event h
    rcases step_sameStore hn' with hsame | ⟨i, pick, ok, rfl⟩
    · show ReachedLast n'.dataStore k
      rw [hsame.1]
      exact hk
    · obtain ⟨t, r, n₁, next, ht, hr, hstep, rfl⟩ := stepBackground_ok hn'
      show ReachedLast (n₁.setThread i t next).dataStore k
      rw [setThread_eq]
      obtain ⟨last, hlast, hle⟩ := hk
      rcases hstep.dataStore with hd | ⟨completed, hpc, -, hd⟩ | ⟨completed, -, -, hd⟩
      · rw [hd]
        exact ⟨last, hlast, hle⟩
      · -- the goroutine was not behind what is stored
        obtain ⟨r₀, hr₀, hordered⟩ := ho.threads t (List.mem_of_getElem? ht)
        rw [hpc] at hordered
        refine ⟨completed.height, by rw [hd, putLastCompletedHeight_last], ?_⟩
        rw [hordered.1]
        exact le_trans hle (hordered.2 last hlast)
      · exact ⟨last, by rw [hd, putCompletedRound_last, hlast], hle⟩

/--
**A signer resumes above everything it has confirmed.**

In every run, crashes included, in which the last completed height is written in the order of
the rounds: a signer started on the data store as it is resumes above every height it has
published a confirmation of, and the last completed height never decreases.
-/
theorem resumes_above_confirmed {E : Env} (hL : E.L.Faithful) {s : TracedNode}
    (h : (TracedNode.system E).Reach inOrder s) :
    (∃ n, initRoundHolder s.node.dagStore s.node.dataStore s.node.pubsub = .ok n ∧
      ∀ conf ∈ s.node.pubsub, conf.height < n.current.height) ∧
    ∀ a s', inOrder s a = true → TracedNode.act E s a = some s' →
      ∀ k, ReachedLast s.node.dataStore k → ReachedLast s'.node.dataStore k := by
  have ho := ordered_reach hL h
  refine ⟨?_, fun a s' hok hact k hk => reachedLast_act ho hact hok hk⟩
  obtain ⟨height, hheight⟩ : ∃ height, resumeHeight s.node.dataStore = .ok height := by
    rcases resumeHeight_eq ho with ⟨-, hr⟩ | ⟨last, -, hr⟩
    · exact ⟨0, hr⟩
    · exact ⟨last + 1, hr⟩
  have hinit : ∃ n, initRoundHolder s.node.dagStore s.node.dataStore s.node.pubsub = .ok n := by
    unfold initRoundHolder
    rw [hheight]
    exact ⟨_, rfl⟩
  obtain ⟨n, hn⟩ := hinit
  refine ⟨n, hn, ?_⟩
  intro conf hconf
  have hkept : ReachedLast n.dataStore conf.height := by
    obtain ⟨_, -, hn'⟩ := bind_eq_ok.mp hn
    rw [← pure_eq_ok.mp hn']
    exact ho.pubsub conf hconf
  exact hkept.lt_current (ordered_crash ho hn)

/-! ## An earlier round that writes last -/

namespace ResumeExample

open RunExample

/-- Round 0 is published, then round 1; then the signer crashes. -/
noncomputable def ordered : List Action :=
  round 0 (abr 0 1 0) ++ background 0 11 ++ round 1 (abr 1 2 1) ++ background 0 11 ++ [.crash]

/-- Round 1 is published while round 0 has yet to write its height; it then does. -/
noncomputable def overtaken : List Action :=
  round 0 (abr 0 1 0) ++ background 0 7 ++ round 1 (abr 1 2 1) ++ background 1 11
    ++ background 0 1

theorem resumes_above_confirmed_example : ∃ s,
    (TracedNode.system env).run inOrder ordered = some s ∧
    s.node.pubsub.map (·.height) = [0, 1] ∧
    ∃ n, initRoundHolder s.node.dagStore s.node.dataStore s.node.pubsub = .ok n ∧
      ∀ conf ∈ s.node.pubsub, conf.height < n.current.height := by
  have hrun : ((TracedNode.system env).run inOrder ordered).map
      (fun s => s.node.pubsub.map (·.height)) = some [0, 1] := by decide +kernel
  obtain ⟨s, hs, hpub⟩ := Option.map_eq_some_iff.mp hrun
  exact ⟨s, hs, hpub,
    (resumes_above_confirmed Ipld.inFull_faithful (System.reach_of_run hs)).1⟩

/-- Height 1 has been confirmed and is the height at which the signer resumes. -/
theorem resumes_at_confirmed : ∃ s,
    (TracedNode.system env).run (fun _ _ => true) overtaken = some s ∧
    (∃ conf ∈ s.node.pubsub, conf.height = 1) ∧
    ∃ n, initRoundHolder s.node.dagStore s.node.dataStore s.node.pubsub = .ok n ∧
      n.current.height = 1 := by
  have hrun : ((TracedNode.system env).run (fun _ _ => true) overtaken).map
      (fun s => (s.node.pubsub.map (·.height), resumeHeight s.node.dataStore)) =
        some ([1], .ok 1) := by decide +kernel
  obtain ⟨s, hs, hv⟩ := Option.map_eq_some_iff.mp hrun
  obtain ⟨hpub, hresume⟩ := Prod.mk.inj hv
  refine ⟨s, hs, ?_, ?_⟩
  · have hmem : 1 ∈ s.node.pubsub.map (·.height) := by
      rw [hpub]
      exact List.mem_singleton_self 1
    obtain ⟨conf, hconf, hheight⟩ := List.mem_map.mp hmem
    exact ⟨conf, hconf, hheight⟩
  · unfold initRoundHolder
    rw [hresume]
    exact ⟨_, rfl, rfl⟩

end ResumeExample

end Tupelo

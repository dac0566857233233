import Tupelo.Signer.Snowballer

/-!
# What the peers can do to a tick

`doTick` of `signer/gossip/snowballnetwork.go` handles whatever its peers respond. A response it
does not admit is to be a nil vote. It is, as long as all entries of the response are CIDs:
`mempoolHasAllABRs` casts every entry, in the mempool or not, and a signer that meets one that
does not cast is gone.

`Ticking` is the tick step by step, with the node storing requests in between, and `answered` is
the same loop in a mempool that does not change.
-/

namespace Tupelo

open Infra

namespace Snowballer

variable {A : FloatArith}
variable {cp : Checkpoint}

/--
The rest of a tick: the responses that are still to be handled, and how the tick ends. The node
may store requests at any point.
-/
inductive Ticking (L : Ipld) (orders : TallyOrders) :
    Snowballer A → List Checkpoint → Except Fault (Snowballer A) → Prop where
  | stored {s s' : Snowballer A} {rs : List Checkpoint} {r : Except Fault (Snowballer A)}
      (abr : AddBlockRequest) (hact : s.act L (.storeAbr abr) = some s')
      (hrest : Ticking L orders s' rs r) : Ticking L orders s rs r
  | responded {s s' : Snowballer A} {cp : Checkpoint} {rs : List Checkpoint}
      {r : Except Fault (Snowballer A)} (hact : s.act L (.respond cp) = some s')
      (hrest : Ticking L orders s' rs r) : Ticking L orders s (cp :: rs) r
  | looked {s s' : Snowballer A} {c : Checking} {rs : List Checkpoint}
      {r : Except Fault (Snowballer A)} (hc : s.checking = some c)
      (hlook : s.look L c = .ok s') (hrest : Ticking L orders s' rs r) : Ticking L orders s rs r
  | failed {s : Snowballer A} {c : Checking} {rs : List Checkpoint} {f : Fault}
      (hc : s.checking = some c) (hlook : s.look L c = .error f) :
      Ticking L orders s rs (.error f)
  | ticked {s s' : Snowballer A} (hact : s.act L (.tick orders) = some s') :
      Ticking L orders s [] (.ok s')

/-- The vote that `doTick` makes of a response. -/
def voteFor (L : Ipld) (m : Mempool) (cp : Checkpoint) : Except Fault (Vote A) := do
  let nils ← m.nilsVote L cp.addBlockRequests
  pure (if nils then Vote.nil A else { checkpoint := some cp, tallyCount := A.ofNat 0 })

/-- `doTick`, with these responses and no request stored meanwhile. -/
def answered (L : Ipld) (orders : TallyOrders) (s : Snowballer A) :
    List Checkpoint → Except Fault (Snowballer A)
  | [] => .ok (s.doTick L orders)
  | cp :: rs => do
    let vote ← voteFor L s.mempool cp
    answered L orders (s.cast vote) rs

variable {L : Ipld} {orders : TallyOrders} {s s' : Snowballer A} {c : Checking}
  {rs : List Checkpoint} {r : Except Fault (Snowballer A)}

/-! ## The two loops of a check -/

/-- The first loop ends as `mempoolHasAllABRs` does. -/
theorem ticking_hasAll : ∀ {rest : List Bytes} {s : Snowballer A} {seen : Bool},
    s.checking = some (.hasAll cp seen rest) →
    (∀ f, s.mempool.mempoolHasAllABRs L rest = .error f → r = .error f) →
    (∀ all, s.mempool.mempoolHasAllABRs L rest = .ok all →
      Ticking L orders { s with checking := some (.hasAll cp (seen && all) []) } rs r) →
    Ticking L orders s rs r
  | [], s, seen, hc, _, hok => by
    have h := hok true rfl
    rw [Bool.and_true, ← hc] at h
    exact h
  | b :: rest, s, seen, hc, herror, hok => by
    cases hcast : Mempool.castOrPanic L b with
    | error f =>
      rw [herror f (by rw [Mempool.mempoolHasAllABRs, hcast]; rfl)]
      refine Ticking.failed hc ?_
      rw [look, hcast]
      rfl
    | ok id =>
      have hrest : s.mempool.mempoolHasAllABRs L (b :: rest) =
          (s.mempool.mempoolHasAllABRs L rest >>= fun hasRest =>
            pure (s.mempool.contains [id] && hasRest)) := by
        rw [Mempool.mempoolHasAllABRs, hcast, ok_bind]
      have hlook : s.look L (.hasAll cp seen (b :: rest)) = .ok { s with
          checking := some
            (.hasAll cp (if !s.mempool.contains [id] then false else seen) rest) } := by
        rw [look, hcast]
        rfl
      refine Ticking.looked hc hlook (ticking_hasAll rfl ?_ ?_)
      · intro f hf
        refine herror f ?_
        rw [hrest, show s.mempool.mempoolHasAllABRs L rest = .error f from hf]
        rfl
      · intro all hall
        have h := hok (s.mempool.contains [id] && all) (by
          rw [hrest, show s.mempool.mempoolHasAllABRs L rest = .ok all from hall]
          rfl)
        have hseen : ((if !s.mempool.contains [id] then false else seen) && all) =
            (seen && (s.mempool.contains [id] && all)) := by
          cases s.mempool.contains [id] <;> simp
        rw [hseen]
        exact h

/-- The second loop ends as `hasConflictingABRs` does, with the vote that is made of it. -/
theorem ticking_conflicts : ∀ {rest csIds : List Bytes} {s : Snowballer A},
    s.checking = some (.conflicts cp csIds rest) →
    (∀ f, s.mempool.hasConflictingFrom L csIds rest = .error f → r = .error f) →
    (∀ conflicting, s.mempool.hasConflictingFrom L csIds rest = .ok conflicting →
      Ticking L orders (s.cast (if conflicting then Vote.nil A
        else { checkpoint := some cp, tallyCount := A.ofNat 0 })) rs r) →
    Ticking L orders s rs r
  | [], csIds, s, hc, _, hok => Ticking.looked hc rfl (hok false rfl)
  | b :: rest, csIds, s, hc, herror, hok => by
    cases hcast : Mempool.castOrPanic L b with
    | error f =>
      rw [herror f (by rw [Mempool.hasConflictingFrom, hcast]; rfl)]
      refine Ticking.failed hc ?_
      rw [look, hcast]
      rfl
    | ok id =>
      cases hget : s.mempool.get id with
      | none =>
        refine Ticking.looked hc ?_ (hok true ?_)
        · rw [look, hcast, ok_bind, hget]
          rfl
        · rw [Mempool.hasConflictingFrom, hcast, ok_bind, hget]
          rfl
      | some w =>
        by_cases hseen : toConflictSetID w.abr ∈ csIds
        · refine Ticking.looked hc ?_ (hok true ?_)
          · rw [look, hcast, ok_bind, hget]
            simp only [if_pos hseen]
            rfl
          · rw [Mempool.hasConflictingFrom, hcast, ok_bind, hget]
            simp only [if_pos hseen]
            rfl
        · have hrest : s.mempool.hasConflictingFrom L csIds (b :: rest) =
              s.mempool.hasConflictingFrom L (toConflictSetID w.abr :: csIds) rest := by
            rw [Mempool.hasConflictingFrom, hcast, ok_bind, hget]
            simp only [if_neg hseen]
          have hlook : s.look L (.conflicts cp csIds (b :: rest)) = .ok { s with
              checking := some (.conflicts cp (toConflictSetID w.abr :: csIds) rest) } := by
            rw [look, hcast, ok_bind, hget]
            simp only [if_neg hseen]
            rfl
          rw [hrest] at herror hok
          exact Ticking.looked hc hlook (ticking_conflicts rfl herror hok)

/-- A response is handled as `voteFor` says. -/
theorem ticking_respond (hidle : s.idle = true) (hk : s.votes.length < s.snowball.k)
    (herror : ∀ f, voteFor (A := A) L s.mempool cp = .error f → r = .error f)
    (hok : ∀ v, voteFor L s.mempool cp = .ok v → Ticking L orders (s.cast v) rs r) :
    Ticking L orders s (cp :: rs) r := by
  have hact : s.act L (.respond cp) = some (s.respond cp) := by
    rw [act, hidle, decide_eq_true hk]
    rfl
  refine Ticking.responded hact ?_
  unfold respond
  unfold voteFor Mempool.nilsVote at herror hok
  by_cases hlen : cp.addBlockRequests.length = 0
  · rw [if_pos hlen] at hok ⊢
    exact hok _ rfl
  · rw [if_neg hlen] at herror hok ⊢
    refine ticking_hasAll rfl ?_ ?_
    · intro f hf
      refine herror f ?_
      rw [show s.mempool.mempoolHasAllABRs L cp.addBlockRequests = .error f from hf]
      rfl
    · intro all hall
      rw [show s.mempool.mempoolHasAllABRs L cp.addBlockRequests = .ok all from hall, ok_bind]
        at herror hok
      cases all with
      | false => exact Ticking.looked rfl rfl (hok _ rfl)
      | true =>
        refine Ticking.looked rfl rfl (ticking_conflicts rfl ?_ ?_)
        · intro f hf
          refine herror f ?_
          rw [show (if !true then pure true else
            s.mempool.hasConflictingABRs L cp.addBlockRequests) = .error f from hf]
          rfl
        · intro conflicting hconf
          refine hok _ ?_
          rw [show (if !true then pure true else
            s.mempool.hasConflictingABRs L cp.addBlockRequests) = .ok conflicting from hconf]
          rfl

/-- **`answered` is a tick** in which the node stores nothing. -/
theorem ticking_answered : ∀ {rs : List Checkpoint} {s : Snowballer A}, s.idle = true →
    s.votes.length + rs.length ≤ s.snowball.k → Ticking L orders s rs (s.answered L orders rs)
  | [], s, hidle, _ => by
    refine Ticking.ticked ?_
    rw [act, if_pos hidle]
  | cp :: rs, s, hidle, hk => by
    rw [List.length_cons] at hk
    refine ticking_respond hidle (by omega) ?_ ?_
    · intro f hf
      rw [answered, hf]
      rfl
    · intro v hv
      rw [answered, hv, ok_bind]
      obtain ⟨hstarted, hd, -⟩ := idle_iff.mp hidle
      refine ticking_answered (idle_iff.mpr ⟨hstarted, hd, rfl⟩) ?_
      show (s.votes ++ [v]).length + rs.length ≤ s.snowball.k
      rw [List.length_append, List.length_singleton]
      omega

/-! ## What a tick needs of the responses -/

/-- All entries of the checkpoint are CIDs. -/
def Castable (L : Ipld) (cp : Checkpoint) : Prop := ∀ b ∈ cp.addBlockRequests, L.isCid b = true

/-- The same of a check: of its checkpoint, and of the entries it has left. -/
def CheckCastable (L : Ipld) : Checking → Prop
  | .hasAll cp _ rest => Castable L cp ∧ ∀ b ∈ rest, L.isCid b = true
  | .conflicts cp _ rest => Castable L cp ∧ ∀ b ∈ rest, L.isCid b = true

theorem isCid_of_castOrPanic {b : Bytes} {id : Cid} (h : Mempool.castOrPanic L b = .ok id) :
    L.isCid b = true := by
  have hcast := Mempool.castOrPanic_ok.mp h
  unfold Ipld.cast at hcast
  split at hcast
  · assumption
  · cases hcast

theorem castOrPanic_of_isCid {b : Bytes} (h : L.isCid b = true) :
    Mempool.castOrPanic L b = .ok ⟨b⟩ := by
  rw [Mempool.castOrPanic_ok, Ipld.cast, if_pos h]

/-- Only an entry that is no CID stops a check. -/
theorem look_of_castable (h : CheckCastable L c) : ∃ s', s.look L c = .ok s' := by
  unfold look
  split
  · split
    · exact ⟨_, rfl⟩
    · exact ⟨_, rfl⟩
  · next cp seen b rest =>
    rw [castOrPanic_of_isCid (h.2 b List.mem_cons_self), ok_bind]
    exact ⟨_, rfl⟩
  · exact ⟨_, rfl⟩
  · next cp csIds b rest =>
    rw [castOrPanic_of_isCid (h.2 b List.mem_cons_self), ok_bind]
    split
    · exact ⟨_, rfl⟩
    · simp only []
      split
      · exact ⟨_, rfl⟩
      · exact ⟨_, rfl⟩

theorem castable_next {m : Mempool} {c c' : Checking} (hnext : Next L m c c')
    (h : CheckCastable L c) : CheckCastable L c' := by
  cases hnext with
  | counted => exact ⟨h.1, fun b hb => h.2 b (List.mem_cons_of_mem _ hb)⟩
  | counts => exact ⟨h.1, h.1⟩
  | resolved hres hnew => exact ⟨h.1, fun b hb => h.2 b (List.mem_cons_of_mem _ hb)⟩

theorem act_respond (h : s.act L (.respond cp) = some s') : s' = s.respond cp := by
  simp only [act] at h
  split at h
  · exact (Option.some.inj h).symm
  · cases h

/-- A response is a nil vote at once, or its entries are all looked up. -/
theorem respond_checking (s : Snowballer A) (cp : Checkpoint) :
    (cp.addBlockRequests = [] ∧ (s.respond cp).checking = none) ∨
      (s.respond cp).checking = some (.hasAll cp true cp.addBlockRequests) := by
  unfold respond
  split
  · next hlen => exact Or.inl ⟨List.length_eq_zero_iff.mp hlen, rfl⟩
  · exact Or.inr rfl

/-- **Responses that consist of CIDs do no harm**, whatever is stored meanwhile. -/
theorem ticking_ok (h : Ticking L orders s rs r) (hrs : ∀ cp ∈ rs, Castable L cp)
    (hcheck : ∀ c, s.checking = some c → CheckCastable L c) : ∃ s', r = .ok s' := by
  induction h with
  | stored abr hact _ ih =>
    rw [← Option.some.inj hact] at ih
    exact ih hrs hcheck
  | @responded s s' cp rs r hact _ ih =>
    rw [act_respond hact] at ih
    refine ih (fun cp hcp => hrs cp (List.mem_cons_of_mem _ hcp)) ?_
    have hcp := hrs cp List.mem_cons_self
    intro c hc
    rcases respond_checking s cp with ⟨-, hnone⟩ | hsome
    · rw [hnone] at hc
      cases hc
    · rw [hsome] at hc
      rw [← Option.some.inj hc]
      exact ⟨hcp, hcp⟩
  | @looked s s' c rs r hc hlook _ ih =>
    refine ih hrs ?_
    intro d hd
    rcases look_cases hlook with rfl | ⟨c', hnext, rfl⟩ | ⟨cp, csIds, rfl, rfl⟩
    · cases hd
    · rw [← Option.some.inj hd]
      exact castable_next hnext (hcheck c hc)
    · cases hd
  | @failed s c rs f hc hlook =>
    obtain ⟨s', hok⟩ := look_of_castable (s := s) (hcheck c hc)
    cases hok.symm.trans hlook
  | ticked hact => exact ⟨_, rfl⟩

/-- The first loop casts every entry, even after one it has not found. -/
theorem castable_of_ticking (h : Ticking L orders s rs (.ok s')) :
    (∀ cp ∈ rs, Castable L cp) ∧ ∀ cp seen rest, s.checking = some (.hasAll cp seen rest) →
      ∀ b ∈ rest, L.isCid b = true := by
  generalize hr : Except.ok s' = r at h
  induction h with
  | stored abr hact _ ih =>
    rw [← Option.some.inj hact] at ih
    exact ih hr
  | @responded s s' cp rs r hact _ ih =>
    obtain ⟨hrest, hfirst⟩ := ih hr
    rw [act_respond hact] at hfirst
    refine ⟨List.forall_mem_cons.mpr ⟨?_, hrest⟩, ?_⟩
    · rcases respond_checking s cp with ⟨hnil, -⟩ | hsome
      · intro b hb
        rw [hnil] at hb
        cases hb
      · exact hfirst cp true _ hsome
    · -- no response is handled while another one is
      intro cp' seen rest hc
      simp only [act] at hact
      split at hact
      · next hidle =>
        have hnone := (idle_iff.mp (Bool.and_eq_true_iff.mp hidle).1).2.2
        rw [hnone] at hc
        cases hc
      · cases hact
  | @looked s s' c rs r hc hlook _ ih =>
    obtain ⟨hrs, hfirst⟩ := ih hr
    refine ⟨hrs, ?_⟩
    intro cp seen rest hc' b hb
    obtain rfl : c = .hasAll cp seen rest := Option.some.inj (hc.symm.trans hc')
    cases rest with
    | nil => cases hb
    | cons b' rest =>
      obtain ⟨id, hid, hlook⟩ := bind_eq_ok.mp hlook
      rcases List.mem_cons.mp hb with rfl | hb
      · exact isCid_of_castOrPanic hid
      · rw [← pure_eq_ok.mp hlook] at hfirst
        exact hfirst cp _ rest rfl b hb
  | failed => cases hr
  | @ticked s s' hact =>
    refine ⟨fun _ hcp => absurd hcp List.not_mem_nil, ?_⟩
    intro cp seen rest hc
    simp only [act] at hact
    split at hact
    · next hidle =>
      rw [(idle_iff.mp hidle).2.2] at hc
      cases hc
    · cases hact

/-! ## A tick completes -/

/-- The requests of a checkpoint are in the mempool, and no two of them conflict. -/
def Admissible (L : Ipld) (m : Mempool) (cp : Checkpoint) : Prop :=
  cp.addBlockRequests ≠ [] ∧ ∃ ws, List.Forall₂ (Mempool.Resolves L m) cp.addBlockRequests ws ∧
    (ws.map fun w => toConflictSetID w.abr).Nodup

/-- The vote of an admissible checkpoint is for it, and that of any other is nil. -/
structure CountsAs (L : Ipld) (m : Mempool) (cp : Checkpoint) (v : Vote A) : Prop where
  admissible : Admissible L m cp → v = { checkpoint := some cp, tallyCount := A.ofNat 0 }
  inadmissible : ¬ Admissible L m cp → v = Vote.nil A

theorem countsAs_of_voteFor {m : Mempool} {v : Vote A} (h : voteFor L m cp = .ok v) :
    CountsAs L m cp v := by
  obtain ⟨nils, hnils, h⟩ := bind_eq_ok.mp h
  rw [← pure_eq_ok.mp h]
  cases nils with
  | true =>
    refine ⟨fun hadm => ?_, fun _ => rfl⟩
    cases hnils.symm.trans (Mempool.nilsVote_false_iff.mpr hadm)
  | false =>
    exact ⟨fun _ => rfl, fun hnot => absurd (Mempool.nilsVote_false_iff.mp hnils) hnot⟩

/-- The votes that a tick is made with. -/
theorem answered_votes : ∀ {rs : List Checkpoint} {s : Snowballer A}, s.checking = none →
    s.answered L orders rs = .ok s' →
    ∃ votes, List.Forall₂ (CountsAs L s.mempool) rs votes ∧
      s' = ({ s with votes := s.votes ++ votes } : Snowballer A).doTick L orders
  | [], s, _, h => by
    refine ⟨[], List.Forall₂.nil, ?_⟩
    rw [List.append_nil]
    exact (Except.ok.inj h).symm
  | cp :: rs, s, hchecking, h => by
    obtain ⟨v, hv, h⟩ := bind_eq_ok.mp h
    obtain ⟨votes, hvotes, rfl⟩ := answered_votes (s := s.cast v) rfl h
    refine ⟨v :: votes, List.Forall₂.cons (countsAs_of_voteFor hv) hvotes, ?_⟩
    unfold cast
    rw [← hchecking, List.append_assoc, List.singleton_append]

/-- What is expected of a tick with these responses. -/
structure Completes (L : Ipld) (orders : TallyOrders) (s : Snowballer A)
    (rs : List Checkpoint) : Prop where
  /-- It does not panic, whatever requests the node stores meanwhile. -/
  safe : ∀ r, Ticking L orders s rs r → ∃ s', r = .ok s'
  /-- It ends, and the snowball has been ticked with the votes of the admissible responses. -/
  ends : ∃ votes, List.Forall₂ (CountsAs L s.mempool) rs votes ∧
    Ticking L orders s rs (.ok (({ s with votes } : Snowballer A).doTick L orders))

/--
**A tick completes exactly if its responses consist of CIDs.** One entry that does not cast is
enough to stop the signer, and no other response is.
-/
theorem completes_iff_castable (L : Ipld) (orders : TallyOrders) (s : Snowballer A)
    (rs : List Checkpoint) (hidle : s.idle = true) (hvotes : s.votes = [])
    (hk : rs.length ≤ s.snowball.k) :
    Completes L orders s rs ↔ ∀ cp ∈ rs, ∀ b ∈ cp.addBlockRequests, L.isCid b = true := by
  have hnone := (idle_iff.mp hidle).2.2
  constructor
  · intro h
    obtain ⟨votes, -, hticking⟩ := h.ends
    exact (castable_of_ticking hticking).1
  · intro hcast
    have hsafe : ∀ r, Ticking L orders s rs r → ∃ s', r = .ok s' := by
      intro r hr
      refine ticking_ok hr hcast ?_
      intro c hc
      rw [hnone] at hc
      cases hc
    have hticking : Ticking L orders s rs (s.answered L orders rs) :=
      ticking_answered hidle (by rw [hvotes, List.length_nil]; omega)
    obtain ⟨s', hs'⟩ := hsafe _ hticking
    obtain ⟨votes, hvotesOf, rfl⟩ := answered_votes hnone hs'
    rw [hvotes, List.nil_append] at hs'
    rw [hs'] at hticking
    exact ⟨hsafe, votes, hvotesOf, hticking⟩

/-! ### A response that is no checkpoint of anything -/

namespace Example

/-- The round of three signers, with one request stored and the snowballer started. -/
noncomputable def asking : Option (Snowballer exactArith) :=
  fifth.run (fun _ _ => true) [.storeAbr request, .start MapOrder.plain]

theorem asking_some : ∃ s, asking = some s ∧ fifth.Reach (fun _ _ => true) s ∧
    s.idle = true ∧ s.votes = [] ∧ s.snowball.k = 2 := by
  have hrun : asking.map (fun s => (s.idle, s.votes.length, s.snowball.k)) = some (true, 0, 2) := by
    decide +kernel
  obtain ⟨s, hs, hvalues⟩ := Option.map_eq_some_iff.mp hrun
  obtain ⟨hidle, hvalues⟩ := Prod.mk.inj hvalues
  obtain ⟨hvotes, hk⟩ := Prod.mk.inj hvalues
  exact ⟨s, hs, System.reach_of_run hs, hidle, List.length_eq_zero_iff.mp hvotes, hk⟩

/-- One peer knows the request, the other one lists a request that nobody has. -/
noncomputable def decodable : List Checkpoint :=
  [proposal 5, { height := 5, addBlockRequests := [[7]] }]

theorem completes_iff_castable_example : ∃ s : Snowballer exactArith,
    fifth.Reach (fun _ _ => true) s ∧
      Completes Ipld.inFull TallyOrders.plain s decodable := by
  obtain ⟨s, -, hreach, hidle, hvotes, hk⟩ := asking_some
  refine ⟨s, hreach, ?_⟩
  refine (completes_iff_castable Ipld.inFull TallyOrders.plain s decodable hidle hvotes
    (by rw [hk]; decide)).mpr ?_
  have hall : ∀ cp ∈ decodable, ∀ b ∈ cp.addBlockRequests, Ipld.inFull.isCid b = true := by
    decide +kernel
  exact hall

/-- A checkpoint whose only entry is empty. -/
def malformed : Checkpoint := { height := 5, addBlockRequests := [[]] }

/-- **One peer stops the signer** with one response. -/
theorem tick_panics : ∃ s : Snowballer exactArith, fifth.Reach (fun _ _ => true) s ∧
    s.idle = true ∧ s.answered Ipld.inFull TallyOrders.plain [malformed] =
      .error (.panic "error casting add block request cid") ∧
    Ticking Ipld.inFull TallyOrders.plain s [malformed]
      (.error (.panic "error casting add block request cid")) := by
  obtain ⟨s, -, hreach, hidle, hvotes, hk⟩ := asking_some
  have herror : s.answered Ipld.inFull TallyOrders.plain [malformed] =
      .error (.panic "error casting add block request cid") := rfl
  refine ⟨s, hreach, hidle, herror, ?_⟩
  rw [← herror]
  exact ticking_answered hidle (by rw [hvotes, hk]; decide)

end Example

end Snowballer

end Tupelo

import Tupelo.Infra.Transition
import Tupelo.Signer.Node
import Tupelo.Signer.Snowball

/-!
# The snowballer of a round

The model of `signer/gossip/snowballnetwork.go`: the loop that asks peers for the checkpoint they
prefer, nils out the votes it does not accept, and ticks the snowball with the others.

The mempool belongs to the node, which adds requests to it while the loop runs. A response is
checked one CID at a time, and requests may be added between any two of them; so a check is kept
as the place where it stands.

What the loop decides on is a vote that was accepted in some earlier tick. It is still admissible
when the node reads it, since within a round the mempool only grows. That is what the model of
the node assumes of a decision. The height of a checkpoint, on the other hand, is never looked at.
-/

namespace Tupelo

open Infra

/-- Where the check of a response stands: in `mempoolHasAllABRs` or in `hasConflictingABRs`. -/
inductive Checking where
  | hasAll (cp : Checkpoint) (hasAll : Bool) (rest : List Bytes)
  | conflicts (cp : Checkpoint) (csIds : List Bytes) (rest : List Bytes)

/-- `snowballer`, with the mempool of its node and the votes of the tick that is going on. -/
structure Snowballer (A : FloatArith) where
  height : Nat
  snowball : Snowball A
  started : Bool
  mempool : Mempool
  votes : List (Vote A)
  checking : Option Checking

namespace Snowballer

variable {A : FloatArith} (L : Ipld)

/-- `newSnowballer`. -/
def new (height : Nat) (snowball : Snowball A) (mempool : Mempool) : Snowballer A :=
  { height, snowball, started := false, mempool, votes := [], checking := none }

/-- What can happen next. -/
inductive Action where
  /-- The node stores a request. -/
  | storeAbr (abr : AddBlockRequest)
  /-- `Start`; the mempool is ranged over in some order. -/
  | start (order : MapOrder)
  /-- A peer has answered with a checkpoint. -/
  | respond (cp : Checkpoint)
  /-- The next CID of the response is looked up. -/
  | look
  /-- No more responses come in this tick. -/
  | tick (orders : TallyOrders)

def start (s : Snowballer A) (order : MapOrder) : Snowballer A :=
  if s.started then s
  else
    let s := { s with started := true }
    let preferred := order.order s.mempool.preferred
    if preferred.length > 0 then
      let cp : Checkpoint := { height := s.height, addBlockRequests := preferred.map (·.bytes) }
      let vote : Vote A := { checkpoint := some cp, tallyCount := A.ofNat 0 }
      { s with snowball := s.snowball.preferInLock L vote }
    else s

/-- The check is over, and this is the vote. -/
def cast (s : Snowballer A) (vote : Vote A) : Snowballer A :=
  { s with checking := none, votes := s.votes ++ [vote] }

/-- `doTick`, for one response. -/
def respond (s : Snowballer A) (cp : Checkpoint) : Snowballer A :=
  if cp.addBlockRequests.length = 0 then s.cast (Vote.nil A)
  else { s with checking := some (.hasAll cp true cp.addBlockRequests) }

/-- One iteration of the loop the check is in. -/
def look (s : Snowballer A) : Checking → Except Fault (Snowballer A)
  | .hasAll cp hasAll [] =>
    if hasAll then .ok { s with checking := some (.conflicts cp [] cp.addBlockRequests) }
    else .ok (s.cast (Vote.nil A))
  | .hasAll cp hasAll (cidBytes :: rest) => do
    let abrCID ← Mempool.castOrPanic L cidBytes
    let ok := s.mempool.contains [abrCID]
    pure { s with checking := some (.hasAll cp (if !ok then false else hasAll) rest) }
  | .conflicts cp _ [] => .ok (s.cast { checkpoint := some cp, tallyCount := A.ofNat 0 })
  | .conflicts cp csIds (cidBytes :: rest) => do
    let abrCID ← Mempool.castOrPanic L cidBytes
    match s.mempool.get abrCID with
    | none => pure (s.cast (Vote.nil A))
    | some wrapper =>
      let conflictSetID := toConflictSetID wrapper.abr
      if conflictSetID ∈ csIds then pure (s.cast (Vote.nil A))
      else pure { s with checking := some (.conflicts cp (conflictSetID :: csIds) rest) }

/-- The end of `doTick`: the votes that did not come are nil. -/
def doTick (s : Snowballer A) (orders : TallyOrders) : Snowballer A :=
  let votes := s.votes ++ List.replicate (s.snowball.k - s.votes.length) (Vote.nil A)
  { s with
    snowball := s.snowball.tick L (calculateTallies L orders votes)
    votes := [] }

/-- The loop of `run` is in a tick, and no response is being checked. -/
def idle (s : Snowballer A) : Bool := s.started && !s.snowball.decided && s.checking.isNone

/-- `storeAbr` of the node, for the mempool: a request is added under its own CID. -/
def stored (m : Mempool) (abr : AddBlockRequest) : Mempool :=
  m.add L { abr, cid := L.cidOf (.addBlockRequest abr) }

def act (s : Snowballer A) : Action → Option (Snowballer A)
  | .storeAbr abr => some { s with mempool := stored L s.mempool abr }
  | .start order => some (s.start L order)
  | .respond cp => if s.idle && decide (s.votes.length < s.snowball.k) then some (s.respond cp)
    else none
  -- a CID that does not cast is a panic
  | .look => s.checking.bind fun c => (s.look L c).toOption
  | .tick orders => if s.idle then some (s.doTick L orders) else none

/-- A round, from the mempool the node has when it begins. -/
def system (height : Nat) (alpha : A.F) (beta : Int) (k : Nat) (mempool : Mempool) :
    System (Snowballer A) Action where
  start := new height (Snowball.new alpha beta k) mempool
  act s a := s.act L a

/-! ## What a step does -/

variable {L} {s s' : Snowballer A} {c : Checking}

/-- How a check goes on in a mempool, as long as it finds nothing wrong. -/
inductive Next (L : Ipld) (m : Mempool) : Checking → Checking → Prop where
  | counted {cp : Checkpoint} {hasAll hasAll' : Bool} {b : Bytes} {rest : List Bytes} :
      Next L m (.hasAll cp hasAll (b :: rest)) (.hasAll cp hasAll' rest)
  | counts {cp : Checkpoint} :
      Next L m (.hasAll cp true []) (.conflicts cp [] cp.addBlockRequests)
  | resolved {cp : Checkpoint} {csIds : List Bytes} {b : Bytes} {rest : List Bytes}
      {w : AddBlockWrapper} (hres : Mempool.Resolves L m b w)
      (hnew : toConflictSetID w.abr ∉ csIds) :
      Next L m (.conflicts cp csIds (b :: rest))
        (.conflicts cp (toConflictSetID w.abr :: csIds) rest)

/-- The check goes on, or the vote is nilled out, or it counts. -/
theorem look_cases (h : s.look L c = .ok s') :
    s' = s.cast (Vote.nil A) ∨
    (∃ c', Next L s.mempool c c' ∧ s' = { s with checking := some c' }) ∨
    ∃ cp csIds, c = .conflicts cp csIds [] ∧
      s' = s.cast { checkpoint := some cp, tallyCount := A.ofNat 0 } := by
  unfold look at h
  split at h
  · split at h
    · next hall =>
      subst hall
      exact Or.inr (Or.inl ⟨_, Next.counts, (Except.ok.inj h).symm⟩)
    · exact Or.inl (Except.ok.inj h).symm
  · obtain ⟨id, -, h⟩ := bind_eq_ok.mp h
    exact Or.inr (Or.inl ⟨_, Next.counted, (pure_eq_ok.mp h).symm⟩)
  · exact Or.inr (Or.inr ⟨_, _, rfl, (Except.ok.inj h).symm⟩)
  · obtain ⟨id, hid, h⟩ := bind_eq_ok.mp h
    rw [Mempool.castOrPanic_ok] at hid
    split at h
    · exact Or.inl (pure_eq_ok.mp h).symm
    · next w hw =>
      simp only [] at h
      split at h
      · exact Or.inl (pure_eq_ok.mp h).symm
      · next hnew =>
        exact Or.inr (Or.inl ⟨_, Next.resolved ⟨id, hid, hw⟩ hnew, (pure_eq_ok.mp h).symm⟩)

/-- Starting changes nothing, or sets what the snowball prefers before it has decided anything. -/
theorem start_cases (L : Ipld) (s : Snowballer A) (order : MapOrder) :
    s.start L order = s ∨
    (s.started = false ∧ ∃ snowball, s.start L order = { s with started := true, snowball } ∧
      (snowball = s.snowball ∨ ∃ v, snowball = s.snowball.preferInLock L v)) := by
  unfold start
  split
  · exact Or.inl rfl
  · next hs =>
    refine Or.inr ⟨Bool.eq_false_iff.mpr hs, ?_⟩
    simp only []
    split
    · exact ⟨_, rfl, Or.inr ⟨_, rfl⟩⟩
    · exact ⟨_, rfl, Or.inl rfl⟩

theorem idle_iff : s.idle = true ↔
    s.started = true ∧ s.snowball.decided = false ∧ s.checking = none := by
  unfold idle
  simp [and_assoc]

/-! ## What is carried through a round -/

/--
A property of checkpoints that the votes that count have. It may depend on the mempool, as long as
more requests do no harm.
-/
structure Criterion (L : Ipld) where
  vote : Mempool → Checkpoint → Prop
  /-- The same of a check that is going on. -/
  check : Mempool → Checking → Prop
  vote_stored : ∀ {m abr cp}, m.Keyed L → vote m cp → vote (stored L m abr) cp
  check_stored : ∀ {m abr c}, m.Keyed L → check m c → check (stored L m abr) c
  next : ∀ {m c c'}, Next L m c c' → check m c → check m c'

/-- All votes have the property, those of this tick and the one the snowball remembers. -/
structure Inv (K : Criterion L) (s : Snowballer A) : Prop where
  keyed : s.mempool.Keyed L
  snowball : s.snowball.Carries (K.vote s.mempool)
  votes : ∀ v ∈ s.votes, v.For (K.vote s.mempool)
  check : ∀ c, s.checking = some c → K.check s.mempool c
  undecided : s.started = false → s.snowball.decided = false

variable {K : Criterion L}

theorem inv_start {height : Nat} {alpha : A.F} {beta : Int} {k : Nat} {m : Mempool}
    (hm : m.Keyed L) : (system L height alpha beta k m).start.Inv K where
  keyed := hm
  snowball := Snowball.carries_new _ alpha beta k
  votes := fun _ h => by cases h
  check := fun _ h => by cases h
  undecided := fun _ => rfl

theorem Inv.cast (h : s.Inv K) {v : Vote A} (hv : v.For (K.vote s.mempool)) :
    (s.cast v).Inv K where
  keyed := h.keyed
  snowball := h.snowball
  votes := forall_mem_concat h.votes hv
  check := fun _ hc => by cases hc
  undecided := h.undecided

theorem Inv.checking (h : s.Inv K) {c : Checking} (hc : K.check s.mempool c) :
    ({ s with checking := some c } : Snowballer A).Inv K where
  keyed := h.keyed
  snowball := h.snowball
  votes := h.votes
  check := by
    intro c' hc'
    rw [← Option.some.inj hc']
    exact hc
  undecided := h.undecided

theorem Inv.look (h : s.Inv K) (hc : s.checking = some c) (hlook : s.look L c = .ok s')
    (hdone : ∀ cp csIds, c = .conflicts cp csIds [] → K.check s.mempool c →
      K.vote s.mempool cp) : s'.Inv K := by
  have hcheck := h.check c hc
  rcases look_cases hlook with rfl | ⟨c', hnext, rfl⟩ | ⟨cp, csIds, rfl, rfl⟩
  · exact h.cast (Vote.for_nil _)
  · exact h.checking (K.next hnext hcheck)
  · refine h.cast ?_
    intro cp' hcp'
    rw [← Option.some.inj hcp']
    exact hdone cp csIds rfl hcheck

theorem Inv.start (h : s.Inv K) (order : MapOrder) : (s.start L order).Inv K := by
  rcases start_cases L s order with heq | ⟨hs, snowball, heq, hcases⟩
  · rw [heq]
    exact h
  · rw [heq]
    refine ⟨h.keyed, ?_, h.votes, h.check, fun hf => by cases hf⟩
    rcases hcases with rfl | ⟨v, rfl⟩
    · exact h.snowball
    · exact h.snowball.preferInLock (h.undecided hs) v

theorem Inv.doTick (h : s.Inv K) (hidle : s.idle = true) (orders : TallyOrders) :
    (s.doTick L orders).Inv K where
  keyed := h.keyed
  snowball := by
    refine h.snowball.tick (forall_calculateTallies ?_)
    intro v hv
    rcases List.mem_append.mp hv with hv | hv
    · exact h.votes v hv
    · rw [(List.mem_replicate.mp hv).2]
      exact Vote.for_nil _
  votes := fun _ hv => by cases hv
  check := h.check
  undecided := fun hs => absurd (hs.symm.trans (idle_iff.mp hidle).1) Bool.false_ne_true

theorem Inv.storeAbr (h : s.Inv K) (abr : AddBlockRequest) :
    ({ s with mempool := stored L s.mempool abr } : Snowballer A).Inv K where
  keyed := Mempool.keyed_add h.keyed rfl
  snowball := h.snowball.mono fun _ hcp => K.vote_stored h.keyed hcp
  votes := fun v hv cp hcp => K.vote_stored h.keyed (h.votes v hv cp hcp)
  check := fun c hc => K.check_stored h.keyed (h.check c hc)
  undecided := h.undecided

/-- **Every step carries the property on**, if a check ends with it. -/
theorem Inv.act (h : s.Inv K) {a : Action} (hact : s.act L a = some s')
    (hrespond : ∀ cp, a = .respond cp → cp.addBlockRequests ≠ [] →
      K.check s.mempool (.hasAll cp true cp.addBlockRequests))
    (hdone : ∀ cp csIds, a = .look → s.checking = some (.conflicts cp csIds []) →
      K.check s.mempool (.conflicts cp csIds []) → K.vote s.mempool cp) : s'.Inv K := by
  cases a with
  | storeAbr abr =>
    rw [← Option.some.inj hact]
    exact h.storeAbr abr
  | start order =>
    rw [← Option.some.inj hact]
    exact h.start order
  | respond cp =>
    simp only [Snowballer.act] at hact
    split at hact
    · rw [← Option.some.inj hact]
      unfold respond
      split
      · exact h.cast (Vote.for_nil _)
      · next hlen =>
        exact h.checking (hrespond cp rfl fun he => hlen (by rw [he]; rfl))
    · cases hact
  | look =>
    obtain ⟨c, hc, hlook⟩ := Option.bind_eq_some_iff.mp hact
    refine h.look hc (toOption_eq_some.mp hlook) ?_
    rintro cp csIds rfl hcheck
    exact hdone cp csIds rfl hc hcheck
  | tick orders =>
    simp only [Snowballer.act] at hact
    split at hact
    · next hidle =>
      rw [← Option.some.inj hact]
      exact h.doTick hidle orders
    · cases hact

/-! ## Accepted votes stay admissible -/

/-- A request of the pool stays where it is when another is stored. -/
theorem resolves_stored (hL : L.Faithful) {m : Mempool} (hm : m.Keyed L) (abr : AddBlockRequest)
    {b : Bytes} {w : AddBlockWrapper} (h : Mempool.Resolves L m b w) :
    Mempool.Resolves L (stored L m abr) b w := by
  obtain ⟨id, hid, hget⟩ := h
  refine ⟨id, hid, ?_⟩
  unfold stored
  rw [Mempool.get_add]
  split
  · next heq =>
    -- the same CID, so the same request
    obtain ⟨hcid, habr⟩ := hm id w hget
    have hsame : w.abr = abr :=
      DagNode.addBlockRequest.inj (hL.injective (habr.trans heq))
    rw [Option.some.injEq, AddBlockWrapper.mk.injEq]
    exact ⟨hsame.symm, by rw [hcid, ← hsame, habr]⟩
  · exact hget

/-- What `hasConflictingABRs` has found so far: requests of the conflict sets it has noted. -/
def Looked (L : Ipld) (m : Mempool) (bs csIds : List Bytes) : Prop :=
  csIds.Nodup ∧ ∃ ws, List.Forall₂ (Mempool.Resolves L m) bs ws ∧
    (ws.map fun w => toConflictSetID w.abr).Perm csIds

theorem Looked.stored (hL : L.Faithful) {m : Mempool} (hm : m.Keyed L) (abr : AddBlockRequest)
    {bs csIds : List Bytes} (h : Looked L m bs csIds) :
    Looked L (Snowballer.stored L m abr) bs csIds := by
  obtain ⟨hnodup, ws, hres, hperm⟩ := h
  exact ⟨hnodup, ws, hres.imp fun _ _ => resolves_stored hL hm abr, hperm⟩

theorem Looked.next {m : Mempool} {bs csIds : List Bytes} {b : Bytes} {w : AddBlockWrapper}
    (h : Looked L m bs csIds) (hres : Mempool.Resolves L m b w)
    (hnew : toConflictSetID w.abr ∉ csIds) :
    Looked L m (bs ++ [b]) (toConflictSetID w.abr :: csIds) := by
  obtain ⟨hnodup, ws, hws, hperm⟩ := h
  refine ⟨List.nodup_cons.mpr ⟨hnew, hnodup⟩, ws ++ [w], ?_, ?_⟩
  · exact List.rel_append hws (List.Forall₂.cons hres List.Forall₂.nil)
  · rw [List.map_append]
    exact (List.perm_append_singleton _ _).trans (hperm.cons _)

/-- A vote counts in every later mempool, too. -/
def admissible (L : Ipld) (hL : L.Faithful) : Criterion L where
  vote m cp := m.nilsVote L cp.addBlockRequests = .ok false
  check m
    | .hasAll cp _ _ => cp.addBlockRequests ≠ []
    | .conflicts cp csIds rest => cp.addBlockRequests ≠ [] ∧
        ∃ bs, cp.addBlockRequests = bs ++ rest ∧ Looked L m bs csIds
  vote_stored := by
    intro m abr cp hm h
    rw [Mempool.nilsVote_false_iff] at h ⊢
    obtain ⟨hne, ws, hres, hnodup⟩ := h
    exact ⟨hne, ws, hres.imp fun _ _ => resolves_stored hL hm abr, hnodup⟩
  check_stored := by
    intro m abr c hm h
    cases c with
    | hasAll cp hasAll rest => exact h
    | conflicts cp csIds rest =>
      obtain ⟨hne, bs, hbs, hlooked⟩ := h
      exact ⟨hne, bs, hbs, hlooked.stored hL hm abr⟩
  next := by
    intro m c c' hnext h
    cases hnext with
    | counted => exact h
    | counts => exact ⟨h, [], rfl, List.nodup_nil, [], List.Forall₂.nil, List.Perm.refl _⟩
    | @resolved cp csIds b rest w hres hnew =>
      obtain ⟨hne, bs, hbs, hlooked⟩ := h
      exact ⟨hne, bs ++ [b], by rw [hbs, List.append_assoc]; rfl, hlooked.next hres hnew⟩

theorem admissible_done (hL : L.Faithful) {m : Mempool} {cp : Checkpoint} {csIds : List Bytes}
    (h : (admissible L hL).check m (.conflicts cp csIds [])) : (admissible L hL).vote m cp := by
  obtain ⟨hne, bs, hbs, hnodup, ws, hres, hperm⟩ := h
  rw [List.append_nil] at hbs
  refine Mempool.nilsVote_false_iff.mpr ⟨hne, ws, ?_, hperm.nodup_iff.mpr hnodup⟩
  rw [hbs]
  exact hres

/-- The loop of `handleSnowballerDone` finds the requests of an admissible checkpoint. -/
theorem collect_of_resolves : ∀ {bs : List Bytes} {ws : List AddBlockWrapper} {n : Node},
    List.Forall₂ (Mempool.Resolves L n.mempool) bs ws →
    ∃ abrs n', Node.collect L bs n = .ok (abrs, n') ∧ abrs.map (·.2) = ws
  | [], _, n, .nil => ⟨[], n, rfl, rfl⟩
  | b :: bs, _ :: ws, n, .cons (b := w) ⟨id, hid, hget⟩ hrest => by
    obtain ⟨inflight, promotions, hn⟩ := Node.promoteNext_eq n w
    obtain ⟨abrs, n', hcollect, hws⟩ := collect_of_resolves (n := n.promoteNext w) (by
      rw [hn]
      exact hrest)
    refine ⟨(id, w) :: abrs, n', ?_, by rw [List.map_cons, hws]⟩
    rw [Node.collect, Mempool.castOrPanic_ok.mpr hid, ok_bind, hget]
    show (Node.collect L bs (n.promoteNext w) >>= _) = _
    rw [hcollect]
    rfl

section Decided

variable {height : Nat} {alpha : A.F} {beta : Int} {k : Nat} {m : Mempool}

/--
**What a round decides on is admissible.**

Whatever the peers respond and whenever requests are stored, the checkpoint that is decided lists
requests, all of them in the mempool from then on, and no two of one conflict set. So
`handleSnowballerDone` finds every one of them.
-/
theorem decided_admissible (hL : L.Faithful) (hm : m.Keyed L)
    (h : (system L height alpha beta k m).Reach (fun _ _ => true) s)
    (hd : s.snowball.decided = true) :
    ∃ v cp, s.snowball.preferred = some v ∧ v.checkpoint = some cp ∧ cp.addBlockRequests ≠ [] ∧
      s.mempool.nilsVote L cp.addBlockRequests = .ok false ∧
      ∃ ws, List.Forall₂ (Mempool.Resolves L s.mempool) cp.addBlockRequests ws ∧
        (ws.map fun w => toConflictSetID w.abr).Nodup ∧
        ∀ n : Node, n.mempool = s.mempool →
          ∃ abrs n', Node.collect L cp.addBlockRequests n = .ok (abrs, n') ∧
            abrs.map (·.2) = ws := by
  have hinv : s.Inv (admissible L hL) := by
    refine h.invariant (P := fun s => s.Inv (admissible L hL)) (inv_start hm) ?_
    intro s a s' hs _ hact
    exact hs.act hact (fun _ _ hne => hne) fun _ _ _ _ hcheck => admissible_done hL hcheck
  obtain ⟨v, cp, hpref, hcp, hvote⟩ := hinv.snowball.of_decided hd
  obtain ⟨hne, ws, hres, hnodup⟩ := Mempool.nilsVote_false_iff.mp hvote
  refine ⟨v, cp, hpref, hcp, hne, hvote, ws, hres, hnodup, ?_⟩
  intro n hn
  exact collect_of_resolves (by rw [hn]; exact hres)

/-! ## The height of what is decided -/

/-- Votes are for checkpoints of the height; what is being checked may be anything. -/
def atHeight (L : Ipld) (height : Nat) : Criterion L where
  vote _ cp := cp.height = height
  check _ _ := True
  vote_stored := fun _ h => h
  check_stored := fun _ _ => trivial
  next := fun _ _ => trivial

/-- A response that passes the check is for this height. -/
def countsAtHeight (height : Nat) (s : Snowballer A) : Action → Bool
  | .look => match s.checking with
    | some (.conflicts cp _ []) => decide (cp.height = height)
    | _ => true
  | _ => true

/-- A decision makes a past round of the current height. -/
theorem handleSnowballerDone_getLast {n n' : Node} {cp : Checkpoint}
    (h : n.handleSnowballerDone L cp = .ok n') :
    ∃ r, n'.heap.getLast? = some r ∧ r.height = n.current.height ∧ r.preferred = cp := by
  obtain ⟨state, n₁, abrs, inflight, promotions, hstate, -, rfl⟩ := Node.handleSnowballerDone_ok h
  have hcurrent : n₁.current = n.current := by
    obtain ⟨heap, roundCache, rfl⟩ := (Node.looked_previousState hstate).frame
    rfl
  refine ⟨_, List.getLast?_concat .., ?_, rfl⟩
  rw [hcurrent]

/--
**What a round decides on is of its height**, if the responses that counted were: then a round
that is completed with the decision refers to a checkpoint of the same height.
-/
theorem decided_height (hm : m.Keyed L)
    (h : (system L height alpha beta k m).Reach (countsAtHeight height) s)
    (hd : s.snowball.decided = true) :
    ∃ v cp, s.snowball.preferred = some v ∧ v.checkpoint = some cp ∧ cp.height = height ∧
      ∀ n n' : Node, n.current.height = height → n.handleSnowballerDone L cp = .ok n' →
        ∃ r, n'.heap.getLast? = some r ∧ r.preferred = cp ∧ r.height = r.preferred.height := by
  have hinv : s.Inv (atHeight L height) := by
    refine h.invariant (P := fun s => s.Inv (atHeight L height)) (inv_start hm) ?_
    intro s a s' hs hok hact
    refine hs.act hact (fun _ _ _ => trivial) ?_
    rintro cp csIds rfl hc -
    unfold countsAtHeight at hok
    rw [hc] at hok
    have hheight : cp.height = height := of_decide_eq_true hok
    exact hheight
  obtain ⟨v, cp, hpref, hcp, hheight⟩ := hinv.snowball.of_decided hd
  refine ⟨v, cp, hpref, hcp, hheight, ?_⟩
  intro n n' hn hdone
  obtain ⟨r, hr, hrh, hrp⟩ := handleSnowballerDone_getLast hdone
  refine ⟨r, hr, hrp, ?_⟩
  rw [hrh, hrp, hn]
  exact hheight.symm

end Decided

/-! ### A round of three signers -/

namespace Example

def request : AddBlockRequest := .bare [1] [] [2] 0

noncomputable def proposal (height : Nat) : Checkpoint := Ipld.inFull.naming height [request]

/-- The round of the height 5, with the default `alpha` and `beta`, and two peers to ask. -/
noncomputable def fifth : System (Snowballer exactArith) Action :=
  system Ipld.inFull 5 (333 / 500 : ℚ) 10 2 Mempool.new

/-- Both peers respond with a proposal for the height, in each of eleven ticks. -/
noncomputable def responses (height : Nat) : List Action :=
  let response : List Action := .respond (proposal height) :: List.replicate 4 .look
  let tick : List Action := response ++ response ++ [.tick TallyOrders.plain]
  [.storeAbr request, .start MapOrder.plain] ++ (List.replicate 11 tick).flatten

theorem decided_admissible_example : ∃ s v cp,
    fifth.Reach (fun _ _ => true) s ∧ s.snowball.decided = true ∧
    s.snowball.preferred = some v ∧ v.checkpoint = some cp ∧
    s.mempool.nilsVote Ipld.inFull cp.addBlockRequests = .ok false := by
  have hrun : (fifth.run (fun _ _ => true) (responses 5)).map (fun s => s.snowball.decided) =
      some true := by decide +kernel
  obtain ⟨s, hs, hd⟩ := Option.map_eq_some_iff.mp hrun
  have hreach := System.reach_of_run hs
  obtain ⟨v, cp, hpref, hcp, -, hvote, -⟩ :=
    decided_admissible Ipld.inFull_faithful Mempool.wf_new.keyed hreach hd
  exact ⟨s, v, cp, hreach, hd, hpref, hcp, hvote⟩

theorem decided_height_example : ∃ s v cp,
    fifth.Reach (countsAtHeight 5) s ∧ s.snowball.decided = true ∧
    s.snowball.preferred = some v ∧ v.checkpoint = some cp ∧ cp.height = 5 := by
  have hrun : (fifth.run (countsAtHeight 5) (responses 5)).map (fun s => s.snowball.decided) =
      some true := by decide +kernel
  obtain ⟨s, hs, hd⟩ := Option.map_eq_some_iff.mp hrun
  have hreach := System.reach_of_run hs
  obtain ⟨v, cp, hpref, hcp, hheight, -⟩ := decided_height Mempool.wf_new.keyed hreach hd
  exact ⟨s, v, cp, hreach, hd, hpref, hcp, hheight⟩

/-- Peers that respond with a checkpoint of another height get it decided. -/
theorem decided_other_height : ∃ s v cp,
    fifth.Reach (fun _ _ => true) s ∧ s.snowball.decided = true ∧
    s.snowball.preferred = some v ∧ v.checkpoint = some cp ∧ s.height = 5 ∧ cp.height = 7 := by
  have hrun : (fifth.run (fun _ _ => true) (responses 7)).map
      (fun s => (s.height, s.snowball.decided, s.snowball.preferred.map (·.checkpoint))) =
      some (5, true, some (some (proposal 7))) := by decide +kernel
  obtain ⟨s, hs, hvalues⟩ := Option.map_eq_some_iff.mp hrun
  obtain ⟨hheight, hvalues⟩ := Prod.mk.inj hvalues
  obtain ⟨hd, hpref⟩ := Prod.mk.inj hvalues
  obtain ⟨v, hv, hcp⟩ := Option.map_eq_some_iff.mp hpref
  exact ⟨s, v, proposal 7, System.reach_of_run hs, hd, hv, hcp, hheight, rfl⟩

end Example

end Snowballer

end Tupelo

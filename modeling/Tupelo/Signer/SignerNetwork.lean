import Tupelo.Infra.Lists
import Tupelo.Signer.WholeSigner

/-!
# A network of signers

Whole signers that ask each other. In a tick a signer asks others for the checkpoint they prefer
at its height (`getOneRandomVote`); whoever is asked answers with what its snowball prefers, or
with what it has decided if it is further (`handleStream`). Answers may come late, in any order,
or not at all, and signers may crash.

What is decided does not appear from nowhere: by induction over all interleavings, every answer,
every vote, every preference and every decision for a height goes back to a checkpoint that a
signer of the network has proposed for this height when it started the round. That is why decided
checkpoints have the height of their round, though no signer ever looks at it.
-/

namespace Tupelo

open Infra

variable {A : FloatArith} {L : Ipld}
variable {a : WholeSigner.Action} {cp : Checkpoint}

/-- What is preferred after a tick was preferred before, or is one of the votes, or was last. -/
theorem Snowball.preferred_tick {s : Snowball A} {votes : List (Vote A)} {v : Vote A}
    (h : (s.tick L votes).preferred = some v) :
    s.preferred = some v ∨ v ∈ votes ∨ s.last = some v := by
  have hcount : ∀ (s : Snowball A) (m : Vote A), (s.countMajority L m).preferred = some v →
      s.preferred = some v ∨ m = v := by
    intro s m hm
    unfold countMajority at hm
    simp only [] at hm
    split at hm
    · exact Or.inr (Option.some.inj hm)
    · split at hm
      · exact Or.inr (Option.some.inj hm)
      · exact Or.inl hm
  have hfollow : ∀ (s : Snowball A) (m : Vote A), (s.followMajority L m).preferred = some v →
      s.preferred = some v ∨ s.last = some v := by
    intro s m hm
    unfold followMajority at hm
    split at hm
    · exact Or.inl hm
    · next last hlast =>
      split at hm
      · exact Or.inl hm
      · simp only [] at hm
        split at hm
        · rw [← Option.some.inj hm]
          exact Or.inr hlast
        · exact Or.inl hm
  unfold tick at h
  simp only [] at h
  split at h
  · exact Or.inl h
  · cases hm : majority L votes with
    | none =>
      rw [hm] at h
      exact Or.inl h
    | some m =>
      rw [hm] at h
      simp only [] at h
      have hmem := (majority_spec hm).1
      split at h
      · split at h
        · rw [← Option.some.inj h]
          exact Or.inr (Or.inl hmem)
        · exact Or.inl h
      · rcases hfollow _ _ h with hpref | hlast
        · rcases hcount _ _ hpref with hpref | rfl
          · exact Or.inl hpref
          · exact Or.inr (Or.inl hmem)
        · rw [(countMajority_frame L _ m).1] at hlast
          exact Or.inr (Or.inr hlast)

/-- The checkpoint whose requests are being looked up. -/
def Checking.checkpoint : Checking → Checkpoint
  | .hasAll cp _ _ => cp
  | .conflicts cp _ _ => cp

/-! ## The network -/

/-- `handleStream`, with the snowball of the current round. -/
def WholeSigner.answer (L : Ipld) (s : WholeSigner A) (height : Nat) : Checkpoint :=
  if height = s.traced.node.current.height then
    s.decision.getD { height, addBlockRequests := [] }
  else (s.traced.node.handleStream L height).1

structure SignerNetwork (A : FloatArith) where
  signers : Nat → WholeSigner A
  /-- The answers on their way to each signer, in the tick it is in. -/
  answers : Nat → List Checkpoint
  /-- Who has started a round with which preference. No code reads it. -/
  proposals : List (Nat × Checkpoint)

namespace SignerNetwork

/-- What can happen next. -/
inductive Action where
  /-- A signer does something by itself. -/
  | own (i : Nat) (a : WholeSigner.Action)
  /-- The signer `j` answers the signer `i`. -/
  | ask (i j : Nat)
  /-- One of the answers arrives. -/
  | deliver (i pos : Nat)

/-- Answers of others come from the network. -/
def byItself : WholeSigner.Action → Bool
  | .ticking (.respond _) => false
  | _ => true

/-- The tick goes on, and still waits for its answers. -/
def sameTick : WholeSigner.Action → Bool
  | .ticking (.tick _) => false
  | .receive => false
  | .crash => false
  | _ => true

/-- The preference that `Start` begins the round with. -/
def proposal (s : WholeSigner A) : WholeSigner.Action → Option Checkpoint
  | .start order =>
    let preferred := order.order s.snb.mempool.preferred
    if s.snb.started = false ∧ preferred.length > 0 then
      some { height := s.snb.height, addBlockRequests := preferred.map (·.bytes) }
    else none
  | _ => none

section System

variable (L : Ipld) (sign : Nat → Bytes → Except Fault Signature) (cfg : SnowballConfig A)

def act (net : SignerNetwork A) : Action → Option (SignerNetwork A)
  | .own i a =>
    if byItself a then
      (WholeSigner.act ⟨L, sign i⟩ cfg (net.signers i) a).map fun s =>
        { signers := Function.update net.signers i s
          answers := if sameTick a then net.answers else Function.update net.answers i []
          proposals := net.proposals ++ (proposal (net.signers i) a).toList.map (i, ·) }
    else none
  | .ask i j =>
    let height := (net.signers i).snb.height
    (WholeSigner.act ⟨L, sign j⟩ cfg (net.signers j) (.event (.stream height))).map fun s =>
      { net with
        signers := Function.update net.signers j s
        answers := Function.update net.answers i
          (net.answers i ++ [(net.signers j).answer L height]) }
  | .deliver i pos => do
    let cp ← (net.answers i)[pos]?
    let s ← WholeSigner.act ⟨L, sign i⟩ cfg (net.signers i) (.ticking (.respond cp))
    pure { net with
      signers := Function.update net.signers i s
      answers := Function.update net.answers i ((net.answers i).eraseIdx pos) }

/-- The runs of the network, from signers that have never run. -/
def system : System (SignerNetwork A) Action where
  start :=
    { signers := fun i => (WholeSigner.system ⟨L, sign i⟩ cfg).start, answers := fun _ => []
      proposals := [] }
  act := act L sign cfg

end System

/-- The goroutines of every signer write their heights in order. -/
def inOrder (net : SignerNetwork A) : Action → Bool
  | .own i a => WholeSigner.lifted Tupelo.inOrder (net.signers i) a
  | _ => true

/-- A signer has proposed the checkpoint, and for this height. -/
def Proposed (net : SignerNetwork A) (height : Nat) (cp : Checkpoint) : Prop :=
  cp.height = height ∧ ∃ j, (j, cp) ∈ net.proposals

/-! ## What goes back to a proposal -/

/-- What is checked and voted for at a height. -/
def proposed (L : Ipld) (props : Nat → Checkpoint → Prop) (height : Nat) :
    Snowballer.Criterion L where
  vote _ cp := props height cp
  check _ c := props height c.checkpoint
  vote_stored := fun _ h => h
  check_stored := fun _ h => h
  next := by
    intro m c c' hnext h
    cases hnext with
    | counted => exact h
    | counts => exact h
    | resolved => exact h

/-- Whatever a signer votes for, prefers or has decided at a height is among these checkpoints. -/
structure SignerInv (L : Ipld) (props : Nat → Checkpoint → Prop) (s : WholeSigner A) : Prop where
  carried : s.Carried (proposed L props)
  preferred : ∀ cp, s.decision = some cp → props s.snb.height cp
  durable : ∃ decided, Durable L s.traced.node decided ∧
    ∀ k d, decided[k]? = some d → props k d.checkpoint

variable {props props' : Nat → Checkpoint → Prop} {s s' : WholeSigner A}

theorem SignerInv.mono (hmono : ∀ k cp, props k cp → props' k cp) (h : SignerInv L props s) :
    SignerInv L props' s where
  carried :=
    { keyed := h.carried.keyed
      snowball := h.carried.snowball.mono fun cp hcp => hmono _ cp hcp
      votes := fun v hv cp hcp => hmono _ cp (h.carried.votes v hv cp hcp)
      check := fun c hc => hmono _ _ (h.carried.check c hc)
      undecided := h.carried.undecided }
  preferred := fun cp hcp => hmono _ cp (h.preferred cp hcp)
  durable := by
    obtain ⟨decided, hdurable, hdecided⟩ := h.durable
    exact ⟨decided, hdurable, fun k d hd => hmono k _ (hdecided k d hd)⟩

theorem signerInv_start (L : Ipld) (sign : Bytes → Except Fault Signature) (cfg : SnowballConfig A)
    (props : Nat → Checkpoint → Prop) :
    SignerInv L props (WholeSigner.system ⟨L, sign⟩ cfg).start where
  carried :=
    WholeSigner.carried_newSnowballer _ cfg (WholeSigner.linked_start ⟨L, sign⟩ cfg).pool rfl
  preferred := fun cp hcp => by cases hcp
  durable := ⟨[], durable_genesis L, fun k d hd => by cases hd⟩

theorem decided_record_external {n : Node} {h : History} {e : Node.Event}
    (hext : e.external = true) : (TracedNode.record L n h (.event e)).decided = h.decided := by
  cases e with
  | startSnowball | snowballerDone => cases hext
  | addBlockRequest | promotion | background | stream | republish => rfl

/-- A preference that is new after `Start` is the proposal. -/
theorem decision_start {order : MapOrder} {t : TracedNode}
    (h : ({ s with traced := t, snb := s.snb.start L order } : WholeSigner A).decision = some cp) :
    s.decision = some cp ∨ proposal s (.start order) = some cp := by
  unfold WholeSigner.decision at h
  simp only [] at h
  unfold Snowballer.start at h
  split at h
  · exact Or.inl h
  · next hs =>
    simp only [] at h
    split at h
    · next hlen =>
      right
      simp only [proposal, if_pos (And.intro (Bool.eq_false_iff.mpr hs) hlen)]
      exact h
    · exact Or.inl h

/-- What is preferred at the end of a step of a tick was preferred before, or voted for. -/
theorem preferred_ticking (h : SignerInv L props s) {a : Snowballer.Action} {snb : Snowballer A}
    (htick : a.inTick = true) (hsnb : s.snb.act L a = some snb)
    (hcp : snb.snowball.preferred.bind (·.checkpoint) = some cp) : props s.snb.height cp := by
  cases a with
  | storeAbr | start => cases htick
  | respond =>
    rw [SnowballerLoop.snowball_respond hsnb] at hcp
    exact h.preferred cp hcp
  | look =>
    rw [SnowballerLoop.snowball_look hsnb] at hcp
    exact h.preferred cp hcp
  | tick orders =>
    obtain ⟨-, rfl⟩ := SnowballerLoop.tick_eq_some hsnb
    obtain ⟨v, hv, hvcp⟩ := Option.bind_eq_some_iff.mp hcp
    rcases Snowball.preferred_tick hv with hpref | hmem | hlast
    · refine h.preferred cp ?_
      rw [WholeSigner.decision, hpref]
      exact hvcp
    · refine forall_calculateTallies (P := props s.snb.height) ?_ v hmem cp hvcp
      intro w hw
      rcases List.mem_append.mp hw with hw | hw
      · exact h.carried.votes w hw
      · rw [(List.mem_replicate.mp hw).2]
        exact Vote.for_nil _
    · obtain ⟨cp', hcp', hprops⟩ := h.carried.snowball.last v hlast
      obtain rfl := Option.some.inj (hvcp.symm.trans hcp')
      exact hprops

/-- **Every step of a signer keeps it**, if what it proposes and what it is answered are in. -/
theorem SignerInv.step {E : Env} {cfg : SnowballConfig A} (hL : E.L.Faithful)
    (h : SignerInv E.L props s) (hlinked : s.Linked E.L) (hlinked' : s'.Linked E.L)
    (hordered : Ordered E.L s.traced.node) (hstep : WholeSigner.Step E cfg s a s')
    (hpropose : ∀ cp, proposal s a = some cp → props s.snb.height cp)
    (hrespond : ∀ cp, a = .ticking (.respond cp) → cp.addBlockRequests ≠ [] →
      props s.snb.height cp) : SignerInv E.L props s' := by
  have hcarried : s'.Carried (proposed E.L props) :=
    h.carried.step hlinked hlinked' hstep hrespond fun _ _ _ _ hcheck => hcheck
  obtain ⟨decided, hdurable, hdecided⟩ := h.durable
  cases hstep with
  | event hext hn =>
    refine ⟨hcarried, h.preferred, decided, ?_, hdecided⟩
    have hhistory : Durable E.L s.traced.node { s.traced.history with decided }.decided := hdurable
    have hnext := hhistory.step hL hn
    rwa [decided_record_external hext] at hnext
  | start order =>
    refine ⟨hcarried, ?_, decided, ?_, hdecided⟩
    · intro cp hcp
      rw [(WholeSigner.start_frame E.L s.snb order).2.2]
      rcases decision_start hcp with hold | hnew
      · exact h.preferred cp hold
      · exact hpropose cp hnew
    · have hhistory : Durable E.L s.traced.node { s.traced.history with decided }.decided :=
        hdurable
      exact hhistory.step (e := .startSnowball) hL rfl
  | ticking htick hsnb =>
    refine ⟨hcarried, ?_, decided, hdurable, hdecided⟩
    intro cp hcp
    rw [(WholeSigner.ticking_frame htick hsnb).2.2.1]
    exact preferred_ticking h htick hsnb hcp
  | send => exact ⟨hcarried, h.preferred, decided, hdurable, hdecided⟩
  | @receive cp n hmail hcp hdone =>
    refine ⟨hcarried, (fun cp hcp => by cases hcp), _,
      hdurable.handleSnowballerDone hL hdone, forall_getElem?_concat hdecided ?_⟩
    rw [← hdurable.height, ← hlinked.height]
    exact h.preferred cp hcp
  | crash hn =>
    refine ⟨hcarried, (fun cp hcp => by cases hcp), _, hdurable.crash hordered hn, ?_⟩
    exact fun k d hd => hdecided k d (getElem?_of_take hd)

/-- **A signer answers with nothing, or with what goes back to a proposal.** -/
theorem SignerInv.answer (hL : L.Faithful) (h : SignerInv L props s) (hlinked : s.Linked L)
    (height : Nat) :
    (s.answer L height).addBlockRequests = [] ∨ props height (s.answer L height) := by
  unfold WholeSigner.answer
  split
  · next hheight =>
    cases hcp : s.decision with
    | none => exact Or.inl rfl
    | some cp =>
      right
      rw [hheight, ← hlinked.height]
      exact h.preferred cp hcp
  · next hheight =>
    obtain ⟨decided, hdurable, hdecided⟩ := h.durable
    obtain ⟨hstable, hfound⟩ := hdurable.stable.get hL height
    unfold Node.handleStream
    rw [if_neg hheight]
    simp only []
    cases hp : (s.traced.node.get L height).1 with
    | none => exact Or.inl rfl
    | some p =>
      obtain ⟨r, hr, rfl⟩ := hfound p hp
      obtain ⟨d, hd, hpref⟩ := (hstable.rounds r (List.mem_of_getElem? hr)).1.checkpoint
      right
      simp only [Option.bind_some, hr, Option.map_some, Option.getD_some]
      rw [hpref]
      exact hdecided _ d (getElem?_of_take hd)

/-! ## Runs of the network -/

variable {sign : Nat → Bytes → Except Fault Signature} {cfg : SnowballConfig A}
  {net net' : SignerNetwork A}

/-- The steps, by the signer that takes one. -/
inductive Step (L : Ipld) (sign : Nat → Bytes → Except Fault Signature) (cfg : SnowballConfig A)
    (net : SignerNetwork A) : Action → SignerNetwork A → Prop where
  | own {i : Nat} {a : WholeSigner.Action} {s : WholeSigner A} (hitself : byItself a = true)
      (hact : WholeSigner.act ⟨L, sign i⟩ cfg (net.signers i) a = some s) :
      Step L sign cfg net (.own i a)
        { signers := Function.update net.signers i s
          answers := if sameTick a then net.answers else Function.update net.answers i []
          proposals := net.proposals ++ (proposal (net.signers i) a).toList.map (i, ·) }
  | ask {i j : Nat} {s : WholeSigner A}
      (hact : WholeSigner.act ⟨L, sign j⟩ cfg (net.signers j)
        (.event (.stream (net.signers i).snb.height)) = some s) :
      Step L sign cfg net (.ask i j)
        { net with
          signers := Function.update net.signers j s
          answers := Function.update net.answers i (net.answers i ++
            [(net.signers j).answer L (net.signers i).snb.height]) }
  | deliver {i pos : Nat} {cp : Checkpoint} {s : WholeSigner A}
      (hcp : (net.answers i)[pos]? = some cp)
      (hact : WholeSigner.act ⟨L, sign i⟩ cfg (net.signers i) (.ticking (.respond cp)) = some s) :
      Step L sign cfg net (.deliver i pos)
        { net with
          signers := Function.update net.signers i s
          answers := Function.update net.answers i ((net.answers i).eraseIdx pos) }

theorem step_of_act {a : Action} (h : act L sign cfg net a = some net') :
    Step L sign cfg net a net' := by
  cases a with
  | own i a =>
    rw [act] at h
    split at h
    · next hitself =>
      obtain ⟨s, hs, rfl⟩ := Option.map_eq_some_iff.mp h
      exact .own hitself hs
    · cases h
  | ask i j =>
    rw [act] at h
    obtain ⟨s, hs, rfl⟩ := Option.map_eq_some_iff.mp h
    exact .ask hs
  | deliver i pos =>
    obtain ⟨cp, hcp, h⟩ := Option.bind_eq_some_iff.mp h
    obtain ⟨s, hs, h⟩ := Option.bind_eq_some_iff.mp h
    obtain rfl := Option.some.inj h
    exact .deliver hcp hs

/-- Every signer of the network runs as a whole signer by itself. -/
theorem reach_signer (h : (system L sign cfg).Reach inOrder net) (i : Nat) :
    (WholeSigner.system ⟨L, sign i⟩ cfg).Reach (WholeSigner.lifted Tupelo.inOrder)
      (net.signers i) := by
  revert i
  induction h with
  | start => exact fun i => .start
  | step a _ hok hact ih =>
    have hmoved := fun signers j s => (Function.forall_update_iff signers (a := j) (b := s)
      fun k => (WholeSigner.system ⟨L, sign k⟩ cfg).Reach (WholeSigner.lifted Tupelo.inOrder)).mpr
    cases step_of_act hact with
    | own hitself hs => exact hmoved _ _ _ ⟨(ih _).step _ hok hs, fun k _ => ih k⟩
    | ask hs => exact hmoved _ _ _ ⟨(ih _).step (.event (.stream _)) rfl hs, fun k _ => ih k⟩
    | @deliver _ _ cp _ hcp hs =>
      exact hmoved _ _ _ ⟨(ih _).step (.ticking (.respond cp)) rfl hs, fun k _ => ih k⟩

/-- **Everything goes back to proposals.** -/
structure Inv (L : Ipld) (net : SignerNetwork A) : Prop where
  signers : ∀ i, SignerInv L net.Proposed (net.signers i)
  answers : ∀ i, ∀ cp ∈ net.answers i,
    cp.addBlockRequests = [] ∨ net.Proposed (net.signers i).snb.height cp

/-- The snowballer stays at its height as long as it is in one tick. -/
theorem height_of_sameTick {E : Env} (hsame : sameTick a = true)
    (hstep : WholeSigner.Step E cfg s a s') : s'.snb.height = s.snb.height := by
  cases hstep with
  | event => rfl
  | start order => exact (WholeSigner.start_frame E.L s.snb order).2.2
  | ticking htick hsnb => exact (WholeSigner.ticking_frame htick hsnb).2.2.1
  | send => rfl
  | receive | crash => cases hsame

theorem proposed_own (net : SignerNetwork A) (i : Nat) (a : WholeSigner.Action)
    (signers : Nat → WholeSigner A) (answers : Nat → List Checkpoint) (k : Nat) (cp : Checkpoint)
    (h : net.Proposed k cp) :
    Proposed { signers, answers
               proposals := net.proposals ++ (proposal (net.signers i) a).toList.map (i, ·) }
      k cp := by
  obtain ⟨hheight, j, hj⟩ := h
  exact ⟨hheight, j, List.mem_append_left _ hj⟩

theorem height_proposal (h : proposal s a = some cp) : cp.height = s.snb.height := by
  unfold proposal at h
  split at h
  · simp only [] at h
    split at h
    · rw [← Option.some.inj h]
    · cases h
  · cases h

/-- The answers of a tick, when one signer has moved within its tick and one has got others. -/
theorem Inv.answers_update (h : Inv L net) {i j : Nat} (hheight : s.snb.height =
      (net.signers j).snb.height) {answers : List Checkpoint}
    (hanswers : ∀ cp ∈ answers, cp ∈ net.answers i ∨ cp.addBlockRequests = [] ∨
      net.Proposed (net.signers i).snb.height cp) :
    ∀ k, ∀ cp ∈ Function.update net.answers i answers k, cp.addBlockRequests = [] ∨
      net.Proposed (Function.update net.signers j s k).snb.height cp := by
  have hheights : ∀ k, (Function.update net.signers j s k).snb.height =
      (net.signers k).snb.height :=
    (Function.forall_update_iff net.signers fun k s =>
      s.snb.height = (net.signers k).snb.height).mpr ⟨hheight, fun _ _ => rfl⟩
  intro k cp hcp
  rw [hheights]
  by_cases hk : k = i
  · subst hk
    rw [Function.update_self] at hcp
    exact (hanswers cp hcp).elim (h.answers k cp) id
  · rw [Function.update_of_ne hk] at hcp
    exact h.answers k cp hcp

theorem inv_step (hL : L.Faithful) (hreach : (system L sign cfg).Reach inOrder net)
    (h : Inv L net) {a : Action} (hok : inOrder net a = true)
    (hact : act L sign cfg net a = some net') : Inv L net' := by
  have hrun := reach_signer hreach
  have hlinked := fun i => (WholeSigner.linked_reach hL (hrun i)).1
  have hordered := fun i => ordered_reach hL (WholeSigner.reach_traced hL (hrun i))
  cases step_of_act hact with
  | @own i a s hitself hs =>
    have hstep := WholeSigner.step_of_act hs
    have hs' := (WholeSigner.linked_reach hL ((hrun i).step a hok hs)).1
    have hmono := proposed_own net i a (Function.update net.signers i s)
      (if sameTick a then net.answers else Function.update net.answers i [])
    refine ⟨(Function.forall_update_iff _ fun _ => SignerInv L _).mpr
      ⟨?_, fun k _ => (h.signers k).mono hmono⟩, ?_⟩
    · refine ((h.signers i).mono hmono).step hL (hlinked i) hs' (hordered i) hstep ?_ ?_
      · intro cp hcp
        refine ⟨height_proposal hcp, i, List.mem_append_right _ ?_⟩
        rw [hcp]
        exact List.mem_singleton_self _
      · rintro cp rfl
        cases hitself
    · intro k cp hcp
      simp only [] at hcp
      by_cases hk : k = i
      · subst hk
        simp only [Function.update_self]
        split at hcp
        · next hsame =>
          rw [height_of_sameTick hsame hstep]
          exact (h.answers k cp hcp).imp_right (hmono _ cp)
        · rw [Function.update_self] at hcp
          cases hcp
      · simp only [Function.update_of_ne hk]
        refine (h.answers k cp ?_).imp_right (hmono _ cp)
        split at hcp
        · exact hcp
        · rwa [Function.update_of_ne hk] at hcp
  | @ask i j s hs =>
    have hstep := WholeSigner.step_of_act hs
    have hs' := (WholeSigner.linked_reach hL ((hrun j).step (.event (.stream _)) rfl hs)).1
    refine ⟨(Function.forall_update_iff _ fun _ => SignerInv L _).mpr
      ⟨?_, fun k _ => h.signers k⟩,
      h.answers_update (height_of_sameTick rfl hstep) ?_⟩
    · exact (h.signers j).step hL (hlinked j) hs' (hordered j) hstep (fun cp hcp => by cases hcp)
        fun cp hcp => by cases hcp
    · intro cp hcp
      rcases List.mem_append.mp hcp with hold | hnew
      · exact Or.inl hold
      · rw [List.mem_singleton.mp hnew]
        exact Or.inr ((h.signers j).answer hL (hlinked j) _)
  | @deliver i pos cp s hcp hs =>
    have hstep := WholeSigner.step_of_act hs
    have hs' := (WholeSigner.linked_reach hL ((hrun i).step (.ticking (.respond cp)) rfl hs)).1
    have hanswer := h.answers i cp (List.mem_of_getElem? hcp)
    refine ⟨(Function.forall_update_iff _ fun _ => SignerInv L _).mpr
      ⟨?_, fun k _ => h.signers k⟩,
      h.answers_update (height_of_sameTick rfl hstep)
        fun cp' hcp' => Or.inl (List.mem_of_mem_eraseIdx hcp')⟩
    refine (h.signers i).step hL (hlinked i) hs' (hordered i) hstep (fun cp hcp => by cases hcp) ?_
    rintro cp' heq hne
    cases heq
    exact hanswer.resolve_left hne

theorem inv_reach (hL : L.Faithful) (h : (system L sign cfg).Reach inOrder net) : Inv L net := by
  induction h with
  | start =>
    exact ⟨fun i => signerInv_start L (sign i) cfg _, fun i cp hcp => by cases hcp⟩
  | step a hs hok hact ih => exact inv_step hL hs ih hok hact

/-- A round in the memory of a signer was decided on a proposal for its height. -/
theorem Inv.of_heap (h : Inv L net) {i : Nat} {r : PastRound}
    (hr : r ∈ (net.signers i).traced.node.heap) : net.Proposed r.height r.preferred := by
  obtain ⟨decided, hdurable, hdecided⟩ := (h.signers i).durable
  obtain ⟨d, hd, hpref⟩ := (hdurable.stable.rounds r hr).1.checkpoint
  rw [hpref]
  exact hdecided _ d (getElem?_of_take hd)

/--
**What is decided has been proposed.**

In every run of a network of signers, with answers that come late or get lost and with crashes:
a round that a signer has decided, or has restored, has a checkpoint that some signer proposed
for the height of this round. If all proposals for a height are one checkpoint, all signers that
decide the height decide on it.
-/
theorem decided_was_proposed (hL : L.Faithful) (h : (system L sign cfg).Reach inOrder net) :
    (∀ i, ∀ r ∈ (net.signers i).traced.node.heap, r.preferred.height = r.height ∧
      ∃ j, (j, r.preferred) ∈ net.proposals) ∧
    (∀ i cp, (net.signers i).mailbox ≠ 0 → (net.signers i).decision = some cp →
      cp.height = (net.signers i).traced.node.current.height ∧ ∃ j, (j, cp) ∈ net.proposals) ∧
    ∀ height cp, (∀ p ∈ net.proposals, p.2.height = height → p.2 = cp) →
      ∀ i, ∀ r ∈ (net.signers i).traced.node.heap, r.height = height → r.preferred = cp := by
  have hinv := inv_reach hL h
  refine ⟨fun i r hr => hinv.of_heap hr, ?_, ?_⟩
  · intro i cp _ hcp
    have hlinked := (WholeSigner.linked_reach hL (reach_signer h i)).1
    rw [← hlinked.height]
    exact (hinv.signers i).preferred cp hcp
  · intro height cp hall i r hr hheight
    obtain ⟨hrh, j, hj⟩ := hinv.of_heap hr
    exact hall _ hj (hrh.trans hheight)

/-! ### Three signers with one request -/

namespace Example

open RunExample (abr)
open WholeSigner.Example (config naming)

def network : System (SignerNetwork exactArith) Action :=
  system Ipld.sorted (fun _ => EquivocationExample.env.sign) config

/-- All signers know the request and start; then the first asks the two others, eleven times. -/
def asking : List Action :=
  let begin (i : Nat) : List Action :=
    [.own i (.event (.addBlockRequest (abr 0 1 0) true)), .own i (.start MapOrder.plain)]
  let ask (j : Nat) : List Action :=
    [.ask 0 j, .deliver 0 0] ++ List.replicate 4 (.own 0 (.ticking .look))
  let tick : List Action := ask 1 ++ ask 2 ++ [.own 0 (.ticking (.tick TallyOrders.plain))]
  begin 0 ++ begin 1 ++ begin 2 ++ (List.replicate 11 tick).flatten ++
    [.own 0 .send, .own 0 .receive]

theorem decided_was_proposed_example : ∃ net r,
    network.run inOrder asking = some net ∧ r ∈ (net.signers 0).traced.node.heap ∧
    r.height = 0 ∧ r.preferred = naming (abr 0 1 0) := by
  have hrun : (network.run inOrder asking).map (fun net =>
      ((net.signers 0).traced.node.heap.map (·.height), net.proposals)) =
        some ([0], [(0, naming (abr 0 1 0)), (1, naming (abr 0 1 0)),
          (2, naming (abr 0 1 0))]) := by decide +kernel
  obtain ⟨net, hnet, hv⟩ := Option.map_eq_some_iff.mp hrun
  obtain ⟨hheap, hproposals⟩ := Prod.mk.inj hv
  obtain ⟨r, hr, hheight⟩ := List.mem_map.mp
    (show 0 ∈ (net.signers 0).traced.node.heap.map (·.height) by
      rw [hheap]
      exact List.mem_singleton_self 0)
  have hall : ∀ p ∈ net.proposals, p.2.height = 0 → p.2 = naming (abr 0 1 0) := by
    rw [hproposals]
    decide
  exact ⟨net, r, hnet, hr, hheight, (decided_was_proposed Ipld.sorted_faithful
    (System.reach_of_run hnet)).2.2 0 _ hall 0 r hr hheight⟩

end Example

end SignerNetwork

end Tupelo

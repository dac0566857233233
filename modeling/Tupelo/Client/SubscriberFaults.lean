import Tupelo.Client.SubscriberState
import Tupelo.Panic

/-!
# Messages and stores that fail a subscriber

Confirmations come from an open topic, and what `handleQuorum` fetches may not be there. Two things
can go wrong in `handleMessage`.

The signature of a confirmation, and its ownership, are dereferenced before anything is checked, so
a confirmation without them is a panic; and so is one whose signers count more than there is memory
for. `handleMessage_returns_iff` says that nothing else is: a message that passed validation carries
a key that can be decoded, and so does everything stored.

`handleQuorum` moves `current` before it fetches. `handOver_iff` says that the fetching must not
fail: if it does, the round is not published, and no later confirmation of it is accepted.
-/

namespace Tupelo

open Infra

variable {C : Crypto} {L : Ipld}
variable {conf : RoundConfirmation} {s : Signature}

/-! ## Signatures -/

/-- What is written of a point can be read as one. -/
def Crypto.Readable (C : Crypto) : Prop :=
  ∀ point key, C.marshal point = .ok key → ∃ point', C.unmarshal key = some point'

theorem noPanic_sumVerKeys (verKeys : List (VerKey C)) : NoPanic (sumVerKeys verKeys) := by
  unfold sumVerKeys
  simp only []
  split
  · exact noPanic_ok _
  · exact noPanic_error _

/--
If `RestoreBLSPublicKey` gets so far, there is memory for the keys, and what it dereferences is
there.
-/
def Signature.Restorable (keys : List (VerKey C)) (room : Option Nat) (s : Signature) : Prop :=
  keys.length = s.signers.length →
    (∀ n ∈ room, s.pointers ≤ n) ∧
      ((∃ key, sumVerKeys (expandSigners s.signers keys) = .ok key) →
        ∃ ownership, s.ownership = some ownership)

theorem noPanic_restoreBLSPublicKey {keys : List (VerKey C)} {room : Option Nat} :
    NoPanic (restoreBLSPublicKey s keys room) ↔ s.Restorable keys room := by
  unfold restoreBLSPublicKey Signature.Restorable
  simp only []
  by_cases hlen : keys.length = s.signers.length
  · have hroom : room.any (· < s.pointers) = true ↔ ¬ ∀ n ∈ room, s.pointers ≤ n := by
      cases room <;> simp
    rw [if_neg (not_not.mpr hlen)]
    split
    · next hout => exact iff_of_false (by simp) fun h => hroom.mp hout (h hlen).1
    · next hin =>
      rw [noPanic_bind]
      simp only [noPanic_wrapErr, noPanic_sumVerKeys, wrapErr_eq_ok, noPanic_bind, noPanic_deref,
        noPanic_pure, implies_true, and_true, true_and, hlen, forall_const, forall_exists_index]
      exact (and_iff_right (not_not.mp (mt hroom.mpr hin))).symm
  · rw [if_pos hlen]
    simp [hlen]

/-- The checks of a confirmation have what they need of it. -/
def RoundConfirmation.Complete (keys : List (VerKey C)) (room : Option Nat)
    (conf : RoundConfirmation) : Prop :=
  ∃ sig, conf.signature = some sig ∧ sig.Restorable keys room

/-- A restored key is one that was written. -/
theorem hasKey_of_restored (hC : C.Readable) {keys : List (VerKey C)} {room : Option Nat}
    {s' : Signature} (h : restoreBLSPublicKey s keys room = .ok s') :
    ∃ point, s'.HasKey C point := by
  obtain ⟨-, ownership, key, -, hkey, rfl⟩ := restoreBLSPublicKey_eq h
  obtain ⟨point, hpoint⟩ := hC _ _ (sumVerKeys_ok hkey).1
  exact ⟨point, _, _, rfl, rfl, hpoint⟩

theorem noPanic_validConditions (run : Script) (s : Signature) (ownership : Ownership) :
    NoPanic (validConditions run s ownership) := by
  unfold validConditions
  split
  · exact noPanic_ok _
  · split
    · exact noPanic_ok _
    · exact noPanic_error _

/-- A signature that carries a BLS key is checked without a panic. -/
theorem Signature.HasKey.noPanic_valid {point : C.Point} (h : s.HasKey C point) (run : Script)
    (hsh : Bytes) : NoPanic (valid C run s hsh) := by
  obtain ⟨ownership, key, hown, hkey, hpoint⟩ := h
  unfold valid
  simp only [hown, hkey, deref, ok_bind]
  refine Avoids.ite (fun _ => noPanic_error _) fun _ => NoPanic.bind ?_ fun conditionsValid _ => ?_
  · exact noPanic_wrapErr.mpr (noPanic_validConditions run s ownership)
  · refine Avoids.ite (fun _ => noPanic_pure _) fun _ => ?_
    simp [bytesToVerKey, hpoint]

theorem noPanic_addSigners : ∀ es cs : List UInt32, NoPanic (addSigners es cs)
  | [], _ => noPanic_ok _
  | _ :: _, [] => noPanic_ok _
  | e :: es, c :: cs => by
    rw [addSigners]
    refine Avoids.ite (fun _ => noPanic_error _) fun _ => ?_
    exact (noPanic_addSigners es cs).bind fun _ _ => noPanic_pure _

theorem Signature.HasKey.noPanic_aggregateOne {point : C.Point} (h : s.HasKey C point) (n : Nat)
    (acc : Aggregate C) : NoPanic (Tupelo.aggregateOne n acc s) := by
  obtain ⟨ownership, key, hown, hkey, hpoint⟩ := h
  unfold Tupelo.aggregateOne
  simp only [hown, hkey, deref, ok_bind, ne_eq, not_true_eq_false, if_false, bytesToVerKey, hpoint]
  refine Avoids.ite (fun _ => noPanic_error _) fun _ => ?_
  exact (noPanic_addSigners _ _).bind fun _ _ => noPanic_pure _

theorem noPanic_aggregateBLSSignatures {a b : Signature} {p q : C.Point} (ha : a.HasKey C p)
    (hb : b.HasKey C q) : NoPanic (aggregateBLSSignatures C [a, b]) := by
  unfold aggregateBLSSignatures
  simp only [List.head?_cons, deref, ok_bind]
  refine NoPanic.bind ?_ fun acc _ => NoPanic.bind ?_ fun _ _ => NoPanic.bind ?_ fun _ _ =>
    noPanic_pure _
  · refine Avoids.foldlM fun acc s hs => ?_
    rcases List.mem_pair.mp hs with rfl | rfl
    · exact ha.noPanic_aggregateOne _ acc
    · exact hb.noPanic_aggregateOne _ acc
  · rw [noPanic_wrapErr, sumSignatures]
    cases C.aggregateSignatures acc.sigsToAggregate with
    | ok sum => exact noPanic_ok sum
    | error e => exact noPanic_error e
  · exact noPanic_wrapErr.mpr (noPanic_sumVerKeys _)

/-! ## What is fetched -/

theorem DagStore.noPanic_get (store : DagStore) (c : Cid) : NoPanic (store.get c) := by
  unfold DagStore.get
  split
  · exact noPanic_ok _
  · exact noPanic_error _

theorem DagNode.noPanic_asRound (x : DagNode) : NoPanic x.asRound := by
  cases x <;> first | exact noPanic_ok _ | exact noPanic_error _

theorem DagNode.noPanic_asCheckpoint (x : DagNode) : NoPanic x.asCheckpoint := by
  cases x <;> first | exact noPanic_ok _ | exact noPanic_error _

namespace RoundSubscriber

theorem noPanic_notification (L : Ipld) (store : DagStore) (conf : RoundConfirmation) :
    NoPanic (notification L store conf) := by
  refine NoPanic.bind (noPanic_wrapErr.mpr ?_) fun completedRound _ =>
    NoPanic.bind (noPanic_wrapErr.mpr ?_) fun checkpoint _ => NoPanic.bind ?_ fun _ _ =>
      noPanic_pure _
  · exact (noPanic_wrapErr.mpr (L.noPanic_cast _)).bind fun c _ =>
      (noPanic_wrapErr.mpr (store.noPanic_get c)).bind fun x _ =>
        noPanic_wrapErr.mpr x.noPanic_asRound
  · exact (noPanic_wrapErr.mpr (L.noPanic_cast _)).bind fun c _ =>
      (noPanic_wrapErr.mpr (store.noPanic_get c)).bind fun x _ =>
        noPanic_wrapErr.mpr x.noPanic_asCheckpoint
  · exact Avoids.mapM fun b _ => noPanic_wrapErr.mpr (L.noPanic_cast b)

/-! ## Messages that are not complete -/

variable {rs : RoundSubscriber C} {d : Delivery} {keys : List (VerKey C)} {room : Option Nat}

/-- The confirmation carries a key that can be decoded. -/
def Keyed (C : Crypto) (conf : RoundConfirmation) : Prop :=
  ∃ sig point, conf.signature = some sig ∧ sig.HasKey C point

theorem aggregates_keyed (hC : C.Readable) : Aggregates C (Keyed C) := by
  rintro existing conf existingSig sig newSig - - - - - - hnew
  obtain ⟨p, q, key, hagg⟩ := aggregateBLSSignatures_pair hnew
  obtain ⟨point, hpoint⟩ := hC _ _ hagg.marshal
  exact ⟨newSig, point, rfl, _, key, hagg.ownership, rfl, hpoint⟩

theorem keyed_of_validated (hC : C.Readable) {sig sig' : Signature}
    (h : Validated keys d conf sig sig') : Keyed C conf := by
  obtain ⟨point, hpoint⟩ := hasKey_of_restored hC h.restored
  exact ⟨sig', point, h.signature, hpoint⟩

/-- **Adding does not panic** where everything stored carries a key. -/
theorem noPanic_add (hinv : rs.Inv L (Keyed C)) (hconf : Keyed C conf) :
    NoPanic (RoundConflictSet.add L rs.group (rs.conflictSet conf.height) conf) := by
  obtain ⟨sig, q, hsig, hq⟩ := hconf
  unfold RoundConflictSet.add
  refine (noPanic_wrapErr.mpr (L.noPanic_cast _)).bind fun cid _ => ?_
  rw [hsig]
  simp only [deref, ok_bind]
  split
  · exact noPanic_pure _
  · next existing hl =>
    obtain ⟨-, -, existingSig, p, hes, hp⟩ := hinv.stored (stored_iff.mpr hl)
    rw [hes]
    exact (noPanic_aggregateBLSSignatures hp hq).bind fun _ _ => noPanic_pure _

theorem noPanic_checkHeight (rs : RoundSubscriber C) (height : Nat) :
    NoPanic (rs.checkHeight height) := by
  unfold checkHeight
  split
  · exact noPanic_ok _
  · exact Avoids.ite (fun _ => noPanic_error _) fun _ => noPanic_ok _

theorem checkHeight_eq_ok {height : Nat} :
    rs.checkHeight height = .ok () ↔ ∀ cur, rs.current = some cur → cur.height < height := by
  constructor
  · exact checkHeight_ok
  · intro habove
    unfold checkHeight
    split
    · rfl
    · next cur hcur => rw [if_neg (not_le.mpr (habove cur hcur))]

/-- **The checks panic** exactly at a confirmation above `current` that is not complete. -/
theorem noPanic_validate (hC : C.Readable) (hkeys : rs.group.verKeys = .ok keys) :
    NoPanic (rs.validate d room) ↔ ∀ conf, d.msg = .ok conf →
      (∀ cur, rs.current = some cur → cur.height < conf.height) → conf.Complete keys room := by
  unfold validate
  cases hmsg : d.msg with
  | error e =>
    rw [noPanic_bind, noPanic_wrapErr]
    simp [wrapErr_eq_ok]
  | ok conf =>
    simp only [mapError_ok, wrapErr_ok, ok_bind, Except.ok.injEq, forall_eq']
    rw [noPanic_bind, hkeys, ← checkHeight_eq_ok]
    simp only [noPanic_checkHeight, true_and, ok_bind]
    refine Unique.forall_iff.trans (forall_congr' fun _ => ?_)
    unfold RoundConfirmation.Complete
    cases conf.signature with
    | none =>
      rw [noPanic_bind]
      simp [deref]
    | some sig =>
      rw [noPanic_bind]
      simp only [deref, noPanic_ok, true_and, Except.ok.injEq, forall_eq', Option.some.injEq,
        exists_eq_left']
      rw [noPanic_bind, noPanic_wrapErr, noPanic_restoreBLSPublicKey]
      refine and_iff_left fun sig' hsig' => NoPanic.bind ?_ fun _ _ => ?_
      · obtain ⟨point, hpoint⟩ := hasKey_of_restored hC (wrapErr_eq_ok.mp hsig')
        exact noPanic_wrapErr.mpr (hpoint.noPanic_valid d.run conf.roundCid)
      · exact Avoids.ite (fun _ => noPanic_error _) fun _ => noPanic_pure _

/-- Past the checks there is no panic. -/
theorem noPanic_handleMessage (hC : C.Readable) (hinv : rs.Inv L (Keyed C)) :
    NoPanic (rs.handleMessage L d room).2 ↔ NoPanic (rs.validate d room) := by
  unfold handleMessage
  cases hv : rs.validate d room with
  | error f => exact noPanic_fault.trans noPanic_fault.symm
  | ok conf =>
    obtain ⟨-, keys, sig, sig', -, hvalidated⟩ := validate_ok (validate_of_room hv)
    have hadd := noPanic_add hinv (keyed_of_validated hC hvalidated)
    simp only [noPanic_ok, iff_true]
    cases ha : RoundConflictSet.add L rs.group (rs.conflictSet conf.height) conf with
    | error f =>
      rw [ha] at hadd
      exact noPanic_wrapErr.mpr (noPanic_fault.mpr (noPanic_fault.mp hadd))
    | ok added =>
      simp only []
      split
      · refine noPanic_wrapErr.mpr ?_
        have hn := noPanic_notification L d.store added.updated
        unfold handleQuorum
        cases hnote : notification L d.store added.updated with
        | ok n => exact noPanic_ok ()
        | error f =>
          rw [hnote] at hn
          exact noPanic_fault.mpr (noPanic_fault.mp hn)
      · exact noPanic_ok ()

theorem inv_keyed (hC : C.Readable) (L : Ipld) (group : NotaryGroup C) (ds : List Delivery) :
    ((new group).deliver L ds).Inv L (Keyed C) := by
  refine inv_deliver (aggregates_keyed hC) ds _ (inv_new _ group) ?_
  intro d _ keys conf sig sig' _ hv
  exact keyed_of_validated hC hv

/--
**When a message can be handled without a panic**, by a subscriber that has handled whatever
messages: a confirmation above `current` has a signature, and unless the signers are not as many as
the keys, there is memory for as many pointers as the signers count, and an ownership if the keys
can be added. A message that is rejected before it is added changes nothing.
-/
theorem handleMessage_returns_iff (hC : C.Readable) (L : Ipld) {group : NotaryGroup C}
    {keys : List (VerKey C)} (hkeys : group.verKeys = .ok keys) (ds : List Delivery)
    (d : Delivery) (room : Option Nat) :
    let rs := (new group).deliver L ds
    (NoPanic (rs.handleMessage L d room).2 ↔ ∀ conf, d.msg = .ok conf →
      (∀ cur, rs.current = some cur → cur.height < conf.height) → conf.Complete keys room) ∧
    (rs.accepts L d room = none → (rs.handleMessage L d room).1.current = rs.current ∧
      (rs.handleMessage L d room).1.inflight = rs.inflight) := by
  intro rs
  have hgroup : rs.group = group := deliver_group ds (new group)
  refine ⟨?_, ?_⟩
  · rw [noPanic_handleMessage hC (inv_keyed hC L group ds), noPanic_validate hC (hgroup ▸ hkeys)]
  · intro hrejected
    rcases handleMessage_cases L rs d room with ⟨-, h⟩ | ⟨conf, added, haccepts, -⟩
    · rw [h]
      exact ⟨rfl, rfl⟩
    · cases hrejected.symm.trans haccepts

/-! ## A quorum whose round cannot be fetched -/

/-- A message is rejected or its confirmation is filed; what was stored stays unless it advances. -/
theorem handleMessage_error {f : Fault} (h : (rs.handleMessage L d).2 = .error f) :
    (rs.accepts L d = none ∧ (rs.handleMessage L d).1 = rs) ∨
      ∃ conf added, rs.validate d = .ok conf ∧
        RoundConflictSet.add L rs.group (rs.conflictSet conf.height) conf = .ok added ∧
        added.makesQuorum = true ∧ ∃ f', notification L d.store added.updated = .error f' := by
  unfold handleMessage accepts at *
  cases hv : rs.validate d with
  | error _ => exact Or.inl ⟨rfl, rfl⟩
  | ok conf =>
    simp only [hv] at h ⊢
    cases ha : RoundConflictSet.add L rs.group (rs.conflictSet conf.height) conf with
    | error _ => exact Or.inl ⟨rfl, rfl⟩
    | ok added =>
      simp only [ha] at h
      refine Or.inr ⟨conf, added, rfl, ha, ?_⟩
      cases hq : added.makesQuorum with
      | false =>
        simp only [hq, Bool.false_eq_true, if_false] at h
        cases h
      | true =>
        refine ⟨rfl, ?_⟩
        simp only [hq, if_true] at h
        unfold handleQuorum at h
        cases hn : notification L d.store added.updated with
        | ok n =>
          rw [hn] at h
          cases h
        | error f' => exact ⟨f', rfl⟩

/-- The fetching succeeds if the message makes a quorum. -/
def Fetchable (L : Ipld) (rs : RoundSubscriber C) (d : Delivery) : Prop :=
  ∀ conf added, rs.validate d = .ok conf →
    RoundConflictSet.add L rs.group (rs.conflictSet conf.height) conf = .ok added →
    added.makesQuorum = true → ∃ n, notification L d.store added.updated = .ok n

/-- A quorum whose round cannot be fetched becomes `current` nonetheless. -/
theorem handleMessage_of_notification_error {added : Added} {f : Fault}
    (hv : rs.validate d = .ok conf)
    (ha : RoundConflictSet.add L rs.group (rs.conflictSet conf.height) conf = .ok added)
    (hq : added.makesQuorum = true) (hn : notification L d.store added.updated = .error f) :
    (∃ f', (rs.handleMessage L d).2 = .error f') ∧
      (rs.handleMessage L d).1.current = some added.updated := by
  unfold handleMessage
  simp only [hv, ha, hq, if_true]
  unfold handleQuorum
  rw [hn]
  refine ⟨?_, rfl⟩
  cases f with
  | error msg => exact ⟨_, rfl⟩
  | coded code memo => exact ⟨_, rfl⟩
  | panic msg => exact ⟨_, rfl⟩

/-- `current` changes only at a quorum, and is then published with what was fetched for it. -/
theorem published_of_current_ne (hfetch : rs.Fetchable L d)
    (h : (rs.handleMessage L d).1.current ≠ rs.current) :
    ∃ n, (rs.handleMessage L d).1.stream = rs.stream ++ [n] ∧
      (rs.handleMessage L d).1.current = some n.roundConfirmation := by
  rcases handleMessage_cases L rs d with ⟨-, heq⟩ | ⟨conf, added, -, hv, ha, ⟨-, heq⟩ | ⟨hq, heq⟩⟩
  · rw [heq] at h
    exact absurd rfl h
  · rw [heq] at h
    exact absurd rfl h
  · obtain ⟨n, hn⟩ := hfetch conf added hv ha hq
    refine ⟨n, ?_, ?_⟩
    · rw [heq, published, hn]
      rfl
    · rw [heq, (notification_ok hn).1]
      rfl

/--
**When a failed hand-over changes nothing.** A message that is answered with an error leaves
`current` and all that was collected, and `current` moves only together with the publication of its
round, exactly if what a quorum names can be fetched.
-/
theorem handOver_iff (L : Ipld) (group : NotaryGroup C) (ds : List Delivery) (d : Delivery) :
    let rs := (new group).deliver L ds
    ((∀ f, (rs.handleMessage L d).2 = .error f →
        (rs.handleMessage L d).1.current = rs.current ∧
        ∀ height cid conf, rs.Stored height cid conf →
          (rs.handleMessage L d).1.Stored height cid conf) ∧
      ((rs.handleMessage L d).1.current ≠ rs.current →
        ∃ n, (rs.handleMessage L d).1.stream = rs.stream ++ [n] ∧
          (rs.handleMessage L d).1.current = some n.roundConfirmation)) ↔
    rs.Fetchable L d := by
  intro rs
  have hinv : rs.Inv L fun _ => True :=
    inv_deliver (aggregates_true C) ds _ (inv_new _ group) fun _ _ _ _ _ _ _ _ => trivial
  constructor
  · rintro ⟨hkeeps, -⟩ conf added hv ha hq
    cases hn : notification L d.store added.updated with
    | ok n => exact ⟨n, rfl⟩
    | error f =>
      -- `current` has moved up
      obtain ⟨⟨f', herror⟩, hcurrent⟩ := handleMessage_of_notification_error hv ha hq hn
      have hsame := (hkeeps f' herror).1
      rw [hcurrent] at hsame
      have habove := (validate_ok hv).1 added.updated hsame.symm
      rw [(added_spec (aggregates_true C) hinv trivial ha).2.1] at habove
      exact absurd habove (lt_irrefl _)
  · intro hfetch
    refine ⟨?_, published_of_current_ne hfetch⟩
    intro f herror
    rcases handleMessage_error herror with ⟨-, h⟩ | ⟨conf, added, hv, ha, hq, f', hn⟩
    · rw [h]
      exact ⟨rfl, fun _ _ _ hc => hc⟩
    · obtain ⟨n, hn'⟩ := hfetch conf added hv ha hq
      cases hn.symm.trans hn'

/-! ### Three signers -/

namespace Example

theorem unary_readable : Crypto.unary.Readable :=
  fun point key h => ⟨point, Crypto.unary_additive.unmarshal_marshal point key h⟩

/-- Two signers one after the other, with memory for three pointers. -/
theorem handleMessage_returns_example :
    NoPanic (((new group).deliver Ipld.inFull [delivery 5 0]).handleMessage Ipld.inFull
      (delivery 5 1) (some 3)).2 := by
  have hkeys : group.verKeys = .ok [⟨List.replicate 2 0, (1 : Nat)⟩,
      ⟨List.replicate 3 0, (2 : Nat)⟩, ⟨List.replicate 5 0, (4 : Nat)⟩] := rfl
  refine ((handleMessage_returns_iff unary_readable Ipld.inFull hkeys
    [delivery 5 0] (delivery 5 1) (some 3)).1).mpr ?_
  intro conf hconf _
  obtain rfl := Except.ok.inj hconf
  exact ⟨_, rfl, fun _ => ⟨by decide, fun _ => ⟨_, rfl⟩⟩⟩

/-- A confirmation without a signature. -/
def unsigned : Delivery where
  msg := .ok { roundCid := [], signature := none, height := 5 }
  run := fun _ _ => .error "no script"
  store := fun _ => none

/-- **A message of two fields is a panic.** -/
theorem handleMessage_panics : ((new group).handleMessage Ipld.inFull unsigned).2 =
    .error (.panic "invalid memory address or nil pointer dereference") := by
  decide +kernel

/-- The message that makes the quorum, where nothing can be fetched. -/
noncomputable def offline : Delivery := { delivery 5 1 with store := fun _ => none }

/-- **A quorum that is never published**: the third confirmation comes when all can be fetched. -/
theorem quorum_lost :
    ((((new group).deliver Ipld.inFull [delivery 5 0]).handleMessage Ipld.inFull offline).2 =
        .error (.error ("error handling quorum: error fetching completed round: " ++
          "error getting node: ipld: node not found"))) ∧
      ((new group).deliver Ipld.inFull [delivery 5 0, offline, delivery 5 2]).stream = [] ∧
      ((new group).deliver Ipld.inFull [delivery 5 0, offline]).inflight.entries = [] := by
  decide +kernel

end Example

end RoundSubscriber

end Tupelo

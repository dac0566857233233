import Tupelo.Infra.GoMap
import Tupelo.Sdk.NotaryGroup
import Tupelo.Sdk.Rounds

/-!
# The round subscriber of a client

The model of `sdk/gossip/client/roundsubscriber.go`.

A client collects the confirmations of signers. Those that name the same round at the same
height are aggregated in a conflict set; when one of them reaches the quorum it becomes
`current`, everything at its height or below is dropped, and a `ValidationNotification` goes to
the subscribers.

`handleMessage` mutates the subscriber before it may fail (`handleQuorum` sets `current` first
and fetches afterwards), so it returns the subscriber next to its error.

The last section is the rule every property of the subscriber is derived from: what holds of
each validated message and survives aggregation holds of all that is stored.
-/

namespace Tupelo

open Infra

/-- `client.ValidationNotification`. -/
structure ValidationNotification where
  accepted : List Cid
  checkpoint : Checkpoint
  roundConfirmation : RoundConfirmation
  completedRound : Round
  deriving DecidableEq, Repr

/-- `roundConflictSet`: the confirmations of one height, by the round they name. -/
abbrev RoundConflictSet := GoMap Cid RoundConfirmation

/-- `conflictSetHolder`: the conflict sets by height. -/
abbrev ConflictSetHolder := GoMap Nat RoundConflictSet

/-- `roundSubscriber`. `stream` is what it has published so far. -/
structure RoundSubscriber (C : Crypto) where
  group : NotaryGroup C
  inflight : ConflictSetHolder
  current : Option RoundConfirmation
  stream : List ValidationNotification

/--
A message together with what the client meets while handling it: the decoded data, the
interpreter for condition scripts (it knows the time) and the DAG store, by what can be
fetched from it in time.
-/
structure Delivery where
  msg : Except String RoundConfirmation
  run : Script
  store : DagStore

/-! ## `roundsubscriber.go` -/

variable {C : Crypto}
variable {conf : RoundConfirmation} {P : RoundConfirmation → Prop} {cid : Cid} {added : Added}
  {height : Nat}

def isQuorum (group : NotaryGroup C) (sig : Signature) : Bool :=
  group.quorumCount ≤ signerCount sig

/-- What `roundConflictSet.add` returns, with the conflict set it leaves. -/
structure Added where
  makesQuorum : Bool
  updated : RoundConfirmation
  conflictSet : RoundConflictSet

def RoundConflictSet.add (L : Ipld) (group : NotaryGroup C) (rcs : RoundConflictSet)
    (confirmation : RoundConfirmation) : Except Fault Added := do
  let cid ← wrapErr "error casting round cid: " (L.cast confirmation.roundCid)
  let sig ← deref confirmation.signature
  match rcs.lookup cid with
  | none =>
    -- the first time this round is seen
    pure { makesQuorum := isQuorum group sig, updated := confirmation
           conflictSet := rcs.insert cid confirmation }
  | some existing =>
    let existingSig ← deref existing.signature
    let newSig ← aggregateBLSSignatures C [existingSig, sig]
    let existing := { existing with signature := some newSig }
    pure { makesQuorum := isQuorum group newSig, updated := existing
           conflictSet := rcs.insert cid existing }

namespace RoundSubscriber

def new (group : NotaryGroup C) : RoundSubscriber C :=
  { group, inflight := ∅, current := none, stream := [] }

/-- `confirmation.Height <= rs.current.Height()`. -/
def checkHeight (rs : RoundSubscriber C) (height : Nat) : Except Fault Unit :=
  match rs.current with
  | none => .ok ()
  | some current =>
    let h := current.height
    if height ≤ h then
      .error (.error s!"confirmation of height {height} is less than current {h}")
    else .ok ()

/-- The checks of `handleMessage`, up to taking the lock. The signature gets its key. -/
def validate (rs : RoundSubscriber C) (d : Delivery) (room : Option Nat := none) :
    Except Fault RoundConfirmation := do
  let confirmation ← wrapErr "error unmarshaling: " (d.msg.mapError Fault.error)
  rs.checkHeight confirmation.height
  let keys ← rs.group.verKeys
  let sig ← deref confirmation.signature
  let sig ← wrapErr "error restoring BLS key: " (restoreBLSPublicKey sig keys room)
  let verified ← wrapErr "signature invalid with error: " (valid C d.run sig confirmation.roundCid)
  if !verified then .error (.error "signature invalid with error: %!w(<nil>)")
  else pure { confirmation with signature := some sig }

/-- `rs.inflight[height]`, or a new conflict set. -/
def conflictSet (rs : RoundSubscriber C) (height : Nat) : RoundConflictSet :=
  (rs.inflight.lookup height).getD ∅

/-- `handleQuorum` up to the fetching: the confirmation becomes `current`. -/
def advance (rs : RoundSubscriber C) (confirmation : RoundConfirmation) : RoundSubscriber C :=
  { rs with
    current := some confirmation
    inflight := GoMap.eraseIf rs.inflight fun key => key ≤ confirmation.height }

/-- What `handleQuorum` fetches for the subscribers. -/
def notification (L : Ipld) (store : DagStore) (confirmation : RoundConfirmation) :
    Except Fault ValidationNotification := do
  let completedRound ←
    wrapErr "error fetching completed round: " (confirmation.fetchCompletedRound L store)
  let checkpoint ← wrapErr "error fetching checkpoint: " (completedRound.fetchCheckpoint L store)
  let accepted ← checkpoint.addBlockRequests.mapM fun b => wrapErr "error casting cid: " (L.cast b)
  pure { accepted, checkpoint, roundConfirmation := confirmation, completedRound }

def handleQuorum (L : Ipld) (store : DagStore) (rs : RoundSubscriber C)
    (confirmation : RoundConfirmation) : RoundSubscriber C × Except Fault Unit :=
  let rs := rs.advance confirmation
  match notification L store confirmation with
  | .ok n => ({ rs with stream := rs.stream ++ [n] }, .ok ())
  | .error f => (rs, .error f)

def handleMessage (L : Ipld) (rs : RoundSubscriber C) (d : Delivery)
    (room : Option Nat := none) : RoundSubscriber C × Except Fault Unit :=
  match rs.validate d room with
  | .error f => (rs, .error f)
  | .ok confirmation =>
    match RoundConflictSet.add L rs.group (rs.conflictSet confirmation.height) confirmation with
    | .error f => (rs, wrapErr "error adding to conflictset: " (.error f))
    | .ok added =>
      let rs := { rs with
        inflight := rs.inflight.insert confirmation.height added.conflictSet }
      if added.makesQuorum then
        let (rs, out) := rs.handleQuorum L d.store added.updated
        (rs, wrapErr "error handling quorum: " out)
      else (rs, .ok ())

/-- The subscriber after a sequence of messages. -/
def deliver (L : Ipld) (rs : RoundSubscriber C) (ds : List Delivery) : RoundSubscriber C :=
  ds.foldl (fun rs d => (rs.handleMessage L d).1) rs

end RoundSubscriber

/-! ## What each step does -/

/-- A message that passed the checks: its signature counts and verifies. -/
structure Validated (keys : List (VerKey C)) (d : Delivery) (conf : RoundConfirmation)
    (sig sig' : Signature) : Prop where
  msg : d.msg = .ok { conf with signature := some sig }
  signature : conf.signature = some sig'
  restored : restoreBLSPublicKey sig keys = .ok sig'
  verified : valid C d.run sig' conf.roundCid = .ok true

namespace RoundSubscriber

variable {L : Ipld} {rs : RoundSubscriber C} {d : Delivery}

theorem checkHeight_ok {u : Unit} (h : rs.checkHeight height = .ok u) :
    ∀ cur, rs.current = some cur → cur.height < height := by
  intro cur hcur
  unfold checkHeight at h
  rw [hcur] at h
  obtain ⟨hlt, -⟩ := guard_eq_ok h
  omega

theorem validate_ok (h : rs.validate d = .ok conf) :
    (∀ cur, rs.current = some cur → cur.height < conf.height) ∧
      ∃ keys sig sig', rs.group.verKeys = .ok keys ∧ Validated keys d conf sig sig' := by
  obtain ⟨confirmation, hmsg, h⟩ := bind_eq_ok.mp h
  obtain ⟨u, hheight, h⟩ := bind_eq_ok.mp h
  obtain ⟨keys, hkeys, h⟩ := bind_eq_ok.mp h
  obtain ⟨sig, hsig, h⟩ := bind_eq_ok.mp h
  obtain ⟨sig', hsig', h⟩ := bind_eq_ok.mp h
  obtain ⟨verified, hver, h⟩ := bind_eq_ok.mp h
  obtain ⟨hv, h⟩ := guard_eq_ok h
  have hconf := pure_eq_ok.mp h
  subst hconf
  rw [wrapErr_eq_ok] at hmsg hsig' hver
  have hverified : verified = true := by simpa using hv
  rw [hverified] at hver
  refine ⟨checkHeight_ok hheight, keys, sig, sig', hkeys, ?_, rfl, hsig', hver⟩
  rw [mapError_eq_ok.mp hmsg, ← deref_eq_ok hsig]

/-- With more memory the checks go the same way. -/
theorem validate_of_room {room : Option Nat} (h : rs.validate d room = .ok conf) :
    rs.validate d = .ok conf := by
  unfold validate at h ⊢
  obtain ⟨confirmation, hmsg, h⟩ := bind_eq_ok.mp h
  obtain ⟨u, hheight, h⟩ := bind_eq_ok.mp h
  obtain ⟨keys, hkeys, h⟩ := bind_eq_ok.mp h
  obtain ⟨sig, hsig, h⟩ := bind_eq_ok.mp h
  obtain ⟨sig', hsig', h⟩ := bind_eq_ok.mp h
  have hrestore := restoreBLSPublicKey_of_room (wrapErr_eq_ok.mp hsig')
  rw [hmsg, ok_bind, hheight, ok_bind, hkeys, ok_bind, hsig, ok_bind, hrestore, wrapErr_ok,
    ok_bind]
  exact h

/-- A message whose signature is valid passes, if it is above `current`. -/
theorem validate_of_valid {keys : List (VerKey C)} {sig sig' : Signature} (hmsg : d.msg = .ok conf)
    (habove : ∀ cur, rs.current = some cur → cur.height < conf.height)
    (hkeys : rs.group.verKeys = .ok keys) (hsig : conf.signature = some sig)
    (hrestore : restoreBLSPublicKey sig keys = .ok sig')
    (hvalid : valid C d.run sig' conf.roundCid = .ok true) :
    rs.validate d = .ok { conf with signature := some sig' } := by
  have hcheck : rs.checkHeight conf.height = .ok () := by
    unfold checkHeight
    cases hcur : rs.current with
    | none => rfl
    | some cur => simp only [if_neg (not_le.mpr (habove cur hcur))]
  unfold validate
  simp only [hmsg, mapError_ok, wrapErr, ok_bind, hcheck, hkeys, hsig, deref, hrestore, hvalid]
  rfl

/-- A message at the height of `current` or below is refused. -/
theorem handleMessage_of_le {cur : RoundConfirmation} (hmsg : d.msg = .ok conf)
    (hcur : rs.current = some cur) (hle : conf.height ≤ cur.height) :
    (rs.handleMessage L d).1 = rs := by
  have hv : ∃ f, rs.validate d = .error f := by
    unfold validate checkHeight
    simp only [hmsg, mapError_ok, wrapErr, ok_bind, hcur, if_pos hle]
    exact ⟨_, rfl⟩
  obtain ⟨f, hv⟩ := hv
  unfold handleMessage
  rw [hv]

end RoundSubscriber

/-- `add` files the confirmation itself, or what it makes of the one that is there. -/
theorem RoundConflictSet.add_ok {L : Ipld} {group : NotaryGroup C} {rcs : RoundConflictSet}
    (h : RoundConflictSet.add L group rcs conf = .ok added) :
    ∃ cid sig, L.cast conf.roundCid = .ok cid ∧ conf.signature = some sig ∧
      added.conflictSet = rcs.insert cid added.updated ∧
      ((rcs.lookup cid = none ∧ added.updated = conf ∧ added.makesQuorum = isQuorum group sig) ∨
        ∃ existing existingSig newSig, rcs.lookup cid = some existing ∧
          existing.signature = some existingSig ∧
          aggregateBLSSignatures C [existingSig, sig] = .ok newSig ∧
          added.updated = { existing with signature := some newSig } ∧
          added.makesQuorum = isQuorum group newSig) := by
  obtain ⟨cid, hcid, h⟩ := bind_eq_ok.mp h
  obtain ⟨sig, hsig, h⟩ := bind_eq_ok.mp h
  rw [wrapErr_eq_ok] at hcid
  have hsig' := deref_eq_ok hsig
  cases hl : rcs.lookup cid with
  | none =>
    rw [hl] at h
    have hadded := pure_eq_ok.mp h
    subst hadded
    exact ⟨cid, sig, hcid, hsig', rfl, Or.inl ⟨hl, rfl, rfl⟩⟩
  | some existing =>
    rw [hl] at h
    obtain ⟨existingSig, hes, h⟩ := bind_eq_ok.mp h
    obtain ⟨newSig, hagg, h⟩ := bind_eq_ok.mp h
    have hadded := pure_eq_ok.mp h
    subst hadded
    exact ⟨cid, sig, hcid, hsig', rfl,
      Or.inr ⟨existing, existingSig, newSig, hl, deref_eq_ok hes, hagg, rfl, rfl⟩⟩

/-- `add` refuses a confirmation that names a CID only if it cannot be added to what is there. -/
theorem RoundConflictSet.add_error {L : Ipld} {group : NotaryGroup C} {rcs : RoundConflictSet}
    {sig : Signature} {f : Fault} (hcid : L.cast conf.roundCid = .ok cid)
    (hsig : conf.signature = some sig) (h : RoundConflictSet.add L group rcs conf = .error f) :
    ∃ existing, rcs.lookup cid = some existing ∧
      ∀ existingSig, existing.signature = some existingSig →
        ∃ f', aggregateBLSSignatures C [existingSig, sig] = .error f' := by
  unfold RoundConflictSet.add at h
  simp only [hcid, wrapErr, ok_bind, hsig, deref] at h
  cases hl : rcs.lookup cid with
  | none => rw [hl] at h; cases h
  | some existing =>
    refine ⟨existing, rfl, fun existingSig hes => ?_⟩
    rw [hl] at h
    simp only [hes, ok_bind] at h
    cases hagg : aggregateBLSSignatures C [existingSig, sig] with
    | error f' => exact ⟨f', rfl⟩
    | ok newSig => rw [hagg] at h; cases h

namespace RoundSubscriber

variable {L : Ipld} {rs : RoundSubscriber C} {d : Delivery}

/-- The subscriber with one more conflict set. -/
def file (rs : RoundSubscriber C) (height : Nat) (rcs : RoundConflictSet) : RoundSubscriber C :=
  { rs with inflight := rs.inflight.insert height rcs }

/-- The confirmation of the message, if it passes validation and `add` accepts it. -/
def accepts (L : Ipld) (rs : RoundSubscriber C) (d : Delivery) (room : Option Nat := none) :
    Option RoundConfirmation :=
  match rs.validate d room with
  | .error _ => none
  | .ok conf =>
    match RoundConflictSet.add L rs.group (rs.conflictSet conf.height) conf with
    | .error _ => none
    | .ok _ => some conf

/-- What a quorum publishes: one notification, or none if the fetching fails. -/
def published (L : Ipld) (store : DagStore) (conf : RoundConfirmation) :
    List ValidationNotification :=
  (notification L store conf).toOption.toList

/--
**What a message can do.** It is rejected; or its confirmation is filed; or, filed, it makes a
quorum, and then `current` advances whether or not the fetching succeeds.
-/
theorem handleMessage_cases (L : Ipld) (rs : RoundSubscriber C) (d : Delivery)
    (room : Option Nat := none) :
    (rs.accepts L d room = none ∧ (rs.handleMessage L d room).1 = rs) ∨
      ∃ conf added, rs.accepts L d room = some conf ∧ rs.validate d room = .ok conf ∧
        RoundConflictSet.add L rs.group (rs.conflictSet conf.height) conf = .ok added ∧
        ((added.makesQuorum = false ∧
            (rs.handleMessage L d room).1 = rs.file conf.height added.conflictSet) ∨
          (added.makesQuorum = true ∧ (rs.handleMessage L d room).1 =
            { (rs.file conf.height added.conflictSet).advance added.updated with
              stream := rs.stream ++ published L d.store added.updated })) := by
  unfold handleMessage accepts
  cases hv : rs.validate d room with
  | error f => exact Or.inl ⟨rfl, rfl⟩
  | ok conf =>
    simp only []
    cases ha : RoundConflictSet.add L rs.group (rs.conflictSet conf.height) conf with
    | error f => exact Or.inl ⟨rfl, rfl⟩
    | ok added =>
      refine Or.inr ⟨conf, added, rfl, rfl, ha, ?_⟩
      cases hq : added.makesQuorum with
      | false => exact Or.inl ⟨rfl, by simp [hq, file]⟩
      | true =>
        refine Or.inr ⟨rfl, ?_⟩
        simp only [hq, if_true]
        unfold handleQuorum published
        cases hn : notification L d.store added.updated with
        | ok n => rfl
        | error f =>
          simp only [Except.toOption, Option.toList_none, List.append_nil]
          rfl

/-- What a notification is made of. -/
theorem notification_ok {store : DagStore} {n : ValidationNotification}
    (h : notification L store conf = .ok n) :
    n.roundConfirmation = conf ∧ conf.fetchCompletedRound L store = .ok n.completedRound ∧
      n.completedRound.fetchCheckpoint L store = .ok n.checkpoint ∧
      (n.checkpoint.addBlockRequests.mapM fun b => wrapErr "error casting cid: " (L.cast b))
        = .ok n.accepted := by
  obtain ⟨completedRound, hround, h⟩ := bind_eq_ok.mp h
  obtain ⟨checkpoint, hcp, h⟩ := bind_eq_ok.mp h
  obtain ⟨accepted, hacc, h⟩ := bind_eq_ok.mp h
  have hn := pure_eq_ok.mp h
  subst hn
  rw [wrapErr_eq_ok] at hround hcp
  exact ⟨rfl, hround, hcp, hacc⟩

/-! ## What is stored -/

/-- The confirmation stands in the conflict set of the height, under the CID. -/
def Stored (rs : RoundSubscriber C) (height : Nat) (cid : Cid) (conf : RoundConfirmation) : Prop :=
  ∃ rcs, rs.inflight.lookup height = some rcs ∧ rcs.lookup cid = some conf

theorem stored_iff :
    rs.Stored height cid conf ↔ (rs.conflictSet height).lookup cid = some conf := by
  unfold Stored conflictSet
  cases rs.inflight.lookup height with
  | none => simp
  | some rcs => simp

/-- Filing puts one confirmation under one height and CID, and leaves the others. -/
theorem stored_file {h h' : Nat} {cid' : Cid} {conf' : RoundConfirmation} :
    (rs.file h ((rs.conflictSet h).insert cid conf)).Stored h' cid' conf' ↔
      (h' = h ∧ cid' = cid ∧ conf' = conf) ∨
        (¬ (h' = h ∧ cid' = cid) ∧ rs.Stored h' cid' conf') := by
  by_cases hh : h' = h
  · subst hh
    have hset : (rs.file h' ((rs.conflictSet h').insert cid conf)).conflictSet h'
        = (rs.conflictSet h').insert cid conf := by
      simp [conflictSet, file]
    rw [stored_iff, stored_iff, hset]
    by_cases hcid : cid' = cid
    · subst hcid
      rw [AList.lookup_insert]
      simp [eq_comm]
    · rw [AList.lookup_insert_ne hcid]
      simp [hcid]
  · have hset : (rs.file h ((rs.conflictSet h).insert cid conf)).conflictSet h'
        = rs.conflictSet h' := by
      simp [conflictSet, file, AList.lookup_insert_ne hh]
    rw [stored_iff, stored_iff, hset]
    simp [hh]

/-- A quorum drops everything at its height and below. -/
theorem stored_advance {h : Nat} {conf' : RoundConfirmation}
    {stream : List ValidationNotification} :
    ({ rs.advance conf with stream := stream } : RoundSubscriber C).Stored h cid conf' ↔
      conf.height < h ∧ rs.Stored h cid conf' := by
  unfold Stored advance
  simp only [GoMap.lookup_eraseIf]
  by_cases hh : h ≤ conf.height
  · simp [hh, not_lt.mpr hh]
  · simp [hh, not_le.mp hh]

/-! ## The invariant rule -/

/-- Everything stored satisfies `P`; `current` moreover has a quorum. -/
structure Inv (L : Ipld) (P : RoundConfirmation → Prop) (rs : RoundSubscriber C) : Prop where
  inflight : ∀ height rcs, rs.inflight.lookup height = some rcs →
    ∀ cid conf, rcs.lookup cid = some conf →
      conf.height = height ∧ L.cast conf.roundCid = .ok cid ∧ P conf
  current : ∀ conf, rs.current = some conf →
    P conf ∧ ∃ sig, conf.signature = some sig ∧ isQuorum rs.group sig = true

/-- `P` survives the aggregation of two confirmations of one round and height. -/
def Aggregates (C : Crypto) (P : RoundConfirmation → Prop) : Prop :=
  ∀ existing conf existingSig sig newSig, P existing → P conf →
    existing.height = conf.height → existing.roundCid = conf.roundCid →
    existing.signature = some existingSig → conf.signature = some sig →
    aggregateBLSSignatures C [existingSig, sig] = .ok newSig →
    P { existing with signature := some newSig }

theorem inv_new (P : RoundConfirmation → Prop) (group : NotaryGroup C) : (new group).Inv L P where
  inflight := fun _ _ h => by simp [new] at h
  current := fun _ h => by simp [new] at h

/-- The invariant, by what is stored. -/
theorem inv_iff : rs.Inv L P ↔
    (∀ height cid conf, rs.Stored height cid conf →
      conf.height = height ∧ L.cast conf.roundCid = .ok cid ∧ P conf) ∧
    ∀ conf, rs.current = some conf →
      P conf ∧ ∃ sig, conf.signature = some sig ∧ isQuorum rs.group sig = true := by
  constructor
  · rintro ⟨hin, hcur⟩
    refine ⟨?_, hcur⟩
    rintro height cid conf ⟨rcs, hrcs, hconf⟩
    exact hin height rcs hrcs cid conf hconf
  · rintro ⟨hin, hcur⟩
    exact ⟨fun height rcs hrcs cid conf hconf => hin height cid conf ⟨rcs, hrcs, hconf⟩, hcur⟩

theorem Inv.stored (hinv : rs.Inv L P) (h : rs.Stored height cid conf) :
    conf.height = height ∧ L.cast conf.roundCid = .ok cid ∧ P conf :=
  (inv_iff.mp hinv).1 height cid conf h

theorem Inv.mono {Q : RoundConfirmation → Prop} (hinv : rs.Inv L P) (h : ∀ conf, P conf → Q conf) :
    rs.Inv L Q where
  inflight := by
    intro height rcs hrcs cid conf hconf
    obtain ⟨hheight, hcast, hP⟩ := hinv.inflight height rcs hrcs cid conf hconf
    exact ⟨hheight, hcast, h conf hP⟩
  current := by
    intro conf hconf
    obtain ⟨hP, hq⟩ := hinv.current conf hconf
    exact ⟨h conf hP, hq⟩

/-- What `add` returns satisfies `P`, keeps round and height, and counts as its signature says. -/
theorem added_spec (hagg : Aggregates C P) (hinv : rs.Inv L P) (hP : P conf)
    (ha : RoundConflictSet.add L rs.group (rs.conflictSet conf.height) conf = .ok added) :
    P added.updated ∧ added.updated.height = conf.height ∧
      added.updated.roundCid = conf.roundCid ∧
      ∃ sig, added.updated.signature = some sig ∧ added.makesQuorum = isQuorum rs.group sig := by
  obtain ⟨cid, sig, hcid, hsig, -, hcase⟩ := RoundConflictSet.add_ok ha
  rcases hcase with ⟨-, hupd, hq⟩ | ⟨existing, existingSig, newSig, hl, hes, hnew, hupd, hq⟩
  · rw [hupd]
    exact ⟨hP, rfl, rfl, sig, hsig, hq⟩
  · -- the existing confirmation stands in the conflict set of this height
    obtain ⟨hheight, hcast, hPe⟩ := hinv.stored (stored_iff.mpr hl)
    have hround : existing.roundCid = conf.roundCid := Ipld.cast_inj hcast hcid
    rw [hupd]
    exact ⟨hagg _ _ _ _ _ hPe hP hheight hround hes hsig hnew, hheight, hround, newSig, rfl, hq⟩

theorem inv_file (hagg : Aggregates C P) (hinv : rs.Inv L P) (hP : P conf)
    (ha : RoundConflictSet.add L rs.group (rs.conflictSet conf.height) conf = .ok added) :
    (rs.file conf.height added.conflictSet).Inv L P := by
  refine inv_iff.mpr ⟨?_, hinv.current⟩
  intro height cid c hc
  obtain ⟨cid', sig, hcid', hsig, hset, -⟩ := RoundConflictSet.add_ok ha
  rw [hset, stored_file] at hc
  rcases hc with ⟨rfl, rfl, rfl⟩ | ⟨-, hc⟩
  · obtain ⟨hPu, hheight, hround, -⟩ := added_spec hagg hinv hP ha
    exact ⟨hheight, by rw [hround]; exact hcid', hPu⟩
  · exact hinv.stored hc

theorem inv_advance (hinv : rs.Inv L P) {stream : List ValidationNotification} (hP : P conf)
    (hq : ∃ sig, conf.signature = some sig ∧ isQuorum rs.group sig = true) :
    ({ rs.advance conf with stream := stream } : RoundSubscriber C).Inv L P := by
  refine inv_iff.mpr ⟨?_, ?_⟩
  · intro height cid c hc
    exact hinv.stored (stored_advance.mp hc).2
  · intro c hc
    have hcc : c = conf := (Option.some.inj hc).symm
    rw [hcc]
    exact ⟨hP, hq⟩

/-- One message keeps the invariant, if it satisfies `P` once validated. -/
theorem inv_handleMessage (hagg : Aggregates C P) (hinv : rs.Inv L P)
    (hval : ∀ conf, rs.validate d = .ok conf → P conf) : (rs.handleMessage L d).1.Inv L P := by
  rcases handleMessage_cases L rs d with ⟨-, h⟩ | ⟨conf, added, -, hv, ha, ⟨-, h⟩ | ⟨hq, h⟩⟩
  · rw [h]
    exact hinv
  · rw [h]
    exact inv_file hagg hinv (hval conf hv) ha
  · rw [h]
    have hP := hval conf hv
    obtain ⟨hPu, -, -, sig, hsig, hmq⟩ := added_spec hagg hinv hP ha
    exact inv_advance (inv_file hagg hinv hP ha) hPu ⟨sig, hsig, by rw [← hq, hmq]; rfl⟩

/-- Heights and rounds alone survive aggregation. -/
theorem aggregates_true (C : Crypto) : Aggregates C fun _ => True :=
  fun _ _ _ _ _ _ _ _ _ _ _ _ => trivial

/-- A message never changes the group. -/
@[simp] theorem handleMessage_group (L : Ipld) (rs : RoundSubscriber C) (d : Delivery) :
    (rs.handleMessage L d).1.group = rs.group := by
  rcases handleMessage_cases L rs d with ⟨-, h⟩ | ⟨conf, added, -, -, -, ⟨-, h⟩ | ⟨-, h⟩⟩
  · rw [h]
  · rw [h]; rfl
  · rw [h]; rfl

theorem deliver_group : ∀ (ds : List Delivery) (rs : RoundSubscriber C),
    (rs.deliver L ds).group = rs.group
  | [], _ => rfl
  | d :: ds, rs => by
    show ((rs.handleMessage L d).1.deliver L ds).group = rs.group
    rw [deliver_group ds, handleMessage_group]

/--
**The invariant rule of the subscriber.**

If every delivered message satisfies `P` once it has been validated against the group, and `P`
survives aggregation, then `P` holds of everything the subscriber stores.
-/
theorem inv_deliver (hagg : Aggregates C P) :
    ∀ (ds : List Delivery) (rs : RoundSubscriber C), rs.Inv L P →
      (∀ d ∈ ds, ∀ keys conf sig sig', rs.group.verKeys = .ok keys →
        Validated keys d conf sig sig' → P conf) →
      (rs.deliver L ds).Inv L P
  | [], _, hinv, _ => hinv
  | d :: ds, rs, hinv, hval => by
    show ((rs.handleMessage L d).1.deliver L ds).Inv L P
    refine inv_deliver hagg ds _ (inv_handleMessage hagg hinv ?_) ?_
    · intro conf hc
      obtain ⟨-, keys, sig, sig', hkeys, hv⟩ := validate_ok hc
      exact hval d List.mem_cons_self keys conf sig sig' hkeys hv
    · intro d' hd' keys conf sig sig' hkeys hv
      rw [handleMessage_group] at hkeys
      exact hval d' (List.mem_cons_of_mem d hd') keys conf sig sig' hkeys hv

end RoundSubscriber

end Tupelo

import Tupelo.Client.RoundSubscriber
import Tupelo.Sdk.Aggregation

/-!
# The state of a round subscriber

What a subscriber stores, against the messages it has accepted.

The state is set beside a log of the confirmations that passed validation and that `add`
accepted. A stored confirmation counts exactly the signers that the logged confirmations of its
round and height count. This needs the converse as well, that every logged confirmation above
`current` is still represented (`heard`): otherwise the first-seen branch of `add` could file a
confirmation and forget an earlier one.

Only the verification of the sums rests on an assumption about the scheme, its additivity.
-/

namespace Tupelo

open Infra

/-- The confirmation counts the signer. -/
def RoundConfirmation.Counts (conf : RoundConfirmation) (i : Nat) : Prop :=
  ∃ sig, conf.signature = some sig ∧ sig.Counts i

/-- The confirmations name one round at one height. -/
def RoundConfirmation.SameRound (a b : RoundConfirmation) : Prop :=
  a.roundCid = b.roundCid ∧ a.height = b.height

theorem RoundConfirmation.counts_iff {conf : RoundConfirmation} {sig : Signature}
    (h : conf.signature = some sig) (i : Nat) : conf.Counts i ↔ sig.Counts i := by
  unfold Counts
  rw [h]
  simp

/-- The confirmation counts exactly those that the log counts for its round and height. -/
def Collects (log : List RoundConfirmation) (conf : RoundConfirmation) : Prop :=
  ∀ i, conf.Counts i ↔ ∃ m ∈ log, m.SameRound conf ∧ m.Counts i

/-- A message for another round or height does not matter. -/
theorem Collects.append {log : List RoundConfirmation} {conf m : RoundConfirmation}
    (h : Collects log conf) (hm : ¬ m.SameRound conf) : Collects (log ++ [m]) conf := by
  intro i
  rw [h i]
  constructor
  · rintro ⟨m', hm', hc⟩
    exact ⟨m', List.mem_append_left _ hm', hc⟩
  · rintro ⟨m', hm', hsame, hc⟩
    rcases List.mem_append.mp hm' with hlog | hlast
    · exact ⟨m', hlog, hsame, hc⟩
    · rw [List.mem_singleton.mp hlast] at hsame
      exact absurd hsame hm

namespace RoundSubscriber

variable {C : Crypto} {L : Ipld} {rs : RoundSubscriber C} {d : Delivery}

/-- The confirmations accepted along a sequence of messages, in order. -/
def acceptedLog (L : Ipld) : RoundSubscriber C → List Delivery → List RoundConfirmation
  | _, [] => []
  | rs, d :: ds => (rs.accepts L d).toList ++ acceptedLog L (rs.handleMessage L d).1 ds

/-! ## The state and the log -/

/-- What the state has to do with the accepted confirmations. -/
structure Tracks (L : Ipld) (log : List RoundConfirmation) (rs : RoundSubscriber C) : Prop where
  /-- Everything in flight is above `current`. -/
  above : ∀ height rcs, rs.inflight.lookup height = some rcs →
    ∀ cur, rs.current = some cur → cur.height < height
  stored : ∀ height cid conf, rs.Stored height cid conf → Collects log conf
  /-- A quorum does not stay in flight. -/
  pending : ∀ height cid conf sig, rs.Stored height cid conf → conf.signature = some sig →
    isQuorum rs.group sig = false
  current : ∀ cur, rs.current = some cur → Collects log cur
  /-- What was accepted above `current` is still there. -/
  heard : ∀ m ∈ log, (∀ cur, rs.current = some cur → cur.height < m.height) →
    ∃ cid conf, L.cast m.roundCid = .ok cid ∧ rs.Stored m.height cid conf

theorem tracks_new (group : NotaryGroup C) : (new group).Tracks L [] where
  above := fun _ _ h => by simp [new] at h
  stored := fun _ _ _ h => by simp [Stored, new] at h
  pending := fun _ _ _ _ h => by simp [Stored, new] at h
  current := fun _ h => by simp [new] at h
  heard := fun _ h => by simp at h

variable {P : RoundConfirmation → Prop} {log : List RoundConfirmation} {conf : RoundConfirmation}
  {added : Added}

/-- What `add` files counts who the confirmation counts, and who was counted there before. -/
theorem counts_updated {group : NotaryGroup C} {rcs : RoundConflictSet} {cid : Cid}
    (hcid : L.cast conf.roundCid = .ok cid)
    (ha : RoundConflictSet.add L group rcs conf = .ok added) (i : Nat) :
    added.updated.Counts i ↔
      conf.Counts i ∨ ∃ existing, rcs.lookup cid = some existing ∧ existing.Counts i := by
  obtain ⟨cid', sig, hcid', hsig, -, hcase⟩ := RoundConflictSet.add_ok ha
  obtain rfl := Except.ok.inj (hcid.symm.trans hcid')
  rcases hcase with ⟨hnone, hupd, -⟩ | ⟨existing, existingSig, newSig, hl, hes, hnew, hupd, -⟩
  · rw [hupd, hnone]
    simp
  · rw [hupd, RoundConfirmation.counts_iff rfl, counts_of_aggregate_pair hnew,
      ← RoundConfirmation.counts_iff hes, ← RoundConfirmation.counts_iff hsig, hl]
    simp [or_comm]

/-- **What `add` files collects the new confirmation and all before it.** -/
theorem collects_added (hinv : rs.Inv L P) (ht : rs.Tracks L log)
    (habove : ∀ cur, rs.current = some cur → cur.height < conf.height)
    (ha : RoundConflictSet.add L rs.group (rs.conflictSet conf.height) conf = .ok added) :
    Collects (log ++ [conf]) added.updated := by
  obtain ⟨cid, sig, hcid, -, -, -⟩ := RoundConflictSet.add_ok ha
  obtain ⟨-, hheight, hround, -⟩ :=
    added_spec (aggregates_true C) (hinv.mono fun _ _ => trivial) trivial ha
  intro i
  rw [counts_updated hcid ha]
  constructor
  · rintro (hi | ⟨existing, hl, hi⟩)
    · exact ⟨conf, by simp, ⟨hround.symm, hheight.symm⟩, hi⟩
    · have hex := stored_iff.mpr hl
      obtain ⟨hheight', hcast, -⟩ := hinv.stored hex
      obtain ⟨m, hm, ⟨hmr, hmh⟩, hmi⟩ := (ht.stored _ _ _ hex i).mp hi
      have hround' : existing.roundCid = conf.roundCid := Ipld.cast_inj hcast hcid
      exact ⟨m, List.mem_append_left _ hm,
        ⟨by rw [hmr, hround', hround], by rw [hmh, hheight', hheight]⟩, hmi⟩
  · rintro ⟨m, hm, ⟨hmr, hmh⟩, hi⟩
    rcases List.mem_append.mp hm with hlog | hlast
    · -- accepted before, hence still there and counted
      rw [hround] at hmr
      rw [hheight] at hmh
      obtain ⟨cid', c, hcid', hc⟩ := ht.heard m hlog (by rw [hmh]; exact habove)
      rw [hmr, hcid] at hcid'
      have hcc : cid = cid' := Except.ok.inj hcid'
      rw [hmh, ← hcc] at hc
      obtain ⟨hheight', hcast, -⟩ := hinv.stored hc
      refine Or.inr ⟨c, stored_iff.mp hc, (ht.stored _ _ _ hc i).mpr ⟨m, hlog, ⟨?_, ?_⟩, hi⟩⟩
      · rw [hmr, Ipld.cast_inj hcast hcid]
      · rw [hmh, hheight']
    · rw [List.mem_singleton.mp hlast] at hi
      exact Or.inl hi

/-- What was stored elsewhere collects the same as before. -/
theorem collects_of_stored (hinv : rs.Inv L P) (ht : rs.Tracks L log) {cid : Cid}
    (hcid : L.cast conf.roundCid = .ok cid) {height : Nat} {cid' : Cid} {c : RoundConfirmation}
    (hne : ¬ (height = conf.height ∧ cid' = cid)) (hc : rs.Stored height cid' c) :
    Collects (log ++ [conf]) c := by
  obtain ⟨hheight, hcast, -⟩ := hinv.stored hc
  refine (ht.stored _ _ _ hc).append ?_
  rintro ⟨hround, hh⟩
  rw [← hround, hcid] at hcast
  exact hne ⟨by rw [← hheight, hh], (Except.ok.inj hcast).symm⟩

/-- A confirmation that is filed and makes no quorum. -/
theorem tracks_file (hagg : Aggregates C P) (hinv : rs.Inv L P) (ht : rs.Tracks L log)
    (hP : P conf) (habove : ∀ cur, rs.current = some cur → cur.height < conf.height)
    (ha : RoundConflictSet.add L rs.group (rs.conflictSet conf.height) conf = .ok added)
    (hq : added.makesQuorum = false) :
    (rs.file conf.height added.conflictSet).Tracks L (log ++ [conf]) := by
  obtain ⟨cid, sig, hcid, hsig, hset, -⟩ := RoundConflictSet.add_ok ha
  have hstored : ∀ {height cid' c}, (rs.file conf.height added.conflictSet).Stored height cid' c →
      (height = conf.height ∧ cid' = cid ∧ c = added.updated) ∨
        (¬ (height = conf.height ∧ cid' = cid) ∧ rs.Stored height cid' c) := by
    intro height cid' c hc
    rw [hset] at hc
    exact stored_file.mp hc
  constructor
  · intro height rcs hrcs cur hcur
    by_cases hh : height = conf.height
    · rw [hh]
      exact habove cur hcur
    · simp only [file, AList.lookup_insert_ne hh] at hrcs
      exact ht.above _ _ hrcs cur hcur
  · intro height cid' c hc
    rcases hstored hc with ⟨-, -, rfl⟩ | ⟨hne, hc⟩
    · exact collects_added hinv ht habove ha
    · exact collects_of_stored hinv ht hcid hne hc
  · intro height cid' c s hc hs
    rcases hstored hc with ⟨-, -, rfl⟩ | ⟨-, hc⟩
    · obtain ⟨-, -, -, sig', hsig', hmq⟩ := added_spec hagg hinv hP ha
      have hss : s = sig' := Option.some.inj (hs.symm.trans hsig')
      show isQuorum rs.group s = false
      rw [hss, ← hmq, hq]
    · exact ht.pending _ _ _ s hc hs
  · intro cur hcur
    refine (ht.current cur hcur).append ?_
    rintro ⟨-, hh⟩
    have hlt := habove cur hcur
    omega
  · intro m hm hcur
    by_cases hsame : m.SameRound conf
    · refine ⟨cid, added.updated, by rw [hsame.1, hcid], ?_⟩
      rw [hsame.2, hset]
      exact stored_file.mpr (Or.inl ⟨rfl, rfl, rfl⟩)
    · have hlog : m ∈ log := by
        rcases List.mem_append.mp hm with hlog | hlast
        · exact hlog
        · rw [List.mem_singleton.mp hlast] at hsame
          exact absurd ⟨rfl, rfl⟩ hsame
      obtain ⟨cid', c, hcid', hc⟩ := ht.heard m hlog hcur
      refine ⟨cid', c, hcid', ?_⟩
      rw [hset]
      refine stored_file.mpr (Or.inr ⟨?_, hc⟩)
      rintro ⟨hh, rfl⟩
      exact hsame ⟨Ipld.cast_inj hcid' hcid, hh⟩

/-- A confirmation that makes a quorum. -/
theorem tracks_advance (hagg : Aggregates C P) (hinv : rs.Inv L P) (ht : rs.Tracks L log)
    (hP : P conf) (habove : ∀ cur, rs.current = some cur → cur.height < conf.height)
    (ha : RoundConflictSet.add L rs.group (rs.conflictSet conf.height) conf = .ok added)
    (stream : List ValidationNotification) :
    ({ (rs.file conf.height added.conflictSet).advance added.updated with
      stream := stream } : RoundSubscriber C).Tracks L (log ++ [conf]) := by
  obtain ⟨cid, sig, hcid, hsig, hset, -⟩ := RoundConflictSet.add_ok ha
  obtain ⟨-, hheight, hround, -⟩ := added_spec hagg hinv hP ha
  -- only what is above the new `current` is left, so nothing of this round
  have hstored : ∀ {height cid' c}, ({ (rs.file conf.height added.conflictSet).advance
      added.updated with stream := stream } : RoundSubscriber C).Stored height cid' c →
      height ≠ conf.height ∧ rs.Stored height cid' c := by
    intro height cid' c hc
    obtain ⟨hlt, hc⟩ := stored_advance.mp hc
    rw [hset] at hc
    rcases stored_file.mp hc with ⟨rfl, -, -⟩ | ⟨-, hc⟩
    · omega
    · exact ⟨by omega, hc⟩
  constructor
  · intro height rcs hrcs cur hcur
    have hcc : added.updated = cur := Option.some.inj hcur
    simp only [advance, GoMap.lookup_eraseIf] at hrcs
    split at hrcs
    · cases hrcs
    · next hle =>
      rw [← hcc]
      simpa using hle
  · intro height cid' c hc
    obtain ⟨hne, hc⟩ := hstored hc
    exact collects_of_stored hinv ht hcid (fun h => hne h.1) hc
  · intro height cid' c s hc hs
    exact ht.pending _ _ _ s (hstored hc).2 hs
  · intro cur hcur
    have hcc : added.updated = cur := Option.some.inj hcur
    rw [← hcc]
    exact collects_added hinv ht habove ha
  · intro m hm hcur
    have hlt := hcur added.updated rfl
    have hlog : m ∈ log := by
      rcases List.mem_append.mp hm with hlog | hlast
      · exact hlog
      · rw [List.mem_singleton.mp hlast] at hlt
        omega
    obtain ⟨cid', c, hcid', hc⟩ := ht.heard m hlog (fun cur h => by
      have := habove cur h
      omega)
    refine ⟨cid', c, hcid', stored_advance.mpr ⟨hlt, ?_⟩⟩
    rw [hset]
    refine stored_file.mpr (Or.inr ⟨?_, hc⟩)
    rintro ⟨hh, -⟩
    omega

/-- One message: the log grows by what was accepted. -/
theorem tracks_handleMessage (hagg : Aggregates C P) (hinv : rs.Inv L P) (ht : rs.Tracks L log)
    (hval : ∀ conf, rs.validate d = .ok conf → P conf) :
    (rs.handleMessage L d).1.Tracks L (log ++ (rs.accepts L d).toList) := by
  rcases handleMessage_cases L rs d with
    ⟨hacc, h⟩ | ⟨conf, added, hacc, hv, ha, ⟨hq, h⟩ | ⟨-, h⟩⟩
  · rw [h, hacc, Option.toList_none, List.append_nil]
    exact ht
  · rw [h, hacc, Option.toList_some]
    exact tracks_file hagg hinv ht (hval conf hv) (validate_ok hv).1 ha hq
  · rw [h, hacc, Option.toList_some]
    exact tracks_advance hagg hinv ht (hval conf hv) (validate_ok hv).1 ha _

/-- **The state tracks the log**, along every sequence of messages. -/
theorem tracks_deliver (hagg : Aggregates C P) :
    ∀ (ds : List Delivery) (rs : RoundSubscriber C) (log : List RoundConfirmation),
      rs.Inv L P → rs.Tracks L log →
      (∀ d ∈ ds, ∀ keys conf sig sig', rs.group.verKeys = .ok keys →
        Validated keys d conf sig sig' → P conf) →
      (rs.deliver L ds).Tracks L (log ++ rs.acceptedLog L ds)
  | [], rs, log, _, ht, _ => by
    rw [acceptedLog, List.append_nil]
    exact ht
  | d :: ds, rs, log, hinv, ht, hval => by
    have hval' : ∀ conf, rs.validate d = .ok conf → P conf := by
      intro conf hc
      obtain ⟨-, keys, sig, sig', hkeys, hv⟩ := validate_ok hc
      exact hval d List.mem_cons_self keys conf sig sig' hkeys hv
    rw [acceptedLog, ← List.append_assoc]
    refine tracks_deliver hagg ds _ _ (inv_handleMessage hagg hinv hval')
      (tracks_handleMessage hagg hinv ht hval') ?_
    intro d' hd' keys conf sig sig' hkeys hv
    rw [handleMessage_group] at hkeys
    exact hval d' (List.mem_cons_of_mem d hd') keys conf sig sig' hkeys hv

theorem tracks_reachable (L : Ipld) (group : NotaryGroup C) (ds : List Delivery) :
    ((new group).deliver L ds).Tracks L ((new group).acceptedLog L ds) :=
  tracks_deliver (aggregates_true C) ds (new group) [] (inv_new _ group) (tracks_new group)
    fun _ _ _ _ _ _ _ _ => trivial

/-- `current` stays or moves up. -/
theorem current_step (hinv : rs.Inv L fun _ => True) {cur : RoundConfirmation}
    (hcur : rs.current = some cur) : ∃ cur', (rs.handleMessage L d).1.current = some cur' ∧
      (cur' = cur ∨ cur.height < cur'.height) := by
  rcases handleMessage_cases L rs d with ⟨-, h⟩ | ⟨conf, added, -, hv, ha, ⟨-, h⟩ | ⟨-, h⟩⟩
  · rw [h]
    exact ⟨cur, hcur, Or.inl rfl⟩
  · rw [h]
    exact ⟨cur, hcur, Or.inl rfl⟩
  · rw [h]
    obtain ⟨-, hheight, -⟩ := added_spec (aggregates_true C) hinv trivial ha
    refine ⟨added.updated, rfl, Or.inr ?_⟩
    rw [hheight]
    exact (validate_ok hv).1 cur hcur

/-! ## The signatures that are stored -/

section Additive

variable [AddCommMonoid C.Point] {group : NotaryGroup C}

/-- The confirmation carries the key of its vector and verifies under it. -/
def Verified (group : NotaryGroup C) (conf : RoundConfirmation) : Prop :=
  ∃ keys sig, group.verKeys = .ok keys ∧ conf.signature = some sig ∧ sig.Restored keys ∧
    sig.Signs keys conf.roundCid

theorem verified_of_validated (hC : C.Additive) {keys : List (VerKey C)} {sig sig' : Signature}
    (hkeys : group.verKeys = .ok keys) (h : Validated keys d conf sig sig') :
    Verified group conf := by
  have hres := Signature.restored_of_restore h.restored
  exact ⟨keys, sig', hkeys, h.signature, hres, ((Signature.valid_iff hC hres _ _).mp h.verified).2⟩

theorem aggregates_verified (hC : C.Additive) : Aggregates C (Verified group) := by
  rintro existing conf existingSig sig newSig ⟨keys, s, hkeys, hs, hres, hsigns⟩
    ⟨keys', s', hkeys', hs', hres', hsigns'⟩ - hround hes hsig hnew
  obtain rfl := Except.ok.inj (hkeys.symm.trans hkeys')
  obtain rfl := Option.some.inj (hs.symm.trans hes)
  obtain rfl := Option.some.inj (hs'.symm.trans hsig)
  obtain ⟨hr, -, hsum⟩ := Signature.aggregate hC hres hres' hnew
  exact ⟨keys, newSig, hkeys, rfl, hr, hsum _ hsigns (by rw [hround]; exact hsigns')⟩

theorem inv_verified (hC : C.Additive) (group : NotaryGroup C) (ds : List Delivery) :
    ((new group).deliver L ds).Inv L (Verified group) := by
  refine inv_deliver (aggregates_verified hC) ds _ (inv_new _ group) ?_
  intro d _ keys conf sig sig' hkeys hv
  exact verified_of_validated hC hkeys hv

/--
The signature of the confirmation verifies under the key restored from its vector, and the
vector counts exactly the signers that some accepted message for its round and height counts.
-/
def Carries (group : NotaryGroup C) (log : List RoundConfirmation) (conf : RoundConfirmation) :
    Prop :=
  ∃ keys sig key, group.verKeys = .ok keys ∧ conf.signature = some sig ∧
    keys.length = sig.signers.length ∧ sumVerKeys (expandSigners sig.signers keys) = .ok key ∧
    key.verify sig.signature conf.roundCid = true ∧
    ∀ i, sig.Counts i ↔ ∃ m ∈ log, m.SameRound conf ∧ m.Counts i

theorem carries_of_verified (hC : C.Additive) (h : Verified group conf) (hcol : Collects log conf) :
    Carries group log conf := by
  obtain ⟨keys, sig, hkeys, hsig, hres, hsigns⟩ := h
  obtain ⟨hlen, -, -, -, key, -, hkey, -⟩ := restoreBLSPublicKey_ok hres
  refine ⟨keys, sig, key, hkeys, hsig, hlen, hkey, ?_, fun i => ?_⟩
  · unfold VerKey.verify
    rw [(sumVerKeys_ok hkey).2, hC.aggregatePublicKeys]
    exact hsigns
  · rw [← RoundConfirmation.counts_iff hsig]
    exact hcol i

/--
**What holds in every state of a subscriber**, after whatever messages.

Everything in flight is above `current`; every stored confirmation is filed under its height and
its round, and its signature is the sum of what was accepted for them; `current` carries such a
signature of a quorum; and the next message leaves `current` or moves it up.
-/
theorem subscriber_state (hC : C.Additive) (L : Ipld) (group : NotaryGroup C)
    (ds : List Delivery) :
    let rs := (new group).deliver L ds
    let log := (new group).acceptedLog L ds
    (∀ height rcs, rs.inflight.lookup height = some rcs →
      (∀ cur, rs.current = some cur → cur.height < height) ∧
      ∀ cid conf, rcs.lookup cid = some conf →
        L.cast conf.roundCid = .ok cid ∧ conf.height = height ∧ Carries group log conf) ∧
    (∀ cur, rs.current = some cur → Carries group log cur ∧
      ∃ sig, cur.signature = some sig ∧ group.quorumCount ≤ signerCount sig) ∧
    ∀ d cur, rs.current = some cur → ∃ cur', (rs.handleMessage L d).1.current = some cur' ∧
      (cur' = cur ∨ cur.height < cur'.height) := by
  intro rs log
  have hinv : rs.Inv L (Verified group) := inv_verified hC group ds
  have ht : rs.Tracks L log := tracks_reachable L group ds
  refine ⟨?_, ?_, ?_⟩
  · intro height rcs hrcs
    refine ⟨ht.above height rcs hrcs, ?_⟩
    intro cid conf hconf
    have hst : rs.Stored height cid conf := ⟨rcs, hrcs, hconf⟩
    obtain ⟨hheight, hcast, hver⟩ := hinv.stored hst
    exact ⟨hcast, hheight, carries_of_verified hC hver (ht.stored _ _ _ hst)⟩
  · intro cur hcur
    obtain ⟨hver, sig, hsig, hq⟩ := hinv.current cur hcur
    refine ⟨carries_of_verified hC hver (ht.current cur hcur), sig, hsig, ?_⟩
    have hgroup : rs.group = group := deliver_group ds (new group)
    rw [hgroup] at hq
    exact of_decide_eq_true hq
  · intro d cur hcur
    exact current_step (hinv.mono fun _ _ => trivial) hcur

end Additive

/-! ### Three signers -/

namespace Example

noncomputable def abr : AddBlockRequest := .bare [1] [] (Ipld.inFull.cidOf .null).bytes 0

noncomputable def checkpoint : Checkpoint := Ipld.inFull.naming 5 [abr]

noncomputable def round (height : Nat) : Round where
  height := height
  stateCid := []
  checkpointCid := (Ipld.inFull.cidOf (.checkpoint checkpoint)).bytes

noncomputable def roundCid (height : Nat) : Cid := Ipld.inFull.cidOf (.round (round height))

/-- The signers have the keys 1, 2 and 4, so that a sum of keys tells who is in it. -/
def group : NotaryGroup Crypto.unary where
  id := "group"
  signers := ((AList.singleton "a" ⟨"a", ⟨List.replicate 2 0, (1 : Nat)⟩⟩).insert
    "b" ⟨"b", ⟨List.replicate 3 0, (2 : Nat)⟩⟩).insert "c" ⟨"c", ⟨List.replicate 5 0, (4 : Nat)⟩⟩
  sortedIds := ["a", "b", "c"]

/-- What signer `i` sends for the round of a height. -/
noncomputable def confirmation (height i : Nat) : RoundConfirmation where
  roundCid := (roundCid height).bytes
  height := height
  signature := some
    { ownership := some { publicKey := none, conditions := "" }
      signers := (List.replicate 3 0).set i 1
      signature := Crypto.unarySign (2 ^ i) (roundCid height).bytes
      preImage := "" }

/-- The store has the rounds of the heights 5 and 6 with their checkpoint. -/
noncomputable def store : DagStore := fun cid =>
  if cid = roundCid 5 then some (.round (round 5))
  else if cid = roundCid 6 then some (.round (round 6))
  else if cid = Ipld.inFull.cidOf (.checkpoint checkpoint) then some (.checkpoint checkpoint)
  else none

noncomputable def delivery (height i : Nat) : Delivery where
  msg := .ok (confirmation height i)
  run := fun _ _ => .error "no script"
  store := store

/-- What the subscriber makes of one signer that is heard twice and another. -/
noncomputable def current : RoundConfirmation where
  roundCid := (roundCid 5).bytes
  height := 5
  signature := some
    { ownership := some
        { publicKey := some ⟨.blsGroupSig, List.replicate 5 0⟩, conditions := "" }
      signers := [2, 1, 0]
      signature := Crypto.unarySign 4 (roundCid 5).bytes
      preImage := "" }

/-- Signer `a` is heard twice and `b` once; the vector says so, and counts the two. -/
theorem subscriber_state_example :
    ((new group).deliver Ipld.inFull
      [delivery 5 0, delivery 6 2, delivery 5 0, delivery 5 1]).current = some current ∧
    Carries group ((new group).acceptedLog Ipld.inFull
      [delivery 5 0, delivery 6 2, delivery 5 0, delivery 5 1]) current := by
  have hcur : ((new group).deliver Ipld.inFull
      [delivery 5 0, delivery 6 2, delivery 5 0, delivery 5 1]).current = some current := by
    decide +kernel
  exact ⟨hcur, ((subscriber_state Crypto.unary_additive Ipld.inFull group _).2.1 _ hcur).1⟩

end Example

end RoundSubscriber

end Tupelo

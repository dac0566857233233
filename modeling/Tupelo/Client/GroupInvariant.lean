import Mathlib.Data.String.Basic
import Tupelo.Client.QuorumCompleteness

/-!
# The two sides of a notary group

A `NotaryGroup` (`sdk/gossip/types/notarygroup.go`) keeps its signers in a map and their ids in a
sorted slice. A signer takes the length of its vector from the map, everyone else counts the
slice. `AddSigner` sets a key of the map and appends to the slice, so the two agree exactly if no
id has been added twice (`consistent_iff`).

`Config.NotaryGroup` (`sdk/gossip/types/config.go`) adds the local signer and those of the
configuration that do not have its destination key. The id of a signer is made from its BLS key,
so a BLS key that is listed twice, or that of the local signer under another destination key, is
added twice.
-/

namespace Tupelo

open Infra

variable {C : Crypto} {K : Type} [DecidableEq K]

/-! ## `notarygroup.go` -/

namespace NotaryGroup

def size (ng : NotaryGroup C) : Nat := ng.sortedIds.length

def signerAtIndex (ng : NotaryGroup C) (idx : Nat) : Except Fault (Option (Signer C)) :=
  match ng.sortedIds[idx]? with
  | none => .error (.panic "index out of range")
  | some id => .ok (ng.signers.lookup id)

def indexOfSigner (ng : NotaryGroup C) (signer : Signer C) : Except Fault Nat :=
  match ng.sortedIds.idxOf? signer.id with
  | none => .error (.panic ("signer not found: " ++ signer.id))
  | some i => .ok i

/-- The group after `AddSigner` for each of the signers. -/
def ofSigners (id : String) (signers : List (Signer C)) : NotaryGroup C :=
  signers.foldl addSigner (new C id)

/--
The map and the slice stand for the same signers, and for what is made of them it does not matter
which one is asked.
-/
structure Consistent (ng : NotaryGroup C) : Prop where
  sorted : ng.sortedIds.Pairwise (· < ·)
  ids : ∀ id, id ∈ ng.sortedIds ↔ id ∈ ng.signers
  size : ng.size = ng.signers.keys.length
  /-- Every signer stands at one index, -/
  index : ∀ id signer, ng.signers.lookup id = some signer →
    ∃! i : Nat, ng.sortedIds[i]? = some signer.id
  /-- and is found there. -/
  atIndex : ∀ id signer, ng.signers.lookup id = some signer →
    ∃ i, ng.indexOfSigner signer = .ok i ∧ ng.signerAtIndex i = .ok (some signer)
  quorum : ng.quorumCount = quorumOf ng.signers.keys.length
  /-- The vector in a confirmation of a member has the length that verifiers expect. -/
  vector : ∃ keys, ng.verKeys = .ok keys ∧
    ∀ (L : Ipld) (signKey : SignKey C) (completed : Round) (E : Env) (conf : RoundConfirmation),
      newNodeEnv L ng signKey = .ok E → Node.confirmCompletedRound E completed = .ok conf →
        ∃ sig, conf.signature = some sig ∧ sig.signers.length = keys.length

end NotaryGroup

/-! ## `config.go` -/

/-- `PublicKeySet`. -/
structure PublicKeySet (C : Crypto) (K : Type) where
  verKey : VerKey C
  destKey : K

/-- `Config`, with the fields a group is made from. -/
structure Config (C : Crypto) (K : Type) where
  id : String
  signers : List (PublicKeySet C K)

/-- `NewRemoteSigner`. The id is the address of the BLS key. -/
def newRemoteSigner (address : Bytes → String) (verKey : VerKey C) : Signer C :=
  { id := address verKey.value, verKey }

namespace Config

variable (address : Bytes → String) (c : Config C K)

/-- `NotaryGroup`, with the local signer and its destination key, if there is one. -/
def notaryGroup (localSigner : Option (Signer C × K)) : NotaryGroup C :=
  let group := NotaryGroup.new C c.id
  let group := match localSigner with
    | none => group
    | some (signer, _) => group.addSigner signer
  c.signers.foldl (fun group keySet =>
    if localSigner.map (·.2) = some keySet.destKey then group
    else group.addSigner (newRemoteSigner address keySet.verKey)) group

/-- The signers that are added, in their order. -/
def members (localSigner : Option (Signer C × K)) : List (Signer C) :=
  (localSigner.map (·.1)).toList ++
    (c.signers.filter fun keySet => localSigner.map (·.2) ≠ some keySet.destKey).map
      fun keySet => newRemoteSigner address keySet.verKey

theorem notaryGroup_eq (localSigner : Option (Signer C × K)) :
    c.notaryGroup address localSigner =
      NotaryGroup.ofSigners c.id (c.members address localSigner) := by
  have hloop : ∀ (keySets : List (PublicKeySet C K)) (group : NotaryGroup C),
      keySets.foldl (fun group keySet =>
        if localSigner.map (·.2) = some keySet.destKey then group
        else group.addSigner (newRemoteSigner address keySet.verKey)) group =
      ((keySets.filter fun keySet => localSigner.map (·.2) ≠ some keySet.destKey).map
        fun keySet => newRemoteSigner address keySet.verKey).foldl NotaryGroup.addSigner group := by
    intro keySets
    induction keySets with
    | nil => exact fun group => rfl
    | cons keySet keySets ih =>
      intro group
      rw [List.foldl_cons, ih]
      by_cases hskip : localSigner.map (·.2) = some keySet.destKey
      · simp [hskip]
      · simp [hskip]
  unfold notaryGroup NotaryGroup.ofSigners members
  rw [List.foldl_append, hloop]
  cases localSigner <;> rfl

end Config

/-! ## What adding signers makes -/

namespace NotaryGroup

/-- The slice has every id as often as it was added, the map has the last signer of each. -/
structure Added (ng : NotaryGroup C) (signers : List (Signer C)) : Prop where
  sorted : ng.sortedIds.Pairwise (· ≤ ·)
  perm : ng.sortedIds.Perm (signers.map (·.id))
  mem : ∀ id, id ∈ ng.signers ↔ id ∈ signers.map (·.id)
  own : ∀ id signer, ng.signers.lookup id = some signer → signer.id = id

theorem added_new (id : String) : (new C id).Added [] where
  sorted := List.Pairwise.nil
  perm := List.Perm.refl _
  mem := fun _ => by simp [new]
  own := fun _ _ h => by simp [new] at h

/-- The step lemma: one more signer. -/
theorem Added.addSigner {ng : NotaryGroup C} {signers : List (Signer C)} (h : ng.Added signers)
    (signer : Signer C) : (ng.addSigner signer).Added (signers ++ [signer]) where
  sorted := List.pairwise_insertionSort (· ≤ ·) _
  perm := by
    rw [List.map_append]
    exact (List.perm_insertionSort _ _).trans (h.perm.append_right _)
  mem := by
    intro id
    show id ∈ ng.signers.insert signer.id signer ↔ _
    rw [AList.mem_insert, h.mem]
    simp [or_comm]
  own := by
    intro id s hs
    by_cases hid : id = signer.id
    · subst hid
      rw [NotaryGroup.addSigner, AList.lookup_insert] at hs
      rw [← Option.some.inj hs]
    · rw [NotaryGroup.addSigner, AList.lookup_insert_ne hid] at hs
      exact h.own id s hs

/-- The run lemma. -/
theorem added_ofSigners (id : String) (signers : List (Signer C)) :
    (ofSigners id signers).Added signers := by
  induction signers using List.reverseRecOn with
  | nil => exact added_new id
  | append_singleton signers signer ih =>
    unfold ofSigners
    rw [List.foldl_concat]
    exact ih.addSigner signer

/-- What a node signs has the length of the map. -/
theorem length_of_confirm {L : Ipld} {ng : NotaryGroup C} {signKey : SignKey C} {E : Env}
    {completed : Round} {conf : RoundConfirmation} (hE : newNodeEnv L ng signKey = .ok E)
    (hconf : Node.confirmCompletedRound E completed = .ok conf) :
    ∃ sig, conf.signature = some sig ∧ sig.signers.length = ng.signers.keys.length := by
  obtain ⟨signerIndex, -, hE⟩ := bind_eq_ok.mp hE
  have hE' := pure_eq_ok.mp hE
  subst hE'
  obtain ⟨sig, hsig, hconf⟩ := bind_eq_ok.mp hconf
  have hconf' := pure_eq_ok.mp hconf
  subst hconf'
  refine ⟨sig, rfl, ?_⟩
  rw [wrapErr_eq_ok] at hsig
  obtain ⟨-, hsig⟩ := guard_eq_ok hsig
  split at hsig
  · cases hsig
  · have hsig' := Except.ok.inj hsig
    rw [← hsig', List.length_set, List.length_replicate]

namespace Added

variable {ng : NotaryGroup C} {signers : List (Signer C)} (h : ng.Added signers)

include h

theorem mem_sortedIds (id : String) : id ∈ ng.sortedIds ↔ id ∈ ng.signers :=
  h.perm.mem_iff.trans (h.mem id).symm

/-- Every id of the slice is one of the map, so every verification key is there. -/
theorem verKeys_ok : ∃ keys, ng.verKeys = .ok keys := by
  refine mapM_ok ?_
  intro s hs
  obtain ⟨id, hid, rfl⟩ := List.mem_map.mp hs
  obtain ⟨signer, hsigner⟩ := Option.isSome_iff_exists.mp
    (AList.lookup_isSome.mpr ((h.mem_sortedIds id).mp hid))
  exact ⟨signer.verKey, by rw [hsigner]; rfl⟩

/-- Where a signer is found, it stands, and reading there gives it back. -/
theorem indexOfSigner_eq {id : String} {signer : Signer C}
    (hsigner : ng.signers.lookup id = some signer) :
    ∃ i, ng.indexOfSigner signer = .ok i ∧ ng.sortedIds[i]? = some signer.id ∧
      ng.signerAtIndex i = .ok (some signer) := by
  have hid := h.own id signer hsigner
  have hmem : signer.id ∈ ng.sortedIds := by
    rw [h.mem_sortedIds, hid]
    exact AList.lookup_isSome.mp (Option.isSome_iff_exists.mpr ⟨signer, hsigner⟩)
  cases hidx : ng.sortedIds.idxOf? signer.id with
  | none => exact absurd hmem (List.idxOf?_eq_none_iff.mp hidx)
  | some i =>
    obtain ⟨hlt, hi, -⟩ := List.idxOf?_eq_some_iff.mp hidx
    have hget : ng.sortedIds[i]? = some signer.id := List.getElem?_eq_some_iff.mpr ⟨hlt, hi⟩
    refine ⟨i, ?_, hget, ?_⟩
    · rw [indexOfSigner, hidx]
    · rw [signerAtIndex, hget, hid, ← hsigner]

theorem nodup_iff : ng.sortedIds.Nodup ↔ (signers.map (·.id)).Nodup := h.perm.nodup_iff

/-- The two sides have one length exactly if no id was added twice. -/
theorem size_eq_iff : ng.size = ng.signers.keys.length ↔ (signers.map (·.id)).Nodup := by
  -- the keys are the slice without its repetitions
  have hkeys : ng.signers.keys.Perm ng.sortedIds.dedup := by
    rw [List.perm_ext_iff_of_nodup ng.signers.keys_nodup ng.sortedIds.nodup_dedup]
    intro id
    rw [List.mem_dedup, h.mem_sortedIds, AList.mem_keys]
  rw [← h.nodup_iff, hkeys.length_eq, size]
  constructor
  · intro hlen
    rw [← List.dedup_eq_self]
    exact (List.dedup_sublist _).eq_of_length hlen.symm
  · intro hnd
    rw [hnd.dedup]

/-- Without repeated ids the two sides agree. -/
theorem consistent (hnd : (signers.map (·.id)).Nodup) : ng.Consistent := by
  have hids := h.nodup_iff.mpr hnd
  have hsize := h.size_eq_iff.mpr hnd
  refine ⟨?_, h.mem_sortedIds, hsize, ?_, ?_, ?_, ?_⟩
  · exact (h.sorted.and hids).imp fun ⟨hle, hne⟩ => lt_of_le_of_ne hle hne
  · intro id signer hsigner
    obtain ⟨i, -, hi, -⟩ := h.indexOfSigner_eq hsigner
    refine ⟨i, hi, fun j hj => ?_⟩
    obtain ⟨hlt, -⟩ := List.getElem?_eq_some_iff.mp hj
    exact (List.getElem?_inj hlt hids).mp (hj.trans hi.symm)
  · intro id signer hsigner
    obtain ⟨i, hi, -, hat⟩ := h.indexOfSigner_eq hsigner
    exact ⟨i, hi, hat⟩
  · exact congrArg quorumOf hsize
  · obtain ⟨keys, hkeys⟩ := h.verKeys_ok
    refine ⟨keys, hkeys, ?_⟩
    intro L signKey completed E conf hE hconf
    obtain ⟨sig, hsig, hlen⟩ := length_of_confirm hE hconf
    exact ⟨sig, hsig, by rw [hlen, verKeys_length hkeys, ← hsize, size]⟩

/-- **The map and the slice agree exactly if no id was added twice.** -/
theorem consistent_iff : ng.Consistent ↔ (signers.map (·.id)).Nodup :=
  ⟨fun hcons => h.size_eq_iff.mp hcons.size, h.consistent⟩

end Added

/--
**A group is consistent exactly if the signers that were added to it have distinct ids.**

The second part is for a group that is made from a configuration.
-/
theorem consistent_iff_distinct :
    (∀ (id : String) (signers : List (Signer C)),
      (ofSigners id signers).Consistent ↔ (signers.map (·.id)).Nodup) ∧
    ∀ (address : Bytes → String) (c : Config C K) (localSigner : Option (Signer C × K)),
      (c.notaryGroup address localSigner).Consistent ↔
        ((c.members address localSigner).map (·.id)).Nodup := by
  refine ⟨fun id signers => (added_ofSigners id signers).consistent_iff, ?_⟩
  intro address c localSigner
  rw [c.notaryGroup_eq]
  exact (added_ofSigners _ _).consistent_iff

/-! ## A configuration that lists a key twice -/

namespace Example

open RoundSubscriber.Example (signKey round)

/-- The address of a key, by its length. -/
def address (value : Bytes) : String := toString value.length

/-- One BLS key under two destination keys. -/
def twice : Config Crypto.unary Nat where
  id := "group"
  signers := [⟨(signKey 0).verKey, 0⟩, ⟨(signKey 0).verKey, 1⟩]

/-- The group of the other nodes. -/
def group : NotaryGroup Crypto.unary := twice.notaryGroup address none

/-- The group of the signer itself, which has only one of the destination keys. -/
def localGroup : NotaryGroup Crypto.unary :=
  twice.notaryGroup address (some (newRemoteSigner address (signKey 0).verKey, 0))

/--
Both groups have one signer and count two, and the one signer has two indices. What it confirms
has a vector of length 1, for which no verifier restores a key.
-/
theorem key_listed_twice :
    group.sortedIds = ["2", "2"] ∧ group.signers.keys = ["2"] ∧ group.quorumCount = 2 ∧
      localGroup.sortedIds = ["2", "2"] ∧ localGroup.signers.keys = ["2"] ∧
      ¬ group.Consistent ∧ ¬ localGroup.Consistent ∧
      ∃ E conf sig keys, newNodeEnv Ipld.inFull localGroup (signKey 0) = .ok E ∧
        Node.confirmCompletedRound E (round 6) = .ok conf ∧ conf.signature = some sig ∧
        group.verKeys = .ok keys ∧ restoreBLSPublicKey sig keys = .error (.error
          "error known verkeys length did not match signers length: 2 != 1") := by
  have hgroup : group.sortedIds = ["2", "2"] := by decide +kernel
  have hlocal : localGroup.sortedIds = ["2", "2"] := by decide +kernel
  refine ⟨hgroup, by decide +kernel, ?_, hlocal, by decide +kernel, ?_, ?_, ?_⟩
  · rw [quorumCount, hgroup, quorumOf_eq]
    rfl
  · intro h
    exact absurd h.sorted (by rw [hgroup]; decide)
  · intro h
    exact absurd h.sorted (by rw [hlocal]; decide)
  · exact ⟨_, _, _, _, rfl, rfl, rfl, rfl, by decide +kernel⟩

end Example

end NotaryGroup

end Tupelo

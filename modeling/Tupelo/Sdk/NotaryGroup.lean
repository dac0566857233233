import Mathlib.Data.Rat.Floor
import Mathlib.Data.List.AList
import Mathlib.Data.List.Sort
import Mathlib.Data.Set.Card
import Tupelo.Infra.Quorum
import Tupelo.Ipld
import Tupelo.Sdk.Signatures

/-!
# Notary groups and their quorums

The model of `sdk/gossip/types/notarygroup.go`, and what a quorum of a group is worth.

A signer of the group stands at one index, the position of its id in `sortedIds`, and that is
where it stands in every vector of signers. Quorums are counted over indices.

The section on what signers do has the argument that two confirmations share: two quorums that
sign rounds of one height have a signer in common that signs at most one round of each height.
-/

namespace Tupelo

open Infra

/-- `types.Signer`, with the fields a verifier reads. -/
structure Signer (C : Crypto) where
  id : String
  verKey : VerKey C

/-- `types.NotaryGroup`. -/
structure NotaryGroup (C : Crypto) where
  id : String
  signers : AList fun _ : String => Signer C
  sortedIds : List String

/-- `⌈n / 3 * 2⌉`. The code computes it in `float64`, which is exact for every length of a slice. -/
def quorumOf (n : Nat) : Nat := ⌈(n : ℚ) / 3 * 2⌉₊

namespace NotaryGroup

variable {C : Crypto}

def new (C : Crypto) (id : String) : NotaryGroup C := { id, signers := ∅, sortedIds := [] }

def addSigner (ng : NotaryGroup C) (signer : Signer C) : NotaryGroup C :=
  { ng with
    signers := ng.signers.insert signer.id signer
    sortedIds := (ng.sortedIds ++ [signer.id]).insertionSort (· ≤ ·) }

def allSigners (ng : NotaryGroup C) : List (Option (Signer C)) :=
  ng.sortedIds.map fun id => ng.signers.lookup id

def quorumCount (ng : NotaryGroup C) : Nat := quorumOf ng.sortedIds.length

/-- The verification keys in the order of the indices, `s.VerKey` for every `s`. -/
def verKeys (ng : NotaryGroup C) : Except Fault (List (VerKey C)) :=
  ng.allSigners.mapM fun s => do
    let signer ← deref s
    pure signer.verKey

end NotaryGroup

/-! ## Quorums -/

theorem quorumOf_eq (n : Nat) : quorumOf n = (2 * n + 2) / 3 := by
  unfold quorumOf
  apply le_antisymm
  · rw [Nat.ceil_le]
    have h : 2 * n ≤ 3 * ((2 * n + 2) / 3) := by omega
    have h' : (2 * n : ℚ) ≤ 3 * (((2 * n + 2) / 3 : ℕ) : ℚ) := by exact_mod_cast h
    linarith
  · have h : (n : ℚ) / 3 * 2 ≤ (⌈(n : ℚ) / 3 * 2⌉₊ : ℚ) := Nat.le_ceil _
    have h' : (2 * n : ℚ) ≤ 3 * (⌈(n : ℚ) / 3 * 2⌉₊ : ℚ) := by linarith
    have h'' : 2 * n ≤ 3 * ⌈(n : ℚ) / 3 * 2⌉₊ := by exact_mod_cast h'
    omega

theorem NotaryGroup.verKeys_length {C : Crypto} {ng : NotaryGroup C} {keys : List (VerKey C)}
    (h : ng.verKeys = .ok keys) : keys.length = ng.sortedIds.length := by
  rw [mapM_length h, allSigners, List.length_map]

/-- The quorum of a group is that of the number of its keys. -/
theorem NotaryGroup.quorumCount_eq {C : Crypto} {ng : NotaryGroup C} {keys : List (VerKey C)}
    (h : ng.verKeys = .ok keys) : ng.quorumCount = quorumOf keys.length := by
  rw [quorumCount, verKeys_length h]

/-! ## What signers do -/

section Signing

variable {C : Crypto} (L : Ipld) (keys : List (VerKey C)) (signed : VerKey C → Bytes → Prop)

/-- The holder of the key signs two rounds of one height. -/
def Equivocates (key : VerKey C) : Prop :=
  ∃ r r' : Round, r.height = r'.height ∧ L.cidOf (.round r) ≠ L.cidOf (.round r') ∧
    signed key (L.cidOf (.round r)).bytes ∧ signed key (L.cidOf (.round r')).bytes

/-- At most `⌊(n - 1) / 3⌋` of the `n` signers equivocate. -/
def FewEquivocate : Prop :=
  (Set.ncard {k | k ∈ keys ∧ Equivocates L signed k} : ℤ) ≤ ((keys.length : ℤ) - 1) / 3

/-- A signature that verifies under the key restored from its vector was made by all it counts. -/
def Unforgeable : Prop :=
  ∀ (run : Script) (s s' : Signature) (msg : Bytes), restoreBLSPublicKey s keys = .ok s' →
    valid C run s' msg = .ok true →
    ∀ (i : Nat) (hi : i < keys.length), s'.Counts i → signed keys[i] msg

variable {L keys signed}

/-- Restoring the key checks the length of the vector, so whoever counts is in the group. -/
theorem Unforgeable.signed_of_counts (hunf : Unforgeable keys signed) {run : Script}
    {s s' : Signature} {msg : Bytes} (hrestore : restoreBLSPublicKey s keys = .ok s')
    (hvalid : valid C run s' msg = .ok true) {i : Nat} (hi : s'.Counts i) :
    ∃ hi : i < keys.length, signed keys[i] msg := by
  obtain ⟨hlen, hsigners, -⟩ := restoreBLSPublicKey_ok hrestore
  have hlt : i < keys.length := by
    rw [hlen, ← hsigners]
    exact Signature.lt_of_counts hi
  exact ⟨hlt, hunf run s s' msg hrestore hvalid i hlt hi⟩

/--
**Two quorums share a signer that does not equivocate.**

The quorums are sets of indices. Distinct keys make them sets of keys of the same size, and
among these the equivocating ones are few.
-/
theorem exists_sound_common (hnd : keys.Nodup) (hfew : FewEquivocate L keys signed)
    {a b : Finset Nat} (ha : ∀ i ∈ a, i < keys.length) (hb : ∀ i ∈ b, i < keys.length)
    (hqa : quorumOf keys.length ≤ a.card) (hqb : quorumOf keys.length ≤ b.card) :
    ∃ (i : Nat) (hi : i < keys.length), i ∈ a ∧ i ∈ b ∧ ¬ Equivocates L signed keys[i] := by
  classical
  have hS : {k | k ∈ keys ∧ Equivocates L signed k}
      = ((keys.toFinset.filter (Equivocates L signed) : Finset (VerKey C)) : Set (VerKey C)) := by
    ext k
    simp
  unfold FewEquivocate at hfew
  rw [hS, Set.ncard_coe_finset] at hfew
  -- an index is faulty when the key that stands there equivocates
  let faulty : Finset Nat := (Finset.range keys.length).filter fun i =>
    ∃ k, keys[i]? = some k ∧ Equivocates L signed k
  have hcard : faulty.card ≤ (keys.toFinset.filter (Equivocates L signed)).card := by
    rw [← Finset.card_map (f := ⟨some, Option.some_injective (VerKey C)⟩)
      (s := keys.toFinset.filter (Equivocates L signed))]
    refine Finset.card_le_card_of_injOn (fun i => keys[i]?) ?_ ?_
    · intro i hi
      obtain ⟨-, k, hk, he⟩ := Finset.mem_filter.mp hi
      have hmem : k ∈ keys := List.mem_of_getElem? hk
      simpa [hk] using ⟨hmem, he⟩
    · intro i hi j _ hij
      have hlt : i < keys.length := Finset.mem_range.mp (Finset.mem_filter.mp hi).1
      exact List.getElem?_inj hlt hnd |>.mp hij
  have hsize : (Finset.range keys.length).card + faulty.card < a.card + b.card := by
    rw [quorumOf_eq] at hqa hqb
    rw [Finset.card_range]
    refine Quorum.two_thirds_overlap hqa hqb (le_trans ?_ hfew)
    exact_mod_cast hcard
  obtain ⟨i, hia, hib, hif⟩ := Quorum.exists_mem_inter_not_mem
    (fun i hi => Finset.mem_range.mpr (ha i hi)) (fun i hi => Finset.mem_range.mpr (hb i hi)) hsize
  have hi := ha i hia
  refine ⟨i, hi, hia, hib, fun he => hif ?_⟩
  exact Finset.mem_filter.mpr
    ⟨Finset.mem_range.mpr hi, keys[i], List.getElem?_eq_getElem hi, he⟩

/--
Two quorums, each signing a round: if the heights in the rounds are equal, a signer that does
not equivocate is in both, and the rounds are one.
-/
theorem exists_sound_signer (hnd : keys.Nodup) (hfew : FewEquivocate L keys signed)
    {ra rb : Round} (hheight : ra.height = rb.height) {a b : Finset Nat}
    (hqa : quorumOf keys.length ≤ a.card) (hqb : quorumOf keys.length ≤ b.card)
    (ha : ∀ i ∈ a, ∃ hi : i < keys.length, signed keys[i] (L.cidOf (.round ra)).bytes)
    (hb : ∀ i ∈ b, ∃ hi : i < keys.length, signed keys[i] (L.cidOf (.round rb)).bytes) :
    ∃ key ∈ keys, ¬ Equivocates L signed key ∧ signed key (L.cidOf (.round ra)).bytes ∧
      L.cidOf (.round ra) = L.cidOf (.round rb) := by
  obtain ⟨i, hi, hia, hib, hsound⟩ := exists_sound_common hnd hfew
    (fun i hi => (ha i hi).1) (fun i hi => (hb i hi).1) hqa hqb
  refine ⟨keys[i], List.getElem_mem hi, hsound, (ha i hia).2, ?_⟩
  by_contra hne
  exact hsound ⟨ra, rb, hheight, hne, (ha i hia).2, (hb i hib).2⟩

end Signing

/-! ## A scheme in which everyone signs the same messages -/

/-- A signature scheme under which exactly the given messages verify, whoever signs. -/
def Crypto.signing (msgs : List Bytes) : Crypto where
  Point := Unit
  unmarshal := fun _ => some ()
  marshal := fun _ => .ok [1]
  aggregatePublicKeys := fun _ => ()
  aggregateSignatures := fun _ => .ok [1]
  verify := fun _ msg _ => decide (msg ∈ msgs)
  verifyEcdsa := fun _ _ _ => false

/-- The keys of two signers. -/
def Crypto.twoKeys (msgs : List Bytes) : List (VerKey (Crypto.signing msgs)) :=
  [⟨[1], ()⟩, ⟨[2], ()⟩]

theorem Crypto.twoKeys_nodup (msgs : List Bytes) : (Crypto.twoKeys msgs).Nodup := by
  refine List.nodup_cons.mpr ⟨fun h => ?_, List.nodup_singleton _⟩
  have h12 := congrArg VerKey.value (List.mem_singleton.mp h)
  exact absurd (show ([1] : Bytes) = [2] from h12) (by decide)

theorem Crypto.mem_of_valid_signing {msgs : List Bytes} {run : Script} {s : Signature}
    {msg : Bytes} (h : valid (Crypto.signing msgs) run s msg = .ok true) : msg ∈ msgs := by
  obtain ⟨ownership, -, h⟩ := bind_eq_ok.mp h
  obtain ⟨publicKey, -, h⟩ := bind_eq_ok.mp h
  obtain ⟨-, h⟩ := guard_eq_ok h
  obtain ⟨conditionsValid, -, h⟩ := bind_eq_ok.mp h
  split at h
  · exact absurd (pure_eq_ok.mp h) Bool.false_ne_true
  · split at h
    · split at h
      · cases h
      · exact absurd (pure_eq_ok.mp h) Bool.false_ne_true
    · obtain ⟨verKey, -, h⟩ := bind_eq_ok.mp h
      exact of_decide_eq_true (pure_eq_ok.mp h)
    · cases h

/-- Everyone who counts has signed: all messages that verify are messages everyone signs. -/
theorem Crypto.unforgeable_signing (msgs : List Bytes)
    (keys : List (VerKey (Crypto.signing msgs))) :
    Unforgeable keys fun _ msg => msg ∈ msgs := by
  intro run s s' msg _ hvalid i hi _
  exact Crypto.mem_of_valid_signing hvalid

/-- With one message to sign there is nothing to equivocate about. -/
theorem Crypto.fewEquivocate_signing (L : Ipld) (m : Bytes)
    {keys : List (VerKey (Crypto.signing [m]))} (hne : keys ≠ []) :
    FewEquivocate L keys fun _ msg => msg ∈ [m] := by
  have hempty : {k | k ∈ keys ∧ Equivocates L (fun _ msg => msg ∈ [m]) k} = ∅ := by
    rw [Set.eq_empty_iff_forall_notMem]
    rintro k ⟨-, r, r', -, hne, hr, hr'⟩
    rw [List.mem_singleton] at hr hr'
    have hbytes := hr.trans hr'.symm
    cases hc : L.cidOf (.round r)
    cases hc' : L.cidOf (.round r')
    rw [hc, hc'] at hbytes
    exact hne (by rw [hc, hc']; exact congrArg Cid.mk hbytes)
  have hlen : 0 < keys.length := List.length_pos_iff.mpr hne
  unfold FewEquivocate
  rw [hempty, Set.ncard_empty]
  omega

end Tupelo

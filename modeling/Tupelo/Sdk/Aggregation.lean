import Mathlib.Algebra.BigOperators.Group.List.Basic
import Tupelo.Sdk.Signatures

/-!
# Adding signatures

What the program relies on when it adds signatures, and what the sum of two signatures is then
worth.

A vector of signers stands for a key, the sum of the signers' keys, each as often as it counts.
`restoreBLSPublicKey` writes that key into a signature. `aggregateBLSSignatures` does not look
at the vectors when it makes the key of a sum: it adds the two keys it finds. Both come to the
same because the keys form a commutative monoid, and the sum verifies because the scheme is
additive.
-/

namespace Tupelo

open Infra

variable {C : Crypto}

/-! ## The key of a vector -/

section KeySum

variable [AddCommMonoid C.Point]

/-- The sum of the keys, each as often as its signer counts. -/
def keySum (signers : List UInt32) (keys : List (VerKey C)) : C.Point :=
  ((expandSigners signers keys).map (·.point)).sum

theorem keySum_cons (c : UInt32) (cs : List UInt32) (k : VerKey C) (ks : List (VerKey C)) :
    keySum (c :: cs) (k :: ks) = c.toNat • k.point + keySum cs ks := by
  simp [keySum, expandSigners]

@[simp] theorem keySum_nil_left (ks : List (VerKey C)) : keySum [] ks = 0 := by
  simp [keySum, expandSigners]

@[simp] theorem keySum_nil_right (cs : List UInt32) : keySum cs ([] : List (VerKey C)) = 0 := by
  simp [keySum, expandSigners]

/-- **The key of a sum of vectors is the sum of their keys.** -/
theorem keySum_add : ∀ {as bs rs : List UInt32} (keys : List (VerKey C)),
    as.length = bs.length → rs.length = as.length →
    (∀ i, (rs.getD i 0).toNat = (as.getD i 0).toNat + (bs.getD i 0).toNat) →
    keySum rs keys = keySum as keys + keySum bs keys
  | _, _, _, [], _, _, _ => by simp
  | [], [], [], k :: ks, _, _, _ => by simp
  | a :: as, b :: bs, r :: rs, k :: ks, hlen, hlen', hsum => by
    have hhead : r.toNat = a.toNat + b.toNat := by simpa using hsum 0
    have htail := keySum_add ks (by simpa using hlen) (by simpa using hlen')
      (fun i => by simpa using hsum (i + 1))
    rw [keySum_cons, keySum_cons, keySum_cons, hhead, htail, add_nsmul, add_add_add_comm]

theorem keySum_replicate_zero : ∀ (n : Nat) (keys : List (VerKey C)),
    keySum (List.replicate n 0) keys = 0
  | 0, _ => by simp
  | _ + 1, [] => by simp
  | n + 1, k :: ks => by
    rw [List.replicate_succ, keySum_cons, keySum_replicate_zero n ks]
    simp

/-- The key of one signer that counts once is its own. -/
theorem keySum_single : ∀ {keys : List (VerKey C)} {i : Nat} {key : VerKey C},
    keys[i]? = some key → keySum ((List.replicate keys.length 0).set i 1) keys = key.point
  | [], _, _, h => by simp at h
  | k :: ks, 0, key, h => by
    have hk : k = key := by simpa using h
    rw [List.length_cons, List.replicate_succ, List.set_cons_zero, keySum_cons,
      keySum_replicate_zero, hk, add_zero]
    exact one_nsmul _
  | k :: ks, i + 1, key, h => by
    rw [List.length_cons, List.replicate_succ, List.set_cons_succ, keySum_cons,
      keySum_single (by simpa using h)]
    simp

end KeySum

/-- One signer that counts once. -/
theorem Signature.counts_single {s : Signature} {n i : Nat} (hi : i < n)
    (hs : s.signers = (List.replicate n 0).set i 1) (j : Nat) : s.Counts j ↔ j = i := by
  unfold Counts
  rw [hs, List.getD_eq_getElem?_getD]
  by_cases hj : j = i
  · subst hj
    rw [List.getElem?_set_self (by simpa using hi)]
    simp
  · rw [List.getElem?_set_ne (fun h => hj h.symm), List.getElem?_replicate]
    have hzero : ((if j < n then some (0 : UInt32) else none).getD 0).toNat = 0 := by
      split <;> rfl
    rw [hzero]
    simp [hj]

/-! ## What is assumed of the scheme -/

/--
**BLS aggregation is additive.** Keys are added as points, a point can be read back from its
bytes, of which there are some, and the sum of two signatures of a message verifies under the sum
of their keys.
-/
structure Crypto.Additive (C : Crypto) [AddCommMonoid C.Point] : Prop where
  aggregatePublicKeys : ∀ points, C.aggregatePublicKeys points = points.sum
  unmarshal_marshal : ∀ point key, C.marshal point = .ok key → C.unmarshal key = some point
  marshal_ne_nil : ∀ point, C.marshal point ≠ .ok []
  verify_add : ∀ p q msg s t r, C.verify p msg s = true → C.verify q msg t = true →
    C.aggregateSignatures [s, t] = .ok r → C.verify (p + q) msg r = true

/-- The part of it that the keys of signatures depend on. -/
structure Crypto.AddsKeys (C : Crypto) [AddCommMonoid C.Point] : Prop where
  aggregatePublicKeys : ∀ points, C.aggregatePublicKeys points = points.sum
  unmarshal_marshal : ∀ point key, C.marshal point = .ok key → C.unmarshal key = some point

theorem Crypto.Additive.addsKeys [AddCommMonoid C.Point] (hC : C.Additive) : C.AddsKeys :=
  ⟨hC.aggregatePublicKeys, hC.unmarshal_marshal⟩

/-- Points have bytes, and signatures of one message can be added. -/
structure Crypto.Total (C : Crypto) : Prop where
  marshal : ∀ point, ∃ key, C.marshal point = .ok key
  aggregateSignatures : ∀ p q msg s t, C.verify p msg s = true → C.verify q msg t = true →
    ∃ r, C.aggregateSignatures [s, t] = .ok r

/-! ## Signatures with their key restored -/

/-- Restoring the key changes nothing: the signature carries the key of its vector. -/
def Signature.Restored (keys : List (VerKey C)) (s : Signature) : Prop :=
  restoreBLSPublicKey s keys = .ok s

/-- The conditions of the signature evaluate to true. -/
def Signature.ConditionsHold (run : Script) (s : Signature) : Prop :=
  ∃ ownership, s.ownership = some ownership ∧ validConditions run s ownership = .ok true

theorem Signature.restored_of_restore {keys : List (VerKey C)} {s s' : Signature}
    (h : restoreBLSPublicKey s keys = .ok s') : s'.Restored keys := by
  obtain ⟨hlen, h⟩ := guard_eq_ok h
  obtain ⟨-, h⟩ := guard_eq_ok h
  obtain ⟨key, hkey, h⟩ := bind_eq_ok.mp h
  obtain ⟨ownership, hown, h⟩ := bind_eq_ok.mp h
  have hs' := pure_eq_ok.mp h
  subst hs'
  unfold Restored restoreBLSPublicKey
  rw [if_neg hlen, Option.any_none, if_neg Bool.false_ne_true]
  simp only [hkey, ok_bind, deref]
  rfl

/-- The key a signature carries decodes to one point. -/
theorem Signature.HasKey.unique {s : Signature} {p q : C.Point} (hp : s.HasKey C p)
    (hq : s.HasKey C q) : p = q := by
  obtain ⟨ownership, key, hown, hkey, hpoint⟩ := hp
  obtain ⟨ownership', key', hown', hkey', hpoint'⟩ := hq
  obtain rfl := Option.some.inj (hown.symm.trans hown')
  obtain rfl := PublicKey.mk.inj (Option.some.inj (hkey.symm.trans hkey')) |>.2
  exact Option.some.inj (hpoint.symm.trans hpoint')

section Restored

variable [AddCommMonoid C.Point] {keys : List (VerKey C)} {s : Signature}

/-- The signature verifies under the key of its vector. -/
def Signature.Signs (keys : List (VerKey C)) (s : Signature) (msg : Bytes) : Prop :=
  C.verify (keySum s.signers keys) msg s.signature = true

/-- The key a restored signature carries. -/
theorem Signature.Restored.key (hC : C.AddsKeys) (h : s.Restored keys) :
    keys.length = s.signers.length ∧ ∃ ownership key, s.ownership = some ownership ∧
      ownership.publicKey = some ⟨.blsGroupSig, key⟩ ∧
      C.marshal (keySum s.signers keys) = .ok key := by
  obtain ⟨hlen, -, -, ownership, key, hown, hkey, hown'⟩ := restoreBLSPublicKey_ok h
  obtain ⟨hmarshal, -⟩ := sumVerKeys_ok hkey
  rw [hC.aggregatePublicKeys] at hmarshal
  exact ⟨hlen, _, key.value, hown', rfl, hmarshal⟩

theorem Signature.Restored.hasKey (hC : C.AddsKeys) (h : s.Restored keys) :
    s.HasKey C (keySum s.signers keys) := by
  obtain ⟨-, ownership, key, hown, hpub, hmarshal⟩ := h.key hC
  exact ⟨ownership, key, hown, hpub, hC.unmarshal_marshal _ _ hmarshal⟩

/-- What restoring makes of a signature, when the key of its vector has bytes. -/
theorem restoreBLSPublicKey_of_key (hC : C.AddsKeys) (hlen : keys.length = s.signers.length)
    {ownership : Ownership} {key : Bytes} (hown : s.ownership = some ownership)
    (hmarshal : C.marshal (keySum s.signers keys) = .ok key) :
    restoreBLSPublicKey s keys = .ok { s with
      ownership := some { ownership with publicKey := some ⟨.blsGroupSig, key⟩ } } := by
  have hsum : sumVerKeys (expandSigners s.signers keys)
      = .ok ⟨key, C.aggregatePublicKeys ((expandSigners s.signers keys).map (·.point))⟩ := by
    unfold sumVerKeys
    rw [hC.aggregatePublicKeys]
    unfold keySum at hmarshal
    simp only [hmarshal]
  unfold restoreBLSPublicKey
  rw [if_neg (not_not.mpr hlen), Option.any_none, if_neg Bool.false_ne_true]
  simp only [hsum, wrapErr, ok_bind, hown, deref]
  rfl

/-- A signature that carries the key of its vector is restored. -/
theorem Signature.restored_of_key (hC : C.AddsKeys) (hlen : keys.length = s.signers.length)
    {ownership : Ownership} {key : Bytes} (hown : s.ownership = some ownership)
    (hpub : ownership.publicKey = some ⟨.blsGroupSig, key⟩)
    (hmarshal : C.marshal (keySum s.signers keys) = .ok key) : s.Restored keys := by
  unfold Restored
  rw [restoreBLSPublicKey_of_key hC hlen hown hmarshal, ← hpub, ← hown]

/-- **What a restored signature must meet to be valid.** -/
theorem Signature.valid_iff (hC : C.Additive) (h : s.Restored keys) (run : Script) (msg : Bytes) :
    valid C run s msg = .ok true ↔ s.ConditionsHold run ∧ s.Signs keys msg := by
  obtain ⟨-, ownership, key, hown, hpub, hmarshal⟩ := h.key hC.addsKeys
  have hne : key.length ≠ 0 := by
    intro h0
    rw [List.length_eq_zero_iff.mp h0] at hmarshal
    exact hC.marshal_ne_nil _ hmarshal
  have hpoint := hC.unmarshal_marshal _ _ hmarshal
  have hvalid : valid C run s msg = (do
      let conditionsValid ← wrapErr "error validating conditions: "
        (validConditions run s ownership)
      if !conditionsValid then pure false
      else pure (C.verify (keySum s.signers keys) msg s.signature)) := by
    unfold valid
    simp only [hown, deref, ok_bind, hpub, if_neg hne, bytesToVerKey, hpoint, VerKey.verify]
  rw [hvalid]
  constructor
  · intro hv
    obtain ⟨c, hc, hv⟩ := bind_eq_ok.mp hv
    rw [wrapErr_eq_ok] at hc
    cases c with
    | false => exact absurd (pure_eq_ok.mp hv) Bool.false_ne_true
    | true => exact ⟨⟨ownership, hown, hc⟩, pure_eq_ok.mp hv⟩
  · rintro ⟨⟨ownership', hown', hc⟩, hsigns⟩
    obtain rfl := Option.some.inj (hown.symm.trans hown')
    unfold Signs at hsigns
    rw [hc, hsigns]
    rfl

/-- **The sum of two restored signatures of a message is a restored signature of it.** -/
theorem Signature.aggregate (hC : C.Additive) {a b r : Signature} (ha : a.Restored keys)
    (hb : b.Restored keys) (hagg : aggregateBLSSignatures C [a, b] = .ok r) :
    r.Restored keys ∧ (∀ run, r.ConditionsHold run) ∧
      ∀ msg, a.Signs keys msg → b.Signs keys msg → r.Signs keys msg := by
  obtain ⟨p, q, key, hr⟩ := aggregateBLSSignatures_pair hagg
  have hp : p = keySum a.signers keys := hr.hasKey_left.unique (ha.hasKey hC.addsKeys)
  have hq : q = keySum b.signers keys := hr.hasKey_right.unique (hb.hasKey hC.addsKeys)
  have hsum : keySum r.signers keys = p + q := by
    rw [keySum_add keys hr.length hr.length_eq hr.signers, hp, hq]
  have hlen : keys.length = r.signers.length := by
    rw [hr.length_eq]
    exact (ha.key hC.addsKeys).1
  have hmarshal : C.marshal (keySum r.signers keys) = .ok key := by
    rw [hsum, ← hr.marshal, hC.aggregatePublicKeys]
    simp
  refine ⟨restored_of_key hC.addsKeys hlen hr.ownership rfl hmarshal, fun run => ?_, ?_⟩
  · exact ⟨_, hr.ownership, rfl⟩
  · intro msg hsa hsb
    unfold Signs at hsa hsb ⊢
    rw [← hp] at hsa
    rw [← hq] at hsb
    rw [hsum]
    exact hC.verify_add _ _ _ _ _ _ hsa hsb hr.signature

end Restored

/-! ## A scheme that adds -/

namespace Crypto

/-- The signature of the key `p`: the key in unary, then the message. -/
def unarySign (p : Nat) (msg : Bytes) : Bytes := List.replicate p 0 ++ 1 :: msg

/--
A scheme whose keys are numbers. A signature says which keys made it, so that it verifies under
their sum and under no other key.
-/
def unary : Crypto where
  Point := Nat
  unmarshal := fun key => if key = [] then none else some (key.length - 1)
  marshal := fun p => .ok (List.replicate (p + 1) 0)
  aggregatePublicKeys := fun points => points.sum
  aggregateSignatures := fun sigs => match sigs with
    | [] => .error "no signatures"
    | s :: rest =>
      let keys := (s :: rest).map fun t => (t.takeWhile (· == 0)).length
      .ok (List.replicate keys.sum 0 ++ s.dropWhile (· == 0))
  verify := fun p msg sig => decide (sig = unarySign p msg)
  verifyEcdsa := fun _ _ _ => false

instance : AddCommMonoid unary.Point := inferInstanceAs (AddCommMonoid Nat)

theorem takeWhile_unarySign (p : Nat) (msg : Bytes) :
    (unarySign p msg).takeWhile (· == 0) = List.replicate p 0 := by
  unfold unarySign
  rw [List.takeWhile_append_of_pos (by simp)]
  simp

theorem dropWhile_unarySign (p : Nat) (msg : Bytes) :
    (unarySign p msg).dropWhile (· == 0) = 1 :: msg := by
  unfold unarySign
  rw [List.dropWhile_append_of_pos (by simp)]
  simp

theorem unary_aggregate (p q : Nat) (msg : Bytes) :
    unary.aggregateSignatures [unarySign p msg, unarySign q msg]
      = .ok (unarySign (p + q) msg) := by
  simp only [unary, List.map_cons, List.map_nil, takeWhile_unarySign, dropWhile_unarySign,
    List.length_replicate, List.sum_cons, List.sum_nil, Nat.add_zero]
  rfl

theorem unary_additive : unary.Additive where
  aggregatePublicKeys := fun points => rfl
  unmarshal_marshal := by
    intro p key h
    have hkey := Except.ok.inj h
    rw [← hkey]
    simp [unary, List.replicate_succ]
  marshal_ne_nil := by
    intro p h
    have hkey := Except.ok.inj h
    simp at hkey
  verify_add := by
    intro p q msg s t r hs ht hr
    have hs' : s = unarySign p msg := of_decide_eq_true hs
    have ht' : t = unarySign q msg := of_decide_eq_true ht
    rw [hs', ht'] at hr
    have hsum := (unary_aggregate p q msg).symm.trans hr
    exact decide_eq_true (Except.ok.inj hsum).symm

theorem unary_total : unary.Total where
  marshal := fun _ => ⟨_, rfl⟩
  aggregateSignatures := fun _ _ _ _ _ _ _ => ⟨_, rfl⟩

end Crypto

end Tupelo

import Mathlib.Algebra.BigOperators.Intervals
import Tupelo.Infra.Except
import Tupelo.Messages

/-!
# BLS signatures

The model of `sdk/bls/bls.go` and of the BLS side of `sdk/signatures/signature.go`.

The curve arithmetic (kyber), the ECDSA check and the interpreter for condition scripts are
not part of the repository; `Crypto` is what the program calls of them. A signature carries a
vector `signers` that says how often each signer of the group is in it. `restoreBLSPublicKey`
turns that vector into the key the signature must verify under, and `aggregateBLSSignatures`
adds signatures, keys and vectors.
-/

namespace Tupelo

open Infra

/-- The third-party cryptography the program calls. -/
structure Crypto where
  /-- `kyber.Point`. -/
  Point : Type
  /-- `point.UnmarshalBinary`. -/
  unmarshal : Bytes → Option Point
  /-- `point.MarshalBinary`. -/
  marshal : Point → Except String Bytes
  /-- `dedisbls.AggregatePublicKeys`. -/
  aggregatePublicKeys : List Point → Point
  /-- `dedisbls.AggregateSignatures`. -/
  aggregateSignatures : List Bytes → Except String Bytes
  /-- `dedisbls.Verify`, by whether it returns no error. -/
  verify : Point → Bytes → Bytes → Bool
  /-- `crypto.VerifySignature`. -/
  verifyEcdsa : Bytes → Bytes → Bytes → Bool

/-- `parens.ExecuteStr`: what a condition script, run with a preimage, evaluates to (`== true`). -/
abbrev Script := (conditions preImage : String) → Except String Bool

/-! ## `bls.go` -/

/-- `bls.VerKey`. -/
structure VerKey (C : Crypto) where
  value : Bytes
  point : C.Point

/-- `bls.SignKey`, by its verification key and what `Sign` returns. -/
structure SignKey (C : Crypto) where
  verKey : VerKey C
  sign : Bytes → Except String Bytes

variable {C : Crypto}
variable {keys : List (VerKey C)} {a b s s' : Signature}

def bytesToVerKey (C : Crypto) (keyBytes : Bytes) : Except Fault (VerKey C) :=
  match C.unmarshal keyBytes with
  | some point => .ok { value := keyBytes, point }
  | none => .error (.panic "invalid verkey bytes")

def VerKey.verify (vk : VerKey C) (sig msg : Bytes) : Bool := C.verify vk.point msg sig

def sumSignatures (C : Crypto) (sigs : List Bytes) : Except Fault Bytes :=
  (C.aggregateSignatures sigs).mapError .error

def sumVerKeys (verKeys : List (VerKey C)) : Except Fault (VerKey C) :=
  let aggregatedPublic := C.aggregatePublicKeys (verKeys.map (·.point))
  match C.marshal aggregatedPublic with
  | .ok pubBytes => .ok { value := pubBytes, point := aggregatedPublic }
  | .error err => .error (.error s!"error marshaling: {err}")

/-! ## `signature.go` -/

/-- The keys of the signers, each as often as it counts. -/
def expandSigners (signers : List UInt32) (knownVerKeys : List (VerKey C)) : List (VerKey C) :=
  (signers.zip knownVerKeys).flatMap fun e => List.replicate e.1.toNat e.2

/-- The pointers to keys that `RestoreBLSPublicKey` makes slices of: one for every count. -/
def Signature.pointers (s : Signature) : Nat := (s.signers.map (·.toNat)).sum

/-- Where `room` is given, the runtime has memory for so many pointers and no more. -/
def restoreBLSPublicKey (s : Signature) (knownVerKeys : List (VerKey C))
    (room : Option Nat := none) : Except Fault Signature :=
  let known := knownVerKeys.length
  let given := s.signers.length
  if known ≠ given then
    .error (.error s!"error known verkeys length did not match signers length: {known} != {given}")
  else if room.any (· < s.pointers) then
    -- `make([]*bls.VerKey, cnt)` or `append`: the process ends, or panics where `int` has 32 bits
    .error (.panic "makeslice: len out of range")
  else do
    let key ← wrapErr "error summing keys: " (sumVerKeys (expandSigners s.signers knownVerKeys))
    -- `s.Ownership.PublicKey = ...`
    let ownership ← deref s.ownership
    let publicKey : PublicKey := { type := .blsGroupSig, publicKey := key.value }
    pure { s with ownership := some { ownership with publicKey := some publicKey } }

def validConditions (run : Script) (s : Signature) (ownership : Ownership) : Except Fault Bool :=
  if ownership.conditions = "" then .ok true
  else match run ownership.conditions s.preImage with
    | .ok res => .ok res
    | .error err => .error (.error s!"error executing script: {err}")

def valid (C : Crypto) (run : Script) (s : Signature) (hsh : Bytes) : Except Fault Bool := do
  let ownership ← deref s.ownership
  let publicKey ← deref ownership.publicKey
  if publicKey.publicKey.length = 0 then
    .error (.error "public key was 0, perhaps you forgot to restore it from sig?")
  else
    let conditionsValid ← wrapErr "error validating conditions: " (validConditions run s ownership)
    if !conditionsValid then pure false
    else match publicKey.type with
      | .secp256k1 =>
        -- `s.Signature[:len(s.Signature)-1]`
        if s.signature.length = 0 then .error (.panic "slice bounds out of range")
        else pure (C.verifyEcdsa publicKey.publicKey hsh s.signature.dropLast)
      | .blsGroupSig => do
        let verKey ← bytesToVerKey C publicKey.publicKey
        pure (verKey.verify s.signature hsh)
      | .other n => .error (.error s!"Unknown key type {n}")

def blsToOwnership (key : VerKey C) : Ownership :=
  { publicKey := some { type := .blsGroupSig, publicKey := key.value }, conditions := "" }

def blsSign (key : SignKey C) (hsh : Bytes) (signerLen signerIndex : Nat) :
    Except Fault Signature :=
  if signerLen ≤ signerIndex then
    .error (.error
      s!"signer index must be less than signer length i: {signerLen}, l: {signerIndex}")
  else match key.sign hsh with
    | .error err => .error (.error s!"Error signing: {err}")
    | .ok sig => .ok
      { ownership := some (blsToOwnership key.verKey)
        signers := (List.replicate signerLen 0).set signerIndex 1
        signature := sig, preImage := "" }

/-- How many signers are in the signature, however often. -/
def signerCount (sig : Signature) : Nat := sig.signers.countP (0 < ·)

/-- Adds one signature's vector to the sum so far, index by index, unless a count would overflow. -/
def addSigners : List UInt32 → List UInt32 → Except Fault (List UInt32)
  | existing :: es, cnt :: cs =>
    if cnt > 0xFFFFFFFF - existing ∨ existing > 0xFFFFFFFF - cnt then
      .error (.error s!"error would overflow: {cnt} {existing}")
    else do
      let rest ← addSigners es cs
      pure ((existing + cnt) :: rest)
  | _, _ => .ok []

/-- What the loop of `AggregateBLSSignatures` has collected. -/
structure Aggregate (C : Crypto) where
  signers : List UInt32
  sigsToAggregate : List Bytes
  pubKeysToAggregate : List (VerKey C)

def aggregateOne (signerCount : Nat) (acc : Aggregate C) (sig : Signature) :
    Except Fault (Aggregate C) := do
  let ownership ← deref sig.ownership
  let publicKey ← deref ownership.publicKey
  let given := sig.signers.length
  if publicKey.type ≠ .blsGroupSig then
    .error (.error "wrong signature type, can only aggregate BLS signatures")
  else if given ≠ signerCount then
    .error (.error
      s!"all signatures to aggregate must have the same signer length {given} != {signerCount}")
  else
    let verKey ← bytesToVerKey C publicKey.publicKey
    let signers ← addSigners acc.signers sig.signers
    pure { signers, sigsToAggregate := acc.sigsToAggregate ++ [sig.signature],
           pubKeysToAggregate := acc.pubKeysToAggregate ++ [verKey] }

def aggregateBLSSignatures (C : Crypto) (sigs : List Signature) : Except Fault Signature := do
  -- `sigs[0]`
  let first ← deref sigs.head?
  let signerCount := first.signers.length
  let acc : Aggregate C ← sigs.foldlM (aggregateOne signerCount)
    { signers := List.replicate signerCount 0, sigsToAggregate := [], pubKeysToAggregate := [] }
  let aggregateSig ← wrapErr "error summing signatures: " (sumSignatures C acc.sigsToAggregate)
  let aggregatePublic ← wrapErr "error aggregating verKeys: " (sumVerKeys acc.pubKeysToAggregate)
  let publicKey : PublicKey := { type := .blsGroupSig, publicKey := aggregatePublic.value }
  pure { ownership := some { publicKey := some publicKey, conditions := "" }
         signers := acc.signers, signature := aggregateSig, preImage := "" }

/-! ## Who is in a signature -/

/-- Signer `i` of the group counts in the signature. -/
def Signature.Counts (s : Signature) (i : Nat) : Prop := 0 < (s.signers.getD i 0).toNat

instance (s : Signature) (i : Nat) : Decidable (s.Counts i) := inferInstanceAs (Decidable (_ < _))

/-- The signers that count. -/
def Signature.counted (s : Signature) : Finset Nat :=
  (Finset.range s.signers.length).filter s.Counts

theorem Signature.lt_of_counts {i : Nat} (h : s.Counts i) : i < s.signers.length := by
  by_contra hi
  have hget : s.signers.getD i 0 = 0 := by
    rw [List.getD_eq_getElem?_getD, List.getElem?_eq_none (by omega)]
    rfl
  unfold Counts at h
  rw [hget] at h
  simp at h

@[simp] theorem Signature.mem_counted {i : Nat} : i ∈ s.counted ↔ s.Counts i := by
  unfold counted
  rw [Finset.mem_filter, Finset.mem_range]
  exact ⟨fun h => h.2, fun h => ⟨lt_of_counts h, h⟩⟩

/-- Counting positive entries of a list is counting the indices they stand at. -/
theorem countP_pos_eq_card : ∀ l : List UInt32,
    l.countP (0 < ·) =
      ((Finset.range l.length).filter fun i => 0 < (l.getD i 0).toNat).card
  | [] => rfl
  | c :: l => by
    rw [List.countP_cons, countP_pos_eq_card l, List.length_cons, Finset.card_filter,
      Finset.card_filter, Finset.sum_range_succ']
    simp [UInt32.lt_iff_toNat_lt]

theorem signerCount_eq_card (s : Signature) : signerCount s = s.counted.card :=
  countP_pos_eq_card s.signers

/-! ## What the operations do to the signers -/

theorem sumVerKeys_ok {verKeys : List (VerKey C)} {key : VerKey C}
    (h : sumVerKeys verKeys = .ok key) :
    C.marshal (C.aggregatePublicKeys (verKeys.map (·.point))) = .ok key.value ∧
      key.point = C.aggregatePublicKeys (verKeys.map (·.point)) := by
  unfold sumVerKeys at h
  simp only [] at h
  split at h
  · next pubBytes hm =>
    have hkey := Except.ok.inj h
    subst hkey
    exact ⟨hm, rfl⟩
  · cases h

/-- Restoring the key touches nothing but the key. -/
theorem restoreBLSPublicKey_eq {room : Option Nat} (h : restoreBLSPublicKey s keys room = .ok s') :
    keys.length = s.signers.length ∧ ∃ ownership key, s.ownership = some ownership ∧
      sumVerKeys (expandSigners s.signers keys) = .ok key ∧
      s' = { s with
        ownership := some { ownership with publicKey := some ⟨.blsGroupSig, key.value⟩ } } := by
  obtain ⟨hlen, h⟩ := guard_eq_ok h
  obtain ⟨-, h⟩ := guard_eq_ok h
  obtain ⟨key, hkey, h⟩ := bind_eq_ok.mp h
  obtain ⟨ownership, hown, h⟩ := bind_eq_ok.mp h
  rw [wrapErr_eq_ok] at hkey
  exact ⟨not_not.mp hlen, ownership, key, deref_eq_ok hown, hkey, (pure_eq_ok.mp h).symm⟩

/-- With more memory the key is the same. -/
theorem restoreBLSPublicKey_of_room {room : Option Nat}
    (h : restoreBLSPublicKey s keys room = .ok s') : restoreBLSPublicKey s keys = .ok s' := by
  unfold restoreBLSPublicKey at h ⊢
  obtain ⟨hlen, h⟩ := guard_eq_ok h
  obtain ⟨-, h⟩ := guard_eq_ok h
  rw [if_neg hlen, Option.any_none, if_neg Bool.false_ne_true]
  exact h

theorem restoreBLSPublicKey_ok (h : restoreBLSPublicKey s keys = .ok s') :
    keys.length = s.signers.length ∧ s'.signers = s.signers ∧ s'.signature = s.signature ∧
      ∃ ownership key, s.ownership = some ownership ∧
        sumVerKeys (expandSigners s.signers keys) = .ok key ∧
        s'.ownership = some { ownership with publicKey := some ⟨.blsGroupSig, key.value⟩ } := by
  obtain ⟨hlen, ownership, key, hown, hkey, hs'⟩ := restoreBLSPublicKey_eq h
  subst hs'
  exact ⟨hlen, rfl, rfl, ownership, key, hown, hkey, rfl⟩

theorem toNat_max_sub (a : UInt32) : (0xFFFFFFFF - a).toNat = 0xFFFFFFFF - a.toNat := by
  have ha := a.toNat_lt
  rw [UInt32.toNat_sub_of_le _ _ (by rw [UInt32.le_iff_toNat_le]; simp; omega)]
  rfl

/-- Neither count overflowed, so the `UInt32` sum is the sum. -/
theorem toNat_add_of_no_overflow {a b : UInt32}
    (h : ¬(b > 0xFFFFFFFF - a ∨ a > 0xFFFFFFFF - b)) : (a + b).toNat = a.toNat + b.toNat := by
  have ha := a.toNat_lt
  have hb := b.toNat_lt
  simp only [gt_iff_lt, UInt32.lt_iff_toNat_lt, toNat_max_sub, not_or, not_lt] at h
  rw [UInt32.toNat_add, Nat.mod_eq_of_lt]
  omega

/-- **`addSigners` is the exact pointwise sum.** -/
theorem addSigners_ok : ∀ {es cs rs : List UInt32}, es.length = cs.length →
    addSigners es cs = .ok rs →
    rs.length = es.length ∧
      ∀ i, (rs.getD i 0).toNat = (es.getD i 0).toNat + (cs.getD i 0).toNat
  | [], [], rs, _, h => by
    have hrs : rs = [] := (Except.ok.inj h).symm
    subst hrs
    exact ⟨rfl, fun i => rfl⟩
  | e :: es, c :: cs, rs, hlen, h => by
    obtain ⟨hno, h⟩ := guard_eq_ok h
    obtain ⟨rest, hrest, h⟩ := bind_eq_ok.mp h
    have hrs := pure_eq_ok.mp h
    subst hrs
    obtain ⟨hl, hsum⟩ := addSigners_ok (by simpa using hlen) hrest
    refine ⟨by simp [hl], fun i => ?_⟩
    cases i with
    | zero => simpa using toNat_add_of_no_overflow hno
    | succ i => simpa using hsum i

/-- The error of an addition that does not fit into 32 bits. -/
def Fault.Overflow (f : Fault) : Prop :=
  ∃ cnt existing : UInt32, f = .error s!"error would overflow: {cnt} {existing}"

/-- A vector that cannot be added has a count that does not fit, and the error says so. -/
theorem addSigners_overflow : ∀ {es cs : List UInt32} {f : Fault}, addSigners es cs = .error f →
    f.Overflow ∧ ∃ i, 2 ^ 32 - 1 < (es.getD i 0).toNat + (cs.getD i 0).toNat
  | [], _, _, h => by simp [addSigners] at h
  | _ :: _, [], _, h => by simp [addSigners] at h
  | e :: es, c :: cs, f, h => by
    unfold addSigners at h
    by_cases hover : c > 0xFFFFFFFF - e ∨ e > 0xFFFFFFFF - c
    · rw [if_pos hover] at h
      refine ⟨⟨c, e, (Except.error.inj h).symm⟩, 0, ?_⟩
      have he := e.toNat_lt
      have hc := c.toNat_lt
      simp only [gt_iff_lt, UInt32.lt_iff_toNat_lt, toNat_max_sub] at hover
      show 2 ^ 32 - 1 < e.toNat + c.toNat
      omega
    · rw [if_neg hover] at h
      cases hrest : addSigners es cs with
      | ok rest =>
        rw [hrest] at h
        cases h
      | error f' =>
        rw [hrest] at h
        obtain rfl := Except.error.inj h
        obtain ⟨hf, i, hi⟩ := addSigners_overflow hrest
        exact ⟨hf, i + 1, by simpa using hi⟩

/-- A sum that is refused has a signer that both vectors count. -/
theorem addSigners_error {es cs : List UInt32} {f : Fault} (h : addSigners es cs = .error f) :
    ∃ i, 0 < (es.getD i 0).toNat ∧ 0 < (cs.getD i 0).toNat := by
  obtain ⟨-, i, hi⟩ := addSigners_overflow h
  have he := (es.getD i 0).toNat_lt
  have hc := (cs.getD i 0).toNat_lt
  exact ⟨i, by omega, by omega⟩

/-- The signature carries a BLS key that decodes to the point. -/
def Signature.HasKey (C : Crypto) (s : Signature) (point : C.Point) : Prop :=
  ∃ ownership key, s.ownership = some ownership ∧
    ownership.publicKey = some ⟨.blsGroupSig, key⟩ ∧ C.unmarshal key = some point

/-- One round of the loop adds one vector of the right length, one signature and one key. -/
theorem aggregateOne_ok {n : Nat} {acc acc' : Aggregate C} {sig : Signature}
    (hacc : acc.signers.length = n) (h : aggregateOne n acc sig = .ok acc') :
    sig.signers.length = n ∧ acc'.signers.length = n ∧
      (∀ i, (acc'.signers.getD i 0).toNat =
        (acc.signers.getD i 0).toNat + (sig.signers.getD i 0).toNat) ∧
      acc'.sigsToAggregate = acc.sigsToAggregate ++ [sig.signature] ∧
      ∃ verKey : VerKey C, sig.HasKey C verKey.point ∧
        acc'.pubKeysToAggregate = acc.pubKeysToAggregate ++ [verKey] := by
  obtain ⟨ownership, hown, h⟩ := bind_eq_ok.mp h
  obtain ⟨publicKey, hpub, h⟩ := bind_eq_ok.mp h
  obtain ⟨htype, h⟩ := guard_eq_ok h
  obtain ⟨hlen, h⟩ := guard_eq_ok h
  obtain ⟨verKey, hkey, h⟩ := bind_eq_ok.mp h
  obtain ⟨signers, hadd, h⟩ := bind_eq_ok.mp h
  have hacc' := pure_eq_ok.mp h
  subst hacc'
  have hsig : sig.signers.length = n := not_not.mp hlen
  obtain ⟨hl, hsum⟩ := addSigners_ok (by rw [hacc, hsig]) hadd
  refine ⟨hsig, by rw [hl, hacc], hsum, rfl, verKey, ?_, rfl⟩
  obtain ⟨type, key⟩ := publicKey
  have htype' : type = .blsGroupSig := not_not.mp htype
  subst htype'
  refine ⟨ownership, key, deref_eq_ok hown, deref_eq_ok hpub, ?_⟩
  unfold bytesToVerKey at hkey
  split at hkey
  · next point hp =>
    have hvk := Except.ok.inj hkey
    rw [hp, ← hvk]
  · cases hkey

/-- What aggregating two signatures makes of them. -/
structure AggregatesTo (C : Crypto) (a b r : Signature) (p q : C.Point) (key : Bytes) : Prop where
  length : a.signers.length = b.signers.length
  length_eq : r.signers.length = a.signers.length
  signers : ∀ i, (r.signers.getD i 0).toNat =
    (a.signers.getD i 0).toNat + (b.signers.getD i 0).toNat
  hasKey_left : a.HasKey C p
  hasKey_right : b.HasKey C q
  signature : C.aggregateSignatures [a.signature, b.signature] = .ok r.signature
  marshal : C.marshal (C.aggregatePublicKeys [p, q]) = .ok key
  ownership : r.ownership = some { publicKey := some ⟨.blsGroupSig, key⟩, conditions := "" }

/-- **Aggregating two signatures adds their vectors, their bytes and their keys.** -/
theorem aggregateBLSSignatures_pair {r : Signature} (h : aggregateBLSSignatures C [a, b] = .ok r) :
    ∃ p q key, AggregatesTo C a b r p q key := by
  obtain ⟨first, hfirst, h⟩ := bind_eq_ok.mp h
  have hfirst' : first = a := by
    have := deref_eq_ok hfirst
    simpa using this.symm
  subst hfirst'
  obtain ⟨acc, hacc, h⟩ := bind_eq_ok.mp h
  obtain ⟨aggregateSig, hsig, h⟩ := bind_eq_ok.mp h
  obtain ⟨aggregatePublic, hpub, h⟩ := bind_eq_ok.mp h
  have hr := pure_eq_ok.mp h
  subst hr
  obtain ⟨acc₁, h₁, hacc⟩ := bind_eq_ok.mp hacc
  obtain ⟨acc₂, h₂, hacc⟩ := bind_eq_ok.mp hacc
  have hacc₂ := pure_eq_ok.mp hacc
  subst hacc₂
  obtain ⟨-, hl₁, hs₁, hb₁, k₁, hk₁, hp₁⟩ := aggregateOne_ok (List.length_replicate ..) h₁
  obtain ⟨hb, hl₂, hs₂, hb₂, k₂, hk₂, hp₂⟩ := aggregateOne_ok hl₁ h₂
  rw [wrapErr_eq_ok, hb₂, hb₁] at hsig
  rw [wrapErr_eq_ok, hp₂, hp₁] at hpub
  refine ⟨k₁.point, k₂.point, aggregatePublic.value, hb.symm, hl₂, fun i => ?_, hk₁, hk₂, ?_, ?_,
    rfl⟩
  · show (acc₂.signers.getD i 0).toNat = _
    have hzero : ((List.replicate first.signers.length (0 : UInt32)).getD i 0).toNat = 0 := by
      rw [List.getD_eq_getElem?_getD, List.getElem?_replicate]
      split <;> rfl
    rw [hs₂ i, hs₁ i, hzero, Nat.zero_add]
  · exact mapError_eq_ok.mp hsig
  · exact (sumVerKeys_ok hpub).1

/-- Adding to nothing. -/
theorem addSigners_zero : ∀ cs : List UInt32,
    addSigners (List.replicate cs.length 0) cs = .ok cs
  | [] => rfl
  | c :: cs => by
    have hno : ¬(c > 0xFFFFFFFF - (0 : UInt32) ∨ (0 : UInt32) > 0xFFFFFFFF - c) := by
      have hc := c.toNat_lt
      simp only [gt_iff_lt, UInt32.lt_iff_toNat_lt, not_or, not_lt]
      refine ⟨?_, Nat.zero_le _⟩
      show c.toNat ≤ 0xFFFFFFFF
      omega
    rw [List.length_cons, List.replicate_succ, addSigners, if_neg hno, addSigners_zero cs]
    simp [pure, Except.pure]

/-- A signature that carries a key of the right kind can fail to be added for its vector only. -/
theorem Signature.HasKey.aggregateOne {n : Nat} {sig : Signature} {point : C.Point}
    (h : sig.HasKey C point) (hlen : sig.signers.length = n) (acc : Aggregate C) :
    ∃ verKey : VerKey C, verKey.point = point ∧ Tupelo.aggregateOne n acc sig = (do
      let signers ← addSigners acc.signers sig.signers
      pure { signers, sigsToAggregate := acc.sigsToAggregate ++ [sig.signature],
             pubKeysToAggregate := acc.pubKeysToAggregate ++ [verKey] }) := by
  obtain ⟨ownership, key, hown, hpub, hpoint⟩ := h
  refine ⟨⟨key, point⟩, rfl, ?_⟩
  unfold Tupelo.aggregateOne
  simp only [hown, deref, ok_bind, hpub, hlen, ne_eq, not_true_eq_false, if_false, bytesToVerKey,
    hpoint]

/-- **When two signatures cannot be added**: both count a signer. -/
theorem aggregateBLSSignatures_pair_total {p q : C.Point} {sum key : Bytes}
    (hlen : a.signers.length = b.signers.length) (ha : a.HasKey C p) (hb : b.HasKey C q)
    (hsum : C.aggregateSignatures [a.signature, b.signature] = .ok sum)
    (hkey : C.marshal (C.aggregatePublicKeys [p, q]) = .ok key) :
    (∃ r, aggregateBLSSignatures C [a, b] = .ok r) ∨ ∃ i, a.Counts i ∧ b.Counts i := by
  cases hadd : addSigners a.signers b.signers with
  | error f => exact Or.inr (addSigners_error hadd)
  | ok signers =>
    left
    obtain ⟨k, hk, hone⟩ := ha.aggregateOne rfl
      { signers := List.replicate a.signers.length 0, sigsToAggregate := []
        pubKeysToAggregate := [] }
    obtain ⟨k', hk', hone'⟩ := hb.aggregateOne hlen.symm
      { signers := a.signers, sigsToAggregate := [] ++ [a.signature]
        pubKeysToAggregate := [] ++ [k] }
    rw [addSigners_zero] at hone
    rw [hadd] at hone'
    have hmarshal : C.marshal (C.aggregatePublicKeys [k.point, k'.point]) = .ok key := by
      rw [hk, hk']
      exact hkey
    unfold aggregateBLSSignatures
    simp only [List.head?_cons, deref, ok_bind, List.foldlM_cons, List.foldlM_nil, hone, hone',
      pure, Except.pure]
    simp [sumSignatures, hsum, sumVerKeys, hmarshal, mapError_ok, wrapErr]

/-- Who counts in an aggregate counted in one of its parts. -/
theorem counts_of_aggregate_pair {r : Signature} (h : aggregateBLSSignatures C [a, b] = .ok r)
    (i : Nat) : r.Counts i ↔ a.Counts i ∨ b.Counts i := by
  obtain ⟨p, q, key, hagg⟩ := aggregateBLSSignatures_pair h
  unfold Signature.Counts
  rw [hagg.signers i]
  omega

end Tupelo

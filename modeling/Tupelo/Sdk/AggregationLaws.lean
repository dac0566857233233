import Tupelo.Sdk.Aggregation

/-!
# Aggregation is a commutative sum

`AggregateBLSSignatures` (`sdk/signatures/signature.go`) of any list of signatures that carry the
keys of their vectors. It fails exactly if the count of some signer, added over all signatures,
does not fit into 32 bits. Otherwise it returns the signature that stands for the sums, of the
vectors, of the keys and of the signatures, and that signature is determined by them. So neither
the order matters nor whether parts of the list were aggregated before.
-/

namespace Tupelo

open Infra

variable {C : Crypto} {G : Type} [AddCommMonoid G]

/-! ## Sums of signatures -/

/-- Signatures are the bytes of elements of a commutative monoid, in which they are added. -/
structure Crypto.Signatures (C : Crypto) (G : Type) [AddCommMonoid G] where
  decode : Bytes → Option G
  encode : G → Bytes
  decode_encode : ∀ g, decode (encode g) = some g
  aggregateSignatures : ∀ sigs gs, sigs ≠ [] → sigs.mapM decode = some gs →
    C.aggregateSignatures sigs = .ok (encode gs.sum)

/-- The element a signature stands for. -/
def Crypto.Signatures.element (S : C.Signatures G) (s : Signature) : G :=
  (S.decode s.signature).getD 0

/-- How often a signer counts. -/
def Signature.count (s : Signature) (i : Nat) : Nat := (s.signers.getD i 0).toNat

/-- How often a signer counts in all signatures together. -/
def total (sigs : List Signature) (i : Nat) : Nat := (sigs.map fun s => s.count i).sum

/-- The counts of some signer do not fit into 32 bits. -/
def Overflows (count : Nat → Nat) : Prop := ∃ i, 2 ^ 32 - 1 < count i

theorem Signature.count_le (s : Signature) (i : Nat) : s.count i ≤ 2 ^ 32 - 1 := by
  have h := (s.signers.getD i 0).toNat_lt
  unfold count
  omega

@[simp] theorem total_nil (i : Nat) : total [] i = 0 := rfl

@[simp] theorem total_cons (s : Signature) (sigs : List Signature) (i : Nat) :
    total (s :: sigs) i = s.count i + total sigs i := by
  simp [total]

@[simp] theorem total_append (sigs sigs' : List Signature) (i : Nat) :
    total (sigs ++ sigs') i = total sigs i + total sigs' i := by
  simp [total]

theorem total_perm {sigs sigs' : List Signature} (h : sigs.Perm sigs') : total sigs = total sigs' :=
  funext fun _ => (h.map _).sum_eq

theorem Overflows.mono {count count' : Nat → Nat} (h : Overflows count)
    (hle : ∀ i, count i ≤ count' i) : Overflows count' := by
  obtain ⟨i, hi⟩ := h
  exact ⟨i, hi.trans_le (hle i)⟩

section Sum

variable [AddCommMonoid C.Point] (S : C.Signatures G) (keys : List (VerKey C))

/-- What is added: a signature that carries the key of its vector and can be read. -/
structure Summand (s : Signature) : Prop where
  restored : s.Restored keys
  readable : ∃ g, S.decode s.signature = some g

/-- The signature that `AggregateBLSSignatures` makes for the counts and the element. -/
structure IsSum (count : Nat → Nat) (g : G) (r : Signature) : Prop where
  length : r.signers.length = keys.length
  count : ∀ i, r.count i = count i
  signature : r.signature = S.encode g
  preImage : r.preImage = ""
  ownership : ∃ key, C.marshal (keySum r.signers keys) = .ok key ∧
    r.ownership = some { publicKey := some ⟨.blsGroupSig, key⟩, conditions := "" }

variable {S keys}

theorem signers_ext {n : Nat} {as bs : List UInt32} (ha : as.length = n) (hb : bs.length = n)
    (h : ∀ i, (as.getD i 0).toNat = (bs.getD i 0).toNat) : as = bs := by
  refine List.ext_getElem (ha.trans hb.symm) ?_
  intro i hi hi'
  have hget := h i
  rw [List.getD_eq_getElem?_getD, List.getD_eq_getElem?_getD, List.getElem?_eq_getElem hi,
    List.getElem?_eq_getElem hi'] at hget
  exact UInt32.toNat_inj.mp hget

namespace IsSum

variable {count : Nat → Nat} {g : G} {r r' : Signature}

/-- **The counts and the element determine the signature.** -/
theorem unique (h : IsSum S keys count g r) (h' : IsSum S keys count g r') : r = r' := by
  have hsigners : r.signers = r'.signers :=
    signers_ext h.length h'.length fun i => (h.count i).trans (h'.count i).symm
  obtain ⟨key, hkey, hown⟩ := h.ownership
  obtain ⟨key', hkey', hown'⟩ := h'.ownership
  rw [hsigners, hkey'] at hkey
  rw [← Except.ok.inj hkey, ← hown'] at hown
  cases r
  cases r'
  exact congr (congr (congr (congrArg Signature.mk hown) hsigners)
    (h.signature.trans h'.signature.symm)) (h.preImage.trans h'.preImage.symm)

theorem summand (hC : C.AddsKeys) (h : IsSum S keys count g r) : Summand S keys r := by
  obtain ⟨key, hkey, hown⟩ := h.ownership
  refine ⟨Signature.restored_of_key hC h.length.symm hown rfl hkey, g, ?_⟩
  rw [h.signature, S.decode_encode]

theorem element (h : IsSum S keys count g r) : S.element r = g := by
  rw [Crypto.Signatures.element, h.signature, S.decode_encode, Option.getD_some]

theorem not_overflows (h : IsSum S keys count g r) : ¬ Overflows count := by
  rintro ⟨i, hi⟩
  have hle := r.count_le i
  rw [h.count] at hle
  omega

/-- What comes to the same counts and the same element is the same signature. -/
theorem eq_ok (h : IsSum S keys count g r) {x : Except Fault Signature}
    (hx : (∃ r', x = .ok r' ∧ IsSum S keys count g r') ∨
      ∃ f, x = .error f ∧ f.Overflow ∧ Overflows count) : x = .ok r := by
  rcases hx with ⟨r', rfl, h'⟩ | ⟨f, -, -, hover⟩
  · rw [h'.unique h]
  · exact absurd hover h.not_overflows

end IsSum

/-! ## The loop -/

/-- What the loop has collected after some signatures. -/
structure Looped (keys : List (VerKey C)) (acc : Aggregate C) (sigs : List Signature)
    (acc' : Aggregate C) : Prop where
  length : acc'.signers.length = keys.length
  count : ∀ i, (acc'.signers.getD i 0).toNat = (acc.signers.getD i 0).toNat + total sigs i
  key : keySum acc'.signers keys =
    keySum acc.signers keys + (sigs.map fun s => keySum s.signers keys).sum
  signatures : acc'.sigsToAggregate = acc.sigsToAggregate ++ sigs.map (·.signature)
  pubKeys : (acc'.pubKeysToAggregate.map (·.point)).sum =
    (acc.pubKeysToAggregate.map (·.point)).sum + (sigs.map fun s => keySum s.signers keys).sum

/-- The step lemma: one signature. -/
theorem aggregateOne_cases (hC : C.AddsKeys) {acc : Aggregate C} {s : Signature}
    (hacc : acc.signers.length = keys.length) (hs : s.Restored keys) :
    (∃ acc', aggregateOne keys.length acc s = .ok acc' ∧ Looped keys acc [s] acc') ∨
      ∃ f, aggregateOne keys.length acc s = .error f ∧ f.Overflow ∧
        Overflows fun i => (acc.signers.getD i 0).toNat + s.count i := by
  have hlen := (hs.key hC).1
  obtain ⟨verKey, hpoint, hone⟩ := (hs.hasKey hC).aggregateOne hlen.symm acc
  rw [hone]
  cases hadd : addSigners acc.signers s.signers with
  | error f =>
    obtain ⟨hf, i, hi⟩ := addSigners_overflow hadd
    exact Or.inr ⟨f, rfl, hf, i, hi⟩
  | ok signers =>
    have hboth := hacc.trans hlen
    obtain ⟨hl, hsum⟩ := addSigners_ok hboth hadd
    refine Or.inl ⟨_, rfl, hl.trans hacc, ?_, ?_, rfl, ?_⟩
    · intro i
      rw [total_cons, total_nil, Nat.add_zero]
      exact hsum i
    · rw [List.map_singleton, List.sum_singleton]
      exact keySum_add keys hboth hl hsum
    · simp [hpoint]

theorem Looped.trans {acc acc' acc'' : Aggregate C} {sigs sigs' : List Signature}
    (h : Looped keys acc sigs acc') (h' : Looped keys acc' sigs' acc'') :
    Looped keys acc (sigs ++ sigs') acc'' where
  length := h'.length
  count i := by rw [h'.count, h.count, total_append, Nat.add_assoc]
  key := by rw [h'.key, h.key, List.map_append, List.sum_append, add_assoc]
  signatures := by rw [h'.signatures, h.signatures, List.map_append, List.append_assoc]
  pubKeys := by rw [h'.pubKeys, h.pubKeys, List.map_append, List.sum_append, add_assoc]

/-- The run lemma: the loop over all signatures. -/
theorem foldlM_aggregateOne_cases (hC : C.AddsKeys) : ∀ (sigs : List Signature)
    (acc : Aggregate C), acc.signers.length = keys.length → (∀ s ∈ sigs, s.Restored keys) →
    (∃ acc', sigs.foldlM (aggregateOne keys.length) acc = .ok acc' ∧ Looped keys acc sigs acc') ∨
      ∃ f, sigs.foldlM (aggregateOne keys.length) acc = .error f ∧ f.Overflow ∧
        Overflows fun i => (acc.signers.getD i 0).toNat + total sigs i
  | [], acc, hacc, _ => Or.inl ⟨acc, rfl, hacc, by simp, by simp, by simp, by simp⟩
  | s :: sigs, acc, hacc, hsigs => by
    obtain ⟨hs, hrest⟩ := List.forall_mem_cons.mp hsigs
    rw [List.foldlM_cons]
    rcases aggregateOne_cases hC hacc hs with ⟨acc₁, hone, h₁⟩ | ⟨f, hone, hf, hover⟩
    · rw [hone, ok_bind]
      rcases foldlM_aggregateOne_cases hC sigs acc₁ h₁.length hrest with
        ⟨acc₂, hall, h₂⟩ | ⟨f, hall, hf, hover⟩
      · exact Or.inl ⟨acc₂, hall, h₁.trans h₂⟩
      · refine Or.inr ⟨f, hall, hf, hover.mono fun i => le_of_eq ?_⟩
        rw [h₁.count, total_cons, total_cons, total_nil, Nat.add_zero, Nat.add_assoc]
    · rw [hone]
      refine Or.inr ⟨f, rfl, hf, hover.mono fun i => ?_⟩
      rw [total_cons]
      omega

/-! ## One aggregation -/

omit [AddCommMonoid C.Point] in
theorem mapM_decode : ∀ {sigs : List Signature}, (∀ s ∈ sigs, Summand S keys s) →
    (sigs.map (·.signature)).mapM S.decode = some (sigs.map S.element)
  | [], _ => rfl
  | s :: sigs, h => by
    obtain ⟨hs, hrest⟩ := List.forall_mem_cons.mp h
    obtain ⟨g, hg⟩ := hs.readable
    rw [List.map_cons, List.mapM_cons, mapM_decode hrest, hg, List.map_cons,
      Crypto.Signatures.element, hg]
    rfl

/-- **Aggregating is adding**, or some count does not fit. -/
theorem aggregateBLSSignatures_cases (hC : C.AddsKeys)
    (hbytes : ∀ point, ∃ key, C.marshal point = .ok key) {sigs : List Signature} (hne : sigs ≠ [])
    (hsigs : ∀ s ∈ sigs, Summand S keys s) :
    (∃ r, aggregateBLSSignatures C sigs = .ok r ∧
        IsSum S keys (total sigs) (sigs.map S.element).sum r) ∨
      ∃ f, aggregateBLSSignatures C sigs = .error f ∧ f.Overflow ∧ Overflows (total sigs) := by
  obtain ⟨first, rest, rfl⟩ := List.exists_cons_of_ne_nil hne
  have hfirst : first.signers.length = keys.length :=
    ((hsigs first List.mem_cons_self).restored.key hC).1.symm
  have hzero : ∀ i, ((List.replicate keys.length (0 : UInt32)).getD i 0).toNat = 0 := by
    intro i
    rw [List.getD_eq_getElem?_getD, List.getElem?_replicate]
    split <;> rfl
  unfold aggregateBLSSignatures
  simp only [List.head?_cons, deref, ok_bind, hfirst]
  rcases foldlM_aggregateOne_cases hC (first :: rest) ⟨List.replicate keys.length 0, [], []⟩
    (List.length_replicate ..) fun s hs => (hsigs s hs).restored with
    ⟨acc, hloop, h⟩ | ⟨f, hloop, hf, hover⟩
  · have hpoint : C.aggregatePublicKeys (acc.pubKeysToAggregate.map (·.point)) =
        keySum acc.signers keys := by
      rw [hC.aggregatePublicKeys, h.pubKeys, h.key, keySum_replicate_zero]
      rfl
    obtain ⟨key, hkey⟩ := hbytes (keySum acc.signers keys)
    have hsum : C.aggregateSignatures acc.sigsToAggregate =
        .ok (S.encode ((first :: rest).map S.element).sum) := by
      rw [h.signatures, List.nil_append]
      exact S.aggregateSignatures _ _ (by simp) (mapM_decode hsigs)
    rw [hloop]
    refine Or.inl ⟨⟨some ⟨some ⟨.blsGroupSig, key⟩, ""⟩, acc.signers,
      S.encode ((first :: rest).map S.element).sum, ""⟩, ?_, h.length, ?_, rfl, rfl, key, hkey, rfl⟩
    · simp only [ok_bind, sumSignatures, hsum, mapError_ok, wrapErr_ok, sumVerKeys, hpoint, hkey]
      rfl
    · intro i
      show (acc.signers.getD i 0).toNat = _
      rw [h.count, hzero, Nat.zero_add]
  · rw [hloop]
    refine Or.inr ⟨f, rfl, hf, hover.mono fun i => le_of_eq ?_⟩
    rw [hzero, Nat.zero_add]

end Sum

/-! ## Successive aggregations -/

/-- A signature that is given, or one that is aggregated from others. -/
inductive Grouping where
  | given (s : Signature)
  | group (first : Grouping) (rest : List Grouping)

namespace Grouping

mutual

/-- The signatures that are given. -/
def leaves : Grouping → List Signature
  | given s => [s]
  | group first rest => first.leaves ++ leavesOf rest

def leavesOf : List Grouping → List Signature
  | [] => []
  | g :: gs => g.leaves ++ leavesOf gs

end

mutual

/-- Aggregating each group after the groups in it. -/
def aggregate (C : Crypto) : Grouping → Except Fault Signature
  | given s => .ok s
  | group first rest => do
    let r ← first.aggregate C
    let rs ← aggregateEach C rest
    aggregateBLSSignatures C (r :: rs)

def aggregateEach (C : Crypto) : List Grouping → Except Fault (List Signature)
  | [] => .ok []
  | g :: gs => do
    let r ← g.aggregate C
    let rs ← aggregateEach C gs
    pure (r :: rs)

end

theorem aggregate_group (first : Grouping) (rest : List Grouping) :
    (group first rest).aggregate C =
      aggregateEach C (first :: rest) >>= aggregateBLSSignatures C := by
  rw [aggregate, aggregateEach]
  cases first.aggregate C with
  | error f => rfl
  | ok r =>
    cases aggregateEach C rest with
    | error f => rfl
    | ok rs => rfl

section

variable (S : C.Signatures G) (keys : List (VerKey C))

/-- The signatures add up to the same as those others. -/
structure Represents (rs sigs : List Signature) : Prop where
  summand : ∀ r ∈ rs, Summand S keys r
  total : total rs = Tupelo.total sigs
  element : (rs.map S.element).sum = (sigs.map S.element).sum

/-- There are signatures that stand for the given ones, or some count does not fit. -/
def Adds (sigs : List Signature) (x : Except Fault (List Signature)) : Prop :=
  (∃ rs, x = .ok rs ∧ Represents S keys rs sigs) ∨
    ∃ f, x = .error f ∧ f.Overflow ∧ Overflows (total sigs)

variable {S keys}

theorem Represents.append {rs rs' sigs sigs' : List Signature} (h : Represents S keys rs sigs)
    (h' : Represents S keys rs' sigs') : Represents S keys (rs ++ rs') (sigs ++ sigs') where
  summand r hr := (List.mem_append.mp hr).elim (h.summand r) (h'.summand r)
  total := funext fun i => by rw [total_append, total_append, h.total, h'.total]
  element := by
    rw [List.map_append, List.map_append, List.sum_append, List.sum_append, h.element, h'.element]

theorem adds_cons {g : Grouping} {gs : List Grouping}
    (hg : Adds S keys g.leaves ((g.aggregate C).map fun r => [r]))
    (hgs : Adds S keys (leavesOf gs) (aggregateEach C gs)) :
    Adds S keys (leavesOf (g :: gs)) (aggregateEach C (g :: gs)) := by
  rw [leavesOf, aggregateEach]
  rcases hg with ⟨rs, hr, hrep⟩ | ⟨f, hr, hf, hover⟩
  · obtain ⟨r, hagg, rfl⟩ := map_eq_ok.mp hr
    rw [hagg, ok_bind]
    rcases hgs with ⟨rs, hrs, hreps⟩ | ⟨f, hrs, hf, hover⟩
    · rw [hrs]
      exact Or.inl ⟨r :: rs, rfl, hrep.append hreps⟩
    · rw [hrs]
      refine Or.inr ⟨f, rfl, hf, hover.mono fun i => ?_⟩
      rw [total_append]
      exact Nat.le_add_left _ _
  · cases hagg : g.aggregate C with
    | ok r =>
      rw [hagg] at hr
      cases hr
    | error f' =>
      rw [hagg] at hr
      obtain rfl := Except.error.inj hr
      refine Or.inr ⟨f', rfl, hf, hover.mono fun i => ?_⟩
      rw [total_append]
      exact Nat.le_add_right _ _

variable [AddCommMonoid C.Point]

/-- **A group whose members stand for the given signatures is their sum.** -/
theorem aggregate_of_adds (hC : C.AddsKeys) (hbytes : ∀ point, ∃ key, C.marshal point = .ok key)
    {first : Grouping} {rest : List Grouping}
    (h : Adds S keys (leavesOf (first :: rest)) (aggregateEach C (first :: rest))) :
    (∃ r, (group first rest).aggregate C = .ok r ∧ IsSum S keys (total (group first rest).leaves)
        ((group first rest).leaves.map S.element).sum r) ∨
      ∃ f, (group first rest).aggregate C = .error f ∧ f.Overflow ∧
        Overflows (total (group first rest).leaves) := by
  rw [aggregate_group]
  rcases h with ⟨rs, hrs, hrep⟩ | ⟨f, hrs, hover⟩
  · have hne : rs ≠ [] := by
      rintro rfl
      obtain ⟨r, -, hrs⟩ := bind_eq_ok.mp hrs
      obtain ⟨rs, -, hrs⟩ := bind_eq_ok.mp hrs
      cases hrs
    rw [hrs, ok_bind, leaves, ← leavesOf, ← hrep.total, ← hrep.element]
    exact aggregateBLSSignatures_cases hC hbytes hne hrep.summand
  · rw [hrs]
    exact Or.inr ⟨f, rfl, hover⟩

mutual

/-- What is aggregated of signatures stands for them: one case for each way to make a group. -/
theorem adds_aggregate (hC : C.AddsKeys) (hbytes : ∀ point, ∃ key, C.marshal point = .ok key) :
    ∀ g : Grouping, (∀ s ∈ g.leaves, Summand S keys s) →
    Adds S keys g.leaves ((g.aggregate C).map fun r => [r])
  | given s, h => Or.inl ⟨[s], rfl, h, rfl, rfl⟩
  | group first rest, h => by
    obtain ⟨hfirst, hrest⟩ := List.forall_mem_append.mp h
    rcases aggregate_of_adds hC hbytes (adds_cons (adds_aggregate hC hbytes first hfirst)
      (adds_aggregateEach hC hbytes rest hrest)) with ⟨r, hr, hsum⟩ | ⟨f, hr, hover⟩
    · rw [hr]
      refine Or.inl ⟨[r], rfl, ?_, funext fun i => ?_, ?_⟩
      · exact fun s hs => List.mem_singleton.mp hs ▸ hsum.summand hC
      · rw [total_cons, total_nil, Nat.add_zero, hsum.count]
      · rw [List.map_singleton, List.sum_singleton, hsum.element]
    · rw [hr]
      exact Or.inr ⟨f, rfl, hover⟩

theorem adds_aggregateEach (hC : C.AddsKeys)
    (hbytes : ∀ point, ∃ key, C.marshal point = .ok key) :
    ∀ gs : List Grouping, (∀ s ∈ leavesOf gs, Summand S keys s) →
    Adds S keys (leavesOf gs) (aggregateEach C gs)
  | [], h => Or.inl ⟨[], rfl, h, rfl, rfl⟩
  | g :: gs, h => by
    obtain ⟨hg, hgs⟩ := List.forall_mem_append.mp h
    exact adds_cons (adds_aggregate hC hbytes g hg) (adds_aggregateEach hC hbytes gs hgs)

end

end

end Grouping

/-! ## The laws -/

section Laws

variable [AddCommMonoid C.Point]

/--
**Aggregation is an exact commutative sum.**

For signatures that carry the keys of their vectors: aggregating them fails for an overflow exactly
if the exact total of some signer does not fit into 32 bits. Otherwise it gives a signature with
the exact totals that carries the key of its vector, and the signatures in any order and any
grouping of them give the same one.
-/
theorem aggregation_exact (hC : C.AddsKeys) (hbytes : ∀ point, ∃ key, C.marshal point = .ok key)
    (S : C.Signatures G) (keys : List (VerKey C)) (sigs : List Signature) (hne : sigs ≠ [])
    (hrestored : ∀ s ∈ sigs, s.Restored keys)
    (hreadable : ∀ s ∈ sigs, ∃ g, S.decode s.signature = some g) :
    ((∃ f, aggregateBLSSignatures C sigs = .error f ∧ f.Overflow) ↔
        ∃ i, 2 ^ 32 - 1 < total sigs i) ∧
      ((∀ i, total sigs i ≤ 2 ^ 32 - 1) → ∃ r, aggregateBLSSignatures C sigs = .ok r ∧
        r.signers.length = keys.length ∧ (∀ i, r.count i = total sigs i) ∧ r.Restored keys ∧
        (∀ sigs', sigs'.Perm sigs → aggregateBLSSignatures C sigs' = .ok r) ∧
        ∀ first rest, (Grouping.group first rest).leaves.Perm sigs →
          (Grouping.group first rest).aggregate C = .ok r) := by
  have hsigs : ∀ s ∈ sigs, Summand S keys s := fun s hs => ⟨hrestored s hs, hreadable s hs⟩
  rcases aggregateBLSSignatures_cases hC hbytes hne hsigs with ⟨r, hr, hsum⟩ | ⟨f, hr, hf, hover⟩
  · refine ⟨⟨?_, fun h => absurd h hsum.not_overflows⟩, fun _ => ?_⟩
    · rintro ⟨f, hf, -⟩
      rw [hr] at hf
      cases hf
    · refine ⟨r, hr, hsum.length, hsum.count, (hsum.summand hC).restored, ?_, ?_⟩
      · intro sigs' hperm
        have hne' : sigs' ≠ [] := fun h => hne (List.perm_nil.mp (h ▸ hperm).symm)
        rw [← total_perm hperm, ← (hperm.map S.element).sum_eq] at hsum
        exact hsum.eq_ok (aggregateBLSSignatures_cases hC hbytes hne' fun s hs =>
          hsigs s (hperm.mem_iff.mp hs))
      · intro first rest hperm
        have hleaves : ∀ s ∈ Grouping.leavesOf (first :: rest), Summand S keys s :=
          fun s hs => hsigs s (hperm.mem_iff.mp hs)
        rw [← total_perm hperm, ← (hperm.map S.element).sum_eq] at hsum
        exact hsum.eq_ok (Grouping.aggregate_of_adds hC hbytes
          (Grouping.adds_aggregateEach hC hbytes _ hleaves))
  · refine ⟨⟨fun _ => hover, fun _ => ⟨f, hr, hf⟩⟩, fun hle => ?_⟩
    obtain ⟨i, hi⟩ := hover
    exact absurd (hle i) (not_le.mpr hi)

end Laws

/-! ## Signatures that are numbers -/

namespace Crypto

/-- The key in a signature of the message. -/
def unaryDecode (msg sig : Bytes) : Option Nat :=
  let p := (sig.takeWhile (· == 0)).length
  if sig = unarySign p msg then some p else none

theorem unaryDecode_unarySign (msg : Bytes) (p : Nat) :
    unaryDecode msg (unarySign p msg) = some p := by
  simp [unaryDecode, takeWhile_unarySign]

theorem eq_of_mapM_unaryDecode {msg : Bytes} : ∀ {sigs : List Bytes} {ps : List Nat},
    sigs.mapM (unaryDecode msg) = some ps → sigs = ps.map fun p => unarySign p msg
  | [], ps, h => by
    cases h
    rfl
  | sig :: sigs, ps, h => by
    rw [List.mapM_cons] at h
    obtain ⟨p, hp, h⟩ := Option.bind_eq_some_iff.mp h
    obtain ⟨rest, hrest, h⟩ := Option.bind_eq_some_iff.mp h
    obtain ⟨hsig, hp⟩ := Option.ite_none_right_eq_some.mp hp
    rw [← Option.some.inj h, List.map_cons, ← eq_of_mapM_unaryDecode hrest, ← Option.some.inj hp,
      ← hsig]

/-- The signatures of a message in the unary scheme. -/
def unarySignatures (msg : Bytes) : unary.Signatures Nat where
  decode := unaryDecode msg
  encode := fun p => unarySign p msg
  decode_encode := unaryDecode_unarySign msg
  aggregateSignatures := by
    intro sigs ps hne hps
    have hsigs := eq_of_mapM_unaryDecode hps
    obtain ⟨p, ps, rfl⟩ : ∃ p ps', ps = p :: ps' :=
      List.exists_cons_of_ne_nil fun h => hne (by rw [hsigs, h]; rfl)
    subst hsigs
    simp [unary, Function.comp_def, unarySign]

end Crypto

namespace AggregationExample

/-- The second key is the neutral element. -/
def keys : List (VerKey Crypto.unary) := [⟨[0, 0], (1 : Nat)⟩, ⟨[0], (0 : Nat)⟩]

/-- A signature of the empty message with the given counts, which is of the key `p`. -/
def signature (p : Nat) (signers : List UInt32) : Signature where
  ownership := some ⟨some ⟨.blsGroupSig, List.replicate (p + 1) 0⟩, ""⟩
  signers := signers
  signature := Crypto.unarySign p []
  preImage := ""

theorem signature_restored {c d : UInt32} {p : Nat} (h : c.toNat = p) :
    (signature p [c, d]).Restored keys := by
  refine Signature.restored_of_key Crypto.unary_additive.addsKeys rfl rfl rfl ?_
  have hkey : keySum [c, d] keys = (p : Nat) := by
    rw [keys, keySum_cons, keySum_cons, keySum_nil_left, h]
    show p • (1 : Nat) + (d.toNat • (0 : Nat) + 0) = p
    simp
  show Crypto.unary.marshal (keySum [c, d] keys) = _
  rw [hkey]
  rfl

theorem signature_readable (p : Nat) (signers : List UInt32) :
    ∃ g, (Crypto.unarySignatures []).decode (signature p signers).signature = some g :=
  ⟨p, Crypto.unaryDecode_unarySign [] p⟩

/--
The counts `[1, 0]` and `[0, 2 ^ 32 - 1]` add up, also when each is aggregated by itself before,
and in the other order. One more does not fit.
-/
theorem aggregation_exact_example :
    (∃ r, aggregateBLSSignatures Crypto.unary [signature 1 [1, 0], signature 0 [0, 0xFFFFFFFF]]
        = .ok r ∧ r.count 0 = 1 ∧ r.count 1 = 2 ^ 32 - 1 ∧
        (Grouping.group (.group (.given (signature 0 [0, 0xFFFFFFFF])) [])
          [.group (.given (signature 1 [1, 0])) []]).aggregate Crypto.unary = .ok r) ∧
      ∃ f, aggregateBLSSignatures Crypto.unary [signature 0 [0, 0xFFFFFFFF], signature 2 [2, 1]]
        = .error f ∧ f.Overflow := by
  constructor
  · obtain ⟨-, hsum⟩ := aggregation_exact Crypto.unary_additive.addsKeys Crypto.unary_total.marshal
      (Crypto.unarySignatures []) keys [signature 1 [1, 0], signature 0 [0, 0xFFFFFFFF]] (by simp)
      (by simp [signature_restored]) (by simp [signature_readable])
    obtain ⟨r, hr, -, hcount, -, -, hgroup⟩ := hsum fun i => match i with
      | 0 => by decide
      | 1 => by decide
      | _ + 2 => Nat.zero_le _
    refine ⟨r, hr, hcount 0, hcount 1, hgroup _ _ ?_⟩
    exact List.Perm.swap _ _ _
  · obtain ⟨hover, -⟩ := aggregation_exact Crypto.unary_additive.addsKeys
      Crypto.unary_total.marshal (Crypto.unarySignatures []) keys
      [signature 0 [0, 0xFFFFFFFF], signature 2 [2, 1]] (by simp) (by simp [signature_restored])
      (by simp [signature_readable])
    exact hover.mpr ⟨1, by decide⟩

end AggregationExample

end Tupelo

import Tupelo.Client.SubscriberFaults
import Tupelo.Sdk.IsOwner
import Tupelo.Sdk.Proof

/-!
# Owners and proofs that are checked without a panic

What `IsBlockSignedBy` (`sdk/consensus/consensus.go`) and `proof.Verify` (`sdk/proof/proof.go`)
dereference before they have checked it: the ownership and the public key of a signature in the
headers of a block, and the parts of a proof. Both return if and only if these are there, as far
as the checks come. The rest of what looks like a risk is none: a key that was recovered has a
signature with a last byte, and the resolution of owners asserts the type of an id only after it
has tested it.
-/

namespace Tupelo

open Infra

/-! ## Owners and signatures -/

section Owners

variable {α δ : Type} {B : BlockLib α} {E : Ecdsa} {C : Crypto} {run : Script}

theorem noPanic_address {o : Ownership} (h : ∃ publicKey, o.publicKey = some publicKey) :
    NoPanic (address E o) := by
  obtain ⟨publicKey, hpublicKey⟩ := h
  unfold address
  simp only [hpublicKey, deref, ok_bind]
  refine Avoids.ite (fun _ => noPanic_pure _) fun _ => ?_
  split
  · split
    · exact noPanic_ok _
    · exact noPanic_error _
  · exact noPanic_ok _
  · exact noPanic_error _

/-- What `IsBlockSignedBy` dereferences is there. -/
def Signature.HasPublicKey (s : Signature) : Prop :=
  ∃ ownership publicKey, s.ownership = some ownership ∧ ownership.publicKey = some publicKey

theorem Signature.HasPublicKey.noPanic_restore {s : Signature} (h : s.HasPublicKey)
    (hsh : Bytes) : NoPanic (restoreEcdsaPublicKey E s hsh) := by
  obtain ⟨ownership, publicKey, hownership, hpublicKey⟩ := h
  unfold restoreEcdsaPublicKey
  simp only [hownership, hpublicKey, deref, ok_bind]
  refine Avoids.ite (fun _ => noPanic_error _) fun _ => ?_
  split
  · exact noPanic_error _
  · exact noPanic_ok _

/-- A signature with a recovered key has a byte that can be cut off. -/
theorem noPanic_valid_ecdsa {s : Signature} (hbytes : s.signature ≠ []) {ownership : Ownership}
    (hownership : s.ownership = some ownership) {publicKey : PublicKey}
    (hpublicKey : ownership.publicKey = some publicKey) (htype : publicKey.type = .secp256k1)
    (hsh : Bytes) : NoPanic (valid C run s hsh) := by
  have hlength : s.signature.length ≠ 0 := fun hzero => hbytes (List.length_eq_zero_iff.mp hzero)
  unfold valid
  simp only [hownership, hpublicKey, deref, ok_bind, htype, if_neg hlength]
  refine Avoids.ite (fun _ => noPanic_error _) fun _ => ?_
  refine NoPanic.bind (noPanic_wrapErr.mpr (noPanic_validConditions run s ownership)) fun _ _ => ?_
  exact Avoids.ite (fun _ => noPanic_pure _) fun _ => noPanic_pure _

theorem Signature.HasPublicKey.noPanic_isSignature
    (hE : ∀ hsh key, E.sigToPub hsh [] ≠ .ok key) {s : Signature} (h : s.HasPublicKey)
    (hsh : Bytes) (addr : String) : NoPanic (isSignature E C run s hsh addr) := by
  obtain ⟨ownership, publicKey, hownership, hpublicKey⟩ := h
  unfold isSignature
  simp only [hownership, hpublicKey, deref, ok_bind]
  cases htype : publicKey.type with
  | secp256k1 =>
    have hrestore := noPanic_restore (E := E) ⟨ownership, publicKey, hownership, hpublicKey⟩ hsh
    refine NoPanic.bind (noPanic_wrapErr.mpr hrestore) fun s' hs' => ?_
    obtain ⟨key, hkey, rfl⟩ :=
      restoreEcdsaPublicKey_ok hownership hpublicKey htype (wrapErr_eq_ok.mp hs')
    have hbytes : ({ s with ownership := some (ownership.withKey E key) } : Signature).signature ≠
        [] := fun hnil => hE hsh key (hnil ▸ hkey)
    simp only [ok_bind]
    refine NoPanic.bind (noPanic_wrapErr.mpr (noPanic_address ⟨_, rfl⟩)) fun sigAddr _ => ?_
    refine Avoids.ite (fun _ => noPanic_error _) fun _ => ?_
    have hrecovered : (ownership.withKey E key).publicKey =
        some { type := .secp256k1, publicKey := E.fromECDSAPub key } := rfl
    exact noPanic_valid_ecdsa hbytes rfl hrecovered rfl hsh
  | blsGroupSig => exact noPanic_error _
  | other n => exact noPanic_error _

/-- The ownership and the key are dereferenced first. -/
theorem noPanic_isSignature (hE : ∀ hsh key, E.sigToPub hsh [] ≠ .ok key) {s : Signature}
    {hsh : Bytes} {addr : String} : NoPanic (isSignature E C run s hsh addr) ↔ s.HasPublicKey := by
  refine ⟨fun h => ?_, fun h => h.noPanic_isSignature hE hsh addr⟩
  obtain ⟨ownership, hownership, h⟩ := noPanic_deref_bind.mp h
  obtain ⟨publicKey, hpublicKey, -⟩ := noPanic_deref_bind.mp h
  exact ⟨ownership, publicKey, hownership, hpublicKey⟩

/-- The signature that the headers have for the address, if they have one, has a key. -/
def SignatureRead (B : BlockLib α) (block : BlockWithHeaders α) (addr : String) : Prop :=
  ∀ headers, standardHeaders B block = .ok headers →
    ∀ sig, headers.signatures.lookup addr = some sig → ∀ hsh, blockToHash B block = .ok hsh →
      ∃ s, sig = some s ∧ s.HasPublicKey

theorem noPanic_isBlockSignedBy (hE : ∀ hsh key, E.sigToPub hsh [] ≠ .ok key)
    (htoType : ∀ o, NoPanic (B.toType o)) (hobjToHash : ∀ b, NoPanic (B.objToHash b))
    {block : BlockWithHeaders α} {addr : String} :
    NoPanic (isBlockSignedBy B E C run block addr) ↔ SignatureRead B block addr := by
  have hheaders : NoPanic (standardHeaders B block) := by
    unfold standardHeaders
    split
    · exact noPanic_ok _
    · exact noPanic_wrapErr.mpr (htoType _)
  unfold isBlockSignedBy SignatureRead
  rw [noPanic_then hheaders]
  refine forall_congr' fun headers => imp_congr_right fun _ => ?_
  cases headers.signatures.lookup addr with
  | none => exact iff_of_true (noPanic_pure _) (by simp)
  | some sig =>
    simp only [Option.some.injEq, forall_eq']
    have hhash : NoPanic (blockToHash B block) := hobjToHash _
    rw [noPanic_then (noPanic_wrapErr.mpr hhash)]
    refine forall_congr' fun hsh => ?_
    rw [wrapErr_eq_ok]
    refine imp_congr_right fun _ => ?_
    rw [noPanic_deref_bind]
    exact exists_congr fun s => and_congr_right fun _ => noPanic_isSignature hE

/-! ### The resolution of owners -/

variable {G : GraftableDags δ}

namespace GraftableDags

theorem avoids_finished {β : Type} {x : Except Fault β} :
    Fueled.Avoids Fault.IsPanic (finished x) ↔ NoPanic x := by
  constructor
  · intro h
    exact h x rfl
  · intro h r hr
    obtain rfl := Option.some.inj hr
    exact h

theorem avoids_finished_bind {β γ : Type} {x : Except Fault β} {f : β → Fueled Fault γ} :
    Fueled.Avoids Fault.IsPanic (finished x >>= f) ↔
      NoPanic x ∧ ∀ a, x = .ok a → Fueled.Avoids Fault.IsPanic (f a) := by
  simp only [Fueled.avoids_bind, avoids_finished, ends_finished]

theorem avoids_throw_error {β : Type} (msg : String) :
    Fueled.Avoids Fault.IsPanic (throw (.error msg) : Fueled Fault β) :=
  Fueled.avoids_throw fun h => h

theorem finishes_finished {β : Type} (x : Except Fault β) : (finished x).Finishes := ⟨x, rfl⟩

section Loops

variable {resolve : δ → List (List String) → Fueled Fault Addrs} (hnew : ∀ d, NoPanic (G.new d))
  (hresolve : ∀ d seen, Fueled.Avoids Fault.IsPanic (resolve d seen))

include hnew hresolve

theorem avoids_handleDag (d : δ) (seen : List (List String)) :
    Fueled.Avoids Fault.IsPanic (G.handleDag resolve d seen) :=
  (avoids_finished.mpr (noPanic_wrapErr.mpr (hnew d))).bind fun _ _ => hresolve d seen

theorem avoids_handleAddr (seen : List (List String)) (owners : Addrs) (v : Resolved δ) :
    Fueled.Avoids Fault.IsPanic (G.handleAddr resolve seen owners v) := by
  cases v with
  | str addr => exact Fueled.avoids_pure _
  | dag addr =>
    exact (avoids_handleDag hnew hresolve addr seen).bind fun _ _ => Fueled.avoids_pure _
  | nil => exact avoids_throw_error _
  | list l => exact avoids_throw_error _
  | other goType => exact avoids_throw_error _

theorem avoids_handleAuth (seen : List (List String)) (owners : Addrs) (v : Resolved δ) :
    Fueled.Avoids Fault.IsPanic (G.handleAuth resolve seen owners v) := by
  cases v with
  | str auth => exact Fueled.avoids_pure _
  | dag auth =>
    exact (avoids_handleDag hnew hresolve auth seen).bind fun _ _ => Fueled.avoids_pure _
  | list auth => exact Fueled.Avoids.foldlM (avoids_handleAddr hnew hresolve seen) auth owners
  | nil => exact avoids_throw_error _
  | other goType => exact avoids_throw_error _

end Loops

/-- The assertion that the id is a string comes after a test that it is. -/
theorem avoids_resolveOwnersRecursively (hnew : ∀ d, NoPanic (G.new d))
    (hid : ∀ d, NoPanic (G.id d)) (hglobal : ∀ d path, NoPanic (G.globalResolve d path)) :
    ∀ (fuel : Nat) (d : δ) (seen : List (List String)),
      Fueled.Avoids Fault.IsPanic (G.resolveOwnersRecursively fuel d seen)
  | 0, _, _ => fun _ hr => by cases hr
  | fuel + 1, d, seen => by
    have ih := avoids_resolveOwnersRecursively hnew hid hglobal fuel
    rw [resolveOwnersRecursively]
    refine (avoids_finished.mpr (hid d)).bind fun v hv => ?_
    have hv : G.id d = .ok v := Option.some.inj hv
    cases v with
    | str originDid =>
      refine Fueled.Avoids.bind (Fueled.avoids_pure originDid) fun did hdid => ?_
      dsimp only
      split
      · exact avoids_throw_error _
      · refine (avoids_finished.mpr (hglobal d _)).bind fun auths _ => ?_
        cases auths with
        | list auths => exact Fueled.Avoids.foldlM (avoids_handleAuth hnew ih _) auths []
        | dag auths => exact avoids_handleDag hnew ih auths _
        | nil =>
          rw [hv]
          exact (avoids_finished.mpr (noPanic_ok _)).bind fun v' hv' => by
            obtain rfl := Except.ok.inj (Option.some.inj hv')
            exact Fueled.avoids_pure _
        | str s => exact avoids_throw_error _
        | other goType => exact avoids_throw_error _
    | _ =>
      intro r hr
      obtain rfl := Option.some.inj hr
      exact noPanic_error _

end GraftableDags

end Owners

/-! ## Proofs -/

section Proofs

variable {L : Ipld} {C : Crypto} {run : Script} {keys : List (VerKey C)} {room : Option Nat}

/-- The signature of a confirmation with a quorum can be restored. -/
def RoundConfirmation.Checked (quorumCount : Nat) (keys : List (VerKey C)) (room : Option Nat)
    (conf : RoundConfirmation) : Prop :=
  ∃ sig, conf.signature = some sig ∧ (quorumCount ≤ signerCount sig → sig.Restorable keys room)

theorem noPanic_verifyRoundConfirmation (hC : C.Readable) {conf : Option RoundConfirmation}
    {quorumCount : Nat} :
    NoPanic (Proof.verifyRoundConfirmation C run conf quorumCount keys room) ↔
      ∃ c, conf = some c ∧ c.Checked quorumCount keys room := by
  unfold Proof.verifyRoundConfirmation RoundConfirmation.Checked
  rw [noPanic_deref_bind]
  refine exists_congr fun c => and_congr_right fun _ => ?_
  rw [noPanic_deref_bind]
  refine exists_congr fun sig => and_congr_right fun _ => ?_
  refine avoids_ite.trans ((and_iff_right fun _ => noPanic_pure _).trans ?_)
  rw [not_lt]
  refine imp_congr_right fun _ => noPanic_bind.trans ?_
  rw [noPanic_wrapErr, noPanic_restoreBLSPublicKey]
  refine and_iff_left_of_imp fun _ sig' hsig' => ?_
  obtain ⟨point, hpoint⟩ := hasKey_of_restored hC (wrapErr_eq_ok.mp hsig')
  exact noPanic_wrapErr.mpr (hpoint.noPanic_valid run _)

theorem noPanic_abrFound (abrCid : Cid) : ∀ bs : List Bytes, NoPanic (Proof.abrFound L abrCid bs)
  | [] => noPanic_ok _
  | b :: bs => by
    refine NoPanic.bind (noPanic_wrapErr.mpr (L.noPanic_cast b)) fun c _ => ?_
    exact Avoids.ite (fun _ => noPanic_pure _) fun _ => noPanic_abrFound abrCid bs

/-- The parts of a proof that `proof.Verify` reads from, as far as the equalities hold. -/
def Proof.LinksRead (L : Ipld) (p : Proof) (conf : RoundConfirmation) : Prop :=
  L.cast conf.roundCid = .ok (L.cidOf (.ofPtr .round p.round)) →
    ∃ round, p.round = some round ∧
      (L.cast round.checkpointCid = .ok (L.cidOf (.ofPtr .checkpoint p.checkpoint)) →
        ∃ checkpoint, p.checkpoint = some checkpoint ∧
          (Proof.abrFound L (L.cidOf (.ofPtr .addBlockRequest p.addBlockRequest))
            checkpoint.addBlockRequests = .ok true →
            ∀ tip, L.cast p.tip = .ok tip → ∃ abr, p.addBlockRequest = some abr))

/-- What `proof.Verify` dereferences is there. -/
def Proof.Checked (L : Ipld) (run : Script) (quorumCount : Nat) (keys : List (VerKey C))
    (room : Option Nat) (p : Proof) : Prop :=
  ∃ conf, p.roundConfirmation = some conf ∧ conf.Checked quorumCount keys room ∧
    (Proof.verifyRoundConfirmation C run (some conf) quorumCount keys room = .ok true →
      p.LinksRead L conf)

/-- A CID that is compared with one that is cast. -/
theorem noPanic_cast_ne {context : String} {b : Bytes} {c : Cid} {x : Except Fault Bool} :
    NoPanic (do
      let c' ← wrapErr context (L.cast b)
      if c ≠ c' then pure false else x) ↔ (L.cast b = .ok c → NoPanic x) := by
  rw [noPanic_then (noPanic_wrapErr.mpr (L.noPanic_cast b))]
  simp only [wrapErr_eq_ok]
  constructor
  · intro h hc
    have hx := h c hc
    rwa [if_neg (not_not.mpr rfl)] at hx
  · intro h c' hc'
    refine Avoids.ite (fun _ => noPanic_pure _) fun heq => h ?_
    rw [hc', not_not.mp heq]

theorem noPanic_verifyLinks {p : Proof} {conf : RoundConfirmation}
    (hconf : p.roundConfirmation = some conf) :
    NoPanic (Proof.verifyLinks L p) ↔ p.LinksRead L conf := by
  unfold Proof.verifyLinks Proof.LinksRead
  rw [hconf, deref, ok_bind, noPanic_cast_ne]
  refine imp_congr_right fun _ => noPanic_deref_bind.trans ?_
  refine exists_congr fun round => and_congr_right fun _ => ?_
  rw [noPanic_cast_ne]
  refine imp_congr_right fun _ => noPanic_deref_bind.trans ?_
  refine exists_congr fun checkpoint => and_congr_right fun _ => ?_
  rw [noPanic_then (noPanic_abrFound _ _), Bool.forall_bool]
  refine (and_iff_right fun _ => noPanic_pure _).trans (imp_congr_right fun _ => ?_)
  rw [Bool.not_true, if_neg Bool.false_ne_true,
    noPanic_then (noPanic_wrapErr.mpr (L.noPanic_cast p.tip))]
  refine forall_congr' fun tip => ?_
  rw [wrapErr_eq_ok]
  refine imp_congr_right fun _ => noPanic_deref_bind.trans ?_
  refine exists_congr fun abr => and_iff_left ?_
  refine NoPanic.bind (noPanic_wrapErr.mpr (L.noPanic_cast _)) fun _ _ => ?_
  refine Avoids.ite (fun _ => noPanic_pure _) fun _ => ?_
  exact Avoids.ite (fun _ => noPanic_pure _) fun _ => noPanic_pure _

/-- **A proof is checked without a panic** if and only if what is dereferenced is there. -/
theorem noPanic_verify (hC : C.Readable) {p : Proof} {quorumCount : Nat} :
    NoPanic (Proof.verify C L run p quorumCount keys room) ↔
      p.Checked L run quorumCount keys room := by
  unfold Proof.verify Proof.Checked
  rw [noPanic_bind, noPanic_wrapErr, noPanic_verifyRoundConfirmation hC, Bool.forall_bool]
  cases hconf : p.roundConfirmation with
  | none => simp
  | some conf =>
    simp only [Option.some.injEq, exists_eq_left', wrapErr_eq_ok, Bool.not_false, Bool.not_true,
      if_true, Bool.false_eq_true, if_false, noPanic_pure, implies_true, true_and,
      noPanic_verifyLinks hconf]

end Proofs

end Tupelo

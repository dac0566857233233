import Tupelo.Client.AddBlock
import Tupelo.Infra.AnyM
import Tupelo.Sdk.Ownership
import Tupelo.Sdk.Signatures

/-!
# The signature of an owner

The model of `IsBlockSignedBy` (`sdk/consensus/consensus.go`) and of the validator `isOwner`
(`sdk/gossip/types/validators.go`), with what they use of `sdk/signatures/signature.go`. The
headers of a block have signatures by address. A block is accepted if one of the owners of the
tree has signed it.

The check of one owner says yes or no, or it fails. The loop over the owners ends with the first
that has signed, and with the first whose check fails.
-/

namespace Tupelo

open Infra

/-- What the program calls of go-ethereum. -/
structure Ecdsa where
  /-- `*ecdsa.PublicKey`. -/
  Key : Type
  /-- `crypto.SigToPub`. -/
  sigToPub : (hsh sig : Bytes) → Except String Key
  /-- `crypto.FromECDSAPub`. -/
  fromECDSAPub : Key → Bytes
  /-- `crypto.UnmarshalPubkey`. -/
  unmarshalPubkey : Bytes → Except String Key
  /-- `crypto.PubkeyToAddress`. -/
  pubkeyToAddress : Key → Bytes
  /-- `common.BytesToAddress(crypto.Keccak256(bits))`. -/
  bytesToAddress : Bytes → Bytes
  /-- `Address.String`. -/
  addressString : Bytes → String

/-- `StandardHeaders`. -/
structure StandardHeaders where
  signatures : GoMap String (Option Signature)

/-- What the program calls to read a block. -/
structure BlockLib (α : Type) where
  /-- `typecaster.ToType` to the headers. -/
  toType : Obj Cid → Except Fault StandardHeaders
  /-- `ObjToHash` of a block; it is called with a block without headers. -/
  objToHash : BlockWithHeaders α → Except Fault Bytes

/-! ## `signature.go` -/

section Signature

variable (E : Ecdsa)

def address (o : Ownership) : Except Fault Bytes := do
  -- in the case of conditions, all keys are treated alike
  if o.conditions ≠ "" then
    let publicKey ← deref o.publicKey
    return E.bytesToAddress (publicKey.publicKey ++ o.conditions.toUTF8.toList)
  else
    let publicKey ← deref o.publicKey
    match publicKey.type with
    | .secp256k1 =>
      match E.unmarshalPubkey publicKey.publicKey with
      | .ok key => .ok (E.pubkeyToAddress key)
      | .error err => .error (.error ("error unmarshaling public key: " ++ err))
    | .blsGroupSig => .ok (E.bytesToAddress publicKey.publicKey)
    | .other n => .error (.error ("unknown keytype: " ++ toString n))

def restoreEcdsaPublicKey (s : Signature) (hsh : Bytes) : Except Fault Signature := do
  let ownership ← deref s.ownership
  let publicKey ← deref ownership.publicKey
  if publicKey.type ≠ .secp256k1 then
    .error (.error "error only KeyTypeSecp256k1 supports key recovery")
  else match E.sigToPub hsh s.signature with
    | .error err => .error (.error ("error recovering signature: " ++ err))
    | .ok recoveredPub =>
      let publicKey := { publicKey with publicKey := E.fromECDSAPub recoveredPub }
      .ok { s with ownership := some { ownership with publicKey := some publicKey } }

end Signature

section Block

variable {α : Type} (B : BlockLib α) (E : Ecdsa) (C : Crypto) (run : Script)
variable {addrs : Addrs} {hsh : Bytes}

/-! ## `consensus.go` -/

def blockToHash (block : BlockWithHeaders α) : Except Fault Bytes :=
  B.objToHash { block with headers := .null }

/-- The headers of a block, if it has any. -/
def standardHeaders (block : BlockWithHeaders α) : Except Fault StandardHeaders :=
  match block.headers with
  | .null => .ok { signatures := ∅ }
  | headers => wrapErr "error converting headers: " (B.toType headers)

/-- The check of the signature of an address. -/
def isSignature (sig : Signature) (hsh : Bytes) (addr : String) : Except Fault Bool := do
  let ownership ← deref sig.ownership
  let publicKey ← deref ownership.publicKey
  match publicKey.type with
  | .secp256k1 =>
    let sig ← wrapErr "error restoring public key: " (restoreEcdsaPublicKey E sig hsh)
    let ownership ← deref sig.ownership
    let sigAddr ← wrapErr "error getting address from signature: " (address E ownership)
    if E.addressString sigAddr ≠ addr then
      .error (.error ("unsigned by address " ++ E.addressString sigAddr ++ " != " ++ addr))
    else valid C run sig hsh
  | _ => .error (.error "unkown signature type")

def isBlockSignedBy (block : BlockWithHeaders α) (addr : String) : Except Fault Bool := do
  let headers ← standardHeaders B block
  match headers.signatures.lookup addr with
  | none => return false
  | some sig =>
    let hsh ← wrapErr "error wrapping block: " (blockToHash B block)
    let sig ← deref sig
    isSignature E C run sig hsh addr

/-! ## `validators.go` -/

/-- The loop over the owners. -/
def signedByOne (block : BlockWithHeaders α) (addrs : Addrs) : Except Fault Bool :=
  addrs.anyM fun auth =>
    codeErr errUnknown ("error finding if signed: " ++ ·) (isBlockSignedBy B E C run block auth)

/-- `ResolveOwners`, with a code for its error. -/
def codedOwners {δ : Type} (G : GraftableDags δ) (fuel : Nat) (tree : δ) : Fueled Fault Addrs :=
  ExceptT.mk ((G.resolveOwners fuel tree).run.map
    (codeErr errUnknown ("error resolving owners: " ++ ·)))

theorem codedOwners_ends {δ : Type} {G : GraftableDags δ} {fuel : Nat} {tree : δ} :
    (codedOwners G fuel tree).Ends (.ok addrs) ↔ (G.resolveOwners fuel tree).Ends (.ok addrs) := by
  refine Option.map_eq_some_iff.trans ⟨?_, fun h => ⟨_, h, rfl⟩⟩
  rintro ⟨r, hr, hok⟩
  exact codeErr_eq_ok.mp hok ▸ hr

def isOwner {δ : Type} (G : GraftableDags δ) (fuel : Nat) (tree : δ)
    (block : BlockWithHeaders α) : Fueled Fault Bool := do
  let _ ← GraftableDags.finished (codeErr errUnknown ("error: " ++ ·) (B.toType block.headers))
  let _ ← GraftableDags.finished
    (codeErr errUnknown ("error creating GraftedOwnership: " ++ ·) (G.new tree))
  let addrs ← codedOwners G fuel tree
  GraftableDags.finished (signedByOne B E C run block addrs)

/-! ## Who has signed -/

/-- The ownership with a key that was recovered. -/
def Ownership.withKey (o : Ownership) (key : E.Key) : Ownership :=
  { o with publicKey := some { type := .secp256k1, publicKey := E.fromECDSAPub key } }

/--
A valid signature of the address: the key that is recovered from it has the address, its
conditions are met, and it verifies.
-/
def Signature.IsOf (sig : Signature) (hsh : Bytes) (addr : String) : Prop :=
  ∃ ownership publicKey key sigAddr, sig.ownership = some ownership ∧
    ownership.publicKey = some publicKey ∧ publicKey.type = .secp256k1 ∧
    E.sigToPub hsh sig.signature = .ok key ∧
    address E (ownership.withKey E key) = .ok sigAddr ∧ E.addressString sigAddr = addr ∧
    valid C run { sig with ownership := some (ownership.withKey E key) } hsh = .ok true

/-- The headers have a valid signature of the address. -/
def HasSigned (block : BlockWithHeaders α) (addr : String) : Prop :=
  ∃ headers sig hsh, standardHeaders B block = .ok headers ∧
    headers.signatures.lookup addr = some (some sig) ∧ blockToHash B block = .ok hsh ∧
    sig.IsOf E C run hsh addr

/-- The headers have an entry for the address whose check fails. -/
def Faulty (block : BlockWithHeaders α) (addr : String) : Prop :=
  ∃ fault, isBlockSignedBy B E C run block addr = .error fault

variable {B E C run} {block : BlockWithHeaders α} {addr : String}

theorem restoreEcdsaPublicKey_ok {s s' : Signature} {ownership : Ownership} {publicKey : PublicKey}
    (hownership : s.ownership = some ownership) (hpublicKey : ownership.publicKey = some publicKey)
    (htype : publicKey.type = .secp256k1) (h : restoreEcdsaPublicKey E s hsh = .ok s') :
    ∃ key, E.sigToPub hsh s.signature = .ok key ∧
      s' = { s with ownership := some (ownership.withKey E key) } := by
  unfold restoreEcdsaPublicKey at h
  simp only [hownership, hpublicKey, deref, ok_bind, htype, ne_eq, not_true_eq_false,
    if_false] at h
  split at h
  · cases h
  · next key hkey =>
    refine ⟨key, hkey, ?_⟩
    rw [← Except.ok.inj h, Ownership.withKey, ← htype]

theorem restoreEcdsaPublicKey_of_key {s : Signature} {ownership : Ownership} {publicKey : PublicKey}
    (hownership : s.ownership = some ownership) (hpublicKey : ownership.publicKey = some publicKey)
    (htype : publicKey.type = .secp256k1) {key : E.Key}
    (hkey : E.sigToPub hsh s.signature = .ok key) :
    restoreEcdsaPublicKey E s hsh = .ok { s with ownership := some (ownership.withKey E key) } := by
  unfold restoreEcdsaPublicKey
  simp only [hownership, hpublicKey, deref, ok_bind, htype, ne_eq, not_true_eq_false, if_false,
    hkey, Ownership.withKey]

theorem isSignature_true_iff {sig : Signature} :
    isSignature E C run sig hsh addr = .ok true ↔ sig.IsOf E C run hsh addr := by
  constructor
  · intro h
    obtain ⟨ownership, hownership, h⟩ := bind_eq_ok.mp h
    obtain ⟨publicKey, hpublicKey, h⟩ := bind_eq_ok.mp h
    have hownership := deref_eq_ok hownership
    have hpublicKey := deref_eq_ok hpublicKey
    cases htype : publicKey.type with
    | secp256k1 =>
      simp only [htype] at h
      obtain ⟨sig', hsig', h⟩ := bind_eq_ok.mp h
      obtain ⟨key, hkey, rfl⟩ :=
        restoreEcdsaPublicKey_ok hownership hpublicKey htype (wrapErr_eq_ok.mp hsig')
      rw [deref, ok_bind] at h
      obtain ⟨sigAddr, hsigAddr, h⟩ := bind_eq_ok.mp h
      obtain ⟨hne, h⟩ := guard_eq_ok h
      exact ⟨ownership, publicKey, key, sigAddr, hownership, hpublicKey, htype, hkey,
        wrapErr_eq_ok.mp hsigAddr, not_not.mp hne, h⟩
    | blsGroupSig =>
      simp only [htype] at h
      cases h
    | other n =>
      simp only [htype] at h
      cases h
  · rintro ⟨ownership, publicKey, key, sigAddr, hownership, hpublicKey, htype, hkey, hsigAddr,
      rfl, hvalid⟩
    unfold isSignature
    simp only [hownership, hpublicKey, deref, ok_bind, htype,
      restoreEcdsaPublicKey_of_key hownership hpublicKey htype hkey, wrapErr_ok, hsigAddr, ne_eq,
      not_true_eq_false, if_false, hvalid]

theorem isBlockSignedBy_true_iff :
    isBlockSignedBy B E C run block addr = .ok true ↔ HasSigned B E C run block addr := by
  constructor
  · intro h
    obtain ⟨headers, hheaders, h⟩ := bind_eq_ok.mp h
    split at h
    · cases h
    · next sig hsig =>
      obtain ⟨hsh, hhsh, h⟩ := bind_eq_ok.mp h
      obtain ⟨sig', hsig', h⟩ := bind_eq_ok.mp h
      rw [deref_eq_ok hsig'] at hsig
      exact ⟨headers, sig', hsh, hheaders, hsig, wrapErr_eq_ok.mp hhsh, isSignature_true_iff.mp h⟩
  · rintro ⟨headers, sig, hsh, hheaders, hsig, hhsh, hof⟩
    unfold isBlockSignedBy
    simp only [hheaders, ok_bind, hsig, hhsh, wrapErr_ok, deref]
    exact isSignature_true_iff.mpr hof

/-! ## The loop -/

theorem exists_hasSigned (h : signedByOne B E C run block addrs = .ok true) :
    ∃ a ∈ addrs, HasSigned B E C run block a := by
  obtain ⟨a, ha, hsigned⟩ := exists_of_anyM h
  exact ⟨a, ha, isBlockSignedBy_true_iff.mp (codeErr_eq_ok.mp hsigned)⟩

/-- A block that somebody has signed has headers. -/
theorem HasSigned.toType_ok {a : String} (h : HasSigned B E C run block a) :
    ∃ headers, B.toType block.headers = .ok headers := by
  obtain ⟨headers, sig, hsh, hheaders, hsig, -⟩ := h
  unfold standardHeaders at hheaders
  split at hheaders
  · obtain rfl := Except.ok.inj hheaders
    cases hsig
  · exact ⟨headers, wrapErr_eq_ok.mp hheaders⟩

/-- `isOwner` is the loop over the owners. -/
theorem isOwner_ends_true_iff {δ : Type} {G : GraftableDags δ} {fuel : Nat} {tree : δ}
    (hnew : G.new tree = .ok ()) (haddrs : (G.resolveOwners fuel tree).Ends (.ok addrs)) :
    (isOwner B E C run G fuel tree block).Ends (.ok true) ↔
      signedByOne B E C run block addrs = .ok true := by
  have hcoded := codedOwners_ends.mpr haddrs
  unfold isOwner
  rw [hnew]
  constructor
  · intro h
    obtain ⟨_, -, h⟩ := Fueled.ends_ok_bind.mp h
    obtain ⟨_, -, h⟩ := Fueled.ends_ok_bind.mp h
    obtain ⟨addrs', haddrs', h⟩ := Fueled.ends_ok_bind.mp h
    obtain rfl := Except.ok.inj (hcoded.unique haddrs')
    exact Option.some.inj h
  · intro h
    obtain ⟨a, -, ha⟩ := exists_hasSigned h
    obtain ⟨headers, hheaders⟩ := ha.toType_ok
    refine Fueled.ends_ok_bind.mpr ⟨headers, ?_, Fueled.ends_ok_bind.mpr ⟨(), rfl,
      Fueled.ends_ok_bind.mpr ⟨addrs, hcoded, congrArg some h⟩⟩⟩
    rw [hheaders]
    rfl

/-- A tree whose owners are these. -/
def ownedBy (addrs : Addrs) : GraftableDags Unit where
  new _ := .ok ()
  id _ := .ok (.str "did:tupelo:a")
  globalResolve _ _ := .ok (.list [.list (addrs.map .str)])
  pathsContainPrefix seen path := seen.any (·.isPrefixOf path)
  sprint := Resolved.goType

theorem foldlM_handleAddr_str (G : GraftableDags Unit)
    (resolve : Unit → List (List String) → Fueled Fault Addrs) (seen : List (List String)) :
    ∀ addrs owners : Addrs,
      ((addrs.map Resolved.str).foldlM (G.handleAddr resolve seen) owners).Ends
        (.ok (owners ++ addrs))
  | [], owners => by
    rw [List.append_nil]
    rfl
  | a :: addrs, owners => by
    rw [List.map_cons, List.foldlM_cons]
    refine Fueled.ends_ok_bind.mpr ⟨owners ++ [a], rfl, ?_⟩
    have hrest := foldlM_handleAddr_str G resolve seen addrs (owners ++ [a])
    rwa [List.append_assoc] at hrest

theorem resolveOwners_ownedBy (addrs : Addrs) :
    ((ownedBy addrs).resolveOwners 1 ()).Ends (.ok addrs) := by
  have hinner := foldlM_handleAddr_str (ownedBy addrs)
    ((ownedBy addrs).resolveOwnersRecursively 0) [["did:tupelo:a"] ++ authenticationsPath] addrs []
  refine Fueled.ends_ok_bind.mpr ⟨.str "did:tupelo:a", rfl, ?_⟩
  refine Fueled.ends_ok_bind.mpr ⟨"did:tupelo:a", rfl, ?_⟩
  refine Fueled.ends_ok_bind.mpr ⟨.list [.list (addrs.map .str)], rfl, ?_⟩
  exact Fueled.ends_ok_bind.mpr ⟨addrs, hinner, rfl⟩

/-! ## The order of the owners, and more signatures -/

/-- What `isOwner` says of the block, whatever order the owners come in. -/
def Decides (B : BlockLib α) (E : Ecdsa) (C : Crypto) (run : Script) (block : BlockWithHeaders α)
    (addrs : Addrs) (accepts : Prop) : Prop :=
  ∀ (δ : Type) (G : GraftableDags δ) (fuel : Nat) (tree : δ) (addrs' : Addrs),
    addrs'.Perm addrs → G.new tree = .ok () → (G.resolveOwners fuel tree).Ends (.ok addrs') →
      ((isOwner B E C run G fuel tree block).Ends (.ok true) ↔ accepts)

/-- Other headers, with the same signatures and more. -/
def AddsSignatures (B : BlockLib α) (block : BlockWithHeaders α) (headers' : Obj Cid) : Prop :=
  ∀ headers, standardHeaders B block = .ok headers →
    ∃ more, standardHeaders B { block with headers := headers' } = .ok more ∧
      ∀ a sig, headers.signatures.lookup a = some sig → more.signatures.lookup a = some sig

theorem HasSigned.adds {headers' : Obj Cid} (hadds : AddsSignatures B block headers')
    (h : HasSigned B E C run block addr) :
    HasSigned B E C run { block with headers := headers' } addr := by
  obtain ⟨headers, sig, hsh, hheaders, hsig, hhsh, hof⟩ := h
  obtain ⟨more, hmore, hkeeps⟩ := hadds headers hheaders
  exact ⟨more, sig, hsh, hmore, hkeeps _ _ hsig, hhsh, hof⟩

theorem not_faulty_iff : ¬ Faulty B E C run block addr ↔
    ∃ b, isBlockSignedBy B E C run block addr = .ok b := by
  unfold Faulty
  cases isBlockSignedBy B E C run block addr <;> simp

/-- The verdict does not depend on the order if and only if no check fails, or nobody signed. -/
theorem decides_hasSigned_iff :
    Decides B E C run block addrs (∃ a ∈ addrs, HasSigned B E C run block a) ↔
      ((∃ a ∈ addrs, HasSigned B E C run block a) → ∀ a ∈ addrs, ¬ Faulty B E C run block a) := by
  have hperm := @anyM_perm_iff String Fault (fun auth => codeErr errUnknown
    ("error finding if signed: " ++ ·) (isBlockSignedBy B E C run block auth)) addrs
  simp only [codeErr_eq_ok, isBlockSignedBy_true_iff, ← not_faulty_iff] at hperm
  rw [← hperm]
  constructor
  · intro h addrs' haddrs'
    rw [← h Unit (ownedBy addrs') 1 () addrs' haddrs' rfl (resolveOwners_ownedBy addrs'),
      isOwner_ends_true_iff rfl (resolveOwners_ownedBy addrs')]
    rfl
  · intro h δ G fuel tree addrs' haddrs' hnew hends
    rw [isOwner_ends_true_iff hnew hends]
    exact h addrs' haddrs'

/--
**What `isOwner` depends on.**

For every block and list of owners: in each order of the owners, `isOwner` accepts the block just
when some owner has a valid signature in the headers, if and only if nobody has or the check fails
for no owner. Let some owner have signed, and more entries come into the headers: the block is
accepted in each order if and only if the check fails for no owner then.
-/
theorem isOwner_signed_iff (B : BlockLib α) (E : Ecdsa) (C : Crypto) (run : Script)
    (block : BlockWithHeaders α) (addrs : Addrs) :
    (Decides B E C run block addrs (∃ a ∈ addrs, HasSigned B E C run block a) ↔
      ((∃ a ∈ addrs, HasSigned B E C run block a) → ∀ a ∈ addrs, ¬ Faulty B E C run block a)) ∧
    ∀ headers', AddsSignatures B block headers' →
      (∃ a ∈ addrs, HasSigned B E C run block a) →
        (Decides B E C run { block with headers := headers' } addrs True ↔
          ∀ a ∈ addrs, ¬ Faulty B E C run { block with headers := headers' } a) := by
  refine ⟨decides_hasSigned_iff, ?_⟩
  rintro headers' hadds ⟨a, ha, hsigned⟩
  have hmore : ∃ a ∈ addrs, HasSigned B E C run { block with headers := headers' } a :=
    ⟨a, ha, hsigned.adds hadds⟩
  rw [← eq_true hmore, decides_hasSigned_iff]
  exact ⟨fun h => h hmore, fun h _ => h⟩

end Block

/-! ## Two owners -/

namespace OwnerExample

/-- A signature is the number of the key and a byte that is dropped; the address is the number. -/
def ecdsa : Ecdsa where
  Key := UInt8
  sigToPub _ sig := match sig with
    | [k, _] => .ok k
    | _ => .error "invalid signature length"
  fromECDSAPub k := [k]
  unmarshalPubkey bytes := match bytes with
    | [k] => .ok k
    | _ => .error "invalid secp256k1 public key"
  pubkeyToAddress k := [k]
  bytesToAddress bytes := 0 :: bytes
  addressString bytes := "0x" ++ toString (bytes.headD 0)

def crypto : Crypto where
  Point := Unit
  unmarshal _ := none
  marshal _ := .ok []
  aggregatePublicKeys _ := ()
  aggregateSignatures _ := .error "no signatures"
  verify _ _ _ := false
  verifyEcdsa key _ sig := key = sig

def script : Script := fun _ _ => .ok true

/-- The signatures are not read from the headers but given. -/
def lib (signatures : List (String × Signature)) : BlockLib Unit where
  toType _ := .ok { signatures := signatures.foldl (fun m e => m.insert e.1 (some e.2)) ∅ }
  objToHash _ := .ok [1, 2, 3]

def block : BlockWithHeaders Unit :=
  { height := 0, previousTip := none, transactions := (), headers := .map [] }

def signature (bytes : Bytes) : Signature :=
  { ownership := some
      { publicKey := some { type := .secp256k1, publicKey := [] }, conditions := "" }
    signers := [], signature := bytes, preImage := "" }

/-- The owner `0x1` has signed. The signature under `0x2` is too short. -/
theorem isOwner_depends_on_order :
    (isOwner (lib [("0x1", signature [1, 0]), ("0x2", signature [2])]) ecdsa crypto script
      (ownedBy ["0x1", "0x2"]) 1 () block).Ends (.ok true) ∧
    ∃ fault, (isOwner (lib [("0x1", signature [1, 0]), ("0x2", signature [2])]) ecdsa crypto script
      (ownedBy ["0x2", "0x1"]) 1 () block).Ends (.error fault) := by
  refine ⟨?_, .coded errUnknown ("error finding if signed: error restoring public key: " ++
    "error recovering signature: invalid signature length"), ?_⟩
  · show ExceptT.run _ = _
    decide +kernel
  · show ExceptT.run _ = _
    decide +kernel

end OwnerExample

end Tupelo

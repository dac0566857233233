import Tupelo.Sdk.IsOwner
import Tupelo.Signer.ValidateAbr

/-!
# Signing a block, and who has signed it

The model of `SignBlock` (`sdk/consensus/consensus.go`). A signature is put into the headers under
the address of its key. The headers are not part of what is signed, so a block can be signed by
several keys one after the other, and each signature is for the same hash.

`SignBlock` and `IsBlockSignedBy` are inverse to each other: after any sequence of signatures a
block is signed by exactly the addresses of the keys, and the check fails for nobody. So the check
of the owners (`isOwner`), which a faulty entry can make fail, says yes or no for such a block, and
for a request of a client it says whether the key of the client is one of the owners.
-/

namespace Tupelo

open Infra

/-- What the program calls of go-ethereum to sign. -/
structure EcdsaSigner (E : Ecdsa) where
  /-- `*ecdsa.PrivateKey`. -/
  PrivateKey : Type
  publicKey : PrivateKey → E.Key
  /-- `crypto.Sign`. -/
  sign : (hsh : Bytes) → PrivateKey → Except String Bytes

/-- What is signed verifies, for the key that is recovered from it. -/
structure EcdsaSigner.Correct {E : Ecdsa} (S : EcdsaSigner E) (C : Crypto) : Prop where
  recovers : ∀ hsh key sig, S.sign hsh key = .ok sig → E.sigToPub hsh sig = .ok (S.publicKey key)
  verifies : ∀ hsh key sig, S.sign hsh key = .ok sig → sig ≠ [] ∧
    C.verifyEcdsa (E.fromECDSAPub (S.publicKey key)) hsh sig.dropLast = true
  unmarshals : ∀ key, E.unmarshalPubkey (E.fromECDSAPub key) = .ok key
  marshals : ∀ key, E.fromECDSAPub key ≠ []

/-- `crypto.PubkeyToAddress(key.PublicKey).String()`. -/
def EcdsaSigner.addr {E : Ecdsa} (S : EcdsaSigner E) (key : S.PrivateKey) : String :=
  E.addressString (E.pubkeyToAddress (S.publicKey key))

/-- The signature that `SignBlock` makes of the bytes. The key is left out, to be recovered. -/
def ecdsaSignature (sigBytes : Bytes) : Signature where
  ownership := some { publicKey := some { type := .secp256k1, publicKey := [] }, conditions := "" }
  signers := []
  signature := sigBytes
  preImage := ""

section SignBlock

variable {α : Type} (B : BlockLib α) {E : Ecdsa} (S : EcdsaSigner E)
  (marshal : StandardHeaders → Except Fault (Obj Cid))
variable {headers : StandardHeaders} {key : S.PrivateKey}

/-- The headers that `SignBlock` sets. `marshal` is the cast to a map. -/
def signHeaders (key : S.PrivateKey) (block : BlockWithHeaders α) : Except Fault (Obj Cid) := do
  let hsh ← wrapErr "error hashing block: " (blockToHash B block)
  let sigBytes ← (S.sign hsh key).mapError fun err => Fault.error ("error signing: " ++ err)
  let headers ← wrapErr "error casting headers: " (B.toType block.headers)
  let signatures := headers.signatures.insert (S.addr key) (some (ecdsaSignature sigBytes))
  wrapErr "error casting headers: " (marshal { signatures })

/-- `SignBlock` with each of the keys. -/
def signAll (keys : List S.PrivateKey) (block : BlockWithHeaders α) :
    Except Fault (BlockWithHeaders α) :=
  keys.foldlM (fun block key => signBlock (signHeaders B S marshal key) block) block

/-- Headers that were cast to a map are cast back. No headers are empty ones. -/
structure BlockLib.Casts : Prop where
  null : B.toType .null = .ok { signatures := ∅ }
  marshal : ∀ headers obj, marshal headers = .ok obj → B.toType obj = .ok headers

/-- The headers have a signature by one of the keys for each of their addresses, and no other. -/
structure SignedByKeys (keys : List S.PrivateKey) (block : BlockWithHeaders α)
    (headers : StandardHeaders) : Prop where
  casts : B.toType block.headers = .ok headers
  absent : ∀ addr, addr ∉ keys.map S.addr → headers.signatures.lookup addr = none
  signed : ∀ addr, addr ∈ keys.map S.addr → ∃ key hsh sigBytes, S.addr key = addr ∧
    blockToHash B block = .ok hsh ∧ S.sign hsh key = .ok sigBytes ∧
    headers.signatures.lookup addr = some (some (ecdsaSignature sigBytes))

variable {B S marshal} {C : Crypto} {run : Script} {keys : List S.PrivateKey}
  {block block' : BlockWithHeaders α}

theorem BlockLib.Casts.standardHeaders_eq (hB : B.Casts marshal)
    (h : B.toType block.headers = .ok headers) : standardHeaders B block = .ok headers := by
  unfold standardHeaders
  split
  · next hnull =>
    rw [hnull, hB.null] at h
    exact h
  · rw [h]
    rfl

/-- A signature that was made is one of the address of its key. -/
theorem ecdsaSignature_isOf (hS : S.Correct C) {hsh sigBytes : Bytes}
    (h : S.sign hsh key = .ok sigBytes) :
    (ecdsaSignature sigBytes).IsOf E C run hsh (S.addr key) := by
  obtain ⟨hne, hverify⟩ := hS.verifies hsh key sigBytes h
  refine ⟨_, _, S.publicKey key, E.pubkeyToAddress (S.publicKey key), rfl, rfl, rfl,
    hS.recovers hsh key sigBytes h, ?_, rfl, ?_⟩
  · simp [address, Ownership.withKey, deref, hS.unmarshals]
  · simp [valid, validConditions, Ownership.withKey, ecdsaSignature, deref, hS.marshals, hne,
      hverify]

/-- The step lemma: one more key. -/
theorem SignedByKeys.signBlock (hB : B.Casts marshal) (h : SignedByKeys B S keys block headers)
    (hsign : signBlock (signHeaders B S marshal key) block = .ok block') :
    ∃ headers', SignedByKeys B S (keys ++ [key]) block' headers' := by
  obtain ⟨obj, hobj, hsign⟩ := bind_eq_ok.mp hsign
  obtain rfl := pure_eq_ok.mp hsign
  obtain ⟨hsh, hhsh, hobj⟩ := bind_eq_ok.mp hobj
  obtain ⟨sigBytes, hsig, hobj⟩ := bind_eq_ok.mp hobj
  obtain ⟨headers', hheaders, hobj⟩ := bind_eq_ok.mp hobj
  obtain rfl := Except.ok.inj (h.casts.symm.trans (wrapErr_eq_ok.mp hheaders))
  refine ⟨_, hB.marshal _ _ (wrapErr_eq_ok.mp hobj), ?_, ?_⟩
  · intro addr haddr
    simp only [List.map_append, List.map_cons, List.map_nil, List.mem_append, List.mem_singleton,
      not_or] at haddr
    rw [AList.lookup_insert_ne haddr.2]
    exact h.absent addr haddr.1
  · intro addr haddr
    by_cases hkey : addr = S.addr key
    · subst hkey
      exact ⟨key, hsh, sigBytes, rfl, wrapErr_eq_ok.mp hhsh, mapError_eq_ok.mp hsig,
        AList.lookup_insert _⟩
    · rw [AList.lookup_insert_ne hkey]
      exact h.signed addr (by simpa [hkey] using haddr)

/-- The run lemma. -/
theorem signedByKeys_signAll (hB : B.Casts marshal) (hnull : block.headers = .null)
    (h : signAll B S marshal keys block = .ok block') :
    ∃ headers, SignedByKeys B S keys block' headers := by
  induction keys using List.reverseRecOn generalizing block' with
  | nil =>
    obtain rfl := pure_eq_ok.mp h
    refine ⟨{ signatures := ∅ }, by rw [hnull]; exact hB.null, fun _ _ => rfl, ?_⟩
    intro addr haddr
    simp at haddr
  | append_singleton keys key ih =>
    rw [signAll, List.foldlM_append] at h
    obtain ⟨middle, hmiddle, h⟩ := bind_eq_ok.mp h
    obtain ⟨last, hlast, h⟩ := bind_eq_ok.mp h
    obtain rfl := pure_eq_ok.mp h
    obtain ⟨headers, hheaders⟩ := ih hmiddle
    exact hheaders.signBlock hB hlast

/-- The check says who has signed, and fails for nobody. -/
theorem SignedByKeys.isBlockSignedBy (hS : S.Correct C) (hB : B.Casts marshal)
    (h : SignedByKeys B S keys block headers) (addr : String) :
    isBlockSignedBy B E C run block addr = .ok (decide (addr ∈ keys.map S.addr)) := by
  by_cases haddr : addr ∈ keys.map S.addr
  · rw [decide_eq_true haddr, isBlockSignedBy_true_iff]
    obtain ⟨key, hsh, sigBytes, rfl, hhsh, hsign, hlookup⟩ := h.signed addr haddr
    exact ⟨headers, _, hsh, hB.standardHeaders_eq h.casts, hlookup, hhsh,
      ecdsaSignature_isOf hS hsign⟩
  · rw [decide_eq_false haddr, Tupelo.isBlockSignedBy, hB.standardHeaders_eq h.casts, ok_bind,
      h.absent addr haddr]
    rfl

/-- So the check of the owners says whether one of them has signed. -/
theorem SignedByKeys.isOwner (hS : S.Correct C) (hB : B.Casts marshal)
    (h : SignedByKeys B S keys block headers) {δ : Type} {G : GraftableDags δ} {fuel : Nat}
    {tree : δ} {addrs : Addrs} (hnew : G.new tree = .ok ())
    (haddrs : (G.resolveOwners fuel tree).Ends (.ok addrs)) :
    (isOwner B E C run G fuel tree block).Ends
      (.ok (addrs.any fun addr => addr ∈ keys.map S.addr)) := by
  have hone : signedByOne B E C run block addrs =
      .ok (addrs.any fun addr => addr ∈ keys.map S.addr) := by
    refine anyM_eq_any fun addr => ?_
    rw [h.isBlockSignedBy hS hB]
    rfl
  unfold Tupelo.isOwner
  rw [h.casts, hnew]
  exact Fueled.ends_ok_bind.mpr ⟨headers, rfl, Fueled.ends_ok_bind.mpr ⟨(), rfl,
    Fueled.ends_ok_bind.mpr ⟨addrs, codedOwners_ends.mpr haddrs, congrArg some hone⟩⟩⟩

/--
**Whoever signs has signed, and nobody else.**

A block without headers is signed by any keys, one after the other. Then the check of an address
says whether it is the address of one of the keys, and for a tree with whatever owners the block
is accepted if one of the keys is that of an owner, and else rejected. No check fails.
-/
theorem signAll_owners (hS : S.Correct C) (hB : B.Casts marshal) (hnull : block.headers = .null)
    (h : signAll B S marshal keys block = .ok block') :
    (∀ addr, isBlockSignedBy B E C run block' addr = .ok (decide (addr ∈ keys.map S.addr))) ∧
    ∀ (δ : Type) (G : GraftableDags δ) (fuel : Nat) (tree : δ) (addrs : Addrs),
      G.new tree = .ok () → (G.resolveOwners fuel tree).Ends (.ok addrs) →
        (isOwner B E C run G fuel tree block').Ends
          (.ok (addrs.any fun addr => addr ∈ keys.map S.addr)) := by
  obtain ⟨headers, hsigned⟩ := signedByKeys_signAll hB hnull h
  exact ⟨hsigned.isBlockSignedBy hS hB, fun δ G fuel tree addrs => hsigned.isOwner hS hB⟩

/-! ## The request of a client -/

section Request

variable {L : Ipld} {σ τ : Type} {ops : StoreOps τ Cid (Obj Cid)} {W : Wire α}
  {lib : ChainTreeLib L α σ} {tree : SignedChainTree τ} {transactions : α}

/-- The block of a request was signed when it had no headers. -/
theorem newBlock_signed {sign : BlockWithHeaders α → Except Fault (Obj Cid)}
    (h : newBlock ops sign L tree transactions = .ok block) :
    ∃ unsigned : BlockWithHeaders α, unsigned.headers = .null ∧
      signBlock sign unsigned = .ok block := by
  obtain ⟨height, -, h⟩ := bind_eq_ok.mp h
  exact ⟨_, rfl, wrapErr_eq_ok.mp h⟩

/--
**A request is accepted by the owners' check exactly if its key is that of an owner.**

The payload of a request that `NewAddBlockRequest` has made with a key decodes to a block of the
height of the request. For a tree with whatever owners, `isOwner` says of this block whether the
address of the key is one of them.
-/
theorem request_owner_iff (hS : S.Correct C) (hB : B.Casts marshal) (hW : W.Faithful)
    {key : S.PrivateKey} {ord : MapOrder} {n : Nat} {abr : AddBlockRequest}
    (h : newAddBlockRequest ops W lib (signHeaders B S marshal key) ord n tree transactions =
      some (.ok abr)) :
    ∃ block, W.decodeBlock abr.payload = .ok block ∧ block.height = abr.height ∧
      ∀ (δ : Type) (G : GraftableDags δ) (fuel : Nat) (owned : δ) (addrs : Addrs),
        G.new owned = .ok () → (G.resolveOwners fuel owned).Ends (.ok addrs) →
          (isOwner B E C run G fuel owned block).Ends (.ok (decide (S.addr key ∈ addrs))) := by
  obtain ⟨block, processed, hblock, hreq⟩ := newAddBlockRequest_ok h
  obtain ⟨unsigned, hnull, hsign⟩ := newBlock_signed hblock
  have hall : signAll B S marshal [key] unsigned = .ok block := by
    rw [signAll, List.foldlM_cons, hsign]
    rfl
  obtain ⟨headers, hsigned⟩ := signedByKeys_signAll hB hnull hall
  refine ⟨block, ?_, hreq.height.symm, ?_⟩
  · rw [hreq.payload, hW.decodeBlock_wrapBlock]
  · intro δ G fuel owned addrs hnew haddrs
    have hany : decide (S.addr key ∈ addrs) = addrs.any fun addr => addr ∈ [key].map S.addr := by
      rw [Bool.eq_iff_iff]
      simp
    rw [hany]
    exact hsigned.isOwner hS hB hnew haddrs

end Request

end SignBlock

/-! ### Keys that are numbers -/

namespace SignExample

open OwnerExample (ecdsa crypto script)

/-- A key signs with its number and a byte that is dropped. -/
def signer : EcdsaSigner ecdsa where
  PrivateKey := UInt8
  publicKey := fun key => key
  sign := fun _ key => .ok [key, 0]

def one : signer.PrivateKey := (1 : UInt8)

def two : signer.PrivateKey := (2 : UInt8)

theorem signer_correct : signer.Correct crypto where
  recovers := by
    rintro hsh key sig ⟨⟩
    rfl
  verifies := by
    rintro hsh key sig ⟨⟩
    exact ⟨by simp, decide_eq_true rfl⟩
  unmarshals := fun key => rfl
  marshals := fun key => by simp [ecdsa]

/-- A signature as a field, if it is one that `SignBlock` makes. -/
def toField (e : (_ : String) × Option Signature) : Option (String × Obj Cid) :=
  match e.2 with
  | none => none
  | some sig =>
    if sig = ecdsaSignature sig.signature then some (e.1, .other sig.signature) else none

def ofField : String × Obj Cid → (_ : String) × Option Signature
  | (addr, .other sigBytes) => ⟨addr, some (ecdsaSignature sigBytes)⟩
  | (addr, _) => ⟨addr, none⟩

def marshal (headers : StandardHeaders) : Except Fault (Obj Cid) :=
  match headers.signatures.entries.mapM toField with
  | some fields => .ok (.map fields)
  | none => .error (.error "unsupported signature")

def lib (α : Type) : BlockLib α where
  toType
    | .null => .ok { signatures := ∅ }
    | .map fields => .ok { signatures := (fields.map ofField).toAList }
    | _ => .error (.error "not a map")
  objToHash _ := .ok [1, 2, 3]

theorem ofField_toField {e : (_ : String) × Option Signature} {field : String × Obj Cid}
    (h : toField e = some field) : ofField field = e := by
  obtain ⟨addr, sig⟩ := e
  unfold toField at h
  split at h
  · cases h
  · next sig hsig =>
    split at h
    · next heq =>
      obtain rfl := Option.some.inj h
      simp only at hsig
      rw [ofField, hsig, ← heq]
    · cases h

theorem map_ofField {entries : List ((_ : String) × Option Signature)} :
    ∀ {fields : List (String × Obj Cid)}, entries.mapM toField = some fields →
      fields.map ofField = entries := by
  induction entries with
  | nil =>
    intro fields h
    obtain rfl : [] = fields := by simpa using h
    rfl
  | cons e entries ih =>
    intro fields h
    rw [List.mapM_cons] at h
    obtain ⟨field, hfield, h⟩ := Option.bind_eq_some_iff.mp h
    obtain ⟨rest, hrest, h⟩ := Option.bind_eq_some_iff.mp h
    obtain rfl := Option.some.inj h
    rw [List.map_cons, ofField_toField hfield, ih hrest]

theorem toAList_entries (m : GoMap String (Option Signature)) : m.entries.toAList = m := by
  induction m using AList.insertRec with
  | H0 => rfl
  | IH addr sig m hnew ih => rw [AList.entries_insert_of_notMem hnew, AList.toAList_cons, ih]

theorem lib_casts (α : Type) : (lib α).Casts marshal where
  null := rfl
  marshal := by
    intro headers obj h
    unfold marshal at h
    split at h
    · next fields hfields =>
      obtain rfl := Except.ok.inj h
      show Except.ok _ = _
      rw [map_ofField hfields, toAList_entries]
    · cases h

/-- Two keys sign, one of them twice. The check of owners `0x3` and `0x2` accepts. -/
theorem signAll_owners_example :
    ∃ block', signAll (lib Unit) signer marshal [one, two, one]
        { height := 0, previousTip := none, transactions := (), headers := .null } = .ok block' ∧
      isBlockSignedBy (lib Unit) ecdsa crypto script block' "0x3" = .ok false ∧
      (isOwner (lib Unit) ecdsa crypto script (ownedBy ["0x3", "0x2"]) 1 () block').Ends
        (.ok true) := by
  have hsome : (signAll (lib Unit) signer marshal [one, two, one]
      { height := 0, previousTip := none, transactions := (),
        headers := .null }).toOption.isSome = true := by decide +kernel
  obtain ⟨block', hblock'⟩ := Option.isSome_iff_exists.mp hsome
  have hblock' := toOption_eq_some.mp hblock'
  refine ⟨block', hblock', ?_, ?_⟩
  · rw [(signAll_owners signer_correct (lib_casts Unit) rfl hblock').1]
    decide +kernel
  · exact (signAll_owners signer_correct (lib_casts Unit) rfl hblock').2 Unit
      (ownedBy ["0x3", "0x2"]) 1 () _ rfl (resolveOwners_ownedBy _)

open ReplayExample (wire faithful_wire follow linked later)

/-- A client with key `0x1` makes the request for a later block, in a tree of owner `0x2`. -/
theorem request_owner_iff_example :
    ∃ abr block, newAddBlockRequest (memoryStore Ipld.inFull) wire follow
        (signHeaders (lib Cid) signer marshal one) MapOrder.plain 4 later linked = some (.ok abr) ∧
      wire.decodeBlock abr.payload = .ok block ∧
      (isOwner (lib Cid) ecdsa crypto script (ownedBy ["0x2"]) 1 () block).Ends (.ok false) := by
  have hsome : ((newAddBlockRequest (memoryStore Ipld.inFull) wire follow
      (signHeaders (lib Cid) signer marshal one) MapOrder.plain 4 later linked).bind
        Except.toOption).isSome = true := by decide +kernel
  obtain ⟨abr, habr⟩ := Option.isSome_iff_exists.mp hsome
  obtain ⟨r, hr, habr⟩ := Option.bind_eq_some_iff.mp habr
  rw [toOption_eq_some.mp habr] at hr
  obtain ⟨block, hblock, -, howners⟩ := request_owner_iff signer_correct (lib_casts Cid)
    faithful_wire hr
  exact ⟨abr, block, hr, hblock,
    howners Unit (ownedBy ["0x2"]) 1 () _ rfl (resolveOwners_ownedBy _)⟩

end SignExample

end Tupelo

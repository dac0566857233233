import Mathlib.Algebra.BigOperators.Group.List.Basic
import Mathlib.Data.UInt
import Tupelo.Consensus.Transactions

/-!
# What the ledger keeps of a token

The abstract side of the ledger. A `TokenRecord` has the mints, sends and receives of a token
themselves instead of links to them, and `tokenRecord` reads it off a tree. Every operation of
the ledger that succeeds does to the record what its name says, and nothing to the record of
any other token.
-/

namespace Tupelo

open Infra MerkleDag

/-- The record of a token. It has a policy if the tree established the token. -/
structure TokenRecord where
  policy : Option TokenMonetaryPolicy
  mints : List TokenMint
  sends : List TokenSend
  receives : List TokenReceive
  balance : UInt64
  deriving DecidableEq, Repr

namespace TokenRecord

/-- What has been minted, in the arithmetic of the ledger. -/
def minted (r : TokenRecord) : UInt64 := (r.mints.map (·.amount)).sum

/-- The most that may be minted; zero is no limit. A token that was received has none. -/
def maximum (r : TokenRecord) : UInt64 := (r.policy.getD { maximum := 0 }).maximum

def new (policy : Option TokenMonetaryPolicy) : TokenRecord :=
  { policy, mints := [], sends := [], receives := [], balance := 0 }

def mint (r : TokenRecord) (amount : UInt64) : TokenRecord :=
  { r with mints := r.mints ++ [{ amount }], balance := r.balance + amount }

def send (r : TokenRecord) (s : TokenSend) : TokenRecord :=
  { r with sends := r.sends ++ [s], balance := r.balance - s.amount }

def receive (r : TokenRecord) (s : TokenReceive) : TokenRecord :=
  { r with receives := r.receives ++ [s], balance := r.balance + s.amount }

end TokenRecord

/-! ## Reading a record off a tree -/

section Read

variable {L : Ipld}
variable {fields : List (String × Obj Cid)} {r : TokenRecord} {k label : String} {cids : List Cid}
  {v : Obj Cid}

def Obj.asLink : Obj Cid → Option Cid
  | .link c => some c
  | _ => none

/-- The CIDs in a list of links. A null is an empty list. -/
def readCids (S : Store L.objCid) (fields : List (String × Obj Cid)) (label : String) :
    Option (List Cid) :=
  match fields.lookup label with
  | some .null => some []
  | some (.link c) =>
    match S.nodes c with
    | some (.list xs) => xs.mapM Obj.asLink
    | _ => none
  | _ => none

/-- The nodes under the CIDs, decoded. -/
def readNodes {α : Type} (S : Store L.objCid) (decode : Obj Cid → Except Fault α)
    (cids : List Cid) : Option (List α) :=
  cids.mapM fun c => (S.nodes c).bind fun o => (decode o).toOption

def readList {α : Type} (S : Store L.objCid) (decode : Obj Cid → Except Fault α)
    (fields : List (String × Obj Cid)) (label : String) : Option (List α) :=
  (readCids S fields label).bind (readNodes S decode)

def readPolicy (S : Store L.objCid) (fields : List (String × Obj Cid)) :
    Option (Option TokenMonetaryPolicy) :=
  match fields.lookup monetaryPolicyLabel with
  | some .null => some none
  | some (.link c) =>
    ((S.nodes c).bind fun o => (decodeTokenMonetaryPolicy o).toOption).map some
  | _ => none

def readBalance (fields : List (String × Obj Cid)) : Option UInt64 :=
  match fields.lookup tokenBalanceLabel with
  | some (.uint n) => some n
  | _ => none

def decodeTokenMint (o : Obj Cid) : Except Fault TokenMint := do
  let fields ← structFields ["amount"] o
  return { amount := ← uintField fields "amount" }

def readRecord (S : Store L.objCid) : Obj Cid → Option TokenRecord
  | .map fields => do
    let policy ← readPolicy S fields
    let mints ← readList S decodeTokenMint fields tokenMintLabel
    let sends ← readList S decodeTokenSend fields tokenSendLabel
    let receives ← readList S decodeTokenReceive fields tokenReceiveLabel
    let balance ← readBalance fields
    return { policy, mints, sends, receives, balance }
  | _ => none

/--
The record of a token of a tree: `some none` if the tree does not have the token, `none` if
what it has is not a record.
-/
def tokenRecord (d : Dag L) (name : String) : Option (Option TokenRecord) :=
  match d.find (recordPath name) with
  | some (some o) => (readRecord d.store o).map some
  | some none => some none
  | none => none

/-- The reading of a record, part by part. -/
structure Reads (S : Store L.objCid) (fields : List (String × Obj Cid))
    (r : TokenRecord) : Prop where
  policy : readPolicy S fields = some r.policy
  mints : readList S decodeTokenMint fields tokenMintLabel = some r.mints
  sends : readList S decodeTokenSend fields tokenSendLabel = some r.sends
  receives : readList S decodeTokenReceive fields tokenReceiveLabel = some r.receives
  balance : readBalance fields = some r.balance

theorem readRecord_map {S : Store L.objCid} :
    readRecord S (.map fields) = some r ↔ Reads S fields r := by
  constructor
  · intro h
    obtain ⟨policy, hpolicy, h⟩ := Option.bind_eq_some_iff.mp h
    obtain ⟨mints, hmints, h⟩ := Option.bind_eq_some_iff.mp h
    obtain ⟨sends, hsends, h⟩ := Option.bind_eq_some_iff.mp h
    obtain ⟨receives, hreceives, h⟩ := Option.bind_eq_some_iff.mp h
    obtain ⟨balance, hbalance, h⟩ := Option.bind_eq_some_iff.mp h
    obtain rfl := Option.some.inj h
    exact ⟨hpolicy, hmints, hsends, hreceives, hbalance⟩
  · rintro ⟨hpolicy, hmints, hsends, hreceives, hbalance⟩
    simp only [readRecord, hpolicy, hmints, hsends, hreceives, hbalance, Option.bind_eq_bind,
      Option.bind_some, Option.pure_def]

/-- A token with a record is a map at its path. -/
theorem tokenRecord_eq_some_some {d : Dag L} {name : String} :
    tokenRecord d name = some (some r) ↔
      ∃ fields, d.find (recordPath name) = some (some (.map fields)) ∧
        Reads d.store fields r := by
  unfold tokenRecord
  constructor
  · intro h
    split at h
    · next o ho =>
      obtain ⟨r', hr', hrr⟩ := Option.map_eq_some_iff.mp h
      obtain rfl := Option.some.inj hrr
      cases o with
      | map fields => exact ⟨fields, ho, readRecord_map.mp hr'⟩
      | _ => cases hr'
    · cases h
    · cases h
  · rintro ⟨fields, hfind, hreads⟩
    rw [hfind]
    simp only [readRecord_map.mpr hreads, Option.map_some]

theorem tokenRecord_eq_some_none {d : Dag L} {name : String} :
    tokenRecord d name = some none ↔ d.find (recordPath name) = some none := by
  unfold tokenRecord
  constructor
  · intro h
    split at h
    · obtain ⟨r', -, hrr⟩ := Option.map_eq_some_iff.mp h
      cases hrr
    · next ho => exact ho
    · cases h
  · intro h
    rw [h]

/-! ## A bigger store reads the same -/

variable {S T : Store L.objCid}

theorem readCids_mono (hle : S ≤ T) (h : readCids S fields label = some cids) :
    readCids T fields label = some cids := by
  unfold readCids at h ⊢
  split at h
  · exact h
  · next c hc =>
    split at h
    · next xs hxs =>
      rw [hle c _ hxs]
      exact h
    · cases h
  · cases h

theorem readNodes_mono {α : Type} (hle : S ≤ T) {decode : Obj Cid → Except Fault α} :
    ∀ {cids : List Cid} {xs : List α},
      readNodes S decode cids = some xs → readNodes T decode cids = some xs
  | [], xs, h => h
  | c :: cids, xs, h => by
    unfold readNodes at h ⊢
    rw [List.mapM_cons] at h ⊢
    obtain ⟨x, hx, h⟩ := Option.bind_eq_some_iff.mp h
    obtain ⟨ys, hys, h⟩ := Option.bind_eq_some_iff.mp h
    obtain ⟨o, ho, hx⟩ := Option.bind_eq_some_iff.mp hx
    refine Option.bind_eq_some_iff.mpr ⟨x, ?_, Option.bind_eq_some_iff.mpr
      ⟨ys, readNodes_mono hle hys, h⟩⟩
    exact Option.bind_eq_some_iff.mpr ⟨o, hle c o ho, hx⟩

theorem readList_mono {α : Type} (hle : S ≤ T) {decode : Obj Cid → Except Fault α} {xs : List α}
    (h : readList S decode fields label = some xs) : readList T decode fields label = some xs := by
  obtain ⟨cids, hcids, hxs⟩ := Option.bind_eq_some_iff.mp h
  exact Option.bind_eq_some_iff.mpr ⟨cids, readCids_mono hle hcids, readNodes_mono hle hxs⟩

theorem readPolicy_mono (hle : S ≤ T) {policy : Option TokenMonetaryPolicy}
    (h : readPolicy S fields = some policy) : readPolicy T fields = some policy := by
  unfold readPolicy at h ⊢
  split at h
  · exact h
  · next c hc =>
    obtain ⟨p, hp, hpolicy⟩ := Option.map_eq_some_iff.mp h
    obtain ⟨o, ho, hp⟩ := Option.bind_eq_some_iff.mp hp
    rw [hle c o ho, ← hpolicy]
    simp only [Option.bind_some, hp, Option.map_some]
  · cases h

theorem Reads.mono (hle : S ≤ T) (h : Reads S fields r) : Reads T fields r where
  policy := readPolicy_mono hle h.policy
  mints := readList_mono hle h.mints
  sends := readList_mono hle h.sends
  receives := readList_mono hle h.receives
  balance := h.balance

/-! ## Changing a field of a record -/

theorem readList_setField {α : Type} {decode : Obj Cid → Except Fault α} {xs : List α}
    (hxs : readList S decode fields label = some xs) (hk : label ≠ k) (v : Obj Cid) :
    readList S decode (Obj.setField fields k v) label = some xs := by
  rw [← hxs]
  unfold readList readCids
  rw [Obj.lookup_setField_of_ne hk]

theorem Reads.policy_setField (h : Reads S fields r) (hk : monetaryPolicyLabel ≠ k)
    (v : Obj Cid) : readPolicy S (Obj.setField fields k v) = some r.policy := by
  rw [← h.policy]
  unfold readPolicy
  rw [Obj.lookup_setField_of_ne hk]

theorem Reads.balance_setField (h : Reads S fields r) (hk : tokenBalanceLabel ≠ k)
    (v : Obj Cid) : readBalance (Obj.setField fields k v) = some r.balance := by
  rw [← h.balance]
  unfold readBalance
  rw [Obj.lookup_setField_of_ne hk]

theorem Reads.setBalance (h : Reads S fields r) (b : UInt64) :
    Reads S (Obj.setField fields tokenBalanceLabel (.uint b)) { r with balance := b } where
  policy := h.policy_setField (by decide) _
  mints := readList_setField h.mints (by decide) _
  sends := readList_setField h.sends (by decide) _
  receives := readList_setField h.receives (by decide) _
  balance := by
    unfold readBalance
    rw [Obj.lookup_setField_self]

theorem Reads.setPolicy (h : Reads S fields r) {p : TokenMonetaryPolicy} {c : Cid}
    (hc : S.nodes c = some p.toObj) :
    Reads S (Obj.setField fields monetaryPolicyLabel (.link c)) { r with policy := some p } where
  policy := by
    unfold readPolicy
    rw [Obj.lookup_setField_self]
    simp only [hc, Option.bind_some, decodeTokenMonetaryPolicy_toObj]
    rfl
  mints := readList_setField h.mints (by decide) _
  sends := readList_setField h.sends (by decide) _
  receives := readList_setField h.receives (by decide) _
  balance := h.balance_setField (by decide) _

theorem Reads.setMints (h : Reads S fields r) {xs : List TokenMint}
    (hxs : readList S decodeTokenMint (Obj.setField fields tokenMintLabel v) tokenMintLabel =
      some xs) : Reads S (Obj.setField fields tokenMintLabel v) { r with mints := xs } where
  policy := h.policy_setField (by decide) _
  mints := hxs
  sends := readList_setField h.sends (by decide) _
  receives := readList_setField h.receives (by decide) _
  balance := h.balance_setField (by decide) _

theorem Reads.setSends (h : Reads S fields r) {xs : List TokenSend}
    (hxs : readList S decodeTokenSend (Obj.setField fields tokenSendLabel v) tokenSendLabel =
      some xs) : Reads S (Obj.setField fields tokenSendLabel v) { r with sends := xs } where
  policy := h.policy_setField (by decide) _
  mints := readList_setField h.mints (by decide) _
  sends := hxs
  receives := readList_setField h.receives (by decide) _
  balance := h.balance_setField (by decide) _

theorem Reads.setReceives (h : Reads S fields r) {xs : List TokenReceive}
    (hxs : readList S decodeTokenReceive (Obj.setField fields tokenReceiveLabel v)
      tokenReceiveLabel = some xs) :
    Reads S (Obj.setField fields tokenReceiveLabel v) { r with receives := xs } where
  policy := h.policy_setField (by decide) _
  mints := readList_setField h.mints (by decide) _
  sends := readList_setField h.sends (by decide) _
  receives := hxs
  balance := h.balance_setField (by decide) _

theorem mapM_asLink (cids : List Cid) : (cids.map Obj.link).mapM Obj.asLink = some cids := by
  induction cids with
  | nil => rfl
  | cons c cids ih =>
    rw [List.map_cons, List.mapM_cons, ih]
    rfl

theorem readNodes_concat {α : Type} {decode : Obj Cid → Except Fault α} {xs : List α}
    (h : readNodes S decode cids = some xs) {c : Cid} {o : Obj Cid} {x : α}
    (ho : S.nodes c = some o) (hx : decode o = .ok x) :
    readNodes S decode (cids ++ [c]) = some (xs ++ [x]) := by
  unfold readNodes at h ⊢
  rw [List.mapM_append, h, List.mapM_cons, List.mapM_nil, ho]
  simp only [Option.bind_some, hx]
  rfl

/-- A list that got one more element. -/
theorem readList_appended {α : Type} {decode : Obj Cid → Except Fault α} {xs : List α}
    (h : readNodes S decode cids = some xs) {c list : Cid} {o : Obj Cid} {x : α}
    (ho : S.nodes c = some o) (hx : decode o = .ok x)
    (hlist : S.nodes list = some (.list ((cids ++ [c]).map .link)))
    (fields : List (String × Obj Cid)) (label : String) :
    readList S decode (Obj.setField fields label (.link list)) label = some (xs ++ [x]) := by
  unfold readList readCids
  simp only [Obj.lookup_setField_self, hlist, mapM_asLink, Option.bind_some]
  exact readNodes_concat h ho hx

end Read

end Tupelo

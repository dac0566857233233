import Tupelo.Consensus.Names
import Tupelo.Signer.ValidationFaults

/-!
# Blocks that burn

A group can want every block to burn some of a token. The validator that `HasBurnGenerator`
(`sdk/gossip/types/validators.go`) makes looks for a send of the token to nobody, and it looks at
the transactions before any of them is executed. What is burnt is then up to the transactors:
the name in the send is resolved once more, and it is sent among the other transactions of the
block.

The mints, sends and receives of all tokens are lists that only grow, whatever is executed
(`extended_runTransactors`). So what the validator has seen is in the tree at the end
(`hasBurn_burns`).
-/

namespace Tupelo

open Infra MerkleDag

variable {L : Ipld}
variable {t : Option Transaction} {cids : List Cid} {amount : UInt64}

/-! ## The lists of a token -/

def listLabels : List String := [tokenMintLabel, tokenSendLabel, tokenReceiveLabel]

/-- What `transactionCidsForPath` makes of a value. -/
def linksOf : Obj Cid → Option (List Cid)
  | .null => some []
  | .list cids => (cids.mapM castCid).toOption
  | _ => none

/--
The CIDs in a list of a token, as far as the store has the nodes of the tree. A token that is not
there, or is no map, has empty lists.
-/
def listedCids (W : Store L.objCid) (d : Dag L) (name label : String) : Option (List Cid) :=
  (d.entry W (recordPath name) label).bind fun
    | none => some []
    | some v => (follow W v).bind linksOf

section Lists

variable {D : DagLib L} {W : Store L.objCid} {d d' : Dag L} {name label : String}

theorem listedCids_congr
    (h : d'.entry W (recordPath name) label = d.entry W (recordPath name) label) :
    listedCids W d' name label = listedCids W d name label := by
  rw [listedCids, h, listedCids]

/-- More nodes do not change a list that could be read. -/
theorem listedCids_mono {S : Store L.objCid} (hle : S ≤ W)
    (h : listedCids S d name label = some cids) : listedCids W d name label = some cids := by
  obtain ⟨x, hx, hcids⟩ := Option.bind_eq_some_iff.mp h
  refine Option.bind_eq_some_iff.mpr ⟨x, Dag.entry_mono hle hx, ?_⟩
  cases x with
  | none => exact hcids
  | some v =>
    obtain ⟨o, ho, hcids⟩ := Option.bind_eq_some_iff.mp hcids
    exact Option.bind_eq_some_iff.mpr ⟨o, follow_mono hle ho, hcids⟩

/-- There is no map at the path of a token. -/
theorem listedCids_of_look (hle : d.store ≤ W) {f : Found Cid}
    (h : d.look (recordPath name) = some f) (hlabel : f.fieldsOf.lookup label = none) :
    listedCids W d name label = some [] := by
  have hentry := Dag.entry_mono hle (Dag.entry_of_look h label)
  rw [listedCids, hentry, hlabel]
  rfl

/-- A token that does not exist has empty lists. -/
theorem listedCids_of_not_exists (hD : D.Sound) {l : TreeLedger L} (hle : l.tree.store ≤ W)
    (h : l.tokenExists D = .ok false) (label : String) :
    listedCids W l.tree l.tokenName.string label = some [] := by
  obtain ⟨rest, hres⟩ := TreeLedger.tokenExists_eq_false.mp h
  obtain ⟨f, hf, hreports⟩ := hD.resolve hres
  refine listedCids_of_look hle hf ?_
  cases f with
  | found x =>
    obtain rfl : Obj.null = x := (Prod.mk.inj hreports).1
    rfl
  | _ => rfl

/-- The ledger reads the lists of a token that is a map. -/
theorem listedCids_of_read (hD : D.Sound) {l : TreeLedger L} {fields : List (String × Obj Cid)}
    (hmap : l.tree.find (recordPath l.tokenName.string) = some (some (.map fields)))
    (hle : l.tree.store ≤ W) (h : l.tokenTransactionCidsForType D label = .ok cids) :
    listedCids W l.tree l.tokenName.string label = some cids := by
  obtain ⟨value, rest, hres, hvalue⟩ := TreeLedger.transactionCids_eq_ok.mp h
  obtain ⟨f, hf, hreports⟩ := hD.resolve hres
  have hentry := Dag.entry_of_find hmap label
  rw [Dag.look_append (Dag.clear_of_find hmap), hentry, Option.bind_some] at hf
  rw [listedCids, Dag.entry_mono hle hentry, Option.bind_some]
  cases hk : fields.lookup label with
  | none =>
    rw [hk] at hf
    obtain rfl := Option.some.inj hf
    obtain rfl : value = .null := hreports.1
    rcases hvalue with ⟨-, rfl⟩ | hlist
    · rfl
    · cases hlist
  | some v =>
    rw [hk] at hf
    obtain ⟨x, hx, hf⟩ := Option.bind_eq_some_iff.mp hf
    rw [look_nil] at hf
    obtain rfl := Option.some.inj hf
    obtain rfl : value = x := (Prod.mk.inj hreports).1
    refine Option.bind_eq_some_iff.mpr ⟨value, follow_mono hle hx, ?_⟩
    rcases hvalue with ⟨rfl, rfl⟩ | rfl
    · rfl
    · rw [linksOf, mapM_castCid_links]
      rfl

/-! ### What a write changes -/

theorem plain_list (hD : D.Sound) (hname : isIndex name = false) (hlabel : label ∈ listLabels) :
    ∀ a ∈ recordPath name ++ [label], Plain D.lift a := by
  have hlabels : ∀ label ∈ listLabels, isIndex label = false := by decide
  refine hD.plain fun a ha => ?_
  simp only [recordPath, List.cons_append, List.nil_append, List.mem_cons, List.not_mem_nil,
    or_false] at ha
  rcases ha with rfl | rfl | rfl | rfl
  · decide
  · decide
  · exact hname
  · exact hlabels a hlabel

/-- **A write elsewhere** leaves a list as it is. -/
theorem listedCids_of_writes (hL : L.Faithful) (hD : D.Sound) (hle : d'.store ≤ W)
    (hname : isIndex name = false) (hlabel : label ∈ listLabels) {w : List String}
    (hwrites : Dag.Writes D.lift w d d') (hapart : Apart w (recordPath name ++ [label])) :
    listedCids W d' name label = listedCids W d name label :=
  listedCids_congr
    (hwrites.entry_of_apart hL.objCid_injective (plain_list hD hname hlabel) hapart hle)

theorem apart_fields {name' label' : String} (h : name' ≠ name ∨ label' ≠ label) :
    Apart (recordPath name' ++ [label']) (recordPath name ++ [label]) := by
  by_cases hname : name' = name
  · obtain rfl := hname
    refine Apart.append_left ?_ (recordPath name')
    exact .head (h.resolve_left fun hne => hne rfl) [] []
  · exact (apart_recordPath (Ne.symm hname) [label']).extend [label]

/-- What is written at a field is read there. -/
theorem listedCids_setAsLink (hL : L.Faithful) (hle : d'.store ≤ W) {lift : Lift Cid} {v : Obj Cid}
    (hset : d.setAsLink lift (recordPath name ++ [label]) v = some d') :
    listedCids W d' name label = linksOf v := by
  have hself := Dag.find_setAsLink_self hL.objCid_injective hset
  obtain ⟨fields, hmap⟩ := Dag.exists_map_of_field hself
  rw [Dag.find_field_eq hmap] at hself
  rw [listedCids, Dag.entry_mono hle (Dag.entry_of_find hmap label)]
  cases hk : fields.lookup label with
  | none =>
    rw [hk] at hself
    cases hself
  | some x =>
    rw [hk] at hself
    obtain ⟨o, ho, hv⟩ := Option.map_eq_some_iff.mp hself
    obtain rfl := Option.some.inj hv
    show (follow W x).bind linksOf = _
    rw [follow_mono hle ho, Option.bind_some]

end Lists

/-! ## Lists that grow -/

/--
Every list of every token has what it had, and possibly more after it. The name of a token is none
that could be the index of a list.
-/
def Extended (W : Store L.objCid) (d d' : Dag L) : Prop :=
  ∀ name, isIndex name = false → ∀ label ∈ listLabels, ∃ new,
    listedCids W d' name label = (listedCids W d name label).map (· ++ new)

/-- One list is written, the others are what they were. -/
structure Rewrites (W : Store L.objCid) (name label : String) (cids : List Cid) (d d' : Dag L) :
    Prop where
  written : listedCids W d' name label = some cids
  others : ∀ name', isIndex name' = false → ∀ label' ∈ listLabels, name ≠ name' ∨ label ≠ label' →
    listedCids W d' name' label' = listedCids W d name' label'

section Grow

variable {D : DagLib L} {W : Store L.objCid} {d d₁ d' : Dag L} {name label : String} {c : Cid}

theorem extended_of_eq (h : ∀ name, isIndex name = false → ∀ label ∈ listLabels,
    listedCids W d' name label = listedCids W d name label) : Extended W d d' := by
  intro name hname label hlabel
  refine ⟨[], ?_⟩
  rw [h name hname label hlabel]
  simp

theorem Extended.trans (h : Extended W d d₁) (h' : Extended W d₁ d') : Extended W d d' := by
  intro name hname label hlabel
  obtain ⟨new, hnew⟩ := h name hname label hlabel
  obtain ⟨new', hnew'⟩ := h' name hname label hlabel
  refine ⟨new ++ new', ?_⟩
  rw [hnew', hnew, Option.map_map]
  congr 1
  funext cids
  exact List.append_assoc cids new new'

theorem Rewrites.extended {old new : List Cid} (h : Rewrites W name label cids d d')
    (hold : listedCids W d name label = some old) (hcids : cids = old ++ new) :
    Extended W d d' := by
  intro name' hname' label' hlabel'
  by_cases hsame : name = name' ∧ label = label'
  · obtain ⟨rfl, rfl⟩ := hsame
    exact ⟨new, by rw [hold, h.written, hcids, Option.map_some]⟩
  · refine ⟨[], ?_⟩
    rw [h.others name' hname' label' hlabel' (not_and_or.mp hsame)]
    simp

/-! ### The ledger -/

open TreeLedger

variable {l : TreeLedger L} (hL : L.Faithful) (hD : D.Sound) (hle : d'.store ≤ W)

include hL hD hle

/-- A field that is no list is written. -/
theorem listedCids_of_field {label' : String} (hfield : label' ∉ listLabels)
    (hwrites : Dag.Writes D.lift (recordPath name ++ [label']) d d') {name' : String}
    (hname' : isIndex name' = false) (hlabel : label ∈ listLabels) :
    listedCids W d' name' label = listedCids W d name' label := by
  refine listedCids_of_writes hL hD hle hname' hlabel hwrites (apart_fields (Or.inr ?_))
  rintro rfl
  exact hfield hlabel

theorem rewrites_appendTransaction (hname : isIndex name = false) (hlabel : label ∈ listLabels)
    {newBalance : Dag L → Except Fault UInt64}
    (h : appendTransaction D d (recordPath name) label cids newBalance = .ok d') :
    Rewrites W name label cids d d' := by
  obtain ⟨d₁, b, hlist, -, hset⟩ := appendTransaction_ok hD h
  have hle₁ : d₁.store ≤ W := (Dag.le_set hL.objCid_injective hset).trans hle
  have hbalance : Dag.Writes D.lift (recordPath name ++ [tokenBalanceLabel]) d₁ d' :=
    Dag.Writes.none.set [] _ (by rwa [List.append_nil])
  have hlink : Dag.Writes D.lift (recordPath name ++ [label]) d d₁ :=
    Dag.Writes.none.setAsLink [] _ (by rwa [List.append_nil])
  refine ⟨?_, fun name' hname' label' hlabel' hother => ?_⟩
  · rw [listedCids_of_field hL hD hle (by decide) hbalance hname hlabel,
      listedCids_setAsLink hL hle₁ hlist, linksOf, mapM_castCid_links]
    rfl
  · rw [listedCids_of_field hL hD hle (by decide) hbalance hname' hlabel']
    exact listedCids_of_writes hL hD hle₁ hname' hlabel' hlink (apart_fields hother)

/-- A record is made for a token that has none, and nothing changes in the lists. -/
theorem extended_createToken
    (hempty : ∀ label, listedCids W l.tree l.tokenName.string label = some [])
    (h : (l.createToken D).1 = .ok d') : Extended W l.tree d' := by
  obtain ⟨d₁, hrecord, hset⟩ := createToken_ok hD h
  refine extended_of_eq fun name hname label hlabel => ?_
  by_cases hsame : name = l.tokenName.string
  · obtain rfl := hsame
    have hentry := Dag.entry_of_find (find_created hL hD (createToken_eq_ok.mp h)) label
    rw [hempty label, listedCids, Dag.entry_mono hle hentry]
    simp only [listLabels, List.mem_cons, List.not_mem_nil, or_false] at hlabel
    rcases hlabel with rfl | rfl | rfl <;> rfl
  · have hwrites : Dag.Writes D.lift (recordPath l.tokenName.string) l.tree d' :=
      (Dag.Writes.none.setAsLink [] _ (by rwa [List.append_nil])).set [tokenBalanceLabel] _ hset
    have hapart := apart_recordPath hsame []
    rw [List.append_nil] at hapart
    exact listedCids_of_writes hL hD hle hname hlabel hwrites (hapart.extend [label])

theorem extended_establishToken {policy : TokenMonetaryPolicy}
    (hempty : ∀ label, listedCids W l.tree l.tokenName.string label = some [])
    (h : (l.establishToken D policy).1 = .ok d') : Extended W l.tree d' := by
  obtain ⟨d₁, hd₁, hset⟩ := establishToken_ok hD h
  have hle₁ : d₁.store ≤ W := (Dag.le_setAsLink hL.objCid_injective hset).trans hle
  have hpolicy : Dag.Writes D.lift (recordPath l.tokenName.string ++ [monetaryPolicyLabel]) d₁ d' :=
    Dag.Writes.none.setAsLink [] _ (by rwa [List.append_nil])
  refine (extended_createToken hL hD hle₁ hempty hd₁).trans (extended_of_eq ?_)
  intro name hname label hlabel
  exact listedCids_of_field hL hD hle (by decide) hpolicy hname hlabel

/-- The node of a mint, a send or a receive is made, then its CID is appended. -/
theorem rewrites_createNode (hlabel : label ∈ listLabels) {o : Obj Cid} {d₀ : Dag L}
    {newBalance : Dag L → Except Fault UInt64} (hnode : D.createNode l.tree o = .ok (c, d₀))
    (h : appendTransaction D d₀ (recordPath l.tokenName.string) label cids newBalance = .ok d') :
    Rewrites W l.tokenName.string label cids l.tree d' ∧ d'.store.nodes c = some o := by
  have hstore := (writes_appendTransaction hD h).store_le hL.objCid_injective
  obtain ⟨rfl, rfl⟩ := Prod.mk.inj (hD.createNode hnode)
  -- a node that is not linked leaves the tip, and the lists are read from there
  have hrewrites := rewrites_appendTransaction hL hD hle (isIndex_string l.tokenName) hlabel h
  exact ⟨⟨hrewrites.written, hrewrites.others⟩, hstore _ _ (Dag.get_createNode l.tree o)⟩

theorem extended_mintToken (h : (l.mintToken D amount).1 = .ok d') : Extended W l.tree d' := by
  have hd := ((writes_mintToken hD h).store_le hL.objCid_injective).trans hle
  obtain ⟨_, cids, c, d₀, _, -, hpolicy, hcids, -, hnode, h, -⟩ := mintToken_ok h
  obtain ⟨fields, hmap⟩ := exists_map_of_policy hD hpolicy
  exact (rewrites_createNode hL hD hle (by decide) hnode h).1.extended
    (listedCids_of_read hD hmap hd hcids) rfl

/-- **A send is appended** to the sends of its token. -/
theorem rewrites_sendToken {txId destination : String}
    (h : (l.sendToken D txId destination amount).1 = .ok d') :
    ∃ cids c, listedCids W l.tree l.tokenName.string tokenSendLabel = some cids ∧
      Rewrites W l.tokenName.string tokenSendLabel (cids ++ [c]) l.tree d' ∧
      d'.store.nodes c = some (TokenSend.toObj { id := txId, amount, destination }) := by
  obtain ⟨available, cids, c, d₀, hamount, hb, hle_b, hnode, hcids, h⟩ := sendToken_ok h
  have hd₀ := ((writes_appendTransaction hD h).store_le hL.objCid_injective).trans hle
  -- there is enough to send, so the record is a map
  have hne : available ≠ 0 := by
    rintro rfl
    exact hamount (UInt64.le_zero_iff.mp hle_b)
  obtain ⟨fields, hmap⟩ := exists_map_of_balance hD hb hne
  obtain ⟨-, rfl⟩ := Prod.mk.inj (hD.createNode hnode)
  have hread := listedCids_of_read (l := { l with tree := _ }) hD
    (Dag.find_createNode hL.objCid_injective hmap) hd₀ hcids
  exact ⟨cids, c, hread, rewrites_createNode hL hD hle (by decide) hnode h⟩

theorem extended_receive {id : String} (h : (receiveToken.receive D id amount l).1 = .ok d') :
    Extended W l.tree d' := by
  have hd := ((writes_receive hD h).store_le hL.objCid_injective).trans hle
  obtain ⟨cids, c, d₀, newBalance, hcids, -, hnode, h, hbalance⟩ := receive_ok h
  have hrewrites := (rewrites_createNode hL hD hle (by decide) hnode h).1
  obtain ⟨_, b, -, hb, -⟩ := appendTransaction_ok hD h
  obtain ⟨curr, hcurr, -⟩ := hbalance b hb
  obtain ⟨val, token, hval, hdecode, -⟩ := balance_ok hD hcurr
  have hlook : l.tree.look (recordPath l.tokenName.string) = some (.found val) := by
    obtain ⟨_, _, hres, -⟩ := transactionCids_eq_ok.mp hcids
    obtain ⟨f, hf, -⟩ := hD.resolve hres
    obtain ⟨g, hg⟩ := Dag.look_of_append hf
    have htip : d₀.tip = l.tree.tip := by rw [← (Prod.mk.inj (hD.createNode hnode)).2]
    rw [hg, Dag.look_agree hL.objCid_injective htip hg (Dag.look_of_find hval)]
    rfl
  cases val with
  | map fields =>
    exact hrewrites.extended (listedCids_of_read hD (Dag.find_of_look hlook) hd hcids) rfl
  | null =>
    -- nothing was listed, whatever was read
    exact hrewrites.extended (listedCids_of_look hd hlook rfl) (List.nil_append _).symm
  | _ => cases hdecode

theorem extended_receiveToken {id : String} (h : (l.receiveToken D id amount).1 = .ok d') :
    Extended W l.tree d' := by
  have hd := ((writes_receiveToken hD h).store_le hL.objCid_injective).trans hle
  rcases receiveToken_ok h with ⟨-, h⟩ | ⟨hexists, d₁, hcreate, h⟩
  · exact extended_receive hL hD hle h
  · have hle₁ := ((writes_receive hD h).store_le hL.objCid_injective).trans hle
    exact (extended_createToken hL hD hle₁ (listedCids_of_not_exists hD hd hexists) hcreate).trans
      (extended_receive (l := { l with tree := d₁ }) hL hD hle h)

/-! ### The transactors -/

variable {txn : Transaction} {ord : RangeOrder} {ranges : Ranges} {did : String}

theorem rewrites_sendTokenTransaction (h : sendTokenTransaction D ord did d txn = .ok d') :
    ∃ payload tokenName cids c, txn.sendTokenPayload = some payload ∧
      canonicalTokenName D ord d did payload.name false = .ok tokenName ∧
      listedCids W d tokenName.string tokenSendLabel = some cids ∧
      Rewrites W tokenName.string tokenSendLabel (cids ++ [c]) d d' ∧
      d'.store.nodes c = some (TokenSend.toObj
        { id := payload.id, amount := payload.amount, destination := payload.destination }) := by
  obtain ⟨payload, tokenName, hpayload, hname, h⟩ := sendTokenTransaction_ok h
  obtain ⟨cids, c, hcids, hrewrites, hnode⟩ := rewrites_sendToken hL hD hle h
  exact ⟨payload, tokenName, cids, c, hpayload, hname, hcids, hrewrites, hnode⟩

theorem extended_tokenTransactor (h : tokenTransactor D ranges did d txn = .ok d') :
    Extended W d d' := by
  unfold tokenTransactor at h
  split at h
  · obtain ⟨_, tokenName, -, -, hexists, h⟩ := establishTokenTransaction_ok h
    -- a token that exists is not established
    have hd := ((writes_establishToken hD h).store_le hL.objCid_injective).trans hle
    exact extended_establishToken hL hD hle (listedCids_of_not_exists hD hd hexists) h
  · obtain ⟨_, _, -, -, h⟩ := mintTokenTransaction_ok h
    exact extended_mintToken hL hD hle h
  · obtain ⟨_, _, _, _, -, -, hcids, hrewrites, -⟩ := rewrites_sendTokenTransaction hL hD hle h
    exact hrewrites.extended hcids rfl
  · obtain ⟨_, _, _, _, -, -, -, -, h⟩ := receiveTokenTransaction_ok h
    exact extended_receiveToken hL hD hle h
  · cases h

/-- **The step lemma**: no transaction takes anything from a list. -/
theorem extended_transactor (h : transactor D ranges did d txn = .ok d') : Extended W d d' := by
  have hwrites := writes_transactor hD h
  by_cases htype : writePath txn.type = writePath .sendToken
  · have htoken : tokenTransactor D ranges did d txn = .ok d' := by
      rw [← h, transactor]
      cases hkind : txn.type with
      | setData | setOwnership | stake => exact absurd (hkind ▸ htype) (by decide)
      | _ => rfl
    exact extended_tokenTransactor hL hD hle htoken
  · refine extended_of_eq fun name hname label hlabel => ?_
    exact listedCids_of_writes hL hD hle hname hlabel hwrites
      ((apart_writePath htype).extend [name, label])

end Grow

/-! ## The block -/

namespace TransactionValidator

variable {V : TransactionValidator L} {ranges : Nat → Ranges} {did : String} {d d' : Dag L}
  {txns : TransactionPtrs} {i : Nat}

theorem runTransactors_cons_eq_ok :
    V.runTransactors ranges did i d (t :: txns) = .ok d' ↔
      ∃ txn d₁, t = some txn ∧ V.transactions txn.type = true ∧
        transactor V.dagLib (ranges i) did d txn = .ok d₁ ∧
        V.runTransactors ranges did (i + 1) d₁ txns = .ok d' := by
  rw [runTransactors]
  constructor
  · intro h
    obtain ⟨txn, htxn, h⟩ := bind_eq_ok.mp h
    split at h
    · next htype =>
      obtain ⟨d₁, hd₁, h⟩ := bind_eq_ok.mp h
      refine ⟨txn, d₁, ?_, htype, hd₁, h⟩
      cases t with
      | none => cases htxn
      | some txn' => rw [Except.ok.inj htxn]
    · cases h
  · rintro ⟨txn, d₁, rfl, htype, hd₁, h⟩
    rw [deref, ok_bind, if_pos htype, hd₁, ok_bind, h]

/-- The transactions before one of them, and those from there. -/
theorem runTransactors_append_ok {before after : TransactionPtrs} : ∀ {i : Nat} {d : Dag L},
    V.runTransactors ranges did i d (before ++ after) = .ok d' →
      ∃ d₁ j, V.runTransactors ranges did i d before = .ok d₁ ∧
        V.runTransactors ranges did j d₁ after = .ok d' := by
  induction before with
  | nil => exact fun {i d} h => ⟨d, i, rfl, h⟩
  | cons t before ih =>
    intro i d h
    obtain ⟨txn, d₀, rfl, htype, hd₀, h⟩ := runTransactors_cons_eq_ok.mp h
    obtain ⟨d₁, j, hbefore, hafter⟩ := ih h
    exact ⟨d₁, j, runTransactors_cons_eq_ok.mpr ⟨txn, d₀, rfl, htype, hd₀, hbefore⟩, hafter⟩

theorem store_le_runTransactors (hL : L.Faithful) (hD : V.dagLib.Sound) :
    ∀ {i : Nat} {d : Dag L}, V.runTransactors ranges did i d txns = .ok d' →
      d.store ≤ d'.store := by
  induction txns with
  | nil =>
    intro i d h
    rw [Except.ok.inj h]
  | cons t txns ih =>
    intro i d h
    obtain ⟨txn, d₁, -, -, hd₁, h⟩ := runTransactors_cons_eq_ok.mp h
    exact ((writes_transactor hD hd₁).store_le hL.objCid_injective).trans (ih h)

/-- **The run lemma**: the lists of all tokens grow through a block. -/
theorem extended_runTransactors (hL : L.Faithful) (hD : V.dagLib.Sound) {W : Store L.objCid}
    (hle : d'.store ≤ W) : ∀ {i : Nat} {d : Dag L},
      V.runTransactors ranges did i d txns = .ok d' → Extended W d d' := by
  induction txns with
  | nil =>
    intro i d h
    rw [Except.ok.inj h]
    exact extended_of_eq fun _ _ _ _ => rfl
  | cons t txns ih =>
    intro i d h
    obtain ⟨txn, d₁, -, -, hd₁, h⟩ := runTransactors_cons_eq_ok.mp h
    have hle₁ := (store_le_runTransactors hL hD h).trans hle
    exact (extended_transactor hL hD hle₁ hd₁).trans (ih h)

end TransactionValidator

/-! ## The burn -/

/-- A full name is the name of its token again. -/
theorem string_canonicalTokenName {D : DagLib L} {ord : RangeOrder} {d : Dag L}
    {did name : String} {tokenName : TokenName} (hfull : hasPrefix name "did:tupelo:" = true)
    (h : canonicalTokenName D ord d did name false = .ok tokenName) : tokenName.string = name := by
  unfold canonicalTokenName at h
  rw [hfull] at h
  obtain rfl := Except.ok.inj h
  exact string_tokenNameFromString (mem_of_hasPrefix hfull (by decide))

/-- A full name has a colon. -/
theorem isIndex_of_full {name : String} (hfull : hasPrefix name "did:tupelo:" = true) :
    isIndex name = false := by
  rw [← string_tokenNameFromString (mem_of_hasPrefix hfull (by decide))]
  exact isIndex_string _

/-- The least amount of a burn. -/
theorem max_one_eq (burnAmount : UInt64) :
    max 1 burnAmount = if burnAmount = 0 then 1 else burnAmount := by
  split
  · next hzero =>
    rw [hzero]
    rfl
  · next hzero =>
    have hone : 1 ≤ burnAmount := by
      refine UInt64.le_iff_toNat_le.mpr (Nat.one_le_iff_ne_zero.mpr ?_)
      exact fun h => hzero (UInt64.toNat_inj.mp h)
    change (if 1 ≤ burnAmount then burnAmount else 1) = burnAmount
    rw [if_pos hone]

/-- What the validator looks at. -/
theorem isTokenBurn_eq_true {token : String} {burnAmount : UInt64}
    (h : isTokenBurn token burnAmount t = .ok true) :
    ∃ txn payload, t = some txn ∧ txn.type = .sendToken ∧ txn.sendTokenPayload = some payload ∧
      payload.name = token ∧ max 1 burnAmount ≤ payload.amount ∧ payload.destination = "" := by
  unfold isTokenBurn at h
  cases t with
  | none => cases h
  | some txn =>
    rw [deref, ok_bind] at h
    split at h
    · next htype =>
      cases hpayload : txn.sendTokenPayload with
      | none =>
        rw [hpayload] at h
        cases h
      | some payload =>
        rw [hpayload, deref, ok_bind] at h
        obtain ⟨hname, hamount, hdestination⟩ := of_decide_eq_true (pure_eq_ok.mp h)
        refine ⟨txn, payload, rfl, htype, hpayload, hname, ?_, hdestination⟩
        rw [max_one_eq]
        exact hamount
    · cases pure_eq_ok.mp h

/--
The sends of the token are those from before the block, and after them new ones with a burn among
them. The sends from before are read with the nodes there are at the end; where the tree had the
nodes for them, they are the sends it had.
-/
def Burned (token : String) (burnAmount : UInt64) (d d' : Dag L) : Prop :=
  ∃ before new, listedCids d'.store d token tokenSendLabel = some before ∧
    (∀ cids, listedCids d.store d token tokenSendLabel = some cids → cids = before) ∧
    listedCids d'.store d' token tokenSendLabel = some (before ++ new) ∧
    ∃ c ∈ new, ∃ send : TokenSend, d'.store.nodes c = some send.toObj ∧
      send.destination = "" ∧ max 1 burnAmount ≤ send.amount

namespace TransactionValidator

variable {V : TransactionValidator L} {ranges : Nat → Ranges} {did : String} {d d' : Dag L}
  {txns : TransactionPtrs} {i : Nat} {token : String} {burnAmount : UInt64}

/-- The transaction of the burn appends it to the sends of the token. -/
theorem rewrites_burn (hL : L.Faithful) (hD : V.dagLib.Sound) {W : Store L.objCid}
    (hle : d'.store ≤ W) (hfull : hasPrefix token "did:tupelo:" = true)
    (hburn : isTokenBurn token burnAmount t = .ok true) {txn : Transaction} (ht : t = some txn)
    {r : Ranges} (h : transactor V.dagLib r did d txn = .ok d') :
    ∃ cids c send, listedCids W d token tokenSendLabel = some cids ∧
      Rewrites W token tokenSendLabel (cids ++ [c]) d d' ∧
      d'.store.nodes c = some (TokenSend.toObj send) ∧ send.destination = "" ∧
      max 1 burnAmount ≤ send.amount := by
  obtain ⟨txn', payload, ht', htype, hpayload, hname, hamount, hdestination⟩ :=
    isTokenBurn_eq_true hburn
  obtain rfl := Option.some.inj (ht.symm.trans ht')
  rw [transactor, htype] at h
  simp only [tokenTransactor, htype] at h
  obtain ⟨payload', tokenName, cids, c, hpayload', hcanonical, hcids, hrewrites, hnode⟩ :=
    rewrites_sendTokenTransaction hL hD hle h
  obtain rfl := Option.some.inj (hpayload.symm.trans hpayload')
  rw [hname] at hcanonical
  rw [string_canonicalTokenName hfull hcanonical] at hcids hrewrites
  exact ⟨cids, c, _, hcids, hrewrites, hnode, hdestination, hamount⟩

/-- A burn anywhere in the block is in the tree at the end. -/
theorem burned_of_mem (hL : L.Faithful) (hD : V.dagLib.Sound)
    (hfull : hasPrefix token "did:tupelo:" = true) (hmem : t ∈ txns)
    (hburn : isTokenBurn token burnAmount t = .ok true)
    (hrun : V.runTransactors ranges did i d txns = .ok d') : Burned token burnAmount d d' := by
  have hsends : tokenSendLabel ∈ listLabels := by decide
  have hplain := isIndex_of_full hfull
  have hstore := store_le_runTransactors hL hD hrun
  obtain ⟨before, after, rfl⟩ := List.append_of_mem hmem
  obtain ⟨d₁, j, hbefore, hrest⟩ := runTransactors_append_ok hrun
  obtain ⟨txn, d₂, htxn, -, hd₂, hafter⟩ := runTransactors_cons_eq_ok.mp hrest
  have hle₂ := store_le_runTransactors hL hD hafter
  have hle₁ := ((writes_transactor hD hd₂).store_le hL.objCid_injective).trans hle₂
  -- the lists grow before the burn, by the burn and after it
  obtain ⟨new₁, hnew₁⟩ := extended_runTransactors hL hD hle₁ hbefore token hplain _ hsends
  obtain ⟨cids, c, send, hcids, hrewrites, hnode, hdestination, hamount⟩ :=
    rewrites_burn hL hD hle₂ hfull hburn htxn hd₂
  obtain ⟨new₂, hnew₂⟩ := extended_runTransactors hL hD le_rfl hafter token hplain _ hsends
  rw [hcids] at hnew₁
  obtain ⟨old, hold, rfl⟩ := Option.map_eq_some_iff.mp hnew₁.symm
  refine ⟨old, new₁ ++ c :: new₂, hold, fun cids' hcids' => ?_, ?_, c, ?_, send,
    hle₂ _ _ hnode, hdestination, hamount⟩
  · exact Option.some.inj ((listedCids_mono hstore hcids').symm.trans hold)
  · rw [hnew₂, hrewrites.written]
    simp
  · simp

/--
**A block that passes the validator burns.**

For every token with a full name, every burn amount and every block that the validator accepts:
if all transactions of the block are executed, one after the other, then the sends of this token
have grown, and among the new ones is one to nobody, of at least the burn amount and at least 1.
-/
theorem hasBurn_burns (hL : L.Faithful) (hD : V.dagLib.Sound)
    (hfull : hasPrefix token "did:tupelo:" = true)
    (hburn : hasBurn token burnAmount txns = .ok true)
    (hrun : V.runTransactors ranges did i d txns = .ok d') : Burned token burnAmount d d' := by
  obtain ⟨t, hmem, ht⟩ := exists_of_anyM hburn
  exact burned_of_mem hL hD hfull hmem ht hrun

end TransactionValidator

namespace BurnExample

open ValidationExample (validator setData)

def establish : Transaction where
  type := .establishToken
  establishTokenPayload := some { name := "coin", monetaryPolicy := none }

def mint : Transaction where
  type := .mintToken
  mintTokenPayload := some { name := "coin", amount := 9 }

def send (id name destination : String) (amount : UInt64) : Transaction where
  type := .sendToken
  sendTokenPayload := some { id, name, amount, destination }

/-- A block that leaves a token with one send. -/
def first : TransactionPtrs :=
  [some establish, some mint, some (send "1" "coin" "did:tupelo:b" 1)]

/-- A burn between other transactions. -/
def block : TransactionPtrs :=
  [some setData, some (send "2" "did:tupelo:a:coin" "" 3), some mint]

noncomputable def run (d : Dag Ipld.inFull) (txns : TransactionPtrs) :
    Except Fault (Dag Ipld.inFull) :=
  (validator []).runTransactors (fun _ => Ranges.plain) "did:tupelo:a" 0 d txns

theorem hasBurn_burns_example : ∃ d d',
    run (emptyTree Ipld.inFull) first = .ok d ∧ run d block = .ok d' ∧
    hasBurn "did:tupelo:a:coin" 2 block = .ok true ∧
    Burned "did:tupelo:a:coin" 2 d d' := by
  have hrun : ((run (emptyTree Ipld.inFull) first).bind fun d =>
      run d block).toOption.isSome = true := by decide +kernel
  obtain ⟨d', hd'⟩ := Option.isSome_iff_exists.mp hrun
  obtain ⟨d, hd, hd'⟩ := bind_eq_ok.mp (toOption_eq_some.mp hd')
  have hburn : hasBurn "did:tupelo:a:coin" 2 block = .ok true := by decide +kernel
  exact ⟨d, d', hd, hd', hburn, TransactionValidator.hasBurn_burns Ipld.inFull_faithful
    (DagLib.std_sound _) (by decide +kernel) hburn hd'⟩

end BurnExample

end Tupelo

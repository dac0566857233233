import Tupelo.Consensus.TokenRecord

/-!
# The ledger refines its records

One lemma for each method of the ledger: if it returns a tree, then the record of the ledger's
token in that tree is the one the abstract operation makes of the record before, and all other
tokens have the records they had. The methods are inverted step by step, and of the library
only `DagLib.Sound` is used.
-/

namespace Tupelo

open Infra MerkleDag

variable {L : Ipld} {D : DagLib L} {lift : Lift Cid}
variable {l : TreeLedger L} {id label name : String} {d d' : Dag L} {x y : Option TokenRecord}
  {amount b : UInt64} {fields : List (String × Obj Cid)} {cids : List Cid} {p : TokenMonetaryPolicy}
  {r : TokenRecord} {o : Obj Cid}

/-- Nothing is lost from the store, and all tokens but one have the records they had. -/
structure SameOthers (name : String) (d d' : Dag L) : Prop where
  store_le : d.store ≤ d'.store
  records : ∀ name' y, name' ≠ name → tokenRecord d name' = some y →
    tokenRecord d' name' = some y

theorem SameOthers.trans {d₁ d₂ : Dag L} (h : SameOthers name d d₁) (h' : SameOthers name d₁ d₂) :
    SameOthers name d d₂ where
  store_le := h.store_le.trans h'.store_le
  records := fun name' y hne hy => h'.records name' y hne (h.records name' y hne hy)

/-- A token keeps its record where its path leads to what it led to before. -/
theorem tokenRecord_congr (hle : d.store ≤ d'.store)
    (hfind : ∀ x, d.find (recordPath name) = some x → d'.find (recordPath name) = some x)
    (h : tokenRecord d name = some y) : tokenRecord d' name = some y := by
  cases y with
  | none =>
    rw [tokenRecord_eq_some_none] at h ⊢
    exact hfind _ h
  | some r =>
    obtain ⟨fields, hmap, hreads⟩ := tokenRecord_eq_some_some.mp h
    exact tokenRecord_eq_some_some.mpr ⟨fields, hfind _ hmap, hreads.mono hle⟩

/-- More nodes under the same tip. -/
theorem tokenRecord_mono (htip : d'.tip = d.tip) (hle : d.store ≤ d'.store)
    (h : tokenRecord d name = some y) : tokenRecord d' name = some y :=
  tokenRecord_congr hle (fun _ hx => Dag.find_mono htip hle hx) h

theorem apart_recordPath {name' : String} (h : name' ≠ name) (rest : List String) :
    Apart (recordPath name ++ rest) (recordPath name') := by
  have happ : recordPath name ++ rest = ["_tupelo", "tokens"] ++ (name :: rest) := rfl
  rw [happ]
  exact (Apart.head (Ne.symm h) rest []).append_left _

/-! ## The writes of the ledger -/

theorem tokenRecord_createNode (hL : L.Faithful) (h : tokenRecord d name = some y) :
    tokenRecord (d.createNode o).2 name = some y :=
  tokenRecord_congr (Dag.le_createNode hL.objCid_injective d o)
    (fun _ hx => Dag.find_createNode hL.objCid_injective hx) h

theorem sameOthers_set (hL : L.Faithful) {rest : List String} {v : Obj Cid}
    (h : d.set lift (recordPath name ++ rest) v = some d') : SameOthers name d d' := by
  refine ⟨Dag.le_set hL.objCid_injective h, ?_⟩
  intro name' y hne hy
  refine tokenRecord_congr (Dag.le_set hL.objCid_injective h) ?_ hy
  intro x hx
  exact Dag.find_set_of_apart hL.objCid_injective h (apart_recordPath hne rest) hx

theorem sameOthers_setAsLink (hL : L.Faithful) {rest : List String} {v : Obj Cid}
    (h : d.setAsLink lift (recordPath name ++ rest) v = some d') : SameOthers name d d' := by
  refine ⟨Dag.le_setAsLink hL.objCid_injective h, ?_⟩
  intro name' y hne hy
  refine tokenRecord_congr (Dag.le_setAsLink hL.objCid_injective h) ?_ hy
  intro x hx
  exact Dag.find_setAsLink_of_apart hL.objCid_injective h (apart_recordPath hne rest) hx

/-- Writing the balance changes the balance. -/
theorem tokenRecord_setBalance (hL : L.Faithful)
    (h : d.set lift (recordPath name ++ [tokenBalanceLabel]) (.uint b) = some d')
    (hr : tokenRecord d name = some (some r)) :
    tokenRecord d' name = some (some { r with balance := b }) := by
  obtain ⟨fields, hmap, hreads⟩ := tokenRecord_eq_some_some.mp hr
  refine tokenRecord_eq_some_some.mpr
    ⟨_, Dag.find_set_of_map hL.objCid_injective h hmap, ?_⟩
  exact (hreads.setBalance b).mono (Dag.le_set hL.objCid_injective h)

theorem tokenRecord_setPolicy (hL : L.Faithful)
    (h : d.setAsLink lift (recordPath name ++ [monetaryPolicyLabel]) p.toObj = some d')
    (hr : tokenRecord d name = some (some r)) :
    tokenRecord d' name = some (some { r with policy := some p }) := by
  obtain ⟨fields, hmap, hreads⟩ := tokenRecord_eq_some_some.mp hr
  refine tokenRecord_eq_some_some.mpr
    ⟨_, Dag.find_setAsLink_of_map hL.objCid_injective h hmap, ?_⟩
  exact (hreads.mono (Dag.le_setAsLink hL.objCid_injective h)).setPolicy
    (Dag.get_setAsLink hL.objCid_injective h)

theorem reads_zero (S : Store L.objCid) : ∃ fields, Token.zero = .map fields ∧
    Reads S fields (TokenRecord.new none) := ⟨_, rfl, rfl, rfl, rfl, rfl, rfl⟩

/-- A list gets one more element, then the balance is written. -/
theorem appendTransaction_ok (hD : D.Sound) {tree : Dag L} {path : List String}
    {newBalance : Dag L → Except Fault UInt64}
    (h : TreeLedger.appendTransaction D tree path label cids newBalance = .ok d') :
    ∃ d₁ b, tree.setAsLink D.lift (path ++ [label]) (.list (cids.map .link)) = some d₁ ∧
      newBalance tree = .ok b ∧
      d₁.set D.lift (path ++ [tokenBalanceLabel]) (.uint b) = some d' := by
  obtain ⟨d₁, hd₁, h⟩ := bind_eq_ok.mp h
  obtain ⟨b, hb, h⟩ := bind_eq_ok.mp h
  exact ⟨d₁, b, hD.setAsLink (wrapErr_eq_ok.mp hd₁), hb, hD.set (wrapErr_eq_ok.mp h)⟩

/-! ## What the ledger reads -/

theorem mapM_castCid_links : ∀ cids : List Cid, (cids.map Obj.link).mapM castCid = .ok cids
  | [] => rfl
  | c :: cids => by
    rw [List.map_cons, List.mapM_cons, mapM_castCid_links cids]
    rfl

theorem mapM_castCid {xs : List (Obj Cid)} : ∀ {cids : List Cid},
    xs.mapM castCid = .ok cids → xs = cids.map .link := by
  induction xs with
  | nil =>
    intro cids h
    rw [← pure_eq_ok.mp h]
    rfl
  | cons x xs ih =>
    intro cids h
    rw [List.mapM_cons] at h
    obtain ⟨c, hc, hrest⟩ := bind_eq_ok.mp h
    obtain ⟨cs, hcs, hcids⟩ := bind_eq_ok.mp hrest
    cases x with
    | link a => rw [← pure_eq_ok.mp hcids, List.map_cons, ← ih hcs, ← Except.ok.inj hc]
    | _ => cases hc

/-- The CIDs the ledger reads are those of the record's list. -/
theorem readCids_of_transactionCids (hD : D.Sound) {cids' : List Cid}
    (hmap : d.find (recordPath name) = some (some (.map fields)))
    (hcids : readCids d.store fields label = some cids)
    (h : transactionCidsForPath D d (recordPath name ++ [label]) = .ok cids') : cids' = cids := by
  obtain ⟨⟨o, remaining⟩, hres, h⟩ := bind_eq_ok.mp h
  have hfound := fun {x} => hD.resolve_found (x := x) (wrapErr_eq_ok.mp hres)
  unfold readCids at hcids
  split at hcids
  · next hk =>
    obtain ⟨rfl, -⟩ := Prod.mk.inj (hfound (Dag.find_field hmap hk rfl))
    rw [← Except.ok.inj h, ← Option.some.inj hcids]
  · next c hk =>
    split at hcids
    · next xs hxs =>
      obtain ⟨rfl, -⟩ := Prod.mk.inj (hfound (Dag.find_field hmap hk hxs))
      rw [mapM_castCid h, mapM_asLink] at hcids
      exact Option.some.inj hcids
    · cases hcids
  · cases hcids

theorem decodeToken_balance {token : Token} (h : decodeToken (.map fields) = .ok token) :
    uintField fields tokenBalanceLabel = .ok token.balance := by
  obtain ⟨fields', hfields, h⟩ := bind_eq_ok.mp h
  obtain ⟨_, -, h⟩ := bind_eq_ok.mp h
  obtain ⟨_, -, h⟩ := bind_eq_ok.mp h
  obtain ⟨_, -, h⟩ := bind_eq_ok.mp h
  obtain ⟨_, -, h⟩ := bind_eq_ok.mp h
  obtain ⟨n, hn, h⟩ := bind_eq_ok.mp h
  rw [structFields_map_ok hfields] at hn
  rw [hn, ← pure_eq_ok.mp h]

theorem tokenTransactionCidsForType_ok (h : l.tokenTransactionCidsForType D label = .ok cids) :
    transactionCidsForPath D l.tree (recordPath l.tokenName.string ++ [label]) = .ok cids := by
  unfold TreeLedger.tokenTransactionCidsForType at h
  rw [tokenPath_eq, ok_bind] at h
  exact wrapErr_eq_ok.mp h

theorem balance_ok (hD : D.Sound) (h : l.balance D = .ok b) :
    ∃ val token, l.tree.find (recordPath l.tokenName.string) = some (some val) ∧
      decodeToken val = .ok token ∧ token.balance = b := by
  unfold TreeLedger.balance at h
  rw [tokenPath_eq, ok_bind] at h
  obtain ⟨token, htoken, h⟩ := bind_eq_ok.mp h
  obtain ⟨val, hval, hdecode⟩ :=
    DagLib.resolveInto_ok hD (isIndex_recordPath l.tokenName) (wrapErr_eq_ok.mp htoken)
  exact ⟨val, token, hval, hdecode, pure_eq_ok.mp h⟩

/-- A token exists if something other than nil is found. -/
theorem tokenExists_ok {b : Bool} (h : l.tokenExists D = .ok b) :
    ∃ o remaining, D.resolve l.tree (recordPath l.tokenName.string) = .ok (o, remaining) ∧
      (b = true ↔ o ≠ .null) := by
  unfold TreeLedger.tokenExists at h
  rw [tokenPath_eq, wrapErr_ok, ok_bind] at h
  obtain ⟨⟨o, remaining⟩, hres, h⟩ := bind_eq_ok.mp h
  refine ⟨o, remaining, wrapErr_eq_ok.mp hres, ?_⟩
  cases o with
  | null => simp [← pure_eq_ok.mp h]
  | _ => simp [← pure_eq_ok.mp h]

theorem balance_spec (hD : D.Sound) (hx : tokenRecord l.tree l.tokenName.string = some x)
    (h : l.balance D = .ok b) : ∃ r, x = some r ∧ b = r.balance := by
  obtain ⟨val, token, hval, hdecode, rfl⟩ := balance_ok hD h
  cases x with
  | none => cases (tokenRecord_eq_some_none.mp hx).symm.trans hval
  | some r =>
  refine ⟨r, rfl, ?_⟩
  obtain ⟨fields, hmap, hreads⟩ := tokenRecord_eq_some_some.mp hx
  obtain rfl : val = .map fields := Option.some.inj (Option.some.inj (hval.symm.trans hmap))
  have hn := decodeToken_balance hdecode
  have hbal := hreads.balance
  unfold readBalance at hbal
  unfold uintField at hn
  split at hbal
  · next m hm =>
    rw [hm] at hn
    rw [← Except.ok.inj hn, Option.some.inj hbal]
  · cases hbal

theorem tokenExists_spec (hD : D.Sound) {b : Bool}
    (hx : tokenRecord l.tree l.tokenName.string = some x) (h : l.tokenExists D = .ok b) :
    b = x.isSome := by
  obtain ⟨o, remaining, hres, hb⟩ := tokenExists_ok h
  cases x with
  | none =>
    obtain ⟨rfl, -⟩ := hD.resolve_missing hres (tokenRecord_eq_some_none.mp hx)
    simpa using hb
  | some r =>
    obtain ⟨fields, hmap, -⟩ := tokenRecord_eq_some_some.mp hx
    obtain ⟨rfl, -⟩ := Prod.mk.inj (hD.resolve_found hres hmap)
    simpa using hb

/-- The nodes of the list the ledger reads are the record's. -/
theorem tokenTransactionCids_spec (hD : D.Sound) {α : Type} {decode : Obj Cid → Except Fault α}
    {xs : List α} (hmap : l.tree.find (recordPath l.tokenName.string) = some (some (.map fields)))
    (hxs : readList l.tree.store decode fields label = some xs)
    (h : l.tokenTransactionCidsForType D label = .ok cids) :
    readNodes l.tree.store decode cids = some xs := by
  obtain ⟨cids', hcids', hxs⟩ := Option.bind_eq_some_iff.mp hxs
  rw [readCids_of_transactionCids hD hmap hcids' (tokenTransactionCidsForType_ok h)]
  exact hxs

/-- The policy the ledger reads. -/
theorem policy_spec (hD : D.Sound) (hx : tokenRecord l.tree l.tokenName.string = some x)
    (h : D.resolveInto decodeTokenMonetaryPolicy l.tree
      (recordPath l.tokenName.string ++ [monetaryPolicyLabel]) = .ok p) :
    ∃ r, x = some r ∧ p.maximum = r.maximum := by
  obtain ⟨o, ho, hdecode⟩ := bind_eq_ok.mp h
  obtain ⟨c, hentry, hc⟩ := hD.resolveNode (isIndex_recordPath_label l.tokenName rfl) ho
  cases x with
  | none =>
    have hnone := Dag.find_append_missing (tokenRecord_eq_some_none.mp hx)
      [monetaryPolicyLabel]
    cases hnone.symm.trans (Dag.find_of_entry_link hentry hc)
  | some r =>
    refine ⟨r, rfl, ?_⟩
    obtain ⟨fields, hmap, hreads⟩ := tokenRecord_eq_some_some.mp hx
    rw [Dag.entry_of_find hmap] at hentry
    have hpolicy := hreads.policy
    unfold readPolicy at hpolicy
    rw [Option.some.inj hentry] at hpolicy
    obtain ⟨q, hq, hsome⟩ := Option.map_eq_some_iff.mp hpolicy
    obtain ⟨o', ho', hq⟩ := Option.bind_eq_some_iff.mp hq
    obtain rfl : o = o' := Option.some.inj (hc.symm.trans ho')
    rw [hdecode] at hq
    unfold TokenRecord.maximum
    rw [← hsome, ← Option.some.inj hq]
    rfl

theorem decodeTokenMint_amount {m : TokenMint} {tr : TokenReceive} (hm : decodeTokenMint o = .ok m)
    (htr : decodeTokenReceive o = .ok tr) : tr.amount = m.amount := by
  obtain ⟨fields, hfields, hm⟩ := bind_eq_ok.mp hm
  obtain ⟨n, hn, hm⟩ := bind_eq_ok.mp hm
  obtain ⟨fields', hfields', htr⟩ := bind_eq_ok.mp htr
  obtain ⟨id, -, htr⟩ := bind_eq_ok.mp htr
  obtain ⟨n', hn', htr⟩ := bind_eq_ok.mp htr
  have hsame : fields' = fields := by
    cases o with
    | null => rw [← Except.ok.inj hfields, ← Except.ok.inj hfields']
    | map entries => rw [structFields_map_ok hfields, structFields_map_ok hfields']
    | _ => cases hfields
  rw [hsame, hn] at hn'
  rw [← pure_eq_ok.mp hm, ← pure_eq_ok.mp htr, Except.ok.inj hn']

/-- The loop of `sumTokenTransactions` adds up the amounts. -/
theorem foldlM_addAmount (hD : D.Sound) :
    ∀ {sum total : UInt64} {mints : List TokenMint},
      cids.foldlM (TreeLedger.addAmount D l) sum = .ok total →
      readNodes l.tree.store decodeTokenMint cids = some mints →
      total = sum + (mints.map (·.amount)).sum := by
  induction cids with
  | nil =>
    intro sum total mints h hread
    rw [← pure_eq_ok.mp h, ← Option.some.inj hread]
    simp
  | cons c cids ih =>
    intro sum total mints h hread
    rw [List.foldlM_cons] at h
    obtain ⟨sum', hsum', h⟩ := bind_eq_ok.mp h
    obtain ⟨node, hnode, hsum'⟩ := bind_eq_ok.mp hsum'
    obtain ⟨tr, htr, hsum'⟩ := bind_eq_ok.mp hsum'
    unfold readNodes at hread
    rw [List.mapM_cons] at hread
    obtain ⟨m, hm, hread⟩ := Option.bind_eq_some_iff.mp hread
    obtain ⟨ms, hms, hread⟩ := Option.bind_eq_some_iff.mp hread
    obtain ⟨o, ho, hm⟩ := Option.bind_eq_some_iff.mp hm
    have hget := hD.get (wrapErr_eq_ok.mp hnode)
    obtain rfl : node = o := Option.some.inj (hget.symm.trans ho)
    have hamount := decodeTokenMint_amount (toOption_eq_some.mp hm) (wrapErr_eq_ok.mp htr)
    rw [ih h hms, ← pure_eq_ok.mp hsum', hamount, ← Option.some.inj hread, List.map_cons,
      List.sum_cons, add_assoc]

/-! ## The methods -/

theorem commit_fst (l : TreeLedger L) (r : Except Fault (Dag L)) : (l.commit r).1 = r := by
  cases r with
  | error e => rfl
  | ok d => rfl

theorem commit_ok {l' : TreeLedger L} {r : Except Fault (Dag L)} (h : l.commit r = (.ok d', l')) :
    r = .ok d' ∧ l' = { l with tree := d' } := by
  cases r with
  | error e => cases (Prod.mk.inj h).1
  | ok d =>
    obtain ⟨hd, hl⟩ := Prod.mk.inj h
    obtain rfl := Except.ok.inj hd
    exact ⟨rfl, hl.symm⟩

theorem createToken_ok (hD : D.Sound) (h : (l.createToken D).1 = .ok d') :
    ∃ d₁, l.tree.setAsLink D.lift (recordPath l.tokenName.string) Token.zero = some d₁ ∧
      d₁.set D.lift (recordPath l.tokenName.string ++ [tokenBalanceLabel]) (.uint 0) = some d' := by
  unfold TreeLedger.createToken at h
  rw [commit_fst, tokenPath_eq, wrapErr_ok, ok_bind] at h
  obtain ⟨d₁, hd₁, h⟩ := bind_eq_ok.mp h
  exact ⟨d₁, hD.setAsLink (wrapErr_eq_ok.mp hd₁), hD.set (wrapErr_eq_ok.mp h)⟩

/-- The last step of establishing a token, after it has been created. -/
theorem establishToken_fst (l : TreeLedger L) (policy : TokenMonetaryPolicy) :
    (l.establishToken D policy).1 = (do
      let newTree ← (l.createToken D).1
      wrapErr "error setting monetary policy: " (D.setAsLink newTree
        (recordPath l.tokenName.string ++ [monetaryPolicyLabel]) policy.toObj)) := by
  unfold TreeLedger.establishToken
  cases hcreate : l.createToken D with
  | mk r l' =>
    cases r with
    | error e => rfl
    | ok newTree =>
      obtain ⟨-, rfl⟩ := commit_ok hcreate
      simp only [commit_fst, tokenPath_eq, ok_bind]

theorem establishToken_ok (hD : D.Sound) {policy : TokenMonetaryPolicy}
    (h : (l.establishToken D policy).1 = .ok d') :
    ∃ d₁, (l.createToken D).1 = .ok d₁ ∧
      d₁.setAsLink D.lift (recordPath l.tokenName.string ++ [monetaryPolicyLabel]) policy.toObj =
        some d' := by
  rw [establishToken_fst] at h
  obtain ⟨d₁, hd₁, h⟩ := bind_eq_ok.mp h
  exact ⟨d₁, hd₁, hD.setAsLink (wrapErr_eq_ok.mp h)⟩

theorem mintToken_ok (h : (l.mintToken D amount).1 = .ok d') :
    ∃ policy cids c d₀ newBalance, amount ≠ 0 ∧
      D.resolveInto decodeTokenMonetaryPolicy l.tree
        (recordPath l.tokenName.string ++ [monetaryPolicyLabel]) = .ok policy ∧
      l.tokenTransactionCidsForType D tokenMintLabel = .ok cids ∧
      l.checkMaximum D policy cids amount = .ok () ∧
      D.createNode l.tree (TokenMint.toObj { amount }) = .ok (c, d₀) ∧
      TreeLedger.appendTransaction D d₀ (recordPath l.tokenName.string) tokenMintLabel
        (cids ++ [c]) newBalance = .ok d' ∧
      ∀ b, newBalance d₀ = .ok b →
        ∃ curr, TreeLedger.balance D { l with tree := d₀ } = .ok curr ∧ curr + amount = b := by
  unfold TreeLedger.mintToken at h
  rw [commit_fst, tokenPath_eq, wrapErr_ok, ok_bind] at h
  split at h
  · cases h
  · next hamount =>
    obtain ⟨policy, hpolicy, h⟩ := bind_eq_ok.mp h
    obtain ⟨cids, hcids, h⟩ := bind_eq_ok.mp h
    obtain ⟨_, hcheck, h⟩ := bind_eq_ok.mp h
    obtain ⟨⟨c, d₀⟩, hnode, h⟩ := bind_eq_ok.mp h
    refine ⟨policy, cids, c, d₀, _, hamount, wrapErr_eq_ok.mp hpolicy, hcids, hcheck,
      wrapErr_eq_ok.mp hnode, h, fun b hb => ?_⟩
    obtain ⟨curr, hcurr, hb⟩ := bind_eq_ok.mp hb
    exact ⟨curr, wrapErr_eq_ok.mp hcurr, pure_eq_ok.mp hb⟩

/-- The sends are read in the tree that has the node of the new one. -/
theorem sendToken_ok {destination : String} (h : (l.sendToken D id destination amount).1 = .ok d') :
    ∃ available cids c d₀, amount ≠ 0 ∧ l.balance D = .ok available ∧ amount ≤ available ∧
      D.createNode l.tree (TokenSend.toObj { id, amount, destination }) = .ok (c, d₀) ∧
      TreeLedger.tokenTransactionCidsForType D { l with tree := d₀ } tokenSendLabel =
        .ok cids ∧
      TreeLedger.appendTransaction D d₀ (recordPath l.tokenName.string) tokenSendLabel
        (cids ++ [c]) (fun _ => return available - amount) = .ok d' := by
  unfold TreeLedger.sendToken at h
  rw [commit_fst, tokenPath_eq, ok_bind] at h
  split at h
  · cases h
  · next hamount =>
    obtain ⟨available, havailable, h⟩ := bind_eq_ok.mp h
    split at h
    · cases h
    · next hle =>
      obtain ⟨⟨c, d₀⟩, hnode, h⟩ := bind_eq_ok.mp h
      obtain ⟨cids, hcids, h⟩ := bind_eq_ok.mp h
      exact ⟨available, cids, c, d₀, hamount, havailable, UInt64.not_lt.mp hle,
        wrapErr_eq_ok.mp hnode, wrapErr_eq_ok.mp hcids, h⟩

theorem receive_ok (h : (TreeLedger.receiveToken.receive D id amount l).1 = .ok d') :
    ∃ cids c d₀ newBalance, l.tokenTransactionCidsForType D tokenReceiveLabel = .ok cids ∧
      cids.forM (l.checkReceive D id) = .ok () ∧
      D.createNode l.tree (TokenReceive.toObj { sendTokenTransactionId := id, amount }) =
        .ok (c, d₀) ∧
      TreeLedger.appendTransaction D d₀ (recordPath l.tokenName.string) tokenReceiveLabel
        (cids ++ [c]) newBalance = .ok d' ∧
      ∀ b, newBalance d₀ = .ok b →
        ∃ curr, TreeLedger.balance D { l with tree := d₀ } = .ok curr ∧ curr + amount = b := by
  unfold TreeLedger.receiveToken.receive at h
  rw [commit_fst, tokenPath_eq, ok_bind] at h
  obtain ⟨cids, hcids, h⟩ := bind_eq_ok.mp h
  obtain ⟨_, hcheck, h⟩ := bind_eq_ok.mp h
  obtain ⟨⟨c, d₀⟩, hnode, h⟩ := bind_eq_ok.mp h
  refine ⟨cids, c, d₀, _, wrapErr_eq_ok.mp hcids, hcheck, wrapErr_eq_ok.mp hnode, h,
    fun b hb => ?_⟩
  obtain ⟨curr, hcurr, hb⟩ := bind_eq_ok.mp hb
  exact ⟨curr, wrapErr_eq_ok.mp hcurr, pure_eq_ok.mp hb⟩

theorem tokenPath_bind {α : Type} (tokenName : TokenName) (x : Except Fault α) :
    ((tokenPath tokenName).bind fun _ => x) = x := by
  rw [tokenPath_eq]
  rfl

/-- A token that does not exist is created before it is received. -/
theorem receiveToken_fst (l : TreeLedger L) (id : String) (amount : UInt64) :
    (l.receiveToken D id amount).1 = (do
      let tokenExists ← l.tokenExists D
      if tokenExists then (TreeLedger.receiveToken.receive D id amount l).1
      else do
        let newTree ← (l.createToken D).1
        (TreeLedger.receiveToken.receive D id amount { l with tree := newTree }).1) := by
  unfold TreeLedger.receiveToken
  rw [tokenPath_bind]
  match l.tokenExists D with
  | .error e => rfl
  | .ok true => rfl
  | .ok false =>
    cases hcreate : l.createToken D with
    | mk r l' =>
      cases r with
      | error e => rfl
      | ok newTree =>
        obtain ⟨-, rfl⟩ := commit_ok hcreate
        rfl

theorem receiveToken_ok (h : (l.receiveToken D id amount).1 = .ok d') :
    (l.tokenExists D = .ok true ∧
      (TreeLedger.receiveToken.receive D id amount l).1 = .ok d') ∨
    l.tokenExists D = .ok false ∧ ∃ d₁, (l.createToken D).1 = .ok d₁ ∧
      (TreeLedger.receiveToken.receive D id amount { l with tree := d₁ }).1 = .ok d' := by
  rw [receiveToken_fst] at h
  obtain ⟨tokenExists, hexists, h⟩ := bind_eq_ok.mp h
  cases tokenExists with
  | true => exact Or.inl ⟨hexists, h⟩
  | false => exact Or.inr ⟨hexists, bind_eq_ok.mp h⟩

/-- **Creating a token** makes an empty record. -/
theorem createToken_spec (hL : L.Faithful) (hD : D.Sound) (h : (l.createToken D).1 = .ok d') :
    tokenRecord d' l.tokenName.string = some (some (TokenRecord.new none)) ∧
      SameOthers l.tokenName.string l.tree d' := by
  obtain ⟨d₁, hlink, hset⟩ := createToken_ok hD h
  obtain ⟨fields, hzero, hreads⟩ := reads_zero (L := L) d₁.store
  have hfind : d₁.find (recordPath l.tokenName.string) = some (some (.map fields)) := by
    rw [← hzero]
    exact Dag.find_setAsLink_self hL.objCid_injective hlink
  have hd₁ : tokenRecord d₁ l.tokenName.string = some (some (TokenRecord.new none)) :=
    tokenRecord_eq_some_some.mpr ⟨fields, hfind, hreads⟩
  refine ⟨tokenRecord_setBalance hL hset hd₁, ?_⟩
  rw [← List.append_nil (recordPath _)] at hlink
  exact (sameOthers_setAsLink hL hlink).trans (sameOthers_set hL hset)

/-- **Establishing a token** makes an empty record with the policy. -/
theorem establishToken_spec (hL : L.Faithful) (hD : D.Sound)
    (h : (l.establishToken D p).1 = .ok d') :
    tokenRecord d' l.tokenName.string = some (some (TokenRecord.new (some p))) ∧
      SameOthers l.tokenName.string l.tree d' := by
  obtain ⟨d₁, hcreate, hlink⟩ := establishToken_ok hD h
  obtain ⟨hnew, hothers⟩ := createToken_spec hL hD hcreate
  exact ⟨tokenRecord_setPolicy hL hlink hnew, hothers.trans (sameOthers_setAsLink hL hlink)⟩

/-- A node that is made but not linked changes no record. -/
theorem createNode_spec (hL : L.Faithful) (hD : D.Sound) {d₀ : Dag L} {c : Cid}
    (h : D.createNode d o = .ok (c, d₀)) :
    d₀.store.nodes c = some o ∧ (∀ name, SameOthers name d d₀) ∧
      ∀ name y, tokenRecord d name = some y → tokenRecord d₀ name = some y := by
  obtain ⟨rfl, rfl⟩ := Prod.mk.inj (hD.createNode h)
  refine ⟨Dag.get_createNode d o, ?_, fun name y hy => tokenRecord_createNode hL hy⟩
  intro name
  exact ⟨Dag.le_createNode hL.objCid_injective d o,
    fun name' y _ hy => tokenRecord_createNode hL hy⟩

/--
The end of minting, sending and receiving: the list under the label gets the new node, and the
balance is written.
-/
theorem appendTransaction_spec (hL : L.Faithful) (hD : D.Sound) {α : Type}
    {decode : Obj Cid → Except Fault α} {xs : List α} {a : α} {c : Cid} {r' : TokenRecord}
    {newBalance : Dag L → Except Fault UInt64} (hx : tokenRecord d name = some (some r))
    (hcids : readNodes d.store decode cids = some xs) (hc : d.store.nodes c = some o)
    (ha : decode o = .ok a)
    (hset : ∀ {S : Store L.objCid} {fields v}, Reads S fields r →
      readList S decode (Obj.setField fields label v) label = some (xs ++ [a]) →
      Reads S (Obj.setField fields label v) r')
    (h : TreeLedger.appendTransaction D d (recordPath name) label (cids ++ [c]) newBalance =
      .ok d') :
    ∃ b, newBalance d = .ok b ∧ tokenRecord d' name = some (some { r' with balance := b }) ∧
      SameOthers name d d' := by
  have hinj := hL.objCid_injective
  obtain ⟨fields, hmap, hreads⟩ := tokenRecord_eq_some_some.mp hx
  obtain ⟨d₁, b, hlink, hb, hbalance⟩ := appendTransaction_ok hD h
  have hothers := (sameOthers_setAsLink hL hlink).trans (sameOthers_set hL hbalance)
  have hle := hothers.store_le
  have hlist := Dag.le_set hinj hbalance _ _ (Dag.get_setAsLink hinj hlink)
  have happended := readList_appended (readNodes_mono hle hcids) (hle _ _ hc) ha hlist fields label
  have hfind := Dag.find_set_of_map hinj hbalance (Dag.find_setAsLink_of_map hinj hlink hmap)
  exact ⟨b, hb, tokenRecord_eq_some_some.mpr
    ⟨_, hfind, (hset (hreads.mono hle) happended).setBalance b⟩, hothers⟩

/-- **Minting** appends the mint and adds its amount, if the policy allows it. -/
theorem mintToken_spec (hL : L.Faithful) (hD : D.Sound)
    (hx : tokenRecord l.tree l.tokenName.string = some x) (h : (l.mintToken D amount).1 = .ok d') :
    ∃ r, x = some r ∧ amount ≠ 0 ∧ (0 < r.maximum → r.minted + amount ≤ r.maximum) ∧
      tokenRecord d' l.tokenName.string = some (some (r.mint amount)) ∧
      SameOthers l.tokenName.string l.tree d' := by
  obtain ⟨p, cids, c, d₀, newBalance, hamount, hp, hcids, hcheck, hnode, h, hbalance⟩ :=
    mintToken_ok h
  obtain ⟨r, rfl, hmax⟩ := policy_spec hD hx hp
  obtain ⟨hc, hothers₀, hsame₀⟩ := createNode_spec hL hD hnode
  have hmints : readNodes l.tree.store decodeTokenMint cids = some r.mints := by
    obtain ⟨fields, hmap, hreads⟩ := tokenRecord_eq_some_some.mp hx
    exact tokenTransactionCids_spec hD hmap hreads.mints hcids
  obtain ⟨b, hb, hrecord, hothers⟩ := appendTransaction_spec hL hD (hsame₀ _ _ hx)
    (readNodes_mono (hothers₀ l.tokenName.string).store_le hmints) hc rfl
    (fun hr hxs => hr.setMints hxs) h
  refine ⟨r, rfl, hamount, ?_, ?_, (hothers₀ _).trans hothers⟩
  · intro hpos
    unfold TreeLedger.checkMaximum at hcheck
    rw [hmax, if_pos hpos] at hcheck
    obtain ⟨total, htotal, hcheck⟩ := bind_eq_ok.mp hcheck
    have hsum := foldlM_addAmount hD (wrapErr_eq_ok.mp htotal) hmints
    split at hcheck
    · cases hcheck
    · next hle =>
      rw [hsum, zero_add] at hle
      exact UInt64.not_lt.mp hle
  · obtain ⟨curr, hcurr, rfl⟩ := hbalance b hb
    obtain ⟨r', hr', rfl⟩ := balance_spec (l := { l with tree := d₀ }) hD (hsame₀ _ _ hx) hcurr
    obtain rfl := Option.some.inj hr'
    exact hrecord

/-- **Sending** appends the send and takes its amount, if the balance has it. -/
theorem sendToken_spec (hL : L.Faithful) (hD : D.Sound) {destination : String}
    (hx : tokenRecord l.tree l.tokenName.string = some x)
    (h : (l.sendToken D id destination amount).1 = .ok d') :
    ∃ r, x = some r ∧ amount ≠ 0 ∧ amount ≤ r.balance ∧
      tokenRecord d' l.tokenName.string = some (some (r.send { id, amount, destination })) ∧
      SameOthers l.tokenName.string l.tree d' := by
  obtain ⟨available, cids, c, d₀, hamount, havailable, hle, hnode, hcids, h⟩ := sendToken_ok h
  obtain ⟨r, rfl, rfl⟩ := balance_spec hD hx havailable
  obtain ⟨hc, hothers₀, hsame₀⟩ := createNode_spec hL hD hnode
  obtain ⟨fields, hmap, hreads⟩ := tokenRecord_eq_some_some.mp (hsame₀ _ _ hx)
  have hsends := tokenTransactionCids_spec (l := { l with tree := d₀ }) hD hmap hreads.sends hcids
  obtain ⟨b, hb, hrecord, hothers⟩ := appendTransaction_spec hL hD (hsame₀ _ _ hx) hsends hc
    rfl (fun hr hxs => hr.setSends hxs) h
  refine ⟨r, rfl, hamount, hle, ?_, (hothers₀ _).trans hothers⟩
  rw [hrecord, ← pure_eq_ok.mp hb]
  rfl

theorem checkReceive_ok {c : Cid} :
    l.checkReceive D id c = .ok () ↔ ∃ node tr, D.get l.tree c = .ok node ∧
      decodeTokenReceive node = .ok tr ∧ tr.sendTokenTransactionId ≠ id := by
  unfold TreeLedger.checkReceive
  simp only [bind_eq_ok, wrapErr_eq_ok]
  constructor
  · rintro ⟨node, hnode, tr, htr, h⟩
    refine ⟨node, tr, hnode, htr, fun hid => ?_⟩
    rw [if_pos hid] at h
    cases h
  · rintro ⟨node, tr, hnode, htr, hid⟩
    exact ⟨node, hnode, tr, htr, if_neg hid⟩

/-- No receive that passed the loop has the id. -/
theorem forM_checkReceive (hD : D.Sound) :
    ∀ {receives : List TokenReceive}, cids.forM (l.checkReceive D id) = .ok () →
      readNodes l.tree.store decodeTokenReceive cids = some receives →
      ∀ r ∈ receives, r.sendTokenTransactionId ≠ id := by
  induction cids with
  | nil =>
    intro receives _ hread r hr
    rw [← Option.some.inj hread] at hr
    cases hr
  | cons c cids ih =>
    intro receives h hread r hr
    obtain ⟨_, hcheck, h⟩ := bind_eq_ok.mp h
    obtain ⟨node, tr, hnode, htr, hid⟩ := checkReceive_ok.mp hcheck
    unfold readNodes at hread
    rw [List.mapM_cons] at hread
    obtain ⟨tr', htr', hread⟩ := Option.bind_eq_some_iff.mp hread
    obtain ⟨rest, hrest, hread⟩ := Option.bind_eq_some_iff.mp hread
    obtain ⟨o, ho, htr'⟩ := Option.bind_eq_some_iff.mp htr'
    rw [← Option.some.inj hread] at hr
    rcases List.mem_cons.mp hr with rfl | hr
    · obtain rfl : node = o := Option.some.inj ((hD.get hnode).symm.trans ho)
      rw [htr] at htr'
      rwa [← Option.some.inj htr']
    · exact ih h hrest r hr

/-- What follows in `ReceiveToken` once the token exists. -/
theorem receive_spec (hL : L.Faithful) (hD : D.Sound)
    (hx : tokenRecord l.tree l.tokenName.string = some (some r))
    (h : (TreeLedger.receiveToken.receive D id amount l).1 = .ok d') :
    (∀ tr ∈ r.receives, tr.sendTokenTransactionId ≠ id) ∧
      tokenRecord d' l.tokenName.string = some (some (r.receive
        { sendTokenTransactionId := id, amount })) ∧
      SameOthers l.tokenName.string l.tree d' := by
  obtain ⟨cids, c, d₀, newBalance, hcids, hcheck, hnode, h, hbalance⟩ := receive_ok h
  obtain ⟨hc, hothers₀, hsame₀⟩ := createNode_spec hL hD hnode
  have hreceives : readNodes l.tree.store decodeTokenReceive cids = some r.receives := by
    obtain ⟨fields, hmap, hreads⟩ := tokenRecord_eq_some_some.mp hx
    exact tokenTransactionCids_spec hD hmap hreads.receives hcids
  obtain ⟨b, hb, hrecord, hothers⟩ := appendTransaction_spec hL hD (hsame₀ _ _ hx)
    (readNodes_mono (hothers₀ l.tokenName.string).store_le hreceives) hc rfl
    (fun hr hxs => hr.setReceives hxs) h
  refine ⟨forM_checkReceive hD hcheck hreceives, ?_, (hothers₀ _).trans hothers⟩
  obtain ⟨curr, hcurr, rfl⟩ := hbalance b hb
  obtain ⟨r', hr', rfl⟩ := balance_spec (l := { l with tree := d₀ }) hD (hsame₀ _ _ hx) hcurr
  obtain rfl := Option.some.inj hr'
  exact hrecord

/-- **Receiving** appends the receive and adds its amount, in an empty record if need be. -/
theorem receiveToken_spec (hL : L.Faithful) (hD : D.Sound)
    (hx : tokenRecord l.tree l.tokenName.string = some x)
    (h : (l.receiveToken D id amount).1 = .ok d') :
    let r := x.getD (TokenRecord.new none)
    (∀ tr ∈ r.receives, tr.sendTokenTransactionId ≠ id) ∧
      tokenRecord d' l.tokenName.string = some (some (r.receive
        { sendTokenTransactionId := id, amount })) ∧
      SameOthers l.tokenName.string l.tree d' := by
  rcases receiveToken_ok h with ⟨hexists, h⟩ | ⟨hexists, d₁, hcreate, h⟩
  · have hsome := tokenExists_spec hD hx hexists
    obtain ⟨r, rfl⟩ := Option.isSome_iff_exists.mp hsome.symm
    exact receive_spec hL hD hx h
  · have hnone := tokenExists_spec hD hx hexists
    obtain rfl := Option.not_isSome_iff_eq_none.mp (by rw [← hnone]; exact Bool.false_ne_true)
    obtain ⟨hnew, hothers⟩ := createToken_spec hL hD hcreate
    obtain ⟨hids, hrec, hothers'⟩ := receive_spec (l := { l with tree := d₁ }) hL hD hnew h
    exact ⟨hids, hrec, hothers.trans hothers'⟩

end Tupelo

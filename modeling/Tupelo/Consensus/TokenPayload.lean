import Tupelo.Infra.PathNodes
import Tupelo.Consensus.Names
import Tupelo.Consensus.ReceiveOrder

/-!
# The payload of a sent token

A sender gives the receiver the nodes on the path to the list of sends of the token, the node of
the send, and the tip: `TokenPayloadForTransaction`. The receiver finds out from them which token
was meant and which send. The token is one whose record is among the nodes, the send is an entry
of the list that is.

That gives back what the sender meant unless
* the local name has a colon, which `TokenNameFromString` takes for the end of the DID,
* another token of the tree has its record among the nodes, because it is the same record, or
* the list is so long that `string(i)` is the same for two indices, and the entry of the send is
  overwritten by a later one.
-/

namespace Tupelo

open Infra MerkleDag

/-! ## The sender -/

/-- `transactions.TokenPayload`. The leaves are given by the nodes they are the bytes of. -/
structure TokenPayload where
  transactionId : String
  tip : String
  proof : Option Proof
  leaves : List (Obj Cid)

/-- The payload of the receive, for the CID the tip decodes to. -/
def TokenPayload.receive (payload : TokenPayload) (tip : Cid) : ReceiveTokenPayload where
  sendTokenTransactionId := payload.transactionId
  tip := tip.bytes
  proof := payload.proof
  leaves := payload.leaves.map some

/-- `TokenName.IsCanonical`. -/
def TokenName.isCanonical (tn : TokenName) : Bool := tn.chainTreeDID ≠ "" && tn.localName ≠ ""

section Sender

variable {L : Ipld} (D : DagLib L)
  (nodesForPath : Dag L → List String → Except Fault (List (Obj Cid)))

/-- `TokenTransactionCidsForType`. -/
def tokenTransactionCidsForType (tree : Dag L) (tokenName : TokenName) (txType : String) :
    Except Fault (List Cid) := do
  let treePathForTokens ← wrapErr "error, unable to decode tree path for tokens: "
    (decodePath treePathForTokens)
  let path := treePathForTokens ++ [tokenName.string, txType]
  transactionCidsForPath D tree path

/-- `sendTxNodeMap["id"] == sendTokenTxId`. -/
def hasId (fields : List (String × Obj Cid)) (id : String) : Bool :=
  match fields.lookup "id" with
  | some (.str s) => s = id
  | _ => false

/-- The loop over the sends: the first that has the id, or `cid.Undef`. -/
def findSendTx (tree : Dag L) (sendTokenTxId : String) : List Cid → Except Fault Cid
  | [] => .ok Cid.undef
  | sendTxCid :: rest => do
    let sendTxNode ← D.get tree sendTxCid
    match sendTxNode with
    | .map sendTxNodeMap =>
      if hasId sendTxNodeMap sendTokenTxId then .ok sendTxCid
      else findSendTx tree sendTokenTxId rest
    | o => .error (.panic ("interface conversion: interface is " ++ goType o ++
        ", not map[string]interface \x7b\x7d"))

def allSendTokenNodes (chain : Dag L) (tokenName : TokenName) (sendNodeId : Cid) :
    Except Fault (List (Obj Cid)) := do
  let sendTokenNode ← wrapErr "error getting send token node: " (D.get chain sendNodeId)
  let path ← tokenPath tokenName
  let tokenSendNodes ← nodesForPath chain ("tree" :: path ++ [tokenSendLabel])
  return tokenSendNodes ++ [sendTokenNode]

def tokenPayloadForTransaction (chain : Dag L) (tokenName : TokenName) (sendTokenTxId : String)
    (sendTxProof : Option Proof) : Except Fault TokenPayload := do
  if !tokenName.isCanonical then
    .error (.error "token name must be canonical (i.e. start with chaintree DID)")
  else
    let tree ← DagLib.orError "error getting tree" (treeOf chain)
    let tokenSends ← tokenTransactionCidsForType D tree tokenName tokenSendLabel
    let tokenSendTx ← findSendTx D tree sendTokenTxId tokenSends
    if tokenSendTx = Cid.undef then
      .error (.error ("send token transaction not found for ID: " ++ sendTokenTxId))
    else
      let tokenNodes ← allSendTokenNodes D nodesForPath chain tokenName tokenSendTx
      return { transactionId := sendTokenTxId, tip := L.cidString chain.tip
               proof := sendTxProof, leaves := tokenNodes }

end Sender

/-! ## The map of the sends -/

/-- The entry at some index of the CID is not overwritten by that of a later index. -/
def EntryKept (cids : List Cid) (c : Cid) : Prop :=
  ∃ i, cids[i]? = some c ∧ ∀ j, i < j → j < cids.length → runeString j ≠ runeString i

theorem tokenSendsMap_concat (xs : List (Obj Cid)) (x : Obj Cid) :
    tokenSendsMap (xs ++ [x]) = Obj.setField (tokenSendsMap xs) (runeString xs.length) x := by
  unfold tokenSendsMap
  rw [List.zipIdx_append, List.foldl_append]
  simp

/-- An entry of the map is that of the last index with its key. -/
theorem lookup_tokenSendsMap {k : String} {v : Obj Cid} (xs : List (Obj Cid)) :
    (tokenSendsMap xs).lookup k = some v ↔
      ∃ i, xs[i]? = some v ∧ runeString i = k ∧
        ∀ j, i < j → j < xs.length → runeString j ≠ k := by
  induction xs using List.reverseRecOn with
  | nil =>
    constructor
    · intro h
      cases h
    · rintro ⟨i, hi, -⟩
      simp at hi
  | append_singleton xs x ih =>
    rw [tokenSendsMap_concat, List.length_append, List.length_singleton]
    by_cases hk : k = runeString xs.length
    · rw [hk, Obj.lookup_setField_self]
      constructor
      · intro h
        refine ⟨xs.length, by rw [List.getElem?_concat_length, h], rfl, ?_⟩
        intro j hj hlt
        omega
      · rintro ⟨i, hi, -, hlast⟩
        have hlt := (List.getElem?_eq_some_iff.mp hi).1
        rw [List.length_append, List.length_singleton] at hlt
        have hlen : i = xs.length := by
          by_contra hne
          exact hlast xs.length (by omega) (by omega) rfl
        rw [hlen, List.getElem?_concat_length] at hi
        exact hi
    · rw [Obj.lookup_setField_of_ne hk, ih]
      constructor
      · rintro ⟨i, hi, hik, hlast⟩
        have hlt := (List.getElem?_eq_some_iff.mp hi).1
        refine ⟨i, by rw [List.getElem?_append_left hlt, hi], hik, ?_⟩
        intro j hj hlt hjk
        by_cases hjl : j = xs.length
        · exact hk (by rw [← hjk, hjl])
        · exact hlast j hj (by omega) hjk
      · rintro ⟨i, hi, hik, hlast⟩
        have hlt := (List.getElem?_eq_some_iff.mp hi).1
        rw [List.length_append, List.length_singleton] at hlt
        have hlt' : i < xs.length := by
          by_contra hge
          exact hk (by rw [← hik, show i = xs.length by omega])
        rw [List.getElem?_append_left hlt'] at hi
        exact ⟨i, hi, hik, fun j hj hjl => hlast j hj (by omega)⟩

/-- A link is an entry of the map if one of its indices is not overwritten. -/
theorem entryKept_iff {cids : List Cid} {c : Cid} :
    EntryKept cids c ↔ ∃ k, (tokenSendsMap (cids.map .link)).lookup k = some (.link c) := by
  simp only [lookup_tokenSendsMap, List.getElem?_map, List.length_map]
  constructor
  · rintro ⟨i, hi, hlast⟩
    exact ⟨runeString i, i, by rw [hi, Option.map_some], rfl, hlast⟩
  · rintro ⟨k, i, hi, rfl, hlast⟩
    obtain ⟨c', hc', hlink⟩ := Option.map_eq_some_iff.mp hi
    rw [Obj.link.inj hlink] at hc'
    exact ⟨i, hc', hlast⟩

/-- The indices below the surrogates are told apart, also from the first of these. -/
theorem runeString_ne {i j : Nat} (hij : i < j) (hj : j ≤ 0xD800) :
    runeString j ≠ runeString i := by
  have hi : i.isValidChar := Or.inl (by omega)
  intro h
  have hchars := congrArg String.toList h
  simp only [runeString, String.toList_ofList, List.cons.injEq, and_true, if_pos hi] at hchars
  have hval := congrArg Char.toNat hchars
  rw [toNat_charOfNat hi] at hval
  split at hval
  · next hjv =>
    rw [toNat_charOfNat hjv] at hval
    omega
  · have hreplacement : (Char.ofNat 0xFFFD).toNat = 0xFFFD := by decide
    omega

theorem entryKept_of_length_le {cids : List Cid} {c : Cid} (hlen : cids.length ≤ 0xD801)
    (hc : c ∈ cids) : EntryKept cids c := by
  obtain ⟨i, hi⟩ := List.mem_iff_getElem?.mp hc
  exact ⟨i, hi, fun j hij hj => runeString_ne hij (by omega)⟩

/-! ## What the sender makes -/

/-- `NodesForPath` returns the nodes along the path. -/
def ReturnsNodes {L : Ipld} (nodesForPath : Dag L → List String → Except Fault (List (Obj Cid))) :
    Prop :=
  ∀ {d p nodes}, Dag.nodesForPath d p = some nodes → nodesForPath d p = .ok nodes

/-- The list of sends of a token, by the CIDs of the sends. -/
structure SendsAt {L : Ipld} (tree : Dag L) (tokenName : TokenName) (cids : List Cid)
    (sends : List TokenSend) : Prop where
  list : tree.find (recordPath tokenName.string ++ [tokenSendLabel]) =
    some (some (.list (cids.map .link)))
  nodes : List.Forall₂ (fun c s => tree.get c = some (TokenSend.toObj s)) cids sends

section Made

variable {L : Ipld} {D : DagLib L} {tree chain : Dag L} {tokenName : TokenName}
  {cids : List Cid} {sends : List TokenSend} {id : String} {send : TokenSend}

theorem hasId_toObj (s : TokenSend) (id : String) :
    hasId [("id", .str s.id), ("amount", .uint s.amount), ("destination", .str s.destination)] id =
      decide (s.id = id) := rfl

/-- The loop finds the first send with the id. -/
theorem findSendTx_eq (hC : D.Complete)
    (hnodes : List.Forall₂ (fun c s => tree.get c = some (TokenSend.toObj s)) cids sends)
    (hfirst : sends.find? (fun s => s.id = id) = some send) :
    findSendTx D tree id cids = .ok (L.objCid send.toObj) ∧ L.objCid send.toObj ∈ cids ∧
      tree.get (L.objCid send.toObj) = some send.toObj := by
  induction hnodes with
  | nil => cases hfirst
  | @cons c s cids sends hc _ ih =>
    have haddr : L.objCid s.toObj = c := tree.store.addressed hc
    rw [findSendTx, hC.get hc, ok_bind]
    simp only [TokenSend.toObj, hasId_toObj, decide_eq_true_eq]
    rw [List.find?_cons] at hfirst
    by_cases hid : s.id = id
    · rw [decide_eq_true hid] at hfirst
      obtain rfl := Option.some.inj hfirst
      rw [if_pos hid]
      refine ⟨by rw [← haddr]; rfl, ?_, ?_⟩
      · rw [← haddr]
        exact List.mem_cons_self
      · rw [← haddr] at hc
        exact hc
    · rw [decide_eq_false hid] at hfirst
      rw [if_neg hid]
      obtain ⟨hfind, hmem, hget⟩ := ih hfirst
      exact ⟨hfind, List.mem_cons_of_mem _ hmem, hget⟩

theorem tokenTransactionCidsForType_eq (hC : D.Complete)
    (hlist : tree.find (recordPath tokenName.string ++ [tokenSendLabel]) =
      some (some (.list (cids.map .link)))) :
    tokenTransactionCidsForType D tree tokenName tokenSendLabel = .ok cids := by
  unfold tokenTransactionCidsForType transactionCidsForPath
  rw [decodePath_treePathForTokens]
  have hresolve : D.resolve tree (["_tupelo", "tokens"] ++ [tokenName.string, tokenSendLabel]) =
      .ok (.list (cids.map .link), []) :=
    hC.resolve_found hlist
  simp only [wrapErr_ok, ok_bind, hresolve]
  exact mapM_castCid_links cids

/-- **The payload** has the nodes along the path to the list, and the first send with the id. -/
theorem tokenPayloadForTransaction_eq (hL : L.Faithful) (hC : D.Complete)
    {nodesForPath : Dag L → List String → Except Fault (List (Obj Cid))}
    (hN : ReturnsNodes nodesForPath) (htree : treeOf chain = some tree)
    (hcanonical : tokenName.isCanonical = true) (hsends : SendsAt tree tokenName cids sends)
    (hfirst : sends.find? (fun s => s.id = id) = some send) {nodes : List (Obj Cid)}
    (hnodes : Dag.nodesForPath chain
      ("tree" :: (recordPath tokenName.string ++ [tokenSendLabel])) = some nodes)
    (proof : Option Proof) :
    tokenPayloadForTransaction D nodesForPath chain tokenName id proof =
      .ok { transactionId := id, tip := L.cidString chain.tip, proof
            leaves := nodes ++ [send.toObj] } := by
  obtain ⟨hfind, -, hget⟩ := findSendTx_eq hC hsends.nodes hfirst
  obtain ⟨fields, c, -, -, hchain⟩ := treeOf_eq_some htree
  have hget' : chain.get (L.objCid send.toObj) = some send.toObj := by
    rw [hchain] at hget
    exact hget
  have hne : L.objCid send.toObj ≠ Cid.undef := hL.cidOf_ne_undef _
  unfold tokenPayloadForTransaction allSendTokenNodes
  simp only [hcanonical, Bool.not_true, Bool.false_eq_true, if_false, htree, DagLib.orError,
    ok_bind, tokenTransactionCidsForType_eq hC hsends.list, hfind, hne, hC.get hget', wrapErr_ok,
    tokenPath_eq]
  rw [List.cons_append, hN hnodes]
  rfl

end Made

/-! ## The receiver -/

section Found

variable {L : Ipld} {D : DagLib L} {senderDag : Dag L}

/-- The DAG of the leaves has exactly them, and its tip is the one of the payload. -/
theorem getSenderDagFromReceive_of_leaves (hL : L.Faithful) (hM : D.InMemory)
    (payload : TokenPayload) {root : Obj Cid} (hroot : root ∈ payload.leaves) :
    ∃ senderDag, getSenderDagFromReceive D (payload.receive (L.objCid root)) = .ok senderDag ∧
      senderDag.tip = L.objCid root ∧
      ∀ {c o}, senderDag.get c = some o ↔ o ∈ payload.leaves ∧ L.objCid o = c := by
  have hcast : L.cast (L.objCid root).bytes = .ok (L.objCid root) := hL.cast_cidOf _
  obtain ⟨first, others, hleaves⟩ : ∃ first others, payload.leaves = first :: others :=
    List.exists_cons_of_ne_nil (List.ne_nil_of_mem hroot)
  refine ⟨dagOf L (L.objCid root) payload.leaves, ?_, rfl, ?_⟩
  · have hdag := getSenderDagFromReceive_eq hL hM
      (show L.cast (payload.receive (L.objCid root)).tip = _ from hcast)
      (congrArg (List.map some) hleaves)
    rwa [← hleaves, if_pos (List.mem_map_of_mem hroot)] at hdag
  · intro c o
    unfold Dag.get dagOf
    rw [Store.nodes_foldl_add_iff hL.objCid_injective]
    simp [Store.empty]

/-- What is found in all orders is what all linked nodes have in common, and there is one. -/
theorem findFirstLinkedNode_forall_iff {γ : Type} {f : String × Obj Cid → γ} {x : γ}
    {fields : List (String × Obj Cid)} :
    (∀ ord : RangeOrder,
      (findFirstLinkedNode D senderDag (ord.range fields)).map f = .ok x) ↔
    (∃ key c node, fields.lookup key = some (.link c) ∧ D.get senderDag c = .ok node) ∧
      ∀ key c node, fields.lookup key = some (.link c) → D.get senderDag c = .ok node →
        f (key, node) = x := by
  have hfound : ∀ ord : RangeOrder, ∀ found,
      findFirstLinkedNode D senderDag (ord.range fields) = .ok found →
      ∃ c, fields.lookup found.1 = some (.link c) ∧ D.get senderDag c = .ok found.2 := by
    intro ord found h
    obtain ⟨c, hmem, hget⟩ := findFirstLinkedNode_ok h
    exact ⟨c, RangeOrder.lookup_of_mem_range hmem, hget⟩
  constructor
  · intro h
    constructor
    · obtain ⟨found, hok, -⟩ := map_eq_ok.mp (h RangeOrder.plain)
      obtain ⟨c, hkey, hget⟩ := hfound _ found hok
      exact ⟨found.1, c, found.2, hkey, hget⟩
    · intro key c node hkey hget
      obtain ⟨ord, rest, hrange⟩ := exists_range_cons (Obj.mem_entries_of_lookup hkey)
      obtain ⟨found, hok, hx⟩ := map_eq_ok.mp (h ord)
      have hfirst : findFirstLinkedNode D senderDag (ord.range fields) = .ok (key, node) := by
        rw [hrange]
        unfold findFirstLinkedNode
        simp only [List.findSome?_cons, hget, Except.toOption, Option.map_some]
      rw [← Except.ok.inj (hok.symm.trans hfirst)]
      exact hx
  · rintro ⟨⟨key, c, node, hkey, hget⟩, hall⟩ ord
    have hmem : (key, node) ∈ linkedNodes D senderDag (ord.range fields) := by
      refine List.mem_filterMap.mpr ⟨(key, .link c), ?_, ?_⟩
      · exact (ord.perm _).mem_iff.mpr (Obj.mem_entries_of_lookup hkey)
      · simp [hget, Except.toOption]
    cases hfind : findFirstLinkedNode D senderDag (ord.range fields) with
    | error e =>
      rw [findFirstLinkedNode_eq, List.head?_eq_some_head (List.ne_nil_of_mem hmem)] at hfind
      cases hfind
    | ok found =>
      obtain ⟨c', hkey', hget'⟩ := hfound ord found hfind
      exact congrArg Except.ok (hall _ _ _ hkey' hget')

theorem getTokenNameFromReceive_forall_iff {tokens : List (String × Obj Cid)}
    {tokenName : TokenName}
    (h : resolveAll D "tokens" senderDag ["tree", "_tupelo", "tokens"] = .ok (.map tokens)) :
    (∀ ord, getTokenNameFromReceive D ord senderDag = .ok tokenName) ↔
      ∀ ord : RangeOrder, (findFirstLinkedNode D senderDag (ord.range tokens)).map
        (fun found => tokenNameFromString found.1) = .ok tokenName := by
  refine forall_congr' fun ord => ?_
  rw [getTokenNameFromReceive_eq ord h, bind_eq_ok, map_eq_ok]
  simp only [codeErr_eq_ok, Except.ok.injEq]

theorem getSendTokenFromReceive_forall_iff {tokenName : TokenName} {list : List (Obj Cid)}
    {send : TokenSend}
    (h : resolveAll D "token sends" senderDag
      (["tree", "_tupelo", "tokens"] ++ [tokenName.string, tokenSendLabel]) = .ok (.list list)) :
    (∀ ord, getSendTokenFromReceive D ord senderDag tokenName = .ok send) ↔
      ∀ ord : RangeOrder, (findFirstLinkedNode D senderDag (ord.range (tokenSendsMap list))).map
        (fun found => decodeTokenSend found.2) = .ok (.ok send) := by
  refine forall_congr' fun ord => ?_
  rw [getSendTokenFromReceive_eq ord h, bind_eq_ok, map_eq_ok]
  simp only [codeErr_eq_ok]

/-- Two ranges, one over the tokens and one over the sends. -/
theorem selectSend_forall_iff {tokenName : TokenName} {send : TokenSend} :
    (∀ ranges, selectSend D ranges senderDag = .ok (tokenName, send)) ↔
      (∀ ord, getTokenNameFromReceive D ord senderDag = .ok tokenName) ∧
      ∀ ord, getSendTokenFromReceive D ord senderDag tokenName = .ok send := by
  constructor
  · intro h
    have hboth : ∀ ord ord', getTokenNameFromReceive D ord senderDag = .ok tokenName ∧
        getSendTokenFromReceive D ord' senderDag tokenName = .ok send := by
      intro ord ord'
      obtain ⟨tn, hname, hrest⟩ := bind_eq_ok.mp (h ⟨ord, ord'⟩)
      obtain ⟨s, hsend, hpair⟩ := bind_eq_ok.mp hrest
      obtain ⟨rfl, rfl⟩ := Prod.mk.inj (pure_eq_ok.mp hpair)
      exact ⟨hname, hsend⟩
    exact ⟨fun ord => (hboth ord ord).1, fun ord => (hboth ord ord).2⟩
  · rintro ⟨hname, hsend⟩ ranges
    unfold selectSend
    rw [hname, ok_bind, hsend]
    rfl

theorem resolveAll_of_find (hC : D.Complete) {path : List String} {o : Obj Cid}
    (h : senderDag.find path = some (some o)) (what : String) :
    resolveAll D what senderDag path = .ok o := by
  unfold resolveAll
  rw [hC.resolve_found h]
  rfl

end Found

/-! ## What is given back -/

section Names

variable {tokenName : TokenName}

/-- A canonical name is read only from its own string. -/
theorem eq_string_of_tokenNameFromString (hcanonical : tokenName.isCanonical = true)
    {key : String} (h : tokenNameFromString key = tokenName) : key = tokenName.string := by
  by_cases hcolon : ':' ∈ key.toList
  · rw [← h, string_tokenNameFromString hcolon]
  · rw [tokenNameFromString_of_not_mem hcolon] at h
    rw [← h] at hcanonical
    cases hcanonical

theorem key_of_toObj {s : TokenSend} {fields : List (String × Obj Cid)} (h : s.toObj = .map fields)
    {k : String} {v : Obj Cid} (hv : fields.lookup k = some v) :
    k ∈ ["id", "amount", "destination"] := by
  obtain rfl := Obj.map.inj h
  obtain ⟨before, after, hfields, -⟩ := List.lookup_eq_some_iff.mp hv
  have hmem := congrArg (fun fields => k ∈ fields.map Prod.fst) hfields
  exact hmem.mpr (by simp)

/-- The record of a send has none of the keys on the path to it. -/
theorem toObj_ne_of_key {s : TokenSend} {k : String}
    (hk : k ∈ "tree" :: (recordPath tokenName.string ++ [tokenSendLabel]))
    {fields : List (String × Obj Cid)} {v : Obj Cid} (hv : fields.lookup k = some v) :
    s.toObj ≠ .map fields := by
  intro h
  have hfield := key_of_toObj h hv
  simp only [recordPath, tokenSendLabel, List.cons_append, List.nil_append, List.mem_cons,
    List.not_mem_nil, or_false] at hk
  rcases hk with rfl | rfl | rfl | rfl | rfl
  · exact absurd hfield (by decide)
  · exact absurd hfield (by decide)
  · exact absurd hfield (by decide)
  · -- the name of the token has a colon
    have hcolon : ∀ field ∈ ["id", "amount", "destination"], ':' ∉ field.toList := by decide
    exact hcolon _ hfield (colon_mem_string tokenName)
  · exact absurd hfield (by decide)

end Names

section RoundTrip

variable {L : Ipld} {D : DagLib L} {chain tree senderDag : Dag L} {tokenName : TokenName}
  {cids : List Cid} {sends : List TokenSend} {send : TokenSend} {nodes : List (Obj Cid)}

/-- Another token whose record is among the leaves would be found as well. -/
def SoleToken (L : Ipld) (tokens : List (String × Obj Cid)) (tokenName : TokenName)
    (leaves : List (Obj Cid)) : Prop :=
  (∃ c, tokens.lookup tokenName.string = some (.link c)) ∧
    ∀ key c, tokens.lookup key = some (.link c) → c ∈ leaves.map L.objCid →
      key = tokenName.string

/-- The nodes on the path, and a send. -/
structure Shipped (chain senderDag : Dag L) (tokenName : TokenName) (send : TokenSend)
    (nodes : List (Obj Cid)) : Prop where
  tip : senderDag.tip = chain.tip
  path : chain.nodesForPath ("tree" :: (recordPath tokenName.string ++ [tokenSendLabel])) =
    some nodes
  get : ∀ {c o}, senderDag.get c = some o ↔ o ∈ nodes ++ [send.toObj] ∧ L.objCid o = c

/-- What the path leads to is read from the leaves. -/
theorem Shipped.find (h : Shipped chain senderDag tokenName send nodes) {p q : List String}
    (hpq : "tree" :: (recordPath tokenName.string ++ [tokenSendLabel]) = p ++ q) {x : Obj Cid}
    (hx : chain.find p = some (some x)) : senderDag.find p = some (some x) := by
  have hpath := h.path
  rw [hpq] at hpath
  refine Dag.find_of_nodesForPath h.tip hpath ?_ hx
  intro n hn
  exact h.get.mpr ⟨List.mem_append_left _ hn, rfl⟩

theorem Shipped.get_iff (h : Shipped chain senderDag tokenName send nodes) (hD : D.Sound)
    (hC : D.Complete) {c : Cid} {o : Obj Cid} :
    D.get senderDag c = .ok o ↔ o ∈ nodes ++ [send.toObj] ∧ L.objCid o = c :=
  ⟨fun hget => h.get.mp (hD.get hget), fun hmem => hC.get (h.get.mpr hmem)⟩

/-- **The name that is found**, whatever the order of the tokens. -/
theorem Shipped.name_iff (h : Shipped chain senderDag tokenName send nodes) (hD : D.Sound)
    (hC : D.Complete) (hcanonical : tokenName.isCanonical = true)
    {tokens : List (String × Obj Cid)}
    (htokens : chain.find ["tree", "_tupelo", "tokens"] = some (some (.map tokens))) :
    (∀ ord, getTokenNameFromReceive D ord senderDag = .ok tokenName) ↔
      ':' ∉ tokenName.localName.toList ∧
        SoleToken L tokens tokenName (nodes ++ [send.toObj]) := by
  have hfind : senderDag.find ["tree", "_tupelo", "tokens"] = some (some (.map tokens)) :=
    h.find (q := [tokenName.string, tokenSendLabel]) rfl htokens
  rw [getTokenNameFromReceive_forall_iff (resolveAll_of_find hC hfind "tokens"),
    findFirstLinkedNode_forall_iff]
  constructor
  · rintro ⟨⟨key, c, node, hkey, hnode⟩, hall⟩
    have hname := hall key c node hkey hnode
    obtain rfl := eq_string_of_tokenNameFromString hcanonical hname
    refine ⟨?_, ⟨c, hkey⟩, ?_⟩
    · rw [← hname]
      exact not_mem_localName _
    · intro key' c' hkey' hc'
      obtain ⟨node', hnode', haddr⟩ := List.mem_map.mp hc'
      exact eq_string_of_tokenNameFromString hcanonical
        (hall key' c' node' hkey' ((h.get_iff hD hC).mpr ⟨hnode', haddr⟩))
  · rintro ⟨hcolon, ⟨c, hc⟩, hsole⟩
    -- the record of the token is on the path
    obtain ⟨node, hnode, haddr⟩ := Dag.exists_mem_nodesForPath
      (p := ["tree", "_tupelo", "tokens"]) (q := [tokenSendLabel]) h.path htokens hc
    refine ⟨⟨tokenName.string, c, node, hc,
      (h.get_iff hD hC).mpr ⟨List.mem_append_left _ hnode, haddr⟩⟩, ?_⟩
    intro key c' node' hkey hget
    obtain ⟨hmem, haddr'⟩ := (h.get_iff hD hC).mp hget
    rw [hsole key c' hkey (List.mem_map.mpr ⟨node', hmem, haddr'⟩)]
    exact tokenNameFromString_string hcolon

/-- Of the sends only the one that was shipped is among the leaves. -/
theorem Shipped.eq_send (h : Shipped chain senderDag tokenName send nodes)
    {list : List (Obj Cid)}
    (hlist : chain.find ("tree" :: (recordPath tokenName.string ++ [tokenSendLabel])) =
      some (some (.list list))) {s : TokenSend} (hs : s.toObj ∈ nodes ++ [send.toObj]) :
    s.toObj = send.toObj := by
  rcases List.mem_append.mp hs with hs | hs
  · rcases Dag.mem_nodesForPath h.path hlist (by simp) hs with
      heq | ⟨k, hk, fields, v, heq, hv⟩
    · cases heq
    · exact absurd heq (toObj_ne_of_key hk hv)
  · exact List.mem_singleton.mp hs

theorem exists_send_of_mem
    (hnodes : List.Forall₂ (fun c s => chain.get c = some (TokenSend.toObj s)) cids sends)
    {c : Cid} (hc : c ∈ cids) : ∃ s, chain.get c = some (TokenSend.toObj s) := by
  induction hnodes with
  | nil => cases hc
  | cons hget _ ih =>
    rcases List.mem_cons.mp hc with rfl | hc
    · exact ⟨_, hget⟩
    · exact ih hc

/-- **The send that is found**, whatever the order of the map. -/
theorem Shipped.send_iff (h : Shipped chain senderDag tokenName send nodes) (hL : L.Faithful)
    (hD : D.Sound) (hC : D.Complete)
    (hlist : chain.find ("tree" :: (recordPath tokenName.string ++ [tokenSendLabel])) =
      some (some (.list (cids.map .link))))
    (hnodes : List.Forall₂ (fun c s => chain.get c = some (TokenSend.toObj s)) cids sends) :
    (∀ ord, getSendTokenFromReceive D ord senderDag tokenName = .ok send) ↔
      EntryKept cids (L.objCid send.toObj) := by
  have hfind : senderDag.find
      (["tree", "_tupelo", "tokens"] ++ [tokenName.string, tokenSendLabel]) =
      some (some (.list (cids.map .link))) := h.find (q := []) rfl hlist
  -- a linked entry that is found is the send
  have hfound : ∀ key c node,
      (tokenSendsMap (cids.map .link)).lookup key = some (.link c) →
      D.get senderDag c = .ok node → node = send.toObj ∧ c = L.objCid send.toObj := by
    intro key c node hkey hget
    obtain ⟨hmem, haddr⟩ := (h.get_iff hD hC).mp hget
    have hc : c ∈ cids := by simpa using mem_of_lookup_tokenSendsMap hkey
    obtain ⟨s, hs⟩ := exists_send_of_mem hnodes hc
    have hnode : node = s.toObj :=
      hL.objCid_injective (haddr.trans (chain.store.addressed hs).symm)
    rw [hnode] at hmem haddr
    rw [hnode, h.eq_send hlist hmem]
    rw [h.eq_send hlist hmem] at haddr
    exact ⟨rfl, haddr.symm⟩
  rw [getSendTokenFromReceive_forall_iff (resolveAll_of_find hC hfind "token sends"),
    findFirstLinkedNode_forall_iff, entryKept_iff]
  constructor
  · rintro ⟨⟨key, c, node, hkey, hget⟩, -⟩
    rw [(hfound key c node hkey hget).2] at hkey
    exact ⟨key, hkey⟩
  · rintro ⟨key, hkey⟩
    refine ⟨⟨key, _, send.toObj, hkey, ?_⟩, ?_⟩
    · exact (h.get_iff hD hC).mpr ⟨by simp, rfl⟩
    · intro key' c node hkey' hget
      rw [(hfound key' c node hkey' hget).1, decodeTokenSend_toObj]

/--
**When the receiver finds what the sender meant.** The sender makes the payload for the first send
with the id, and the receiver a DAG with the tip of the chain tree. The receiver finds the name of
the token and that send, in every order of the maps, exactly if the local name has no colon, the
token is linked and no other token's record is on the path to its sends, and the entry of the send
is not overwritten. It is not in a list of at most `0xD801` sends.
-/
theorem token_payload_round_trip_iff (hL : L.Faithful)
    (hcid : Function.Injective L.cidString) (hD : D.Sound) (hC : D.Complete) (hM : D.InMemory)
    {nodesForPath : Dag L → List String → Except Fault (List (Obj Cid))}
    (hN : ReturnsNodes nodesForPath) (htree : treeOf chain = some tree)
    (hcanonical : tokenName.isCanonical = true) {tokens : List (String × Obj Cid)}
    (htokens : tree.find ["_tupelo", "tokens"] = some (some (.map tokens)))
    (hsends : SendsAt tree tokenName cids sends) {id : String}
    (hfirst : sends.find? (fun s => s.id = id) = some send) (proof : Option Proof) :
    ∃ nodes payload,
      chain.nodesForPath ("tree" :: (recordPath tokenName.string ++ [tokenSendLabel])) =
        some nodes ∧
      tokenPayloadForTransaction D nodesForPath chain tokenName id proof = .ok payload ∧
      payload.tip = L.cidString chain.tip ∧
      ∀ tip, L.cidString tip = payload.tip → ∃ senderDag,
        getSenderDagFromReceive D (payload.receive tip) = .ok senderDag ∧
        senderDag.tip = chain.tip ∧
        ((∀ ranges, selectSend D ranges senderDag = .ok (tokenName, send)) ↔
          ':' ∉ tokenName.localName.toList ∧ SoleToken L tokens tokenName (nodes ++ [send.toObj]) ∧
            EntryKept cids (L.objCid send.toObj)) ∧
        (cids.length ≤ 0xD801 → EntryKept cids (L.objCid send.toObj)) := by
  have htokens' : chain.find ["tree", "_tupelo", "tokens"] = some (some (.map tokens)) := by
    rw [find_tree htree]
    exact htokens
  have hlist : chain.find ("tree" :: (recordPath tokenName.string ++ [tokenSendLabel])) =
      some (some (.list (cids.map .link))) := by
    rw [find_tree htree]
    exact hsends.list
  have hnodes' : List.Forall₂ (fun c s => chain.get c = some (TokenSend.toObj s)) cids sends := by
    obtain ⟨fields, c, -, -, rfl⟩ := treeOf_eq_some htree
    exact hsends.nodes
  obtain ⟨nodes, hpath⟩ := Dag.exists_nodesForPath hlist
  refine ⟨nodes, _, hpath,
    tokenPayloadForTransaction_eq hL hC hN htree hcanonical hsends hfirst hpath proof, rfl, ?_⟩
  intro tip htip
  -- the tip is that of the root, which is the first of the nodes
  obtain ⟨root, later, hroot, -, rfl⟩ := Dag.nodesForPath_cases hpath
  obtain rfl : tip = L.objCid root := (hcid htip).trans (chain.store.addressed hroot).symm
  set payload : TokenPayload :=
    { transactionId := id, tip := L.cidString chain.tip, proof
      leaves := root :: later ++ [send.toObj] }
  have hmem : root ∈ payload.leaves := by simp [payload]
  obtain ⟨senderDag, hdag, hdagTip, hget⟩ := getSenderDagFromReceive_of_leaves hL hM payload hmem
  have hdagTip : senderDag.tip = chain.tip := hdagTip.trans (chain.store.addressed hroot)
  have hshipped : Shipped chain senderDag tokenName send (root :: later) := ⟨hdagTip, hpath, hget⟩
  refine ⟨senderDag, hdag, hdagTip, ?_, ?_⟩
  · rw [selectSend_forall_iff, hshipped.name_iff hD hC hcanonical htokens',
      hshipped.send_iff hL hD hC hlist hnodes', and_assoc]
  · intro hlen
    exact entryKept_of_length_le hlen (findSendTx_eq hC hsends.nodes hfirst).2.1

end RoundTrip

/-! ### Two tokens with one record -/

namespace TokenPayloadExample

open DagExample ReceiveExample

noncomputable def sendsNode : Obj Cid := .list [link toB.toObj]

noncomputable def recordNode : Obj Cid := .map [("mints", .null),
  ("sends", link sendsNode), ("balance", .uint 0), ("receives", .null), ("monetaryPolicy", .null)]

/-- Tokens that all have the same record. -/
noncomputable def tokensNode (names : List String) : Obj Cid :=
  .map (names.map fun name => (name, link recordNode))

noncomputable def tupeloNode (names : List String) : Obj Cid :=
  .map [("tokens", link (tokensNode names))]

noncomputable def treeNode (names : List String) : Obj Cid :=
  .map [("_tupelo", link (tupeloNode names))]

noncomputable def chainNode (names : List String) : Obj Cid :=
  .map [("id", .str "did:tupelo:a"), ("tree", link (treeNode names))]

noncomputable def nodes (names : List String) : List (Obj Cid) :=
  [chainNode names, treeNode names, tupeloNode names, tokensNode names, recordNode, sendsNode,
    toB.toObj]

noncomputable def chain (names : List String) : Dag Ipld.inFull :=
  Dag.ofNodes (chainNode names) (nodes names).tail

noncomputable def tree (names : List String) : Dag Ipld.inFull :=
  { tip := Ipld.inFull.objCid (treeNode names), store := (chain names).store }

noncomputable def nodesForPath (d : Dag Ipld.inFull) (p : List String) :
    Except Fault (List (Obj Cid)) :=
  DagLib.orError "error resolving" (d.nodesForPath p)

def coin : TokenName := ⟨"did:tupelo:a", "coin"⟩

def cash : TokenName := ⟨"did:tupelo:a", "cash"⟩

section

variable {names : List String}

theorem follow_link {o : Obj Cid} (ho : o ∈ nodes names) :
    follow (chain names).store (link o) = some o :=
  (Store.nodes_foldl_add_iff Ipld.inFull_faithful.objCid_injective).mpr
    (Or.inl ⟨ho, rfl⟩)

/-- One step along a link of the chain tree. -/
theorem find_link {fields : List (String × Obj Cid)} {k : String} {o : Obj Cid}
    (hk : fields.lookup k = some (link o)) (ho : o ∈ nodes names) (rest : List String) :
    find (chain names).store (.map fields) (k :: rest) =
      find (chain names).store o rest := by
  rw [find_cons_of_lookup hk, follow_link ho]
  rfl

theorem treeOf_chain : treeOf (chain names) = some (tree names) := by
  have hroot : (chain names).get (chain names).tip = some (chainNode names) :=
    follow_link (o := chainNode names) (by simp [nodes])
  unfold treeOf
  rw [hroot]
  rfl

theorem find_tokens (rest : List String) :
    (tree names).find ("_tupelo" :: "tokens" :: rest) =
      find (chain names).store (tokensNode names) rest := by
  have htree : (tree names).store.nodes (tree names).tip = some (treeNode names) :=
    follow_link (o := treeNode names) (by simp [nodes])
  unfold Dag.find
  rw [htree, Option.bind_some]
  have htupelo : find (chain names).store (treeNode names)
      ("_tupelo" :: "tokens" :: rest) =
      find (chain names).store (tupeloNode names) ("tokens" :: rest) :=
    find_link rfl (by simp [nodes]) _
  exact htupelo.trans (find_link rfl (by simp [nodes]) rest)

end

/-- The list of the sends of the coin. -/
theorem sendsAt_coin :
    SendsAt (tree [coin.string]) coin [Ipld.inFull.objCid toB.toObj] [toB] where
  list := by
    have hrecord : find (chain [coin.string]).store (tokensNode [coin.string])
        [coin.string, tokenSendLabel] =
        find (chain [coin.string]).store recordNode [tokenSendLabel] :=
      find_link (by simp) (by simp [nodes]) _
    have hlist : find (chain [coin.string]).store recordNode [tokenSendLabel] =
        find (chain [coin.string]).store sendsNode [] :=
      find_link rfl (by simp [nodes]) []
    exact (find_tokens _).trans (hrecord.trans (hlist.trans (find_nil _ _)))
  nodes := by
    have hsend : (chain [coin.string]).get (Ipld.inFull.objCid toB.toObj) = some toB.toObj :=
      follow_link (by simp [nodes])
    exact List.Forall₂.cons hsend List.Forall₂.nil

theorem token_payload_round_trip_example : ∃ payload senderDag,
    tokenPayloadForTransaction (DagLib.std Ipld.inFull) nodesForPath (chain [coin.string]) coin
      "1" none = .ok payload ∧
    getSenderDagFromReceive (DagLib.std Ipld.inFull)
      (payload.receive (chain [coin.string]).tip) = .ok senderDag ∧
    ∀ ranges, selectSend (DagLib.std Ipld.inFull) ranges senderDag = .ok (coin, toB) := by
  have hN : ReturnsNodes nodesForPath := fun h => DagLib.orError_of_eq_some h
  have hfirst : [toB].find? (fun s => s.id = "1") = some toB := rfl
  obtain ⟨nodes, payload, -, hpayload, htip, hreceive⟩ := token_payload_round_trip_iff
    Ipld.inFull_faithful Ipld.inFull_cidString_injective (DagLib.std_sound _)
    (DagLib.std_complete _) (std_inMemory _) hN treeOf_chain (by decide)
    ((find_tokens []).trans (find_nil _ _)) sendsAt_coin hfirst none
  obtain ⟨senderDag, hdag, -, hiff, hkept⟩ := hreceive (chain [coin.string]).tip htip.symm
  have hsole : SoleToken Ipld.inFull ([coin.string].map fun name => (name, link recordNode)) coin
      (nodes ++ [toB.toObj]) := by
    refine ⟨⟨Ipld.inFull.objCid recordNode, ?_⟩, ?_⟩
    · rw [List.map_cons, List.lookup_cons, beq_self_eq_true]
      rfl
    · intro key c hkey _
      by_contra hne
      rw [List.map_cons, List.lookup_cons, beq_eq_false_iff_ne.mpr hne] at hkey
      cases hkey
  exact ⟨payload, senderDag, hpayload, hdag, hiff.mpr ⟨by decide, hsole, hkept (by decide)⟩⟩

/-- The coin is sent. The receiver that comes to the cash first takes it for cash. -/
theorem other_token_found : ∃ payload senderDag,
    tokenPayloadForTransaction (DagLib.std Ipld.inFull) nodesForPath
      (chain [coin.string, cash.string]) coin "1" none = .ok payload ∧
    getSenderDagFromReceive (DagLib.std Ipld.inFull)
      (payload.receive (chain [coin.string, cash.string]).tip) = .ok senderDag ∧
    selectSend (DagLib.std Ipld.inFull) Ranges.plain senderDag = .ok (coin, toB) ∧
    selectSend (DagLib.std Ipld.inFull) reversed senderDag = .ok (cash, toB) := by
  have hrun : (tokenPayloadForTransaction (DagLib.std Ipld.inFull) nodesForPath
      (chain [coin.string, cash.string]) coin "1" none).toOption.bind (fun payload =>
        (getSenderDagFromReceive (DagLib.std Ipld.inFull)
          (payload.receive (chain [coin.string, cash.string]).tip)).toOption.map fun senderDag =>
            ((selectSend (DagLib.std Ipld.inFull) Ranges.plain senderDag).toOption,
              (selectSend (DagLib.std Ipld.inFull) reversed senderDag).toOption)) =
      some (some (coin, toB), some (cash, toB)) := by decide +kernel
  obtain ⟨payload, hpayload, hrun⟩ := Option.bind_eq_some_iff.mp hrun
  obtain ⟨senderDag, hdag, hrun⟩ := Option.map_eq_some_iff.mp hrun
  obtain ⟨hplain, hreversed⟩ := Prod.mk.inj hrun
  exact ⟨payload, senderDag, toOption_eq_some.mp hpayload, toOption_eq_some.mp hdag,
    toOption_eq_some.mp hplain, toOption_eq_some.mp hreversed⟩

end TokenPayloadExample

end Tupelo

import Tupelo.Consensus.Balances
import Tupelo.Infra.Lists
import Tupelo.Infra.Outcomes

/-!
# Receives and the order of maps and leaves

A receive is validated and run from the leaves of its payload. Both times the token and the send
are the first linked nodes that are found, over maps that Go ranges over in any order. The root of
the DAG of the leaves is the tip or, if that is not among them, the leaf that comes first.

`received` lists what may be found in all these orders. Two signers, or two calls of one signer,
find the same in every order if and only if it has one element (`receive_order_independent`). So
two tokens with one name, or two sends with one content, do no harm.
-/

namespace Tupelo

open Infra MerkleDag

section

variable {L : Ipld} (D : DagLib L)
variable {rt rt' : ReceiveTokenPayload} {tipCid : Cid}

/-! ## What may be found -/

/-- The entries whose nodes are in the DAG, with the nodes. -/
def linkedNodes (tree : Dag L) (entries : List (String × Obj Cid)) : List (String × Obj Cid) :=
  entries.filterMap fun e =>
    match e.2 with
    | .link nodeCid => (D.get tree nodeCid).toOption.map fun node => (e.1, node)
    | _ => none

/-- The first linked node may be any of them. -/
def linkedOutcomes (tree : Dag L) (fields : List (String × Obj Cid)) :
    List (Except Fault (String × Obj Cid)) :=
  match linkedNodes D tree (Obj.entries fields) with
  | [] => [.error (.error "no linked nodes were found in the DAG")]
  | found => found.map .ok

def tokenOutcomes (senderDag : Dag L) : List (Except Fault TokenName) :=
  match resolveAll D "tokens" senderDag ["tree", "_tupelo", "tokens"] with
  | .ok (.map tokens) => (linkedOutcomes D senderDag tokens).map fun found => do
    let (tokenName, _) ← codeErr 999 ("error finding token node: " ++ ·) found
    return tokenNameFromString tokenName
  | .ok _ => [.error (.coded 999 "error casting tokens map")]
  | .error e => [.error e]

def sendOutcomes (senderDag : Dag L) (tokenName : TokenName) : List (Except Fault TokenSend) :=
  match resolveAll D "token sends" senderDag
      (["tree", "_tupelo", "tokens"] ++ [tokenName.string, tokenSendLabel]) with
  | .ok (.list sends) => (linkedOutcomes D senderDag (tokenSendsMap sends)).map fun found => do
    let (_, node) ← codeErr 999 ("error find token send node: " ++ ·) found
    codeErr 999 ("error decoding token send node: " ++ ·) (decodeTokenSend node)
  | .ok _ => [.error (.coded 999 "error casting token sends")]
  | .error e => [.error e]

/-- The tokens and sends that may be selected from a DAG. -/
def selections (senderDag : Dag L) : List (Except Fault (TokenName × TokenSend)) :=
  bindOutcomes (tokenOutcomes D senderDag) fun tokenName =>
    (sendOutcomes D senderDag tokenName).map fun send => send.map fun s => (tokenName, s)

/-- The DAG of the nodes with a root. -/
def dagOf (L : Ipld) (root : Cid) (nodes : List (Obj Cid)) : Dag L :=
  { tip := root, store := nodes.foldl Store.add Store.empty }

/-- The DAGs that the leaves may make. -/
def senderDags (rt : ReceiveTokenPayload) : List (Except Fault (Dag L)) :=
  match codeErr 999 ("error casting tip to CID: " ++ ·) (L.cast rt.tip) with
  | .error e => [.error e]
  | .ok tipCid =>
    if !rt.leaves.all Option.isSome then [.error (.coded 999 "error decoding CBOR node: ")]
    else
      match rt.leaves.filterMap id with
      | [] => [codeErr 999 ("error recreating sender leaves DAG: " ++ ·) (D.newDagWithNodes [])]
      | nodes =>
        let cids := nodes.map L.objCid
        (if tipCid ∈ cids then [tipCid] else cids).map fun root => .ok (dagOf L root nodes)

/-- What a payload may be found to be about. -/
def received (rt : ReceiveTokenPayload) : List (Except Fault (TokenName × TokenSend)) :=
  bindOutcomes (senderDags D rt) (selections D)

/-- Every order leads to the same token and send, or to the same error. -/
def OneSelection (rt : ReceiveTokenPayload) : Prop :=
  ∀ x ∈ received D rt, ∀ y ∈ received D rt, x = y

/-- What a payload is found to be about. -/
def selected (ranges : Ranges) (rt : ReceiveTokenPayload) :
    Except Fault (TokenName × TokenSend) :=
  getSenderDagFromReceive D rt >>= selectSend D ranges

variable {D} {tree : Dag L}

/-! ## The first linked node -/

theorem findFirstLinkedNode_eq (entries : List (String × Obj Cid)) :
    findFirstLinkedNode D tree entries =
      match (linkedNodes D tree entries).head? with
      | some found => .ok found
      | none => .error (.error "no linked nodes were found in the DAG") := by
  unfold linkedNodes
  rw [List.head?_filterMap]
  rfl

theorem linkedNodes_perm (D : DagLib L) (tree : Dag L) {es es' : List (String × Obj Cid)}
    (h : es.Perm es') : (linkedNodes D tree es).Perm (linkedNodes D tree es') := h.filterMap _

instance : Nonempty RangeOrder := ⟨RangeOrder.plain⟩

open Classical in
/-- A map may be ranged over from any entry on. -/
theorem exists_range_cons {fields : List (String × Obj Cid)} {e : String × Obj Cid}
    (he : e ∈ Obj.entries fields) : ∃ (ord : RangeOrder) (rest : List (String × Obj Cid)),
      ord.range fields = e :: rest := by
  refine ⟨⟨fun es => if e ∈ es then e :: es.erase e else es, ?_⟩,
    (Obj.entries fields).erase e, ?_⟩
  · intro es
    split
    · next h => exact (List.perm_cons_erase h).symm
    · exact List.Perm.refl es
  · exact if_pos he

theorem outcomes_findFirstLinkedNode (fields : List (String × Obj Cid)) :
    Outcomes (fun ord : RangeOrder => findFirstLinkedNode D tree (ord.range fields))
      (linkedOutcomes D tree fields) := by
  have hperm (ord : RangeOrder) := linkedNodes_perm D tree (ord.perm (Obj.entries fields))
  intro x
  unfold linkedOutcomes
  cases hlinked : linkedNodes D tree (Obj.entries fields) with
  | nil =>
    have hfind (ord : RangeOrder) : findFirstLinkedNode D tree (ord.range fields) =
        .error (.error "no linked nodes were found in the DAG") := by
      have hnil := hperm ord
      rw [hlinked, List.perm_nil] at hnil
      rw [findFirstLinkedNode_eq, RangeOrder.range, hnil]
      rfl
    simp only [hfind, List.mem_singleton, exists_const]
    exact eq_comm
  | cons first others =>
    rw [List.mem_map]
    constructor
    · rintro ⟨found, hfound, rfl⟩
      rw [← hlinked] at hfound
      obtain ⟨e, he, hnode⟩ := List.mem_filterMap.mp hfound
      obtain ⟨ord, rest, hrange⟩ := exists_range_cons he
      refine ⟨ord, ?_⟩
      show findFirstLinkedNode D tree (ord.range fields) = .ok found
      rw [hrange, findFirstLinkedNode_eq]
      simp only [linkedNodes, List.filterMap_cons, hnode, List.head?_cons]
    · rintro ⟨ord, rfl⟩
      simp only [findFirstLinkedNode_eq, RangeOrder.range]
      cases hhead : (linkedNodes D tree (ord.order (Obj.entries fields))).head? with
      | none =>
        have hnil := hperm ord
        rw [List.head?_eq_none_iff.mp hhead, hlinked] at hnil
        cases hnil.nil_eq
      | some found =>
        refine ⟨found, ?_, rfl⟩
        rw [← hlinked]
        exact (hperm ord).mem_iff.mp (List.mem_of_mem_head? hhead)

/-! ## The selection -/

theorem getTokenNameFromReceive_eq {senderDag : Dag L} {tokens : List (String × Obj Cid)}
    (ord : RangeOrder)
    (h : resolveAll D "tokens" senderDag ["tree", "_tupelo", "tokens"] = .ok (.map tokens)) :
    getTokenNameFromReceive D ord senderDag =
      codeErr 999 ("error finding token node: " ++ ·)
        (findFirstLinkedNode D senderDag (ord.range tokens)) >>=
          fun found => .ok (tokenNameFromString found.1) := by
  unfold getTokenNameFromReceive
  rw [tokensPath_eq, ok_bind, h]
  rfl

theorem getSendTokenFromReceive_eq {senderDag : Dag L} {tokenName : TokenName}
    {sends : List (Obj Cid)} (ord : RangeOrder)
    (h : resolveAll D "token sends" senderDag
      (["tree", "_tupelo", "tokens"] ++ [tokenName.string, tokenSendLabel]) = .ok (.list sends)) :
    getSendTokenFromReceive D ord senderDag tokenName =
      codeErr 999 ("error find token send node: " ++ ·)
        (findFirstLinkedNode D senderDag (ord.range (tokenSendsMap sends))) >>=
          fun found => codeErr 999 ("error decoding token send node: " ++ ·)
            (decodeTokenSend found.2) := by
  unfold getSendTokenFromReceive
  rw [tokensPath_eq, ok_bind, h]
  rfl

theorem outcomes_getTokenNameFromReceive (D : DagLib L) (senderDag : Dag L) :
    Outcomes (fun ord => getTokenNameFromReceive D ord senderDag) (tokenOutcomes D senderDag) := by
  unfold tokenOutcomes
  cases hres : resolveAll D "tokens" senderDag ["tree", "_tupelo", "tokens"] with
  | error e =>
    simp only [getTokenNameFromReceive, tokensPath_eq, ok_bind, hres]
    exact outcomes_const _
  | ok o =>
    cases o with
    | map tokens =>
      simp only [getTokenNameFromReceive_eq _ hres]
      exact (outcomes_findFirstLinkedNode tokens).map _
    | _ =>
      simp only [getTokenNameFromReceive, tokensPath_eq, ok_bind, hres]
      exact outcomes_const _

theorem outcomes_getSendTokenFromReceive (D : DagLib L) (senderDag : Dag L)
    (tokenName : TokenName) :
    Outcomes (fun ord => getSendTokenFromReceive D ord senderDag tokenName)
      (sendOutcomes D senderDag tokenName) := by
  unfold sendOutcomes
  cases hres : resolveAll D "token sends" senderDag
      (["tree", "_tupelo", "tokens"] ++ [tokenName.string, tokenSendLabel]) with
  | error e =>
    simp only [getSendTokenFromReceive, tokensPath_eq, ok_bind, hres]
    exact outcomes_const _
  | ok o =>
    cases o with
    | list sends =>
      simp only [getSendTokenFromReceive_eq _ hres]
      exact (outcomes_findFirstLinkedNode (tokenSendsMap sends)).map _
    | _ =>
      simp only [getSendTokenFromReceive, tokensPath_eq, ok_bind, hres]
      exact outcomes_const _

/-- **Every token and every send of it that is linked may be selected**, and nothing else. -/
theorem outcomes_selectSend (D : DagLib L) (senderDag : Dag L) :
    Outcomes (fun ranges => selectSend D ranges senderDag) (selections D senderDag) := by
  have hsend (tokenName : TokenName) : Outcomes (fun ord =>
      (getSendTokenFromReceive D ord senderDag tokenName).map fun s => (tokenName, s)) _ :=
    (outcomes_getSendTokenFromReceive D senderDag tokenName).map _
  have hboth := (outcomes_getTokenNameFromReceive D senderDag).bind fun tokenName _ =>
    hsend tokenName
  refine hboth.comp (fun ranges : Ranges => (ranges.tokens, ranges.sends)) ?_
  rintro ⟨tokens, sends⟩
  exact ⟨⟨tokens, sends⟩, rfl⟩

/-! ## The leaves -/

/-- A DAG in memory can be made of any nodes. -/
def DagLib.InMemory (D : DagLib L) : Prop :=
  ∀ root rest, D.newDagWithNodes (root :: rest) = .ok (Dag.ofNodes root rest)

theorem dagOf_perm (hL : L.Faithful) (root : Cid) {nodes nodes' : List (Obj Cid)}
    (h : nodes.Perm nodes') : dagOf L root nodes = dagOf L root nodes' := by
  unfold dagOf
  rw [Store.foldl_add_perm hL.objCid_injective h]

/-- The loop over leaves that are nodes, from those that have been placed. -/
theorem foldlM_leaves (tipCid : Cid) : ∀ nodes placed : List (Obj Cid),
    (nodes.map some).foldlM (placeLeaf (L := L) tipCid) placed =
      .ok ((nodes.filter fun o => L.objCid o = tipCid).reverse ++
        (placed ++ nodes.filter fun o => !decide (L.objCid o = tipCid)))
  | [], placed => by simp [pure, Except.pure]
  | o :: nodes, placed => by
    rw [List.map_cons, List.foldlM_cons, placeLeaf, ok_bind, foldlM_leaves tipCid nodes]
    by_cases htip : L.objCid o = tipCid
    · simp [htip]
    · simp [htip]

theorem orderLeaves_map (tipCid : Cid) (nodes : List (Obj Cid)) :
    orderLeaves (L := L) tipCid (nodes.map some) =
      .ok ((nodes.filter fun o => L.objCid o = tipCid).reverse ++
        nodes.filter fun o => !decide (L.objCid o = tipCid)) :=
  foldlM_leaves tipCid nodes []

/-- A leaf that is not CBOR. -/
theorem foldlM_leaves_error (tipCid : Cid) : ∀ {leaves : List (Option (Obj Cid))},
    leaves.all Option.isSome = false → ∀ placed : List (Obj Cid),
      leaves.foldlM (placeLeaf (L := L) tipCid) placed =
        .error (.coded 999 "error decoding CBOR node: ")
  | [], h, _ => by cases h
  | none :: _, _, _ => rfl
  | some _ :: leaves, h, _ =>
    foldlM_leaves_error tipCid (show leaves.all Option.isSome = false from h) _

theorem orderLeaves_error (tipCid : Cid) {leaves : List (Option (Obj Cid))}
    (h : leaves.all Option.isSome = false) :
    orderLeaves (L := L) tipCid leaves = .error (.coded 999 "error decoding CBOR node: ") :=
  foldlM_leaves_error tipCid h []

/-- The root is the tip, if that is among the nodes, and otherwise the first node. -/
theorem newDagWithNodes_ordered (hL : L.Faithful) (hD : D.InMemory) (tipCid : Cid)
    (first : Obj Cid) (others : List (Obj Cid)) :
    D.newDagWithNodes (((first :: others).filter fun o => L.objCid o = tipCid).reverse ++
      (first :: others).filter fun o => !decide (L.objCid o = tipCid)) =
    .ok (dagOf L (if tipCid ∈ (first :: others).map L.objCid then tipCid else L.objCid first)
      (first :: others)) := by
  generalize hnodes : first :: others = nodes
  have hperm : ((nodes.filter fun o => L.objCid o = tipCid).reverse ++
      nodes.filter fun o => !decide (L.objCid o = tipCid)).Perm nodes :=
    ((List.reverse_perm _).append_right _).trans (List.filter_append_perm _ _)
  by_cases htip : tipCid ∈ nodes.map L.objCid
  · rw [if_pos htip]
    cases hrev : (nodes.filter fun o => L.objCid o = tipCid).reverse with
    | nil =>
      obtain ⟨o, ho, hcid⟩ := List.mem_map.mp htip
      have hnil := List.reverse_eq_nil_iff.mp hrev
      exact absurd (by simpa using hcid) (List.filter_eq_nil_iff.mp hnil o ho)
    | cons root rest =>
      have hroot : root ∈ nodes.filter fun o => L.objCid o = tipCid := by
        rw [← List.mem_reverse, hrev]
        exact List.mem_cons_self
      rw [hrev, List.cons_append] at hperm
      rw [List.cons_append, hD, ← dagOf_perm hL tipCid hperm]
      unfold Dag.ofNodes dagOf
      rw [of_decide_eq_true (List.mem_filter.mp hroot).2]
  · have hnone : ∀ o ∈ nodes, ¬ L.objCid o = tipCid :=
      fun o ho hcid => htip (List.mem_map.mpr ⟨o, ho, hcid⟩)
    rw [if_neg htip, List.filter_eq_nil_iff.mpr (by simpa using hnone),
      List.filter_eq_self.mpr (by simpa using hnone), ← hnodes]
    exact hD first others

theorem getSenderDagFromReceive_eq (hL : L.Faithful) (hD : D.InMemory)
    (htip : L.cast rt.tip = .ok tipCid) {first : Obj Cid} {others : List (Obj Cid)}
    (hleaves : rt.leaves = (first :: others).map some) :
    getSenderDagFromReceive D rt =
      .ok (dagOf L (if tipCid ∈ (first :: others).map L.objCid then tipCid else L.objCid first)
        (first :: others)) := by
  unfold getSenderDagFromReceive
  rw [htip, codeErr_ok, ok_bind, hleaves, orderLeaves_map, ok_bind,
    newDagWithNodes_ordered hL hD, codeErr_ok]

/-- Leaves that are all nodes. -/
theorem eq_map_filterMap {leaves : List (Option (Obj Cid))}
    (h : leaves.all Option.isSome = true) : leaves = (leaves.filterMap id).map some := by
  induction leaves with
  | nil => rfl
  | cons leaf leaves ih =>
    cases leaf with
    | none => cases h
    | some o => exact congrArg (some o :: ·) (ih h)

/-- The payload of another signer, whose leaves come in another order. -/
structure Reordered (rt rt' : ReceiveTokenPayload) : Prop where
  leaves : rt.leaves.Perm rt'.leaves
  rest : rt' = { rt with leaves := rt'.leaves }

/-- What is made of leaves that are all nodes, whatever their order. -/
theorem Reordered.senderDag (hL : L.Faithful) (hD : D.InMemory) (h : Reordered rt rt')
    (htip : L.cast rt.tip = .ok tipCid) (hsome : rt.leaves.all Option.isSome = true)
    {first' : Obj Cid} {others' : List (Obj Cid)}
    (hnodes' : rt'.leaves.filterMap id = first' :: others') :
    getSenderDagFromReceive D rt' = .ok (dagOf L
      (if tipCid ∈ (rt.leaves.filterMap id).map L.objCid then tipCid else L.objCid first')
      (rt.leaves.filterMap id)) := by
  have hnodes : (first' :: others').Perm (rt.leaves.filterMap id) := by
    rw [← hnodes']
    exact (h.leaves.filterMap id).symm
  have hsome' : rt'.leaves.all Option.isSome = true := by
    rw [List.all_eq_true] at hsome ⊢
    exact fun leaf hleaf => hsome leaf (h.leaves.mem_iff.mpr hleaf)
  have hleaves' := eq_map_filterMap hsome'
  rw [hnodes'] at hleaves'
  have htip' : L.cast rt'.tip = .ok tipCid := by rw [h.rest, htip]
  rw [getSenderDagFromReceive_eq hL hD htip' hleaves', dagOf_perm hL _ hnodes]
  simp only [(hnodes.map L.objCid).mem_iff]

theorem Reordered.refl (rt : ReceiveTokenPayload) : Reordered rt rt := ⟨List.Perm.refl _, rfl⟩

/-- Any leaf may come first. -/
theorem exists_reordered_first {nodes : List (Obj Cid)} (hleaves : rt.leaves = nodes.map some)
    {o : Obj Cid} (ho : o ∈ nodes) :
    ∃ rt' others', Reordered rt rt' ∧ rt'.leaves.filterMap id = o :: others' := by
  obtain ⟨before, after, rfl⟩ := List.append_of_mem ho
  refine ⟨{ rt with leaves := (o :: (before ++ after)).map some }, before ++ after, ⟨?_, rfl⟩, ?_⟩
  · rw [hleaves]
    exact List.perm_middle.map some
  · simp

theorem Reordered.exists_cons (h : Reordered rt rt') {first : Obj Cid} {others : List (Obj Cid)}
    (hnodes : rt.leaves.filterMap id = first :: others) :
    ∃ first' others', rt'.leaves.filterMap id = first' :: others' ∧ first' ∈ first :: others := by
  have hperm := h.leaves.filterMap id
  rw [hnodes] at hperm
  cases hnodes' : rt'.leaves.filterMap id with
  | nil =>
    rw [hnodes'] at hperm
    cases hperm.symm.nil_eq
  | cons first' others' =>
    rw [hnodes'] at hperm
    exact ⟨first', others', rfl, hperm.mem_iff.mpr List.mem_cons_self⟩

/-- Without nodes there is one order. -/
theorem Reordered.eq_of_nil (h : Reordered rt rt') (hnil : rt'.leaves = []) : rt' = rt := by
  have hleaves : rt.leaves = [] := by simpa [hnil] using h.leaves
  rw [h.rest, hnil, ← hleaves]

/-- Something that all orders come to. -/
theorem Reordered.senderDag_const (h : Reordered rt rt')
    (hbad : (∃ e, L.cast rt.tip = .error e) ∨ rt.leaves.all Option.isSome = false ∨
      rt.leaves = []) : getSenderDagFromReceive D rt' = getSenderDagFromReceive D rt := by
  have htips : rt'.tip = rt.tip := by rw [h.rest]
  rcases hbad with ⟨e, htip⟩ | hsome | hnil
  · unfold getSenderDagFromReceive
    rw [htips, htip]
    cases e <;> rfl
  · have hsome' : rt'.leaves.all Option.isSome = false := by
      rw [List.all_eq_false] at hsome ⊢
      obtain ⟨leaf, hleaf, hnone⟩ := hsome
      exact ⟨leaf, h.leaves.mem_iff.mp hleaf, hnone⟩
    unfold getSenderDagFromReceive
    simp only [htips, orderLeaves_error _ hsome, orderLeaves_error _ hsome']
  · rw [h.eq_of_nil (by simpa [hnil] using h.leaves)]

instance (rt : ReceiveTokenPayload) : Nonempty { rt' // Reordered rt rt' } :=
  ⟨⟨rt, Reordered.refl rt⟩⟩

instance : Nonempty Ranges := ⟨Ranges.plain⟩

/-- **The root may be the tip**, or any leaf if the tip is none of them. -/
theorem outcomes_getSenderDagFromReceive (hL : L.Faithful) (hD : D.InMemory)
    (rt : ReceiveTokenPayload) :
    Outcomes (fun rt' : { rt' // Reordered rt rt' } => getSenderDagFromReceive D rt'.1)
      (senderDags D rt) := by
  have hconst (hbad : (∃ e, L.cast rt.tip = .error e) ∨ rt.leaves.all Option.isSome = false ∨
      rt.leaves = []) : Outcomes (fun rt' : { rt' // Reordered rt rt' } =>
        getSenderDagFromReceive D rt'.1) [getSenderDagFromReceive D rt] := by
    simp only [fun rt' : { rt' // Reordered rt rt' } => rt'.2.senderDag_const (D := D) hbad]
    exact outcomes_const _
  unfold senderDags
  cases htip : L.cast rt.tip with
  | error e =>
    have hdag := hconst (Or.inl ⟨e, htip⟩)
    rw [getSenderDagFromReceive, htip] at hdag
    cases e <;> exact hdag
  | ok tipCid =>
    cases hsome : rt.leaves.all Option.isSome with
    | false =>
      have hdag := hconst (Or.inr (Or.inl hsome))
      rw [getSenderDagFromReceive, htip, codeErr_ok, ok_bind,
        orderLeaves_error tipCid hsome] at hdag
      exact hdag
    | true =>
      have hleaves := eq_map_filterMap hsome
      cases hnodes : rt.leaves.filterMap id with
      | nil =>
        rw [hnodes, List.map_nil] at hleaves
        have hdag := hconst (Or.inr (Or.inr hleaves))
        rw [getSenderDagFromReceive, htip, hleaves] at hdag
        exact hdag
      | cons first others =>
        have hdags {rt' : ReceiveTokenPayload} (h : Reordered rt rt') {first' : Obj Cid}
            {others' : List (Obj Cid)} (hnodes' : rt'.leaves.filterMap id = first' :: others') :=
          h.senderDag hL hD htip hsome hnodes'
        rw [hnodes] at hdags hleaves
        intro x
        simp only [codeErr_ok, Bool.not_true, Bool.false_eq_true, if_false]
        refine List.mem_map.trans ?_
        constructor
        · rintro ⟨root, hroot, rfl⟩
          by_cases hmem : tipCid ∈ (first :: others).map L.objCid
          · rw [if_pos hmem, List.mem_singleton] at hroot
            refine ⟨⟨rt, Reordered.refl rt⟩, (hdags (Reordered.refl rt) hnodes).trans ?_⟩
            rw [if_pos hmem, hroot]
          · rw [if_neg hmem] at hroot
            obtain ⟨o, ho, rfl⟩ := List.mem_map.mp hroot
            obtain ⟨rt', others', h, hnodes'⟩ := exists_reordered_first hleaves ho
            refine ⟨⟨rt', h⟩, (hdags h hnodes').trans ?_⟩
            rw [if_neg hmem]
        · rintro ⟨⟨rt', h⟩, rfl⟩
          obtain ⟨first', others', hnodes', hfirst'⟩ := h.exists_cons hnodes
          refine ⟨_, ?_, (hdags h hnodes').symm⟩
          split
          · exact List.mem_singleton.mpr rfl
          · exact List.mem_map_of_mem hfirst'

/-- **One selection is what all orders come to.** -/
theorem oneSelection_iff (hL : L.Faithful) (hD : D.InMemory) (rt : ReceiveTokenPayload) :
    OneSelection D rt ↔ ∀ rt₁ rt₂, Reordered rt rt₁ → Reordered rt rt₂ →
      ∀ ranges₁ ranges₂, selected D ranges₁ rt₁ = selected D ranges₂ rt₂ := by
  have hselected := (outcomes_getSenderDagFromReceive hL hD rt).bind
    fun senderDag _ => outcomes_selectSend D senderDag
  refine hselected.forall_eq_iff.symm.trans ?_
  constructor
  · intro h rt₁ rt₂ h₁ h₂ ranges₁ ranges₂
    exact h (⟨rt₁, h₁⟩, ranges₁) (⟨rt₂, h₂⟩, ranges₂)
  · intro h c₁ c₂
    exact h c₁.1.1 c₂.1.1 c₁.1.2 c₂.1.2 c₁.2 c₂.2

/-! ## Validating and running a receive -/

/-- A transaction as two signers have it. -/
structure SameReceive (txn txn' : Transaction) : Prop where
  payload : Option.Rel Reordered txn.receiveTokenPayload txn'.receiveTokenPayload
  rest : txn' = { txn with receiveTokenPayload := txn'.receiveTokenPayload }

instance : Std.Refl SameReceive where
  refl txn := by
    refine ⟨?_, rfl⟩
    cases txn.receiveTokenPayload with
    | none => exact .none
    | some rt => exact .some (Reordered.refl rt)

/-- Both fail in the same way, or both have a payload. -/
theorem SameReceive.readPayload {txn txn' : Transaction} (h : SameReceive txn txn') :
    (∃ e, txn.readPayload 999 .receiveToken txn.receiveTokenPayload = .error e ∧
      txn'.readPayload 999 .receiveToken txn'.receiveTokenPayload = .error e) ∨
    ∃ rt rt', txn.type = .receiveToken ∧ txn.receiveTokenPayload = some rt ∧
      txn.readPayload 999 .receiveToken txn.receiveTokenPayload = .ok rt ∧
      txn'.readPayload 999 .receiveToken txn'.receiveTokenPayload = .ok rt' ∧
      Reordered rt rt' := by
  have htype' : txn'.type = txn.type := by rw [h.rest]
  have hpayload := h.payload
  by_cases htype : txn.type = .receiveToken
  · simp only [Transaction.readPayload_of_type htype,
      Transaction.readPayload_of_type (htype'.trans htype)]
    generalize txn.receiveTokenPayload = p, txn'.receiveTokenPayload = p' at hpayload ⊢
    cases hpayload with
    | none => exact Or.inl ⟨_, rfl, rfl⟩
    | some hrt => exact Or.inr ⟨_, _, htype, rfl, rfl, rfl, hrt⟩
  · left
    unfold Transaction.readPayload Transaction.ensure
    rw [if_neg htype, if_neg (htype' ▸ htype)]
    exact ⟨_, rfl, rfl⟩

section Alike

variable (hL : L.Faithful) (hD : D.InMemory)

include hL hD

/-- What is selected is the same in any orders. -/
theorem OneSelection.selected_eq (hone : OneSelection D rt) (h : Reordered rt rt')
    (ranges ranges' : Ranges) : selected D ranges rt = selected D ranges' rt' :=
  (oneSelection_iff hL hD rt).mp hone rt rt' (Reordered.refl rt) h ranges ranges'

/-- The transactor runs on the one DAG there is, or on none because the tip is not its root. -/
theorem OneSelection.receive_eq (hone : OneSelection D rt) (h : Reordered rt rt')
    (ranges ranges' : Ranges) {β : Type} (htip : L.cast rt.tip = .ok tipCid)
    (k : TokenName × TokenSend → Except Fault β) :
    (getSenderDagFromReceive D rt >>= fun senderDag =>
      if tipCid ≠ senderDag.tip then .error (.coded 999 "invalid tip and/or leaves")
      else selectSend D ranges senderDag >>= k) =
    getSenderDagFromReceive D rt' >>= fun senderDag =>
      if tipCid ≠ senderDag.tip then .error (.coded 999 "invalid tip and/or leaves")
      else selectSend D ranges' senderDag >>= k := by
  have hselect {senderDag : Dag L} (hdag : getSenderDagFromReceive D rt = .ok senderDag) :
      selectSend D ranges senderDag = selectSend D ranges' senderDag := by
    have heq := hone.selected_eq hL hD (Reordered.refl rt) ranges ranges'
    unfold selected at heq
    rwa [hdag] at heq
  by_cases hsame : getSenderDagFromReceive D rt' = getSenderDagFromReceive D rt
  · rw [hsame]
    cases hdag : getSenderDagFromReceive D rt with
    | error e => rfl
    | ok senderDag => simp only [ok_bind, hselect hdag]
  · -- the tip is not among the leaves
    have hsome : rt.leaves.all Option.isSome = true := by
      by_contra hne
      exact hsame (h.senderDag_const (Or.inr (Or.inl (Bool.eq_false_iff.mpr hne))))
    cases hnodes : rt.leaves.filterMap id with
    | nil =>
      have hleaves := eq_map_filterMap hsome
      rw [hnodes] at hleaves
      exact absurd (h.senderDag_const (Or.inr (Or.inr hleaves))) hsame
    | cons first others =>
      obtain ⟨first', others', hnodes', hfirst'⟩ := h.exists_cons hnodes
      have hdag := (Reordered.refl rt).senderDag (D := D) hL hD htip hsome hnodes
      have hdag' := h.senderDag (D := D) hL hD htip hsome hnodes'
      by_cases hmem : tipCid ∈ (rt.leaves.filterMap id).map L.objCid
      · rw [if_pos hmem] at hdag hdag'
        exact absurd (hdag'.trans hdag.symm) hsame
      · have hne : ∀ o ∈ first :: others, tipCid ≠ L.objCid o := by
          rintro o ho rfl
          rw [← hnodes] at ho
          exact hmem (List.mem_map_of_mem ho)
        rw [if_neg hmem] at hdag hdag'
        rw [hdag, hdag', ok_bind, ok_bind]
        exact (if_pos (hne first List.mem_cons_self)).trans (if_pos (hne first' hfirst')).symm

theorem receiveTokenTransaction_order {txn txn' : Transaction} (h : SameReceive txn txn')
    (hone : ∀ rt, txn.type = .receiveToken → txn.receiveTokenPayload = some rt →
      OneSelection D rt) (ranges ranges' : Ranges) (did : String) (tree : Dag L) :
    receiveTokenTransaction D ranges did tree txn =
      receiveTokenTransaction D ranges' did tree txn' := by
  unfold receiveTokenTransaction
  rcases h.readPayload with ⟨e, herr, herr'⟩ | ⟨rt, rt', htype, hpayload, hok, hok', hrt⟩
  · rw [herr, herr']
    rfl
  · have htips : rt'.tip = rt.tip := by rw [hrt.rest]
    have hids : rt'.sendTokenTransactionId = rt.sendTokenTransactionId := by rw [hrt.rest]
    rw [hok, hok', ok_bind, ok_bind, htips, hids]
    cases htip : L.cast rt.tip with
    | error e => cases e <;> rfl
    | ok tipCid => exact (hone rt htype hpayload).receive_eq hL hD hrt ranges ranges' htip _

omit hL hD in
/-- What the payload is found to be about, if there is one. -/
theorem receivedSend_map (ranges : Ranges) (txn : Transaction) :
    (receivedSend D ranges txn).map (·.2) =
      txn.readPayload 999 .receiveToken txn.receiveTokenPayload >>= selected D ranges := by
  unfold receivedSend selected
  cases txn.readPayload 999 .receiveToken txn.receiveTokenPayload with
  | error e => rfl
  | ok rt =>
    rw [ok_bind, ok_bind]
    cases getSenderDagFromReceive D rt with
    | error e => rfl
    | ok senderDag =>
      rw [ok_bind, ok_bind]
      cases selectSend D ranges senderDag <;> rfl

theorem receivedSend_order {txn txn' : Transaction} (h : SameReceive txn txn')
    (hone : ∀ rt, txn.type = .receiveToken → txn.receiveTokenPayload = some rt →
      OneSelection D rt) (ranges ranges' : Ranges) :
    (receivedSend D ranges txn).map (·.2) = (receivedSend D ranges' txn').map (·.2) := by
  rw [receivedSend_map, receivedSend_map]
  rcases h.readPayload with ⟨e, herr, herr'⟩ | ⟨rt, rt', htype, hpayload, hok, hok', hrt⟩
  · rw [herr, herr']
    rfl
  · rw [hok, hok', ok_bind, ok_bind]
    exact (hone rt htype hpayload).selected_eq hL hD hrt ranges ranges'

omit hL hD in
/-- The validator looks at what is selected and no further. -/
theorem isForRecipient_some (ranges : Ranges) (id : Obj Cid) (rt : ReceiveTokenPayload) :
    isForRecipient D ranges id (some rt) = selected D ranges rt >>= fun r =>
      match id with
      | .str id => .ok (decide (id = r.2.destination))
      | o => .error (.panic ("interface conversion: interface is " ++ goType o ++
          ", not string")) := by
  unfold isForRecipient selected
  rw [deref, ok_bind]
  cases getSenderDagFromReceive D rt with
  | error e => rfl
  | ok senderDag =>
    rw [ok_bind, ok_bind]
    rfl

/-- The payloads, in the same rounds of the loop. -/
theorem receivePayloads_order {txns txns' : List Transaction}
    (h : List.Forall₂ SameReceive txns txns')
    (hone : ∀ txn ∈ txns, ∀ rt, txn.type = .receiveToken → txn.receiveTokenPayload = some rt →
      OneSelection D rt) :
    List.Forall₂ (fun rt rt' => ∀ ranges ranges' id,
      isForRecipient D ranges id rt = isForRecipient D ranges' id rt')
      (receivePayloads (txns.map some)) (receivePayloads (txns'.map some)) := by
  induction h with
  | nil => exact .nil
  | @cons txn txn' txns txns' hsame _ ih =>
    rw [List.forall_mem_cons] at hone
    have ih := ih hone.2
    have htype : txn'.type = txn.type := by rw [hsame.rest]
    unfold receivePayloads at ih ⊢
    simp only [List.map_cons, List.filterMap_cons, Option.bind_some, htype]
    by_cases hreceive : txn.type = .receiveToken
    · simp only [if_pos hreceive]
      refine .cons (fun ranges ranges' id => ?_) ih
      have hpayload := hsame.payload
      have hone := hone.1
      generalize txn.receiveTokenPayload = p, txn'.receiveTokenPayload = p' at hpayload hone ⊢
      cases hpayload with
      | none => rfl
      | some hrt =>
        rw [isForRecipient_some, isForRecipient_some,
          (hone _ hreceive rfl).selected_eq hL hD hrt ranges ranges']
    · simp only [if_neg hreceive]
      exact ih

theorem isTokenRecipient_order {txns txns' : List Transaction}
    (h : List.Forall₂ SameReceive txns txns')
    (hone : ∀ txn ∈ txns, ∀ rt, txn.type = .receiveToken → txn.receiveTokenPayload = some rt →
      OneSelection D rt) (ranges ranges' : Nat → Ranges) (tree : Dag L) :
    isTokenRecipient D ranges tree (txns.map some) =
      isTokenRecipient D ranges' tree (txns'.map some) := by
  have hthere (txns : List Transaction) : ∀ t ∈ txns.map some, ∃ txn, t = some txn := by simp
  have hrounds := receivePayloads_order hL hD h hone
  unfold isTokenRecipient
  rw [getReceiveTokenPayloads_eq (hthere txns), getReceiveTokenPayloads_eq (hthere txns')]
  generalize receivePayloads (txns.map some) = rts, receivePayloads (txns'.map some) = rts'
    at hrounds
  have hempty : rts.isEmpty = rts'.isEmpty := by
    cases hrounds with
    | nil => rfl
    | cons _ _ => rfl
  show (if rts.isEmpty then _ else _) = if rts'.isEmpty then _ else _
  rw [hempty]
  split
  · rfl
  · refine congrArg (_ >>= ·) ?_
    funext r
    exact allM_zipIdx_congr hrounds (fun hround i => hround (ranges i) (ranges' i) r.1) 0

/--
**When a receive does not depend on the order of maps and leaves.**

Two signers have the same block, but for the order of leaves. In all orders of leaves and maps they
select the same token and send of every receive, the validator gives the same verdict, and the
transactor makes the same tree, if and only if each payload leaves one selection.
-/
theorem receive_order_independent (txns : List Transaction) :
    (∀ txns', List.Forall₂ SameReceive txns txns' →
      (∀ ranges ranges' tree, isTokenRecipient D ranges tree (txns.map some) =
        isTokenRecipient D ranges' tree (txns'.map some)) ∧
      List.Forall₂ (fun txn txn' => ∀ ranges ranges' : Ranges,
        (receivedSend D ranges txn).map (·.2) = (receivedSend D ranges' txn').map (·.2) ∧
        ∀ did tree, receiveTokenTransaction D ranges did tree txn =
          receiveTokenTransaction D ranges' did tree txn') txns txns') ↔
    ∀ txn ∈ txns, ∀ rt, txn.type = .receiveToken → txn.receiveTokenPayload = some rt →
      OneSelection D rt := by
  constructor
  · intro h txn htxn rt htype hrt
    -- another order of the leaves of this payload, in a block that is otherwise the same
    obtain ⟨before, after, rfl⟩ := List.append_of_mem htxn
    have hselected {rt' : ReceiveTokenPayload} (hrt' : Reordered rt rt')
        (ranges ranges' : Ranges) : selected D ranges rt = selected D ranges' rt' := by
      set txn' : Transaction := { txn with receiveTokenPayload := some rt' }
      have hsame : SameReceive txn txn' := ⟨by rw [hrt]; exact .some hrt', rfl⟩
      have hblock : List.Forall₂ SameReceive (before ++ txn :: after) (before ++ txn' :: after) :=
        List.rel_append (List.forall₂_refl before) (.cons hsame (List.forall₂_refl after))
      have heq := (forall₂_middle (h _ hblock).2 ranges ranges').1
      rwa [receivedSend_map, receivedSend_map, Transaction.readPayload_of_type htype,
        Transaction.readPayload_of_type (show txn'.type = _ from htype), hrt] at heq
    refine (oneSelection_iff hL hD rt).mpr fun rt₁ rt₂ h₁ h₂ ranges₁ ranges₂ => ?_
    exact (hselected h₁ ranges₁ ranges₁).symm.trans (hselected h₂ ranges₁ ranges₂)
  · intro hone txns' h
    refine ⟨isTokenRecipient_order hL hD h hone, ?_⟩
    induction h with
    | nil => exact .nil
    | cons hsame _ ih =>
      rw [List.forall_mem_cons] at hone
      refine .cons (fun ranges ranges' => ?_) (ih hone.2)
      exact ⟨receivedSend_order hL hD hsame hone.1 ranges ranges',
        receiveTokenTransaction_order hL hD hsame hone.1 ranges ranges'⟩

end Alike

end

/-! ## A receive of one send, and of one of two -/

namespace ReceiveExample

theorem std_inMemory (L : Ipld) : (DagLib.std L).InMemory := fun _ _ => rfl

/-- Plainly, or the other way round. -/
def reversed : Ranges := ⟨⟨List.reverse, List.reverse_perm⟩, ⟨List.reverse, List.reverse_perm⟩⟩

open DagExample

def toB : TokenSend := { id := "1", amount := 1, destination := "did:tupelo:b" }

def toC : TokenSend := { id := "2", amount := 20, destination := "did:tupelo:c" }

/-- The nodes of a sender's state from the sends up to the tree. -/
noncomputable def innerNodes (sends : List TokenSend) : List (Obj Cid) :=
  let sendsNode : Obj Cid := .list (sends.map fun s => link s.toObj)
  let tokenNode : Obj Cid := .map [("mints", .null), ("sends", link sendsNode),
    ("balance", .uint 0), ("receives", .null), ("monetaryPolicy", .null)]
  let tokensNode : Obj Cid := .map [("did:tupelo:a:coin", link tokenNode)]
  let tupeloNode : Obj Cid := .map [("tokens", link tokensNode)]
  [.map [("_tupelo", link tupeloNode)], tupeloNode, tokensNode, tokenNode, sendsNode] ++
    sends.map TokenSend.toObj

/-- The root of the state. -/
noncomputable def rootNode (sends : List TokenSend) : Obj Cid :=
  .map [("id", .str "did:tupelo:a"), ("tree", link ((innerNodes sends).headD .null)),
    ("chain", link (.map []))]

/-- A receive with all nodes of the state among its leaves. -/
noncomputable def receipt (sends : List TokenSend) : ReceiveTokenPayload :=
  { sendTokenTransactionId := "1"
    tip := (Ipld.inFull.objCid (rootNode sends)).bytes
    proof := none
    leaves := (rootNode sends :: innerNodes sends).map some }

def receiving (rt : ReceiveTokenPayload) : Transaction :=
  { type := .receiveToken, receiveTokenPayload := some rt }

/-- The tree that receives. -/
noncomputable def receiver : Dag Ipld.inFull :=
  Dag.ofNodes (.map [("id", .str "did:tupelo:b")]) []

/-- One send: the leaves and the maps may be turned round. -/
theorem receive_order_independent_example :
    let rt := receipt [toB]
    let rt' := { rt with leaves := rt.leaves.reverse }
    OneSelection (DagLib.std Ipld.inFull) rt ∧
    isTokenRecipient (DagLib.std Ipld.inFull) (fun _ => Ranges.plain) receiver
      [some (receiving rt)] = .ok true ∧
    isTokenRecipient (DagLib.std Ipld.inFull) (fun _ => reversed) receiver
      [some (receiving rt')] = .ok true ∧
    receiveTokenTransaction (DagLib.std Ipld.inFull) Ranges.plain "did:tupelo:b" receiver
      (receiving rt) =
    receiveTokenTransaction (DagLib.std Ipld.inFull) reversed "did:tupelo:b" receiver
      (receiving rt') := by
  intro rt rt'
  have hone : OneSelection (DagLib.std Ipld.inFull) rt := by
    have hall : (received (DagLib.std Ipld.inFull) (receipt [toB])).all
        (fun x => x.toOption = some (⟨"did:tupelo:a", "coin"⟩, toB)) = true := by decide +kernel
    have heq : ∀ x ∈ received (DagLib.std Ipld.inFull) rt,
        x = .ok (⟨"did:tupelo:a", "coin"⟩, toB) := fun x hx =>
      toOption_eq_some.mp (of_decide_eq_true (List.all_eq_true.mp hall x hx))
    intro x hx y hy
    rw [heq x hx, heq y hy]
  have hsame : SameReceive (receiving rt) (receiving rt') :=
    ⟨.some ⟨(List.reverse_perm rt.leaves).symm, rfl⟩, rfl⟩
  obtain ⟨hverdicts, hpairs⟩ := (receive_order_independent (D := DagLib.std Ipld.inFull)
    Ipld.inFull_faithful (std_inMemory _) [receiving rt]).mpr (by
      intro txn htxn rt₁ _ hrt
      rw [List.mem_singleton.mp htxn] at hrt
      rw [← Option.some.inj hrt]
      exact hone) _ (.cons hsame .nil)
  have hverdict : (isTokenRecipient (DagLib.std Ipld.inFull) (fun _ => Ranges.plain) receiver
      [some (receiving (receipt [toB]))]).toOption = some true := by decide +kernel
  have hok := toOption_eq_some.mp hverdict
  cases hpairs with
  | cons hpair _ =>
    exact ⟨hone, hok, (hverdicts _ _ receiver).symm.trans hok, (hpair Ranges.plain reversed).2 _ _⟩

/--
Two sends, one of 1 to this tree and one of 20 to another. Which one is found decides the verdict
of the validator and, independently of it, the amount that is credited.
-/
theorem receive_depends_on_order : ∃ d d',
    isTokenRecipient (DagLib.std Ipld.inFull) (fun _ => Ranges.plain) receiver
      [some (receiving (receipt [toB, toC]))] = .ok true ∧
    isTokenRecipient (DagLib.std Ipld.inFull) (fun _ => reversed) receiver
      [some (receiving (receipt [toB, toC]))] = .ok false ∧
    receiveTokenTransaction (DagLib.std Ipld.inFull) Ranges.plain "did:tupelo:b" receiver
      (receiving (receipt [toB, toC])) = .ok d ∧
    receiveTokenTransaction (DagLib.std Ipld.inFull) reversed "did:tupelo:b" receiver
      (receiving (receipt [toB, toC])) = .ok d' ∧
    balanceOf d "did:tupelo:a:coin" = 1 ∧ balanceOf d' "did:tupelo:a:coin" = 20 := by
  have hplain : (isTokenRecipient (DagLib.std Ipld.inFull) (fun _ => Ranges.plain) receiver
      [some (receiving (receipt [toB, toC]))]).toOption = some true := by decide +kernel
  have hreversed : (isTokenRecipient (DagLib.std Ipld.inFull) (fun _ => reversed) receiver
      [some (receiving (receipt [toB, toC]))]).toOption = some false := by decide +kernel
  have hone : (receiveTokenTransaction (DagLib.std Ipld.inFull) Ranges.plain "did:tupelo:b"
      receiver (receiving (receipt [toB, toC]))).toOption.map
        (fun d => balanceOf d "did:tupelo:a:coin") = some 1 := by decide +kernel
  have htwenty : (receiveTokenTransaction (DagLib.std Ipld.inFull) reversed "did:tupelo:b"
      receiver (receiving (receipt [toB, toC]))).toOption.map
        (fun d => balanceOf d "did:tupelo:a:coin") = some 20 := by decide +kernel
  obtain ⟨d, hd, hbalance⟩ := Option.map_eq_some_iff.mp hone
  obtain ⟨d', hd', hbalance'⟩ := Option.map_eq_some_iff.mp htwenty
  exact ⟨d, d', toOption_eq_some.mp hplain, toOption_eq_some.mp hreversed,
    toOption_eq_some.mp hd, toOption_eq_some.mp hd', hbalance, hbalance'⟩

end ReceiveExample

end Tupelo

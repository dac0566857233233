import Tupelo.Consensus.Names
import Tupelo.Consensus.LedgerInvariant
import Tupelo.Consensus.ReceiveOrder

/-!
# Which token a name stands for

A transaction names a token in full, with the DID of the tree that issued it, or by its local
name. A local name stands for the token of the tree that has it; if there is none, for one that
this tree issues; if there are several, for none. `StandsFor` says so without a word about the
order in which a map is ranged over, and `CanonicalTokenName` finds it in every order.

The keys of the tokens are cut at their last colon to find their local names. So a local name
with a colon in it is not found again, and its last part stands for the token.
-/

namespace Tupelo

open Infra MerkleDag

/-- The local name of a key. -/
def localName (key : String) : String := (tokenNameFromString key).localName

/-- What a name stands for in a tree with these tokens. -/
def StandsFor (held : String → Prop) (did name : String) (requireDefault : Bool)
    (tn : TokenName) : Prop :=
  if hasPrefix name "did:tupelo:" then
    tn = tokenNameFromString name ∧ (requireDefault = true → tn.chainTreeDID = did)
  else
    (tn = ⟨did, name⟩ ∧ ∀ key, held key → localName key ≠ name) ∨
      ∃ key, held key ∧ localName key = name ∧ tn = tokenNameFromString key ∧
        ∀ key', held key' → localName key' = name → key' = key

/-! ## The matches among the keys -/

theorem RangeOrder.mem_range {ord : RangeOrder} {fields : List (String × Obj Cid)} {k : String}
    {v : Obj Cid} : (k, v) ∈ ord.range fields ↔ fields.lookup k = some v :=
  ⟨lookup_of_mem_range, fun h => (ord.perm _).mem_iff.mpr (Obj.mem_entries_of_lookup h)⟩

theorem RangeOrder.nodup_range (ord : RangeOrder) (fields : List (String × Obj Cid)) :
    ((ord.range fields).map Prod.fst).Nodup :=
  ((ord.perm _).map Prod.fst).nodup_iff.mpr (Obj.nodup_keys_entries fields)

section Matched

variable {name : String} {es : List (String × Obj Cid)}

theorem matchedTokens_eq : matchedTokens name es =
    (es.filter fun e => localName e.1 = name).map fun e => tokenNameFromString e.1 :=
  List.filter_map

theorem matchedTokens_eq_nil : matchedTokens name es = [] ↔ ∀ e ∈ es, localName e.1 ≠ name := by
  rw [matchedTokens_eq, List.map_eq_nil_iff, List.filter_eq_nil_iff]
  simp

/-- A single match is that of one entry, and no other one matches. -/
theorem matchedTokens_singleton {tn : TokenName} (h : matchedTokens name es = [tn]) :
    ∃ e ∈ es, localName e.1 = name ∧ tn = tokenNameFromString e.1 ∧
      ∀ e' ∈ es, localName e'.1 = name → e' = e := by
  rw [matchedTokens_eq] at h
  obtain ⟨e, he, htn⟩ := List.map_eq_singleton_iff.mp h
  have hmem : ∀ e', e' ∈ es ∧ localName e'.1 = name ↔ e' = e := by
    intro e'
    have hfilter : e' ∈ es.filter (fun e => localName e.1 = name) ↔ e' ∈ [e] := by rw [he]
    simpa using hfilter
  obtain ⟨hes, hname⟩ := (hmem e).mpr rfl
  exact ⟨e, hes, hname, htn.symm, fun e' he' hname' => (hmem e').mp ⟨he', hname'⟩⟩

/-- Two matches are those of two entries with different keys. -/
theorem matchedTokens_two (hnodup : (es.map Prod.fst).Nodup) {tn tn' : TokenName}
    {rest : List TokenName} (h : matchedTokens name es = tn :: tn' :: rest) :
    ∃ e ∈ es, ∃ e' ∈ es, localName e.1 = name ∧ localName e'.1 = name ∧ e.1 ≠ e'.1 := by
  rw [matchedTokens_eq] at h
  obtain ⟨e, l, he, -, h⟩ := List.map_eq_cons_iff.mp h
  obtain ⟨e', l', rfl, -, -⟩ := List.map_eq_cons_iff.mp h
  have hmem : ∀ x ∈ e :: e' :: l', x ∈ es ∧ localName x.1 = name := by
    intro x hx
    rw [← he, List.mem_filter] at hx
    simpa using hx
  have hkeys : ((e :: e' :: l').map Prod.fst).Nodup := by
    rw [← he]
    exact (List.filter_sublist.map Prod.fst).nodup hnodup
  obtain ⟨hes, hname⟩ := hmem e (by simp)
  obtain ⟨hes', hname'⟩ := hmem e' (by simp)
  refine ⟨e, hes, e', hes', hname, hname', ?_⟩
  rintro heq
  simp [heq] at hkeys

end Matched

/-! ## `CanonicalTokenName` -/

section Canonical

variable {L : Ipld} {D : DagLib L} {ord : RangeOrder} {tree : Dag L} {did name : String}
  {requireDefault : Bool} {tn : TokenName}

/-- The tree has the key in its map of tokens. -/
def DagLib.Holds (D : DagLib L) (tree : Dag L) (key : String) : Prop :=
  ∃ tokens v, D.resolve tree ["_tupelo", "tokens"] = .ok (.map tokens, []) ∧
    tokens.lookup key = some v

/-- A local name in a tree with a map of tokens. -/
theorem canonicalTokenName_of_map (hshort : hasPrefix name "did:tupelo:" = false)
    {tokens : List (String × Obj Cid)}
    (hres : D.resolve tree ["_tupelo", "tokens"] = .ok (.map tokens, [])) :
    canonicalTokenName D ord tree did name requireDefault =
      match matchedTokens name (ord.range tokens) with
      | [] => .ok ⟨did, name⟩
      | [matchedToken] => .ok matchedToken
      | _ => .error (.error ("ambiguous token names found for " ++ name ++
          "; please provide full name")) := by
  unfold canonicalTokenName
  rw [hshort, decodePath_treePathForTokens, wrapErr_ok, ok_bind, hres, wrapErr_ok, ok_bind]
  rfl

/-- A local name in a tree without tokens. -/
theorem canonicalTokenName_of_remaining (hshort : hasPrefix name "did:tupelo:" = false)
    {v : Obj Cid} {k : String} {rest : List String}
    (hres : D.resolve tree ["_tupelo", "tokens"] = .ok (v, k :: rest)) :
    canonicalTokenName D ord tree did name requireDefault = .ok ⟨did, name⟩ := by
  unfold canonicalTokenName
  rw [hshort, decodePath_treePathForTokens, wrapErr_ok, ok_bind, hres, wrapErr_ok, ok_bind]
  rfl

/-- A local name is only looked up in these trees. -/
theorem resolve_of_canonicalTokenName (hshort : hasPrefix name "did:tupelo:" = false)
    (h : canonicalTokenName D ord tree did name requireDefault = .ok tn) :
    (∃ v k rest, D.resolve tree ["_tupelo", "tokens"] = .ok (v, k :: rest)) ∨
      ∃ tokens, D.resolve tree ["_tupelo", "tokens"] = .ok (.map tokens, []) := by
  unfold canonicalTokenName at h
  rw [hshort, decodePath_treePathForTokens, wrapErr_ok, ok_bind] at h
  obtain ⟨⟨tokensObj, remaining⟩, hres, h⟩ := bind_eq_ok.mp h
  have hres := wrapErr_eq_ok.mp hres
  cases remaining with
  | cons k rest => exact Or.inl ⟨tokensObj, k, rest, hres⟩
  | nil =>
    cases tokensObj with
    | map tokens => exact Or.inr ⟨tokens, hres⟩
    | _ => cases h

theorem holds_iff_of_map {tokens : List (String × Obj Cid)}
    (hres : D.resolve tree ["_tupelo", "tokens"] = .ok (.map tokens, [])) {key : String} :
    D.Holds tree key ↔ ∃ v, (key, v) ∈ ord.range tokens := by
  simp [DagLib.Holds, hres, RangeOrder.mem_range]

theorem not_holds_of_remaining {v : Obj Cid} {k : String} {rest : List String}
    (hres : D.resolve tree ["_tupelo", "tokens"] = .ok (v, k :: rest)) (key : String) :
    ¬ D.Holds tree key := by
  simp [DagLib.Holds, hres]

/-- **In every order, the name that is found is the one the requested name stands for.** -/
theorem standsFor_of_canonicalTokenName
    (h : canonicalTokenName D ord tree did name requireDefault = .ok tn) :
    StandsFor (D.Holds tree) did name requireDefault tn := by
  unfold StandsFor
  split
  · next hfull =>
    unfold canonicalTokenName at h
    rw [if_pos hfull] at h
    dsimp only at h
    split at h
    · cases h
    · next hdid =>
      obtain rfl := Except.ok.inj h
      refine ⟨rfl, fun hreq => ?_⟩
      simpa [hreq] using hdid
  · next hfull =>
    have hshort := Bool.eq_false_iff.mpr hfull
    rcases resolve_of_canonicalTokenName hshort h with ⟨v, k, rest, hres⟩ | ⟨tokens, hres⟩
    · rw [canonicalTokenName_of_remaining hshort hres] at h
      exact Or.inl ⟨(Except.ok.inj h).symm,
        fun key hkey => absurd hkey (not_holds_of_remaining hres key)⟩
    · rw [canonicalTokenName_of_map hshort hres] at h
      split at h
      · next hnone =>
        refine Or.inl ⟨(Except.ok.inj h).symm, fun key hkey => ?_⟩
        obtain ⟨v, hv⟩ := (holds_iff_of_map hres).mp hkey
        exact matchedTokens_eq_nil.mp hnone (key, v) hv
      · next hone =>
        obtain rfl := Except.ok.inj h
        obtain ⟨e, he, hname, htn, honly⟩ := matchedTokens_singleton hone
        refine Or.inr ⟨e.1, (holds_iff_of_map hres).mpr ⟨e.2, he⟩, hname, htn, ?_⟩
        intro key' hkey' hname'
        obtain ⟨v, hv⟩ := (holds_iff_of_map hres).mp hkey'
        rw [← honly (key', v) hv hname']
      · cases h

/-- **And the other way round**: what the requested name stands for is found, in every order. -/
theorem canonicalTokenName_of_standsFor
    (hres : (∃ v k rest, D.resolve tree ["_tupelo", "tokens"] = .ok (v, k :: rest)) ∨
      ∃ tokens, D.resolve tree ["_tupelo", "tokens"] = .ok (.map tokens, []))
    (h : StandsFor (D.Holds tree) did name requireDefault tn) :
    canonicalTokenName D ord tree did name requireDefault = .ok tn := by
  unfold StandsFor at h
  split at h
  · next hfull =>
    obtain ⟨rfl, hdid⟩ := h
    unfold canonicalTokenName
    rw [if_pos hfull]
    refine if_neg ?_
    simpa using hdid
  · next hfull =>
    have hshort := Bool.eq_false_iff.mpr hfull
    rcases hres with ⟨v, k, rest, hres⟩ | ⟨tokens, hres⟩
    · rcases h with ⟨rfl, -⟩ | ⟨key, hkey, -⟩
      · exact canonicalTokenName_of_remaining hshort hres
      · exact absurd hkey (not_holds_of_remaining hres key)
    · rw [canonicalTokenName_of_map hshort hres]
      have hheld : ∀ e ∈ ord.range tokens, D.Holds tree e.1 :=
        fun e he => (holds_iff_of_map hres).mpr ⟨e.2, he⟩
      split
      · next hnone =>
        rcases h with ⟨rfl, -⟩ | ⟨key, hkey, hname, -⟩
        · rfl
        · obtain ⟨v, hv⟩ := (holds_iff_of_map hres).mp hkey
          exact absurd hname (matchedTokens_eq_nil.mp hnone (key, v) hv)
      · next hone =>
        obtain ⟨e, he, hname, htn, -⟩ := matchedTokens_singleton hone
        rcases h with ⟨-, hno⟩ | ⟨key, -, -, rfl, honly⟩
        · exact absurd hname (hno e.1 (hheld e he))
        · rw [htn, honly e.1 (hheld e he) hname]
      · next hno hone =>
        match hm : matchedTokens name (ord.range tokens) with
        | [] => exact absurd hm hno
        | [tn] => exact absurd hm (hone tn)
        | tn₁ :: tn₂ :: rest =>
          obtain ⟨e, he, e', he', hname, hname', hne⟩ :=
            matchedTokens_two (ord.nodup_range tokens) hm
          rcases h with ⟨-, hno⟩ | ⟨key, -, -, -, honly⟩
          · exact absurd hname (hno e.1 (hheld e he))
          · refine absurd ?_ hne
            rw [honly e.1 (hheld e he) hname, honly e'.1 (hheld e' he') hname']

end Canonical

/-! ## Tokens of this tree -/

section Own

variable {L : Ipld} {D : DagLib L}

/-- Every token of the tree that a name may match has been issued by this tree. -/
def OwnMatches (held : String → Prop) (did name : String) : Prop :=
  hasPrefix name "did:tupelo:" = true ∨
    ∀ key, held key → localName key = name → (tokenNameFromString key).chainTreeDID = did

theorem StandsFor.own_iff {held : String → Prop} {did name : String} {tn : TokenName}
    (h : StandsFor held did name true tn) :
    tn.chainTreeDID = did ↔ OwnMatches held did name := by
  unfold StandsFor at h
  unfold OwnMatches
  split at h
  · next hfull => exact iff_of_true (h.2 rfl) (Or.inl hfull)
  · next hfull =>
    rcases h with ⟨rfl, hno⟩ | ⟨key, hkey, hname, rfl, honly⟩
    · refine iff_of_true rfl (Or.inr fun key hkey hname => ?_)
      exact absurd hname (hno key hkey)
    · constructor
      · intro hdid
        refine Or.inr fun key' hkey' hname' => ?_
        rw [honly key' hkey' hname', hdid]
      · rintro (hfull' | hown)
        · exact absurd hfull' hfull
        · exact hown key hkey hname

/-- The name in a transaction that establishes a token or mints. -/
def issuedName (txn : Transaction) : Option String :=
  match txn.type with
  | .establishToken => txn.establishTokenPayload.map (·.name)
  | .mintToken => txn.mintTokenPayload.map (·.name)
  | _ => none

/-- The token of such a transaction is the one its name stands for. -/
theorem transactionToken_of_issuedName {ranges : Ranges} {did name : String} {d : Dag L}
    {txn : Transaction} (hname : issuedName txn = some name) :
    transactionToken D ranges did d txn =
      canonicalTokenName D ranges.tokens d did name true := by
  unfold issuedName at hname
  unfold transactionToken
  split at hname
  · next htype =>
    obtain ⟨payload, hpayload, rfl⟩ := Option.map_eq_some_iff.mp hname
    simp only [htype, hpayload, deref, ok_bind]
  · next htype =>
    obtain ⟨payload, hpayload, rfl⟩ := Option.map_eq_some_iff.mp hname
    simp only [htype, hpayload, deref, ok_bind]
  · cases hname

/--
**Which token is established or minted.**

For every tree, DID and name: the token that `CanonicalTokenName` finds for establishing or
minting has been issued by this tree if and only if every token of the tree that matches the name
has. Such a transaction changes the record of that token and no other.
-/
theorem issued_token_is_own_iff (hL : L.Faithful) (hD : D.Sound) (d : Dag L) (did : String) :
    (∀ ord name tn, canonicalTokenName D ord d did name true = .ok tn →
      (tn.chainTreeDID = did ↔ OwnMatches (D.Holds d) did name)) ∧
    (Readable d → ∀ ranges txn name d', issuedName txn = some name →
      tokenTransactor D ranges did d txn = .ok d' →
        ∃ tn, canonicalTokenName D ranges.tokens d did name true = .ok tn ∧
          (∀ key, key ≠ tn.string → tokenRecord d' key = tokenRecord d key) ∧
          (tn.chainTreeDID = did ↔ OwnMatches (D.Holds d) did name)) := by
  refine ⟨fun ord name tn h => (standsFor_of_canonicalTokenName h).own_iff, ?_⟩
  intro hd ranges txn name d' hname h
  obtain ⟨tn, x, r, htoken, -, hchange⟩ := tokenTransactor_spec hL hD hd h
  rw [transactionToken_of_issuedName hname] at htoken
  refine ⟨tn, htoken, ?_, (standsFor_of_canonicalTokenName htoken).own_iff⟩
  intro key hne
  obtain ⟨y, hy⟩ := hd key
  rw [hy, hchange.others.records key y hne hy]

end Own

/-! ## Trees that token transactions made -/

section Reached

variable {L : Ipld} {D : DagLib L} {did : String}
variable {d d₀ : Dag L} {txn : Transaction} {ord : RangeOrder} {n : String}

/-- The tree has a token with the key. -/
def Held (d : Dag L) (key : String) : Prop := ∃ r, tokenRecord d key = some (some r)

/-- A readable tree has a map of tokens, or none at all. -/
theorem Readable.tokens (hd : Readable d) :
    d.find ["_tupelo", "tokens"] = some none ∨
      ∃ tokens, d.find ["_tupelo", "tokens"] = some (some (.map tokens)) := by
  obtain ⟨x, hx⟩ := hd ""
  cases x with
  | some r =>
    obtain ⟨fields, hfind, -⟩ := tokenRecord_eq_some_some.mp hx
    exact Dag.find_of_append hfind
  | none => exact Dag.find_of_append (tokenRecord_eq_some_none.mp hx)

theorem not_held_of_missing (h : d.find ["_tupelo", "tokens"] = some none) (key : String) :
    ¬ Held d key := by
  rintro ⟨r, hr⟩
  obtain ⟨fields, hfind, -⟩ := tokenRecord_eq_some_some.mp hr
  cases hfind.symm.trans (Dag.find_append_missing h [key])

/-- The keys in the map are the tokens with a record. -/
theorem Readable.held_iff (hd : Readable d) {tokens : List (String × Obj Cid)}
    (htokens : d.find ["_tupelo", "tokens"] = some (some (.map tokens))) {key : String} :
    Held d key ↔ ∃ v, tokens.lookup key = some v := by
  have hfind := Dag.find_field_eq htokens key
  constructor
  · rintro ⟨r, hr⟩
    obtain ⟨fields, hfields, -⟩ := tokenRecord_eq_some_some.mp hr
    cases hv : tokens.lookup key with
    | some v => exact ⟨v, rfl⟩
    | none =>
      rw [hv] at hfind
      cases hfind.symm.trans hfields
  · rintro ⟨v, hv⟩
    rw [hv] at hfind
    obtain ⟨x, hx⟩ := hd key
    cases x with
    | some r => exact ⟨r, hx⟩
    | none =>
      obtain ⟨y, -, hy⟩ := Option.map_eq_some_iff.mp
        (hfind.symm.trans (tokenRecord_eq_some_none.mp hx))
      cases hy

/-- In a readable tree a name stands for a token in every order alike. -/
theorem Readable.canonicalTokenName_iff (hC : D.Complete) (hd : Readable d) {name : String}
    {requireDefault : Bool} {tn : TokenName} :
    canonicalTokenName D ord d did name requireDefault = .ok tn ↔
      StandsFor (Held d) did name requireDefault tn := by
  have hheld : D.Holds d = Held d := by
    funext key
    unfold DagLib.Holds
    refine propext ?_
    rcases hd.tokens with hmissing | ⟨tokens, hres⟩
    · obtain ⟨remaining, hne, hres⟩ := hC.resolve_missing hmissing
      refine iff_of_false ?_ (not_held_of_missing hmissing key)
      rw [hres]
      simp [hne]
    · rw [hd.held_iff hres, hC.resolve_found hres]
      simp
  rw [← hheld]
  refine ⟨standsFor_of_canonicalTokenName, canonicalTokenName_of_standsFor ?_⟩
  rcases hd.tokens with hmissing | ⟨tokens, hres⟩
  · obtain ⟨remaining, hne, hres⟩ := hC.resolve_missing hmissing
    obtain ⟨k, rest, rfl⟩ := List.exists_cons_of_ne_nil hne
    exact Or.inl ⟨_, k, rest, hres⟩
  · exact Or.inr ⟨tokens, hC.resolve_found hres⟩

/-- What trees have that token transactions made: records, under keys with a colon. -/
structure Named (d : Dag L) : Prop where
  readable : Readable d
  colon : ∀ key, Held d key → ':' ∈ key.toList

theorem Named.of_changes {d' : Dag L} {tn : TokenName} {x : Option TokenRecord} {r : TokenRecord}
    (hd : Named d) (hchange : Changes d d' tn.string x r) : Named d' := by
  refine ⟨hchange.readable hd.readable, ?_⟩
  rintro key ⟨r', hr'⟩
  rcases hchange.cases hd.readable hr' with ⟨rfl, -⟩ | hbefore
  · exact colon_mem_string tn
  · exact hd.colon key ⟨r', hbefore⟩

theorem named_step (hL : L.Faithful) (hD : D.Sound) {ranges : Ranges} {d' : Dag L} (hd : Named d)
    (h : tokenTransactor D ranges did d txn = .ok d') : Named d' := by
  obtain ⟨tn, x, r, -, -, hchange⟩ := tokenTransactor_spec hL hD hd.readable h
  exact hd.of_changes hchange

theorem named_reach (hL : L.Faithful) (hD : D.Sound) (h₀ : Named d₀)
    (h : (ledgerSystem D did d₀).Reach (fun _ _ => true) d) : Named d :=
  h.invariant (P := Named) h₀ fun _ _ _ hs _ hact => named_step hL hD hs (toOption_eq_some.mp hact)

/-- No token is ever given up. -/
theorem held_reach (hL : L.Faithful) (hD : D.Sound) (h₀ : Named d₀)
    (h : (ledgerSystem D did d₀).Reach (fun _ _ => true) d) {key : String} (hkey : Held d₀ key) :
    Held d key := by
  refine (h.invariant (P := fun d => Named d ∧ Held d key) ⟨h₀, hkey⟩ ?_).2
  rintro s a s' ⟨hs, r, hr⟩ _ hact
  have hact := toOption_eq_some.mp hact
  obtain ⟨tn, x, r', -, hstep, hchange⟩ := tokenTransactor_spec hL hD hs.readable hact
  obtain ⟨r'', hr'', -⟩ := hchange.extends hstep hr
  exact ⟨named_step hL hD hs hact, r'', hr''⟩

/-- A token is established under its own name: where the name matches a token it is refused. -/
theorem establish_string (hL : L.Faithful) (hD : D.Sound) (hC : D.Complete) {d₁ : Dag L}
    (hd : Named d) {payload : EstablishTokenPayload}
    (hpayload : txn.establishTokenPayload = some payload)
    (hshort : hasPrefix payload.name "did:tupelo:" = false)
    (h : establishTokenTransaction D ord did d txn = .ok d₁) :
    Changes d d₁ (TokenName.string ⟨did, payload.name⟩) none
      (TokenRecord.new (some (payload.monetaryPolicy.getD { maximum := 0 }))) := by
  obtain ⟨payload', tn, hpayload', hname, hchange⟩ :=
    establishTokenTransaction_spec hL hD hd.readable h
  obtain rfl : payload' = payload :=
    Option.some.inj (hpayload'.symm.trans hpayload)
  have hstands := (hd.readable.canonicalTokenName_iff hC).mp hname
  unfold StandsFor at hstands
  rw [hshort] at hstands
  rcases hstands with ⟨rfl, -⟩ | ⟨key, hkey, -, rfl, -⟩
  · exact hchange
  · -- the key itself: it has a record
    obtain ⟨r, hr⟩ := hkey
    have hbefore := hchange.before
    rw [string_tokenNameFromString (hd.colon key ⟨r, hr⟩), hr] at hbefore
    cases hbefore

/-! ### The names of an established token -/

theorem hasPrefix_string {p : String} (h : hasPrefix did p = true) :
    hasPrefix (TokenName.string ⟨did, n⟩) p = true := by
  refine List.isPrefixOf_iff_prefix.mpr ?_
  rw [TokenName.toList_string]
  exact (List.isPrefixOf_iff_prefix.mp h).trans (List.prefix_append _ _)

theorem string_injective {m : String} (h : TokenName.string ⟨did, n⟩ = TokenName.string ⟨did, m⟩) :
    n = m := by
  have h := congrArg String.toList h
  rw [TokenName.toList_string, TokenName.toList_string] at h
  exact String.toList_inj.mp (List.cons.inj (List.append_cancel_left h)).2

/-- The full name of a token whose local name has a colon is taken for that of another tree. -/
theorem chainTreeDID_ne (hn : ':' ∈ n.toList) :
    (tokenNameFromString (TokenName.string ⟨did, n⟩)).chainTreeDID ≠ did := by
  obtain ⟨a, b, hab, hb⟩ := exists_last_of_mem hn
  have hstring : TokenName.string ⟨did, n⟩ =
      TokenName.string ⟨did ++ ":" ++ String.ofList a, String.ofList b⟩ := by
    rw [← String.toList_inj, TokenName.toList_string, TokenName.toList_string, hab]
    simp
  rw [hstring, tokenNameFromString_string (by simpa using hb)]
  intro h
  have hlength := congrArg (fun s => s.toList.length) h
  simp at hlength

/--
What a name is good for, once a token has been established under it: other names do not stand
for the token; it does, and so does the full name.
-/
structure FaithfulName (D : DagLib L) (d : Dag L) (did n : String) : Prop where
  others : ∀ m, m ≠ n → hasPrefix m "did:tupelo:" = false → ∀ ord requireDefault tn,
    canonicalTokenName D ord d did m requireDefault = .ok tn →
      tn.string ≠ TokenName.string ⟨did, n⟩
  same : (∀ key, Held d key → localName key = n → key = TokenName.string ⟨did, n⟩) →
    ∀ ord requireDefault, ∃ tn tn',
      canonicalTokenName D ord d did n requireDefault = .ok tn ∧
      canonicalTokenName D ord d did (TokenName.string ⟨did, n⟩) requireDefault = .ok tn' ∧
      tn.string = TokenName.string ⟨did, n⟩ ∧ tn'.string = TokenName.string ⟨did, n⟩

/-- Without a colon it is. -/
theorem faithfulName_of_not_mem (hC : D.Complete) (hdid : hasPrefix did "did:tupelo:" = true)
    (hd : Named d) (hshort : hasPrefix n "did:tupelo:" = false)
    (hheld : Held d (TokenName.string ⟨did, n⟩)) (hn : ':' ∉ n.toList) :
    FaithfulName D d did n := by
  have hcut : tokenNameFromString (TokenName.string ⟨did, n⟩) = ⟨did, n⟩ :=
    tokenNameFromString_string hn
  have hlocal : localName (TokenName.string ⟨did, n⟩) = n := congrArg TokenName.localName hcut
  constructor
  · intro m hne hm ord requireDefault tn h heq
    have hstands := (hd.readable.canonicalTokenName_iff hC).mp h
    unfold StandsFor at hstands
    rw [hm] at hstands
    rcases hstands with ⟨rfl, -⟩ | ⟨key, hkey, hname, rfl, -⟩
    · exact hne (string_injective heq)
    · rw [string_tokenNameFromString (hd.colon key hkey)] at heq
      rw [heq, hlocal] at hname
      exact hne hname.symm
  · intro honly ord requireDefault
    refine ⟨⟨did, n⟩, ⟨did, n⟩, ?_, ?_, rfl, rfl⟩
    · refine (hd.readable.canonicalTokenName_iff hC).mpr ?_
      unfold StandsFor
      rw [hshort]
      exact Or.inr ⟨_, hheld, hlocal, hcut.symm, honly⟩
    · refine (hd.readable.canonicalTokenName_iff hC).mpr ?_
      unfold StandsFor
      rw [if_pos (hasPrefix_string hdid)]
      exact ⟨hcut.symm, fun _ => rfl⟩

/-- With one it is not: the full name is refused where the tree's own token is required. -/
theorem not_mem_of_faithfulName (hC : D.Complete) (hdid : hasPrefix did "did:tupelo:" = true)
    (hd : Named d) (h : FaithfulName D d did n) : ':' ∉ n.toList := by
  intro hn
  have honly : ∀ key, Held d key → localName key = n → key = TokenName.string ⟨did, n⟩ := by
    rintro key - rfl
    exact absurd hn (not_mem_localName key)
  obtain ⟨-, tn, -, hfull, -⟩ := h.same honly RangeOrder.plain true
  have hstands := (hd.readable.canonicalTokenName_iff hC).mp hfull
  unfold StandsFor at hstands
  rw [if_pos (hasPrefix_string hdid)] at hstands
  obtain ⟨rfl, hown⟩ := hstands
  exact chainTreeDID_ne hn (hown rfl)

/--
**Names of tokens are faithful if they have no colon.**

In every tree that token transactions made, let a token be established under a local name. The
record is a new one. In every tree that further transactions make, no other local name stands for
it, and its name and full name do, in every order and for all uses, if and only if the name has no
colon. A local name that several tokens have is refused in every order.
-/
theorem established_name_faithful_iff (hL : L.Faithful) (hD : D.Sound) (hC : D.Complete)
    (hdid : hasPrefix did "did:tupelo:" = true) {d₀ d d₁ d₂ : Dag L} (h₀ : NoTokens d₀)
    (h : (ledgerSystem D did d₀).Reach (fun _ _ => true) d) {ord : RangeOrder}
    {txn : Transaction} {payload : EstablishTokenPayload}
    (hpayload : txn.establishTokenPayload = some payload)
    (hshort : hasPrefix payload.name "did:tupelo:" = false)
    (hestablish : establishTokenTransaction D ord did d txn = .ok d₁)
    (hlater : (ledgerSystem D did d₁).Reach (fun _ _ => true) d₂) :
    (¬ Held d (TokenName.string ⟨did, payload.name⟩) ∧
      Held d₁ (TokenName.string ⟨did, payload.name⟩)) ∧
    (FaithfulName D d₂ did payload.name ↔ ':' ∉ payload.name.toList) ∧
    ∀ m key key', hasPrefix m "did:tupelo:" = false → key ≠ key' → Held d₂ key → Held d₂ key' →
      localName key = m → localName key' = m → ∀ ord requireDefault tn,
        canonicalTokenName D ord d₂ did m requireDefault ≠ .ok tn := by
  have hnamed : Named d := by
    refine named_reach hL hD ⟨fun name => ⟨none, h₀ name⟩, ?_⟩ h
    rintro key ⟨r, hr⟩
    cases (h₀ key).symm.trans hr
  have hchange := establish_string hL hD hC hnamed hpayload hshort hestablish
  have hheld₁ : Held d₁ (TokenName.string ⟨did, payload.name⟩) := ⟨_, hchange.after⟩
  have hnamed₁ : Named d₁ := hnamed.of_changes hchange
  have hnamed₂ := named_reach hL hD hnamed₁ hlater
  refine ⟨⟨?_, hheld₁⟩, ⟨not_mem_of_faithfulName hC hdid hnamed₂,
    faithfulName_of_not_mem hC hdid hnamed₂ hshort (held_reach hL hD hnamed₁ hlater hheld₁)⟩, ?_⟩
  · rintro ⟨r, hr⟩
    cases hchange.before.symm.trans hr
  · intro m key key' hm hne hkey hkey' hname hname' ord requireDefault tn htn
    have hstands := (hnamed₂.readable.canonicalTokenName_iff hC).mp htn
    unfold StandsFor at hstands
    rw [hm] at hstands
    rcases hstands with ⟨-, hno⟩ | ⟨key₀, -, -, -, honly⟩
    · exact hno key hkey hname
    · exact hne ((honly key hkey hname).trans (honly key' hkey' hname').symm)

end Reached

namespace LedgerExample

open DagExample ReceiveExample

/-- In a tree without tokens a name stands for a token of the tree. -/
theorem issued_token_is_own_example : ∃ tn,
    canonicalTokenName (DagLib.std Ipld.inFull) RangeOrder.plain (emptyTree Ipld.inFull)
      "did:tupelo:a" "coin" true = .ok tn ∧ tn.chainTreeDID = "did:tupelo:a" ∧
    OwnMatches ((DagLib.std Ipld.inFull).Holds (emptyTree Ipld.inFull)) "did:tupelo:a" "coin" := by
  have hrun : (canonicalTokenName (DagLib.std Ipld.inFull) RangeOrder.plain
      (emptyTree Ipld.inFull) "did:tupelo:a" "coin" true).toOption =
        some ⟨"did:tupelo:a", "coin"⟩ := by decide +kernel
  have htn := toOption_eq_some.mp hrun
  have howned := (issued_token_is_own_iff Ipld.inFull_faithful (DagLib.std_sound _)
    (emptyTree Ipld.inFull) "did:tupelo:a").1 RangeOrder.plain "coin" ⟨"did:tupelo:a", "coin"⟩ htn
  exact ⟨⟨"did:tupelo:a", "coin"⟩, htn, rfl, howned.mp rfl⟩

/-- The tree `b` receives one coin of the tree `a`. Then `coin` stands for the coin of `a`. -/
theorem foreign_token_named : ∃ d,
    tokenTransactor (DagLib.std Ipld.inFull) Ranges.plain "did:tupelo:b" receiver
      (receiving (receipt [toB])) = .ok d ∧
    canonicalTokenName (DagLib.std Ipld.inFull) RangeOrder.plain d "did:tupelo:b" "coin" true =
      .ok ⟨"did:tupelo:a", "coin"⟩ := by
  have hrun : (tokenTransactor (DagLib.std Ipld.inFull) Ranges.plain "did:tupelo:b" receiver
      (receiving (receipt [toB]))).toOption.bind (fun d =>
        (canonicalTokenName (DagLib.std Ipld.inFull) RangeOrder.plain d "did:tupelo:b" "coin"
          true).toOption) = some ⟨"did:tupelo:a", "coin"⟩ := by decide +kernel
  obtain ⟨d, hd, htn⟩ := Option.bind_eq_some_iff.mp hrun
  exact ⟨d, toOption_eq_some.mp hd, toOption_eq_some.mp htn⟩

theorem established_name_faithful_example : ∃ d,
    establishTokenTransaction (DagLib.std Ipld.inFull) RangeOrder.plain "did:tupelo:a"
      (emptyTree Ipld.inFull) (establish "coin" 0) = .ok d ∧
    FaithfulName (DagLib.std Ipld.inFull) d "did:tupelo:a" "coin" := by
  have hrun : (establishTokenTransaction (DagLib.std Ipld.inFull) RangeOrder.plain "did:tupelo:a"
      (emptyTree Ipld.inFull) (establish "coin" 0)).toOption.isSome = true := by decide +kernel
  obtain ⟨d, hd⟩ := Option.isSome_iff_exists.mp hrun
  have hd := toOption_eq_some.mp hd
  obtain ⟨-, hfaithful, -⟩ := established_name_faithful_iff Ipld.inFull_faithful
    (DagLib.std_sound _) (DagLib.std_complete _) (by decide +kernel) (noTokens_emptyTree _)
    System.Reach.start rfl (by decide +kernel) hd System.Reach.start
  exact ⟨d, hd, hfaithful.mpr (by decide +kernel)⟩

/-- The token is established under `x:coin`, then five are minted of `coin`. -/
theorem other_name_resolves : ∃ d d' r,
    establishTokenTransaction (DagLib.std Ipld.inFull) RangeOrder.plain "did:tupelo:a"
      (emptyTree Ipld.inFull) (establish "x:coin" 0) = .ok d ∧
    Held d (TokenName.string ⟨"did:tupelo:a", "x:coin"⟩) ∧
    tokenTransactor (DagLib.std Ipld.inFull) Ranges.plain "did:tupelo:a" d (mint "coin" 5) =
      .ok d' ∧
    tokenRecord d' (TokenName.string ⟨"did:tupelo:a", "x:coin"⟩) = some (some r) ∧
      r.mints = [{ amount := 5 }] := by
  have hrun : (establishTokenTransaction (DagLib.std Ipld.inFull) RangeOrder.plain "did:tupelo:a"
      (emptyTree Ipld.inFull) (establish "x:coin" 0)).toOption.bind (fun d =>
        (tokenTransactor (DagLib.std Ipld.inFull) Ranges.plain "did:tupelo:a" d
          (mint "coin" 5)).toOption.map fun d' =>
            (tokenRecord d (TokenName.string ⟨"did:tupelo:a", "x:coin"⟩),
              tokenRecord d' (TokenName.string ⟨"did:tupelo:a", "x:coin"⟩))) =
      some (some (some (TokenRecord.new (some { maximum := 0 }))), some (some
        { policy := some { maximum := 0 }, mints := [{ amount := 5 }], sends := [], receives := []
          balance := 5 })) := by
    decide +kernel
  obtain ⟨d, hd, hrun⟩ := Option.bind_eq_some_iff.mp hrun
  obtain ⟨d', hd', hrun⟩ := Option.map_eq_some_iff.mp hrun
  obtain ⟨hr, hr'⟩ := Prod.mk.inj hrun
  exact ⟨d, d', _, toOption_eq_some.mp hd, ⟨_, hr⟩, toOption_eq_some.mp hd', hr', rfl⟩

end LedgerExample

end Tupelo

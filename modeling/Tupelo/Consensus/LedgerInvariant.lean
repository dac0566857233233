import Mathlib.Tactic.Abel
import Tupelo.Consensus.LedgerSpec
import Tupelo.Infra.Transition

/-!
# The invariant of the ledger

What an accepted token transaction does to the records of a tree: it changes one, in one of four
ways (`RecordStep`). From this the invariant of all sequences of transactions follows: a balance
is what was minted and received less what was sent, in the arithmetic of `uint64`; nothing is
received twice under one id; the lists of a record only get longer.
-/

namespace Tupelo

open Infra

/-- What a transaction does to the record of its token. -/
inductive RecordStep : Option TokenRecord → TokenRecord → Prop where
  | establish (p : TokenMonetaryPolicy) : RecordStep none (TokenRecord.new (some p))
  | mint (r : TokenRecord) {amount : UInt64} (hamount : amount ≠ 0)
      (hmax : 0 < r.maximum → r.minted + amount ≤ r.maximum) :
      RecordStep (some r) (r.mint amount)
  | send (r : TokenRecord) {s : TokenSend} (hamount : s.amount ≠ 0) (hle : s.amount ≤ r.balance) :
      RecordStep (some r) (r.send s)
  | receive (x : Option TokenRecord) {tr : TokenReceive}
      (hids : ∀ tr' ∈ (x.getD (TokenRecord.new none)).receives,
        tr'.sendTokenTransactionId ≠ tr.sendTokenTransactionId) :
      RecordStep x ((x.getD (TokenRecord.new none)).receive tr)

section Transactor

variable {L : Ipld} (D : DagLib L)
variable {txn : Transaction} {did : String} {ord : RangeOrder} {ranges : Ranges}

/-- The token a transaction is about. -/
def transactionToken (ranges : Ranges) (chainTreeDID : String) (tree : Dag L)
    (txn : Transaction) : Except Fault TokenName :=
  match txn.type with
  | .establishToken => do
    let payload ← deref txn.establishTokenPayload
    canonicalTokenName D ranges.tokens tree chainTreeDID payload.name true
  | .mintToken => do
    let payload ← deref txn.mintTokenPayload
    canonicalTokenName D ranges.tokens tree chainTreeDID payload.name true
  | .sendToken => do
    let payload ← deref txn.sendTokenPayload
    canonicalTokenName D ranges.tokens tree chainTreeDID payload.name false
  | .receiveToken => do
    let payload ← deref txn.receiveTokenPayload
    let senderDag ← getSenderDagFromReceive D payload
    let (tokenName, _) ← selectSend D ranges senderDag
    return tokenName
  | _ => .error (.error "not a token transaction")

/-- Every token of the tree has a record or is not there. -/
def Readable (d : Dag L) : Prop := ∀ name, ∃ x, tokenRecord d name = some x

/-- The change a transaction makes: one token's record takes a step, no other record changes. -/
structure Changes (d d' : Dag L) (name : String) (x : Option TokenRecord) (r : TokenRecord) :
    Prop where
  before : tokenRecord d name = some x
  after : tokenRecord d' name = some (some r)
  others : SameOthers name d d'

variable {D}

theorem transactionToken_mintToken {d : Dag L} {payload : MintTokenPayload} {tokenName : TokenName}
    (htype : txn.type = .mintToken) (hpayload : txn.mintTokenPayload = some payload)
    (hname : canonicalTokenName D ranges.tokens d did payload.name true = .ok tokenName) :
    transactionToken D ranges did d txn = .ok tokenName := by
  unfold transactionToken
  simp only [htype, hpayload, deref, ok_bind, hname]

theorem establishTokenTransaction_spec (hL : L.Faithful) (hD : D.Sound) {d d' : Dag L}
    (hd : Readable d) (h : establishTokenTransaction D ord did d txn = .ok d') :
    ∃ payload tokenName, txn.establishTokenPayload = some payload ∧
      canonicalTokenName D ord d did payload.name true = .ok tokenName ∧
      Changes d d' tokenName.string none
        (TokenRecord.new (some (payload.monetaryPolicy.getD { maximum := 0 }))) := by
  obtain ⟨payload, tokenName, hpayload, hname, hexists, h⟩ := establishTokenTransaction_ok h
  obtain ⟨x, hx⟩ := hd tokenName.string
  have hsome := tokenExists_spec hD hx hexists
  cases x with
  | some r => cases hsome
  | none =>
    obtain ⟨hrec, hothers⟩ := establishToken_spec hL hD h
    exact ⟨payload, tokenName, hpayload, hname, hx, hrec, hothers⟩

theorem mintTokenTransaction_spec (hL : L.Faithful) (hD : D.Sound) {d d' : Dag L} (hd : Readable d)
    (h : mintTokenTransaction D ord did d txn = .ok d') :
    ∃ payload tokenName r, txn.mintTokenPayload = some payload ∧
      canonicalTokenName D ord d did payload.name true = .ok tokenName ∧ payload.amount ≠ 0 ∧
      (0 < r.maximum → r.minted + payload.amount ≤ r.maximum) ∧
      Changes d d' tokenName.string (some r) (r.mint payload.amount) := by
  obtain ⟨payload, tokenName, hpayload, hname, h⟩ := mintTokenTransaction_ok h
  obtain ⟨x, hx⟩ := hd tokenName.string
  obtain ⟨r, rfl, hamount, hmax, hrec, hothers⟩ := mintToken_spec hL hD hx h
  exact ⟨payload, tokenName, r, hpayload, hname, hamount, hmax, hx, hrec, hothers⟩

theorem sendTokenTransaction_spec (hL : L.Faithful) (hD : D.Sound) {d d' : Dag L} (hd : Readable d)
    (h : sendTokenTransaction D ord did d txn = .ok d') :
    ∃ payload tokenName r, txn.sendTokenPayload = some payload ∧
      canonicalTokenName D ord d did payload.name false = .ok tokenName ∧ payload.amount ≠ 0 ∧
      payload.amount ≤ r.balance ∧ Changes d d' tokenName.string (some r) (r.send
        { id := payload.id, amount := payload.amount, destination := payload.destination }) := by
  obtain ⟨payload, tokenName, hpayload, hname, h⟩ := sendTokenTransaction_ok h
  obtain ⟨x, hx⟩ := hd tokenName.string
  obtain ⟨r, rfl, hamount, hle, hrec, hothers⟩ := sendToken_spec hL hD hx h
  exact ⟨payload, tokenName, r, hpayload, hname, hamount, hle, hx, hrec, hothers⟩

theorem receiveTokenTransaction_spec (hL : L.Faithful) (hD : D.Sound) {d d' : Dag L}
    (hd : Readable d) (h : receiveTokenTransaction D ranges did d txn = .ok d') :
    ∃ payload senderDag tokenName tokenSend x,
      txn.receiveTokenPayload = some payload ∧
      getSenderDagFromReceive D payload = .ok senderDag ∧ L.cast payload.tip = .ok senderDag.tip ∧
      selectSend D ranges senderDag = .ok (tokenName, tokenSend) ∧
      (∀ tr ∈ (x.getD (TokenRecord.new none)).receives,
        tr.sendTokenTransactionId ≠ payload.sendTokenTransactionId) ∧
      Changes d d' tokenName.string x ((x.getD (TokenRecord.new none)).receive
        { sendTokenTransactionId := payload.sendTokenTransactionId
          amount := tokenSend.amount }) := by
  obtain ⟨payload, senderDag, tokenName, tokenSend, hpayload, hdag, htip, hselect, h⟩ :=
    receiveTokenTransaction_ok h
  obtain ⟨x, hx⟩ := hd tokenName.string
  obtain ⟨hids, hrec, hothers⟩ := receiveToken_spec hL hD hx h
  exact ⟨payload, senderDag, tokenName, tokenSend, x, hpayload, hdag, htip, hselect, hids, hx,
    hrec, hothers⟩

/-- **An accepted transaction takes one record a step and leaves the others.** -/
theorem tokenTransactor_spec (hL : L.Faithful) (hD : D.Sound) {d d' : Dag L} (hd : Readable d)
    (h : tokenTransactor D ranges did d txn = .ok d') :
    ∃ tokenName x r, transactionToken D ranges did d txn = .ok tokenName ∧ RecordStep x r ∧
      Changes d d' tokenName.string x r := by
  cases htype : txn.type with
  | establishToken =>
    rw [tokenTransactor, htype] at h
    obtain ⟨payload, tokenName, hpayload, hname, hchange⟩ :=
      establishTokenTransaction_spec hL hD hd h
    refine ⟨tokenName, _, _, ?_, RecordStep.establish _, hchange⟩
    rw [transactionToken, htype]
    simp only [hpayload, deref, ok_bind, hname]
  | mintToken =>
    rw [tokenTransactor, htype] at h
    obtain ⟨payload, tokenName, r, hpayload, hname, hamount, hmax, hchange⟩ :=
      mintTokenTransaction_spec hL hD hd h
    refine ⟨tokenName, _, _, ?_, RecordStep.mint r hamount hmax, hchange⟩
    rw [transactionToken, htype]
    simp only [hpayload, deref, ok_bind, hname]
  | sendToken =>
    rw [tokenTransactor, htype] at h
    obtain ⟨payload, tokenName, r, hpayload, hname, hamount, hle, hchange⟩ :=
      sendTokenTransaction_spec hL hD hd h
    refine ⟨tokenName, _, _, ?_, RecordStep.send r hamount hle, hchange⟩
    rw [transactionToken, htype]
    simp only [hpayload, deref, ok_bind, hname]
  | receiveToken =>
    rw [tokenTransactor, htype] at h
    obtain ⟨payload, senderDag, tokenName, tokenSend, x, hpayload, hdag, -, hselect, hids,
      hchange⟩ := receiveTokenTransaction_spec hL hD hd h
    refine ⟨tokenName, _, _, ?_, RecordStep.receive x hids, hchange⟩
    rw [transactionToken, htype]
    simp only [hpayload, deref, ok_bind, hdag, hselect]
    rfl
  | setData | setOwnership | stake =>
    rw [tokenTransactor, htype] at h
    cases h

end Transactor

/-! ## What every record satisfies -/

namespace TokenRecord

/-- What has been received and sent, in the arithmetic of the ledger. -/
def received (r : TokenRecord) : UInt64 := (r.receives.map (·.amount)).sum
def sent (r : TokenRecord) : UInt64 := (r.sends.map (·.amount)).sum

/-- The invariant of a record. The equation is one of `uint64`, that is modulo 2^64. -/
structure Valid (r : TokenRecord) : Prop where
  balance : r.balance = r.minted + r.received - r.sent
  ids_nodup : (r.receives.map (·.sendTokenTransactionId)).Nodup

/-- Every list of the one record is the start of the other's. -/
structure Extends (r r' : TokenRecord) : Prop where
  mints : r.mints <+: r'.mints
  sends : r.sends <+: r'.sends
  receives : r.receives <+: r'.receives
  policy : r'.policy = r.policy

theorem valid_new (policy : Option TokenMonetaryPolicy) : Valid (new policy) where
  balance := by
    show (0 : UInt64) = 0 + 0 - 0
    decide
  ids_nodup := List.nodup_nil

theorem Valid.mint {r : TokenRecord} (h : Valid r) (amount : UInt64) : Valid (r.mint amount) where
  balance := by
    have hminted : (r.mint amount).minted = r.minted + amount := by simp [TokenRecord.mint, minted]
    show r.balance + amount = (r.mint amount).minted + r.received - r.sent
    rw [hminted, h.balance]
    abel
  ids_nodup := h.ids_nodup

theorem Valid.send {r : TokenRecord} (h : Valid r) (s : TokenSend) : Valid (r.send s) where
  balance := by
    have hsent : (r.send s).sent = r.sent + s.amount := by simp [TokenRecord.send, sent]
    show r.balance - s.amount = r.minted + r.received - (r.send s).sent
    rw [hsent, h.balance]
    abel
  ids_nodup := h.ids_nodup

theorem Valid.receive {r : TokenRecord} (h : Valid r) {tr : TokenReceive}
    (hids : ∀ tr' ∈ r.receives, tr'.sendTokenTransactionId ≠ tr.sendTokenTransactionId) :
    Valid (r.receive tr) where
  balance := by
    have hreceived : (r.receive tr).received = r.received + tr.amount := by
      simp [TokenRecord.receive, received]
    show r.balance + tr.amount = r.minted + (r.receive tr).received - r.sent
    rw [hreceived, h.balance]
    abel
  ids_nodup := by
    show ((r.receives ++ [tr]).map (·.sendTokenTransactionId)).Nodup
    rw [List.map_append, List.map_singleton, List.nodup_append]
    refine ⟨h.ids_nodup, List.nodup_singleton _, ?_⟩
    intro a ha b hb
    obtain ⟨tr', htr', rfl⟩ := List.mem_map.mp ha
    rw [List.mem_singleton.mp hb]
    exact hids tr' htr'

end TokenRecord

/-- The step lemma: a step keeps the invariant. -/
theorem RecordStep.valid {x : Option TokenRecord} {r : TokenRecord} (h : RecordStep x r)
    (hx : ∀ r₀, x = some r₀ → r₀.Valid) : r.Valid := by
  cases h with
  | establish p => exact TokenRecord.valid_new _
  | mint r hamount hmax => exact (hx r rfl).mint _
  | send r hamount hle => exact (hx r rfl).send _
  | receive x hids =>
    refine TokenRecord.Valid.receive ?_ hids
    cases x with
    | none => exact TokenRecord.valid_new none
    | some r₀ => exact hx r₀ rfl

theorem RecordStep.extends {r r' : TokenRecord} (h : RecordStep (some r) r') : r.Extends r' := by
  cases h with
  | mint _ hamount hmax =>
    exact ⟨List.prefix_append _ _, List.prefix_refl _, List.prefix_refl _, rfl⟩
  | send _ hamount hle =>
    exact ⟨List.prefix_refl _, List.prefix_append _ _, List.prefix_refl _, rfl⟩
  | receive _ hids =>
    exact ⟨List.prefix_refl _, List.prefix_refl _, List.prefix_append _ _, rfl⟩

theorem TokenRecord.Extends.refl (r : TokenRecord) : r.Extends r :=
  ⟨List.prefix_refl _, List.prefix_refl _, List.prefix_refl _, rfl⟩

section Run

variable {L : Ipld} {D : DagLib L}
variable {did name name' : String} {x : Option TokenRecord} {r : TokenRecord}

theorem Changes.readable {d d' : Dag L} (h : Changes d d' name x r) (hd : Readable d) :
    Readable d' := by
  intro name'
  by_cases hname : name' = name
  · subst hname
    exact ⟨some r, h.after⟩
  · obtain ⟨y, hy⟩ := hd name'
    exact ⟨y, h.others.records name' y hname hy⟩

/-- The records after a change, by those before. -/
theorem Changes.cases {d d' : Dag L} (h : Changes d d' name x r) (hd : Readable d)
    {r' : TokenRecord} (hr' : tokenRecord d' name' = some (some r')) :
    (name' = name ∧ r' = r) ∨ tokenRecord d name' = some (some r') := by
  by_cases hname : name' = name
  · subst hname
    exact Or.inl ⟨rfl, Option.some.inj (Option.some.inj (hr'.symm.trans h.after))⟩
  · obtain ⟨y, hy⟩ := hd name'
    obtain rfl := Option.some.inj (hr'.symm.trans (h.others.records name' y hname hy))
    exact Or.inr hy

/-- A token that had a record either took the step or was left alone. -/
theorem Changes.of_record {d d' : Dag L} (h : Changes d d' name x r) {r₀ : TokenRecord}
    (hr₀ : tokenRecord d name' = some (some r₀)) :
    (name' = name ∧ x = some r₀ ∧ tokenRecord d' name' = some (some r)) ∨
      tokenRecord d' name' = some (some r₀) := by
  by_cases hname : name' = name
  · subst hname
    exact Or.inl ⟨rfl, Option.some.inj (h.before.symm.trans hr₀), h.after⟩
  · exact Or.inr (h.others.records name' _ hname hr₀)

theorem Changes.extends {d d' : Dag L} (h : Changes d d' name x r) (hstep : RecordStep x r)
    {r₀ : TokenRecord} (hr₀ : tokenRecord d name' = some (some r₀)) :
    ∃ r', tokenRecord d' name' = some (some r') ∧ r₀.Extends r' := by
  rcases h.of_record hr₀ with ⟨-, rfl, hafter⟩ | hafter
  · exact ⟨r, hafter, hstep.extends⟩
  · exact ⟨r₀, hafter, TokenRecord.Extends.refl r₀⟩

/-- A tree that takes token transactions one after the other. -/
def ledgerSystem (D : DagLib L) (did : String) (d₀ : Dag L) :
    System (Dag L) (Ranges × Transaction) where
  start := d₀
  act d a := (tokenTransactor D a.1 did d a.2).toOption

/-- A tree without tokens. -/
def NoTokens (d : Dag L) : Prop := ∀ name, tokenRecord d name = some none

/-- The tree of a new chain tree. -/
def emptyTree (L : Ipld) : Dag L := MerkleDag.Dag.ofNodes (.map []) []

theorem noTokens_emptyTree (L : Ipld) : NoTokens (emptyTree L) := by
  intro name
  exact tokenRecord_eq_some_none.mpr
    (Option.bind_eq_some_iff.mpr ⟨.map [], MerkleDag.Store.nodes_add_self _ _, rfl⟩)

/-- The invariant of a tree. -/
structure LedgerInv (d : Dag L) : Prop where
  readable : Readable d
  valid : ∀ name r, tokenRecord d name = some (some r) → r.Valid

theorem ledgerInv_step (hL : L.Faithful) (hD : D.Sound) {ranges : Ranges} {d d' : Dag L}
    {txn : Transaction} (hd : LedgerInv d) (h : tokenTransactor D ranges did d txn = .ok d') :
    LedgerInv d' := by
  obtain ⟨tokenName, x, r, -, hstep, hchange⟩ := tokenTransactor_spec hL hD hd.readable h
  refine ⟨hchange.readable hd.readable, ?_⟩
  intro name' r' hr'
  rcases hchange.cases hd.readable hr' with ⟨-, rfl⟩ | hbefore
  · exact hstep.valid fun r₀ hr₀ => hd.valid _ r₀ (hr₀ ▸ hchange.before)
  · exact hd.valid name' r' hbefore

theorem ledgerInv_reach (hL : L.Faithful) (hD : D.Sound) {d₀ d : Dag L} (h₀ : NoTokens d₀)
    {ok : Dag L → Ranges × Transaction → Bool} (h : (ledgerSystem D did d₀).Reach ok d) :
    LedgerInv d := by
  refine h.invariant (P := LedgerInv) ⟨fun name => ⟨none, h₀ name⟩, ?_⟩ ?_
  · intro name r hr
    cases (h₀ name).symm.trans hr
  · intro s a s' hs _ hact
    exact ledgerInv_step hL hD hs (toOption_eq_some.mp hact)

/--
**The invariant of the ledger.**

In every tree that a sequence of accepted token transactions makes of one without tokens, each
token's balance is what was minted and received less what was sent, modulo 2^64, and its
receives have distinct ids. A further transaction that is accepted is about one token: the
records of the others stay as they are, and in no record does a list change but by getting
longer at its end.
-/
theorem ledger_invariant (hL : L.Faithful) (hD : D.Sound) {did : String} {d₀ d : Dag L}
    (h₀ : NoTokens d₀) (h : (ledgerSystem D did d₀).Reach (fun _ _ => true) d) :
    (∀ name r, tokenRecord d name = some (some r) →
      r.balance = r.minted + r.received - r.sent ∧
      (r.receives.map (·.sendTokenTransactionId)).Nodup) ∧
    ∀ ranges txn d', tokenTransactor D ranges did d txn = .ok d' →
      ∃ tokenName, transactionToken D ranges did d txn = .ok tokenName ∧
        (∀ name, name ≠ tokenName.string → tokenRecord d' name = tokenRecord d name) ∧
        ∀ name r, tokenRecord d name = some (some r) → ∃ r',
          tokenRecord d' name = some (some r') ∧ r.mints <+: r'.mints ∧
          r.sends <+: r'.sends ∧ r.receives <+: r'.receives := by
  have hinv := ledgerInv_reach hL hD h₀ h
  refine ⟨?_, ?_⟩
  · intro name r hr
    have hvalid := hinv.valid name r hr
    exact ⟨hvalid.balance, hvalid.ids_nodup⟩
  · intro ranges txn d' hd'
    obtain ⟨tokenName, x, r, htoken, hstep, hchange⟩ :=
      tokenTransactor_spec hL hD hinv.readable hd'
    refine ⟨tokenName, htoken, ?_, ?_⟩
    · intro name hne
      obtain ⟨y, hy⟩ := hinv.readable name
      rw [hy, hchange.others.records name y hne hy]
    · intro name r₀ hr₀
      obtain ⟨r', hr', hext⟩ := hchange.extends hstep hr₀
      exact ⟨r', hr', hext.mints, hext.sends, hext.receives⟩

end Run

namespace LedgerExample

def establish (name : String) (maximum : UInt64) : Transaction where
  type := .establishToken
  establishTokenPayload := some { name, monetaryPolicy := some { maximum } }

def mint (name : String) (amount : UInt64) : Transaction where
  type := .mintToken
  mintTokenPayload := some { name, amount }

def send (id name : String) (amount : UInt64) (destination : String) : Transaction where
  type := .sendToken
  sendTokenPayload := some { id, name, amount, destination }

noncomputable def system : System (Dag Ipld.inFull) (Ranges × Transaction) :=
  ledgerSystem (DagLib.std Ipld.inFull) "did:tupelo:a" (emptyTree Ipld.inFull)

/-- One token is minted twice and sent once. -/
def transactions : List (Ranges × Transaction) :=
  [(Ranges.plain, establish "coin" 0), (Ranges.plain, mint "coin" 30),
    (Ranges.plain, mint "coin" 30), (Ranges.plain, send "1" "coin" 20 "did:tupelo:b")]

theorem ledger_invariant_example : ∃ d r,
    system.run (fun _ _ => true) transactions = some d ∧
    tokenRecord d "did:tupelo:a:coin" = some (some r) ∧
    r.mints = [{ amount := 30 }, { amount := 30 }] ∧
    r.sends = [{ id := "1", amount := 20, destination := "did:tupelo:b" }] ∧
    r.balance = r.minted + r.received - r.sent ∧
    (r.receives.map (·.sendTokenTransactionId)).Nodup := by
  have hrun : (system.run (fun _ _ => true) transactions).map
      (fun d => tokenRecord d "did:tupelo:a:coin") = some (some (some
        { policy := some { maximum := 0 }, mints := [{ amount := 30 }, { amount := 30 }]
          sends := [{ id := "1", amount := 20, destination := "did:tupelo:b" }]
          receives := [], balance := 40 })) := by decide +kernel
  obtain ⟨d, hd, hr⟩ := Option.map_eq_some_iff.mp hrun
  have hinv := ledger_invariant Ipld.inFull_faithful (DagLib.std_sound _)
    (noTokens_emptyTree _) (System.reach_of_run hd)
  exact ⟨d, _, hd, hr, rfl, rfl, hinv.1 _ _ hr⟩

end LedgerExample

end Tupelo

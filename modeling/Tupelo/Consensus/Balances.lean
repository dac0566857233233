import Tupelo.Consensus.Network

/-!
# Balances as numbers

The ledger adds to balances in `uint64` and tests no sum. A policy limits what is minted, if it
has a maximum, and nothing limits what is received. So a balance moves by the amount of a
transaction, as unbounded numbers, exactly as long as the sum fits.
-/

namespace Tupelo

open Infra

variable {L : Ipld}

/-- The balance that is stored for a token. A token that is not there has none. -/
def balanceOf (d : Dag L) (name : String) : Nat :=
  match tokenRecord d name with
  | some (some r) => r.balance.toNat
  | _ => 0

theorem balanceOf_eq {d : Dag L} {name : String} {x : Option TokenRecord}
    (h : tokenRecord d name = some x) :
    balanceOf d name = (x.getD (TokenRecord.new none)).balance.toNat := by
  unfold balanceOf
  rw [h]
  cases x with
  | none => rfl
  | some r => rfl

/-- An accepted transaction moves the balance of its token by its amount. -/
def MovesBalance (D : DagLib L) (ranges : Ranges) (did : String) (d : Dag L) (txn : Transaction)
    (d' : Dag L) : Prop :=
  match txn.type with
  | .mintToken => ∃ payload tokenName, txn.mintTokenPayload = some payload ∧
      transactionToken D ranges did d txn = .ok tokenName ∧
      balanceOf d' tokenName.string = balanceOf d tokenName.string + payload.amount.toNat
  | .sendToken => ∃ payload tokenName, txn.sendTokenPayload = some payload ∧
      transactionToken D ranges did d txn = .ok tokenName ∧
      payload.amount.toNat ≤ balanceOf d tokenName.string ∧
      balanceOf d' tokenName.string = balanceOf d tokenName.string - payload.amount.toNat
  | .receiveToken => ∃ payload tokenName send,
      receivedSend D ranges txn = .ok (payload, tokenName, send) ∧
      balanceOf d' tokenName.string = balanceOf d tokenName.string + send.amount.toNat
  | _ => True

section Transactions

variable {D : DagLib L} {ranges : Ranges} {did : String} {d d' : Dag L} {txn : Transaction}

/-- A change of one record, which stays exact if it was. -/
def KeepsExact (d d' : Dag L) : Prop :=
  ∃ name x r, Changes d d' name x r ∧ ((x.getD (TokenRecord.new none)).Exact → r.Exact)

/-- A record whose balance has taken an amount that fits. -/
theorem Changes.balanceOf_add {name : String} {x : Option TokenRecord} {r : TokenRecord}
    (h : Changes d d' name x r) {amount : UInt64}
    (hr : r.balance = (x.getD (TokenRecord.new none)).balance + amount)
    (hfits : (x.getD (TokenRecord.new none)).balance.toNat + amount.toNat < 2 ^ 64) :
    balanceOf d' name = balanceOf d name + amount.toNat := by
  rw [balanceOf_eq h.after, balanceOf_eq h.before, Option.getD_some, hr, UInt64.toNat_add,
    Nat.mod_eq_of_lt hfits]

theorem mintToken_movesBalance (hL : L.Faithful) (hD : D.Sound) (hd : Readable d)
    (htype : txn.type = .mintToken) (h : mintTokenTransaction D ranges.tokens did d txn = .ok d')
    (hfits : noOverflow D did ranges d txn = true) :
    MovesBalance D ranges did d txn d' ∧ KeepsExact d d' := by
  obtain ⟨payload, tokenName, r, hpayload, hname, -, -, hchange⟩ :=
    mintTokenTransaction_spec hL hD hd h
  have htoken := transactionToken_mintToken htype hpayload hname
  have hlt : r.balance.toNat + payload.amount.toNat < 2 ^ 64 :=
    fits_spec (x := some r) hchange.before
      (by simpa [noOverflow, htype, htoken, hpayload] using hfits)
  refine ⟨?_, _, _, _, hchange, fun hexact => hexact.mint hlt⟩
  unfold MovesBalance
  rw [htype]
  exact ⟨payload, tokenName, hpayload, htoken, hchange.balanceOf_add rfl hlt⟩

theorem sendToken_movesBalance (hL : L.Faithful) (hD : D.Sound) (hd : Readable d)
    (htype : txn.type = .sendToken) (h : sendTokenTransaction D ranges.tokens did d txn = .ok d') :
    MovesBalance D ranges did d txn d' ∧ KeepsExact d d' := by
  obtain ⟨payload, tokenName, r, hpayload, hname, -, hle, hchange⟩ :=
    sendTokenTransaction_spec hL hD hd h
  refine ⟨?_, _, _, _, hchange, fun hexact => hexact.send hle⟩
  unfold MovesBalance
  rw [htype]
  refine ⟨payload, tokenName, hpayload, ?_, ?_, ?_⟩
  · unfold transactionToken
    simp only [htype, hpayload, deref, ok_bind, hname]
  · rw [balanceOf_eq hchange.before]
    exact UInt64.le_iff_toNat_le.mp hle
  · rw [balanceOf_eq hchange.before, balanceOf_eq hchange.after]
    exact UInt64.toNat_sub_of_le _ _ hle

theorem receiveToken_movesBalance (hL : L.Faithful) (hD : D.Sound) (hd : Readable d)
    (htype : txn.type = .receiveToken) (h : receiveTokenTransaction D ranges did d txn = .ok d')
    (hfits : noOverflow D did ranges d txn = true) :
    MovesBalance D ranges did d txn d' ∧ KeepsExact d d' := by
  obtain ⟨payload, senderDag, tokenName, s, x, hpayload, hdag, -, hselect, -, hchange⟩ :=
    receiveTokenTransaction_spec hL hD hd h
  have hfound := receivedSend_eq htype hpayload hdag hselect
  have hlt : (x.getD (TokenRecord.new none)).balance.toNat + s.amount.toNat < 2 ^ 64 :=
    fits_spec hchange.before (by simpa [noOverflow, htype, hfound] using hfits)
  refine ⟨?_, _, _, _, hchange, fun hexact => hexact.receive hlt⟩
  unfold MovesBalance
  rw [htype]
  exact ⟨payload, tokenName, s, hfound, hchange.balanceOf_add rfl hlt⟩

/-- **The step lemma**: a transaction whose sum fits moves the balance and keeps the sums. -/
theorem tokenTransactor_movesBalance (hL : L.Faithful) (hD : D.Sound) (hd : Readable d)
    (h : tokenTransactor D ranges did d txn = .ok d')
    (hfits : noOverflow D did ranges d txn = true) :
    MovesBalance D ranges did d txn d' ∧ KeepsExact d d' := by
  unfold tokenTransactor at h
  split at h
  · next htype =>
    obtain ⟨payload, tokenName, -, -, hchange⟩ := establishTokenTransaction_spec hL hD hd h
    refine ⟨?_, _, _, _, hchange, fun _ => TokenRecord.exact_new _⟩
    unfold MovesBalance
    rw [htype]
    trivial
  · next htype => exact mintToken_movesBalance hL hD hd htype h hfits
  · next htype => exact sendToken_movesBalance hL hD hd htype h
  · next htype => exact receiveToken_movesBalance hL hD hd htype h hfits
  · cases h

/-- Every record of the tree is readable and exact. -/
structure ExactInv (d : Dag L) : Prop where
  readable : Readable d
  exact : ∀ name r, tokenRecord d name = some (some r) → r.Exact

theorem KeepsExact.exactInv (h : KeepsExact d d') (hd : ExactInv d) : ExactInv d' := by
  obtain ⟨name, x, r, hchange, hkeeps⟩ := h
  refine ⟨hchange.readable hd.readable, ?_⟩
  intro name' r' hr'
  rcases hchange.cases hd.readable hr' with ⟨-, rfl⟩ | hbefore
  · refine hkeeps ?_
    have hx := hchange.before
    cases x with
    | none => exact TokenRecord.exact_new none
    | some r₀ => exact hd.exact name r₀ hx
  · exact hd.exact name' r' hbefore

/--
**Balances are numbers as long as the sums fit.**

In every tree that transactions whose sums fit make of one without tokens, the balance of a token
is, as a number, what was minted and received less what was sent. A further transaction whose sum
fits adds its amount to the balance of its token, or takes it away.
-/
theorem balances_never_wrap (hL : L.Faithful) (hD : D.Sound) {d₀ : Dag L} (h₀ : NoTokens d₀)
    (h : (ledgerSystem D did d₀).Reach (fun d a => noOverflow D did a.1 d a.2) d) :
    (∀ name r, tokenRecord d name = some (some r) →
      r.balance.toNat + (r.sends.map (·.amount.toNat)).sum =
        (r.mints.map (·.amount.toNat)).sum + (r.receives.map (·.amount.toNat)).sum) ∧
    ∀ ranges txn d', tokenTransactor D ranges did d txn = .ok d' →
      noOverflow D did ranges d txn = true → MovesBalance D ranges did d txn d' := by
  have hinv : ExactInv d := by
    refine h.invariant (P := ExactInv) ⟨fun name => ⟨none, h₀ name⟩, ?_⟩ ?_
    · intro name r hr
      cases (h₀ name).symm.trans hr
    · intro s a s' hs hok hact
      exact (tokenTransactor_movesBalance hL hD hs.readable (toOption_eq_some.mp hact)
        hok).2.exactInv hs
  refine ⟨?_, ?_⟩
  · intro name r hr
    have hexact := hinv.exact name r hr
    unfold TokenRecord.Exact TokenRecord.exactSent TokenRecord.exactReceived at hexact
    simpa [TokenRecord.exactMinted, exactSum, Function.comp_def] using hexact
  · intro ranges txn d' hd' hfits
    exact (tokenTransactor_movesBalance hL hD hinv.readable hd' hfits).1

end Transactions

namespace LedgerExample

/-- A token without a maximum, and a balance that takes one more mint. -/
theorem balances_never_wrap_example : ∃ d d' tokenName,
    system.run (fun d a => noOverflow (DagLib.std Ipld.inFull) "did:tupelo:a" a.1 d a.2)
      transactions = some d ∧
    tokenTransactor (DagLib.std Ipld.inFull) Ranges.plain "did:tupelo:a" d (mint "coin" 2) =
      .ok d' ∧
    transactionToken (DagLib.std Ipld.inFull) Ranges.plain "did:tupelo:a" d (mint "coin" 2) =
      .ok tokenName ∧
    balanceOf d' tokenName.string = balanceOf d tokenName.string + 2 := by
  have hrun : ((system.run
      (fun d a => noOverflow (DagLib.std Ipld.inFull) "did:tupelo:a" a.1 d a.2)
      transactions).bind fun d =>
        if noOverflow (DagLib.std Ipld.inFull) "did:tupelo:a" Ranges.plain d (mint "coin" 2) then
          (tokenTransactor (DagLib.std Ipld.inFull) Ranges.plain "did:tupelo:a" d
            (mint "coin" 2)).toOption
        else none).isSome = true := by decide +kernel
  obtain ⟨d', hd'⟩ := Option.isSome_iff_exists.mp hrun
  obtain ⟨d, hd, hd'⟩ := Option.bind_eq_some_iff.mp hd'
  split at hd'
  · next hfits =>
    have hact := toOption_eq_some.mp hd'
    obtain ⟨payload, tokenName, hpayload, htoken, hbalance⟩ :=
      (balances_never_wrap Ipld.inFull_faithful (DagLib.std_sound _) (noTokens_emptyTree _)
        (System.reach_of_run hd)).2 Ranges.plain (mint "coin" 2) d' hact hfits
    rw [← Option.some.inj hpayload] at hbalance
    exact ⟨d, d', tokenName, hd, hact, htoken, hbalance⟩
  · cases hd'

/-- A balance of 2^64 - 1 and a mint of 2, which leave 1. -/
theorem balance_wraps : ∃ d d',
    system.Reach (fun _ _ => true) d ∧
    tokenTransactor (DagLib.std Ipld.inFull) Ranges.plain "did:tupelo:a" d (mint "coin" 2) =
      .ok d' ∧
    balanceOf d "did:tupelo:a:coin" = 2 ^ 64 - 1 ∧ balanceOf d' "did:tupelo:a:coin" = 1 := by
  have hrun : ((system.run (fun _ _ => true) [(Ranges.plain, establish "coin" 0),
      (Ranges.plain, mint "coin" (0 - 1))]).bind fun d =>
        (tokenTransactor (DagLib.std Ipld.inFull) Ranges.plain "did:tupelo:a" d
          (mint "coin" 2)).toOption.map fun d' =>
            (balanceOf d "did:tupelo:a:coin", balanceOf d' "did:tupelo:a:coin")) =
      some (2 ^ 64 - 1, 1) := by decide +kernel
  obtain ⟨d, hd, hbalances⟩ := Option.bind_eq_some_iff.mp hrun
  obtain ⟨d', hd', hbalances⟩ := Option.map_eq_some_iff.mp hbalances
  obtain ⟨hbefore, hafter⟩ := Prod.mk.inj hbalances
  exact ⟨d, d', System.reach_of_run hd, toOption_eq_some.mp hd', hbefore, hafter⟩

end LedgerExample

end Tupelo

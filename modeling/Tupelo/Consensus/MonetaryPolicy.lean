import Tupelo.Consensus.LedgerInvariant
import Tupelo.Infra.Sums

/-!
# The cap of a monetary policy

`MintToken` adds up the mints of a token and compares the sum, with the new amount, to the
policy's maximum. Both additions are of `uint64`. Where they do not wrap around the cap holds;
a mint that makes them wrap passes the test.
-/

namespace Tupelo

open Infra

/-- What has been minted, as a natural number. -/
def TokenRecord.exactMinted (r : TokenRecord) : Nat := exactSum (r.mints.map (·.amount))

theorem TokenRecord.exactMinted_mint (r : TokenRecord) (amount : UInt64) :
    (r.mint amount).exactMinted = r.exactMinted + amount.toNat := by
  simp [exactMinted, TokenRecord.mint]

variable {L : Ipld} {D : DagLib L}

/--
If the transaction is a mint of the token, its amount and the mints before it add up to less than
2^64.
-/
def noWrap (D : DagLib L) (did name : String) (d : Dag L) (a : Ranges × Transaction) : Bool :=
  match transactionToken D a.1 did d a.2, a.2.mintTokenPayload with
  | .ok tokenName, some payload =>
    match a.2.type, tokenRecord d name with
    | .mintToken, some (some r) =>
      tokenName.string ≠ name ∨ r.exactMinted + payload.amount.toNat < 2 ^ 64
    | _, _ => true
  | _, _ => true

/-- The test of the policy, where it does not wrap. -/
theorem exactMinted_le_of_check {r : TokenRecord} {amount : UInt64}
    (hcheck : r.minted + amount ≤ r.maximum) (hfits : r.exactMinted + amount.toNat < 2 ^ 64) :
    r.exactMinted + amount.toNat ≤ r.maximum.toNat := by
  have hminted : r.minted.toNat = r.exactMinted := toNat_sum_of_lt (by
    unfold TokenRecord.exactMinted at hfits
    omega)
  have hle := UInt64.le_iff_toNat_le.mp hcheck
  rwa [UInt64.toNat_add, hminted, Nat.mod_eq_of_lt hfits] at hle

/-- The token has the policy and its mints are within the maximum. -/
structure Capped (name : String) (p : TokenMonetaryPolicy) (d : Dag L) : Prop where
  readable : Readable d
  capped : ∃ r, tokenRecord d name = some (some r) ∧ r.policy = some p ∧
    r.exactMinted ≤ p.maximum.toNat

/-- A transaction that does not touch the mints of a record. -/
theorem Capped.of_changes {name name' : String} {p : TokenMonetaryPolicy} {d d' : Dag L}
    {x : Option TokenRecord} {r : TokenRecord} (hd : Capped name p d)
    (hchange : Changes d d' name' x r)
    (hkeep : ∀ r₀, x = some r₀ → r.policy = r₀.policy ∧ r.mints = r₀.mints) :
    Capped name p d' := by
  refine ⟨hchange.readable hd.readable, ?_⟩
  obtain ⟨r₀, hr₀, hpolicy, hle⟩ := hd.capped
  rcases hchange.of_record hr₀ with ⟨-, hx, hafter⟩ | hafter
  · obtain ⟨hp, hm⟩ := hkeep r₀ hx
    refine ⟨r, hafter, hp.trans hpolicy, ?_⟩
    unfold TokenRecord.exactMinted
    rw [hm]
    exact hle
  · exact ⟨r₀, hafter, hpolicy, hle⟩

/-- The step lemma: a transaction that does not wrap keeps the cap. -/
theorem capped_step (hL : L.Faithful) (hD : D.Sound) {ranges : Ranges} {did name : String}
    {p : TokenMonetaryPolicy} (hmax : 0 < p.maximum) {d d' : Dag L} {txn : Transaction}
    (hd : Capped name p d) (hok : noWrap D did name d (ranges, txn) = true)
    (h : tokenTransactor D ranges did d txn = .ok d') : Capped name p d' := by
  unfold tokenTransactor at h
  split at h
  · obtain ⟨payload, tokenName, -, -, hchange⟩ :=
      establishTokenTransaction_spec hL hD hd.readable h
    exact hd.of_changes hchange fun r₀ hr₀ => by cases hr₀
  · next htype =>
    obtain ⟨payload, tokenName, r, hpayload, hname, -, hcheck, hchange⟩ :=
      mintTokenTransaction_spec hL hD hd.readable h
    refine ⟨hchange.readable hd.readable, ?_⟩
    obtain ⟨r₀, hr₀, hpolicy, hle⟩ := hd.capped
    rcases hchange.of_record hr₀ with ⟨rfl, hx, hafter⟩ | hafter
    · obtain rfl := Option.some.inj hx
      have hmaximum : r.maximum = p.maximum := by
        unfold TokenRecord.maximum
        rw [hpolicy]
        rfl
      have hfits : r.exactMinted + payload.amount.toNat < 2 ^ 64 := by
        have htoken := transactionToken_mintToken htype hpayload hname
        simpa [noWrap, htoken, hpayload, htype, hchange.before] using hok
      refine ⟨_, hafter, hpolicy, ?_⟩
      rw [TokenRecord.exactMinted_mint, ← hmaximum]
      exact exactMinted_le_of_check (hcheck (by rw [hmaximum]; exact hmax)) hfits
    · exact ⟨r₀, hafter, hpolicy, hle⟩
  · obtain ⟨payload, tokenName, r, -, -, -, -, hchange⟩ :=
      sendTokenTransaction_spec hL hD hd.readable h
    refine hd.of_changes hchange fun r₀ hr₀ => ?_
    obtain rfl := Option.some.inj hr₀
    exact ⟨rfl, rfl⟩
  · obtain ⟨payload, senderDag, tokenName, tokenSend, x, -, -, -, -, -, hchange⟩ :=
      receiveTokenTransaction_spec hL hD hd.readable h
    refine hd.of_changes hchange fun r₀ hr₀ => ?_
    subst hr₀
    exact ⟨rfl, rfl⟩
  · cases h

/--
**The monetary policy caps what is minted.**

Let a token be established with a maximum above zero, in any tree that token transactions made.
In every tree that later transactions make, none of them a mint of this token that makes the sum
of its mints reach 2^64, the token has that policy and its mints add up to at most the maximum.
-/
theorem establish_caps_mints (hL : L.Faithful) (hD : D.Sound) {did : String}
    {d₀ d d₁ : Dag L} (h₀ : NoTokens d₀)
    (h : (ledgerSystem D did d₀).Reach (fun _ _ => true) d) {ord : RangeOrder}
    {txn : Transaction} {payload : EstablishTokenPayload} {p : TokenMonetaryPolicy}
    (hpayload : txn.establishTokenPayload = some payload)
    (hpolicy : payload.monetaryPolicy = some p) (hmax : 0 < p.maximum)
    (hestablish : establishTokenTransaction D ord did d txn = .ok d₁) :
    ∃ tokenName, canonicalTokenName D ord d did payload.name true = .ok tokenName ∧
      ∀ {d₂}, (ledgerSystem D did d₁).Reach (noWrap D did tokenName.string) d₂ →
        ∃ r, tokenRecord d₂ tokenName.string = some (some r) ∧ r.policy = some p ∧
          (r.mints.map (·.amount.toNat)).sum ≤ p.maximum.toNat := by
  have hinv := ledgerInv_reach hL hD h₀ h
  obtain ⟨payload', tokenName, hpayload', hname, hchange⟩ :=
    establishTokenTransaction_spec hL hD hinv.readable hestablish
  obtain rfl : payload' = payload :=
    Option.some.inj (hpayload'.symm.trans hpayload)
  rw [hpolicy] at hchange
  have hstart : Capped tokenName.string p d₁ :=
    ⟨hchange.readable hinv.readable, _, hchange.after, rfl, Nat.zero_le _⟩
  refine ⟨tokenName, hname, fun {d₂} hlater => ?_⟩
  have hcapped : Capped tokenName.string p d₂ :=
    hlater.invariant (P := Capped tokenName.string p) hstart
      fun _ _ _ hs hok hact => capped_step hL hD hmax hs hok (toOption_eq_some.mp hact)
  obtain ⟨r, hr, hrp, hle⟩ := hcapped.capped
  refine ⟨r, hr, hrp, ?_⟩
  simpa [TokenRecord.exactMinted, exactSum, Function.comp_def] using hle

namespace LedgerExample

/-- The token is established with a maximum of 42; then 40 are minted, and the last two. -/
theorem establish_caps_mints_example : ∃ d₁ d₂ r,
    establishTokenTransaction (DagLib.std Ipld.inFull) RangeOrder.plain "did:tupelo:a"
      (emptyTree Ipld.inFull) (establish "coin" 42) = .ok d₁ ∧
    (ledgerSystem (DagLib.std Ipld.inFull) "did:tupelo:a" d₁).run
      (noWrap (DagLib.std Ipld.inFull) "did:tupelo:a" "did:tupelo:a:coin")
      [(Ranges.plain, mint "coin" 40), (Ranges.plain, mint "coin" 2)] = some d₂ ∧
    tokenRecord d₂ "did:tupelo:a:coin" = some (some r) ∧
      (r.mints.map (·.amount.toNat)).sum ≤ 42 := by
  have hrun : ((establishTokenTransaction (DagLib.std Ipld.inFull) RangeOrder.plain "did:tupelo:a"
      (emptyTree Ipld.inFull) (establish "coin" 42)).toOption.bind fun d₁ =>
      (ledgerSystem (DagLib.std Ipld.inFull) "did:tupelo:a" d₁).run
        (noWrap (DagLib.std Ipld.inFull) "did:tupelo:a" "did:tupelo:a:coin")
        [(Ranges.plain, mint "coin" 40), (Ranges.plain, mint "coin" 2)]).isSome = true := by
    decide +kernel
  have hname : (canonicalTokenName (DagLib.std Ipld.inFull) RangeOrder.plain
      (emptyTree Ipld.inFull) "did:tupelo:a" "coin" true).map TokenName.string =
        .ok "did:tupelo:a:coin" := by decide +kernel
  obtain ⟨d₂, h₂⟩ := Option.isSome_iff_exists.mp hrun
  obtain ⟨d₁, h₁, h₂⟩ := Option.bind_eq_some_iff.mp h₂
  have h₁ := toOption_eq_some.mp h₁
  obtain ⟨tokenName, htoken, hcaps⟩ := establish_caps_mints Ipld.inFull_faithful
    (DagLib.std_sound _) (noTokens_emptyTree _) System.Reach.start rfl rfl (by decide) h₁
  have htoken : canonicalTokenName (DagLib.std Ipld.inFull) RangeOrder.plain
      (emptyTree Ipld.inFull) "did:tupelo:a" "coin" true = .ok tokenName := htoken
  rw [htoken] at hname
  have hstring : tokenName.string = "did:tupelo:a:coin" := Except.ok.inj hname
  rw [hstring] at hcaps
  obtain ⟨r, hr, -, hle⟩ := hcaps (System.reach_of_run h₂)
  exact ⟨d₁, d₂, r, h₁, h₂, hr, hle⟩

/-- A maximum of 42, 40 minted, then 2^64 - 20: the sum wraps to 20 and passes. -/
theorem minted_beyond_maximum : ∃ d r,
    system.run (fun _ _ => true) [(Ranges.plain, establish "coin" 42),
      (Ranges.plain, mint "coin" 40), (Ranges.plain, mint "coin" (0 - 20))] = some d ∧
    tokenRecord d "did:tupelo:a:coin" = some (some r) ∧ r.policy = some { maximum := 42 } ∧
    42 < (r.mints.map (·.amount.toNat)).sum := by
  have hrun : (system.run (fun _ _ => true) [(Ranges.plain, establish "coin" 42),
      (Ranges.plain, mint "coin" 40), (Ranges.plain, mint "coin" (0 - 20))]).map
      (fun d => tokenRecord d "did:tupelo:a:coin") = some (some (some
        { policy := some { maximum := 42 }, mints := [{ amount := 40 }, { amount := 0 - 20 }]
          sends := [], receives := [], balance := 20 })) := by decide +kernel
  obtain ⟨d, hd, hr⟩ := Option.map_eq_some_iff.mp hrun
  exact ⟨d, _, hd, hr, rfl, by decide⟩

end LedgerExample

end Tupelo

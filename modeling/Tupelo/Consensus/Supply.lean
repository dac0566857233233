import Tupelo.Infra.Latest
import Tupelo.Consensus.MonetaryPolicy

/-!
# The supply of a token over all trees

The abstract side of sending and receiving between trees. The state is the records of the tokens
of all trees and a log of credits: who was credited which send of which token. As long as each
credit is of a send to its receiver, under the send's own id, no send is credited twice, and the
balances of a token add up to at most its mints.

Amounts are added here as natural numbers.
-/

namespace Tupelo

open Infra

/-- A receive that was accepted, with the send it was found to be about. -/
structure Credit where
  receiver : String
  token : String
  send : TokenSend
  deriving DecidableEq

namespace TokenRecord

def exactSent (r : TokenRecord) : Nat := exactSum (r.sends.map (·.amount))
def exactReceived (r : TokenRecord) : Nat := exactSum (r.receives.map (·.amount))

/-- The balance adds up without wrapping around. -/
def Exact (r : TokenRecord) : Prop :=
  r.balance.toNat + r.exactSent = r.exactMinted + r.exactReceived

theorem exact_new (policy : Option TokenMonetaryPolicy) : (new policy).Exact := rfl

theorem Exact.mint {r : TokenRecord} (h : r.Exact) {amount : UInt64}
    (hfits : r.balance.toNat + amount.toNat < 2 ^ 64) : (r.mint amount).Exact := by
  have hbalance : (r.mint amount).balance.toNat = r.balance.toNat + amount.toNat := by
    show (r.balance + amount).toNat = _
    rw [UInt64.toNat_add, Nat.mod_eq_of_lt hfits]
  have hsent : (r.mint amount).exactSent = r.exactSent := rfl
  have hreceived : (r.mint amount).exactReceived = r.exactReceived := rfl
  unfold Exact at h ⊢
  rw [hbalance, hsent, hreceived, exactMinted_mint]
  omega

theorem Exact.send {r : TokenRecord} (h : r.Exact) {s : TokenSend}
    (hle : s.amount ≤ r.balance) : (r.send s).Exact := by
  have hle' := UInt64.le_iff_toNat_le.mp hle
  have hbalance : (r.send s).balance.toNat = r.balance.toNat - s.amount.toNat :=
    UInt64.toNat_sub_of_le _ _ hle
  have hsent : (r.send s).exactSent = r.exactSent + s.amount.toNat := by
    simp [TokenRecord.send, exactSent]
  have hminted : (r.send s).exactMinted = r.exactMinted := rfl
  have hreceived : (r.send s).exactReceived = r.exactReceived := rfl
  unfold Exact at h ⊢
  rw [hbalance, hsent, hminted, hreceived]
  omega

theorem Exact.receive {r : TokenRecord} (h : r.Exact) {tr : TokenReceive}
    (hfits : r.balance.toNat + tr.amount.toNat < 2 ^ 64) : (r.receive tr).Exact := by
  have hbalance : (r.receive tr).balance.toNat = r.balance.toNat + tr.amount.toNat := by
    show (r.balance + tr.amount).toNat = _
    rw [UInt64.toNat_add, Nat.mod_eq_of_lt hfits]
  have hreceived : (r.receive tr).exactReceived = r.exactReceived + tr.amount.toNat := by
    simp [TokenRecord.receive, exactReceived]
  have hsent : (r.receive tr).exactSent = r.exactSent := rfl
  have hminted : (r.receive tr).exactMinted = r.exactMinted := rfl
  unfold Exact at h ⊢
  rw [hbalance, hsent, hminted, hreceived]
  omega

end TokenRecord

/-- The record of each token of each tree. -/
abbrev Records := String → String → Option TokenRecord

namespace Records

/-- The record with an absent token read as an empty one. -/
def recordAt (recs : Records) (did token : String) : TokenRecord :=
  (recs did token).getD (TokenRecord.new none)

def set (recs : Records) (did token : String) (r : TokenRecord) : Records :=
  Function.update recs did (Function.update (recs did) token (some r))

theorem set_self (recs : Records) (did token : String) (r : TokenRecord) :
    (recs.set did token r) did token = some r := by
  simp [set]

theorem set_of_ne (recs : Records) {did token did' token' : String} (r : TokenRecord)
    (h : ¬(did' = did ∧ token' = token)) :
    (recs.set did token r) did' token' = recs did' token' := by
  unfold set
  by_cases hd : did' = did
  · subst hd
    have ht : token' ≠ token := fun ht => h ⟨rfl, ht⟩
    simp [ht]
  · simp [hd]

end Records

/-- The credits of a token, and those of them one tree got. -/
def creditsFor (credits : List Credit) (token : String) : List Credit :=
  credits.filter fun c => c.token = token

def creditsTo (credits : List Credit) (token did : String) : List Credit :=
  (creditsFor credits token).filter fun c => c.receiver = did

/-- The receive a credit is recorded as. -/
def Credit.asReceive (c : Credit) : TokenReceive :=
  { sendTokenTransactionId := c.send.id, amount := c.send.amount }

/-- The invariant of the records of all trees and the log of credits. -/
structure SupplyInv (dids : List String) (recs : Records) (credits : List Credit) : Prop where
  received : ∀ did token,
    (recs.recordAt did token).receives = (creditsTo credits token did).map Credit.asReceive
  destination : ∀ c ∈ credits, c.send.destination = c.receiver
  sent : ∀ c ∈ credits, ∃ did ∈ dids, c.send ∈ (recs.recordAt did c.token).sends
  once : (credits.map fun c => (c.token, c.send)).Nodup
  balances : ∀ did token, (recs.recordAt did token).Exact

/-! ## The steps -/

variable {dids : List String} {recs : Records} {credits : List Credit} {did token : String}

theorem recordAt_set (r : TokenRecord) (did' token' : String) :
    (recs.set did token r).recordAt did' token' =
      if did' = did ∧ token' = token then r else recs.recordAt did' token' := by
  unfold Records.recordAt
  by_cases h : did' = did ∧ token' = token
  · obtain ⟨rfl, rfl⟩ := h
    rw [Records.set_self, if_pos ⟨rfl, rfl⟩]
    rfl
  · rw [Records.set_of_ne recs r h, if_neg h]

/-- A step that credits nothing: the receives stay, the sends may get more. -/
theorem SupplyInv.step (h : SupplyInv dids recs credits) {r : TokenRecord}
    (hreceives : r.receives = (recs.recordAt did token).receives)
    (hsends : (recs.recordAt did token).sends ⊆ r.sends) (hexact : r.Exact) :
    SupplyInv dids (recs.set did token r) credits where
  received := by
    intro did' token'
    rw [recordAt_set]
    split
    · next heq =>
      obtain ⟨rfl, rfl⟩ := heq
      rw [hreceives, h.received]
    · exact h.received did' token'
  destination := h.destination
  sent := by
    intro c hc
    obtain ⟨did', hdid', hmem⟩ := h.sent c hc
    refine ⟨did', hdid', ?_⟩
    rw [recordAt_set]
    split
    · next heq =>
      obtain ⟨rfl, rfl⟩ := heq
      exact hsends hmem
    · exact hmem
  once := h.once
  balances := by
    intro did' token'
    rw [recordAt_set]
    split
    · exact hexact
    · exact h.balances did' token'

/-- A send to a tree that its receives do not have the id of has not been credited. -/
theorem SupplyInv.not_credited (h : SupplyInv dids recs credits) {s : TokenSend}
    (hdest : s.destination = did)
    (hids : ∀ tr ∈ (recs.recordAt did token).receives, tr.sendTokenTransactionId ≠ s.id) :
    (token, s) ∉ credits.map fun c => (c.token, c.send) := by
  intro hmem
  obtain ⟨c, hc, heq⟩ := List.mem_map.mp hmem
  obtain ⟨rfl, rfl⟩ := Prod.mk.inj heq
  have hreceiver : c.receiver = did := by rw [← h.destination c hc, hdest]
  have hto : c ∈ creditsTo credits c.token did :=
    List.mem_filter.mpr ⟨List.mem_filter.mpr ⟨hc, by simp⟩, by simp [hreceiver]⟩
  refine hids c.asReceive ?_ rfl
  rw [h.received]
  exact List.mem_map_of_mem hto

theorem creditsTo_concat (credits : List Credit) (c : Credit) (token did : String) :
    creditsTo (credits ++ [c]) token did =
      creditsTo credits token did ++
        if did = c.receiver ∧ token = c.token then [c] else [] := by
  unfold creditsTo creditsFor
  rw [List.filter_append, List.filter_append]
  congr 1
  by_cases ht : c.token = token
  · by_cases hd : c.receiver = did
    · simp [ht, hd]
    · simp [ht, hd, Ne.symm hd]
  · simp [ht, Ne.symm ht]

/-- **A credit of a send to its receiver, under the id of the send.** -/
theorem SupplyInv.credit (h : SupplyInv dids recs credits) {s : TokenSend}
    (hdest : s.destination = did)
    (hids : ∀ tr ∈ (recs.recordAt did token).receives, tr.sendTokenTransactionId ≠ s.id)
    (hsent : ∃ sender ∈ dids, s ∈ (recs.recordAt sender token).sends)
    (hfits : (recs.recordAt did token).balance.toNat + s.amount.toNat < 2 ^ 64) :
    SupplyInv dids (recs.set did token ((recs.recordAt did token).receive
      { sendTokenTransactionId := s.id, amount := s.amount }))
      (credits ++ [{ receiver := did, token, send := s }]) where
  received := by
    intro did' token'
    rw [recordAt_set, creditsTo_concat]
    split
    · next heq =>
      obtain ⟨rfl, rfl⟩ := heq
      rw [List.map_append, ← h.received]
      rfl
    · rw [List.append_nil]
      exact h.received did' token'
  destination := forall_mem_concat h.destination hdest
  sent := by
    -- receiving leaves the sends of every record
    have hsends : ∀ sender t, ((recs.set did token ((recs.recordAt did token).receive
        { sendTokenTransactionId := s.id, amount := s.amount })).recordAt sender t).sends =
          (recs.recordAt sender t).sends := by
      intro sender t
      rw [recordAt_set]
      split
      · next heq =>
        obtain ⟨rfl, rfl⟩ := heq
        rfl
      · rfl
    intro c hc
    rcases List.mem_append.mp hc with hc | hc
    · obtain ⟨sender, hsender, hmem⟩ := h.sent c hc
      exact ⟨sender, hsender, by rw [hsends]; exact hmem⟩
    · rw [List.mem_singleton.mp hc]
      obtain ⟨sender, hsender, hmem⟩ := hsent
      exact ⟨sender, hsender, by rw [hsends]; exact hmem⟩
  once := by
    rw [List.map_append, List.nodup_append]
    refine ⟨h.once, List.nodup_singleton _, ?_⟩
    intro a ha b hb heq
    rw [List.map_singleton, List.mem_singleton] at hb
    rw [heq, hb] at ha
    exact h.not_credited hdest hids ha
  balances := by
    intro did' token'
    rw [recordAt_set]
    split
    · exact (h.balances did token).receive hfits
    · exact h.balances did' token'

/-! ## The sums over all trees -/

/-- What the trees received of a token is at most what they sent. -/
theorem SupplyInv.received_le_sent (h : SupplyInv dids recs credits) (hdids : dids.Nodup)
    (token : String) :
    (dids.map fun did => (recs.recordAt did token).exactReceived).sum ≤
      (dids.map fun did => (recs.recordAt did token).exactSent).sum := by
  have hreceived : ∀ did, (recs.recordAt did token).exactReceived =
      ((creditsTo credits token did).map fun c => c.send.amount.toNat).sum := by
    intro did
    unfold TokenRecord.exactReceived exactSum
    rw [h.received, List.map_map, List.map_map]
    rfl
  have hnodup : ((creditsFor credits token).map fun c => c.send).Nodup := by
    have hsub : ((creditsFor credits token).map fun c => (c.token, c.send)).Nodup :=
      (List.Sublist.map _ List.filter_sublist).nodup h.once
    refine List.Nodup.of_map (fun s => (token, s)) ?_
    rw [List.map_map]
    rwa [List.map_congr_left (g := fun c => (c.token, c.send))]
    intro c hc
    have hc' : c.token = token := by simpa using (List.mem_filter.mp hc).2
    rw [← hc']
    rfl
  have hsubset : ((creditsFor credits token).map fun c => c.send) ⊆
      dids.flatMap fun did => (recs.recordAt did token).sends := by
    intro s hs
    obtain ⟨c, hc, rfl⟩ := List.mem_map.mp hs
    obtain ⟨hc, htoken⟩ := List.mem_filter.mp hc
    obtain ⟨did, hdid, hmem⟩ := h.sent c hc
    have hc' : c.token = token := by simpa using htoken
    rw [hc'] at hmem
    exact List.mem_flatMap.mpr ⟨did, hdid, hmem⟩
  calc (dids.map fun did => (recs.recordAt did token).exactReceived).sum
      = (dids.map fun did => ((creditsTo credits token did).map
          fun c => c.send.amount.toNat).sum).sum := by simp only [hreceived]
    _ ≤ ((creditsFor credits token).map fun c => c.send.amount.toNat).sum :=
        sum_parts_le hdids Credit.receiver _ _
    _ = (((creditsFor credits token).map fun c => c.send).map fun s => s.amount.toNat).sum := by
        rw [List.map_map]
        rfl
    _ ≤ ((dids.flatMap fun did => (recs.recordAt did token).sends).map
          fun s => s.amount.toNat).sum :=
        sum_le_of_nodup_subset hnodup hsubset _
    _ = (dids.map fun did => (recs.recordAt did token).exactSent).sum := by
        rw [List.map_flatMap, List.flatMap, List.sum_flatten, List.map_map]
        simp only [TokenRecord.exactSent, exactSum, List.map_map]
        rfl

/-- **The balances of a token add up to at most its mints.** -/
theorem SupplyInv.balance_le_minted (h : SupplyInv dids recs credits) (hdids : dids.Nodup)
    (token : String) :
    (dids.map fun did => (recs.recordAt did token).balance.toNat).sum ≤
      (dids.map fun did => (recs.recordAt did token).exactMinted).sum := by
  have hle := h.received_le_sent hdids token
  have hsums : (dids.map fun did => (recs.recordAt did token).balance.toNat).sum +
      (dids.map fun did => (recs.recordAt did token).exactSent).sum =
      (dids.map fun did => (recs.recordAt did token).exactMinted).sum +
      (dids.map fun did => (recs.recordAt did token).exactReceived).sum := by
    rw [← List.sum_map_add, ← List.sum_map_add]
    exact congrArg List.sum (List.map_congr_left fun did _ => h.balances did token)
  omega

end Tupelo

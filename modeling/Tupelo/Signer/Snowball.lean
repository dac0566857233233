import Mathlib.Algebra.Order.Field.Rat
import Tupelo.Infra.GoMap
import Tupelo.Ipld

/-!
# Votes and the snowball

The model of `signer/gossip/vote.go` and `signer/gossip/snowball.go`.

The votes of one tick are tallied, the one with the highest tally is the majority of the tick,
and the snowball decides when the majority has been the same for more than `beta` ticks.

Tallies are computed in `float64`, over maps that are ranged over in any order. The arithmetic
is a parameter, and so are the orders: nothing below depends on either. What the tallies do
decide is only *which* of the votes becomes the majority. It is always one of the votes that
were given, and never one that was nilled out.
-/

namespace Tupelo

open Infra

/-- The arithmetic that the tallies are computed in. -/
structure FloatArith where
  F : Type
  ofNat : Nat → F
  add : F → F → F
  sub : F → F → F
  mul : F → F → F
  div : F → F → F
  lt : F → F → Bool

/-- Arithmetic that does not round. -/
def exactArith : FloatArith where
  F := ℚ
  ofNat n := n
  add a b := a + b
  sub a b := a - b
  mul a b := a * b
  div a b := a / b
  lt a b := decide (a < b)

/-! ## `vote.go` -/

/-- `Vote`. Its id is that of the checkpoint, so it is not kept next to it. -/
structure Vote (A : FloatArith) where
  checkpoint : Option Checkpoint
  tallyCount : A.F

def zeroVoteID : String := "n"

namespace Vote

variable {A : FloatArith}

/-- What `Nil` makes of a vote. -/
def nil (A : FloatArith) : Vote A := { checkpoint := none, tallyCount := A.ofNat 0 }

def id (L : Ipld) (v : Vote A) : String :=
  match v.checkpoint with
  | none => zeroVoteID
  | some cp => L.cidString (L.cidOf (.checkpoint cp))

def setTally (v : Vote A) (n : A.F) : Vote A := { v with tallyCount := n }

def length (v : Vote A) : A.F :=
  match v.checkpoint with
  | none => A.ofNat 0
  | some cp => A.ofNat cp.addBlockRequests.length

end Vote

/-- The orders of the ranges whose result may depend on it. -/
structure TallyOrders where
  minimum : MapOrder
  maximum : MapOrder
  total : MapOrder
  votes : MapOrder

def TallyOrders.plain : TallyOrders :=
  ⟨MapOrder.plain, MapOrder.plain, MapOrder.plain, MapOrder.plain⟩

section Tallies

variable {A : FloatArith} (L : Ipld)

def computeProfitWeights (responses : List (Vote A)) : GoMap String A.F :=
  let (weights, max) := responses.foldl (fun (acc : GoMap String A.F × A.F) res =>
    if res.id L = zeroVoteID then acc
    else
      let weight := A.add ((acc.1.lookup (res.id L)).getD (A.ofNat 0)) res.length
      (acc.1.insert (res.id L) weight, if A.lt acc.2 weight then weight else acc.2))
    (∅, A.ofNat 0)
  GoMap.mapValues weights fun _ weight => A.div weight max

def normalize (orders : TallyOrders) (weights : GoMap String A.F) : GoMap String A.F :=
  -- find the minimum weight
  let min := (orders.minimum.order (GoMap.pairs weights)).foldl
    (fun min e => if A.lt e.2 min then e.2 else min) (A.ofNat 1)
  -- subtract it, and find the maximum of what is left
  let max := (orders.maximum.order (GoMap.pairs weights)).foldl
    (fun max e => if A.lt max (A.sub e.2 min) then A.sub e.2 min else max) (A.ofNat 0)
  GoMap.mapValues weights fun _ weight =>
    -- `max == 0`; it is never less than it
    if !A.lt (A.ofNat 0) max then A.ofNat 1 else A.div (A.sub weight min) max

/-- One vote for each id: the first response that has it, with the share of all that do. -/
def countResponses (responses : List (Vote A)) : GoMap String (Vote A) :=
  responses.foldl (fun votes res =>
    let vote := (votes.lookup (res.id L)).getD res
    let share := A.div (A.ofNat 1) (A.ofNat responses.length)
    votes.insert (res.id L) (vote.setTally (A.add vote.tallyCount share))) ∅

def calculateTallies (orders : TallyOrders) (responses : List (Vote A)) : List (Vote A) :=
  let weights := normalize orders (computeProfitWeights L responses)
  let votes := GoMap.mapValues (countResponses L responses) fun id (vote : Vote A) =>
    match weights.lookup id with
    | some weight => vote.setTally (A.mul vote.tallyCount weight)
    | none => vote
  let totalTally := (orders.total.order (GoMap.pairs votes)).foldl
    (fun total e => A.add total e.2.tallyCount) (A.ofNat 0)
  (orders.votes.order (GoMap.pairs votes)).map fun e =>
    e.2.setTally (A.div e.2.tallyCount totalTally)

end Tallies

/-! ## `snowball.go` -/

/-- `Snowball`. -/
structure Snowball (A : FloatArith) where
  alpha : A.F
  beta : Int
  k : Nat
  count : Nat
  counts : GoMap String UInt16
  totalCount : UInt64
  preferred : Option (Vote A)
  last : Option (Vote A)
  decided : Bool

namespace Snowball

variable {A : FloatArith} (L : Ipld)

/-- `NewSnowball`. -/
def new (alpha : A.F) (beta : Int) (k : Nat) : Snowball A :=
  { alpha, beta, k, count := 0, counts := ∅, totalCount := 0, preferred := none, last := none
    decided := false }

def preferInLock (s : Snowball A) (v : Vote A) : Snowball A :=
  { s with
    preferred := some v
    counts := if (s.counts.lookup (v.id L)).isSome then s.counts else s.counts.insert (v.id L) 1 }

/-- `s.counts[id]`. -/
def countOf (s : Snowball A) (id : String) : UInt16 := (s.counts.lookup id).getD 0

/-- The loop of `Tick`: the first of the votes with the highest tally, without the empty vote. -/
def majority (votes : List (Vote A)) : Option (Vote A) :=
  votes.foldl (fun majority vote =>
    if vote.id L = zeroVoteID then majority
    else match majority with
      | none => some vote
      | some m => if A.lt m.tallyCount vote.tallyCount then some vote else some m) none

/-- `Tick` past the threshold: the majority has one more tick to its name. -/
def countMajority (s : Snowball A) (m : Vote A) : Snowball A :=
  let s := { s with counts := s.counts.insert (m.id L) (s.countOf (m.id L) + 1) }
  match s.preferred with
  | none => { s with preferred := some m }
  | some preferred =>
    if s.countOf (preferred.id L) < s.countOf (m.id L) then { s with preferred := some m } else s

/-- `Tick`, its last part: the majority is a new one, or the last one again. -/
def followMajority (s : Snowball A) (m : Vote A) : Snowball A :=
  match s.last with
  | none => { s with last := some m, count := 1 }
  | some last =>
    if m.id L ≠ last.id L then { s with last := some m, count := 1 }
    else
      let s := { s with count := s.count + 1 }
      if s.beta < (s.count : Int) then { s.preferInLock L last with decided := true } else s

/-- `s.alpha*2/denom`. -/
def threshold (s : Snowball A) (votes : List (Vote A)) : A.F :=
  let denom := A.ofNat votes.length
  A.div (A.mul s.alpha (A.ofNat 2)) (if A.lt denom (A.ofNat 2) then A.ofNat 2 else denom)

def tick (s : Snowball A) (votes : List (Vote A)) : Snowball A :=
  let s := { s with totalCount := s.totalCount + 1 }
  if s.decided then s
  else
    match majority L votes with
    | none => { s with count := 0 }
    | some m =>
      if A.lt m.tallyCount (s.threshold votes) then
        -- without a preference the highest tally is preferred no matter what
        let s := if s.preferred.isNone then s.preferInLock L m else s
        { s with count := 0 }
      else (s.countMajority L m).followMajority L m

end Snowball

/-! ## The votes that are tallied are the votes that were given -/

section Given

variable {A : FloatArith} {L : Ipld} {P : Checkpoint → Prop}

/-- What a vote is for has the property, if it is for anything. -/
def Vote.For (P : Checkpoint → Prop) (v : Vote A) : Prop := ∀ cp, v.checkpoint = some cp → P cp

theorem Vote.for_nil (P : Checkpoint → Prop) : (Vote.nil A).For P := by
  intro cp h
  cases h

/-- One more response in the count: it is new, or adds to the vote that stands for its id. -/
theorem forall_countResponses_step {votes : GoMap String (Vote A)} {res : Vote A} {share : A.F}
    (hvotes : ∀ id v, votes.lookup id = some v → v.For P) (hres : res.For P) :
    let vote := (votes.lookup (res.id L)).getD res
    ∀ id v, (votes.insert (res.id L) (vote.setTally (A.add vote.tallyCount share))).lookup id =
      some v → v.For P := by
  intro vote id v hv
  by_cases hid : id = res.id L
  · subst hid
    rw [AList.lookup_insert] at hv
    rw [← Option.some.inj hv]
    show vote.For P
    cases hl : votes.lookup (res.id L) with
    | none =>
      have hvote : vote = res := by simp only [vote, hl, Option.getD_none]
      rw [hvote]
      exact hres
    | some old =>
      have hvote : vote = old := by simp only [vote, hl, Option.getD_some]
      rw [hvote]
      exact hvotes _ old hl
  · rw [AList.lookup_insert_ne hid] at hv
    exact hvotes id v hv

theorem forall_countResponses {responses : List (Vote A)} (h : ∀ v ∈ responses, v.For P) :
    ∀ id v, (countResponses L responses).lookup id = some v → v.For P := by
  unfold countResponses
  refine List.foldlRecOn (motive := fun votes : GoMap String (Vote A) =>
    ∀ id v, votes.lookup id = some v → v.For P) responses _ ?_ ?_
  · intro id v hv
    simp at hv
  · intro votes hvotes res hres
    exact forall_countResponses_step hvotes (h res hres)

theorem forall_calculateTallies {orders : TallyOrders} {responses : List (Vote A)}
    (h : ∀ v ∈ responses, v.For P) : ∀ v ∈ calculateTallies L orders responses, v.For P := by
  intro v hv
  obtain ⟨⟨id, vote⟩, he, rfl⟩ := List.mem_map.mp hv
  obtain ⟨counted, hcounted, hvote⟩ :=
    GoMap.exists_of_lookup_mapValues (GoMap.mem_pairs.mp (MapOrder.mem_order.mp he))
  have hcheckpoint : vote.checkpoint = counted.checkpoint := by
    rw [hvote]
    split <;> rfl
  intro cp hcp
  exact forall_countResponses h id counted hcounted cp (by rw [← hcheckpoint]; exact hcp)

/-- The majority is one of the votes, and not the empty one. -/
theorem Snowball.majority_spec {votes : List (Vote A)} {m : Vote A}
    (h : Snowball.majority L votes = some m) : m ∈ votes ∧ m.id L ≠ zeroVoteID := by
  have hall : ∀ m, Snowball.majority L votes = some m → m ∈ votes ∧ m.id L ≠ zeroVoteID := by
    unfold Snowball.majority
    refine List.foldlRecOn (motive := fun majority : Option (Vote A) =>
      ∀ m, majority = some m → m ∈ votes ∧ m.id L ≠ zeroVoteID) votes _ ?_ ?_
    · intro m hm
      cases hm
    · intro majority hmajority vote hvote m hm
      split at hm
      · exact hmajority m hm
      · next hid =>
        split at hm
        · rw [← Option.some.inj hm]
          exact ⟨hvote, hid⟩
        · split at hm
          · rw [← Option.some.inj hm]
            exact ⟨hvote, hid⟩
          · exact hmajority m hm
  exact hall m h

theorem Vote.exists_checkpoint {v : Vote A} (h : v.id L ≠ zeroVoteID) :
    ∃ cp, v.checkpoint = some cp := by
  cases hc : v.checkpoint with
  | some cp => exact ⟨cp, rfl⟩
  | none =>
    unfold Vote.id at h
    rw [hc] at h
    exact absurd rfl h

end Given

/-! ## What a tick does -/

namespace Snowball

variable {A : FloatArith} {L : Ipld} {s : Snowball A} {votes : List (Vote A)}

/-- Counting the majority changes the preference only. -/
theorem countMajority_frame (L : Ipld) (s : Snowball A) (m : Vote A) :
    (s.countMajority L m).last = s.last ∧ (s.countMajority L m).decided = s.decided := by
  unfold countMajority
  simp only []
  split
  · exact ⟨rfl, rfl⟩
  · split <;> exact ⟨rfl, rfl⟩

/-- The majority becomes the last one, or it is the last one again, perhaps often enough. -/
theorem followMajority_cases (L : Ipld) (s : Snowball A) (m : Vote A) :
    ((s.followMajority L m).last = some m ∧ (s.followMajority L m).decided = s.decided) ∨
    ((s.followMajority L m).last = s.last ∧ (s.followMajority L m).decided = s.decided) ∨
    ∃ last, s.last = some last ∧ (s.followMajority L m).last = some last ∧
      (s.followMajority L m).preferred = some last ∧ (s.followMajority L m).decided = true := by
  unfold followMajority
  split
  · exact Or.inl ⟨rfl, rfl⟩
  · next last hlast =>
    split
    · exact Or.inl ⟨rfl, rfl⟩
    · simp only []
      split
      · exact Or.inr (Or.inr ⟨last, hlast, hlast, rfl, rfl⟩)
      · exact Or.inr (Or.inl ⟨rfl, rfl⟩)

/--
**What a tick can do.** A snowball that has decided stays as it is. Otherwise the tick keeps the
last majority, or takes a new one among the votes, or decides on the last one.
-/
theorem tick_cases (L : Ipld) (s : Snowball A) (votes : List (Vote A)) :
    ((s.tick L votes).last = s.last ∧ (s.tick L votes).decided = s.decided ∧
      (s.decided = true → (s.tick L votes).preferred = s.preferred)) ∨
    (∃ m, majority L votes = some m ∧ (s.tick L votes).last = some m ∧
      (s.tick L votes).decided = false) ∨
    ∃ last, s.last = some last ∧ (s.tick L votes).last = some last ∧
      (s.tick L votes).preferred = some last ∧ (s.tick L votes).decided = true := by
  unfold tick
  simp only []
  split
  · exact Or.inl ⟨rfl, rfl, fun _ => rfl⟩
  · next hd =>
    cases hm : majority L votes with
    | none => exact Or.inl ⟨rfl, rfl, fun h => absurd h hd⟩
    | some m =>
      simp only []
      split
      · refine Or.inl ?_
        by_cases hnone : s.preferred.isNone = true
        · simp only [hnone, if_true]
          exact ⟨rfl, rfl, fun h => absurd h hd⟩
        · simp only [hnone]
          exact ⟨rfl, rfl, fun h => absurd h hd⟩
      · obtain ⟨hlast, hdec⟩ := countMajority_frame L { s with totalCount := s.totalCount + 1 } m
        rcases followMajority_cases L
            (countMajority L { s with totalCount := s.totalCount + 1 } m) m with
          ⟨hl, hdec'⟩ | ⟨hl, hdec'⟩ | ⟨last, hl, hl', hpref, hdec'⟩
        · refine Or.inr (Or.inl ⟨m, rfl, hl, ?_⟩)
          rw [hdec', hdec]
          exact Bool.eq_false_iff.mpr hd
        · exact Or.inl ⟨hl.trans hlast, hdec'.trans hdec, fun h => absurd h hd⟩
        · exact Or.inr (Or.inr ⟨last, hlast.symm.trans hl, hl', hpref, hdec'⟩)

/-! ## The invariant rule -/

/-- What was the majority last has the property, and a decision is for it. -/
structure Carries (P : Checkpoint → Prop) (s : Snowball A) : Prop where
  last : ∀ v, s.last = some v → ∃ cp, v.checkpoint = some cp ∧ P cp
  decided : s.decided = true → ∃ v, s.preferred = some v ∧ s.last = some v

variable {P : Checkpoint → Prop}

theorem carries_new (P : Checkpoint → Prop) (alpha : A.F) (beta : Int) (k : Nat) :
    (new alpha beta k).Carries P where
  last := fun v h => by cases h
  decided := fun h => by cases h

theorem Carries.mono {Q : Checkpoint → Prop} (hPQ : ∀ cp, P cp → Q cp) (h : s.Carries P) :
    s.Carries Q where
  last := by
    intro v hv
    obtain ⟨cp, hcp, hP⟩ := h.last v hv
    exact ⟨cp, hcp, hPQ cp hP⟩
  decided := h.decided

/-- A preference, while nothing is decided. -/
theorem Carries.preferInLock (h : s.Carries P) (hd : s.decided = false) (v : Vote A) :
    (s.preferInLock L v).Carries P where
  last := h.last
  decided := fun hdec => absurd (hd.symm.trans hdec) Bool.false_ne_true

/-- **A tick keeps it**, if all that the votes are for has the property. -/
theorem Carries.tick (h : s.Carries P) (hvotes : ∀ v ∈ votes, v.For P) :
    (s.tick L votes).Carries P := by
  rcases tick_cases L s votes with
    ⟨hlast, hdec, hpref⟩ | ⟨m, hm, hlast, hdec⟩ | ⟨last, hs, hlast, hpref, -⟩
  · refine ⟨by rw [hlast]; exact h.last, ?_⟩
    intro hd
    rw [hdec] at hd
    rw [hpref hd, hlast]
    exact h.decided hd
  · refine ⟨?_, fun hd => absurd (hdec.symm.trans hd) Bool.false_ne_true⟩
    intro v hv
    obtain ⟨hmem, hid⟩ := majority_spec hm
    obtain ⟨cp, hcp⟩ := Vote.exists_checkpoint hid
    have hvm : v = m := Option.some.inj (hv.symm.trans hlast)
    rw [hvm]
    exact ⟨cp, hcp, hvotes m hmem cp hcp⟩
  · refine ⟨?_, fun _ => ⟨last, hpref, hlast⟩⟩
    rw [hlast, ← hs]
    exact h.last

/-- **What is decided has the property.** -/
theorem Carries.of_decided (h : s.Carries P) (hd : s.decided = true) :
    ∃ v cp, s.preferred = some v ∧ v.checkpoint = some cp ∧ P cp := by
  obtain ⟨v, hpref, hlast⟩ := h.decided hd
  obtain ⟨cp, hcp, hP⟩ := h.last v hlast
  exact ⟨v, cp, hpref, hcp, hP⟩

end Snowball

end Tupelo

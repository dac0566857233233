import Tupelo.Signer.SnowballRuns
import Tupelo.Signer.Tallies
import Tupelo.SortedIpld

/-!
# Short checkpoints are outvoted

`Normalize` (`signer/gossip/vote.go`) subtracts the lowest of the weights. So of several proposals
with different profits, the one with the lowest has weight 0, and its share of the votes does not
matter any more: it is never the majority of the tick.

With two proposals this decides the tick. The one with the higher profit, that is with more votes
times requests, has all that the empty votes do not have, and the other has nothing. One vote for
a long checkpoint can outvote all others.
-/

namespace Tupelo

open Infra

namespace Tally

variable {L : Ipld} {responses : List (Vote checkedArith)} {a b : String}

/-- The votes of `doTick`: fresh ones, of which those that are not empty are for some requests. -/
structure Polled (L : Ipld) (responses : List (Vote checkedArith)) : Prop where
  nonempty : responses ≠ []
  fresh : ∀ v ∈ responses, v.tallyCount = num 0
  size : ∀ v ∈ responses, v.id L ≠ zeroVoteID → 1 ≤ v.size

/-- No proposal has a lower profit, and some have a higher one. -/
structure Outweighed (L : Ipld) (responses : List (Vote checkedArith)) (b : String) : Prop where
  least : ∀ id ∈ proposed L responses, profit L responses b ≤ profit L responses id
  more : ∃ id ∈ proposed L responses, profit L responses b < profit L responses id

/-! ## The lowest profit -/

theorem profitWeight_le_one (hb : b ∈ proposed L responses) : profitWeight L responses b ≤ 1 := by
  have hle : (profit L responses b : ℚ) ≤ maxProfit L responses := by
    exact_mod_cast profit_le_maxProfit hb
  exact div_le_one_of_le₀ hle (Nat.cast_nonneg _)

theorem profitWeight_lt (ha : a ∈ proposed L responses)
    (h : profit L responses b < profit L responses a) :
    profitWeight L responses b < profitWeight L responses a := by
  have hpos : 0 < maxProfit L responses :=
    Nat.lt_of_lt_of_le (Nat.zero_lt_of_lt h) (profit_le_maxProfit ha)
  unfold profitWeight
  gcongr

theorem Outweighed.lowest_eq (h : Outweighed L responses b) (hb : b ∈ proposed L responses) :
    lowest L responses = profitWeight L responses b := by
  refine le_antisymm (lowest_le hb) ?_
  refine (Finset.le_fold_min _).mpr ⟨profitWeight_le_one hb, fun id hid => ?_⟩
  have hle := h.least id hid
  unfold profitWeight
  gcongr

/-- **The lowest profit weighs nothing.** -/
theorem Outweighed.weight_eq_zero (h : Outweighed L responses b)
    (hb : b ∈ proposed L responses) : weight L responses b = 0 := by
  obtain ⟨a, ha, hlt⟩ := h.more
  have hspread : 0 < spread L responses := by
    refine (Finset.lt_fold_max _).mpr (Or.inr ⟨a, ha, ?_⟩)
    rw [h.lowest_eq hb]
    exact sub_pos.mpr (profitWeight_lt ha hlt)
  rw [weight, if_neg hspread.ne', h.lowest_eq hb, sub_self, zero_div]

theorem Outweighed.raw_eq_zero (h : Outweighed L responses b) (hb : b ∈ proposed L responses) :
    raw L responses b = 0 := by
  rw [raw, if_pos hb, h.weight_eq_zero hb, mul_zero]

/-- Some proposal has a tally. -/
theorem exists_tally_pos (hne : responses ≠ []) (h : (proposed L responses).Nonempty) :
    ∃ id ∈ proposed L responses, 0 < tally L responses id := by
  obtain ⟨id, hid, hone⟩ := exists_weight_eq_one h
  have hlen : (0 : ℚ) < responses.length := by exact_mod_cast List.length_pos_iff.mpr hne
  have hcount : (0 : ℚ) < count L responses id := by
    exact_mod_cast count_pos (mem_proposed.mp hid).2
  refine ⟨id, hid, div_pos ?_ (total_pos hne)⟩
  rw [raw, if_pos hid, hone, mul_one]
  exact div_pos hcount hlen

/-! ## The majority -/

/-- The majority has the highest tally of the proposals. -/
theorem le_majority {tally : String → ℚ} : ∀ {votes : List (Vote checkedArith)},
    (∀ v ∈ votes, v.tallyCount = num (tally (v.id L))) → ∀ v ∈ votes, v.id L ≠ zeroVoteID →
      ∃ m, Snowball.majority L votes = some m ∧ tally (v.id L) ≤ tally (m.id L) := by
  intro votes
  induction votes using List.reverseRecOn with
  | nil =>
    intro _ v hv
    cases hv
  | append_singleton votes last ih =>
    intro hnum v hv hid
    have hvotes : ∀ v ∈ votes, v.tallyCount = num (tally (v.id L)) :=
      fun v hv => hnum v (List.mem_append_left _ hv)
    have hlast : last.tallyCount = num (tally (last.id L)) :=
      hnum last (List.mem_append_right _ (List.mem_singleton_self _))
    have hold := ih hvotes
    unfold Snowball.majority at hold ⊢
    rw [List.foldl_concat]
    by_cases hzero : last.id L = zeroVoteID
    · -- the empty vote is passed over
      rw [if_pos hzero]
      rcases List.mem_append.mp hv with hv | hv
      · exact hold v hv hid
      · rw [List.mem_singleton.mp hv] at hid
        exact absurd hzero hid
    · rw [if_neg hzero]
      cases hm : votes.foldl _ none with
      | none =>
        rcases List.mem_append.mp hv with hv | hv
        · obtain ⟨m, hsome, -⟩ := hold v hv hid
          rw [hm] at hsome
          cases hsome
        · rw [List.mem_singleton.mp hv]
          exact ⟨last, rfl, le_rfl⟩
      | some m =>
        have hmem : m ∈ votes := (Snowball.majority_spec (L := L) hm).1
        simp only [hvotes m hmem, hlast, lt_num, decide_eq_true_eq]
        have hv' : tally (v.id L) ≤ tally (m.id L) ∨ v = last := by
          rcases List.mem_append.mp hv with hv | hv
          · obtain ⟨m', hsome, hle⟩ := hold v hv hid
            cases hm.symm.trans hsome
            exact Or.inl hle
          · exact Or.inr (List.mem_singleton.mp hv)
        split
        · next hlt =>
          refine ⟨last, rfl, ?_⟩
          rcases hv' with hle | rfl
          · exact hle.trans hlt.le
          · exact le_rfl
        · next hnot =>
          refine ⟨m, rfl, ?_⟩
          rcases hv' with hle | rfl
          · exact hle
          · exact not_lt.mp hnot

/-- The majority of a tick, for the proposals of its votes. -/
theorem Polled.le_majority (h : Polled L responses) (orders : TallyOrders)
    (ha : a ∈ proposed L responses) :
    ∃ m, Snowball.majority L (calculateTallies L orders responses) = some m ∧
      m.tallyCount = num (tally L responses (m.id L)) ∧ m.id L ∈ proposed L responses ∧
      tally L responses a ≤ tally L responses (m.id L) := by
  have hdist := distributes h.nonempty h.fresh h.size orders
  obtain ⟨hne, hmem⟩ := mem_proposed.mp ha
  obtain ⟨v, hv, rfl⟩ := List.mem_map.mp ((hdist.ids a).mpr (List.mem_toFinset.mp hmem))
  obtain ⟨m, hm, hle⟩ := Tally.le_majority hdist.tallyCount v hv hne
  obtain ⟨hmv, hmid⟩ := Snowball.majority_spec hm
  refine ⟨m, hm, hdist.tallyCount m hmv, mem_proposed.mpr ⟨hmid, ?_⟩, hle⟩
  exact List.mem_toFinset.mpr ((hdist.ids _).mp (List.mem_map_of_mem hmv))

/-- **An outweighed proposal is not the majority**, however many votes it has. -/
theorem Polled.winner_ne (h : Polled L responses) (orders : TallyOrders) (alpha : ℚ)
    (hb : b ∈ proposed L responses → Outweighed L responses b) :
    Snowball.winner L (num alpha) (calculateTallies L orders responses) ≠ some b := by
  intro hwin
  obtain ⟨m, hm, rfl⟩ := Snowball.majority_of_winner hwin
  have hdist := distributes h.nonempty h.fresh h.size orders
  obtain ⟨hmv, hmid⟩ := Snowball.majority_spec hm
  have hprop : m.id L ∈ proposed L responses := mem_proposed.mpr
    ⟨hmid, List.mem_toFinset.mpr ((hdist.ids _).mp (List.mem_map_of_mem hmv))⟩
  obtain ⟨a, ha, hpos⟩ := exists_tally_pos h.nonempty ⟨_, hprop⟩
  obtain ⟨m', hm', -, -, hle⟩ := h.le_majority orders ha
  cases hm.symm.trans hm'
  have hzero : tally L responses (m.id L) = 0 := by
    rw [tally, (hb hprop).raw_eq_zero hprop, zero_div]
  exact absurd (hpos.trans_le hle) (by rw [hzero]; exact lt_irrefl _)

/-! ## Two proposals -/

/-- Two checkpoints are proposed, and the first has the higher profit. -/
structure Contest (L : Ipld) (responses : List (Vote checkedArith)) (a b : String) : Prop where
  proposed : proposed L responses = {a, b}
  lt : profit L responses b < profit L responses a

theorem Contest.mem (h : Contest L responses a b) :
    a ∈ Tally.proposed L responses ∧ b ∈ Tally.proposed L responses := by
  rw [h.proposed]
  exact ⟨Finset.mem_insert_self _ _, Finset.mem_insert_of_mem (Finset.mem_singleton_self _)⟩

theorem Contest.outweighed (h : Contest L responses a b) : Outweighed L responses b where
  least := by
    intro id hid
    rw [h.proposed, Finset.mem_insert, Finset.mem_singleton] at hid
    rcases hid with rfl | rfl
    · exact h.lt.le
    · exact le_rfl
  more := ⟨a, h.mem.1, h.lt⟩

theorem Contest.weight_eq_one (h : Contest L responses a b) : weight L responses a = 1 := by
  obtain ⟨id, hid, hone⟩ := exists_weight_eq_one ⟨a, h.mem.1⟩
  rw [h.proposed, Finset.mem_insert, Finset.mem_singleton] at hid
  rcases hid with rfl | rfl
  · exact hone
  · rw [h.outweighed.weight_eq_zero h.mem.2] at hone
    exact absurd hone zero_ne_one

/-- The empty votes have their share, if there are any. -/
theorem raw_zeroVoteID : raw L responses zeroVoteID =
    count L responses zeroVoteID / responses.length := by
  have hnot : zeroVoteID ∉ proposed L responses := fun hmem => (mem_proposed.mp hmem).1 rfl
  rw [raw, if_neg hnot, mul_one]

theorem Contest.total_eq (h : Contest L responses a b) : total L responses =
    (count L responses a + count L responses zeroVoteID) / responses.length := by
  have hne : a ≠ b := fun heq => absurd h.lt (by rw [heq]; exact lt_irrefl _)
  have hsum : ∑ id ∈ Tally.proposed L responses, raw L responses id =
      count L responses a / responses.length := by
    rw [h.proposed, Finset.sum_pair hne, h.outweighed.raw_eq_zero h.mem.2, add_zero, raw,
      if_pos h.mem.1, h.weight_eq_one, mul_one]
  by_cases hzero : zeroVoteID ∈ ids L responses
  · rw [total, ← Finset.add_sum_erase _ _ hzero, ← Tally.proposed, hsum, raw_zeroVoteID, add_comm,
      add_div]
  · have hsame : ids L responses = Tally.proposed L responses :=
      (Finset.erase_eq_of_notMem hzero).symm
    rw [total, hsame, hsum, count_of_not_mem hzero, Nat.cast_zero, add_zero]

/-- **The higher profit takes it all**, but for the empty votes. -/
theorem Contest.tally_eq (h : Contest L responses a b) (hne : responses ≠ []) :
    tally L responses a =
      count L responses a / (count L responses a + count L responses zeroVoteID) := by
  have hlen : (responses.length : ℚ) ≠ 0 := by
    exact_mod_cast (List.length_pos_iff.mpr hne).ne'
  rw [tally, h.total_eq, raw, if_pos h.mem.1, h.weight_eq_one, mul_one,
    div_div_div_cancel_right₀ hlen]

/-- The tally reaches the threshold of the tick. -/
def Reaches (L : Ipld) (alpha : ℚ) (responses : List (Vote checkedArith)) (a : String) : Prop :=
  alpha * 2 / (ids L responses).card ≤
    count L responses a / (count L responses a + count L responses zeroVoteID)

/-- There are at least two tallies. -/
theorem Contest.threshold_eq (h : Contest L responses a b) (hp : Polled L responses)
    (orders : TallyOrders) (alpha : ℚ) :
    (Snowball.new (num alpha) 0 0).threshold (calculateTallies L orders responses) =
      num (alpha * 2 / (ids L responses).card) := by
  have hlength : (calculateTallies L orders responses).length = (ids L responses).card := by
    rw [(calculateTallies_perm hp.nonempty hp.fresh hp.size (total_pos hp.nonempty).ne'
      orders).length_eq, List.length_map, Finset.length_toList]
  have hcard : 2 ≤ (ids L responses).card := by
    have hne : a ≠ b := fun heq => absurd h.lt (by rw [heq]; exact lt_irrefl _)
    rw [← Finset.card_pair hne, ← h.proposed]
    exact Finset.card_le_card (Finset.erase_subset _ _)
  have htwo : ((2 : ℕ) : ℚ) ≤ (ids L responses).card := by exact_mod_cast hcard
  have hpos : ((ids L responses).card : ℚ) ≠ 0 := by
    exact_mod_cast (Nat.lt_of_lt_of_le Nat.two_pos hcard).ne'
  unfold Snowball.threshold
  simp only [hlength, ofNat_eq_num, lt_num, decide_eq_true_eq, if_neg (not_lt.mpr htwo)]
  exact div_num hpos

/-- **The higher profit wins the tick**, whatever the other has of votes. -/
theorem Contest.winner_eq (h : Contest L responses a b) (hp : Polled L responses)
    (orders : TallyOrders) {alpha : ℚ} (hreach : Reaches L alpha responses a) :
    Snowball.winner L (num alpha) (calculateTallies L orders responses) = some a := by
  obtain ⟨m, hm, hcount, hmem, -⟩ := hp.le_majority orders h.mem.1
  have hid : m.id L = a := by
    -- it is one of the two, and not the one without a tally
    rw [h.proposed, Finset.mem_insert, Finset.mem_singleton] at hmem
    refine hmem.resolve_right fun heq => ?_
    obtain ⟨id, hid, hpos⟩ := exists_tally_pos hp.nonempty ⟨a, h.mem.1⟩
    obtain ⟨m', hm', -, -, hle⟩ := hp.le_majority orders hid
    cases hm.symm.trans hm'
    have hzero : tally L responses (m.id L) = 0 := by
      rw [heq, tally, h.outweighed.raw_eq_zero h.mem.2, zero_div]
    exact absurd (hpos.trans_le hle) (by rw [hzero]; exact lt_irrefl _)
  unfold Snowball.winner
  rw [hm]
  simp only [h.threshold_eq hp, hcount, lt_num, hid, h.tally_eq hp.nonempty]
  exact if_neg (fun hlt => absurd (of_decide_eq_true hlt) (not_lt.mpr hreach))

end Tally

/-! ## Runs -/

namespace Snowball

open Tally

variable {A : FloatArith} {L : Ipld}

/-- What is decided has won a tick. -/
theorem exists_winner_of_decided {alpha : A.F} {beta : Int} (hbeta : 1 ≤ beta) (k : Nat)
    (initial : Option (Preference A)) (history : List (List (Vote A)))
    (hd : ((starting L alpha beta k initial).ticks L history).decided = true) :
    ∃ votes ∈ history, ∃ id, winner L alpha votes = some id ∧
      ((starting L alpha beta k initial).ticks L history).preferred.map (·.id L) = some id := by
  induction history using List.reverseRecOn with
  | nil => cases initial <;> cases hd
  | append_singleton history votes ih =>
    have htracks := tracks_ticks L alpha hbeta k initial history
    rw [ticks_concat] at hd ⊢
    generalize (starting L alpha beta k initial).ticks L history = s at *
    cases hs : s.decided with
    | true =>
      obtain ⟨votes', hmem, id, hwin, hpref⟩ := ih hs
      refine ⟨votes', List.mem_append_left _ hmem, id, hwin, ?_⟩
      have hkeep := (ticks_of_decided (L := L) hs [votes]).1
      rw [show s.tick L votes = s.ticks L [votes] from rfl, hkeep]
      exact hpref
    | false =>
      obtain ⟨id, hwin, hpref⟩ := preferred_of_decides (ticked_tick L s votes) hs hd
      rw [htracks.alpha_eq] at hwin
      exact ⟨votes, List.mem_append_right _ (List.mem_singleton_self _), id, hwin, hpref⟩

/-- `doTick` for each of the lists of votes, with the orders that the maps are ranged over in. -/
def polls (L : Ipld) (s : Snowball checkedArith)
    (history : List (TallyOrders × List (Vote checkedArith))) : Snowball checkedArith :=
  s.ticks L (history.map fun poll => calculateTallies L poll.1 poll.2)

/--
**What is always outweighed is never decided on.**

Let `beta` be at least 1; for 0 `newRound` takes the default. Whatever else happens in the ticks,
and whatever the snowball preferred first: if in every tick in which the checkpoint is voted for,
no other has a lower profit and some have a higher one, the snowball does not decide on it. All
votes but one may be for it in every tick.
-/
theorem outweighed_not_decided (L : Ipld) (alpha : ℚ) {beta : Int} (hbeta : 1 ≤ beta) (k : Nat)
    (initial : Option (Preference checkedArith)) (b : String)
    (history : List (TallyOrders × List (Vote checkedArith)))
    (hpolled : ∀ poll ∈ history, Polled L poll.2)
    (hb : ∀ poll ∈ history, b ∈ proposed L poll.2 → Outweighed L poll.2 b)
    (hd : ((starting L (num alpha) beta k initial).polls L history).decided = true) :
    ((starting L (num alpha) beta k initial).polls L history).preferred.map (·.id L) ≠ some b := by
  obtain ⟨votes, hmem, id, hwin, hpref⟩ := exists_winner_of_decided hbeta k initial _ hd
  obtain ⟨poll, hpoll, rfl⟩ := List.mem_map.mp hmem
  intro heq
  rw [polls, hpref] at heq
  rw [Option.some.inj heq] at hwin
  exact (hpolled poll hpoll).winner_ne poll.1 alpha (hb poll hpoll) hwin

/--
**Of two checkpoints the one with the higher profit is decided on.**

If two are voted for in every tick, and the profit of the first is higher and it has the share of
the threshold among its own votes and the empty ones, the snowball decides on it, as soon as it
has ticked more than `beta` times, which is at least 1. The votes for the other and the first
preference do not matter.
-/
theorem contest_decided (L : Ipld) (alpha : ℚ) {beta : Int} (hbeta : 1 ≤ beta) (k : Nat)
    (initial : Option (Preference checkedArith)) (a b : String)
    (history : List (TallyOrders × List (Vote checkedArith)))
    (hpolled : ∀ poll ∈ history, Polled L poll.2)
    (hcontest : ∀ poll ∈ history, Contest L poll.2 a b)
    (hreach : ∀ poll ∈ history, Reaches L alpha poll.2 a) :
    (((starting L (num alpha) beta k initial).polls L history).decided = true ↔
      beta < history.length) ∧
    (beta < history.length →
      ((starting L (num alpha) beta k initial).polls L history).preferred.map (·.id L) =
        some a) := by
  have hwin : ∀ poll ∈ history,
      winner L (num alpha) (calculateTallies L poll.1 poll.2) = some a :=
    fun poll hpoll => (hcontest poll hpoll).winner_eq (hpolled poll hpoll) poll.1
      (hreach poll hpoll)
  have hwinners : (history.map fun poll => calculateTallies L poll.1 poll.2).map
      (winner L (num alpha)) = List.replicate history.length (some a) := by
    rw [List.map_map, List.eq_replicate_iff, List.length_map]
    refine ⟨rfl, fun w hw => ?_⟩
    obtain ⟨poll, hpoll, rfl⟩ := List.mem_map.mp hw
    exact hwin poll hpoll
  have hdecided : ((starting L (num alpha) beta k initial).polls L history).decided = true ↔
      beta < history.length := by
    rw [polls, (tracks_ticks L (num alpha) hbeta k initial _).decided, hwinners]
    constructor
    · rintro ⟨id, hstreak⟩
      have hle := hstreak.length_le
      rw [List.length_replicate, List.length_replicate] at hle
      omega
    · intro hlt
      have hle : beta.toNat + 1 ≤ history.length := by omega
      refine ⟨a, List.IsPrefix.isInfix
        ⟨List.replicate (history.length - (beta.toNat + 1)) (some a), ?_⟩⟩
      rw [List.replicate_append_replicate, Nat.add_sub_cancel' hle]
  refine ⟨hdecided, fun hlt => ?_⟩
  obtain ⟨votes, hmem, id, hid, hpref⟩ :=
    exists_winner_of_decided hbeta k initial _ (hdecided.mpr hlt)
  obtain ⟨poll, hpoll, rfl⟩ := List.mem_map.mp hmem
  rw [polls, hpref, ← hid, hwin poll hpoll]

end Snowball

/-! ## Four votes for two requests, and one for nine -/

namespace OutvotingExample

open Tally

def short : Vote checkedArith := Tally.Example.vote 2

def long : Vote checkedArith := Tally.Example.vote 9

def votes : List (Vote checkedArith) := [short, short, long, short, short]

def shortId : String := short.id Ipld.sorted

def longId : String := long.id Ipld.sorted

theorem polled_votes : Polled Ipld.sorted votes where
  nonempty := by simp [votes]
  fresh := by simp [votes, short, long, Tally.Example.vote]
  size := by simp [votes, short, long, Tally.Example.vote, Vote.size]

theorem contest_votes : Contest Ipld.sorted votes longId shortId where
  proposed := by decide +kernel
  lt := by decide +kernel

theorem reaches_votes : Reaches Ipld.sorted (333 / 500) votes longId := by
  unfold Reaches
  decide +kernel

/-- Eleven ticks, with the votes as they came. -/
def history : List (TallyOrders × List (Vote checkedArith)) :=
  List.replicate 11 (.plain, votes)

def start : Snowball checkedArith :=
  .starting Ipld.sorted (num (333 / 500)) 10 5 (some ⟨short, rfl⟩)

/-- The snowball prefers the short checkpoint first, and four of five votes are for it. -/
theorem contest_decided_example : count Ipld.sorted votes shortId = 4 ∧
    count Ipld.sorted votes longId = 1 ∧ (start.polls Ipld.sorted history).decided = true ∧
    (start.polls Ipld.sorted history).preferred.map (·.id Ipld.sorted) = some longId := by
  have hall : ∀ poll ∈ history, poll = (.plain, votes) := fun _ => List.eq_of_mem_replicate
  obtain ⟨hdecided, hpref⟩ := Snowball.contest_decided Ipld.sorted (333 / 500)
    (show (1 : Int) ≤ 10 by decide) 5 (some ⟨short, rfl⟩) longId shortId history
    (fun poll hpoll => by rw [hall poll hpoll]; exact polled_votes)
    (fun poll hpoll => by rw [hall poll hpoll]; exact contest_votes)
    (fun poll hpoll => by rw [hall poll hpoll]; exact reaches_votes)
  exact ⟨by decide +kernel, by decide +kernel, hdecided.mpr (by decide), hpref (by decide)⟩

theorem outweighed_not_decided_example : (start.polls Ipld.sorted history).decided = true ∧
    (start.polls Ipld.sorted history).preferred.map (·.id Ipld.sorted) ≠ some shortId := by
  have hall : ∀ poll ∈ history, poll = (.plain, votes) := fun _ => List.eq_of_mem_replicate
  have hdecided : (start.polls Ipld.sorted history).decided = true := by decide +kernel
  refine ⟨hdecided, ?_⟩
  exact Snowball.outweighed_not_decided Ipld.sorted (333 / 500)
    (show (1 : Int) ≤ 10 by decide) 5
    (some ⟨short, rfl⟩) shortId history
    (fun poll hpoll => by rw [hall poll hpoll]; exact polled_votes)
    (fun poll hpoll _ => by rw [hall poll hpoll]; exact contest_votes.outweighed) hdecided

end OutvotingExample

end Tupelo

import Mathlib.Algebra.BigOperators.Field
import Mathlib.Algebra.Order.BigOperators.Group.Finset
import Mathlib.Order.Lattice.Nat
import Mathlib.Tactic.FieldSimp
import Mathlib.Tactic.Linarith
import Tupelo.Infra.Table
import Tupelo.Signer.Snowball

/-!
# Tallies are a distribution

What `calculateTallies` (`signer/gossip/vote.go`) computes, in exact arithmetic. The tally of an
id is a function of how many responses have it and of the lengths of their checkpoints; it does
not depend on the order of the responses or on that of the maps. Tallies are not negative and add
up to 1, and none of the three divisions is by zero.

The arithmetic here gives no number for a division by zero, nor for anything computed from it.
-/

namespace Tupelo

open Infra

/-- Exact arithmetic that notices divisions by zero. -/
def checkedArith : FloatArith where
  F := Option ℚ
  ofNat n := some n
  add a b := a.bind fun x => b.map fun y => x + y
  sub a b := a.bind fun x => b.map fun y => x - y
  mul a b := a.bind fun x => b.map fun y => x * y
  div a b := a.bind fun x => b.bind fun y => if y = 0 then none else some (x / y)
  lt a b := (a.bind fun x => b.map fun y => decide (x < y)).getD false

instance : DecidableEq checkedArith.F := inferInstanceAs (DecidableEq (Option ℚ))

/-- A number, and not a division by zero. -/
def num (x : ℚ) : checkedArith.F := some x

section Arith

variable (x y : ℚ)

@[simp] theorem ofNat_eq_num (n : Nat) : checkedArith.ofNat n = num n := rfl

@[simp] theorem add_num : checkedArith.add (num x) (num y) = num (x + y) := rfl

@[simp] theorem sub_num : checkedArith.sub (num x) (num y) = num (x - y) := rfl

@[simp] theorem mul_num : checkedArith.mul (num x) (num y) = num (x * y) := rfl

@[simp] theorem lt_num : checkedArith.lt (num x) (num y) = decide (x < y) := rfl

theorem div_num {x y : ℚ} (hy : y ≠ 0) : checkedArith.div (num x) (num y) = num (x / y) :=
  if_neg hy

end Arith

/-- `Length`, as a number. -/
def Vote.size {A : FloatArith} (v : Vote A) : Nat :=
  match v.checkpoint with
  | none => 0
  | some cp => cp.addBlockRequests.length

theorem Vote.length_eq (v : Vote checkedArith) : v.length = num v.size := by
  unfold Vote.length Vote.size
  cases v.checkpoint <;> rfl

/-! ## What is computed -/

namespace Tally

section Spec

variable {A : FloatArith} (L : Ipld) (responses : List (Vote A))

def ids : Finset String := (responses.map fun v => v.id L).toFinset

/-- The ids that are not that of the empty vote. -/
def proposed : Finset String := (ids L responses).erase zeroVoteID

def count (id : String) : Nat := responses.countP fun v => v.id L = id

/-- The lengths of all responses for the id together. -/
def profit (id : String) : Nat :=
  ((responses.filter fun v => v.id L = id).map Vote.size).sum

def maxProfit : Nat := (proposed L responses).sup (profit L responses)

def profitWeight (id : String) : ℚ := profit L responses id / maxProfit L responses

def lowest : ℚ := (proposed L responses).fold min 1 (profitWeight L responses)

def spread : ℚ :=
  (proposed L responses).fold max 0 fun id => profitWeight L responses id - lowest L responses

def weight (id : String) : ℚ :=
  if spread L responses = 0 then 1
  else (profitWeight L responses id - lowest L responses) / spread L responses

/-- The share of the responses, with the weight of the id unless it is that of the empty vote. -/
def raw (id : String) : ℚ :=
  count L responses id / responses.length *
    if id ∈ proposed L responses then weight L responses id else 1

def total : ℚ := ∑ id ∈ ids L responses, raw L responses id

def tally (id : String) : ℚ := raw L responses id / total L responses

/-- The checkpoint of the first response for the id. -/
def first (id : String) : Option Checkpoint :=
  (responses.find? fun v => v.id L = id).bind (·.checkpoint)

end Spec

/-! ## One more response -/

section Concat

variable {A : FloatArith} {L : Ipld} {responses : List (Vote A)} {res : Vote A} {id : String}

theorem mem_ids : id ∈ ids L responses ↔ ∃ v ∈ responses, v.id L = id := by
  simp [ids]

theorem mem_proposed : id ∈ proposed L responses ↔ id ≠ zeroVoteID ∧ id ∈ ids L responses :=
  Finset.mem_erase

theorem ids_concat : ids L (responses ++ [res]) = insert (res.id L) (ids L responses) := by
  ext id
  simp [mem_ids, or_comm, eq_comm]

theorem proposed_concat (h : res.id L ≠ zeroVoteID) :
    proposed L (responses ++ [res]) = insert (res.id L) (proposed L responses) := by
  rw [proposed, ids_concat, Finset.erase_insert_of_ne h, proposed]

theorem proposed_concat_nil (h : res.id L = zeroVoteID) :
    proposed L (responses ++ [res]) = proposed L responses := by
  rw [proposed, ids_concat, h, Finset.erase_insert_eq_erase, proposed]

theorem count_concat : count L (responses ++ [res]) id =
    count L responses id + if res.id L = id then 1 else 0 := by
  simp [count, List.countP_append, List.countP_cons]

theorem profit_concat : profit L (responses ++ [res]) id =
    profit L responses id + if res.id L = id then res.size else 0 := by
  by_cases h : res.id L = id
  · simp [profit, h]
  · simp [profit, h]

theorem first_concat_of_mem (h : id ∈ ids L responses) :
    first L (responses ++ [res]) id = first L responses id := by
  obtain ⟨v, hv, hid⟩ := mem_ids.mp h
  have hsome : (responses.find? fun v => v.id L = id).isSome := by
    rw [List.find?_isSome]
    exact ⟨v, hv, decide_eq_true hid⟩
  rw [first, List.find?_append, Option.or_of_isSome hsome, first]

theorem first_concat_self (h : res.id L ∉ ids L responses) :
    first L (responses ++ [res]) (res.id L) = res.checkpoint := by
  have hnone : (responses.find? fun v => v.id L = res.id L) = none := by
    rw [List.find?_eq_none]
    intro v hv hid
    exact h (mem_ids.mpr ⟨v, hv, of_decide_eq_true hid⟩)
  rw [first, List.find?_append, hnone]
  simp

theorem count_of_not_mem (h : id ∉ ids L responses) : count L responses id = 0 := by
  rw [count, List.countP_eq_zero]
  intro v hv hid
  exact h (mem_ids.mpr ⟨v, hv, of_decide_eq_true hid⟩)

theorem count_pos (h : id ∈ ids L responses) : 0 < count L responses id := by
  obtain ⟨v, hv, hid⟩ := mem_ids.mp h
  exact List.countP_pos_iff.mpr ⟨v, hv, decide_eq_true hid⟩

theorem profit_of_not_mem (h : id ∉ ids L responses) : profit L responses id = 0 := by
  have hnil : (responses.filter fun v => v.id L = id) = [] := by
    rw [List.filter_eq_nil_iff]
    intro v hv hid
    exact h (mem_ids.mpr ⟨v, hv, of_decide_eq_true hid⟩)
  rw [profit, hnil]
  rfl

theorem maxProfit_concat (h : res.id L ≠ zeroVoteID) : maxProfit L (responses ++ [res]) =
    max (maxProfit L responses) (profit L (responses ++ [res]) (res.id L)) := by
  have hle : ∀ id, profit L responses id ≤ profit L (responses ++ [res]) id := by
    intro id
    rw [profit_concat]
    exact Nat.le_add_right _ _
  unfold maxProfit
  rw [proposed_concat h, Finset.sup_insert]
  refine le_antisymm (sup_le (le_max_right _ _) (Finset.sup_le fun id hid => ?_)) ?_
  · by_cases hres : res.id L = id
    · rw [← hres]
      exact le_max_right _ _
    · rw [profit_concat, if_neg hres, Nat.add_zero]
      exact (Finset.le_sup hid).trans (le_max_left _ _)
  · refine max_le (Finset.sup_le fun id hid => ?_) le_sup_left
    exact ((hle id).trans (Finset.le_sup (f := profit L (responses ++ [res])) hid)).trans
      le_sup_right

theorem maxProfit_concat_nil (h : res.id L = zeroVoteID) :
    maxProfit L (responses ++ [res]) = maxProfit L responses := by
  unfold maxProfit
  rw [proposed_concat_nil h]
  refine Finset.sup_congr rfl fun id hid => ?_
  have hne : res.id L ≠ id := fun he => (mem_proposed.mp hid).1 (he.symm.trans h)
  rw [profit_concat, if_neg hne, Nat.add_zero]

end Concat

/-! ## The loops of `calculateTallies` and `ComputeProfitWeights` -/

section Loops

variable (L : Ipld) (responses : List (Vote checkedArith))

/-- The vote that stands for an id when all responses have been counted. -/
def counted (share : ℚ) (id : String) : Vote checkedArith :=
  { checkpoint := first L responses id, tallyCount := num (count L responses id * share) }

/-- One response in the first loop of `calculateTallies`. -/
def countStep (share : checkedArith.F) (votes : GoMap String (Vote checkedArith))
    (res : Vote checkedArith) : GoMap String (Vote checkedArith) :=
  let vote := (votes.lookup (res.id L)).getD res
  votes.insert (res.id L) (vote.setTally (checkedArith.add vote.tallyCount share))

/-- One response in the first loop of `ComputeProfitWeights`. -/
def profitStep (acc : GoMap String checkedArith.F × checkedArith.F) (res : Vote checkedArith) :
    GoMap String checkedArith.F × checkedArith.F :=
  if res.id L = zeroVoteID then acc
  else
    let weight := checkedArith.add
      ((acc.1.lookup (res.id L)).getD (checkedArith.ofNat 0)) res.length
    (acc.1.insert (res.id L) weight, if checkedArith.lt acc.2 weight then weight else acc.2)

variable {L responses}

/-- Counting gives one vote for each id, with the share of all responses that have it. -/
theorem tabulates_foldl_countStep {share : ℚ} (hzero : ∀ v ∈ responses, v.tallyCount = num 0) :
    GoMap.Tabulates (responses.foldl (countStep L (num share)) ∅) (ids L responses)
      (counted L responses share) := by
  induction responses using List.reverseRecOn with
  | nil => exact GoMap.tabulates_empty _
  | append_singleton responses res ih =>
    have htable := ih fun v hv => hzero v (List.mem_append_left _ hv)
    rw [List.foldl_append, List.foldl_cons, List.foldl_nil, ids_concat]
    generalize responses.foldl (countStep L (num share)) ∅ = votes at htable ⊢
    have hkeep : ∀ id ∈ ids L responses, id ≠ res.id L →
        counted L (responses ++ [res]) share id = counted L responses share id := by
      intro id hid hne
      rw [counted, counted, first_concat_of_mem hid, count_concat, if_neg (Ne.symm hne),
        Nat.add_zero]
    have hnew : ((votes.lookup (res.id L)).getD res).setTally (checkedArith.add
          ((votes.lookup (res.id L)).getD res).tallyCount (num share)) =
        counted L (responses ++ [res]) share (res.id L) := by
      by_cases hid : res.id L ∈ ids L responses
      · rw [htable.lookup hid, Option.getD_some, counted, counted, first_concat_of_mem hid,
          count_concat, if_pos rfl]
        simp only [Vote.setTally, add_num, Nat.cast_add, Nat.cast_one, add_mul, one_mul]
      · have hres := hzero res (by simp)
        rw [htable (res.id L), if_neg hid, Option.getD_none, hres, counted,
          first_concat_self hid, count_concat, if_pos rfl, count_of_not_mem hid]
        simp [Vote.setTally]
    unfold countStep
    dsimp only
    rw [hnew]
    exact htable.insert hkeep

theorem tabulates_countResponses (hne : responses ≠ [])
    (hzero : ∀ v ∈ responses, v.tallyCount = num 0) :
    GoMap.Tabulates (countResponses L responses) (ids L responses)
      (counted L responses (1 / responses.length)) := by
  have hlen : (responses.length : ℚ) ≠ 0 := by simpa using hne
  have hshare : checkedArith.div (checkedArith.ofNat 1) (checkedArith.ofNat responses.length) =
      num (1 / (responses.length : ℚ)) := by
    rw [ofNat_eq_num, ofNat_eq_num, div_num hlen, Nat.cast_one]
  show GoMap.Tabulates (responses.foldl (countStep L _) ∅) _ _
  rw [hshare]
  exact tabulates_foldl_countStep hzero

variable (L responses) in
/-- The sums of the lengths for each id, and the highest of them. -/
theorem tabulates_foldl_profitStep :
    GoMap.Tabulates (responses.foldl (profitStep L) (∅, checkedArith.ofNat 0)).1
        (proposed L responses) (fun id => num (profit L responses id)) ∧
      (responses.foldl (profitStep L) (∅, checkedArith.ofNat 0)).2 =
        num (maxProfit L responses) := by
  induction responses using List.reverseRecOn with
  | nil => exact ⟨GoMap.tabulates_empty _, rfl⟩
  | append_singleton responses res ih =>
    obtain ⟨htable, hmax⟩ := ih
    rw [List.foldl_append, List.foldl_cons, List.foldl_nil]
    generalize responses.foldl (profitStep L) (∅, checkedArith.ofNat 0) = acc at htable hmax ⊢
    have hkeep : ∀ id ∈ proposed L responses, id ≠ res.id L →
        num (profit L (responses ++ [res]) id) = num (profit L responses id) := by
      intro id _ hne
      rw [profit_concat, if_neg (Ne.symm hne), Nat.add_zero]
    unfold profitStep
    by_cases hnil : res.id L = zeroVoteID
    · rw [if_pos hnil, proposed_concat_nil hnil, maxProfit_concat_nil hnil]
      refine ⟨htable.congr fun id hid => (hkeep id hid ?_).symm, hmax⟩
      exact fun he => (mem_proposed.mp hid).1 (he.trans hnil)
    · have hnew : checkedArith.add ((acc.1.lookup (res.id L)).getD (checkedArith.ofNat 0))
          res.length = num (profit L (responses ++ [res]) (res.id L)) := by
        have hold : (acc.1.lookup (res.id L)).getD (checkedArith.ofNat 0) =
            num (profit L responses (res.id L)) := by
          by_cases hid : res.id L ∈ ids L responses
          · rw [htable.lookup (mem_proposed.mpr ⟨hnil, hid⟩), Option.getD_some]
          · rw [htable, if_neg fun h => hid (mem_proposed.mp h).2, profit_of_not_mem hid]
            rfl
        rw [hold, Vote.length_eq, add_num, profit_concat, if_pos rfl, Nat.cast_add]
      rw [if_neg hnil, proposed_concat hnil, maxProfit_concat hnil]
      dsimp only
      rw [hnew, hmax, lt_num]
      refine ⟨htable.insert hkeep, ?_⟩
      rw [Nat.cast_max]
      by_cases hlt : (maxProfit L responses : ℚ) < profit L (responses ++ [res]) (res.id L)
      · rw [if_pos (decide_eq_true hlt), max_eq_right hlt.le]
      · rw [if_neg (by simpa using hlt), max_eq_left (not_lt.mp hlt)]

theorem one_le_profit {id : String} (hlen : ∀ v ∈ responses, v.id L ≠ zeroVoteID → 1 ≤ v.size)
    (hid : id ∈ proposed L responses) : 1 ≤ profit L responses id := by
  obtain ⟨hne, hmem⟩ := mem_proposed.mp hid
  obtain ⟨v, hv, rfl⟩ := mem_ids.mp hmem
  have hsize : v.size ∈ (responses.filter fun u => u.id L = v.id L).map Vote.size :=
    List.mem_map_of_mem (List.mem_filter.mpr ⟨hv, decide_eq_true rfl⟩)
  exact (hlen v hv hne).trans (List.le_sum_of_mem hsize)

theorem profit_le_maxProfit {id : String} (hid : id ∈ proposed L responses) :
    profit L responses id ≤ maxProfit L responses :=
  Finset.le_sup (f := profit L responses) hid

theorem tabulates_computeProfitWeights
    (hlen : ∀ v ∈ responses, v.id L ≠ zeroVoteID → 1 ≤ v.size) :
    GoMap.Tabulates (computeProfitWeights L responses) (proposed L responses)
      fun id => num (profitWeight L responses id) := by
  obtain ⟨htable, hmax⟩ := tabulates_foldl_profitStep L responses
  show GoMap.Tabulates (GoMap.mapValues (responses.foldl (profitStep L) _).1 fun _ weight =>
    checkedArith.div weight (responses.foldl (profitStep L) _).2) _ _
  refine (htable.mapValues _).congr fun id hid => ?_
  have hpos := (one_le_profit hlen hid).trans (profit_le_maxProfit hid)
  rw [hmax]
  exact div_num (by positivity)

end Loops

/-! ## `Normalize` -/

section Normalize

/-- A loop over numbers that never divides by zero is one over the numbers themselves. -/
theorem foldl_num {ε : Type} {step : checkedArith.F → ε → checkedArith.F} (op : ℚ → ℚ → ℚ)
    (g : ε → ℚ) : ∀ (es : List ε) (b : ℚ),
      (∀ e ∈ es, ∀ a, step (num a) e = num (op a (g e))) →
      es.foldl step (num b) = num (es.foldl (fun a e => op a (g e)) b)
  | [], _, _ => rfl
  | e :: es, b, h => by
    rw [List.foldl_cons, List.foldl_cons, h e List.mem_cons_self]
    exact foldl_num op g es _ fun e' he' => h e' (List.mem_cons_of_mem _ he')

/-- The same over a map of which every value is made of a number. -/
theorem foldl_order_num {β : Type} {m : GoMap String β} {s : Finset String} {f : String → β}
    (h : GoMap.Tabulates m s f) (ord : MapOrder) {op : ℚ → ℚ → ℚ} [Std.Commutative op]
    [Std.Associative op] {step : checkedArith.F → String × β → checkedArith.F} (g : String → ℚ)
    (b : ℚ) (hstep : ∀ id ∈ s, ∀ a, step (num a) (id, f id) = num (op a (g id))) :
    (ord.order (GoMap.pairs m)).foldl step (num b) = num (s.fold op b g) := by
  rw [foldl_num op fun e => g e.1]
  · exact congrArg num (h.foldl_order ord (fun e => g e.1) b)
  · rintro ⟨id, v⟩ he a
    obtain ⟨id', hid', heq⟩ := List.mem_map.mp ((h.order_perm ord).mem_iff.mp he)
    obtain ⟨rfl, rfl⟩ := Prod.mk.inj heq
    exact hstep id' (Finset.mem_toList.mp hid') a

variable {weights : GoMap String checkedArith.F} {s : Finset String} {w : String → ℚ}

theorem tabulates_normalize (h : weights.Tabulates s fun id => num (w id))
    (orders : TallyOrders) {low high : ℚ} (hlow : low = s.fold min 1 w)
    (hhigh : high = s.fold max 0 fun id => w id - low) :
    GoMap.Tabulates (normalize orders weights) s fun id =>
      num (if high = 0 then 1 else (w id - low) / high) := by
  have hmin : (orders.minimum.order (GoMap.pairs weights)).foldl
      (fun min e => if checkedArith.lt e.2 min then e.2 else min) (checkedArith.ofNat 1) =
        num low := by
    rw [ofNat_eq_num, Nat.cast_one, hlow]
    refine foldl_order_num h _ w 1 fun id _ a => ?_
    rw [lt_num]
    by_cases hlt : w id < a
    · rw [if_pos (decide_eq_true hlt), min_eq_right hlt.le]
    · rw [if_neg (by simpa using hlt), min_eq_left (not_lt.mp hlt)]
  have hmax : (orders.maximum.order (GoMap.pairs weights)).foldl
      (fun max e => if checkedArith.lt max (checkedArith.sub e.2 (num low)) then
        checkedArith.sub e.2 (num low) else max) (checkedArith.ofNat 0) = num high := by
    rw [ofNat_eq_num, Nat.cast_zero, hhigh]
    refine foldl_order_num h _ (fun id => w id - low) 0 fun id _ a => ?_
    rw [sub_num, lt_num]
    by_cases hlt : a < w id - low
    · rw [if_pos (decide_eq_true hlt), max_eq_right hlt.le]
    · rw [if_neg (by simpa using hlt), max_eq_left (not_lt.mp hlt)]
  have hnonneg : 0 ≤ high := by
    rw [hhigh]
    exact (Finset.le_fold_max _).mpr (Or.inl le_rfl)
  unfold normalize
  rw [hmin]
  dsimp only
  rw [hmax]
  refine (h.mapValues _).congr fun id _ => ?_
  rw [ofNat_eq_num, ofNat_eq_num, lt_num, sub_num, Nat.cast_zero, Nat.cast_one]
  by_cases hzero : high = 0
  · rw [if_pos hzero, if_pos (by simp [hzero])]
  · have hpos : 0 < high := lt_of_le_of_ne hnonneg (Ne.symm hzero)
    rw [if_neg hzero, if_neg (by simp [hpos]), div_num hzero]

end Normalize

/-! ## `calculateTallies` -/

section Total

variable {L : Ipld} {responses : List (Vote checkedArith)}

/-- The vote of an id, with its weight. -/
def weighted (L : Ipld) (responses : List (Vote checkedArith)) (id : String) :
    Vote checkedArith :=
  { checkpoint := first L responses id, tallyCount := num (raw L responses id) }

/-- The vote that is returned for an id. -/
def tallied (L : Ipld) (responses : List (Vote checkedArith)) (id : String) :
    Vote checkedArith :=
  { checkpoint := first L responses id, tallyCount := num (tally L responses id) }

/-- **What is returned**: a vote for each id, in some order. -/
theorem calculateTallies_perm (hne : responses ≠ [])
    (hzero : ∀ v ∈ responses, v.tallyCount = num 0)
    (hlen : ∀ v ∈ responses, v.id L ≠ zeroVoteID → 1 ≤ v.size)
    (htotal : total L responses ≠ 0) (orders : TallyOrders) :
    (calculateTallies L orders responses).Perm ((ids L responses).toList.map
      (tallied L responses)) := by
  unfold calculateTallies
  dsimp only
  generalize heq : GoMap.mapValues (countResponses L responses) _ = votes
  have hvotes : votes.Tabulates (ids L responses) (weighted L responses) := by
    -- the share of the responses, times the weight for the ids that have one
    have hweights := tabulates_normalize (tabulates_computeProfitWeights hlen) orders rfl rfl
    rw [← heq]
    refine ((tabulates_countResponses hne hzero).mapValues _).congr fun id _ => ?_
    rw [hweights id]
    by_cases hmem : id ∈ proposed L responses
    · simp only [if_pos hmem, Vote.setTally, counted, mul_num, weighted, raw, mul_one_div]
      rfl
    · simp only [if_neg hmem, counted, weighted, raw, mul_one_div, mul_one]
  have hsum : (orders.total.order (GoMap.pairs votes)).foldl
      (fun total e => checkedArith.add total e.2.tallyCount) (checkedArith.ofNat 0) =
        num (total L responses) := by
    rw [ofNat_eq_num, Nat.cast_zero, total, Finset.sum_eq_fold]
    exact foldl_order_num hvotes _ (raw L responses) 0 fun id _ a => rfl
  rw [hsum]
  refine ((hvotes.order_perm orders.votes).map _).trans (List.Perm.of_eq ?_)
  rw [List.map_map]
  refine List.map_congr_left fun id _ => ?_
  show (weighted L responses id).setTally
    (checkedArith.div (num (raw L responses id)) (num (total L responses))) = _
  rw [div_num htotal]
  rfl

end Total

/-! ## The distribution -/

section Distribution

variable {A : FloatArith} {L : Ipld} {responses : List (Vote A)} {id : String}

theorem lowest_le (hid : id ∈ proposed L responses) :
    lowest L responses ≤ profitWeight L responses id :=
  (Finset.fold_min_le _).mpr (Or.inr ⟨id, hid, le_rfl⟩)

theorem spread_nonneg : 0 ≤ spread L responses := (Finset.le_fold_max _).mpr (Or.inl le_rfl)

theorem weight_nonneg (hid : id ∈ proposed L responses) : 0 ≤ weight L responses id := by
  unfold weight
  split
  · exact zero_le_one
  · exact div_nonneg (sub_nonneg.mpr (lowest_le hid)) spread_nonneg

/-- The id with the highest profit has the whole weight. -/
theorem exists_weight_eq_one (h : (proposed L responses).Nonempty) :
    ∃ id ∈ proposed L responses, weight L responses id = 1 := by
  unfold weight
  by_cases hzero : spread L responses = 0
  · obtain ⟨id, hid⟩ := h
    exact ⟨id, hid, if_pos hzero⟩
  · have hpos : 0 < spread L responses := lt_of_le_of_ne spread_nonneg (Ne.symm hzero)
    rcases (Finset.le_fold_max _).mp (le_refl (spread L responses)) with hle | ⟨id, hid, hle⟩
    · exact absurd hle (not_le.mpr hpos)
    · have hge : profitWeight L responses id - lowest L responses ≤ spread L responses :=
        (Finset.le_fold_max _).mpr (Or.inr ⟨id, hid, le_rfl⟩)
      refine ⟨id, hid, ?_⟩
      rw [if_neg hzero, le_antisymm hge hle, div_self hzero]

theorem raw_nonneg (id : String) : 0 ≤ raw L responses id := by
  unfold raw
  refine mul_nonneg (div_nonneg (Nat.cast_nonneg _) (Nat.cast_nonneg _)) ?_
  split
  · next hid => exact weight_nonneg hid
  · exact zero_le_one

/-- Some id keeps its share. -/
theorem exists_raw_pos (hne : responses ≠ []) : ∃ id ∈ ids L responses, 0 < raw L responses id := by
  have hlen : (0 : ℚ) < responses.length := by
    exact_mod_cast List.length_pos_iff.mpr hne
  have hraw : ∀ id ∈ ids L responses,
      (if id ∈ proposed L responses then weight L responses id else 1) = 1 →
      0 < raw L responses id := by
    intro id hid hone
    have hcount : (0 : ℚ) < count L responses id := by exact_mod_cast count_pos hid
    rw [raw, hone, mul_one]
    exact div_pos hcount hlen
  rcases (proposed L responses).eq_empty_or_nonempty with hempty | hsome
  · -- only empty votes
    obtain ⟨v, rest, rfl⟩ := List.exists_cons_of_ne_nil hne
    have hid : v.id L ∈ ids L (v :: rest) := mem_ids.mpr ⟨v, List.mem_cons_self, rfl⟩
    exact ⟨_, hid, hraw _ hid (if_neg (by rw [hempty]; exact Finset.notMem_empty _))⟩
  · obtain ⟨id, hid, hone⟩ := exists_weight_eq_one hsome
    have hmem := (mem_proposed.mp hid).2
    exact ⟨id, hmem, hraw id hmem (by rw [if_pos hid, hone])⟩

theorem total_pos (hne : responses ≠ []) : 0 < total L responses := by
  obtain ⟨id, hid, hpos⟩ := exists_raw_pos (L := L) hne
  exact Finset.sum_pos' (fun id _ => raw_nonneg id) ⟨id, hid, hpos⟩

theorem tally_nonneg (hne : responses ≠ []) (id : String) : 0 ≤ tally L responses id :=
  div_nonneg (raw_nonneg id) (total_pos hne).le

theorem sum_tally (hne : responses ≠ []) : ∑ id ∈ ids L responses, tally L responses id = 1 := by
  unfold tally
  rw [← Finset.sum_div]
  exact div_self (total_pos hne).ne'

/-- The tallies do not depend on the order of the responses. -/
theorem tally_perm {responses' : List (Vote A)} (h : responses'.Perm responses) :
    ids L responses' = ids L responses ∧ tally L responses' = tally L responses := by
  have hids : ids L responses' = ids L responses := by
    ext id
    rw [mem_ids, mem_ids]
    exact exists_congr fun v => and_congr_left fun _ => h.mem_iff
  have hcount : count L responses' = count L responses := funext fun id => h.countP_eq _
  have hprofit : profit L responses' = profit L responses :=
    funext fun id => ((h.filter _).map _).sum_eq
  refine ⟨hids, ?_⟩
  unfold tally total raw weight spread lowest profitWeight maxProfit proposed
  rw [hids, hcount, hprofit, h.length_eq]

/-! ## More responses for a longer checkpoint -/

theorem sum_le_sum_of_forall_le {as bs : List Nat} (hlen : bs.length ≤ as.length)
    (h : ∀ a ∈ as, ∀ b ∈ bs, b ≤ a) : bs.sum ≤ as.sum := by
  -- the largest of `bs` is between
  let m := bs.toFinset.sup id
  have hle : ∀ b ∈ bs, b ≤ m := fun b hb => Finset.le_sup (f := id) (List.mem_toFinset.mpr hb)
  have hge : ∀ a ∈ as, m ≤ a :=
    fun a ha => Finset.sup_le fun b hb => h a ha b (List.mem_toFinset.mp hb)
  calc bs.sum ≤ bs.length • m := List.sum_le_card_nsmul bs m hle
    _ ≤ as.length • m := Nat.mul_le_mul_right m hlen
    _ ≤ as.sum := List.card_nsmul_le_sum as m hge

theorem weight_mono {a b : String} (h : profit L responses b ≤ profit L responses a) :
    weight L responses b ≤ weight L responses a := by
  have hw : profitWeight L responses b ≤ profitWeight L responses a := by
    unfold profitWeight
    gcongr
  unfold weight
  split
  · exact le_rfl
  · exact div_le_div_of_nonneg_right (sub_le_sub_right hw _) spread_nonneg

/-- Every response for `a` is at least as long as every one for `b`. -/
def Longer (L : Ipld) (responses : List (Vote A)) (a b : String) : Prop :=
  ∀ u ∈ responses, ∀ v ∈ responses, u.id L = a → v.id L = b → v.size ≤ u.size

theorem profit_mono {a b : String} (hcount : count L responses b ≤ count L responses a)
    (hlonger : Longer L responses a b) : profit L responses b ≤ profit L responses a := by
  refine sum_le_sum_of_forall_le ?_ ?_
  · rw [List.length_map, List.length_map, ← List.countP_eq_length_filter,
      ← List.countP_eq_length_filter]
    exact hcount
  · intro x hx y hy
    obtain ⟨u, hu, rfl⟩ := List.mem_map.mp hx
    obtain ⟨v, hv, rfl⟩ := List.mem_map.mp hy
    obtain ⟨hu, hua⟩ := List.mem_filter.mp hu
    obtain ⟨hv, hvb⟩ := List.mem_filter.mp hv
    exact hlonger u hu v hv (of_decide_eq_true hua) (of_decide_eq_true hvb)

theorem tally_mono (hne : responses ≠ []) {a b : String} (ha : a ≠ zeroVoteID)
    (hb : b ≠ zeroVoteID) (hcount : count L responses b ≤ count L responses a)
    (hlonger : Longer L responses a b) : tally L responses b ≤ tally L responses a := by
  refine div_le_div_of_nonneg_right ?_ (total_pos hne).le
  by_cases hmem : b ∈ ids L responses
  · have hmem' : a ∈ ids L responses := by
      by_contra hnot
      have hpos := count_pos hmem
      rw [count_of_not_mem hnot] at hcount
      omega
    have hpa : a ∈ proposed L responses := mem_proposed.mpr ⟨ha, hmem'⟩
    have hpb : b ∈ proposed L responses := mem_proposed.mpr ⟨hb, hmem⟩
    have hshare : (count L responses b : ℚ) / responses.length ≤
        count L responses a / responses.length := by
      gcongr
    rw [raw, raw, if_pos hpa, if_pos hpb]
    exact mul_le_mul hshare (weight_mono (profit_mono hcount hlonger)) (weight_nonneg hpb)
      (div_nonneg (Nat.cast_nonneg _) (Nat.cast_nonneg _))
  · have hzero : raw L responses b = 0 := by
      rw [raw, count_of_not_mem hmem]
      simp
    rw [hzero]
    exact raw_nonneg a

end Distribution

/-! ## The result -/

/--
Every number that is computed is one: the shares, the profits and the weights that a division
gives, and the tallies.
-/
structure NoDivisionByZero (L : Ipld) (orders : TallyOrders)
    (responses : List (Vote checkedArith)) : Prop where
  shares : ∀ id v, (countResponses L responses).lookup id = some v → ∃ x, v.tallyCount = num x
  profits : ∀ id w, (computeProfitWeights L responses).lookup id = some w → ∃ x, w = num x
  weights : ∀ id w, (normalize orders (computeProfitWeights L responses)).lookup id = some w →
    ∃ x, w = num x
  tallies : ∀ v ∈ calculateTallies L orders responses, ∃ x, v.tallyCount = num x

/-- One vote for each id of the responses, with tallies that are not negative and add up to 1. -/
structure Distributes (L : Ipld) (responses votes : List (Vote checkedArith))
    (tally : String → ℚ) : Prop where
  nodup : (votes.map fun v => v.id L).Nodup
  ids : ∀ id, id ∈ votes.map (fun v => v.id L) ↔ id ∈ responses.map fun v => v.id L
  tallyCount : ∀ v ∈ votes, v.tallyCount = num (tally (v.id L))
  nonneg : ∀ v ∈ votes, 0 ≤ tally (v.id L)
  sum : (votes.map fun v => tally (v.id L)).sum = 1

section Result

variable {L : Ipld} {responses : List (Vote checkedArith)}

theorem id_tallied {id : String} (hid : id ∈ ids L responses) :
    (tallied L responses id).id L = id := by
  obtain ⟨v, hv, hvid⟩ := mem_ids.mp hid
  cases hfind : responses.find? fun u => u.id L = id with
  | none => exact absurd (decide_eq_true hvid) (List.find?_eq_none.mp hfind v hv)
  | some u =>
    have hu : u.id L = id := by simpa using List.find?_some hfind
    have hfirst : first L responses id = u.checkpoint := by
      rw [first, hfind]
      rfl
    rw [tallied, hfirst, ← hu]
    rfl

variable (hne : responses ≠ []) (hzero : ∀ v ∈ responses, v.tallyCount = num 0)
  (hlen : ∀ v ∈ responses, v.id L ≠ zeroVoteID → 1 ≤ v.size)

include hne hzero hlen

theorem noDivisionByZero (orders : TallyOrders) : NoDivisionByZero L orders responses where
  shares id v hv := by
    obtain ⟨-, hv⟩ := Option.ite_none_right_eq_some.mp
      ((tabulates_countResponses hne hzero id).symm.trans hv)
    exact ⟨_, by rw [← Option.some.inj hv]; rfl⟩
  profits id w hw := by
    obtain ⟨-, hw⟩ := Option.ite_none_right_eq_some.mp
      ((tabulates_computeProfitWeights hlen id).symm.trans hw)
    exact ⟨_, (Option.some.inj hw).symm⟩
  weights id w hw := by
    obtain ⟨-, hw⟩ := Option.ite_none_right_eq_some.mp
      ((tabulates_normalize (tabulates_computeProfitWeights hlen) orders rfl rfl id).symm.trans hw)
    exact ⟨_, (Option.some.inj hw).symm⟩
  tallies v hv := by
    have hmem := (calculateTallies_perm hne hzero hlen (total_pos hne).ne' orders).mem_iff.mp hv
    obtain ⟨id, -, rfl⟩ := List.mem_map.mp hmem
    exact ⟨_, rfl⟩

theorem distributes (orders : TallyOrders) :
    Distributes L responses (calculateTallies L orders responses) (tally L responses) := by
  have hperm := calculateTallies_perm hne hzero hlen (total_pos hne).ne' orders
  have hids : ((calculateTallies L orders responses).map fun v => v.id L).Perm
      (ids L responses).toList := by
    refine (hperm.map _).trans (List.Perm.of_eq ?_)
    rw [List.map_map]
    refine (List.map_congr_left fun id hid => ?_).trans (List.map_id _)
    exact id_tallied (Finset.mem_toList.mp hid)
  refine ⟨hids.nodup_iff.mpr (Finset.nodup_toList _), fun id => ?_, fun v hv => ?_,
    fun v _ => tally_nonneg hne _, ?_⟩
  · rw [hids.mem_iff, Finset.mem_toList, Tally.ids, List.mem_toFinset]
  · obtain ⟨id, hid, rfl⟩ := List.mem_map.mp (hperm.mem_iff.mp hv)
    rw [id_tallied (Finset.mem_toList.mp hid)]
    rfl
  · rw [← sum_tally (L := L) hne, ← Finset.sum_map_toList, ← (hids.map _).sum_eq, List.map_map]
    rfl

end Result

/--
**Tallies are a well-defined distribution.**

For responses that have not been tallied yet, of which every one that is not empty is for a
checkpoint of some length: there is one tally for each id, whatever the order of the responses and
of the maps. Nothing is divided by zero; the votes that are returned are one for each id, with
tallies that are not negative and add up to 1. An id with as many responses for a checkpoint that
is as long has no lower tally.
-/
theorem tallies_distribution (L : Ipld) (responses : List (Vote checkedArith))
    (hne : responses ≠ []) (hzero : ∀ v ∈ responses, v.tallyCount = num 0)
    (hlen : ∀ v ∈ responses, v.id L ≠ zeroVoteID → 1 ≤ v.size) :
    ∃ tally : String → ℚ,
      (∀ responses' orders, responses'.Perm responses → NoDivisionByZero L orders responses' ∧
        Distributes L responses (calculateTallies L orders responses') tally) ∧
      ∀ a b, a ≠ zeroVoteID → b ≠ zeroVoteID → count L responses b ≤ count L responses a →
        Longer L responses a b → tally b ≤ tally a := by
  refine ⟨Tally.tally L responses, ?_, fun a b ha hb => tally_mono hne ha hb⟩
  intro responses' orders hperm
  have hne' : responses' ≠ [] := fun h => hne (List.perm_nil.mp (h ▸ hperm).symm)
  have hzero' : ∀ v ∈ responses', v.tallyCount = num 0 := fun v hv => hzero v (hperm.mem_iff.mp hv)
  have hlen' : ∀ v ∈ responses', v.id L ≠ zeroVoteID → 1 ≤ v.size :=
    fun v hv => hlen v (hperm.mem_iff.mp hv)
  obtain ⟨-, htally⟩ := tally_perm (L := L) hperm
  have hdist := distributes hne' hzero' hlen' orders
  rw [htally] at hdist
  refine ⟨noDivisionByZero hne' hzero' hlen' orders, hdist.nodup, fun id => ?_, hdist.tallyCount,
    hdist.nonneg, hdist.sum⟩
  rw [hdist.ids, (hperm.map fun v => v.id L).mem_iff]

/-! ## The votes of `TestCalculateTallies` -/

namespace Example

/-- A vote for a checkpoint with `n` add block requests. -/
def vote (n : Nat) : Vote checkedArith where
  checkpoint := some { height := 1, addBlockRequests := List.replicate n [0] }
  tallyCount := num 0

def responses : List (Vote checkedArith) := [Vote.nil _, vote 2, vote 10, vote 4, vote 9]

theorem tallies_distribution_example :
    (∃ tally : String → ℚ, Distributes Ipld.inFull responses
        (calculateTallies Ipld.inFull .plain responses.reverse) tally) ∧
      (calculateTallies Ipld.inFull .plain responses).map (fun v => (v.size, v.tallyCount)) =
        [(0, num (8 / 25)), (2, num 0), (10, num (8 / 25)), (4, num (2 / 25)),
          (9, num (7 / 25))] := by
  have hzero : ∀ v ∈ responses, v.tallyCount = num 0 := by
    simp [responses, vote, Vote.nil]
  have hlen : ∀ v ∈ responses, v.id Ipld.inFull ≠ zeroVoteID → 1 ≤ v.size := by
    simp [responses, vote, Vote.size, Vote.nil, Vote.id]
  obtain ⟨tally, hall, -⟩ := tallies_distribution Ipld.inFull responses (by simp [responses])
    hzero hlen
  exact ⟨⟨tally, (hall _ .plain (List.reverse_perm _)).2⟩, by decide +kernel⟩

end Example

end Tally

end Tupelo

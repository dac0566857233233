import Tupelo.Signer.SnowballRuns

/-!
# What a snowball prefers

The map `counts` of a snowball stands for the number of successful ticks of each id, in 16 bits.
As long as no count has wrapped, what is preferred has the highest one.

A round that does not decide goes on, so the counts have no bound. A count that wraps is zero
again, and the next majority is preferred whatever it is.
-/

namespace Tupelo

open Infra

namespace Snowball

variable {A : FloatArith} {L : Ipld} {s : Snowball A} {alpha : A.F} {votes : List (Vote A)}
  {history : List (List (Vote A))}
variable {m : Vote A} {s' : Snowball A}

/-! ## The number of successful ticks -/

section Support

variable (L) (alpha : A.F) (initial : Option (Preference A)) (history : List (List (Vote A)))

/--
The id that was adopted without a win: by an initial `Prefer`, or by the first tick that had a
majority, if that was below the threshold.
-/
def adoptedID : Option String :=
  match initial with
  | some v => some (v.1.id L)
  | none =>
    (history.find? fun votes => (majority L votes).isSome).bind fun votes =>
      if (winner L alpha votes).isNone then (majority L votes).map (·.id L) else none

/-- The successful ticks of an id, and one for having been adopted without any. -/
def support (id : String) : Nat :=
  (history.map (winner L alpha)).count (some id) +
    if adoptedID L alpha initial history = some id then 1 else 0

/-- Something could have been preferred already. -/
def Seen : Prop := initial ≠ none ∨ ∃ votes ∈ history, majority L votes ≠ none

end Support

variable {initial : Option (Preference A)}

theorem adoptedID_concat (h : Seen L initial history ∨ majority L votes = none) :
    adoptedID L alpha initial (history ++ [votes]) = adoptedID L alpha initial history := by
  cases initial with
  | some v => rfl
  | none =>
    unfold adoptedID
    simp only [List.find?_append]
    cases hf : history.find? fun votes => (majority L votes).isSome with
    | some found => rfl
    | none =>
      rcases h with (hinitial | ⟨seen, hseen, hm⟩) | hm
      · exact absurd rfl hinitial
      · have hnone := List.find?_eq_none.mp hf seen hseen
        exact absurd (Option.isSome_iff_ne_none.mpr hm) hnone
      · simp [hm]

theorem find_majority_unseen (h : ¬ Seen L initial history) :
    (history.find? fun votes => (majority L votes).isSome) = none := by
  rw [List.find?_eq_none]
  intro votes hvotes hsome
  exact h (Or.inr ⟨votes, hvotes, Option.isSome_iff_ne_none.mp hsome⟩)

theorem initial_unseen (h : ¬ Seen L initial history) : initial = none :=
  not_not.mp fun hinitial => h (Or.inl hinitial)

theorem adoptedID_unseen (alpha : A.F) (h : ¬ Seen L initial history) :
    adoptedID L alpha initial history = none := by
  rw [initial_unseen h]
  unfold adoptedID
  simp only [find_majority_unseen h, Option.bind_none]

/-- The first tick with a majority is adopted unless it was successful. -/
theorem adoptedID_first (alpha : A.F) (h : ¬ Seen L initial history)
    (hm : majority L votes = some m) :
    adoptedID L alpha initial (history ++ [votes]) =
      if (winner L alpha votes).isNone then some (m.id L) else none := by
  rw [initial_unseen h]
  unfold adoptedID
  simp [List.find?_append, find_majority_unseen h, hm]

theorem count_winners_concat (id : String) :
    ((history ++ [votes]).map (winner L alpha)).count (some id) =
      (history.map (winner L alpha)).count (some id) +
        if winner L alpha votes = some id then 1 else 0 := by
  simp [List.count_append, List.count_singleton, beq_iff_eq]

/-- Nothing has been won where nothing could be preferred. -/
theorem count_winners_unseen (alpha : A.F) (h : ¬ Seen L initial history) (id : String) :
    (history.map (winner L alpha)).count (some id) = 0 := by
  rw [List.count_eq_zero]
  intro hmem
  obtain ⟨votes, hvotes, hw⟩ := List.mem_map.mp hmem
  obtain ⟨m, hm, -⟩ := majority_of_winner hw
  exact h (Or.inr ⟨votes, hvotes, by rw [hm]; exact Option.some_ne_none m⟩)

theorem seen_concat : Seen L initial (history ++ [votes]) ↔
    Seen L initial history ∨ majority L votes ≠ none := by
  unfold Seen
  simp only [List.mem_append, List.mem_singleton, or_and_right, exists_or, exists_eq_left, or_assoc]

theorem support_unseen (alpha : A.F) (h : ¬ Seen L initial history) (id : String) :
    support L alpha initial history id = 0 := by
  unfold support
  rw [count_winners_unseen alpha h, adoptedID_unseen alpha h]
  rfl

theorem support_lost (hw : winner L alpha votes = none)
    (h : Seen L initial history ∨ majority L votes = none) (id : String) :
    support L alpha initial (history ++ [votes]) id = support L alpha initial history id := by
  unfold support
  rw [count_winners_concat, adoptedID_concat h, hw]
  rfl

theorem support_won (hm : majority L votes = some m) (hw : winner L alpha votes = some (m.id L))
    (id : String) :
    support L alpha initial (history ++ [votes]) id =
      support L alpha initial history id + if m.id L = id then 1 else 0 := by
  have hadopted : adoptedID L alpha initial (history ++ [votes]) =
      adoptedID L alpha initial history := by
    by_cases hseen : Seen L initial history
    · exact adoptedID_concat (Or.inl hseen)
    · rw [adoptedID_first alpha hseen hm, adoptedID_unseen alpha hseen, hw]
      rfl
  unfold support
  rw [count_winners_concat, hadopted, hw]
  simp only [Option.some.injEq]
  omega

theorem support_adopted (hseen : ¬ Seen L initial history) (hm : majority L votes = some m)
    (hw : winner L alpha votes = none) (id : String) :
    support L alpha initial (history ++ [votes]) id = if m.id L = id then 1 else 0 := by
  unfold support
  rw [count_winners_concat, count_winners_unseen alpha hseen, adoptedID_first alpha hseen hm, hw]
  simp

/-- The counts of a snowball that has not decided, against the number of successful ticks. -/
structure Supported (L : Ipld) (alpha : A.F) (initial : Option (Preference A))
    (history : List (List (Vote A))) (s : Snowball A) : Prop where
  alpha_eq : s.alpha = alpha
  seen : s.preferred ≠ none ↔ Seen L initial history
  unseen : s.preferred = none → s.counts = ∅
  count : ∀ id, (s.countOf id).toNat = support L alpha initial history id % 2 ^ 16
  /-- As long as no count has wrapped, none is higher than that of what is preferred. -/
  best : (∀ id, support L alpha initial history id < 2 ^ 16) → ∀ v, s.preferred = some v →
    ∀ id, support L alpha initial history id ≤ support L alpha initial history (v.id L)

theorem countOf_insert (s : Snowball A) (id id' : String) (c : UInt16) :
    ({ s with counts := s.counts.insert id c } : Snowball A).countOf id' =
      if id = id' then c else s.countOf id' := by
  unfold countOf
  by_cases h : id = id'
  · subst h
    simp
  · rw [if_neg h]
    simp only [AList.lookup_insert_ne (Ne.symm h)]

theorem countMajority_counts (L : Ipld) (s : Snowball A) (m : Vote A) :
    (s.countMajority L m).counts = s.counts.insert (m.id L) (s.countOf (m.id L) + 1) := by
  unfold countMajority
  simp only []
  split
  · rfl
  · split <;> rfl

theorem countMajority_countOf (L : Ipld) (s : Snowball A) (m : Vote A) (id : String) :
    (s.countMajority L m).countOf id =
      if m.id L = id then s.countOf (m.id L) + 1 else s.countOf id := by
  rw [← countOf_insert]
  unfold countOf
  rw [countMajority_counts]
  rfl

/-- The majority is preferred if nothing was, or if it has now been counted more often. -/
theorem countMajority_preferred (L : Ipld) (s : Snowball A) (m : Vote A) :
    (s.preferred = none ∧ (s.countMajority L m).preferred = some m) ∨
    ∃ p, s.preferred = some p ∧
      (((s.countMajority L m).countOf (p.id L) < (s.countMajority L m).countOf (m.id L) ∧
          (s.countMajority L m).preferred = some m) ∨
        (¬ (s.countMajority L m).countOf (p.id L) < (s.countMajority L m).countOf (m.id L) ∧
          (s.countMajority L m).preferred = some p)) := by
  have hcountOf : ∀ id, (s.countMajority L m).countOf id =
      ({ s with counts := s.counts.insert (m.id L) (s.countOf (m.id L) + 1) } :
        Snowball A).countOf id := by
    intro id
    rw [countMajority_countOf, countOf_insert]
  simp only [hcountOf]
  unfold countMajority
  simp only []
  split
  · next h => exact Or.inl ⟨h, rfl⟩
  · next p h =>
    refine Or.inr ⟨p, h, ?_⟩
    split
    · next hlt => exact Or.inl ⟨hlt, rfl⟩
    · next hlt => exact Or.inr ⟨hlt, h⟩

/-- Where all counts are zero, the majority is preferred, whatever was before. -/
theorem countMajority_of_zero (hzero : ∀ id, (s.countOf id).toNat = 0) (m : Vote A) :
    (s.countMajority L m).preferred.map (·.id L) = some (m.id L) := by
  rcases countMajority_preferred L s m with ⟨-, hp⟩ | ⟨p, -, ⟨-, hp⟩ | ⟨hle, hp⟩⟩
  · rw [hp, Option.map_some]
  · rw [hp, Option.map_some]
  · rw [hp, Option.map_some]
    by_cases hid : m.id L = p.id L
    · rw [hid]
    · rw [countMajority_countOf, countMajority_countOf, if_neg hid, if_pos rfl,
        UInt16.lt_iff_toNat_lt, UInt16.toNat_add, hzero, hzero] at hle
      exact absurd (by decide) hle

theorem supported_starting (L : Ipld) (alpha : A.F) (beta : Int) (k : Nat)
    (initial : Option (Preference A)) :
    (starting L alpha beta k initial).Supported L alpha initial [] := by
  cases initial with
  | none =>
    have hseen : ¬ Seen (A := A) L none [] := by simp [Seen]
    refine ⟨rfl, iff_of_false (fun h => h rfl) hseen, fun _ => rfl, ?_, ?_⟩
    · intro id
      rw [support_unseen alpha hseen]
      simp [countOf, starting, new]
    · intro _ v hv
      cases hv
  | some v =>
    have hsupport : ∀ id, support L alpha (some v) [] id = if v.1.id L = id then 1 else 0 := by
      intro id
      simp [support, adoptedID]
    refine ⟨rfl, ?_, ?_, ?_, ?_⟩
    · exact iff_of_true (Option.some_ne_none v.1) (Or.inl (Option.some_ne_none v))
    · intro h
      cases h
    · intro id
      have hcounts : (starting L alpha beta k (some v)).countOf id =
          if v.1.id L = id then 1 else (new alpha beta k).countOf id :=
        countOf_insert (new alpha beta k) (v.1.id L) id 1
      rw [hcounts, hsupport]
      split <;> rfl
    · intro _ w hw id
      obtain rfl : v.1 = w := Option.some.inj hw
      rw [hsupport, hsupport, if_pos rfl]
      split <;> omega

/-- Counting one more for `m`, and then preferring it if it is ahead, keeps the best preferred. -/
theorem best_of_counted {f f' : String → Nat} {m p v : String}
    (hf' : ∀ id, f' id = f id + if m = id then 1 else 0) (hbest : ∀ id, f id ≤ f p)
    (hv : f' p < f' m ∧ v = m ∨ ¬ f' p < f' m ∧ v = p) (id : String) : f' id ≤ f' v := by
  have hid := hf' id
  have hm := hf' m
  have hp := hf' p
  have hle := hbest id
  rw [if_pos rfl] at hm
  by_cases heq : m = id
  · subst heq
    rcases hv with ⟨-, rfl⟩ | ⟨hnot, rfl⟩ <;> omega
  · rw [if_neg heq] at hid
    rcases hv with ⟨hlt, rfl⟩ | ⟨-, rfl⟩ <;> omega

/-- A count is the support, in 16 bits. -/
theorem Supported.count_won (h : s.Supported L alpha initial history)
    (hm : majority L votes = some m) (hw : winner L alpha votes = some (m.id L)) (id : String) :
    ((s.countMajority L m).countOf id).toNat =
      support L alpha initial (history ++ [votes]) id % 2 ^ 16 := by
  have hold := h.count id
  rw [countMajority_countOf, support_won hm hw]
  split
  · next hid =>
    rw [hid, UInt16.toNat_add, hold]
    have hone : (1 : UInt16).toNat = 1 := rfl
    omega
  · exact hold

/-- What is preferred after a success has the most support, if nothing has wrapped. -/
theorem Supported.best_won (h : s.Supported L alpha initial history)
    (hm : majority L votes = some m) (hw : winner L alpha votes = some (m.id L))
    (hbound : ∀ id, support L alpha initial (history ++ [votes]) id < 2 ^ 16) {v : Vote A}
    (hv : (s.countMajority L m).preferred = some v) (id : String) :
    support L alpha initial (history ++ [votes]) id ≤
      support L alpha initial (history ++ [votes]) (v.id L) := by
  have hsupport : ∀ id, support L alpha initial (history ++ [votes]) id =
      support L alpha initial history id + if m.id L = id then 1 else 0 := support_won hm hw
  -- nothing has wrapped, so the counts are the numbers
  have hexact : ∀ id, ((s.countMajority L m).countOf id).toNat =
      support L alpha initial (history ++ [votes]) id := by
    intro id
    rw [h.count_won hm hw]
    exact Nat.mod_eq_of_lt (hbound id)
  have hold : ∀ p, s.preferred = some p → ∀ id,
      support L alpha initial history id ≤ support L alpha initial history (p.id L) := by
    refine h.best fun id => ?_
    have := hbound id
    rw [hsupport] at this
    omega
  rcases countMajority_preferred L s m with ⟨hp, hv'⟩ | ⟨p, hp, hcase⟩
  · -- nothing was preferred, so nothing had been won
    have hunseen : ¬ Seen L initial history := fun hs => h.seen.mpr hs hp
    rw [← Option.some.inj (hv'.symm.trans hv), hsupport, hsupport,
      support_unseen alpha hunseen, support_unseen alpha hunseen, if_pos rfl]
    split <;> omega
  · refine best_of_counted hsupport (hold p hp) ?_ id
    rw [UInt16.lt_iff_toNat_lt, hexact, hexact] at hcase
    rcases hcase with ⟨hlt, hv'⟩ | ⟨hle, hv'⟩
    · exact Or.inl ⟨hlt, by rw [← Option.some.inj (hv'.symm.trans hv)]⟩
    · exact Or.inr ⟨hle, by rw [← Option.some.inj (hv'.symm.trans hv)]⟩

/-- A tick that is successful counts for its majority. -/
theorem Supported.won (h : s.Supported L alpha initial history) (hm : majority L votes = some m)
    (hw : winner L s.alpha votes = some (m.id L)) (halpha : s'.alpha = s.alpha)
    (hcounts : s'.counts = (s.countMajority L m).counts)
    (hpref : s'.preferred = (s.countMajority L m).preferred) :
    s'.Supported L alpha initial (history ++ [votes]) := by
  rw [h.alpha_eq] at hw
  have hsome : s'.preferred ≠ none := by
    rw [hpref]
    rcases countMajority_preferred L s m with ⟨-, hp⟩ | ⟨p, -, ⟨-, hp⟩ | ⟨-, hp⟩⟩ <;>
      rw [hp] <;> exact Option.some_ne_none _
  have hseen : Seen L initial (history ++ [votes]) :=
    seen_concat.mpr (Or.inr (by rw [hm]; exact Option.some_ne_none m))
  refine ⟨halpha.trans h.alpha_eq, iff_of_true hsome hseen, fun hnone => absurd hnone hsome,
    fun id => ?_, fun hbound v hv => h.best_won hm hw hbound (hpref ▸ hv)⟩
  rw [← h.count_won hm hw]
  unfold countOf
  rw [hcounts]

/-- A tick that is not successful, after which the snowball prefers what it did. -/
theorem Supported.lost (h : s.Supported L alpha initial history)
    (hw : winner L s.alpha votes = none) (hkeep : majority L votes = none ∨ s.preferred ≠ none)
    (halpha : s'.alpha = s.alpha) (hcounts : s'.counts = s.counts)
    (hpref : s'.preferred = s.preferred) : s'.Supported L alpha initial (history ++ [votes]) := by
  rw [h.alpha_eq] at hw
  rw [h.seen] at hkeep
  have hsupport : ∀ id, support L alpha initial (history ++ [votes]) id =
      support L alpha initial history id := support_lost hw hkeep.symm
  have hcountOf : ∀ id, s'.countOf id = s.countOf id := by
    intro id
    unfold countOf
    rw [hcounts]
  refine ⟨halpha.trans h.alpha_eq, ?_, ?_, ?_, ?_⟩
  · rw [hpref, h.seen, seen_concat]
    refine ⟨Or.inl, ?_⟩
    rintro (hseen | hm)
    · exact hseen
    · exact hkeep.resolve_left hm
  · rw [hpref, hcounts]
    exact h.unseen
  · intro id
    rw [hcountOf, hsupport]
    exact h.count id
  · simp only [hsupport, hpref]
    exact h.best

/-- A tick that is not successful, whose majority is preferred since nothing was. -/
theorem Supported.adopted (h : s.Supported L alpha initial history) (hm : majority L votes = some m)
    (hw : winner L s.alpha votes = none) (hnone : s.preferred = none) (halpha : s'.alpha = s.alpha)
    (hcounts : s'.counts = s.counts.insert (m.id L) 1) (hpref : s'.preferred = some m) :
    s'.Supported L alpha initial (history ++ [votes]) := by
  rw [h.alpha_eq] at hw
  have hunseen : ¬ Seen L initial history := fun hs => h.seen.mpr hs hnone
  have hsupport := support_adopted hunseen hm hw
  have hsome : s'.preferred ≠ none := by
    rw [hpref]
    exact Option.some_ne_none m
  have hseen : Seen L initial (history ++ [votes]) :=
    seen_concat.mpr (Or.inr (by rw [hm]; exact Option.some_ne_none m))
  refine ⟨halpha.trans h.alpha_eq, iff_of_true hsome hseen, fun h => absurd h hsome, ?_, ?_⟩
  · intro id
    have hzero := h.count id
    rw [support_unseen alpha hunseen] at hzero
    have hcountOf : s'.countOf id = if m.id L = id then 1 else s.countOf id := by
      rw [← countOf_insert]
      unfold countOf
      rw [hcounts]
    rw [hsupport, hcountOf]
    split
    · rfl
    · exact hzero
  · intro _ v hv id
    obtain rfl : m = v := Option.some.inj (hpref.symm.trans hv)
    rw [hsupport, hsupport, if_pos rfl]
    split <;> omega

/-- **One more tick**, as long as nothing is decided. -/
theorem Supported.ticked (h : s.Supported L alpha initial history) (hs' : Ticked L s votes s')
    (hd' : s'.decided = false) : s'.Supported L alpha initial (history ++ [votes]) := by
  have hcounted : Supported L alpha initial history { s with totalCount := s.totalCount + 1 } :=
    ⟨h.alpha_eq, h.seen, h.unseen, h.count, h.best⟩
  cases hs' with
  | decided hd => cases hd.symm.trans hd'
  | lost hd hw hkeep => exact h.lost hw hkeep rfl rfl rfl
  | @adopted m hd hw hm hnone =>
    have hcounts : (s.preferInLock L m).counts = s.counts.insert (m.id L) 1 := by
      unfold preferInLock
      rw [h.unseen hnone]
      rfl
    exact h.adopted hm hw hnone rfl hcounts rfl
  | @fresh m hd hw hm hlast =>
    exact hcounted.won hm hw (countMajority_fields L _ m).1 rfl rfl
  | @again m last hd hw hm hlast hid hle =>
    exact hcounted.won hm hw (countMajority_fields L _ m).1 rfl rfl
  | @decides m last hd hw hlast hid hlt _ hsame hpref hdecided => cases hdecided.symm.trans hd'

theorem supported_ticks (L : Ipld) (alpha : A.F) (beta : Int) (k : Nat)
    (initial : Option (Preference A)) (history : List (List (Vote A)))
    (hd : ((starting L alpha beta k initial).ticks L history).decided = false) :
    ((starting L alpha beta k initial).ticks L history).Supported L alpha initial history := by
  induction history using List.reverseRecOn with
  | nil => exact supported_starting L alpha beta k initial
  | append_singleton history votes ih =>
    rw [ticks_concat] at hd ⊢
    have hbefore : ((starting L alpha beta k initial).ticks L history).decided = false := by
      refine Bool.eq_false_iff.mpr fun htrue => ?_
      have hafter := (ticks_of_decided (L := L) htrue [votes]).2
      exact Bool.false_ne_true (hd.symm.trans hafter)
    exact (ih hbefore).ticked (ticked_tick L _ votes) hd

/--
**The preference is the best supported id**, as long as no id has `2 ^ 16` successful ticks: in
every state that has not decided, after whatever ticks, no id has won more of them than the
preferred one. The id that was adopted without a win counts one.
-/
theorem preferred_best_supported (L : Ipld) (alpha : A.F) (beta : Int) (k : Nat)
    (initial : Option (Preference A)) (history : List (List (Vote A)))
    (hbound : ∀ id, support L alpha initial history id < 2 ^ 16)
    (hd : ((starting L alpha beta k initial).ticks L history).decided = false) {v : Vote A}
    (hv : ((starting L alpha beta k initial).ticks L history).preferred = some v) (id : String) :
    support L alpha initial history id ≤ support L alpha initial history (v.id L) :=
  (supported_ticks L alpha beta k initial history hd).best hbound v hv id

/-- A history that is short enough keeps within the bound. -/
theorem support_le (L : Ipld) (alpha : A.F) (initial : Option (Preference A))
    (history : List (List (Vote A))) (id : String) :
    support L alpha initial history id ≤ history.length + 1 := by
  have hcount : (history.map (winner L alpha)).count (some id) ≤ history.length := by
    rw [← List.length_map (f := winner L alpha)]
    exact List.count_le_length
  unfold support
  split <;> omega

end Snowball

/-! ### A majority that alternates with no majority -/

namespace SnowballExample

open Snowball

/-- The second checkpoint overtakes the first one. -/
def overtaking : List (List (Vote exactArith)) := [[vote 0], [vote 1], [vote 1]]

noncomputable def overtaken : Snowball exactArith :=
  (starting (A := exactArith) Ipld.inFull alpha 10 1 none).ticks Ipld.inFull overtaking

theorem preferred_best_supported_example :
    overtaken.decided = false ∧ ∃ v, overtaken.preferred = some v ∧
      v.id Ipld.inFull = voteID 1 ∧ ∀ id,
        support (A := exactArith) Ipld.inFull alpha none overtaking id ≤
          support (A := exactArith) Ipld.inFull alpha none overtaking (v.id Ipld.inFull) := by
  have hd : overtaken.decided = false := by decide +kernel
  have hpref : overtaken.preferred.map (·.id Ipld.inFull) = some (voteID 1) := by decide +kernel
  obtain ⟨v, hv, hid⟩ := Option.map_eq_some_iff.mp hpref
  have hbound : ∀ id, support (A := exactArith) Ipld.inFull alpha none overtaking id < 2 ^ 16 := by
    intro id
    have hle := support_le (A := exactArith) Ipld.inFull alpha none overtaking id
    have hlen : overtaking.length = 3 := rfl
    omega
  exact ⟨hd, v, hv, hid, preferred_best_supported (A := exactArith) Ipld.inFull alpha 10 1 none
    overtaking hbound hd hv⟩

/-- Successful ticks for one checkpoint, each followed by one without a majority. -/
def alternating : Nat → List (List (Vote exactArith))
  | 0 => []
  | n + 1 => alternating n ++ [[vote 0]] ++ [[Vote.nil exactArith]]

theorem winner_vote (height : Nat) (hheight : height = 0 ∨ height = 1) :
    winner (A := exactArith) Ipld.inFull alpha [vote height] = some (voteID height) := by
  rcases hheight with rfl | rfl <;> decide +kernel

theorem winner_nil :
    winner (A := exactArith) Ipld.inFull alpha [Vote.nil exactArith] = none := by decide +kernel

theorem majority_vote (height : Nat) (hheight : height = 0 ∨ height = 1) :
    majority Ipld.inFull [vote height] = some (vote height) := by
  have hid : ∀ h, h = 0 ∨ h = 1 → (vote h).id Ipld.inFull ≠ zeroVoteID := by
    rintro h (rfl | rfl) <;> decide +kernel
  unfold majority
  simp [hid height hheight]

theorem majority_nil : majority Ipld.inFull [Vote.nil exactArith] = none := rfl

/-- No streak in it is longer than one. -/
theorem alternating_streak (n : Nat) :
    (∀ id, ¬ Streak 11 (some id) ((alternating n).map (winner Ipld.inFull alpha))) ∧
      ∀ id, trailing (some id) ((alternating n).map (winner Ipld.inFull alpha)) = 0 := by
  induction n with
  | zero => exact ⟨fun id => not_streak_nil (by omega), fun id => rfl⟩
  | succ n ih =>
    obtain ⟨hstreak, htrailing⟩ := ih
    have hshort : ∀ id, trailing (some id)
        ((alternating n).map (winner Ipld.inFull alpha) ++ [some (voteID 0)]) ≤ 1 := by
      intro id
      by_cases hid : voteID 0 = id
      · rw [← hid, trailing_concat_self, htrailing]
      · rw [trailing_concat_of_ne fun h => hid (Option.some.inj h)]
        exact Nat.zero_le 1
    have hmap : (alternating (n + 1)).map (winner Ipld.inFull alpha) =
        (alternating n).map (winner Ipld.inFull alpha) ++ [some (voteID 0)] ++ [none] := by
      rw [alternating, List.map_append, List.map_append, List.map_singleton, List.map_singleton,
        winner_vote 0 (Or.inl rfl), winner_nil]
    have hlast : ∀ id, trailing (some id)
        ((alternating n).map (winner Ipld.inFull alpha) ++ [some (voteID 0)] ++ [none]) = 0 :=
      fun id => trailing_concat_of_ne (Option.some_ne_none id).symm _
    rw [hmap]
    refine ⟨?_, hlast⟩
    intro id hlong
    rw [streak_concat_iff, streak_concat_iff, hlast] at hlong
    have hshort := hshort id
    rcases hlong with (hlong | hlong) | hlong
    · exact hstreak id hlong
    · omega
    · omega

theorem support_alternating (n : Nat) (id : String) :
    support (A := exactArith) Ipld.inFull alpha none (alternating n) id =
      if voteID 0 = id then n else 0 := by
  induction n with
  | zero => simp [support, alternating, adoptedID]
  | succ n ih =>
    rw [alternating, support_lost winner_nil (Or.inr majority_nil),
      support_won (majority_vote 0 (Or.inl rfl)) (winner_vote 0 (Or.inl rfl)), ih]
    show (if voteID 0 = id then n else 0) + (if voteID 0 = id then 1 else 0) = _
    split <;> rfl

/-- The other checkpoint wins its first tick after all that. -/
def wrapping (n : Nat) : List (List (Vote exactArith)) := alternating n ++ [[vote 1]]

theorem support_wrapping (n : Nat) (id : String) :
    support (A := exactArith) Ipld.inFull alpha none (wrapping n) id =
      (if voteID 0 = id then n else 0) + if voteID 1 = id then 1 else 0 := by
  rw [wrapping, support_won (majority_vote 1 (Or.inr rfl)) (winner_vote 1 (Or.inr rfl)),
    support_alternating]
  rfl

/-- The snowball after that, with the default `beta`. -/
noncomputable def wrapped (n : Nat) : Snowball exactArith :=
  (starting (A := exactArith) Ipld.inFull alpha 10 1 none).ticks Ipld.inFull (wrapping n)

theorem undecided_alternating (n : Nat) :
    ((starting (A := exactArith) Ipld.inFull alpha 10 1 none).ticks Ipld.inFull
      (alternating n)).decided = false := by
  have htracks := tracks_ticks (A := exactArith) Ipld.inFull alpha (by decide : (1 : Int) ≤ 10) 1
    none (alternating n)
  refine Bool.eq_false_iff.mpr fun htrue => ?_
  obtain ⟨id, hstreak⟩ := htracks.decided.mp htrue
  exact (alternating_streak n).1 id hstreak

theorem undecided_wrapped (n : Nat) : (wrapped n).decided = false := by
  have htracks := tracks_ticks (A := exactArith) Ipld.inFull alpha (by decide : (1 : Int) ≤ 10) 1
    none (wrapping n)
  refine Bool.eq_false_iff.mpr fun htrue => ?_
  obtain ⟨id, hstreak⟩ := htracks.decided.mp htrue
  obtain ⟨hno, hzero⟩ := alternating_streak n
  rw [wrapping, List.map_append, List.map_singleton, winner_vote 1 (Or.inr rfl),
    streak_concat_iff] at hstreak
  have hten : (10 : Int).toNat = 10 := rfl
  rcases hstreak with hold | hlong
  · exact hno id hold
  · by_cases hid : voteID 1 = id
    · rw [← hid, trailing_concat_self, hzero] at hlong
      omega
    · rw [trailing_concat_of_ne fun h => hid (Option.some.inj h)] at hlong
      omega

/-- With all counts at zero, the next majority is preferred. -/
theorem preferred_wrapped {n : Nat} (hn : n % 2 ^ 16 = 0) :
    (wrapped n).preferred.map (·.id Ipld.inFull) = some (voteID 1) := by
  have hsupported := supported_ticks (A := exactArith) Ipld.inFull alpha 10 1 none (alternating n)
    (undecided_alternating n)
  have hundecided := undecided_wrapped n
  rw [wrapped, wrapping, ticks_concat] at hundecided ⊢
  generalize (starting (A := exactArith) Ipld.inFull alpha 10 1 none).ticks Ipld.inFull
    (alternating n) = s at hsupported hundecided ⊢
  have hzero : ∀ id, (s.countOf id).toNat = 0 := by
    intro id
    rw [hsupported.count, support_alternating]
    split
    · exact hn
    · rfl
  have hw : winner (A := exactArith) Ipld.inFull s.alpha [vote 1] = some (voteID 1) := by
    rw [hsupported.alpha_eq]
    exact winner_vote 1 (Or.inr rfl)
  have hs' := ticked_tick Ipld.inFull s [vote 1]
  generalize s.tick Ipld.inFull [vote 1] = s' at hundecided hs' ⊢
  cases hs' with
  | decided hd => cases hd.symm.trans hundecided
  | lost _ hlost | adopted _ hlost => cases hlost.symm.trans hw
  | fresh _ hwon | again _ hwon =>
    have hid := Option.some.inj (hwon.symm.trans hw)
    rw [← hid]
    exact countMajority_of_zero (s := { s with totalCount := s.totalCount + 1 }) hzero _
  | decides _ _ _ _ _ _ _ hdecided => cases hdecided.symm.trans hundecided

/-- **A count that wraps loses the preference** to a checkpoint that has won once. -/
theorem preferred_less_supported :
    (wrapped (2 ^ 16)).decided = false ∧ ∃ v, (wrapped (2 ^ 16)).preferred = some v ∧
      support (A := exactArith) Ipld.inFull alpha none (wrapping (2 ^ 16)) (v.id Ipld.inFull) = 1 ∧
      support (A := exactArith) Ipld.inFull alpha none (wrapping (2 ^ 16)) (voteID 0) =
        2 ^ 16 := by
  obtain ⟨v, hv, hid⟩ := Option.map_eq_some_iff.mp (preferred_wrapped (Nat.mod_self (2 ^ 16)))
  have hne : voteID 0 ≠ voteID 1 := by decide +kernel
  refine ⟨undecided_wrapped _, v, hv, ?_, ?_⟩
  · rw [hid, support_wrapping, if_neg hne, if_pos rfl]
  · rw [support_wrapping, if_pos rfl, if_neg hne.symm, Nat.add_zero]

end SnowballExample

end Tupelo

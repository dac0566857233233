import Mathlib.Data.List.MinMax
import Tupelo.Infra.Streak
import Tupelo.Signer.Snowball

/-!
# Runs of a snowball

What a snowball has come to after a sequence of ticks, in terms of the votes of these ticks.

A tick is successful for the id of its majority if the majority is at the threshold. The fields
`last` and `count` stand for the streak of successful ticks that is going on, so the snowball
decides exactly when a streak gets longer than `beta`.
-/

namespace Tupelo

open Infra

namespace Snowball

variable {A : FloatArith} (L : Ipld)
variable {s' : Snowball A} {id : String} {v : Vote A}

/-- A vote that can be preferred. `Tick` reads from the checkpoint of what is preferred. -/
abbrev Preference (A : FloatArith) := { v : Vote A // v.checkpoint.isSome }

/-- `NewSnowball`, then `Prefer` if there is an initial preference. -/
def starting (alpha : A.F) (beta : Int) (k : Nat) : Option (Preference A) → Snowball A
  | none => new alpha beta k
  | some v => (new alpha beta k).preferInLock L v

/-- `Tick` for each of the lists of votes. -/
def ticks (s : Snowball A) (history : List (List (Vote A))) : Snowball A :=
  history.foldl (fun s votes => s.tick L votes) s

/-- The id the tick is successful for. -/
def winner (alpha : A.F) (votes : List (Vote A)) : Option String :=
  match majority L votes with
  | none => none
  | some m => if A.lt m.tallyCount ((new alpha 0 0).threshold votes) then none else some (m.id L)

variable {L} {s : Snowball A} {alpha : A.F} {votes : List (Vote A)}

theorem ticks_concat (s : Snowball A) (history : List (List (Vote A))) (votes : List (Vote A)) :
    s.ticks L (history ++ [votes]) = (s.ticks L history).tick L votes := by
  unfold ticks
  rw [List.foldl_concat]

theorem ticks_append (s : Snowball A) (history later : List (List (Vote A))) :
    s.ticks L (history ++ later) = (s.ticks L history).ticks L later := by
  unfold ticks
  rw [List.foldl_append]

/-- A winner is the majority. -/
theorem majority_of_winner (h : winner L alpha votes = some id) :
    ∃ m, majority L votes = some m ∧ m.id L = id := by
  unfold winner at h
  split at h
  · cases h
  · next m hm =>
    split at h
    · cases h
    · exact ⟨m, hm, Option.some.inj h⟩

/-! ## What a tick does -/

/-- What counting the majority leaves alone. -/
theorem countMajority_fields (L : Ipld) (s : Snowball A) (m : Vote A) :
    (s.countMajority L m).alpha = s.alpha ∧ (s.countMajority L m).beta = s.beta ∧
      (s.countMajority L m).last = s.last ∧ (s.countMajority L m).count = s.count ∧
      (s.countMajority L m).decided = s.decided := by
  unfold countMajority
  simp only []
  split
  · exact ⟨rfl, rfl, rfl, rfl, rfl⟩
  · split <;> exact ⟨rfl, rfl, rfl, rfl, rfl⟩

/-- What a tick makes of a snowball, with one constructor for each way. -/
inductive Ticked (L : Ipld) (s : Snowball A) (votes : List (Vote A)) : Snowball A → Prop where
  | decided (hd : s.decided = true) : Ticked L s votes { s with totalCount := s.totalCount + 1 }
  /-- No majority, or one below the threshold, -/
  | lost (hd : s.decided = false) (hw : winner L s.alpha votes = none)
      (hkeep : majority L votes = none ∨ s.preferred ≠ none) :
      Ticked L s votes { s with totalCount := s.totalCount + 1, count := 0 }
  /-- which is adopted if there is no preference yet. -/
  | adopted {m : Vote A} (hd : s.decided = false) (hw : winner L s.alpha votes = none)
      (hm : majority L votes = some m) (hnone : s.preferred = none) :
      Ticked L s votes { s.preferInLock L m with totalCount := s.totalCount + 1, count := 0 }
  /-- A majority that is not the last one, -/
  | fresh {m : Vote A} (hd : s.decided = false) (hw : winner L s.alpha votes = some (m.id L))
      (hm : majority L votes = some m) (hlast : ∀ v, s.last = some v → v.id L ≠ m.id L) :
      Ticked L s votes { countMajority L { s with totalCount := s.totalCount + 1 } m with
        last := some m, count := 1 }
  /-- one that is, -/
  | again {m last : Vote A} (hd : s.decided = false)
      (hw : winner L s.alpha votes = some (m.id L)) (hm : majority L votes = some m)
      (hlast : s.last = some last) (hid : last.id L = m.id L)
      (hle : ((s.count + 1 : Nat) : Int) ≤ s.beta) :
      Ticked L s votes { countMajority L { s with totalCount := s.totalCount + 1 } m with
        count := s.count + 1 }
  /-- and one that is often enough. -/
  | decides {m last : Vote A} (hd : s.decided = false)
      (hw : winner L s.alpha votes = some (m.id L)) (hlast : s.last = some last)
      (hid : last.id L = m.id L) (hlt : s.beta < ((s.count + 1 : Nat) : Int)) {s' : Snowball A}
      (hs' : s'.alpha = s.alpha ∧ s'.beta = s.beta) (hpref : s'.preferred = some last)
      (hdecided : s'.decided = true) : Ticked L s votes s'

theorem ticked_won {m : Vote A} (hd : s.decided = false) (hm : majority L votes = some m)
    (hw : winner L s.alpha votes = some (m.id L)) :
    Ticked L s votes
      (followMajority L (countMajority L { s with totalCount := s.totalCount + 1 } m) m) := by
  obtain ⟨halpha, hbeta, hlast, hcount, -⟩ :=
    countMajority_fields L { s with totalCount := s.totalCount + 1 } m
  unfold followMajority
  split
  · next hl => exact .fresh hd hw hm fun v hv => by cases (hlast.symm.trans hl).symm.trans hv
  · next last hl =>
    have hl' : s.last = some last := hlast.symm.trans hl
    split
    · next hne =>
      refine .fresh hd hw hm ?_
      intro v hv
      rw [← Option.some.inj (hl'.symm.trans hv)]
      exact hne.symm
    · next heq =>
      have hid : last.id L = m.id L := (not_not.mp heq).symm
      simp only [hcount]
      split
      · next hlt =>
        rw [hbeta] at hlt
        exact .decides hd hw hl' hid hlt ⟨halpha, hbeta⟩ rfl rfl
      · next hlt =>
        rw [hbeta] at hlt
        exact .again hd hw hm hl' hid (not_lt.mp hlt)

/-- **Every tick does one of these.** -/
theorem ticked_tick (L : Ipld) (s : Snowball A) (votes : List (Vote A)) :
    Ticked L s votes (s.tick L votes) := by
  unfold tick
  simp only []
  split
  · next hd => exact .decided hd
  · next hd =>
    have hd' : s.decided = false := Bool.eq_false_iff.mpr hd
    split
    · next hm => exact .lost hd' (by unfold winner; rw [hm]) (Or.inl hm)
    · next m hm =>
      split
      · next hlt =>
        have hw : winner L s.alpha votes = none := by
          unfold winner
          rw [hm]
          exact if_pos hlt
        by_cases hp : s.preferred.isNone = true
        · simp only [hp, if_true]
          exact .adopted hd' hw hm (Option.isNone_iff_eq_none.mp hp)
        · simp only [hp]
          exact .lost hd' hw (Or.inr fun hnone => hp (Option.isNone_iff_eq_none.mpr hnone))
      · next hlt =>
        refine ticked_won hd' hm ?_
        unfold winner
        rw [hm]
        exact if_neg hlt

/-! ## The streak that is going on -/

/-- The number of successful ticks for the id in a row, up to now. -/
def running (L : Ipld) (s : Snowball A) (id : String) : Nat :=
  match s.last with
  | none => 0
  | some v => if v.id L = id then s.count else 0

theorem running_of_last (h : s.last = some v) : s.running L (v.id L) = s.count := by
  unfold running
  rw [h]
  exact if_pos rfl

theorem running_of_ne (h : s.last = some v) (hid : v.id L ≠ id) : s.running L id = 0 := by
  unfold running
  rw [h]
  exact if_neg hid

theorem running_eq_zero (h : ∀ v, s.last = some v → v.id L ≠ id) : s.running L id = 0 := by
  cases hl : s.last with
  | none =>
    unfold running
    rw [hl]
  | some v => exact running_of_ne hl (h v hl)

theorem running_of_count_eq_zero (h : s.count = 0) (id : String) : s.running L id = 0 := by
  unfold running
  rw [h]
  split
  · rfl
  · split <;> rfl

/-- A snowball after a history: `last` and `count` stand for the streak at its end. -/
structure Tracks (L : Ipld) (alpha : A.F) (beta : Int) (history : List (List (Vote A)))
    (s : Snowball A) : Prop where
  alpha_eq : s.alpha = alpha
  beta_eq : s.beta = beta
  decided : s.decided = true ↔
    ∃ id, Streak (beta.toNat + 1) (some id) (history.map (winner L alpha))
  running : s.decided = false →
    ∀ id, trailing (some id) (history.map (winner L alpha)) = s.running L id

variable {beta : Int} {history : List (List (Vote A))}

theorem tracks_starting (L : Ipld) (alpha : A.F) (beta : Int) (k : Nat)
    (initial : Option (Preference A)) :
    (starting L alpha beta k initial).Tracks L alpha beta [] := by
  have hstreak : ¬ ∃ id, Streak (beta.toNat + 1) (some id)
      (([] : List (List (Vote A))).map (winner L alpha)) := by
    rintro ⟨id, h⟩
    exact not_streak_nil (Nat.succ_pos _) h
  cases initial with
  | none => exact ⟨rfl, rfl, iff_of_false Bool.false_ne_true hstreak, fun _ _ => rfl⟩
  | some v => exact ⟨rfl, rfl, iff_of_false Bool.false_ne_true hstreak, fun _ _ => rfl⟩

/-- No streak is long enough yet, if none goes on long enough now and none did before. -/
theorem Tracks.undecided (h : s.Tracks L alpha beta history) (hd : s.decided = false)
    {w : Option String}
    (hshort : ∀ id, trailing (some id) (history.map (winner L alpha) ++ [w]) ≤ beta.toNat) :
    ¬ ∃ id, Streak (beta.toNat + 1) (some id) (history.map (winner L alpha) ++ [w]) := by
  rintro ⟨id, hstreak⟩
  rcases streak_concat_iff.mp hstreak with hold | hlong
  · have htrue := h.decided.mpr ⟨id, hold⟩
    rw [hd] at htrue
    cases htrue
  · have := hshort id
    omega

/-- A tick that is not successful ends every streak. -/
theorem Tracks.lost (h : s.Tracks L alpha beta history) (hd : s.decided = false)
    (hw : winner L s.alpha votes = none) (halpha : s'.alpha = s.alpha) (hbeta : s'.beta = s.beta)
    (hdecided : s'.decided = s.decided) (hcount : s'.count = 0) :
    s'.Tracks L alpha beta (history ++ [votes]) := by
  rw [h.alpha_eq] at hw
  have hzero : ∀ id, trailing (some id) (history.map (winner L alpha) ++ [none]) = 0 :=
    fun id => trailing_concat_of_ne (Option.some_ne_none id).symm _
  refine ⟨halpha.trans h.alpha_eq, hbeta.trans h.beta_eq, ?_, ?_⟩
  · rw [List.map_append, List.map_singleton, hw, hdecided, hd]
    refine iff_of_false Bool.false_ne_true (h.undecided hd ?_)
    intro id
    rw [hzero]
    exact Nat.zero_le _
  · intro _ id
    rw [List.map_append, List.map_singleton, hw, hzero, running_of_count_eq_zero hcount]

/-- A tick that is successful makes one streak longer, or the first of one. -/
theorem Tracks.won (h : s.Tracks L alpha beta history) (hd : s.decided = false)
    (hw : winner L s.alpha votes = some id) (halpha : s'.alpha = s.alpha) (hbeta : s'.beta = s.beta)
    (hdecided : s'.decided = s.decided) (hlast : s'.last = some v) (hid : v.id L = id)
    (hcount : s'.count = s.running L id + 1) (hle : (s'.count : Int) ≤ beta) :
    s'.Tracks L alpha beta (history ++ [votes]) := by
  rw [h.alpha_eq] at hw
  have htrailing : ∀ id',
      trailing (some id') (history.map (winner L alpha) ++ [some id]) = s'.running L id' := by
    intro id'
    by_cases heq : id = id'
    · subst heq
      rw [trailing_concat_self, h.running hd, ← hcount, ← hid, running_of_last hlast]
    · rw [trailing_concat_of_ne (fun hc => heq (Option.some.inj hc))]
      exact (running_of_ne hlast (by rw [hid]; exact heq)).symm
  refine ⟨halpha.trans h.alpha_eq, hbeta.trans h.beta_eq, ?_, ?_⟩
  · rw [List.map_append, List.map_singleton, hw, hdecided, hd]
    refine iff_of_false Bool.false_ne_true (h.undecided hd ?_)
    intro id'
    rw [htrailing]
    have hrunning : s'.running L id' ≤ s'.count := by
      unfold Snowball.running
      split
      · exact Nat.zero_le _
      · split
        · exact le_refl _
        · exact Nat.zero_le _
    omega
  · intro _ id'
    rw [List.map_append, List.map_singleton, hw, htrailing]

/-- **One more tick.** -/
theorem Tracks.ticked (hbeta : 1 ≤ beta) (h : s.Tracks L alpha beta history)
    (hs' : Ticked L s votes s') : s'.Tracks L alpha beta (history ++ [votes]) := by
  cases hs' with
  | decided hd =>
    obtain ⟨id, hstreak⟩ := h.decided.mp hd
    refine ⟨h.alpha_eq, h.beta_eq, ⟨fun _ => ⟨id, ?_⟩, fun _ => hd⟩, ?_⟩
    · rw [List.map_append]
      exact hstreak.append _
    · intro hf
      cases hd.symm.trans hf
  | lost hd hw _ => exact h.lost hd hw rfl rfl rfl rfl
  | adopted hd hw _ _ => exact h.lost hd hw rfl rfl rfl rfl
  | @fresh m hd hw _ hlast =>
    obtain ⟨halpha, hb, -, -, hdec⟩ :=
      countMajority_fields L { s with totalCount := s.totalCount + 1 } m
    refine h.won hd hw halpha hb hdec rfl rfl ?_ ?_
    · rw [running_eq_zero hlast]
    · exact_mod_cast hbeta
  | @again m last hd hw _ hlast hid hle =>
    obtain ⟨halpha, hb, hl, -, hdec⟩ :=
      countMajority_fields L { s with totalCount := s.totalCount + 1 } m
    refine h.won hd hw halpha hb hdec (hl.trans hlast) hid ?_ ?_
    · rw [← hid, running_of_last hlast]
    · rw [← h.beta_eq]
      exact hle
  | @decides m last hd hw hlast hid hlt _ hsame hpref hdecided =>
    refine ⟨hsame.1.trans h.alpha_eq, hsame.2.trans h.beta_eq,
      ⟨fun _ => ⟨m.id L, ?_⟩, fun _ => hdecided⟩, ?_⟩
    · rw [List.map_append, List.map_singleton, ← h.alpha_eq, hw, streak_concat_iff]
      refine Or.inr ?_
      have htrailing := h.running hd (m.id L)
      rw [h.alpha_eq, trailing_concat_self, htrailing, ← hid, running_of_last hlast]
      rw [h.beta_eq] at hlt
      omega
    · intro hf
      cases hdecided.symm.trans hf

theorem tracks_ticks (L : Ipld) (alpha : A.F) {beta : Int} (hbeta : 1 ≤ beta) (k : Nat)
    (initial : Option (Preference A)) (history : List (List (Vote A))) :
    ((starting L alpha beta k initial).ticks L history).Tracks L alpha beta history := by
  induction history using List.reverseRecOn with
  | nil => exact tracks_starting L alpha beta k initial
  | append_singleton history votes ih =>
    rw [ticks_concat]
    exact ih.ticked hbeta (ticked_tick L _ votes)

/-- The tick a snowball decides in is successful for the id it decides on. -/
theorem preferred_of_decides (hs' : Ticked L s votes s') (hd : s.decided = false)
    (hd' : s'.decided = true) :
    ∃ id, winner L s.alpha votes = some id ∧ s'.preferred.map (·.id L) = some id := by
  have hundecided : ∀ m : Vote A,
      (countMajority L { s with totalCount := s.totalCount + 1 } m).decided ≠ true := by
    intro m htrue
    obtain ⟨-, -, -, -, hsame⟩ :=
      countMajority_fields L { s with totalCount := s.totalCount + 1 } m
    cases (hsame.symm.trans htrue).symm.trans hd
  cases hs' with
  | decided h => cases h.symm.trans hd
  | lost | adopted => cases hd.symm.trans hd'
  | @fresh m => exact absurd hd' (hundecided m)
  | @again m => exact absurd hd' (hundecided m)
  | @decides m last _ hw _ hid _ _ _ hpref _ =>
    refine ⟨m.id L, hw, ?_⟩
    rw [hpref, Option.map_some, hid]

theorem ticks_of_decided (hd : s.decided = true) : ∀ later : List (List (Vote A)),
    (s.ticks L later).preferred = s.preferred ∧ (s.ticks L later).decided = true := by
  intro later
  induction later using List.reverseRecOn with
  | nil => exact ⟨rfl, hd⟩
  | append_singleton later votes ih =>
    rw [ticks_concat]
    generalize s.ticks L later = s₁ at ih
    have htick : s₁.tick L votes = { s₁ with totalCount := s₁.totalCount + 1 } := if_pos ih.2
    rw [htick]
    exact ih

/-! ## The streak that decides -/

/-- The votes other than the zero vote. -/
def counted (L : Ipld) (votes : List (Vote exactArith)) : List (Vote exactArith) :=
  votes.filter fun v => v.id L ≠ zeroVoteID

def tally (v : Vote exactArith) : ℚ := v.tallyCount

/--
The tick is successful for the id: it is the id of the first of the votes with the highest tally,
and this tally is at the threshold.
-/
def Successful (L : Ipld) (alpha : ℚ) (votes : List (Vote exactArith)) (id : String) : Prop :=
  ∃ v, (counted L votes).argmax tally = some v ∧ v.id L = id ∧
    2 * alpha / max 2 (votes.length : ℚ) ≤ tally v

/-- Somewhere in the history, `beta + 1` ticks in a row were successful for the id. -/
def FullStreak (L : Ipld) (alpha : ℚ) (beta : Int) (history : List (List (Vote exactArith)))
    (id : String) : Prop :=
  ∃ before run after, history = before ++ run ++ after ∧ (run.length : Int) = beta + 1 ∧
    ∀ votes ∈ run, Successful L alpha votes id

theorem majority_eq_argmax (L : Ipld) (votes : List (Vote exactArith)) :
    majority L votes = (counted L votes).argmax tally := by
  unfold majority counted List.argmax
  rw [List.foldl_filter]
  congr 1
  funext acc v
  by_cases hv : v.id L = zeroVoteID
  · simp [hv]
  · simp only [hv, ne_eq, not_false_eq_true, decide_true, if_true, if_false]
    cases acc with
    | none => rfl
    | some m =>
      unfold List.argAux
      by_cases hlt : tally m < tally v
      · have hlt' : exactArith.lt m.tallyCount v.tallyCount = true :=
          decide_eq_true (p := tally m < tally v) hlt
        simp only [hlt, hlt', if_true]
      · have hlt' : exactArith.lt m.tallyCount v.tallyCount = false :=
          decide_eq_false (p := tally m < tally v) hlt
        simp only [hlt, hlt', if_false, Bool.false_eq_true]

theorem threshold_exact (alpha : ℚ) (votes : List (Vote exactArith)) :
    (new (A := exactArith) alpha 0 0).threshold votes = 2 * alpha / max 2 (votes.length : ℚ) := by
  unfold threshold
  show alpha * 2 / (if decide ((votes.length : ℚ) < 2) = true then (2 : ℚ) else votes.length) = _
  rw [mul_comm]
  congr 1
  simp only [decide_eq_true_eq]
  split
  · next h => exact (max_eq_left (le_of_lt h)).symm
  · next h => exact (max_eq_right (not_lt.mp h)).symm

theorem winner_eq_some_iff (L : Ipld) (alpha : ℚ) (votes : List (Vote exactArith)) (id : String) :
    winner (A := exactArith) L alpha votes = some id ↔ Successful L alpha votes id := by
  unfold winner Successful
  rw [majority_eq_argmax, threshold_exact]
  cases (counted L votes).argmax tally with
  | none => simp
  | some m =>
    show (if decide (tally m < 2 * alpha / max 2 (votes.length : ℚ)) = true then none
      else some (m.id L)) = some id ↔ _
    by_cases hlt : tally m < 2 * alpha / max 2 (votes.length : ℚ)
    · rw [if_pos (decide_eq_true hlt)]
      constructor
      · intro h
        cases h
      · rintro ⟨v, hv, -, hle⟩
        rw [← Option.some.inj hv] at hle
        exact absurd hlt (not_lt.mpr hle)
    · rw [if_neg (fun h => hlt (of_decide_eq_true h))]
      constructor
      · intro h
        exact ⟨m, rfl, Option.some.inj h, not_lt.mp hlt⟩
      · rintro ⟨v, hv, rfl, -⟩
        rw [Option.some.inj hv]

theorem fullStreak_iff (L : Ipld) (alpha : ℚ) {beta : Int} (hbeta : 1 ≤ beta)
    (history : List (List (Vote exactArith))) (id : String) :
    Streak (beta.toNat + 1) (some id) (history.map (winner (A := exactArith) L alpha)) ↔
      FullStreak L alpha beta history id := by
  rw [streak_map_iff]
  unfold FullStreak
  constructor
  · rintro ⟨before, run, after, hhistory, hlen, hall⟩
    refine ⟨before, run, after, hhistory, by omega, ?_⟩
    intro votes hvotes
    exact (winner_eq_some_iff L alpha votes id).mp (hall votes hvotes)
  · rintro ⟨before, run, after, hhistory, hlen, hall⟩
    refine ⟨before, run, after, hhistory, by omega, ?_⟩
    intro votes hvotes
    exact (winner_eq_some_iff L alpha votes id).mpr (hall votes hvotes)

/--
**A snowball decides exactly on a full streak.**

With exact tallies and `beta` at least 1, whatever was preferred at the start: after some ticks
it has decided if and only if `beta + 1` of them in a row were successful for one id. In the tick
that completes the first such streak it comes to prefer this id, and no later tick changes what
it prefers or that it has decided.
-/
theorem decides_on_full_streak (L : Ipld) (alpha : ℚ) {beta : Int} (hbeta : 1 ≤ beta) (k : Nat)
    (initial : Option (Preference exactArith)) (history : List (List (Vote exactArith))) :
    let start := starting (A := exactArith) L alpha beta k initial
    ((start.ticks L history).decided = true ↔ ∃ id, FullStreak L alpha beta history id) ∧
    (∀ votes id, (¬ ∃ id', FullStreak L alpha beta history id') →
      FullStreak L alpha beta (history ++ [votes]) id →
      (start.ticks L (history ++ [votes])).preferred.map (·.id L) = some id) ∧
    ∀ later, (start.ticks L history).decided = true →
      (start.ticks L (history ++ later)).preferred = (start.ticks L history).preferred ∧
      (start.ticks L (history ++ later)).decided = true := by
  intro start
  have hdecided : ∀ h : List (List (Vote exactArith)),
      (start.ticks L h).decided = true ↔ ∃ id, FullStreak L alpha beta h id := by
    intro h
    rw [(tracks_ticks (A := exactArith) L alpha hbeta k initial h).decided]
    exact exists_congr fun id => fullStreak_iff L alpha hbeta h id
  refine ⟨hdecided history, ?_, ?_⟩
  · intro votes id hnone hfull
    have htracks := tracks_ticks (A := exactArith) L alpha hbeta k initial history
    have hbefore : (start.ticks L history).decided = false :=
      Bool.eq_false_iff.mpr fun h => hnone ((hdecided history).mp h)
    have hafter := (hdecided (history ++ [votes])).mpr ⟨id, hfull⟩
    rw [ticks_concat] at hafter ⊢
    obtain ⟨id', hwinner, hpref⟩ :=
      preferred_of_decides (ticked_tick L (start.ticks L history) votes) hbefore hafter
    rw [htracks.alpha_eq] at hwinner
    -- the streak that is new goes on to the end, so it is of the winner of this tick
    have hnew := (fullStreak_iff L alpha hbeta (history ++ [votes]) id).mpr hfull
    rw [List.map_append, List.map_singleton, hwinner, streak_concat_iff] at hnew
    rcases hnew with hold | hlong
    · exact absurd ⟨id, (fullStreak_iff L alpha hbeta history id).mp hold⟩ hnone
    · by_cases hid : id' = id
      · rw [hpref, hid]
      · rw [trailing_concat_of_ne (fun hc => hid (Option.some.inj hc))] at hlong
        omega
  · intro later hd
    rw [ticks_append]
    exact ticks_of_decided hd later

end Snowball

/-! ### Votes for two checkpoints -/

namespace SnowballExample

open Snowball

/-- A vote for the checkpoint of a height, with all of the tally. -/
def vote (height : Nat) : Vote exactArith :=
  { checkpoint := some { height, addBlockRequests := [] }, tallyCount := (1 : ℚ) }

noncomputable def voteID (height : Nat) : String := (vote height).id Ipld.inFull

/-- The default `alpha`. -/
def alpha : ℚ := 333 / 500

theorem decides_on_full_streak_example :
    let history := [[vote 1], [Vote.nil exactArith], [vote 0], [vote 0], [vote 0]]
    let s := (starting (A := exactArith) Ipld.inFull alpha 2 1 none).ticks Ipld.inFull history
    (∃ id, FullStreak Ipld.inFull alpha 2 history id) ∧ s.decided = true ∧
      s.preferred.map (·.id Ipld.inFull) = some (voteID 0) := by
  intro history s
  have hdecided : s.decided = true := by decide +kernel
  have hpreferred : s.preferred.map (·.id Ipld.inFull) = some (voteID 0) := by decide +kernel
  have hstreak :=
    decides_on_full_streak Ipld.inFull alpha (by decide : (1 : Int) ≤ 2) 1 none history
  exact ⟨hstreak.1.mp hdecided, hdecided, hpreferred⟩

end SnowballExample

end Tupelo

import Mathlib.Data.List.Basic

/-!
# A least recently used cache

A fixed-size LRU cache, as `golang-lru` documents its `Cache`: `Add` adds a value to the cache and
evicts the oldest entry if there is no room for it, `Get` looks up the value of a key and makes it
the most recently used, `Peek` looks it up without that, and `Remove` removes the key. Adding a
key again replaces its value and makes it the most recent one. Entries are kept most recently
used first.
-/

namespace Infra

/-- Entries most recently used first. A key occurs at most once at the positions `peek` sees. -/
structure Lru (κ β : Type) where
  size : Nat
  entries : List (κ × β)
  deriving DecidableEq, Repr

namespace Lru

variable {κ β : Type} [DecidableEq κ]
variable {c : Lru κ β} {k k' : κ} {l : List (κ × β)}

def new (size : Nat) : Lru κ β := { size, entries := [] }

/-- The value under `k`, without marking it as used. -/
def peek (c : Lru κ β) (k : κ) : Option β := c.entries.lookup k

/-- Every entry but the one under `k`. -/
def without (c : Lru κ β) (k : κ) : List (κ × β) := c.entries.filter fun e => !(k == e.1)

def add (c : Lru κ β) (k : κ) (v : β) : Lru κ β :=
  { c with entries := ((k, v) :: c.without k).take c.size }

/-- The value under `k`, which becomes the most recently used one. -/
def get (c : Lru κ β) (k : κ) : Option β × Lru κ β :=
  match c.peek k with
  | some v => (some v, { c with entries := (k, v) :: c.without k })
  | none => (none, c)

def remove (c : Lru κ β) (k : κ) : Lru κ β := { c with entries := c.without k }

/-! ## What each operation leaves to `peek` -/

theorem get_of_peek_none (h : c.peek k = none) : c.get k = (none, c) := by
  unfold get
  rw [h]

theorem lookup_without_ne (h : k' ≠ k) :
    (l.filter fun e => !(k == e.1)).lookup k' = l.lookup k' := by
  induction l with
  | nil => rfl
  | cons e l ih =>
    obtain ⟨a, v⟩ := e
    by_cases ha : k = a
    · subst ha
      have hne : (k' == k) = false := beq_eq_false_iff_ne.mpr h
      simp [List.lookup_cons, ih, hne]
    · have hk : (k == a) = false := beq_eq_false_iff_ne.mpr ha
      simp only [List.filter_cons, hk, Bool.not_false, if_true, List.lookup_cons, ih]

theorem lookup_of_lookup_take {v : β} :
    ∀ {n : Nat}, (l.take n).lookup k = some v → l.lookup k = some v := by
  induction l with
  | nil =>
    intro n h
    rw [List.take_nil] at h
    exact h
  | cons e l ih =>
    intro n h
    cases n with
    | zero => cases h
    | succ n =>
      rw [List.take_succ_cons, List.lookup_cons] at h
      rw [List.lookup_cons]
      split at h
      · exact h
      · exact ih h

/-- What is found after an addition was just added or was there before. -/
theorem peek_of_peek_add {v x : β} (h : (c.add k v).peek k' = some x) :
    (k' = k ∧ x = v) ∨ c.peek k' = some x := by
  have h' := lookup_of_lookup_take h
  rw [List.lookup_cons] at h'
  by_cases hk : k' = k
  · have hbeq : (k' == k) = true := beq_iff_eq.mpr hk
    rw [hbeq] at h'
    exact Or.inl ⟨hk, (Option.some.inj h').symm⟩
  · have hbeq : (k' == k) = false := beq_eq_false_iff_ne.mpr hk
    rw [hbeq] at h'
    exact Or.inr ((lookup_without_ne hk).symm.trans h')

/-- What holds of all entries and of a new one holds after the addition. -/
theorem forall_peek_add {P : κ → β → Prop} {v : β} (h : ∀ k' x, c.peek k' = some x → P k' x)
    (hnew : P k v) : ∀ k' x, (c.add k v).peek k' = some x → P k' x := by
  intro k' x hx
  rcases peek_of_peek_add hx with ⟨rfl, rfl⟩ | hold
  · exact hnew
  · exact h k' x hold

@[simp] theorem get_fst (c : Lru κ β) (k : κ) : (c.get k).1 = c.peek k := by
  unfold get
  split
  · next h => exact h.symm
  · next h => exact h.symm

/-- Reading does not change what can be read. -/
@[simp] theorem peek_get (c : Lru κ β) (k k' : κ) : (c.get k).2.peek k' = c.peek k' := by
  unfold get
  split
  · next v hv =>
    by_cases hk : k' = k
    · subst hk
      rw [hv]
      simp [peek]
    · have hne : (k' == k) = false := beq_eq_false_iff_ne.mpr hk
      simp only [peek, List.lookup_cons, hne]
      exact lookup_without_ne hk
  · rfl

theorem lookup_without_self (l : List (κ × β)) (k : κ) :
    (l.filter fun e => !(k == e.1)).lookup k = none := by
  rw [List.lookup_eq_none_iff]
  intro e he
  obtain ⟨-, hne⟩ := List.mem_filter.mp he
  simpa using hne

/-- What is found after a removal was there before. -/
theorem peek_of_peek_remove {x : β} (h : (c.remove k).peek k' = some x) : c.peek k' = some x := by
  by_cases hk : k' = k
  · subst hk
    cases (lookup_without_self c.entries k').symm.trans h
  · exact (lookup_without_ne hk).symm.trans h

theorem peek_remove_ne (c : Lru κ β) (h : k' ≠ k) :
    (c.remove k).peek k' = c.peek k' := lookup_without_ne h

/-! ## Eviction -/

/-- No key occurs twice. -/
def Distinct (c : Lru κ β) : Prop := (c.entries.map Prod.fst).Nodup

/-- The keys that an addition under `k` drops: those that no longer fit. -/
def evicted (c : Lru κ β) (k : κ) : List κ := ((c.without k).drop (c.size - 1)).map Prod.fst

theorem Distinct.without (h : c.Distinct) (k : κ) : ((c.without k).map Prod.fst).Nodup :=
  List.Nodup.sublist (List.filter_sublist.map Prod.fst) h

/-- The entry under `k` and the others have distinct keys. -/
theorem Distinct.cons (h : c.Distinct) (k : κ) (v : β) :
    (((k, v) :: c.without k).map Prod.fst).Nodup := by
  rw [List.map_cons, List.nodup_cons]
  refine ⟨?_, h.without k⟩
  intro hmem
  obtain ⟨e, he, hk⟩ := List.mem_map.mp hmem
  have hne := (List.mem_filter.mp he).2
  simp [hk] at hne

theorem Distinct.add (h : c.Distinct) (k : κ) (v : β) : (c.add k v).Distinct :=
  List.Nodup.sublist ((List.take_sublist _ _).map Prod.fst) (h.cons k v)

theorem Distinct.remove (h : c.Distinct) (k : κ) : (c.remove k).Distinct :=
  h.without k

theorem Distinct.get (h : c.Distinct) (k : κ) : (c.get k).2.Distinct := by
  unfold Lru.get
  split
  · exact h.cons k _
  · exact h

theorem get_size (c : Lru κ β) (k : κ) : (c.get k).2.size = c.size := by
  unfold get
  split <;> rfl

theorem peek_add_self (c : Lru κ β) (hsize : 0 < c.size) (k : κ) (v : β) :
    (c.add k v).peek k = some v := by
  obtain ⟨n, hn⟩ := Nat.exists_eq_succ_of_ne_zero (Nat.ne_of_gt hsize)
  simp [add, peek, hn]

/-- Of the other keys an addition leaves those of the entries that still fit. -/
theorem peek_add_ne (c : Lru κ β) (hsize : 0 < c.size) (hk : k' ≠ k) (v : β) :
    (c.add k v).peek k' = ((c.without k).take (c.size - 1)).lookup k' := by
  obtain ⟨n, hn⟩ := Nat.exists_eq_succ_of_ne_zero (Nat.ne_of_gt hsize)
  have hbeq : (k' == k) = false := beq_eq_false_iff_ne.mpr hk
  unfold add peek
  rw [hn, List.take_succ_cons, List.lookup_cons, hbeq]
  rfl

theorem lookup_eq_none_iff_notMem : l.lookup k = none ↔ k ∉ l.map Prod.fst := by
  rw [List.lookup_eq_none_iff, List.mem_map]
  constructor
  · rintro h ⟨e, he, rfl⟩
    simpa using h e he
  · intro h e he
    exact bne_iff_ne.mpr fun heq => h ⟨e, he, heq.symm⟩

/-- **An addition leaves another key alone** exactly if it does not evict it. -/
theorem peek_add_eq_iff (h : c.Distinct) (hsize : 0 < c.size) (hk : k' ≠ k) (v : β) :
    (c.add k v).peek k' = c.peek k' ↔ k' ∉ c.evicted k := by
  have hsplit : c.peek k' = (((c.without k).take (c.size - 1)).lookup k').or
      (((c.without k).drop (c.size - 1)).lookup k') := by
    rw [← List.lookup_append, List.take_append_drop]
    exact (lookup_without_ne hk).symm
  rw [peek_add_ne c hsize hk, hsplit, evicted, ← lookup_eq_none_iff_notMem]
  constructor
  · intro heq
    cases hdrop : ((c.without k).drop (c.size - 1)).lookup k' with
    | none => rfl
    | some x =>
      -- the key would be among those that fit, too
      cases htake : ((c.without k).take (c.size - 1)).lookup k' with
      | none =>
        rw [htake, hdrop] at heq
        cases heq
      | some y =>
        exfalso
        have hnodup := h.without k
        rw [← List.take_append_drop (c.size - 1) (c.without k), List.map_append,
          List.nodup_append] at hnodup
        have hin : ∀ {l : List (κ × β)} {z : β}, l.lookup k' = some z → k' ∈ l.map Prod.fst := by
          intro l z hz
          by_contra hnot
          rw [lookup_eq_none_iff_notMem.mpr hnot] at hz
          cases hz
        exact hnodup.2.2 k' (hin htake) k' (hin hdrop) rfl
  · intro hdrop
    rw [hdrop, Option.or_none]

/-- Nothing is evicted where there is room. -/
theorem evicted_eq_nil (h : (c.without k).length < c.size) : c.evicted k = [] := by
  unfold evicted
  rw [List.drop_eq_nil_of_le (by omega), List.map_nil]

end Lru

end Infra

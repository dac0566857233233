import Mathlib.Logic.Function.Basic

/-!
# Programs that use a store

A deterministic program that reaches a store by reading a key and by adding a value only. What it
does next is a function of its own state, which includes all that it has read; it need not end.

Two stores give one run of a program exactly if they answer alike what the run asks them: the
reads of keys it has not added itself (`run_same_iff`). What it has added it finds again in any
store.
-/

namespace Infra

/-- What a program does next, and the state it goes on from. -/
inductive StoreAction (σ κ ν β : Type) where
  | get (k : κ) (resume : Option ν → σ)
  | add (v : ν) (resume : σ)
  | done (out : β)

/-- The operations of a store. A read may be noted in it. -/
structure StoreOps (τ κ ν : Type) where
  get : τ → κ → Option ν × τ
  add : τ → ν → τ

variable {σ τ τ' κ ν β : Type} [DecidableEq κ]

/-- The store keeps each value under the key of the value, and reads change nothing. -/
structure StoreOps.Lawful (ops : StoreOps τ κ ν) (addr : ν → κ) (view : τ → κ → Option ν) :
    Prop where
  get : ∀ t k, (ops.get t k).1 = view t k
  view_get : ∀ t k, view (ops.get t k).2 = view t
  view_add : ∀ t v, view (ops.add t v) = Function.update (view t) (addr v) (some v)

section Lawful

variable {ops : StoreOps τ κ ν} {addr : ν → κ} {view : τ → κ → Option ν}

theorem StoreOps.Lawful.view_add_self (h : ops.Lawful addr view) (t : τ) (v : ν) :
    view (ops.add t v) (addr v) = some v := by
  rw [h.view_add, Function.update_self]

theorem StoreOps.Lawful.view_add_of_ne (h : ops.Lawful addr view) (t : τ) {v : ν} {k : κ}
    (hk : k ≠ addr v) : view (ops.add t v) k = view t k := by
  rw [h.view_add, Function.update_of_ne hk]

end Lawful

inductive Access (κ ν : Type) where
  | get (k : κ) (result : Option ν)
  | add (v : ν)
  deriving DecidableEq

/-- What a program has done, what it has returned if it has, and the store it leaves. -/
structure Outcome (τ κ ν β : Type) where
  accesses : List (Access κ ν)
  returned : Option β
  store : τ

/-- Up to `n` actions of a program. -/
def runProgram (ops : StoreOps τ κ ν) (next : σ → StoreAction σ κ ν β) :
    Nat → σ → τ → Outcome τ κ ν β
  | 0, _, t => { accesses := [], returned := none, store := t }
  | n + 1, s, t =>
    match next s with
    | .get k resume =>
      let rest := runProgram ops next n (resume (ops.get t k).1) (ops.get t k).2
      { rest with accesses := .get k (ops.get t k).1 :: rest.accesses }
    | .add v resume =>
      let rest := runProgram ops next n resume (ops.add t v)
      { rest with accesses := .add v :: rest.accesses }
    | .done out => { accesses := [], returned := some out, store := t }

section Steps

variable {ops : StoreOps τ κ ν} {next : σ → StoreAction σ κ ν β} {s : σ}

omit [DecidableEq κ] in
theorem runProgram_get {k : κ} {resume : Option ν → σ} (h : next s = .get k resume) (n : Nat)
    (t : τ) : runProgram ops next (n + 1) s t =
      { runProgram ops next n (resume (ops.get t k).1) (ops.get t k).2 with
        accesses := .get k (ops.get t k).1 ::
          (runProgram ops next n (resume (ops.get t k).1) (ops.get t k).2).accesses } := by
  rw [runProgram, h]

omit [DecidableEq κ] in
theorem runProgram_add {v : ν} {resume : σ} (h : next s = .add v resume) (n : Nat) (t : τ) :
    runProgram ops next (n + 1) s t =
      { runProgram ops next n resume (ops.add t v) with
        accesses := .add v :: (runProgram ops next n resume (ops.add t v)).accesses } := by
  rw [runProgram, h]

omit [DecidableEq κ] in
theorem runProgram_done {out : β} (h : next s = .done out) (n : Nat) (t : τ) :
    runProgram ops next (n + 1) s t = { accesses := [], returned := some out, store := t } := by
  rw [runProgram, h]

end Steps

/-- The same accesses with the same results, and the same return. -/
structure Outcome.Same (a : Outcome τ κ ν β) (b : Outcome τ' κ ν β) : Prop where
  accesses : a.accesses = b.accesses
  returned : a.returned = b.returned

/-! ## What a run asks the store -/

/-- The reads of keys that have not been added before, with what they found. -/
def asked (addr : ν → κ) : List κ → List (Access κ ν) → List (κ × Option ν)
  | _, [] => []
  | added, .get k x :: rest =>
    if k ∈ added then asked addr added rest else (k, x) :: asked addr added rest
  | added, .add v :: rest => asked addr (addr v :: added) rest

theorem mem_asked_get {addr : ν → κ} {added : List κ} {k : κ} {x : Option ν}
    {l : List (Access κ ν)} {e : κ × Option ν} :
    e ∈ asked addr added (.get k x :: l) ↔
      (e = (k, x) ∧ k ∉ added) ∨ e ∈ asked addr added l := by
  rw [asked]
  split
  · next hk => simp [hk]
  · next hk => simp [hk]

theorem not_mem_of_asked {addr : ν → κ} {l : List (Access κ ν)} :
    ∀ {added : List κ} {e : κ × Option ν}, e ∈ asked addr added l → e.1 ∉ added := by
  induction l with
  | nil =>
    intro added e he
    cases he
  | cons a l ih =>
    intro added e he
    cases a with
    | get k x =>
      rcases mem_asked_get.mp he with ⟨rfl, hk⟩ | he
      · exact hk
      · exact ih he
    | add v => exact fun hmem => ih he (List.mem_cons_of_mem _ hmem)

section Same

variable {ops : StoreOps τ κ ν} {ops' : StoreOps τ' κ ν} {addr : ν → κ}
  {view : τ → κ → Option ν} {view' : τ' → κ → Option ν} (next : σ → StoreAction σ κ ν β)

theorem same_iff_asked (h : ops.Lawful addr view) (h' : ops'.Lawful addr view') (n : Nat) :
    ∀ (s : σ) (t : τ) (t' : τ') (added : List κ), (∀ k ∈ added, view' t' k = view t k) →
      ((runProgram ops' next n s t').Same (runProgram ops next n s t) ↔
        ∀ e ∈ asked addr added (runProgram ops next n s t).accesses, view' t' e.1 = e.2) := by
  induction n with
  | zero =>
    intro s t t' added _
    exact ⟨fun _ e he => absurd he List.not_mem_nil, fun _ => ⟨rfl, rfl⟩⟩
  | succ n ih =>
    intro s t t' added hadded
    cases hnext : next s with
    | get k resume =>
      rw [runProgram_get hnext, runProgram_get hnext, h.get, h'.get]
      by_cases hk : view' t' k = view t k
      · -- one answer: both go on from the same state
        have hrest := ih (resume (view t k)) (ops.get t k).2 (ops'.get t' k).2 added
          (by rw [h.view_get, h'.view_get]; exact hadded)
        rw [h'.view_get] at hrest
        rw [hk]
        constructor
        · intro hsame e he
          rcases mem_asked_get.mp he with ⟨rfl, -⟩ | he
          · exact hk
          · exact hrest.mp ⟨(List.cons.inj hsame.accesses).2, hsame.returned⟩ e he
        · intro hall
          have htail := hrest.mpr fun e he => hall e (mem_asked_get.mpr (Or.inr he))
          exact ⟨congrArg _ htail.accesses, htail.returned⟩
      · -- the answers differ, and the key is one that is asked for
        have hnot : k ∉ added := fun hmem => hk (hadded k hmem)
        constructor
        · intro hsame
          have hhead := (List.cons.inj hsame.accesses).1
          exact absurd (Access.get.inj hhead).2 hk
        · intro hall
          exact absurd (hall _ (mem_asked_get.mpr (Or.inl ⟨rfl, hnot⟩))) hk
    | add v resume =>
      rw [runProgram_add hnext, runProgram_add hnext, asked]
      have hboth : ∀ k ∈ addr v :: added, view' (ops'.add t' v) k = view (ops.add t v) k := by
        intro k hk
        by_cases hkv : k = addr v
        · rw [hkv, h.view_add_self, h'.view_add_self]
        · rw [h.view_add_of_ne t hkv, h'.view_add_of_ne t' hkv]
          exact hadded k ((List.mem_cons.mp hk).resolve_left hkv)
      have hrest := ih resume (ops.add t v) (ops'.add t' v) (addr v :: added) hboth
      have hview : ∀ e ∈ asked addr (addr v :: added)
          (runProgram ops next n resume (ops.add t v)).accesses,
          view' (ops'.add t' v) e.1 = view' t' e.1 := by
        intro e he
        refine h'.view_add_of_ne t' fun hev => ?_
        exact not_mem_of_asked he (List.mem_cons.mpr (Or.inl hev))
      constructor
      · intro hsame e he
        rw [← hview e he]
        exact hrest.mp ⟨(List.cons.inj hsame.accesses).2, hsame.returned⟩ e he
      · intro hall
        have htail := hrest.mpr fun e he => (hview e he).trans (hall e he)
        exact ⟨congrArg _ htail.accesses, htail.returned⟩
    | done out =>
      rw [runProgram_done hnext, runProgram_done hnext]
      exact ⟨fun _ e he => absurd he List.not_mem_nil, fun _ => ⟨rfl, rfl⟩⟩

/-- **Two stores give the same run exactly if they answer alike what the run asks.** -/
theorem run_same_iff (h : ops.Lawful addr view) (h' : ops'.Lawful addr view') {n : Nat} {s : σ}
    {t : τ} {t' : τ'} :
    (runProgram ops' next n s t').Same (runProgram ops next n s t) ↔
      ∀ e ∈ asked addr [] (runProgram ops next n s t).accesses, view' t' e.1 = e.2 :=
  same_iff_asked next h h' n s t t' [] fun _ hk => absurd hk List.not_mem_nil

/-- What is asked is answered from the store the run starts with. -/
theorem view_of_asked (h : ops.Lawful addr view) {n : Nat} {s : σ} {t : τ} {e : κ × Option ν}
    (he : e ∈ asked addr [] (runProgram ops next n s t).accesses) : view t e.1 = e.2 :=
  (run_same_iff next h h).mp ⟨rfl, rfl⟩ e he

/-- Stores with the same contents give the same run. -/
theorem run_same_of_view (h : ops.Lawful addr view) (h' : ops'.Lawful addr view') {n : Nat}
    {s : σ} {t : τ} {t' : τ'} (hview : view' t' = view t) :
    (runProgram ops' next n s t').Same (runProgram ops next n s t) := by
  refine (run_same_iff next h h').mpr fun e he => ?_
  rw [hview]
  exact view_of_asked next h he

end Same

/-! ## Content-addressed stores -/

section Addressed

variable {ops : StoreOps τ κ ν} {addr : ν → κ} {view : τ → κ → Option ν}
  (next : σ → StoreAction σ κ ν β)

/-- Every value is kept under its own key. -/
def Addressed (addr : ν → κ) (entries : κ → Option ν) : Prop :=
  ∀ k v, entries k = some v → addr v = k

theorem Addressed.update {entries : κ → Option ν} (h : Addressed addr entries) (v : ν) :
    Addressed addr (Function.update entries (addr v) (some v)) := by
  intro k w hw
  by_cases hk : k = addr v
  · rw [hk, Function.update_self] at hw
    rw [hk, Option.some.inj hw]
  · rw [Function.update_of_ne hk] at hw
    exact h k w hw

/-- **What a content-addressed store has it keeps** through a run, and so does what is added. -/
theorem view_runProgram (h : ops.Lawful addr view) (hinj : Function.Injective addr) (n : Nat) :
    ∀ {s : σ} {t : τ}, Addressed addr (view t) →
      Addressed addr (view (runProgram ops next n s t).store) ∧
        (∀ k v, view t k = some v → view (runProgram ops next n s t).store k = some v) ∧
        ∀ v, .add v ∈ (runProgram ops next n s t).accesses →
          view (runProgram ops next n s t).store (addr v) = some v := by
  induction n with
  | zero =>
    intro s t haddr
    exact ⟨haddr, fun k v hv => hv, fun v hv => by cases hv⟩
  | succ n ih =>
    intro s t haddr
    cases hnext : next s with
    | get k resume =>
      rw [runProgram_get hnext]
      have hrest := ih (s := resume (ops.get t k).1) (t := (ops.get t k).2)
        (by rw [h.view_get]; exact haddr)
      rw [h.view_get] at hrest
      obtain ⟨hend, hkept, hadds⟩ := hrest
      refine ⟨hend, hkept, fun v hv => hadds v ?_⟩
      exact (List.mem_cons.mp hv).resolve_left fun he => by cases he
    | add w resume =>
      rw [runProgram_add hnext]
      obtain ⟨hend, hkept, hadds⟩ := ih (s := resume) (t := ops.add t w)
        (by rw [h.view_add]; exact haddr.update w)
      refine ⟨hend, fun k v hv => hkept k v ?_, fun v hv => ?_⟩
      · by_cases hk : k = addr w
        · rw [hk, h.view_add_self]
          exact congrArg some (hinj ((haddr k v hv).trans hk)).symm
        · rw [h.view_add_of_ne t hk, hv]
      · rcases List.mem_cons.mp hv with he | hv
        · obtain rfl := Access.add.inj he
          exact hkept _ _ (h.view_add_self t v)
        · exact hadds v hv
    | done out =>
      rw [runProgram_done hnext]
      exact ⟨haddr, fun k v hv => hv, fun v hv => by cases hv⟩

end Addressed

end Infra

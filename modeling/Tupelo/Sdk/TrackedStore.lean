import Tupelo.Infra.FallibleStore
import Tupelo.Sdk.RefTracking

/-!
# The whole interface of a tracked store

`StoreWrapper` (`sdk/reftracking`) over a store whose calls may fail, with the four operations of
the `DagStore` it embeds. The wrapper has methods `Get` and `Add` of its own; `GetMany` and
`AddMany` are those of the embedded store, and the wrapper does not hear of them.

So the added nodes are those of `Add` alone, the touched ones those of `Get` alone, and what the
state storer of the signer is handed has every node that was written exactly if no node was
written by `AddMany` only (`tracking_complete_iff`). `RefTracking` has the calls of `Get` and
`Add` over a store which does not fail.
-/

namespace Tupelo

open Infra

variable {τ τ' κ ν : Type} [DecidableEq κ]

namespace TrackedStore

section

variable (ops : FallibleStore τ Fault κ ν) (addr : ν → κ)

def get (sw : StoreWrapper τ κ) (id : κ) : Except Fault (Option ν) × StoreWrapper τ κ :=
  ((ops.get sw.dagStore id).1,
    match (ops.get sw.dagStore id).1 with
    | .ok (some _) =>
      if id ∈ sw.added then { sw with dagStore := (ops.get sw.dagStore id).2 }
      else { sw with
        dagStore := (ops.get sw.dagStore id).2
        touched := sw.touched.insert id }
    | _ => { sw with dagStore := (ops.get sw.dagStore id).2 })

def add (sw : StoreWrapper τ κ) (n : ν) : Except Fault Unit × StoreWrapper τ κ :=
  ((ops.add sw.dagStore n).1,
    match (ops.add sw.dagStore n).1 with
    | .ok () => { sw with
        dagStore := (ops.add sw.dagStore n).2
        added := sw.added.insert (addr n) }
    | .error _ => { sw with dagStore := (ops.add sw.dagStore n).2 })

/-- The wrapper as a store. The last two methods are those of the embedded store. -/
def tracked : FallibleStore (StoreWrapper τ κ) Fault κ ν where
  get := get ops
  add := add ops addr
  getMany := fun sw ids =>
    ((ops.getMany sw.dagStore ids).1, { sw with dagStore := (ops.getMany sw.dagStore ids).2 })
  addMany := fun sw ns =>
    ((ops.addMany sw.dagStore ns).1, { sw with dagStore := (ops.addMany sw.dagStore ns).2 })

/-- `cidToNodes`, over the embedded store. `Get` may give a nil node without an error. -/
def cidToNodes (t : τ) : List κ → Except Fault (List (Option ν))
  | [] => .ok []
  | id :: ids => do
    let n ← wrapErr "error getting node: " (ops.get t id).1
    let nodes ← cidToNodes (ops.get t id).2 ids
    pure (n :: nodes)

def touchedNodes (ord : MapOrder) (sw : StoreWrapper τ κ) : Except Fault (List (Option ν)) :=
  cidToNodes ops sw.dagStore (ord.order sw.touched)

def newNodes (ord : MapOrder) (sw : StoreWrapper τ κ) : Except Fault (List (Option ν)) :=
  cidToNodes ops sw.dagStore (ord.order sw.added)

/-- `storeState` of the state storer (`signer/gossip/statestorer.go`); what fails is logged. -/
def storeState {β : Type} (decode : β → Except Fault ν) (t : τ) (state : List β)
    (newNodes : List ν) : τ :=
  match state.mapM decode with
  | .error _ => t
  | .ok stateNodes =>
    match ops.addMany t stateNodes with
    | (.error _, t) => t
    | (.ok (), t) => (ops.addMany t newNodes).2

end

/-! ## A wrapper is a store -/

variable {ops : FallibleStore τ Fault κ ν} {addr : ν → κ} {view : τ → κ → Option ν}

theorem dagStore_get (sw : StoreWrapper τ κ) (id : κ) :
    (get ops sw id).2.dagStore = (ops.get sw.dagStore id).2 := by
  unfold get
  dsimp only
  repeat' split
  all_goals rfl

theorem dagStore_add (sw : StoreWrapper τ κ) (n : ν) :
    (add ops addr sw n).2.dagStore = (ops.add sw.dagStore n).2 := by
  unfold add
  dsimp only
  split <;> rfl

/-- The embedded store goes through the same calls. -/
theorem dagStore_perform (sw : StoreWrapper τ κ) (call : StoreCall κ ν) :
    ((tracked ops addr).perform sw call).2.dagStore = (ops.perform sw.dagStore call).2 := by
  cases call with
  | get id => exact dagStore_get sw id
  | add n => exact dagStore_add sw n
  | getMany ids => rfl
  | addMany ns => rfl

theorem lawful_tracked (h : ops.Lawful addr view) :
    (tracked ops addr).Lawful addr fun sw => view sw.dagStore where
  addressed sw := h.addressed sw.dagStore
  get_of_view := h.get_of_view
  view_of_get := h.view_of_get
  view_of_getMany := h.view_of_getMany
  view_add {sw n} hok := by
    show view (add ops addr sw n).2.dagStore (addr n) = some n
    rw [dagStore_add]
    exact h.view_add hok
  view_addMany := h.view_addMany
  keeps sw call := by
    rw [dagStore_perform]
    exact h.keeps sw.dagStore call

/-! ## What the wrapper has noted -/

/-- `Get` has found a node under the id, which no `Add` had added before. -/
def Touched (addr : ν → κ) (log : List (StoreEvent Fault κ ν)) (id : κ) : Prop :=
  Occurs log fun before e =>
    (∃ n, e = .get id (.ok (some n))) ∧ ∀ n, .add n (.ok ()) ∈ before → addr n ≠ id

theorem mem_added_get (sw : StoreWrapper τ κ) (id : κ) :
    (get ops sw id).2.added = sw.added := by
  unfold get
  dsimp only
  repeat' split
  all_goals rfl

/-- The step lemma for the added ids. -/
theorem mem_added_perform (sw : StoreWrapper τ κ) (call : StoreCall κ ν) {k : κ} :
    k ∈ ((tracked ops addr).perform sw call).2.added ↔
      k ∈ sw.added ∨
        ∃ n, .add n (.ok ()) = ((tracked ops addr).perform sw call).1 ∧ addr n = k := by
  cases call with
  | get id =>
    show k ∈ (get ops sw id).2.added ↔ _
    rw [mem_added_get]
    simp [FallibleStore.perform]
  | getMany ids => simp [FallibleStore.perform, tracked]
  | addMany ns => simp [FallibleStore.perform, tracked]
  | add n =>
    show k ∈ (add ops addr sw n).2.added ↔ k ∈ sw.added ∨
      ∃ m, StoreEvent.add m (.ok ()) = .add n (add ops addr sw n).1 ∧ addr m = k
    unfold add
    cases (ops.add sw.dagStore n).1 with
    | error err => simp
    | ok _ => simp [or_comm, eq_comm]

/-- The step lemma for the touched ids. -/
theorem mem_touched_perform (sw : StoreWrapper τ κ) (call : StoreCall κ ν) {k : κ} :
    k ∈ ((tracked ops addr).perform sw call).2.touched ↔
      k ∈ sw.touched ∨
        (∃ n, ((tracked ops addr).perform sw call).1 = .get k (.ok (some n))) ∧
          k ∉ sw.added := by
  cases call with
  | getMany ids => simp [FallibleStore.perform, tracked]
  | addMany ns => simp [FallibleStore.perform, tracked]
  | add n =>
    show k ∈ (add ops addr sw n).2.touched ↔ _
    unfold add
    cases (ops.add sw.dagStore n).1 <;> simp [FallibleStore.perform]
  | get id =>
    show k ∈ (get ops sw id).2.touched ↔ k ∈ sw.touched ∨
      (∃ n, StoreEvent.get id (get ops sw id).1 = .get k (.ok (some n))) ∧ k ∉ sw.added
    unfold get
    cases (ops.get sw.dagStore id).1 with
    | error err => simp
    | ok x =>
      cases x with
      | none => simp
      | some n =>
        by_cases hid : id ∈ sw.added
        · have hnot : id = k → k ∉ sw.added → k ∈ sw.touched := fun he hk => absurd (he ▸ hid) hk
          simpa [hid] using hnot
        · by_cases hk : k = id
          · simp [hid, hk]
          · simp [hid, hk, Ne.symm hk]

section Run

variable (ops addr) (t : τ) (calls : List (StoreCall κ ν))

/-- A run through a new wrapper: the log, and the wrapper at the end. -/
def run : List (StoreEvent Fault κ ν) × StoreWrapper τ κ :=
  (tracked ops addr).run (wrapStoreForRefCounting t) calls

/-- The added ids are those of the nodes that `Add` has added. -/
theorem mem_added_run {k : κ} : k ∈ (run ops addr t calls).2.added ↔
    ∃ n, .add n (.ok ()) ∈ (run ops addr t calls).1 ∧ addr n = k := by
  unfold run
  induction calls using List.reverseRecOn with
  | nil => exact ⟨fun h => absurd h List.not_mem_nil, fun ⟨_, h, _⟩ => absurd h List.not_mem_nil⟩
  | append_singleton calls call ih =>
    rw [FallibleStore.run_concat, mem_added_perform, ih]
    simp only [List.mem_append, List.mem_singleton, or_and_right, exists_or]

/-- The touched ids are those under which `Get` has found a node that had not been added. -/
theorem mem_touched_run {k : κ} : k ∈ (run ops addr t calls).2.touched ↔
    Touched addr (run ops addr t calls).1 k := by
  unfold Touched run
  induction calls using List.reverseRecOn with
  | nil => exact ⟨fun h => absurd h List.not_mem_nil, fun h => absurd h occurs_nil⟩
  | append_singleton calls call ih =>
    have hadded := mem_added_run ops addr t calls (k := k)
    unfold run at hadded
    rw [FallibleStore.run_concat, occurs_concat, mem_touched_perform, ← ih, hadded]
    simp only [not_exists, not_and, ne_eq]

end Run

/-! ## What the tracker returns -/

omit [DecidableEq κ] in
/-- Nodes that the store has are all returned, and nothing else is. -/
theorem cidToNodes_of_view (h : ops.Lawful addr view) : ∀ (ids : List κ) (t : τ),
    (∀ id ∈ ids, ∃ n, view t id = some n) →
      ∃ ns : List ν, cidToNodes ops t ids = .ok (ns.map some) ∧
        ∀ n, n ∈ ns ↔ addr n ∈ ids ∧ view t (addr n) = some n
  | [], t, _ => ⟨[], rfl, fun n => by simp⟩
  | id :: ids, t, hids => by
    obtain ⟨n, hn⟩ := hids id List.mem_cons_self
    have hkeeps := h.keeps t (.get id)
    obtain ⟨ns, hns, hmem⟩ := cidToNodes_of_view h ids (ops.get t id).2 fun k hk => by
      obtain ⟨m, hm⟩ := hids k (List.mem_cons_of_mem _ hk)
      exact ⟨m, hkeeps k m hm⟩
    refine ⟨n :: ns, ?_, fun m => ?_⟩
    · rw [cidToNodes, h.get_of_view hn, hns]
      rfl
    · rw [List.mem_cons, List.mem_cons, hmem]
      constructor
      · rintro (rfl | ⟨hm, hview⟩)
        · rw [h.addressed t id m hn]
          exact ⟨Or.inl rfl, hn⟩
        · -- the store had it before the read of `id` already
          obtain ⟨m', hm'⟩ := hids _ (List.mem_cons_of_mem _ hm)
          have heq := (hkeeps _ _ hm').symm.trans hview
          rw [hm']
          exact ⟨Or.inr hm, heq⟩
      · rintro ⟨rfl | hm, hview⟩
        · exact Or.inl (Option.some.inj (hview.symm.trans hn))
        · exact Or.inr ⟨hm, hkeeps _ m hview⟩

section Returned

variable (h : ops.Lawful addr view) (ord : MapOrder) (t : τ) (calls : List (StoreCall κ ν))

include h

/-- **`NewNodes` returns the nodes of `Add`.** -/
theorem newNodes_run : ∃ ns : List ν,
    newNodes ops ord (run ops addr t calls).2 = .ok (ns.map some) ∧
      ∀ n, n ∈ ns ↔ .add n (.ok ()) ∈ (run ops addr t calls).1 := by
  have hview : ∀ n, .add n (.ok ()) ∈ (run ops addr t calls).1 →
      view (run ops addr t calls).2.dagStore (addr n) = some n :=
    fun n hn => (lawful_tracked h).view_of_written ⟨_, hn, .add⟩
  obtain ⟨ns, hns, hmem⟩ := cidToNodes_of_view h (ord.order (run ops addr t calls).2.added)
    (run ops addr t calls).2.dagStore fun id hid => by
      obtain ⟨n, hn, rfl⟩ := (mem_added_run ops addr t calls).mp (MapOrder.mem_order.mp hid)
      exact ⟨n, hview n hn⟩
  refine ⟨ns, hns, fun n => ?_⟩
  rw [hmem, MapOrder.mem_order, mem_added_run]
  constructor
  · rintro ⟨⟨m, hm, haddr⟩, hn⟩
    have hm' := hview m hm
    rw [haddr, hn] at hm'
    rwa [Option.some.inj hm']
  · exact fun hn => ⟨⟨n, hn, rfl⟩, hview n hn⟩

/-- **`TouchedNodes` returns the nodes `Get` has found that had not been added.** -/
theorem touchedNodes_run : ∃ ns : List ν,
    touchedNodes ops ord (run ops addr t calls).2 = .ok (ns.map some) ∧
      ∀ n, n ∈ ns ↔ Touched addr (run ops addr t calls).1 (addr n) ∧
        view (run ops addr t calls).2.dagStore (addr n) = some n := by
  obtain ⟨ns, hns, hmem⟩ := cidToNodes_of_view h (ord.order (run ops addr t calls).2.touched)
    (run ops addr t calls).2.dagStore fun id hid => by
      obtain ⟨before, e, after, hlog, ⟨n, rfl⟩, -⟩ :=
        (mem_touched_run ops addr t calls).mp (MapOrder.mem_order.mp hid)
      have hget : .get id (.ok (some n)) ∈ (run ops addr t calls).1 := by simp [hlog]
      refine ⟨n, ?_⟩
      rw [← (lawful_tracked h).addr_of_get _ calls hget]
      exact (lawful_tracked h).view_of_read hget (.get id)
  refine ⟨ns, hns, fun n => ?_⟩
  rw [hmem, MapOrder.mem_order, mem_touched_run]

end Returned

/-! ## When the tracker misses nothing -/

/-- The tracker has what the log says, and a state storer that succeeds has every new node. -/
structure Complete (ops : FallibleStore τ Fault κ ν) (addr : ν → κ) (ord : MapOrder)
    (log : List (StoreEvent Fault κ ν)) (sw : StoreWrapper τ κ) : Prop where
  newNodes : ∃ ns : List ν, newNodes ops ord sw = .ok (ns.map some) ∧ ∀ n, n ∈ ns ↔ Written log n
  touchedNodes : ∃ ns : List ν, touchedNodes ops ord sw = .ok (ns.map some) ∧
    ∀ n, FirstRead log n → n ∈ ns
  stored : ∀ {τ' β : Type} (ops' : FallibleStore τ' Fault κ ν) (view' : τ' → κ → Option ν),
    ops'.Lawful addr view' → ∀ (decode : β → Except Fault ν) (t' : τ') (state : List β)
      (stateNodes ns : List ν), TrackedStore.newNodes ops ord sw = .ok (ns.map some) →
      state.mapM decode = .ok stateNodes → (ops'.addMany t' stateNodes).1 = .ok () →
      (ops'.addMany (ops'.addMany t' stateNodes).2 ns).1 = .ok () →
      ∀ n, Written log n → view' (storeState ops' decode t' state ns) (addr n) = some n

/-- Every node of a successful `AddMany` has been added by `Add` too. -/
def AddsAll (log : List (StoreEvent Fault κ ν)) : Prop :=
  ∀ ns n, .addMany ns (.ok ()) ∈ log → n ∈ ns → .add n (.ok ()) ∈ log

/-- Every node that `GetMany` has found before it was written has been touched by `Get` too. -/
def GetsAll (addr : ν → κ) (log : List (StoreEvent Fault κ ν)) : Prop :=
  ∀ n, (Occurs log fun before e =>
      (∃ ids results, e = .getMany ids results ∧ .ok n ∈ results) ∧ ¬ Written before n) →
    Touched addr log (addr n)

omit [DecidableEq κ] in
theorem written_iff {log : List (StoreEvent Fault κ ν)} (hadds : AddsAll log) {n : ν} :
    Written log n ↔ .add n (.ok ()) ∈ log := by
  constructor
  · rintro ⟨e, he, hw⟩
    cases hw with
    | add => exact he
    | addMany hn => exact hadds _ n he hn
  · exact fun he => ⟨_, he, .add⟩

omit [DecidableEq κ] in
theorem view_storeState (h : ops.Lawful addr view) {β : Type} {decode : β → Except Fault ν}
    {t : τ} {state : List β} {stateNodes ns : List ν}
    (hstate : state.mapM decode = .ok stateNodes) (hfirst : (ops.addMany t stateNodes).1 = .ok ())
    (hsecond : (ops.addMany (ops.addMany t stateNodes).2 ns).1 = .ok ()) {n : ν} (hn : n ∈ ns) :
    view (storeState ops decode t state ns) (addr n) = some n := by
  have hsplit : ops.addMany t stateNodes = (.ok (), (ops.addMany t stateNodes).2) :=
    Prod.ext hfirst rfl
  rw [storeState, hstate]
  dsimp only
  rw [hsplit]
  exact h.view_addMany hsecond n hn

/-- A node read by `Get` that had not been written is touched. -/
theorem touched_of_get (h : ops.Lawful addr view) {t : τ} {calls : List (StoreCall κ ν)}
    {before after : List (StoreEvent Fault κ ν)} {id : κ} {n : ν}
    (hlog : (run ops addr t calls).1 = before ++ .get id (.ok (some n)) :: after)
    (hnew : ¬ Written before n) : Touched addr (run ops addr t calls).1 (addr n) := by
  have hmem : .get id (.ok (some n)) ∈ (run ops addr t calls).1 := by simp [hlog]
  have hid := (lawful_tracked h).addr_of_get _ calls hmem
  refine ⟨before, _, after, hlog, ⟨n, by rw [hid]⟩, ?_⟩
  intro m hm haddr
  -- two nodes at one address are one
  have hadd : .add m (.ok ()) ∈ (run ops addr t calls).1 := by
    rw [hlog]
    exact List.mem_append_left _ hm
  have hm' : view (run ops addr t calls).2.dagStore (addr m) = some m :=
    (lawful_tracked h).view_of_written ⟨_, hadd, .add⟩
  have hn' : view (run ops addr t calls).2.dagStore (addr n) = some n :=
    (lawful_tracked h).view_of_read hmem (.get id)
  rw [haddr, hn'] at hm'
  rw [Option.some.inj hm'] at hnew
  exact hnew ⟨_, hm, .add⟩

/--
**Tracking misses nothing exactly if `AddMany` writes nothing that `Add` does not, and `GetMany`
reads nothing that `Get` does not.**

In particular it is complete for runs that use `Get` and `Add` only.
-/
theorem tracking_complete_iff (h : ops.Lawful addr view) (ord : MapOrder) (t : τ)
    (calls : List (StoreCall κ ν)) :
    Complete ops addr ord (run ops addr t calls).1 (run ops addr t calls).2 ↔
      AddsAll (run ops addr t calls).1 ∧ GetsAll addr (run ops addr t calls).1 := by
  obtain ⟨new, hnew, hmemNew⟩ := newNodes_run h ord t calls
  obtain ⟨touched, htouched, hmemTouched⟩ := touchedNodes_run h ord t calls
  have hinj : Function.Injective (List.map (some : ν → Option ν)) :=
    List.map_injective_iff.mpr (Option.some_injective ν)
  constructor
  · intro hcomplete
    obtain ⟨ns, hns, hmem⟩ := hcomplete.newNodes
    obtain ⟨ns', hns', hmem'⟩ := hcomplete.touchedNodes
    obtain rfl := hinj (Except.ok.inj (hns.symm.trans hnew))
    obtain rfl := hinj (Except.ok.inj (hns'.symm.trans htouched))
    refine ⟨fun vs n hvs hn => ?_, fun n hread => ?_⟩
    · exact (hmemNew n).mp ((hmem n).mpr ⟨_, hvs, .addMany hn⟩)
    · obtain ⟨before, e, after, hlog, ⟨ids, results, rfl, hn⟩, hfirst⟩ := hread
      exact ((hmemTouched n).mp (hmem' n ⟨before, _, after, hlog, .getMany ids hn, hfirst⟩)).1
  · rintro ⟨hadds, hgets⟩
    refine ⟨⟨new, hnew, fun n => ?_⟩, ⟨touched, htouched, fun n hread => ?_⟩, ?_⟩
    · rw [hmemNew, written_iff hadds]
    · obtain ⟨before, e, after, hlog, hreads, hfirst⟩ := hread
      have he : e ∈ (run ops addr t calls).1 := by simp [hlog]
      refine (hmemTouched n).mpr ⟨?_, (lawful_tracked h).view_of_read he hreads⟩
      cases hreads with
      | get id => exact touched_of_get h hlog hfirst
      | getMany ids hn => exact hgets n ⟨before, _, after, hlog, ⟨ids, _, rfl, hn⟩, hfirst⟩
    · intro τ' β ops' view' h' decode t' state stateNodes ns hns hstate hok hok' n hn
      obtain rfl := hinj (Except.ok.inj (hns.symm.trans hnew))
      exact view_storeState h' hstate hok hok' ((hmemNew n).mpr ((written_iff hadds).mp hn))

/-! ## A store of numbers -/

namespace Example

/-- Each number is its own address. -/
def numbers : FallibleStore (List Nat) Fault Nat Nat where
  get := fun t k => (if k ∈ t then .ok (some k) else .error (.error "ipld: node not found"), t)
  getMany := fun t ks =>
    (ks.map fun k => if k ∈ t then .ok k else .error (.error "ipld: node not found"), t)
  add := fun t n => (.ok (), t ++ [n])
  addMany := fun t ns => (.ok (), t ++ ns)

def has (t : List Nat) (k : Nat) : Option Nat := if k ∈ t then some k else none

theorem has_eq_some {t : List Nat} {k n : Nat} : has t k = some n ↔ k ∈ t ∧ k = n := by
  simp [has]

theorem lawful_numbers : numbers.Lawful id has where
  addressed t k n hn := (has_eq_some.mp hn).2.symm
  get_of_view {t k n} hn := by
    obtain ⟨hk, rfl⟩ := has_eq_some.mp hn
    simp [numbers, hk]
  view_of_get {t k n} hn := by
    by_cases hk : k ∈ t
    · exact has_eq_some.mpr ⟨hk, by simpa [numbers, hk] using hn⟩
    · simp [numbers, hk] at hn
  view_of_getMany {t ks n} hn := by
    obtain ⟨k, -, hk⟩ := List.mem_map.mp hn
    by_cases hkt : k ∈ t
    · rw [if_pos hkt] at hk
      rw [← Except.ok.inj hk]
      exact has_eq_some.mpr ⟨hkt, rfl⟩
    · rw [if_neg hkt] at hk
      cases hk
  view_add _ := has_eq_some.mpr ⟨by simp [numbers], rfl⟩
  view_addMany _ n hn := has_eq_some.mpr ⟨by simp [numbers, hn], rfl⟩
  keeps t call k n hn := by
    obtain ⟨hk, rfl⟩ := has_eq_some.mp hn
    cases call <;> exact has_eq_some.mpr ⟨by simp [numbers, FallibleStore.perform, hk], rfl⟩

/-- The store has 5, which is read, and 7 is written. -/
def one : List (StoreEvent Fault Nat Nat) × StoreWrapper (List Nat) Nat :=
  run numbers id [5] [.get 5, .add 7, .get 7]

/-- The same with the other two methods. -/
def many : List (StoreEvent Fault Nat Nat) × StoreWrapper (List Nat) Nat :=
  run numbers id [5] [.getMany [5], .addMany [7]]

theorem tracking_complete_example :
    newNodes numbers .plain one.2 = .ok [some 7] ∧
      touchedNodes numbers .plain one.2 = .ok [some 5] ∧
      Complete numbers id .plain one.1 one.2 := by
  refine ⟨rfl, rfl, (tracking_complete_iff lawful_numbers .plain [5] _).mpr ⟨?_, ?_⟩⟩
  · intro ns n hns
    simp [run, FallibleStore.run, FallibleStore.perform, tracked] at hns
  · rintro n ⟨before, e, after, hlog, ⟨ids, results, rfl, -⟩, -⟩
    have hmem : .getMany ids results ∈ one.1 := by simp [one, hlog]
    simp [one, run, FallibleStore.run, FallibleStore.perform, tracked] at hmem

/--
Through `GetMany` and `AddMany` nothing is touched and nothing is new. A state storer that begins
with the old store and is handed the new nodes does not have 7 in the end.
-/
theorem misses_many : numbers.Lawful id has ∧ Written many.1 7 ∧ FirstRead many.1 5 ∧
    newNodes numbers .plain many.2 = .ok [] ∧ touchedNodes numbers .plain many.2 = .ok [] ∧
    has many.2.dagStore 7 = some 7 ∧
    has (storeState numbers (Except.ok : Nat → Except Fault Nat) [5] [] []) 7 = none := by
  refine ⟨lawful_numbers, ?_, ?_, rfl, rfl, rfl, rfl⟩
  · exact ⟨.addMany [7] (.ok ()), .tail _ (.head _), .addMany (.head _)⟩
  · refine ⟨[], .getMany [5] [.ok 5], [.addMany [7] (.ok ())], rfl, .getMany _ (.head _), ?_⟩
    rintro ⟨e, he, -⟩
    cases he

end Example

end TrackedStore

end Tupelo

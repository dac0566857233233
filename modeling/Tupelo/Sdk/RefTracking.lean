import Tupelo.Infra.Except
import Tupelo.Infra.GoMap
import Tupelo.Infra.StoreProgram
import Tupelo.Messages

/-!
# Keeping track of the nodes a computation uses

The model of `sdk/reftracking`. A `StoreWrapper` passes reads and writes on to the store it is
around, and notes which nodes were found in it that had not been added before. It is generic in
the store, as the Go type is in the `DagStore` it embeds; a wrapper is such a store again.

The touched nodes are what a computation needs of the store: on any store that has just them it
does the same (`touchedNodes_suffice`).
-/

namespace Tupelo

open Infra

variable {σ τ τ' κ ν β : Type} [DecidableEq κ]

/-- `StoreWrapper`. A `cidTracker` is the list of its keys. -/
structure StoreWrapper (τ κ : Type) where
  dagStore : τ
  touched : List κ
  added : List κ

def wrapStoreForRefCounting (store : τ) : StoreWrapper τ κ :=
  { dagStore := store, touched := [], added := [] }

namespace StoreWrapper

section

variable (ops : StoreOps τ κ ν) (addr : ν → κ)

def get (sw : StoreWrapper τ κ) (id : κ) : Option ν × StoreWrapper τ κ :=
  ((ops.get sw.dagStore id).1,
    if (ops.get sw.dagStore id).1.isSome ∧ id ∉ sw.added then
      { sw with dagStore := (ops.get sw.dagStore id).2, touched := sw.touched.insert id }
    else { sw with dagStore := (ops.get sw.dagStore id).2 })

def add (sw : StoreWrapper τ κ) (n : ν) : StoreWrapper τ κ :=
  { sw with dagStore := ops.add sw.dagStore n, added := sw.added.insert (addr n) }

def cidToNodes (sw : StoreWrapper τ κ) (ids : List κ) : Except Fault (List ν) :=
  ids.mapM fun id =>
    match (ops.get sw.dagStore id).1 with
    | some n => .ok n
    | none => .error (.error "error getting node: ipld: node not found")

/-- `TouchedNodes`, with the order in which `toSlice` ranges over the map. -/
def touchedNodes (ord : MapOrder) (sw : StoreWrapper τ κ) : Except Fault (List ν) :=
  sw.cidToNodes ops (ord.order sw.touched)

/-- `NewNodes`. -/
def newNodes (ord : MapOrder) (sw : StoreWrapper τ κ) : Except Fault (List ν) :=
  sw.cidToNodes ops (ord.order sw.added)

/-- The wrapper as a store. -/
def tracked : StoreOps (StoreWrapper τ κ) κ ν where
  get := get ops
  add := add ops addr

end

variable {ops : StoreOps τ κ ν} {addr : ν → κ} {view : τ → κ → Option ν}

theorem dagStore_get (sw : StoreWrapper τ κ) (id : κ) :
    (sw.get ops id).2.dagStore = (ops.get sw.dagStore id).2 := by
  unfold get
  dsimp only
  split <;> rfl

theorem added_get (sw : StoreWrapper τ κ) (id : κ) : (sw.get ops id).2.added = sw.added := by
  unfold get
  dsimp only
  split <;> rfl

theorem mem_touched_get (sw : StoreWrapper τ κ) {id k : κ} : k ∈ (sw.get ops id).2.touched ↔
    k ∈ sw.touched ∨
      ∃ n, (k, some n) = (id, (ops.get sw.dagStore id).1) ∧ id ∉ sw.added := by
  unfold get
  dsimp only
  cases (ops.get sw.dagStore id).1 with
  | none => simp
  | some n =>
    by_cases hid : id ∈ sw.added
    · simp [hid]
    · simp [hid, or_comm]

/-- A wrapper answers as the store it is around. -/
theorem lawful_tracked (h : ops.Lawful addr view) :
    (tracked ops addr).Lawful addr fun sw => view sw.dagStore where
  get sw k := h.get sw.dagStore k
  view_get sw k := by
    show view (sw.get ops k).2.dagStore = _
    rw [dagStore_get, h.view_get]
  view_add sw v := h.view_add sw.dagStore v

theorem cidToNodes_of_view (h : ops.Lawful addr view) {sw : StoreWrapper τ κ} (ids : List κ)
    (hids : ∀ id ∈ ids, ∃ n, view sw.dagStore id = some n) :
    ∃ nodes, sw.cidToNodes ops ids = .ok nodes ∧
      ∀ n, n ∈ nodes ↔ ∃ id ∈ ids, view sw.dagStore id = some n := by
  unfold cidToNodes
  induction ids with
  | nil => exact ⟨[], rfl, fun n => by simp⟩
  | cons id ids ih =>
    obtain ⟨nodes, hnodes, hmem⟩ := ih fun k hk => hids k (List.mem_cons_of_mem _ hk)
    obtain ⟨n, hn⟩ := hids id List.mem_cons_self
    refine ⟨n :: nodes, ?_, fun m => ?_⟩
    · rw [List.mapM_cons, hnodes, h.get, hn]
      rfl
    · rw [List.mem_cons, hmem, List.exists_mem_cons_iff, hn, Option.some.injEq, eq_comm]

/-! ## What a run leaves in the wrapper -/

variable {next : σ → StoreAction σ κ ν β}

/-- **The touched nodes are those the run has asked for and found.** -/
theorem mem_touched_run {k : κ} (n : Nat) :
    ∀ (s : σ) (sw : StoreWrapper τ κ) (added : List κ), (∀ k, k ∈ sw.added ↔ k ∈ added) →
      (k ∈ (runProgram (tracked ops addr) next n s sw).store.touched ↔
        k ∈ sw.touched ∨ ∃ v, (k, some v) ∈
          asked addr added (runProgram (tracked ops addr) next n s sw).accesses) := by
  induction n with
  | zero =>
    intro s sw added _
    exact ⟨Or.inl, fun hk => hk.resolve_right fun ⟨_, hv⟩ => absurd hv List.not_mem_nil⟩
  | succ n ih =>
    intro s sw added hadded
    cases hnext : next s with
    | get id resume =>
      have hrest := ih (resume (ops.get sw.dagStore id).1) (sw.get ops id).2 added
        (by rw [added_get]; exact hadded)
      rw [mem_touched_get, or_assoc, hadded] at hrest
      rw [runProgram_get hnext]
      simp only [mem_asked_get, exists_or]
      exact hrest
    | add v resume =>
      have hrest := ih resume (sw.add ops addr v) (addr v :: added) fun k => by
        rw [add, List.mem_insert_iff, List.mem_cons, hadded]
      rw [runProgram_add hnext]
      exact hrest
    | done out =>
      rw [runProgram_done hnext]
      exact ⟨Or.inl, fun hk => hk.resolve_right fun ⟨_, hv⟩ => absurd hv List.not_mem_nil⟩

theorem mem_added_run {k : κ} (n : Nat) : ∀ (s : σ) (sw : StoreWrapper τ κ),
    (k ∈ (runProgram (tracked ops addr) next n s sw).store.added ↔
      k ∈ sw.added ∨
        ∃ v, .add v ∈ (runProgram (tracked ops addr) next n s sw).accesses ∧ addr v = k) := by
  induction n with
  | zero =>
    intro s sw
    exact ⟨Or.inl, fun hk => hk.resolve_right fun ⟨_, hv, _⟩ => absurd hv List.not_mem_nil⟩
  | succ n ih =>
    intro s sw
    cases hnext : next s with
    | get id resume =>
      have hrest := ih (resume (ops.get sw.dagStore id).1) (sw.get ops id).2
      rw [added_get] at hrest
      rw [runProgram_get hnext]
      simp only [List.mem_cons, reduceCtorEq, false_or]
      exact hrest
    | add v resume =>
      have hrest := ih resume (sw.add ops addr v)
      have hhead : k ∈ (sw.add ops addr v).added ↔ k ∈ sw.added ∨ addr v = k := by
        rw [add, List.mem_insert_iff, or_comm, eq_comm]
      rw [hhead, or_assoc] at hrest
      rw [runProgram_add hnext]
      simp only [List.mem_cons, Access.add.injEq, or_and_right, exists_or, exists_eq_left]
      exact hrest
    | done out =>
      rw [runProgram_done hnext]
      exact ⟨Or.inl, fun hk => hk.resolve_right fun ⟨_, hv, _⟩ => absurd hv List.not_mem_nil⟩

variable (next) in
/-- The nodes a run has added are all there at its end. -/
theorem newNodes_run (hinj : Function.Injective addr) (h : ops.Lawful addr view) {t : τ}
    (haddr : Addressed addr (view t)) (ord : MapOrder) (n : Nat) (s : σ) :
    ∃ nodes, (runProgram (tracked ops addr) next n s (wrapStoreForRefCounting t)).store.newNodes
      ops ord = .ok nodes := by
  have hend := view_runProgram next (lawful_tracked h) hinj n (s := s)
    (t := wrapStoreForRefCounting t) haddr
  obtain ⟨nodes, hnodes, -⟩ := cidToNodes_of_view h (ord.order (runProgram
    (tracked ops addr) next n s (wrapStoreForRefCounting t)).store.added) fun id hid => by
      obtain ⟨v, hv, rfl⟩ := ((mem_added_run n s _).mp (MapOrder.mem_order.mp hid)).resolve_left
        List.not_mem_nil
      exact ⟨v, hend.2.2 v hv⟩
  exact ⟨nodes, hnodes⟩

variable (next) in
/--
**The touched nodes suffice for a replay.** They can all be fetched at the end of a run, and any
store that has just them gives the same run: the same reads with the same results, the same nodes
added, and the same return.
-/
theorem touchedNodes_suffice (hinj : Function.Injective addr) (h : ops.Lawful addr view) {t : τ}
    (haddr : Addressed addr (view t)) (ord : MapOrder) (n : Nat) (s : σ) :
    ∃ nodes, (runProgram (tracked ops addr) next n s (wrapStoreForRefCounting t)).store.touchedNodes
        ops ord = .ok nodes ∧
      ∀ {τ' : Type} {ops' : StoreOps τ' κ ν} {view' : τ' → κ → Option ν} {t' : τ'},
        ops'.Lawful addr view' → (∀ k v, view' t' k = some v ↔ v ∈ nodes ∧ addr v = k) →
        (runProgram ops' next n s t').Same
          (runProgram (tracked ops addr) next n s (wrapStoreForRefCounting t)) := by
  set sw := wrapStoreForRefCounting (κ := κ) t
  set o := runProgram (tracked ops addr) next n s sw
  obtain ⟨hend, hkept, -⟩ := view_runProgram next (lawful_tracked h) hinj n (s := s)
    (t := sw) haddr
  have htouched : ∀ k, k ∈ o.store.touched ↔ ∃ v, (k, some v) ∈ asked addr [] o.accesses := by
    intro k
    rw [mem_touched_run n s sw [] fun _ => Iff.rfl]
    exact or_iff_right List.not_mem_nil
  have hfound : ∀ k, k ∈ o.store.touched → ∃ v, view t k = some v := by
    intro k hk
    obtain ⟨v, hv⟩ := (htouched k).mp hk
    exact ⟨v, view_of_asked next (lawful_tracked h) hv⟩
  obtain ⟨nodes, hnodes, hmem⟩ := cidToNodes_of_view h (ord.order o.store.touched)
    fun id hid => by
      obtain ⟨v, hv⟩ := hfound id (MapOrder.mem_order.mp hid)
      exact ⟨v, hkept id v hv⟩
  refine ⟨nodes, hnodes, ?_⟩
  intro τ' ops' view' t' h' hview'
  refine (run_same_iff next (lawful_tracked h) h').mpr ?_
  rintro ⟨k, x⟩ he
  have hview : view t k = x := view_of_asked next (lawful_tracked h) he
  cases x with
  | some v =>
    -- found in the store, so touched
    have hk : k ∈ ord.order o.store.touched := MapOrder.mem_order.mpr ((htouched k).mpr ⟨v, he⟩)
    exact (hview' k v).mpr ⟨(hmem v).mpr ⟨k, hk, hkept k v hview⟩, haddr k v hview⟩
  | none =>
    -- what is not in the store was never touched
    rw [Option.eq_none_iff_forall_ne_some]
    intro v hv
    obtain ⟨hnode, rfl⟩ := (hview' k v).mp hv
    obtain ⟨id, hid, hid'⟩ := (hmem v).mp hnode
    obtain ⟨w, hw⟩ := hfound id (MapOrder.mem_order.mp hid)
    rw [← hend id v hid', hview] at hw
    cases hw

end StoreWrapper

end Tupelo

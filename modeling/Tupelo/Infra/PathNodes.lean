import Tupelo.Infra.MerkleDag

/-!
# The objects along a path

To show someone what a path of a DAG leads to it is enough to give them the objects the path goes
through. With these and the address of the root they resolve the path, and every path it begins
with, to the same.
-/

namespace Infra.MerkleDag

variable {C : Type} {addr : Obj C → C}

/-- The object has to be loaded if the field is a link to it. -/
def loaded : Obj C → Obj C → List (Obj C)
  | .link _, o => [o]
  | _, _ => []

/-- The objects that are loaded along a path. -/
def visited (S : Store addr) : Obj C → List String → Option (List (Obj C))
  | _, [] => some []
  | .map fields, k :: rest =>
    match fields.lookup k with
    | none => none
    | some v => (follow S v).bind fun o => (visited S o rest).map (loaded v o ++ ·)
  | _, _ :: _ => none

section Visited

variable {S T : Store addr} {o x : Obj C} {nodes : List (Obj C)}

theorem visited_cons_cases {k : String} {rest : List String}
    (h : visited S o (k :: rest) = some nodes) : ∃ fields v y later,
      o = .map fields ∧ fields.lookup k = some v ∧ follow S v = some y ∧
      visited S y rest = some later ∧ nodes = loaded v y ++ later := by
  cases o with
  | map fields =>
    rw [visited] at h
    cases hk : fields.lookup k with
    | none =>
      rw [hk] at h
      cases h
    | some v =>
      rw [hk] at h
      obtain ⟨y, hy, h⟩ := Option.bind_eq_some_iff.mp h
      obtain ⟨later, hlater, rfl⟩ := Option.map_eq_some_iff.mp h
      exact ⟨fields, v, y, later, rfl, hk, hy, hlater, rfl⟩
  | _ => cases h

/-- A path that can be resolved goes through objects of the store. -/
theorem exists_visited {p : List String} : ∀ {o : Obj C},
    find S o p = some (some x) → ∃ nodes, visited S o p = some nodes := by
  induction p with
  | nil =>
    intro o _
    exact ⟨[], by cases o <;> rfl⟩
  | cons k rest ih =>
    intro o h
    obtain ⟨fields, rfl, ⟨-, hr⟩ | ⟨v, y, hk, hy, hr⟩⟩ := find_cons_cases h
    · cases hr
    · obtain ⟨later, hlater⟩ := ih hr
      refine ⟨loaded v y ++ later, ?_⟩
      rw [visited, hk]
      simp only [hy, Option.bind_some, hlater, Option.map_some]

theorem follow_of_loaded {v y : Obj C} (h : follow S v = some y)
    (hT : ∀ n ∈ loaded v y, T.nodes (addr n) = some n) : follow T v = some y := by
  cases v with
  | link c =>
    have hc : addr y = c := S.addressed h
    rw [← hc]
    exact hT y List.mem_cons_self
  | _ => exact h

/-- **The objects of a path are enough** for it, and for the paths it begins with. -/
theorem find_of_visited {q p : List String} : ∀ {o : Obj C} {nodes : List (Obj C)},
    visited S o (p ++ q) = some nodes → (∀ n ∈ nodes, T.nodes (addr n) = some n) →
    find S o p = some (some x) → find T o p = some (some x) := by
  induction p with
  | nil =>
    intro o nodes _ _ hr
    rw [find_nil] at hr ⊢
    exact hr
  | cons k rest ih =>
    intro o nodes hv hT hr
    obtain ⟨fields, v, y, later, rfl, hk, hy, hlater, rfl⟩ := visited_cons_cases hv
    rw [find_cons_of_lookup hk, hy] at hr
    have hy' := follow_of_loaded hy fun n hn => hT n (List.mem_append_left _ hn)
    rw [find_cons_of_lookup hk, hy']
    exact ih hlater (fun n hn => hT n (List.mem_append_right _ hn)) hr

/-- An object of a path is the one at its end, or a map with one of the keys. -/
theorem mem_visited {n : Obj C} {p : List String} : ∀ {o : Obj C} {nodes : List (Obj C)},
    visited S o p = some nodes → find S o p = some (some x) → n ∈ nodes →
      n = x ∨ ∃ k ∈ p, ∃ fields v, n = .map fields ∧ fields.lookup k = some v := by
  induction p with
  | nil =>
    intro o nodes hv _ hn
    have hnil : nodes = [] := by cases o <;> exact (Option.some.inj hv).symm
    rw [hnil] at hn
    cases hn
  | cons k rest ih =>
    intro o nodes hv hr hn
    obtain ⟨fields, v, y, later, rfl, hk, hy, hlater, rfl⟩ := visited_cons_cases hv
    rw [find_cons_of_lookup hk, hy] at hr
    rcases List.mem_append.mp hn with hn | hn
    · have hny : n = y := by
        cases v with
        | link c => exact List.mem_singleton.mp hn
        | _ => cases hn
      subst hny
      cases rest with
      | nil =>
        rw [Option.bind_some, find_nil] at hr
        exact Or.inl (Option.some.inj (Option.some.inj hr))
      | cons k' rest =>
        obtain ⟨fields', rfl, ⟨-, hmissing⟩ | ⟨v', -, hk', -, -⟩⟩ := find_cons_cases hr
        · cases hmissing
        · exact Or.inr ⟨k', by simp, fields', v', rfl, hk'⟩
    · rcases ih hlater hr hn with h | ⟨k', hk', hmap⟩
      · exact Or.inl h
      · exact Or.inr ⟨k', List.mem_cons_of_mem _ hk', hmap⟩

/-- A link on the path is to one of its objects. -/
theorem exists_mem_visited {fields : List (String × Obj C)} {k : String} {c : C}
    {q p : List String} (hk : fields.lookup k = some (.link c)) :
    ∀ {o : Obj C} {nodes : List (Obj C)}, visited S o (p ++ k :: q) = some nodes →
      find S o p = some (some (.map fields)) → ∃ n ∈ nodes, addr n = c := by
  induction p with
  | nil =>
    intro o nodes hv hr
    obtain ⟨fields', v, y, later, rfl, hk', hy, -, rfl⟩ := visited_cons_cases hv
    rw [find_nil] at hr
    obtain rfl := Obj.map.inj (Option.some.inj (Option.some.inj hr))
    obtain rfl := Option.some.inj (hk.symm.trans hk')
    exact ⟨y, List.mem_append_left _ List.mem_cons_self, S.addressed hy⟩
  | cons k' rest ih =>
    intro o nodes hv hr
    obtain ⟨fields', v, y, later, rfl, hk', hy, hlater, rfl⟩ := visited_cons_cases hv
    rw [find_cons_of_lookup hk', hy] at hr
    obtain ⟨n, hn, hc⟩ := ih hlater hr
    exact ⟨n, List.mem_append_right _ hn, hc⟩

end Visited

namespace Dag

/-- The objects along a path, the root first. -/
def nodesForPath (d : Dag addr) (p : List String) : Option (List (Obj C)) :=
  (d.store.nodes d.tip).bind fun root => (visited d.store root p).map (root :: ·)

variable {d d' : Dag addr} {p q : List String} {x : Obj C} {nodes : List (Obj C)}

theorem nodesForPath_cases (h : d.nodesForPath p = some nodes) : ∃ root later,
    d.store.nodes d.tip = some root ∧ visited d.store root p = some later ∧
      nodes = root :: later := by
  obtain ⟨root, hroot, h⟩ := Option.bind_eq_some_iff.mp h
  obtain ⟨later, hlater, rfl⟩ := Option.map_eq_some_iff.mp h
  exact ⟨root, later, hroot, hlater, rfl⟩

theorem exists_nodesForPath (h : d.find p = some (some x)) :
    ∃ nodes, d.nodesForPath p = some nodes := by
  obtain ⟨root, hroot, h⟩ := Option.bind_eq_some_iff.mp h
  obtain ⟨later, hlater⟩ := exists_visited h
  refine ⟨root :: later, ?_⟩
  unfold nodesForPath
  rw [hroot, Option.bind_some, hlater, Option.map_some]

theorem find_of_nodesForPath (htip : d'.tip = d.tip)
    (hnodes : d.nodesForPath (p ++ q) = some nodes)
    (hkept : ∀ n ∈ nodes, d'.store.nodes (addr n) = some n)
    (h : d.find p = some (some x)) : d'.find p = some (some x) := by
  obtain ⟨root, later, hroot, hlater, rfl⟩ := nodesForPath_cases hnodes
  have hroot' : d'.store.nodes d'.tip = some root := by
    rw [htip, ← d.store.addressed hroot]
    exact hkept root List.mem_cons_self
  unfold find at h ⊢
  rw [hroot, Option.bind_some] at h
  rw [hroot', Option.bind_some]
  exact find_of_visited hlater (fun n hn => hkept n (List.mem_cons_of_mem _ hn)) h

theorem mem_nodesForPath {n : Obj C} (hnodes : d.nodesForPath p = some nodes)
    (h : d.find p = some (some x)) (hp : p ≠ []) (hn : n ∈ nodes) :
    n = x ∨ ∃ k ∈ p, ∃ fields v, n = .map fields ∧ fields.lookup k = some v := by
  obtain ⟨root, later, hroot, hlater, rfl⟩ := nodesForPath_cases hnodes
  unfold find at h
  rw [hroot, Option.bind_some] at h
  rcases List.mem_cons.mp hn with rfl | hn
  · cases p with
    | nil => exact absurd rfl hp
    | cons k rest =>
      obtain ⟨fields, v, -, -, rfl, hk, -⟩ := visited_cons_cases hlater
      exact Or.inr ⟨k, List.mem_cons_self, fields, v, rfl, hk⟩
  · exact mem_visited hlater h hn

theorem exists_mem_nodesForPath {fields : List (String × Obj C)} {k : String} {c : C}
    (hnodes : d.nodesForPath (p ++ k :: q) = some nodes)
    (h : d.find p = some (some (.map fields))) (hk : fields.lookup k = some (.link c)) :
    ∃ n ∈ nodes, addr n = c := by
  obtain ⟨root, later, hroot, hlater, rfl⟩ := nodesForPath_cases hnodes
  unfold find at h
  rw [hroot, Option.bind_some] at h
  obtain ⟨n, hn, hc⟩ := exists_mem_visited hk hlater h
  exact ⟨n, List.mem_cons_of_mem _ hn, hc⟩

end Dag

end Infra.MerkleDag

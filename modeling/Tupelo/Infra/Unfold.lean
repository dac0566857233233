import Mathlib.Data.List.Nodup
import Mathlib.Data.List.Perm.Subperm
import Mathlib.Logic.Relation

/-!
# Unfolding a graph

Every node of a graph has a list of children: leaves, and links to other nodes. `expand` replaces
each link by what the node at its end expands to, and so on. It keeps the nodes on the way to the
place where it stands, and gives up when it comes to one of them again.

The graph may have cycles, and a node may be reached in several ways. `expand` fails if a cycle
can be reached, and only then (`expand_error`, `acc_of_expand`). Otherwise it returns the leaves
in order: what it returns is what any solution of the equations `Unfolds` gives the node.
-/

namespace Infra

open Relation

/-- A computation that may fail, with limited fuel: it is `none` if the fuel was not enough. -/
abbrev Fueled (ε α : Type) := ExceptT ε Option α

/-- The computation finishes, with a result or with an error. -/
def Fueled.Ends {ε α : Type} (x : Fueled ε α) (r : Except ε α) : Prop := x.run = some r

namespace Fueled

variable {ε α β : Type}

theorem Ends.unique {x : Fueled ε α} {r r' : Except ε α} (h : x.Ends r) (h' : x.Ends r') :
    r = r' := Option.some.inj (h.symm.trans h')

/-- Two steps succeed if each does. -/
theorem ends_ok_bind {x : Fueled ε α} {f : α → Fueled ε β} {b : β} :
    (x >>= f).Ends (.ok b) ↔ ∃ a, x.Ends (.ok a) ∧ (f a).Ends (.ok b) := by
  constructor
  · intro h
    match x with
    | some (.ok a) => exact ⟨a, rfl, h⟩
    | some (.error e) => cases h
    | none => cases h
  · rintro ⟨a, hx, h⟩
    rw [show x = some (.ok a) from hx]
    exact h

/-- They fail if the first does, or the second does after the first has succeeded. -/
theorem ends_error_bind {x : Fueled ε α} {f : α → Fueled ε β} {e : ε} :
    (x >>= f).Ends (.error e) ↔
      x.Ends (.error e) ∨ ∃ a, x.Ends (.ok a) ∧ (f a).Ends (.error e) := by
  constructor
  · intro h
    match x with
    | some (.ok a) => exact Or.inr ⟨a, rfl, h⟩
    | some (.error e') =>
      obtain rfl := Except.error.inj (Option.some.inj h)
      exact Or.inl rfl
    | none => cases h
  · rintro (hx | ⟨a, hx, h⟩)
    · rw [show x = some (.error e) from hx]
      rfl
    · rw [show x = some (.ok a) from hx]
      exact h

/-- If what a step adds to a list does not depend on the list, the steps add what each adds. -/
theorem mem_foldlM {γ : Type} {f : List β → γ → Fueled ε (List β)} {b : β} {adds : γ → Prop}
    (hf : ∀ l v l', (f l v).Ends (.ok l') → (b ∈ l' ↔ b ∈ l ∨ adds v)) {vs : List γ}
    {l l' : List β} (h : (vs.foldlM f l).Ends (.ok l')) :
    b ∈ l' ↔ b ∈ l ∨ ∃ v ∈ vs, adds v := by
  induction vs generalizing l with
  | nil =>
    obtain rfl := Except.ok.inj (Option.some.inj h)
    simp
  | cons v vs ih =>
    rw [List.foldlM_cons] at h
    obtain ⟨l₁, h₁, h⟩ := ends_ok_bind.mp h
    rw [ih h, hf _ _ _ h₁, or_assoc]
    simp

end Fueled

variable {ε α β : Type}
variable {nodes seen : List α} {x : α} {fuel : Nat} {r : Except ε (List β)} {l : List β}

/-! ## Children one after the other -/

/-- The leaves, and what `f` gives for the links. -/
def gather (f : α → Fueled ε (List β)) : List (β ⊕ α) → Fueled ε (List β)
  | [] => pure []
  | .inl b :: es => do
    let l ← gather f es
    pure (b :: l)
  | .inr x :: es => do
    let l ← f x
    let l' ← gather f es
    pure (l ++ l')

/-- The leaves, and what a function gives for the links. -/
def contribution (own : α → List β) : β ⊕ α → List β
  | .inl b => [b]
  | .inr x => own x

section Gather

variable {f : α → Fueled ε (List β)} {es : List (β ⊕ α)}

theorem gather_of_ok {own : α → List β} (h : ∀ x, .inr x ∈ es → (f x).Ends (.ok (own x))) :
    (gather f es).Ends (.ok (es.flatMap (contribution own))) := by
  induction es with
  | nil => rfl
  | cons e es ih =>
    have hrest := ih fun x hx => h x (List.mem_cons_of_mem _ hx)
    cases e with
    | inl b => exact Fueled.ends_ok_bind.mpr ⟨_, hrest, rfl⟩
    | inr x =>
      refine Fueled.ends_ok_bind.mpr ⟨_, h x List.mem_cons_self, ?_⟩
      exact Fueled.ends_ok_bind.mpr ⟨_, hrest, rfl⟩

theorem ok_of_gather (h : (gather f es).Ends (.ok l)) (hx : .inr x ∈ es) :
    ∃ l', (f x).Ends (.ok l') := by
  induction es generalizing l with
  | nil => cases hx
  | cons e es ih =>
    cases e with
    | inl b =>
      obtain ⟨l', hrest, -⟩ := Fueled.ends_ok_bind.mp h
      rcases List.mem_cons.mp hx with hx | hx
      · cases hx
      · exact ih hrest hx
    | inr y =>
      obtain ⟨l', hy, h⟩ := Fueled.ends_ok_bind.mp h
      obtain ⟨l'', hrest, -⟩ := Fueled.ends_ok_bind.mp h
      rcases List.mem_cons.mp hx with hx | hx
      · cases hx
        exact ⟨l', hy⟩
      · exact ih hrest hx

theorem error_of_gather {e : ε} (h : (gather f es).Ends (.error e)) :
    ∃ x, .inr x ∈ es ∧ (f x).Ends (.error e) := by
  induction es with
  | nil => cases h
  | cons c es ih =>
    cases c with
    | inl b =>
      rcases Fueled.ends_error_bind.mp h with h | ⟨l, -, h⟩
      · obtain ⟨x, hx, he⟩ := ih h
        exact ⟨x, List.mem_cons_of_mem _ hx, he⟩
      · cases h
    | inr y =>
      rcases Fueled.ends_error_bind.mp h with h | ⟨l, -, h⟩
      · exact ⟨y, List.mem_cons_self, h⟩
      · rcases Fueled.ends_error_bind.mp h with h | ⟨l', -, h⟩
        · obtain ⟨x, hx, he⟩ := ih h
          exact ⟨x, List.mem_cons_of_mem _ hx, he⟩
        · cases h

theorem gather_ends (h : ∀ x, .inr x ∈ es → ∃ r, (f x).Ends r) : ∃ r, (gather f es).Ends r := by
  induction es with
  | nil => exact ⟨_, rfl⟩
  | cons c es ih =>
    obtain ⟨r, hrest⟩ := ih fun x hx => h x (List.mem_cons_of_mem _ hx)
    cases c with
    | inl b =>
      cases r with
      | error e => exact ⟨_, Fueled.ends_error_bind.mpr (Or.inl hrest)⟩
      | ok l => exact ⟨_, Fueled.ends_ok_bind.mpr ⟨l, hrest, rfl⟩⟩
    | inr x =>
      obtain ⟨rx, hx⟩ := h x List.mem_cons_self
      cases rx with
      | error e => exact ⟨_, Fueled.ends_error_bind.mpr (Or.inl hx)⟩
      | ok lx =>
        cases r with
        | error e =>
          refine ⟨.error e, Fueled.ends_error_bind.mpr (Or.inr ⟨lx, hx, ?_⟩)⟩
          exact Fueled.ends_error_bind.mpr (Or.inl hrest)
        | ok l =>
          refine ⟨.ok (lx ++ l), Fueled.ends_ok_bind.mpr ⟨lx, hx, ?_⟩⟩
          exact Fueled.ends_ok_bind.mpr ⟨l, hrest, rfl⟩

theorem gather_mono {g : α → Fueled ε (List β)}
    (h : ∀ x r, .inr x ∈ es → (f x).Ends r → (g x).Ends r) (hf : (gather f es).Ends r) :
    (gather g es).Ends r := by
  induction es generalizing r with
  | nil => exact hf
  | cons c es ih =>
    have hrest : ∀ r, (gather f es).Ends r → (gather g es).Ends r :=
      fun r => ih fun x r hx => h x r (List.mem_cons_of_mem _ hx)
    cases c with
    | inl b =>
      cases r with
      | error e =>
        rcases Fueled.ends_error_bind.mp hf with hf | ⟨l, -, hf⟩
        · exact Fueled.ends_error_bind.mpr (Or.inl (hrest _ hf))
        · cases hf
      | ok l =>
        obtain ⟨l', hl', hf⟩ := Fueled.ends_ok_bind.mp hf
        exact Fueled.ends_ok_bind.mpr ⟨l', hrest _ hl', hf⟩
    | inr x =>
      have hx : ∀ r, (f x).Ends r → (g x).Ends r := fun r => h x r List.mem_cons_self
      cases r with
      | error e =>
        refine Fueled.ends_error_bind.mpr ?_
        rcases Fueled.ends_error_bind.mp hf with hf | ⟨l, hl, hf⟩
        · exact Or.inl (hx _ hf)
        · refine Or.inr ⟨l, hx _ hl, Fueled.ends_error_bind.mpr ?_⟩
          rcases Fueled.ends_error_bind.mp hf with hf | ⟨l', -, hf⟩
          · exact Or.inl (hrest _ hf)
          · cases hf
      | ok l =>
        obtain ⟨lx, hlx, hf⟩ := Fueled.ends_ok_bind.mp hf
        obtain ⟨l', hl', hf⟩ := Fueled.ends_ok_bind.mp hf
        refine Fueled.ends_ok_bind.mpr ⟨lx, hx _ hlx, ?_⟩
        exact Fueled.ends_ok_bind.mpr ⟨l', hrest _ hl', hf⟩

/-- Children that are given in two parts. -/
theorem gather_append (es es' : List (β ⊕ α)) :
    gather f (es ++ es') = (do
      let l ← gather f es
      let l' ← gather f es'
      pure (l ++ l')) := by
  induction es with
  | nil => simp [gather]
  | cons c es ih =>
    cases c with
    | inl b => simp [gather, ih]
    | inr x =>
      simp only [List.cons_append, gather, ih, bind_assoc, pure_bind, List.append_assoc]

end Gather

/-! ## The nodes of a graph -/

section Expand

variable [DecidableEq α] (children : α → List (β ⊕ α)) (loop : α → ε)

/-- Every link is followed, unless it leads back to a node on the way. -/
def expand : Nat → List α → α → Fueled ε (List β)
  | 0, _, _ => ExceptT.mk none
  | fuel + 1, seen, x =>
    if x ∈ seen then throw (loop x)
    else gather (expand fuel (seen ++ [x])) (children x)

/-- The nodes that a node has as children. -/
def Link (x y : α) : Prop := .inr y ∈ children x

/-- A cycle that a node leads to. -/
def LeadsToCycle (x : α) : Prop :=
  ∃ y, ReflTransGen (Link children) x y ∧ TransGen (Link children) y y

/-- The function gives each node that `x` leads to what it gives its children, in order. -/
def Unfolds (own : α → List β) (x : α) : Prop :=
  ∀ y, ReflTransGen (Link children) x y → own y = (children y).flatMap (contribution own)

variable {children loop}

/-- A node that is not on the way expands to its children. -/
theorem ends_expand_succ :
    (expand children loop (fuel + 1) seen x).Ends r ↔
      x ∈ seen ∧ r = .error (loop x) ∨
      x ∉ seen ∧ (gather (expand children loop fuel (seen ++ [x])) (children x)).Ends r := by
  rw [expand]
  split
  · next hx =>
    have hthrow : (throw (loop x) : Fueled ε (List β)).Ends r ↔ r = .error (loop x) :=
      ⟨fun h => (Option.some.inj h).symm, fun h => h ▸ rfl⟩
    simp [hx, hthrow]
  · next hx => simp [hx]

/-- More fuel does not change a result. -/
theorem expand_mono {fuel' : Nat} (hle : fuel ≤ fuel')
    (h : (expand children loop fuel seen x).Ends r) :
    (expand children loop fuel' seen x).Ends r := by
  induction fuel generalizing fuel' seen x r with
  | zero => cases h
  | succ fuel ih =>
    obtain ⟨k, rfl⟩ := Nat.exists_eq_add_of_le hle
    rw [Nat.add_right_comm] at hle ⊢
    rcases ends_expand_succ.mp h with h | ⟨hx, h⟩
    · exact ends_expand_succ.mpr (Or.inl h)
    · exact ends_expand_succ.mpr (Or.inr ⟨hx,
        gather_mono (fun y r _ hy => ih (Nat.le_add_right fuel k) hy) h⟩)

variable (loop) in
/-- **In a finite part of the graph that no link leaves `expand` finishes.** -/
theorem expand_ends (hclosed : ∀ x ∈ nodes, ∀ y, Link children x y → y ∈ nodes) (hx : x ∈ nodes)
    (hseen : seen ⊆ nodes) (hnodup : seen.Nodup) (hfuel : nodes.length < fuel + seen.length) :
    ∃ r, (expand children loop fuel seen x).Ends r := by
  induction fuel generalizing seen x with
  | zero =>
    -- the nodes on the way are distinct
    have hle : seen.length ≤ nodes.length := (List.subperm_of_subset hnodup hseen).length_le
    omega
  | succ fuel ih =>
    by_cases hmem : x ∈ seen
    · exact ⟨_, ends_expand_succ.mpr (Or.inl ⟨hmem, rfl⟩)⟩
    · have hnodup' : (seen ++ [x]).Nodup := by
        rw [List.nodup_append]
        refine ⟨hnodup, List.nodup_singleton x, ?_⟩
        rintro a ha b hb rfl
        exact hmem (List.mem_singleton.mp hb ▸ ha)
      have hseen' : seen ++ [x] ⊆ nodes :=
        List.append_subset.mpr ⟨hseen, by simpa using hx⟩
      have hchildren : ∀ y, .inr y ∈ children x →
          ∃ r, (expand children loop fuel (seen ++ [x]) y).Ends r := by
        intro y hy
        refine ih (hclosed x hx y hy) hseen' hnodup' ?_
        rw [List.length_append, List.length_singleton]
        omega
      obtain ⟨r, hr⟩ := gather_ends hchildren
      exact ⟨r, ends_expand_succ.mpr (Or.inr ⟨hmem, hr⟩)⟩

/-- **A failure names a node that is reached and lies on the way, or on a cycle.** -/
theorem expand_error {e : ε} (h : (expand children loop fuel seen x).Ends (.error e)) :
    ∃ y, e = loop y ∧ ReflTransGen (Link children) x y ∧
      (y ∈ seen ∨ TransGen (Link children) y y) := by
  induction fuel generalizing seen x with
  | zero => cases h
  | succ fuel ih =>
    rcases ends_expand_succ.mp h with ⟨hx, he⟩ | ⟨hx, h⟩
    · exact ⟨x, Except.error.inj he, .refl, Or.inl hx⟩
    · obtain ⟨z, hz, herror⟩ := error_of_gather h
      obtain ⟨y, he, hzy, hy⟩ := ih herror
      have hxy : TransGen (Link children) x y := .head' hz hzy
      refine ⟨y, he, hxy.to_reflTransGen, ?_⟩
      rcases hy with hy | hy
      · rcases List.mem_append.mp hy with hy | hy
        · exact Or.inl hy
        · rw [List.mem_singleton] at hy
          subst hy
          exact Or.inr hxy
      · exact Or.inr hy

/-- Links backwards from a node that has been expanded end. -/
theorem acc_of_expand (h : (expand children loop fuel seen x).Ends (.ok l)) :
    Acc (fun y x => Link children x y) x := by
  induction fuel generalizing seen x l with
  | zero => cases h
  | succ fuel ih =>
    rcases ends_expand_succ.mp h with ⟨-, he⟩ | ⟨-, h⟩
    · cases he
    · refine Acc.intro x fun y hy => ?_
      obtain ⟨l', hl'⟩ := ok_of_gather h hy
      exact ih hl'

omit [DecidableEq α] in
theorem not_leadsToCycle_of_acc (h : Acc (fun y x => Link children x y) x) :
    ¬ LeadsToCycle children x := by
  induction h with
  | intro x _ ih =>
    rintro ⟨y, hxy, hyy⟩
    rcases ReflTransGen.cases_head hxy with rfl | ⟨z, hz, hzy⟩
    · obtain ⟨z, hz, hzx⟩ := TransGen.head'_iff.mp hyy
      exact ih z hz ⟨x, hzx, hyy⟩
    · exact ih z hz ⟨y, hzy, hyy⟩

/-- The way to a node does not matter to what it expands to. -/
theorem expand_of_subset {seen' : List α} (hsub : seen' ⊆ seen)
    (h : (expand children loop fuel seen x).Ends (.ok l)) :
    (expand children loop fuel seen' x).Ends (.ok l) := by
  induction fuel generalizing seen seen' x l with
  | zero => cases h
  | succ fuel ih =>
    rcases ends_expand_succ.mp h with ⟨-, he⟩ | ⟨hx, h⟩
    · cases he
    · refine ends_expand_succ.mpr (Or.inr ⟨fun hmem => hx (hsub hmem), ?_⟩)
      have hsub' : seen' ++ [x] ⊆ seen ++ [x] :=
        List.append_subset.mpr ⟨fun a ha => List.mem_append_left _ (hsub ha), fun a ha =>
          List.mem_append_right _ ha⟩
      -- the children have succeeded, so each gives the same
      choose! own hown using fun y hy => ok_of_gather (x := y) h hy
      rw [h.unique (gather_of_ok hown)]
      exact gather_of_ok fun y hy => ih hsub' (hown y hy)

/-- **What a node expands to is what every solution of the equations gives it.** -/
theorem expand_eq_own {own : α → List β} (hown : Unfolds children own x)
    (h : (expand children loop fuel seen x).Ends (.ok l)) : l = own x := by
  induction fuel generalizing seen x l with
  | zero => cases h
  | succ fuel ih =>
    rcases ends_expand_succ.mp h with ⟨-, he⟩ | ⟨-, h⟩
    · cases he
    · rw [hown x .refl]
      refine Except.ok.inj (h.unique (gather_of_ok fun y hy => ?_))
      obtain ⟨l', hl'⟩ := ok_of_gather h hy
      have hy' : Unfolds children own y := fun z hz => hown z (.head hy hz)
      rw [← ih hy' hl']
      exact hl'

/-- **Without cycles the equations have a solution.** -/
theorem exists_unfolds (hclosed : ∀ x ∈ nodes, ∀ y, Link children x y → y ∈ nodes) (hx : x ∈ nodes)
    (hcycle : ¬ LeadsToCycle children x) : ∃ own, Unfolds children own x := by
  -- every node that is reached expands
  have hends : ∀ y, ReflTransGen (Link children) x y →
      ∃ l, (expand children (id : α → α) (nodes.length + 1) [] y).Ends (.ok l) := by
    intro y hxy
    have hy : y ∈ nodes := by
      induction hxy with
      | refl => exact hx
      | tail _ hlink ih => exact hclosed _ ih _ hlink
    obtain ⟨r, hr⟩ := expand_ends (id : α → α) hclosed hy (List.nil_subset _)
      List.nodup_nil (Nat.lt_succ_self nodes.length)
    cases r with
    | ok l => exact ⟨l, hr⟩
    | error e =>
      obtain ⟨z, -, hyz, hz⟩ := expand_error hr
      rcases hz with hz | hz
      · cases hz
      · exact absurd ⟨z, hxy.trans hyz, hz⟩ hcycle
  choose! own hown using hends
  refine ⟨own, fun y hxy => ?_⟩
  rcases ends_expand_succ.mp (hown y hxy) with ⟨-, he⟩ | ⟨-, h⟩
  · cases he
  · refine Except.ok.inj (h.unique (gather_of_ok fun z hz => ?_))
    obtain ⟨l, hl⟩ := ok_of_gather h hz
    have hmore := expand_mono (Nat.le_succ _) (expand_of_subset (List.nil_subset _) hl)
    rw [← Except.ok.inj (hmore.unique (hown z (hxy.tail hz)))]
    exact hl

variable (loop) in
/--
**The expansion of a finite graph.** It finishes; it fails if the node leads to a cycle and only
then; and otherwise it gives the solution of the equations.
-/
theorem expand_exact (hclosed : ∀ x ∈ nodes, ∀ y, Link children x y → y ∈ nodes) (hx : x ∈ nodes) :
    ∃ r : Except ε (List β),
      (∀ fuel, nodes.length < fuel → (expand children loop fuel [] x).Ends r) ∧
      ((∃ y, r = .error (loop y)) ↔ LeadsToCycle children x) ∧
      (¬ LeadsToCycle children x →
        (∃ own, Unfolds children own x) ∧ ∀ own, Unfolds children own x → r = .ok (own x)) := by
  obtain ⟨r, hr⟩ := expand_ends loop hclosed hx (List.nil_subset _) List.nodup_nil
    (Nat.lt_succ_self nodes.length)
  refine ⟨r, fun fuel hfuel => expand_mono hfuel hr, ⟨?_, ?_⟩, ?_⟩
  · rintro ⟨y, rfl⟩
    obtain ⟨z, -, hxz, hz⟩ := expand_error hr
    rcases hz with hz | hz
    · cases hz
    · exact ⟨z, hxz, hz⟩
  · intro hcycle
    cases r with
    | ok l => exact absurd hcycle (not_leadsToCycle_of_acc (acc_of_expand hr))
    | error e =>
      obtain ⟨y, rfl, -⟩ := expand_error hr
      exact ⟨y, rfl⟩
  · intro hcycle
    refine ⟨exists_unfolds hclosed hx hcycle, fun own hown => ?_⟩
    cases r with
    | ok l => rw [expand_eq_own hown hr]
    | error e =>
      obtain ⟨y, -, hxy, hy⟩ := expand_error hr
      rcases hy with hy | hy
      · cases hy
      · exact absurd ⟨y, hxy, hy⟩ hcycle

end Expand

end Infra

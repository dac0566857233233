import Tupelo.Consensus.Names

/-!
# The grammar of paths

`DecodePath` (`sdk/consensus/transactions.go`) takes a separator off the front, if there is one,
and splits the rest. A path is therefore its components joined by the separator, with or without
one more in front (`Spells`), and no list of components but one can be read from it.
-/

namespace Tupelo

open Infra

/-- What stands between the separators of a path. -/
def IsComponent (c : String) : Prop := c ≠ "" ∧ '/' ∉ c.toList

/-- The path is the components joined, perhaps after a separator. -/
def Spells (path : String) (components : List String) : Prop :=
  (∀ c ∈ components, IsComponent c) ∧
    (path = join components "/" ∨ path = "/" ++ join components "/")

/-! ## The separator in front -/

theorem trimPrefix_slash_append (s : String) : trimPrefix ("/" ++ s) "/" = s := by
  simp [trimPrefix, hasPrefix]

theorem trimPrefix_of_not_hasPrefix {s p : String} (h : hasPrefix s p = false) :
    trimPrefix s p = s := by
  simp [trimPrefix, h]

theorem exists_of_hasPrefix_slash {s : String} (h : hasPrefix s "/" = true) :
    ∃ rest, s = "/" ++ rest := by
  obtain ⟨rest, hrest⟩ := List.isPrefixOf_iff_prefix.mp h
  refine ⟨String.ofList rest, ?_⟩
  rw [← String.toList_inj, ← hrest]
  simp

variable {components : List String}

/-- Components joined do not begin with a separator. -/
theorem hasPrefix_join (h : ∀ c ∈ components, IsComponent c) :
    hasPrefix (join components "/") "/" = false := by
  match components, h with
  | [], _ => simp [hasPrefix, join]
  | c :: rest, h =>
    obtain ⟨hne, hslash⟩ := h c List.mem_cons_self
    obtain ⟨a, as, ha⟩ := List.exists_cons_of_ne_nil (mt String.toList_eq_nil_iff.mp hne)
    have hfirst : ∃ tail, (join (c :: rest) "/").toList = a :: tail := by
      unfold join
      rw [String.toList_intercalate, List.map_cons, ha]
      cases rest with
      | nil => exact ⟨as, by simp⟩
      | cons c' rest => exact ⟨_, by rw [List.map_cons, List.intercalate_cons_cons]; rfl⟩
    obtain ⟨tail, htail⟩ := hfirst
    have hne' : '/' ≠ a := fun heq => hslash (by rw [ha, heq]; exact List.mem_cons_self)
    unfold hasPrefix
    rw [htail]
    exact Bool.and_eq_false_iff.mpr (Or.inl (beq_eq_false_iff_ne.mpr hne'))

/-- What is left of a path without its separator in front. -/
theorem trimPrefix_eq_join_iff {path : String} (h : ∀ c ∈ components, IsComponent c) :
    trimPrefix path "/" = join components "/" ↔
      path = join components "/" ∨ path = "/" ++ join components "/" := by
  constructor
  · intro htrim
    cases hp : hasPrefix path "/" with
    | false => exact Or.inl (by rw [← htrim, trimPrefix_of_not_hasPrefix hp])
    | true =>
      obtain ⟨rest, rfl⟩ := exists_of_hasPrefix_slash hp
      exact Or.inr (by rw [← htrim, trimPrefix_slash_append])
  · rintro (rfl | rfl)
    · exact trimPrefix_of_not_hasPrefix (hasPrefix_join h)
    · exact trimPrefix_slash_append _

/-! ## What is read -/

theorem split_join_components (hne : components ≠ []) (h : ∀ c ∈ components, IsComponent c) :
    split (join components "/") '/' = components := split_join hne fun c hc => (h c hc).2

theorem join_eq_empty_iff (h : ∀ c ∈ components, IsComponent c) :
    join components "/" = "" ↔ components = [] := by
  constructor
  · intro hjoin
    match components, h with
    | [], _ => rfl
    | c :: rest, h =>
      have hsplit := split_join_components (List.cons_ne_nil c rest) h
      rw [hjoin, split_of_not_mem (by simp)] at hsplit
      have hc : c = "" := (List.cons.inj hsplit).1.symm
      exact absurd hc (h c List.mem_cons_self).1
  · rintro rfl
    simp [join]

/-- `DecodePath` by what is left of the path without a separator in front. -/
theorem decodePath_eq_ok_iff_trimmed {path : String} :
    decodePath path = .ok components ↔
      (∀ c ∈ components, IsComponent c) ∧ trimPrefix path "/" = join components "/" := by
  unfold decodePath
  dsimp only
  split
  · next hempty =>
    rw [hempty]
    constructor
    · intro h
      obtain rfl := Except.ok.inj h
      exact ⟨fun c hc => absurd hc List.not_mem_nil, by simp [join]⟩
    · rintro ⟨hall, hjoin⟩
      rw [(join_eq_empty_iff hall).mp hjoin.symm]
  · next hne =>
    split
    · next hany =>
      -- a component is empty, so the path is not spelled by components
      refine Iff.intro (fun h => by cases h) ?_
      rintro ⟨hall, hjoin⟩
      have hcs : components ≠ [] := fun hnil => hne (by rw [hjoin, hnil]; simp [join])
      rw [hjoin, split_join_components hcs hall] at hany
      obtain ⟨c, hc, hempty⟩ := List.any_eq_true.mp hany
      exact absurd (of_decide_eq_true hempty) (hall c hc).1
    · next hany =>
      constructor
      · intro h
        obtain rfl := Except.ok.inj h
        refine ⟨fun c hc => ⟨fun hempty => hany ?_, not_mem_of_mem_split hc⟩, join_split.symm⟩
        exact List.any_eq_true.mpr ⟨c, hc, decide_eq_true hempty⟩
      · rintro ⟨hall, hjoin⟩
        have hcs : components ≠ [] := fun hnil => hne (by rw [hjoin, hnil]; simp [join])
        rw [hjoin, split_join_components hcs hall]

theorem decodePath_eq_ok_iff {path : String} :
    decodePath path = .ok components ↔ Spells path components := by
  rw [decodePath_eq_ok_iff_trimmed]
  exact and_congr_right fun hall => trimPrefix_eq_join_iff hall

/-- The only error is that of a repeated separator, with the path as it was given. -/
theorem decodePath_cases (path : String) :
    (∃ components, decodePath path = .ok components) ∨
      decodePath path =
        .error (.error ("malformed path string containing repeated separator: " ++ path)) := by
  unfold decodePath
  dsimp only
  split
  · exact Or.inl ⟨_, rfl⟩
  · split
    · exact Or.inr rfl
    · exact Or.inl ⟨_, rfl⟩

/--
**`DecodePath` accepts exactly its grammar.**

The empty list is read from the empty path and from the separator alone, any other list from its
two spellings, and nothing from other paths. So joining is undone, and a path spells one list.
-/
theorem decodePath_grammar (path : String) :
    (decodePath path = .ok [] ↔ path = "" ∨ path = "/") ∧
    (∀ cs, cs ≠ [] → (decodePath path = .ok cs ↔
      (∀ c ∈ cs, c ≠ "" ∧ '/' ∉ c.toList) ∧
        (path = join cs "/" ∨ path = "/" ++ join cs "/"))) ∧
    ((¬ ∃ cs, Spells path cs) → decodePath path =
      .error (.error ("malformed path string containing repeated separator: " ++ path))) ∧
    (∀ cs, (∀ c ∈ cs, IsComponent c) →
      decodePath (join cs "/") = .ok cs ∧ decodePath ("/" ++ join cs "/") = .ok cs) ∧
    (∀ cs cs', Spells path cs → Spells path cs' → cs = cs') := by
  refine ⟨?_, fun cs _ => decodePath_eq_ok_iff, fun hnone => ?_, fun cs hall => ?_, ?_⟩
  · rw [decodePath_eq_ok_iff]
    simp [Spells, join]
  · rcases decodePath_cases path with ⟨cs, hcs⟩ | herr
    · exact absurd ⟨cs, decodePath_eq_ok_iff.mp hcs⟩ hnone
    · exact herr
  · exact ⟨decodePath_eq_ok_iff.mpr ⟨hall, Or.inl rfl⟩,
      decodePath_eq_ok_iff.mpr ⟨hall, Or.inr rfl⟩⟩
  · intro cs cs' h h'
    have hboth := (decodePath_eq_ok_iff.mpr h).symm.trans (decodePath_eq_ok_iff.mpr h')
    exact Except.ok.inj hboth

end Tupelo

import Tupelo.Infra.LastPart
import Tupelo.Consensus.TokenName

/-!
# The parts of a name

`TokenName.String` joins the DID and the local name by a colon, `TokenNameFromString` cuts at
the last colon. The one undoes the other for a local name without a colon, and for a string
with one.
-/

namespace Tupelo

open Infra

theorem mem_of_hasPrefix {s p : String} {c : Char} (h : hasPrefix s p = true)
    (hc : c ∈ p.toList) : c ∈ s.toList :=
  (List.isPrefixOf_iff_prefix.mp h).subset hc

/-! ## `strings.Split` and `strings.Join` -/

section Split

variable {s : String} {sep : Char}

theorem not_mem_of_mem_split {part : String} (h : part ∈ split s sep) : sep ∉ part.toList := by
  unfold split at h
  obtain ⟨l, hl, rfl⟩ := List.mem_map.mp h
  rw [String.toList_ofList]
  exact not_mem_of_mem_splitOn hl

/-- The last part has no separator in it. -/
theorem not_mem_getLastD_split : sep ∉ ((split s sep).getLastD "").toList := by
  have hne : split s sep ≠ [] := by simp [split]
  rw [List.getLastD_eq_getLast?, List.getLast?_eq_getLast_of_ne_nil hne]
  exact not_mem_of_mem_split (List.getLast_mem hne)

theorem split_of_not_mem (h : sep ∉ s.toList) : split s sep = [s] := by
  unfold split
  rw [splitOn_of_not_mem h]
  simp

theorem join_split : join (split s sep) (String.singleton sep) = s := by
  rw [← String.toList_inj]
  unfold join split
  rw [String.toList_intercalate, List.map_map]
  simp [Function.comp_def, List.intercalate_splitOn]

theorem split_join {components : List String} (hne : components ≠ [])
    (h : ∀ c ∈ components, sep ∉ c.toList) :
    split (join components (String.singleton sep)) sep = components := by
  have hmap : ∀ l ∈ components.map String.toList, sep ∉ l := by
    intro l hl
    obtain ⟨c, hc, rfl⟩ := List.mem_map.mp hl
    exact h c hc
  have hne' : components.map String.toList ≠ [] := by simpa using hne
  unfold split join
  rw [String.toList_intercalate, String.toList_singleton, List.splitOn_intercalate sep hmap hne',
    List.map_map]
  simp [Function.comp_def]

end Split

/-! ## `TokenName` -/

theorem TokenName.toList_string (tn : TokenName) :
    tn.string.toList = tn.chainTreeDID.toList ++ ':' :: tn.localName.toList := by
  simp [TokenName.string, join]

theorem colon_mem_string (tn : TokenName) : ':' ∈ tn.string.toList := by
  simp [tn.toList_string]

theorem TokenName.split_string {tn : TokenName} (h : ':' ∉ tn.localName.toList) :
    split tn.string ':' = split tn.chainTreeDID ':' ++ [tn.localName] := by
  unfold split
  rw [tn.toList_string, splitOn_append_last h]
  simp

/-- A local name without a colon is found again. -/
theorem tokenNameFromString_string {tn : TokenName} (h : ':' ∉ tn.localName.toList) :
    tokenNameFromString tn.string = tn := by
  unfold tokenNameFromString
  simp only [TokenName.split_string h, List.dropLast_concat, List.getLastD_concat]
  exact congrArg (TokenName.mk · _) join_split

/-- So is a string with a colon. -/
theorem string_tokenNameFromString {s : String} (h : ':' ∈ s.toList) :
    (tokenNameFromString s).string = s := by
  obtain ⟨a, b, hs, hb⟩ := exists_last_of_mem h
  have hstring : s = TokenName.string ⟨String.ofList a, String.ofList b⟩ := by
    rw [← String.toList_inj, TokenName.toList_string, hs]
    simp
  rw [hstring, tokenNameFromString_string (by simpa using hb)]

theorem tokenNameFromString_of_not_mem {s : String} (h : ':' ∉ s.toList) :
    tokenNameFromString s = ⟨"", s⟩ := by
  unfold tokenNameFromString
  rw [split_of_not_mem h]
  rfl

/-- The local name of a key never has a colon. -/
theorem not_mem_localName (s : String) : ':' ∉ (tokenNameFromString s).localName.toList :=
  not_mem_getLastD_split

end Tupelo

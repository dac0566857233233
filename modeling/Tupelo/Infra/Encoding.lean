import Mathlib.Data.List.Basic
import Tupelo.Infra.Uvarint

/-!
# Self-delimiting encodings

An encoding into bytes is self-delimiting when a value can be read off the front of any
byte string that starts with its code. Such encodings concatenate: fields written one after
the other can be told apart again. They are used here to build content addresses that are
injective.
-/

namespace Infra

/-- The code of `x` determines `x`, whatever follows it. -/
def SelfDelimiting {α : Type} (enc : α → Bytes) : Prop :=
  ∀ x y r s, enc x ++ r = enc y ++ s → x = y ∧ r = s

/-- A number as a varint. -/
def encNat (n : Nat) : Bytes := uvarintBytes (n + 1) n

def encByte (b : UInt8) : Bytes := [b]

/-- The length, then the elements. -/
def encList {α : Type} (enc : α → Bytes) (l : List α) : Bytes := encNat l.length ++ l.flatMap enc

def encBytes : Bytes → Bytes := encList encByte

theorem SelfDelimiting.injective {α : Type} {enc : α → Bytes} (h : SelfDelimiting enc) :
    Function.Injective enc := by
  intro x y hxy
  exact (h x y [] [] (by rw [hxy])).1

theorem selfDelimiting_encNat : SelfDelimiting encNat := by
  intro x y r s h
  have hx : uvarint (encNat x ++ r) = some x := uvarint_uvarintBytes r (Nat.lt_succ_self x)
  rw [h, encNat, uvarint_uvarintBytes s (Nat.lt_succ_self y)] at hx
  obtain rfl := Option.some.inj hx
  exact ⟨rfl, List.append_cancel_left h⟩

theorem selfDelimiting_encByte : SelfDelimiting encByte := by
  intro x y r s h
  simpa [encByte] using h

/-- Elements of equally long lists can be read off one by one. -/
theorem flatMap_inj {α : Type} {enc : α → Bytes} (h : SelfDelimiting enc) :
    ∀ (l m : List α) (r s : Bytes), l.length = m.length →
      l.flatMap enc ++ r = m.flatMap enc ++ s → l = m ∧ r = s
  | [], [], r, s, _, he => ⟨rfl, by simpa using he⟩
  | x :: l, y :: m, r, s, hlen, he => by
    simp only [List.flatMap_cons, List.append_assoc] at he
    obtain ⟨hxy, hrest⟩ := h x y _ _ he
    obtain ⟨hlm, hrs⟩ := flatMap_inj h l m r s (by simpa using hlen) hrest
    exact ⟨by rw [hxy, hlm], hrs⟩

theorem SelfDelimiting.encList {α : Type} {enc : α → Bytes} (h : SelfDelimiting enc) :
    SelfDelimiting (encList enc) := by
  intro l m r s he
  simp only [Infra.encList, List.append_assoc] at he
  obtain ⟨hlen, hrest⟩ := selfDelimiting_encNat _ _ _ _ he
  exact flatMap_inj h l m r s hlen hrest

theorem selfDelimiting_encBytes : SelfDelimiting encBytes := selfDelimiting_encByte.encList

/-- A number that is that of a character. -/
theorem toNat_charOfNat {n : Nat} (h : n.isValidChar) : (Char.ofNat n).toNat = n := by
  unfold Char.ofNat
  rw [dif_pos h]
  rfl

end Infra

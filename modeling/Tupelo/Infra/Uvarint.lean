import Mathlib.Tactic.Ring

/-!
# Unsigned varints

Seven bits a byte, the lowest first, the top bit set on every byte but the last. The decoder
stops at the last byte, so whatever follows it in a buffer is ignored.
-/

namespace Infra

abbrev Bytes := List UInt8

instance : LawfulBEq Bytes := inferInstance

/-- The bytes of `x`, at most `fuel` of them. -/
def uvarintBytes : (fuel : Nat) → Nat → Bytes
  | 0, _ => []
  | fuel + 1, x =>
    if x < 128 then [x.toUInt8] else (x % 128 + 128).toUInt8 :: uvarintBytes fuel (x / 128)

/-- `PutUvarint` into a buffer of `size` zero bytes. -/
def putUvarint (size x : Nat) : Bytes :=
  let bytes := uvarintBytes (x + 1) x
  bytes ++ List.replicate (size - bytes.length) 0

/-- `Uvarint`: the number at the start of the buffer, if one ends in it. -/
def uvarint : Bytes → Option Nat
  | [] => none
  | b :: rest =>
    if b.toNat < 128 then some b.toNat
    else (uvarint rest).map fun x => b.toNat - 128 + 128 * x

theorem uvarint_uvarintBytes (rest : Bytes) : ∀ {fuel x : Nat}, x < fuel →
    uvarint (uvarintBytes fuel x ++ rest) = some x
  | fuel + 1, x, h => by
    rw [uvarintBytes]
    by_cases hx : x < 128
    · have hb : x.toUInt8.toNat = x := by
        rw [Nat.toUInt8, UInt8.toNat_ofNat']
        omega
      rw [if_pos hx, List.singleton_append, uvarint, hb, if_pos hx]
    · have hb : (x % 128 + 128).toUInt8.toNat = x % 128 + 128 := by
        rw [Nat.toUInt8, UInt8.toNat_ofNat']
        omega
      have ih : uvarint (uvarintBytes fuel (x / 128) ++ rest) = some (x / 128) :=
        uvarint_uvarintBytes rest (by omega)
      rw [if_neg hx, List.cons_append, uvarint, hb, if_neg (by omega), ih, Option.map_some,
        Option.some.injEq]
      omega

/-- **Decoding gives back what was encoded.** -/
@[simp] theorem uvarint_putUvarint (size x : Nat) : uvarint (putUvarint size x) = some x :=
  uvarint_uvarintBytes _ (Nat.lt_succ_self x)

end Infra

import Mathlib.Data.List.Lex
import Mathlib.Data.List.Sort
import Tupelo.Ipld

/-!
# A content addressing that computes

`Ipld.inFull` writes the entries of a HAMT in an order that exists but cannot be computed, so a
run in which a state is read back from its CID cannot be evaluated with it. Here the entries are
sorted. Nothing is proved with this address that does not hold for every faithful one; it is for
concrete runs in which signers are started again.
-/

namespace Tupelo

open Infra

/-- The code of an entry, as numbers: lists of these are ordered. -/
def entryCode (e : (_ : Bytes) × Cid) : List Nat := (encEntry e).map UInt8.toNat

theorem entryCode_injective : Function.Injective entryCode := by
  intro e e' h
  have hbytes : encEntry e = encEntry e' :=
    List.map_injective_iff.mpr (fun _ _ hb => UInt8.toNat_inj.mp hb) h
  exact selfDelimiting_encEntry.injective hbytes

def entryLe (e e' : (_ : Bytes) × Cid) : Prop := entryCode e ≤ entryCode e'

instance : DecidableRel entryLe := fun e e' =>
  inferInstanceAs (Decidable (entryCode e ≤ entryCode e'))

instance : Std.Total entryLe := ⟨fun e e' => le_total (entryCode e) (entryCode e')⟩

instance : IsTrans _ entryLe := ⟨fun _ _ _ h h' => le_trans (α := List Nat) h h'⟩

/-- Sorting forgets the order in which the entries were given. -/
theorem insertionSort_eq_of_perm {l l' : List ((_ : Bytes) × Cid)} (h : l.Perm l') :
    l.insertionSort entryLe = l'.insertionSort entryLe := by
  refine @List.Perm.eq_of_pairwise _ entryLe _ _ ?_ (List.pairwise_insertionSort entryLe l)
    (List.pairwise_insertionSort entryLe l') ?_
  · exact fun e e' _ _ hle hge => entryCode_injective (le_antisymm hle hge)
  · exact ((List.perm_insertionSort entryLe l).trans h).trans
      (List.perm_insertionSort entryLe l').symm

/-- The entries of a HAMT, sorted. -/
def sortedEntries (h : Hamt) : List ((_ : Bytes) × Cid) :=
  Quot.liftOn h.entries (·.insertionSort entryLe) fun _ _ => insertionSort_eq_of_perm

theorem coe_sortedEntries (h : Hamt) : (sortedEntries h : Multiset _) = h.entries := by
  unfold sortedEntries
  induction h.entries using Quot.ind with
  | mk l => exact Multiset.coe_eq_coe.mpr (List.perm_insertionSort entryLe l)

theorem sortedEntries_injective : Function.Injective sortedEntries := by
  intro h h' heq
  refine Finmap.ext ?_
  rw [← coe_sortedEntries h, ← coe_sortedEntries h', heq]

def encSorted : DagNode → Bytes
  | .null => [4]
  | .addBlockRequest abr => 0 :: encAddBlockRequest abr
  | .checkpoint cp => 1 :: encCheckpoint cp
  | .round r => 2 :: encRound r
  | .hamt h => 3 :: encList encEntry (sortedEntries h)
  | .obj o => 5 :: encObj encCid o

theorem encSorted_injective : Function.Injective encSorted := by
  intro x y h
  cases x <;> cases y <;> simp only [encSorted, List.cons.injEq] at h
  case null.null => rfl
  case addBlockRequest.addBlockRequest => rw [encAddBlockRequest_injective h.2]
  case checkpoint.checkpoint => rw [encCheckpoint_injective h.2]
  case round.round => rw [encRound_injective h.2]
  case hamt.hamt => rw [sortedEntries_injective (selfDelimiting_encEntry.encList.injective h.2)]
  case obj.obj => rw [(selfDelimiting_encObj selfDelimiting_encCid).injective h.2]
  all_goals exact absurd h.1 (by decide)

/-- As `Ipld.inFull`, with the entries of a HAMT sorted. -/
def Ipld.sorted : Ipld where
  cidOf x := ⟨encSorted x⟩
  isCid b := !b.isEmpty
  cidString c := String.ofList (c.bytes.map fun b => Char.ofNat b.toNat)

theorem Ipld.sorted_faithful : Ipld.sorted.Faithful where
  injective := fun x y h => encSorted_injective (by simpa [Ipld.sorted] using h)
  isCid_cidOf := fun x => by cases x <;> rfl
  isCid_nil := rfl

end Tupelo

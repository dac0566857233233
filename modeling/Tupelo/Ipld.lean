import Tupelo.Infra.ObjEncoding
import Tupelo.Messages

/-!
# Content addressing

go-cid and go-ipld-cbor are not part of the repository. What the program uses of them is the
structure `Ipld`: the CID of a node, which byte strings `cid.Cast` accepts and how a CID is
printed. `Ipld.Faithful` collects what is documented of both.

A node is decoded by `cbornode.DecodeInto` into the type the caller expects. Decoding a node
of another kind fails, since the CBOR maps of two kinds do not have the same keys.
-/

namespace Tupelo

open Infra

/-- The content addressing the program is run with. -/
structure Ipld where
  /-- `sw.WrapObject(x).Cid()`, and `hamtStore.Put(x)` without the storing. -/
  cidOf : DagNode → Cid
  /-- The byte strings that are CIDs. -/
  isCid : Bytes → Bool
  /-- `Cid.String`. -/
  cidString : Cid → String

namespace Ipld

/-- `cid.Cast`. The CID it returns has the bytes it was given. -/
def cast (L : Ipld) (b : Bytes) : Except Fault Cid :=
  if L.isCid b then .ok ⟨b⟩ else .error (.error "error casting CID")

/-- Distinct nodes have distinct CIDs; a CID casts back from its bytes; no bytes are no CID. -/
structure Faithful (L : Ipld) : Prop where
  injective : Function.Injective L.cidOf
  isCid_cidOf : ∀ x, L.isCid (L.cidOf x).bytes = true
  isCid_nil : L.isCid [] = false

theorem cast_ok {L : Ipld} {b : Bytes} {c : Cid} (h : L.cast b = .ok c) : c.bytes = b := by
  unfold cast at h
  split at h
  · rw [← Except.ok.inj h]
  · cases h

/-- Casting forgets nothing. -/
theorem cast_inj {L : Ipld} {b b' : Bytes} {c : Cid} (h : L.cast b = .ok c)
    (h' : L.cast b' = .ok c) : b = b' := by
  rw [← cast_ok h, cast_ok h']

@[simp] theorem Faithful.cast_cidOf {L : Ipld} (hL : L.Faithful) (x : DagNode) :
    L.cast (L.cidOf x).bytes = .ok (L.cidOf x) := by
  unfold cast
  rw [if_pos (hL.isCid_cidOf x)]

theorem Faithful.cidOf_ne_undef {L : Ipld} (hL : L.Faithful) (x : DagNode) :
    L.cidOf x ≠ Cid.undef := by
  intro h
  have hx := hL.isCid_cidOf x
  rw [h] at hx
  rw [show Cid.undef.bytes = [] from rfl, hL.isCid_nil] at hx
  cases hx

end Ipld

/-! ## Reading a node as what it should be -/

def DagNode.asRound : DagNode → Except Fault Round
  | .round r => .ok r
  | _ => .error (.error "error decoding")

def DagNode.asCheckpoint : DagNode → Except Fault Checkpoint
  | .checkpoint cp => .ok cp
  | _ => .error (.error "error decoding")

def DagNode.asAddBlockRequest : DagNode → Except Fault AddBlockRequest
  | .addBlockRequest abr => .ok abr
  | _ => .error (.error "error getting abr")

def DagNode.asHamt : DagNode → Except Fault Hamt
  | .hamt h => .ok h
  | _ => .error (.error "error loading hamt")

/-! ## A DAG store -/

/-- `nodestore.DagStore`, by what its `Get` returns. -/
abbrev DagStore := Cid → Option DagNode

/-- `store.Get`. -/
def DagStore.get (s : DagStore) (c : Cid) : Except Fault DagNode :=
  match s c with
  | some x => .ok x
  | none => .error (.error "ipld: node not found")

/-- `store.Add`, and `hamtStore.Put`. -/
def DagStore.add (L : Ipld) (s : DagStore) (x : DagNode) : DagStore :=
  Function.update s (L.cidOf x) (some x)

/-- Every node of the store is kept under its own CID. -/
def DagStore.Addressed (L : Ipld) (s : DagStore) : Prop := ∀ c x, s c = some x → L.cidOf x = c

theorem DagStore.addressed_add {L : Ipld} {s : DagStore} (h : s.Addressed L) (x : DagNode) :
    (s.add L x).Addressed L := by
  intro c y hy
  unfold DagStore.add at hy
  by_cases hc : c = L.cidOf x
  · subst hc
    rw [Function.update_self] at hy
    rw [← Option.some.inj hy]
  · rw [Function.update_of_ne hc] at hy
    exact h c y hy

@[simp] theorem DagStore.add_self (L : Ipld) (s : DagStore) (x : DagNode) :
    s.add L x (L.cidOf x) = some x := Function.update_self ..

/-- Adding a node changes nothing that was there. -/
theorem DagStore.add_of_mem {L : Ipld} (hL : L.Faithful) {s : DagStore} (hs : s.Addressed L)
    (x : DagNode) {c : Cid} {y : DagNode} (h : s c = some y) : s.add L x c = some y := by
  by_cases hc : c = L.cidOf x
  · have hxy : y = x := hL.injective (by rw [hs c y h, hc])
    rw [hc, hxy, DagStore.add_self]
  · unfold DagStore.add
    rw [Function.update_of_ne hc, h]

/-! ## A content addressing that is faithful

Writing the fields one after the other, each self-delimiting, is an injective address. It
shows that the assumptions hold together, and gives concrete runs an address to compute with.
-/

def encCheckpoint (cp : Checkpoint) : Bytes :=
  encNat cp.height ++ encList encBytes cp.addBlockRequests

def encRound (r : Round) : Bytes :=
  encNat r.height ++ (encBytes r.stateCid ++ encBytes r.checkpointCid)

def encAddBlockRequest (a : AddBlockRequest) : Bytes :=
  encBytes a.objectId ++ (encBytes a.previousTip ++ (encBytes a.newTip ++
    (encNat a.height.toNat ++ (encBytes a.payload ++ encList encBytes a.state))))

def encEntry (e : (_ : Bytes) × Cid) : Bytes := encBytes e.1 ++ encBytes e.2.bytes

/-- The entries of a HAMT in some order, the same for equal maps. -/
noncomputable def encHamt (h : Hamt) : Bytes := encList encEntry h.entries.toList

def encCid (c : Cid) : Bytes := encBytes c.bytes

noncomputable def encNode : DagNode → Bytes
  | .null => [4]
  | .addBlockRequest abr => 0 :: encAddBlockRequest abr
  | .checkpoint cp => 1 :: encCheckpoint cp
  | .round r => 2 :: encRound r
  | .hamt h => 3 :: encHamt h
  | .obj o => 5 :: encObj encCid o

/-- The checkpoint that names the requests. -/
def Ipld.naming (L : Ipld) (height : Nat) (abrs : List AddBlockRequest) : Checkpoint :=
  { height, addBlockRequests := abrs.map fun a => (L.cidOf (.addBlockRequest a)).bytes }

/-- Every field in full is a CID, and every non-empty byte string casts. -/
noncomputable def Ipld.inFull : Ipld where
  cidOf x := ⟨encNode x⟩
  isCid b := !b.isEmpty
  cidString c := String.ofList (c.bytes.map fun b => Char.ofNat b.toNat)

theorem selfDelimiting_encEntry : SelfDelimiting encEntry := by
  rintro ⟨k, ⟨c⟩⟩ ⟨k', ⟨c'⟩⟩ r s he
  simp only [encEntry, List.append_assoc] at he
  obtain ⟨hk, he'⟩ := selfDelimiting_encBytes _ _ _ _ he
  obtain ⟨hc, hrs⟩ := selfDelimiting_encBytes _ _ _ _ he'
  subst hk hc
  exact ⟨rfl, hrs⟩

theorem encCheckpoint_injective : Function.Injective encCheckpoint := by
  rintro ⟨h, l⟩ ⟨h', l'⟩ he
  obtain ⟨h1, he⟩ := selfDelimiting_encNat _ _ _ _ he
  have h2 := selfDelimiting_encBytes.encList.injective he
  subst h1 h2
  rfl

theorem encRound_injective : Function.Injective encRound := by
  rintro ⟨h, s, c⟩ ⟨h', s', c'⟩ he
  obtain ⟨h1, he⟩ := selfDelimiting_encNat _ _ _ _ he
  obtain ⟨h2, he⟩ := selfDelimiting_encBytes _ _ _ _ he
  have h3 := selfDelimiting_encBytes.injective he
  subst h1 h2 h3
  rfl

theorem encAddBlockRequest_injective : Function.Injective encAddBlockRequest := by
  rintro ⟨o, p, t, h, b, l⟩ ⟨o', p', t', h', b', l'⟩ he
  obtain ⟨h1, he⟩ := selfDelimiting_encBytes _ _ _ _ he
  obtain ⟨h2, he⟩ := selfDelimiting_encBytes _ _ _ _ he
  obtain ⟨h3, he⟩ := selfDelimiting_encBytes _ _ _ _ he
  obtain ⟨h4, he⟩ := selfDelimiting_encNat _ _ _ _ he
  obtain ⟨h5, he⟩ := selfDelimiting_encBytes _ _ _ _ he
  have h6 := selfDelimiting_encBytes.encList.injective he
  have h4' : h = h' := UInt64.toNat_inj.mp h4
  subst h1 h2 h3 h4' h5 h6
  rfl

theorem encHamt_injective : Function.Injective encHamt := by
  intro h h' he
  have hl : h.entries.toList = h'.entries.toList := selfDelimiting_encEntry.encList.injective he
  refine Finmap.ext ?_
  rw [← Multiset.coe_toList h.entries, ← Multiset.coe_toList h'.entries, hl]

theorem selfDelimiting_encCid : SelfDelimiting encCid := by
  rintro ⟨b⟩ ⟨b'⟩ r s he
  obtain ⟨hb, hrs⟩ := selfDelimiting_encBytes _ _ _ _ he
  exact ⟨congrArg Cid.mk hb, hrs⟩

theorem encNode_injective : Function.Injective encNode := by
  intro x y h
  cases x <;> cases y <;> simp only [encNode, List.cons.injEq] at h
  case null.null => rfl
  case addBlockRequest.addBlockRequest => rw [encAddBlockRequest_injective h.2]
  case checkpoint.checkpoint => rw [encCheckpoint_injective h.2]
  case round.round => rw [encRound_injective h.2]
  case hamt.hamt => rw [encHamt_injective h.2]
  case obj.obj => rw [(selfDelimiting_encObj selfDelimiting_encCid).injective h.2]
  all_goals exact absurd h.1 (by decide)

theorem Ipld.inFull_faithful : Ipld.inFull.Faithful where
  injective := fun x y h => encNode_injective (by simpa [Ipld.inFull] using h)
  isCid_cidOf := fun x => by cases x <;> rfl
  isCid_nil := rfl

theorem Ipld.inFull_cidString_injective : Function.Injective Ipld.inFull.cidString := by
  intro c c' h
  have hchars : c.bytes.map (fun b => Char.ofNat b.toNat) =
      c'.bytes.map fun b => Char.ofNat b.toNat := by
    have h' := congrArg String.toList h
    simpa [Ipld.inFull] using h'
  refine Cid.ext (List.map_injective_iff.mpr ?_ hchars)
  have hchar : ∀ b : UInt8, (Char.ofNat b.toNat).toNat = b.toNat := fun b =>
    toNat_charOfNat (Or.inl (Nat.lt_trans b.toNat_lt (by decide)))
  intro b b' hb
  rw [← UInt8.toNat_inj, ← hchar b, ← hchar b']
  exact congrArg Char.toNat hb

end Tupelo

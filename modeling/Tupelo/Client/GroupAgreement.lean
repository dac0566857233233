import Mathlib.Data.Set.Function
import Tupelo.Client.GroupInvariant

/-!
# The groups that everyone builds

No message carries a notary group. A signer and a client each have a configuration file and build
their group from it (`Config.NotaryGroup`, `sdk/gossip/types/config.go`): the signer adds itself
first and skips its own entry of the list, which it knows by the destination key; a client has no
local signer. The files may list the signers in different orders.

A vector of signers has a meaning only if all of them arrive at the same indices. They do, if the
file lists every signer once: the groups have one sorted slice, one list of verification keys and
one quorum, and a node that looks for its key (`NewNode`) finds the place where everyone else
reads it. So the confirmations that a quorum of signers make, each with the group it has built
itself, are put together by a client with its own group.
-/

namespace Tupelo

open Infra

variable {C : Crypto} {K : Type}

/-! ## Groups that are alike -/

namespace NotaryGroup

variable {id id' : String} {signers signers' : List (Signer C)}

/-- Nothing that is made of the signers of the two groups differs. -/
structure Alike (ng ng' : NotaryGroup C) : Prop where
  sortedIds : ng.sortedIds = ng'.sortedIds
  allSigners : ng.allSigners = ng'.allSigners
  size : ng.signers.keys.length = ng'.signers.keys.length

namespace Alike

variable {ng ng' : NotaryGroup C} (h : ng.Alike ng')

include h

theorem verKeys : ng.verKeys = ng'.verKeys := by
  rw [NotaryGroup.verKeys, NotaryGroup.verKeys, h.allSigners]

theorem quorumCount : ng.quorumCount = ng'.quorumCount := by
  rw [NotaryGroup.quorumCount, NotaryGroup.quorumCount, h.sortedIds]

/-- A node of the one group signs as it would as a node of the other. -/
theorem newNodeEnv (L : Ipld) (signKey : SignKey C) :
    newNodeEnv L ng signKey = Tupelo.newNodeEnv L ng' signKey := by
  unfold Tupelo.newNodeEnv
  rw [h.allSigners, h.size]

theorem confirmationOf {L : Ipld} {completed : Round} {signKey : SignKey C} {d : Delivery} :
    d.ConfirmationOf L ng completed signKey ↔ d.ConfirmationOf L ng' completed signKey := by
  unfold Delivery.ConfirmationOf
  rw [h.newNodeEnv]

end Alike

/-- With distinct ids no signer is overwritten in the map. -/
theorem lookup_ofSigners (hnd : (signers.map (·.id)).Nodup) {signer : Signer C}
    (hmem : signer ∈ signers) : (ofSigners id signers).signers.lookup signer.id = some signer := by
  induction signers using List.reverseRecOn with
  | nil => cases hmem
  | append_singleton signers last ih =>
    have hfold : ofSigners id (signers ++ [last]) = (ofSigners id signers).addSigner last :=
      List.foldl_concat ..
    rw [List.map_append, List.nodup_append] at hnd
    obtain ⟨hnd, -, hlast⟩ := hnd
    rw [hfold, addSigner]
    rcases List.mem_append.mp hmem with hold | hnew
    · have hne : signer.id ≠ last.id := hlast _ (List.mem_map_of_mem hold) _ (by simp)
      rw [AList.lookup_insert_ne hne, ih hnd hold]
    · rw [List.mem_singleton.mp hnew, AList.lookup_insert]

/-- With distinct ids the signers stand in the group as if they had been sorted by their ids. -/
theorem exists_sorted (id : String) (hnd : (signers.map (·.id)).Nodup) :
    ∃ sorted : List (Signer C), sorted.Perm signers ∧
      (ofSigners id signers).sortedIds = sorted.map (·.id) ∧
      (ofSigners id signers).verKeys = .ok (sorted.map (·.verKey)) := by
  have h := added_ofSigners id signers
  let sorted := signers.insertionSort fun s s' => s.id ≤ s'.id
  have hperm : sorted.Perm signers := List.perm_insertionSort _ _
  have hids : (ofSigners id signers).sortedIds = sorted.map (·.id) := by
    refine (h.perm.trans (hperm.map _).symm).eq_of_pairwise' h.sorted ?_
    rw [List.pairwise_map]
    exact List.pairwise_insertionSort (fun s s' : Signer C => s.id ≤ s'.id) _
  have hall : (ofSigners id signers).allSigners = sorted.map some := by
    rw [allSigners, hids, List.map_map]
    exact List.map_congr_left fun s hs => lookup_ofSigners hnd (hperm.mem_iff.mp hs)
  refine ⟨sorted, hperm, hids, ?_⟩
  rw [verKeys, hall, List.mapM_map]
  exact List.mapM_pure

/-- The order in which signers are added does not matter, if no id is added twice. -/
theorem alike_of_perm (hperm : signers.Perm signers') (hnd : (signers.map (·.id)).Nodup) :
    (ofSigners id signers).Alike (ofSigners id' signers') := by
  have hnd' : (signers'.map (·.id)).Nodup := (hperm.map _).nodup_iff.mp hnd
  have h := added_ofSigners id signers
  have h' := added_ofSigners id' signers'
  have hids : (ofSigners id signers).sortedIds = (ofSigners id' signers').sortedIds :=
    (h.perm.trans ((hperm.map _).trans h'.perm.symm)).eq_of_pairwise' h.sorted h'.sorted
  refine ⟨hids, ?_, ?_⟩
  · rw [allSigners, allSigners, ← hids]
    refine List.map_congr_left fun i hi => ?_
    obtain ⟨signer, hsigner, rfl⟩ := List.mem_map.mp (h.perm.mem_iff.mp hi)
    rw [lookup_ofSigners hnd hsigner, lookup_ofSigners hnd' (hperm.mem_iff.mp hsigner)]
  · rw [← h.size_eq_iff.mpr hnd, ← h'.size_eq_iff.mpr hnd', size, size, hids]

end NotaryGroup

/-! ## Configurations -/

/-- `NewLocalSigner`. -/
def newLocalSigner (address : Bytes → String) (signKey : SignKey C) : Signer C :=
  { id := address signKey.verKey.value, verKey := signKey.verKey }

/-- The configuration lists somebody, and nobody twice. -/
structure Config.Distinct (address : Bytes → String) (c : Config C K) : Prop where
  nonempty : c.signers ≠ []
  ids : (c.signers.map fun keySet => address keySet.verKey.value).Nodup
  destKeys : (c.signers.map (·.destKey)).Nodup

/-- A signer: its copy of the configuration and its two keys. -/
structure ConfiguredSigner (C : Crypto) (K : Type) where
  config : Config C K
  signKey : SignKey C
  destKey : K

/-- The copy lists the same signers in whatever order, and this one is listed with its keys. -/
structure ConfiguredSigner.Of (s : ConfiguredSigner C K) (c : Config C K) : Prop where
  perm : s.config.signers.Perm c.signers
  listed : ⟨s.signKey.verKey, s.destKey⟩ ∈ c.signers

section Configured

variable [DecidableEq K] {address : Bytes → String} {c : Config C K}

def ConfiguredSigner.group (address : Bytes → String) (s : ConfiguredSigner C K) : NotaryGroup C :=
  s.config.notaryGroup address (some (newLocalSigner address s.signKey, s.destKey))

namespace Config

/-- Without a local signer, those of the list. -/
theorem members_none :
    c.members address none = c.signers.map fun keySet => newRemoteSigner address keySet.verKey := by
  simp [members]

/-- A local signer that is listed takes the place of its entry. -/
theorem members_some_perm (hdest : (c.signers.map (·.destKey)).Nodup) {signKey : SignKey C}
    {destKey : K} (hmem : ⟨signKey.verKey, destKey⟩ ∈ c.signers) :
    (c.members address (some (newLocalSigner address signKey, destKey))).Perm
      (c.members address none) := by
  obtain ⟨before, after, hsplit⟩ := List.append_of_mem hmem
  rw [members_none, members, hsplit]
  rw [hsplit, List.map_append, List.map_cons, List.nodup_middle, List.nodup_cons,
    ← List.map_append] at hdest
  -- only its own entry has its destination key
  have hskip : (before ++ after).filter (fun keySet => some destKey ≠ some keySet.destKey) =
      before ++ after := by
    rw [List.filter_eq_self]
    intro keySet hkeySet
    refine decide_eq_true fun heq => hdest.1 ?_
    exact List.mem_map.mpr ⟨keySet, hkeySet, (Option.some.inj heq).symm⟩
  have hrest : ((before ++ ⟨signKey.verKey, destKey⟩ :: after).filter
      fun keySet => some destKey ≠ some keySet.destKey).Perm (before ++ after) := by
    refine (List.perm_middle.filter _).trans ?_
    rw [List.filter_cons_of_neg (by simp), hskip]
  refine ((hrest.map _).cons _).trans ?_
  simpa [newLocalSigner, newRemoteSigner] using List.perm_middle.symm

theorem Distinct.ids_members (hc : c.Distinct address) :
    ((c.members address none).map (·.id)).Nodup := by
  rw [members_none, List.map_map]
  exact hc.ids

/-- **Every signer builds the group that a client builds.** -/
theorem Distinct.alike (hc : c.Distinct address) {s : ConfiguredSigner C K} (hs : s.Of c) :
    (c.notaryGroup address none).Alike (s.group address) := by
  have hdest : (s.config.signers.map (·.destKey)).Nodup :=
    (hs.perm.map _).nodup_iff.mpr hc.destKeys
  have hmembers : (c.members address none).Perm (s.config.members address none) := by
    rw [members_none, members_none]
    exact (hs.perm.map _).symm
  rw [ConfiguredSigner.group, c.notaryGroup_eq, s.config.notaryGroup_eq]
  exact NotaryGroup.alike_of_perm
    (hmembers.trans (members_some_perm hdest (hs.perm.mem_iff.mpr hs.listed)).symm)
    hc.ids_members

/-- The group of a client, with its keys. Every signer has its place among them. -/
theorem Distinct.wellFormed (hc : c.Distinct address) :
    ∃ keys, (c.notaryGroup address none).WellFormed keys ∧ keys.length = c.signers.length ∧
      ∀ keySet ∈ c.signers, keySet.verKey ∈ keys := by
  have hadded := NotaryGroup.added_ofSigners c.id (c.members address none)
  obtain ⟨sorted, hperm, hids, hkeys⟩ := NotaryGroup.exists_sorted c.id hc.ids_members
  have hlen : sorted.length = c.signers.length := by
    rw [hperm.length_eq, members_none, List.length_map]
  have hnd : (NotaryGroup.ofSigners c.id (c.members address none)).sortedIds.Nodup :=
    hadded.nodup_iff.mpr hc.ids_members
  have haddress : ∀ s ∈ sorted, address s.verKey.value = s.id := by
    intro s hs
    rw [hperm.mem_iff, members_none] at hs
    obtain ⟨keySet, -, rfl⟩ := List.mem_map.mp hs
    rfl
  refine ⟨sorted.map (·.verKey), ?_, by rw [List.length_map, hlen], ?_⟩
  · rw [c.notaryGroup_eq]
    refine ⟨?_, ?_, hkeys, ?_⟩
    · rw [hids, ← List.length_pos_iff, List.length_map, hlen]
      exact List.length_pos_iff.mpr hc.nonempty
    · rw [List.perm_ext_iff_of_nodup hnd (AList.keys_nodup _)]
      exact fun i => (hadded.mem_sortedIds i).trans AList.mem_keys
    · -- one key under two ids would have one address under two ids
      refine List.Nodup.of_map address ?_
      rw [List.map_map, List.map_map]
      rwa [hids, ← List.map_congr_left haddress] at hnd
  · intro keySet hkeySet
    refine List.mem_map.mpr ⟨newRemoteSigner address keySet.verKey, ?_, rfl⟩
    rw [hperm.mem_iff, members_none]
    exact List.mem_map_of_mem hkeySet

omit [DecidableEq K] in
/-- Two listed signers with one BLS key have one destination key. -/
theorem Distinct.destKey_eq (hc : c.Distinct address) {s s' : ConfiguredSigner C K} (hs : s.Of c)
    (hs' : s'.Of c) (hkey : s.signKey.verKey = s'.signKey.verKey) : s.destKey = s'.destKey := by
  have heq := List.inj_on_of_nodup_map hc.ids hs.listed hs'.listed (by rw [hkey])
  exact congrArg PublicKeySet.destKey heq

/--
Where signers stand among the keys: each has a place, no two have the same one, and the key at a
place is that of the signer.
-/
structure Places (keys : List (VerKey C)) (signers : List (ConfiguredSigner C K))
    (signKeys : Nat → SignKey C) (members : Finset Nat) : Prop where
  card : members.card = signers.length
  verKey : ∀ i ∈ members, keys[i]? = some (signKeys i).verKey
  signer : ∀ i ∈ members, ∃ s ∈ signers, signKeys i = s.signKey
  place : ∀ s ∈ signers, ∃ i ∈ members, signKeys i = s.signKey

omit [DecidableEq K] in
theorem Distinct.places (hc : c.Distinct address) {keys : List (VerKey C)}
    (hlisted : ∀ keySet ∈ c.signers, keySet.verKey ∈ keys) {signers : List (ConfiguredSigner C K)}
    (hne : signers ≠ []) (hof : ∀ s ∈ signers, s.Of c)
    (hdistinct : (signers.map (·.destKey)).Nodup) :
    ∃ signKeys members, Places keys signers signKeys members := by
  have hplace : ∀ s ∈ signers, ∃ i : Nat, keys[i]? = some s.signKey.verKey :=
    fun s hs => List.mem_iff_getElem?.mp (hlisted _ (hof s hs).listed)
  choose! place hplace using hplace
  have hinj : Set.InjOn place {s | s ∈ signers} := by
    intro s hs s' hs' heq
    have hkey : s.signKey.verKey = s'.signKey.verKey := by
      refine Option.some.inj ?_
      rw [← hplace s hs, ← hplace s' hs', heq]
    exact List.inj_on_of_nodup_map hdistinct hs hs' (hc.destKey_eq (hof s hs) (hof s' hs') hkey)
  have : Nonempty (ConfiguredSigner C K) := ⟨signers.head hne⟩
  let signerAt := Function.invFunOn place {s | s ∈ signers}
  have hinv : ∀ s ∈ signers, signerAt (place s) = s := fun s hs => hinj.leftInvOn_invFunOn hs
  refine ⟨fun i => (signerAt i).signKey, (signers.map place).toFinset, ?_, ?_, ?_, ?_⟩
  · have hnd : (signers.map place).Nodup := (List.Nodup.of_map _ hdistinct).map_on hinj
    rw [List.toFinset_card_of_nodup hnd, List.length_map]
  · simp only [List.mem_toFinset, List.forall_mem_map]
    intro s hs
    rw [hinv s hs, hplace s hs]
  · simp only [List.mem_toFinset, List.forall_mem_map]
    intro s hs
    exact ⟨s, hs, by rw [hinv s hs]⟩
  · intro s hs
    exact ⟨place s, List.mem_toFinset.mpr (List.mem_map_of_mem hs), by rw [hinv s hs]⟩

end Config

/-! ## A quorum of configured signers -/

section Quorum

variable [AddCommMonoid C.Point] {L : Ipld}

/--
**All parties have one group, and the confirmations of a quorum come together.**

Signers have copies of the configuration of the client, in any order, and are listed in it. The
group that such a signer has built from its copy has the ids, keys and quorum of the client's.
Now let at least two thirds of the signers, with different destination keys, each make its
confirmation of a round with its own group. A client that is behind gets them, in any order and as
often as they come, and publishes the round, once.
-/
theorem configured_quorum_publishes (hC : C.Additive) (hT : C.Total) (hL : L.Faithful)
    (hc : c.Distinct address) :
    let client := c.notaryGroup address none
    (∀ s : ConfiguredSigner C K, s.Of c → (s.group address).sortedIds = client.sortedIds ∧
      (s.group address).verKeys = client.verKeys ∧
      (s.group address).quorumCount = client.quorumCount) ∧
    ∀ signers : List (ConfiguredSigner C K), (∀ s ∈ signers, s.Of c) →
      (∀ s ∈ signers, s.signKey.Correct) → (signers.map (·.destKey)).Nodup →
      quorumOf c.signers.length ≤ signers.length →
      ∀ (completed : Round) (before ds : List Delivery),
        let rs := (RoundSubscriber.new client).deliver L before
        (∀ cur, rs.current = some cur → cur.height < completed.height) →
        (∀ d ∈ ds, d.store.Fetchable L completed) →
        (∀ d ∈ ds, ∃ s ∈ signers,
          d.ConfirmationOf L (s.group address) completed s.signKey) →
        (∀ s ∈ signers, ∃ d ∈ ds,
          d.ConfirmationOf L (s.group address) completed s.signKey) →
        (rs.deliver L ds).Published L completed rs.stream := by
  intro client
  refine ⟨fun s hs => ?_, ?_⟩
  · have halike : client.Alike (s.group address) := hc.alike hs
    exact ⟨halike.sortedIds.symm, halike.verKeys.symm, halike.quorumCount.symm⟩
  intro signers hof hcorrect hdistinct hquorum completed before ds rs hbelow hfetch hfrom hall
  have halike : ∀ s ∈ signers, client.Alike (s.group address) := fun s hs => hc.alike (hof s hs)
  obtain ⟨keys, hwf, hlen, hlisted⟩ := hc.wellFormed
  have hcount : 0 < c.signers.length := List.length_pos_iff.mpr hc.nonempty
  have hne : signers ≠ [] := by
    rintro rfl
    rw [quorumOf_eq, List.length_nil] at hquorum
    omega
  obtain ⟨signKeys, members, hplaces⟩ := hc.places hlisted hne hof hdistinct
  have hconf : ∀ s ∈ signers, ∀ d : Delivery,
      d.ConfirmationOf L client completed s.signKey ↔
        d.ConfirmationOf L (s.group address) completed s.signKey :=
    fun s hs d => (halike s hs).confirmationOf
  have hsound : ∀ i ∈ members, (signKeys i).Correct := by
    intro i hi
    obtain ⟨s, hs, heq⟩ := hplaces.signer i hi
    rw [heq]
    exact hcorrect s hs
  have hds : ∀ d ∈ ds, d.store.Fetchable L completed ∧
      ∃ i ∈ members, d.ConfirmationOf L client completed (signKeys i) := by
    intro d hd
    obtain ⟨s, hs, hd'⟩ := hfrom d hd
    obtain ⟨i, hi, heq⟩ := hplaces.place s hs
    refine ⟨hfetch d hd, i, hi, ?_⟩
    rw [heq]
    exact (hconf s hs d).mpr hd'
  have hwait : rs.Waiting L client completed rs.stream :=
    ⟨RoundSubscriber.sound_deliver hC L client before, hbelow, rfl⟩
  rcases RoundSubscriber.waiting_deliver hC hT hL hwf hplaces.verKey hsound ds hwait hds with
    hpub | ⟨hwait', -, hheard⟩
  · exact hpub
  · -- everyone has been heard, so the client would have a quorum in flight
    have hfew : members.card < client.quorumCount := by
      refine hwait'.few_heard hwf fun i hi => hheard i hi ?_
      obtain ⟨s, hs, heq⟩ := hplaces.signer i hi
      obtain ⟨d, hd, hd'⟩ := hall s hs
      rw [heq]
      exact ⟨d, hd, (hconf s hs d).mpr hd'⟩
    rw [hplaces.card, NotaryGroup.quorumCount_eq hwf.verKeys, hlen] at hfew
    omega

end Quorum

end Configured

/-! ### Three files in three orders -/

namespace ConfiguredExample

open RoundSubscriber.Example (signKey signKey_correct confirmed confirmed_fetchable round)
open NotaryGroup

def keySet (i : Nat) : PublicKeySet Crypto.unary Nat := ⟨(signKey i).verKey, i⟩

/-- The file of the client. -/
def config : Config Crypto.unary Nat := { id := "group", signers := [keySet 2, keySet 0, keySet 1] }

/-- Signer 1, with the signers in another order. -/
def one : ConfiguredSigner Crypto.unary Nat where
  config := { id := "group", signers := [keySet 0, keySet 1, keySet 2] }
  signKey := signKey 1
  destKey := 1

/-- Signer 2, with yet another order. -/
def two : ConfiguredSigner Crypto.unary Nat where
  config := { id := "group", signers := [keySet 1, keySet 2, keySet 0] }
  signKey := signKey 2
  destKey := 2

theorem config_distinct : config.Distinct Example.address where
  nonempty := by simp [config]
  ids := by decide +kernel
  destKeys := by decide

theorem one_of : one.Of config where
  perm := List.perm_append_singleton (keySet 2) [keySet 0, keySet 1]
  listed := by simp [config, one, keySet]

theorem two_of : two.Of config where
  perm := (List.perm_append_singleton (keySet 1) [keySet 2, keySet 0]).symm
  listed := by simp [config, two, keySet]

theorem confirmed_one :
    (confirmed 1).ConfirmationOf Ipld.inFull (one.group Example.address) (round 6) one.signKey :=
  ⟨_, _, rfl, rfl, rfl⟩

theorem confirmed_two :
    (confirmed 2).ConfirmationOf Ipld.inFull (two.group Example.address) (round 6) two.signKey :=
  ⟨_, _, rfl, rfl, rfl⟩

/-- The client hears signer 2 twice before signer 1. -/
theorem configured_quorum_publishes_example :
    ((RoundSubscriber.new (config.notaryGroup Example.address none)).deliver Ipld.inFull
      [confirmed 2, confirmed 2, confirmed 1]).Published Ipld.inFull (round 6) [] := by
  have hmem : ∀ s, s ∈ [one, two] ↔ s = one ∨ s = two := by simp
  refine (configured_quorum_publishes Crypto.unary_additive Crypto.unary_total
    Ipld.inFull_faithful config_distinct).2 [one, two] ?_ ?_ (by decide) ?_ (round 6) []
    [confirmed 2, confirmed 2, confirmed 1] ?_ ?_ ?_ ?_
  · intro s hs
    rcases (hmem s).mp hs with rfl | rfl
    · exact one_of
    · exact two_of
  · intro s hs
    rcases (hmem s).mp hs with rfl | rfl <;> exact signKey_correct _
  · rw [quorumOf_eq]
    decide
  · intro cur hcur
    cases hcur
  · intro d hd
    have hd' : d = confirmed 2 ∨ d = confirmed 1 := by simpa [or_assoc] using hd
    rcases hd' with rfl | rfl <;> exact confirmed_fetchable
  · intro d hd
    have hd' : d = confirmed 2 ∨ d = confirmed 1 := by simpa [or_assoc] using hd
    rcases hd' with rfl | rfl
    · exact ⟨two, by simp, confirmed_two⟩
    · exact ⟨one, by simp, confirmed_one⟩
  · intro s hs
    rcases (hmem s).mp hs with rfl | rfl
    · exact ⟨confirmed 1, by simp, confirmed_one⟩
    · exact ⟨confirmed 2, by simp, confirmed_two⟩

end ConfiguredExample

end Tupelo

import Tupelo.Consensus.LedgerInvariant
import Tupelo.Consensus.TreeTransactions
import Tupelo.Infra.Related

/-!
# Transactions of different kinds

A block mixes transactions of several kinds. What those of one kind leave in the tree is what
they would leave if they were run alone: `Alike` relates the tree of the whole run and the tree of
the run alone, by the entry of the field both write below. A transaction of the kind keeps it
(`related_tokenTransactor`), and one of another kind does not touch the entry.

The two trees may be kept in different stores, and a node may be missing in one of them. That is
the only way in which the run alone can fail.
-/

namespace Tupelo

open Infra MerkleDag

variable {L : Ipld}
variable {q : List String} {f : Found Cid} {a : String}

theorem related_wrapErr {α β : Type} {total : Prop} {fits : α → Prop} {P : α → β → Prop}
    {x : Except Fault α} {y : Except Fault β} {c c' : String} (h : Related total fits P x y) :
    Related total fits P (wrapErr c x) (wrapErr c' y) := by
  intro a ha hfits
  obtain ⟨hall, hex⟩ := h a (wrapErr_eq_ok.mp ha) hfits
  refine ⟨fun b hb => hall b (wrapErr_eq_ok.mp hb), fun ht => ?_⟩
  obtain ⟨b, hb⟩ := hex ht
  exact ⟨b, wrapErr_eq_ok.mpr hb⟩

theorem related_codeErr {α β : Type} {total : Prop} {fits : α → Prop} {P : α → β → Prop}
    {x : Except Fault α} {y : Except Fault β} {code : Nat} {memo : String → String}
    (h : Related total fits P x y) :
    Related total fits P (codeErr code memo x) (codeErr code memo y) := by
  intro a ha hfits
  obtain ⟨hall, hex⟩ := h a (codeErr_eq_ok.mp ha) hfits
  refine ⟨fun b hb => hall b (codeErr_eq_ok.mp hb), fun ht => ?_⟩
  obtain ⟨b, hb⟩ := hex ht
  exact ⟨b, codeErr_eq_ok.mpr hb⟩

/-! ## Trees with the same entry -/

/--
Two trees that have the same below a field, with nothing but maps on the way to it. If the second
run has to succeed, its store has all nodes of the first run, and the way to the field.
-/
structure Alike (total : Prop) (T : Store L.objCid) (p : List String) (k : String) (d e : Dag L) :
    Prop where
  named : ∀ a ∈ p ++ [k], isIndex a = false
  clear : d.Clear (Store.all L.objCid) p
  clear_alone : e.Clear (Store.all L.objCid) p
  same : d.entry (Store.all L.objCid) p k = e.entry (Store.all L.objCid) p k
  kept : total → T ≤ e.store
  defined : total → ∀ x, d.entry T p k = some x → e.entry e.store p k = some x

section Alike

variable {total : Prop} {T : Store L.objCid} {p : List String} {k : String} {d d' e : Dag L}
  {lift : Lift Cid}

/-- A path below the field leads to the same in both. -/
theorem Alike.look_agree (hL : L.Faithful) (h : Alike total T p k d e) {g : Found Cid}
    (hf : d.look (p ++ k :: q) = some f) (hg : e.look (p ++ k :: q) = some g) : f = g := by
  have hall := fun S => Store.le_all hL.objCid_injective S
  rw [Dag.look_append (h.clear.anti (hall _))] at hf
  rw [Dag.look_append (h.clear_alone.anti (hall _))] at hg
  obtain ⟨v, hv, hf⟩ := Option.bind_eq_some_iff.mp hf
  obtain ⟨w, hw, hg⟩ := Option.bind_eq_some_iff.mp hg
  have hvw : some v = some w := by
    rw [← Dag.entry_mono (hall _) hv, ← Dag.entry_mono (hall _) hw]
    exact h.same
  rw [Option.some.inj hvw] at hf
  exact Option.some.inj ((lookBelow_mono (hall _) hf).symm.trans (lookBelow_mono (hall _) hg))

/-- Where a path leads in the first it leads in the second. -/
theorem Alike.look_eq (hL : L.Faithful) (h : Alike total T p k d e) (ht : total) (hd : d.store ≤ T)
    (hf : d.look (p ++ k :: q) = some f) : e.look (p ++ k :: q) = some f := by
  have hall := fun S => Store.le_all hL.objCid_injective S
  rw [Dag.look_append (h.clear.anti (hall _))] at hf
  rw [Dag.look_append (h.clear_alone.anti (hall _))]
  obtain ⟨v, hv, hf⟩ := Option.bind_eq_some_iff.mp hf
  exact Option.bind_eq_some_iff.mpr ⟨v, h.defined ht v (Dag.entry_mono hd hv),
    lookBelow_mono (hd.trans (h.kept ht)) hf⟩

/-- The entries below the field are the same. -/
theorem Alike.entry_agree (hL : L.Faithful) (h : Alike total T p k d e) {x y : Option (Obj Cid)}
    (hx : d.entry d.store (p ++ k :: q) a = some x) (hy : e.entry e.store (p ++ k :: q) a = some y)
    : x = y := by
  have hall := fun S => Store.le_all hL.objCid_injective S
  have hx := Dag.entry_mono (hall _) hx
  have hy := Dag.entry_mono (hall _) hy
  rw [Dag.entry_append, h.same] at hx
  rw [Dag.entry_append] at hy
  exact Option.some.inj (hx.symm.trans hy)

theorem Alike.entry_eq (h : Alike total T p k d e) (ht : total) (hd : d.store ≤ T)
    {x : Option (Obj Cid)} (hx : d.entry d.store (p ++ k :: q) a = some x) :
    e.entry e.store (p ++ k :: q) a = some x := by
  have hle := hd.trans (h.kept ht)
  rw [Dag.entry_append] at hx ⊢
  obtain ⟨v, hv, hx⟩ := Option.bind_eq_some_iff.mp hx
  obtain ⟨inner, hinner, hx⟩ := Option.bind_eq_some_iff.mp hx
  rw [h.defined ht v (Dag.entry_mono hd hv), Option.bind_some, target_mono hle hinner]
  exact entry_mono hle hx

theorem Alike.createNode (hL : L.Faithful) (h : Alike total T p k d e) (o : Obj Cid) :
    Alike total T p k (d.createNode o).2 (e.createNode o).2 where
  named := h.named
  clear := h.clear
  clear_alone := h.clear_alone
  same := h.same
  kept ht := (h.kept ht).trans (Dag.le_createNode hL.objCid_injective e o)
  defined ht x hx :=
    Dag.entry_mono (Dag.le_createNode hL.objCid_injective e o) (h.defined ht x hx)

/-- **Writing the same below the field keeps the trees alike.** -/
theorem Alike.set (hL : L.Faithful) (h : Alike total T p k d e)
    (hplain : ∀ a ∈ p ++ [k], Plain lift a) {rest : List String} {v : Obj Cid}
    (hset : d.set lift (p ++ k :: rest) v = some d') (hfits : d'.store ≤ T) :
    (∀ e', e.set lift (p ++ k :: rest) v = some e' → Alike total T p k d' e') ∧
      (total → ∃ e', e.set lift (p ++ k :: rest) v = some e') := by
  have hinj := hL.objCid_injective
  have hall := fun S => Store.le_all hinj S
  have hdT : d.store ≤ T := (Dag.le_set hinj hset).trans hfits
  have habove : ¬ p ++ k :: rest <+: p := fun hp => by simpa using hp.length_le
  obtain ⟨x, y, hx, hy, hW⟩ := Dag.entry_set hinj hplain hset
  refine ⟨fun e' hset' => ?_, fun ht => ?_⟩
  · obtain ⟨x', y', hx', hy', hW'⟩ := Dag.entry_set hinj hplain hset'
    have hxx : some x = some x' := by
      rw [← Dag.entry_mono (hall _) hx, ← Dag.entry_mono (hall _) hx']
      exact h.same
    obtain rfl := Option.some.inj hxx
    obtain rfl := Option.some.inj
      ((overwrite_mono (hall _) hy).symm.trans (overwrite_mono (hall _) hy'))
    refine ⟨h.named, Dag.clear_set hinj hset (hall _) habove h.clear,
      Dag.clear_set hinj hset' (hall _) habove h.clear_alone,
      by rw [hW _ (hall _), hW' _ (hall _)], fun ht => ?_, fun _ z hz => ?_⟩
    · exact (h.kept ht).trans (Dag.le_set hinj hset')
    · rw [hW T hfits] at hz
      rw [← Option.some.inj hz]
      exact hW' _ le_rfl
  · exact Dag.set_of_entry (h.clear_alone.anti (hall _))
      (h.defined ht x (Dag.entry_mono hdT hx)) (overwrite_mono (hdT.trans (h.kept ht)) hy)

/-- A write elsewhere in the first tree. -/
theorem Alike.writes (hL : L.Faithful) (h : Alike total T p k d e)
    (hplain : ∀ a ∈ p ++ [k], Plain lift a) {w : List String} (hwrites : Dag.Writes lift w d d')
    (hapart : Apart w (p ++ [k])) (hfits : d'.store ≤ T) : Alike total T p k d' e where
  named := h.named
  clear := hwrites.clear hL.objCid_injective
    (fun hw => hapart.not_above (hw.trans (List.prefix_append p [k])))
    (Store.le_all hL.objCid_injective _) h.clear
  clear_alone := h.clear_alone
  same := by
    rw [hwrites.entry_of_apart hL.objCid_injective hplain hapart
      (Store.le_all hL.objCid_injective _)]
    exact h.same
  kept := h.kept
  defined ht x hx := by
    rw [hwrites.entry_of_apart hL.objCid_injective hplain hapart hfits] at hx
    exact h.defined ht x hx

end Alike

/-! ## The calls of the library -/

section Calls

variable {D : DagLib L} {total : Prop} {T : Store L.objCid} {p : List String} {k : String}
  {d e : Dag L}

theorem related_set (hL : L.Faithful) (hD : D.Sound) (hC : total → D.Complete)
    (h : Alike total T p k d e) (rest : List String) (v : Obj Cid) :
    Related total (fun d' : Dag L => d'.store ≤ T) (Alike total T p k)
      (D.set d (p ++ k :: rest) v) (D.set e (p ++ k :: rest) v) := by
  intro d' hd' hfits
  obtain ⟨hall, hex⟩ := h.set hL (hD.plain h.named) (hD.set hd') hfits
  refine ⟨fun e' he' => hall e' (hD.set he'), fun ht => ?_⟩
  obtain ⟨e', he'⟩ := hex ht
  exact ⟨e', (hC ht).set he'⟩

theorem related_setAsLink (hL : L.Faithful) (hD : D.Sound) (hC : total → D.Complete)
    (h : Alike total T p k d e) (rest : List String) (v : Obj Cid) :
    Related total (fun d' : Dag L => d'.store ≤ T) (Alike total T p k)
      (D.setAsLink d (p ++ k :: rest) v) (D.setAsLink e (p ++ k :: rest) v) := by
  intro d' hd' hfits
  obtain ⟨hall, hex⟩ :=
    (h.createNode hL v).set hL (hD.plain h.named) (hD.setAsLink hd') hfits
  refine ⟨fun e' he' => hall e' (hD.setAsLink he'), fun ht => ?_⟩
  obtain ⟨e', he'⟩ := hex ht
  exact ⟨e', (hC ht).setAsLink he'⟩

theorem related_createNode (hL : L.Faithful) (hD : D.Sound) (hC : total → D.Complete)
    (h : Alike total T p k d e) (o : Obj Cid) :
    Related total (fun r : Cid × Dag L => r.2.store ≤ T)
      (fun r r' => r.1 = r'.1 ∧ Alike total T p k r.2 r'.2)
      (D.createNode d o) (D.createNode e o) := by
  intro r hr _
  refine ⟨fun r' hr' => ?_, fun ht => ⟨_, (hC ht).createNode e o⟩⟩
  rw [← hD.createNode hr, ← hD.createNode hr']
  exact ⟨rfl, h.createNode hL o⟩

theorem related_get (hL : L.Faithful) (hD : D.Sound) (hC : total → D.Complete)
    (h : Alike total T p k d e) (hd : d.store ≤ T) (c : Cid) :
    Related total (fun _ => True) (· = ·) (D.get d c) (D.get e c) := by
  intro o ho _
  refine ⟨fun o' ho' => Store.agree hL.objCid_injective (hD.get ho) (hD.get ho'), fun ht => ?_⟩
  exact ⟨o, (hC ht).get ((hd.trans (h.kept ht)) _ _ (hD.get ho))⟩

/-- What `Resolve` returns is determined by where the path leads, up to what is left of it. -/
theorem reports_agree {r r' : Obj Cid × List String}
    (hf : ∀ x rest, f = .stopped x rest → ∀ a ∈ rest.head?, isIndex a = false) (hr : D.Reports f r)
    (hr' : D.Reports f r') : r.1 = r'.1 ∧ (r.2 = [] ↔ r'.2 = []) := by
  cases f with
  | found x => exact ⟨by rw [hr, hr'], by rw [hr, hr']⟩
  | missing => exact ⟨hr.1.trans hr'.1.symm, iff_of_false hr.2 hr'.2⟩
  | stopped x rest =>
    have hidx := hf x rest rfl
    rw [Except.ok.inj ((hr hidx).symm.trans (hr' hidx))]
    exact ⟨rfl, Iff.rfl⟩

theorem exists_resolve_of_reports (hC : D.Complete) {r : Obj Cid × List String}
    (hlook : e.look q = some f)
    (hf : ∀ x rest, f = .stopped x rest → ∀ a ∈ rest.head?, isIndex a = false) (hr : D.Reports f r)
    : ∃ r', D.resolve e q = .ok r' := by
  cases f with
  | found x => exact ⟨_, hC.found hlook⟩
  | missing =>
    obtain ⟨remaining, -, hres⟩ := hC.missing hlook
    exact ⟨_, hres⟩
  | stopped x rest =>
    have hidx := hf x rest rfl
    exact ⟨r, hC.stopped hlook hidx (hr hidx)⟩

theorem related_resolve (hL : L.Faithful) (hD : D.Sound) (hC : total → D.Complete)
    (h : Alike total T p k d e) (hd : d.store ≤ T) (hq : ∀ a ∈ q, isIndex a = false) :
    Related total (fun _ => True) (fun r r' => r.1 = r'.1 ∧ (r.2 = [] ↔ r'.2 = []))
      (D.resolve d (p ++ k :: q)) (D.resolve e (p ++ k :: q)) := by
  intro r hr _
  obtain ⟨f, hlook, hreports⟩ := hD.resolve hr
  -- no step of the path is an index, so what is left of it does not start with one
  have hf : ∀ x rest, f = .stopped x rest → ∀ a ∈ rest.head?, isIndex a = false := by
    rintro x rest rfl a ha
    have hmem := (Dag.stopped_suffix hlook).subset (List.mem_of_mem_head? ha)
    have happ : p ++ k :: q = (p ++ [k]) ++ q := by simp
    rw [happ] at hmem
    rcases List.mem_append.mp hmem with hmem | hmem
    · exact h.named a hmem
    · exact hq a hmem
  refine ⟨fun r' hr' => ?_, fun ht => ?_⟩
  · obtain ⟨g, hlook', hreports'⟩ := hD.resolve hr'
    obtain rfl := h.look_agree hL hlook hlook'
    exact reports_agree hf hreports hreports'
  · exact exists_resolve_of_reports (hC ht) (h.look_eq hL ht hd hlook) hf hreports

theorem related_resolveInto (hL : L.Faithful) (hD : D.Sound) (hC : total → D.Complete)
    (h : Alike total T p k d e) (hd : d.store ≤ T) {α : Type} (decode : Obj Cid → Except Fault α)
    (hq : ∀ b ∈ q ++ [a], isIndex b = false) :
    Related total (fun _ => True) (· = ·) (D.resolveInto decode d (p ++ k :: q ++ [a]))
      (D.resolveInto decode e (p ++ k :: q ++ [a])) := by
  have hnamed : ∀ b ∈ p ++ k :: q ++ [a], isIndex b = false := by
    have happ : p ++ k :: q ++ [a] = (p ++ [k]) ++ (q ++ [a]) := by simp
    rw [happ]
    exact List.forall_mem_append.mpr ⟨h.named, hq⟩
  refine Related.read ?_ fun node => Related.same _
  intro o ho _
  obtain ⟨c, hentry, hc⟩ := hD.resolveNode hnamed ho
  refine ⟨fun o' ho' => ?_, fun ht => ?_⟩
  · obtain ⟨c', hentry', hc'⟩ := hD.resolveNode hnamed ho'
    obtain rfl := Obj.link.inj (Option.some.inj (h.entry_agree hL hentry hentry'))
    exact Store.agree hL.objCid_injective hc hc'
  · exact ⟨o, (hC ht).resolveNode (h.entry_eq ht hd hentry) ((hd.trans (h.kept ht)) _ _ hc)⟩

end Calls

/-! ## The ledger -/

section Ledger

open TreeLedger

variable {D : DagLib L} {total : Prop} {T : Store L.objCid} {l m : TreeLedger L}

/-- Ledgers of one token in trees with the same tokens. -/
abbrev SameTokens (total : Prop) (T : Store L.objCid) (d e : Dag L) : Prop :=
  Alike total T ["_tupelo"] "tokens" d e

section Read

variable (hL : L.Faithful) (hD : D.Sound) (hC : total → D.Complete)
  (hname : l.tokenName = m.tokenName) (h : SameTokens total T l.tree m.tree)
  (hl : l.tree.store ≤ T)

include hL hD hC

theorem related_transactionCidsForPath {d e : Dag L} (h : SameTokens total T d e)
    (hd : d.store ≤ T) (tokenName : TokenName) {label : String} (hlabel : isIndex label = false) :
    Related total (fun _ => True) (· = ·)
      (transactionCidsForPath D d (recordPath tokenName.string ++ [label]))
      (transactionCidsForPath D e (recordPath tokenName.string ++ [label])) := by
  have hq : ∀ a ∈ [tokenName.string, label], isIndex a = false := by
    simp [isIndex_string, hlabel]
  refine (related_wrapErr (related_resolve hL hD hC h hd hq)).bind (fun _ _ _ _ _ => trivial) ?_
  rintro ⟨o, rem⟩ ⟨o', rem'⟩ - - ⟨rfl, -⟩
  exact Related.same _

include hname h hl

theorem related_tokenTransactionCidsForType {txType : String} (htype : isIndex txType = false) :
    Related total (fun _ => True) (· = ·) (l.tokenTransactionCidsForType D txType)
      (m.tokenTransactionCidsForType D txType) := by
  unfold tokenTransactionCidsForType
  rw [hname, tokenPath_eq]
  exact related_wrapErr (related_transactionCidsForPath hL hD hC h hl _ htype)

theorem related_balance :
    Related total (fun _ => True) (· = ·) (l.balance D) (m.balance D) := by
  unfold balance
  rw [hname, tokenPath_eq, ok_bind, ok_bind]
  refine Related.read (related_wrapErr ?_) fun token => Related.same _
  exact related_resolveInto hL hD hC h hl decodeToken (q := []) (by simp [isIndex_string])

theorem related_tokenExists :
    Related total (fun _ => True) (· = ·) (l.tokenExists D) (m.tokenExists D) := by
  unfold tokenExists
  rw [hname, tokenPath_eq, wrapErr_ok, ok_bind, ok_bind]
  have hq : ∀ a ∈ [m.tokenName.string], isIndex a = false := by simp [isIndex_string]
  refine (related_wrapErr (related_resolve hL hD hC h hl hq)).bind (fun _ _ _ _ _ => trivial) ?_
  rintro ⟨o, rem⟩ ⟨o', rem'⟩ - - ⟨rfl, -⟩
  exact Related.same _

omit hname in
theorem related_sumTokenTransactions (cids : List Cid) :
    Related total (fun _ => True) (· = ·) (l.sumTokenTransactions D cids)
      (m.sumTokenTransactions D cids) := by
  unfold sumTokenTransactions
  generalize (0 : UInt64) = sum
  induction cids generalizing sum with
  | nil => exact Related.ok rfl
  | cons c cids ih =>
    rw [List.foldlM_cons, List.foldlM_cons]
    refine Related.read ?_ ih
    exact Related.read (related_wrapErr (related_get hL hD hC h hl c)) fun _ => Related.same _

omit hname in
theorem related_checkMaximum (policy : TokenMonetaryPolicy) (cids : List Cid) (amount : UInt64) :
    Related total (fun _ => True) (· = ·) (l.checkMaximum D policy cids amount)
      (m.checkMaximum D policy cids amount) := by
  unfold checkMaximum
  refine Related.ite (fun _ => ?_) fun _ => Related.same _
  exact Related.read (related_wrapErr (related_sumTokenTransactions hL hD hC h hl cids))
    fun _ => Related.same _

omit hname in
theorem related_checkReceives (id : String) (cids : List Cid) :
    Related total (fun _ => True) (· = ·) (cids.forM (l.checkReceive D id))
      (cids.forM (m.checkReceive D id)) := by
  induction cids with
  | nil => exact Related.ok rfl
  | cons c cids ih =>
    refine Related.read (f := fun _ => cids.forM (l.checkReceive D id))
      (g := fun _ => cids.forM (m.checkReceive D id)) ?_ fun _ => ih
    exact Related.read (related_wrapErr (related_get hL hD hC h hl c)) fun _ => Related.same _

end Read

section Write

variable (hL : L.Faithful) (hD : D.Sound) (hC : total → D.Complete)

include hL hD hC

theorem related_appendTransaction {d e : Dag L} (h : SameTokens total T d e) (name label : String)
    (cids : List Cid) {f g : Dag L → Except Fault UInt64}
    (hfg : Related total (fun _ => True) (· = ·) (f d) (g e)) :
    Related total (fun d' : Dag L => d'.store ≤ T) (SameTokens total T)
      (appendTransaction D d (recordPath name) label cids f)
      (appendTransaction D e (recordPath name) label cids g) := by
  refine (related_wrapErr (related_setAsLink hL hD hC h [name, label] _)).bind ?_ ?_
  · intro d₁ d' _ hd' hfits
    obtain ⟨b, -, hset⟩ := bind_eq_ok.mp hd'
    exact (Dag.le_set hL.objCid_injective (hD.set (wrapErr_eq_ok.mp hset))).trans hfits
  · intro d₁ e₁ _ _ h₁
    refine Related.read hfg fun b => related_wrapErr ?_
    exact related_set hL hD hC h₁ [name, tokenBalanceLabel] _

variable (hname : l.tokenName = m.tokenName) (h : SameTokens total T l.tree m.tree)

include hname h

theorem related_createToken :
    Related total (fun d' : Dag L => d'.store ≤ T) (SameTokens total T) (l.createToken D).1
      (m.createToken D).1 := by
  unfold createToken
  rw [commit_fst, commit_fst, hname, tokenPath_eq, wrapErr_ok, ok_bind, ok_bind]
  refine (related_wrapErr (related_setAsLink hL hD hC h [m.tokenName.string] _)).bind ?_ ?_
  · intro d₁ d' _ hd' hfits
    exact (Dag.le_set hL.objCid_injective (hD.set (wrapErr_eq_ok.mp hd'))).trans hfits
  · intro d₁ e₁ _ _ h₁
    exact related_wrapErr (related_set hL hD hC h₁ [m.tokenName.string, tokenBalanceLabel] _)

theorem related_establishToken (policy : TokenMonetaryPolicy) :
    Related total (fun d' : Dag L => d'.store ≤ T) (SameTokens total T)
      (l.establishToken D policy).1 (m.establishToken D policy).1 := by
  rw [establishToken_fst, establishToken_fst, hname]
  refine (related_createToken hL hD hC hname h).bind ?_ ?_
  · intro d₁ d' _ hd' hfits
    exact (Dag.le_setAsLink hL.objCid_injective (hD.setAsLink (wrapErr_eq_ok.mp hd'))).trans hfits
  · intro d₁ e₁ _ _ h₁
    exact related_wrapErr
      (related_setAsLink hL hD hC h₁ [m.tokenName.string, monetaryPolicyLabel] _)

variable (hl : l.tree.store ≤ T)

include hl

theorem related_mintToken (amount : UInt64) :
    Related total (fun d' : Dag L => d'.store ≤ T) (SameTokens total T) (l.mintToken D amount).1
      (m.mintToken D amount).1 := by
  unfold mintToken
  rw [commit_fst, commit_fst]
  refine Related.ite (fun _ => Related.error _) fun _ => ?_
  rw [hname, tokenPath_eq, wrapErr_ok, ok_bind, ok_bind]
  have hpath : ∀ a ∈ [m.tokenName.string] ++ [monetaryPolicyLabel], isIndex a = false := by
    simp [isIndex_string, show isIndex monetaryPolicyLabel = false from rfl]
  refine Related.read (related_wrapErr (related_resolveInto hL hD hC h hl _ hpath))
    fun policy => ?_
  refine Related.read (related_tokenTransactionCidsForType hL hD hC hname h hl rfl) fun cids => ?_
  refine Related.read (related_checkMaximum hL hD hC h hl policy cids amount) fun _ => ?_
  refine (related_wrapErr (related_createNode hL hD hC h _)).bind ?_ ?_
  · rintro ⟨c, d₁⟩ d' - hd' hfits
    exact ((writes_appendTransaction hD hd').store_le hL.objCid_injective).trans hfits
  · rintro ⟨c, d₁⟩ ⟨c', e₁⟩ - hfits ⟨rfl, h₁⟩
    refine related_appendTransaction hL hD hC h₁ m.tokenName.string tokenMintLabel _ ?_
    refine Related.read (related_wrapErr ?_) fun _ => Related.same _
    exact related_balance hL hD hC (l := ⟨m.tokenName, d₁⟩) (m := ⟨m.tokenName, e₁⟩) rfl h₁ hfits

theorem related_sendToken (txId destination : String) (amount : UInt64) :
    Related total (fun d' : Dag L => d'.store ≤ T) (SameTokens total T)
      (l.sendToken D txId destination amount).1 (m.sendToken D txId destination amount).1 := by
  unfold sendToken
  rw [commit_fst, commit_fst]
  refine Related.ite (fun _ => Related.error _) fun _ => ?_
  rw [hname, tokenPath_eq, ok_bind, ok_bind]
  refine Related.read (related_balance hL hD hC hname h hl) fun available => ?_
  refine Related.ite (fun _ => Related.error _) fun _ => ?_
  refine (related_wrapErr (related_createNode hL hD hC h _)).bind ?_ ?_
  · rintro ⟨c, d₁⟩ d' - hd' hfits
    obtain ⟨cids, -, hd'⟩ := bind_eq_ok.mp hd'
    exact ((writes_appendTransaction hD hd').store_le hL.objCid_injective).trans hfits
  · rintro ⟨c, d₁⟩ ⟨c', e₁⟩ - hfits ⟨rfl, h₁⟩
    refine Related.read (related_wrapErr ?_) fun cids => ?_
    · exact related_tokenTransactionCidsForType hL hD hC (l := ⟨m.tokenName, d₁⟩)
        (m := ⟨m.tokenName, e₁⟩) rfl h₁ hfits rfl
    · exact related_appendTransaction hL hD hC h₁ m.tokenName.string tokenSendLabel _
        (Related.same _)

theorem related_receive (id : String) (amount : UInt64) :
    Related total (fun d' : Dag L => d'.store ≤ T) (SameTokens total T)
      (receiveToken.receive D id amount l).1 (receiveToken.receive D id amount m).1 := by
  unfold receiveToken.receive
  rw [commit_fst, commit_fst, hname, tokenPath_eq, ok_bind, ok_bind]
  refine Related.read (related_wrapErr
    (related_tokenTransactionCidsForType hL hD hC hname h hl rfl)) fun cids => ?_
  refine Related.read (related_checkReceives hL hD hC h hl id cids) fun _ => ?_
  refine (related_wrapErr (related_createNode hL hD hC h _)).bind ?_ ?_
  · rintro ⟨c, d₁⟩ d' - hd' hfits
    exact ((writes_appendTransaction hD hd').store_le hL.objCid_injective).trans hfits
  · rintro ⟨c, d₁⟩ ⟨c', e₁⟩ - hfits ⟨rfl, h₁⟩
    refine related_appendTransaction hL hD hC h₁ m.tokenName.string tokenReceiveLabel _ ?_
    refine Related.read (related_wrapErr ?_) fun _ => Related.same _
    exact related_balance hL hD hC (l := ⟨m.tokenName, d₁⟩) (m := ⟨m.tokenName, e₁⟩) rfl h₁ hfits

theorem related_receiveToken (id : String) (amount : UInt64) :
    Related total (fun d' : Dag L => d'.store ≤ T) (SameTokens total T)
      (l.receiveToken D id amount).1 (m.receiveToken D id amount).1 := by
  rw [receiveToken_fst, receiveToken_fst]
  refine Related.read (related_tokenExists hL hD hC hname h hl) fun tokenExists => ?_
  refine Related.ite (fun _ => related_receive hL hD hC hname h hl id amount) fun _ => ?_
  refine (related_createToken hL hD hC hname h).bind ?_ ?_
  · intro d₁ d' _ hd' hfits
    exact ((writes_receive hD hd').store_le hL.objCid_injective).trans hfits
  · intro d₁ e₁ _ hfits h₁
    exact related_receive hL hD hC (l := { l with tree := d₁ }) (m := { m with tree := e₁ }) hname
      h₁ hfits id amount

end Write

end Ledger

/-! ## The transactors -/

section Transactors

variable {D : DagLib L} {total : Prop} {T : Store L.objCid} {d e : Dag L}
  (hL : L.Faithful) (hD : D.Sound) (hC : total → D.Complete)

include hL hD hC

theorem related_canonicalName (h : SameTokens total T d e) (hd : d.store ≤ T) (ord : RangeOrder)
    (did name : String) (requireDefault : Bool) :
    Related total (fun _ => True) (· = ·) (canonicalName D ord d did name requireDefault)
      (canonicalName D ord e did name requireDefault) := by
  refine related_codeErr ?_
  unfold canonicalTokenName
  refine Related.ite (fun _ => Related.same _) fun _ => ?_
  rw [decodePath_treePathForTokens, wrapErr_ok, ok_bind, ok_bind]
  refine (related_wrapErr (related_resolve hL hD hC h hd (q := []) (by simp))).bind
    (fun _ _ _ _ _ => trivial) ?_
  rintro ⟨o, rem⟩ ⟨o', rem'⟩ - - ⟨rfl, hrem⟩
  by_cases hnil : rem = []
  · rw [show rem' = [] from hrem.mp hnil, hnil]
    exact Related.same _
  · have hnil' : rem' ≠ [] := fun hnil' => hnil (hrem.mpr hnil')
    simp only [ne_eq, hnil, hnil', not_false_eq_true, if_true]
    exact Related.same _

/-- **A token transaction reads and writes only below the tokens.** -/
theorem related_tokenTransactor (h : SameTokens total T d e) (hd : d.store ≤ T) (ranges : Ranges)
    (did : String) (txn : Transaction) :
    Related total (fun d' : Dag L => d'.store ≤ T) (SameTokens total T)
      (tokenTransactor D ranges did d txn) (tokenTransactor D ranges did e txn) := by
  unfold tokenTransactor
  cases txn.type with
  | establishToken =>
    refine Related.read (Related.same _) fun payload => ?_
    refine Related.read (related_canonicalName hL hD hC h hd _ did _ _) fun name => ?_
    refine Related.read (related_codeErr ?_) fun tokenExists => ?_
    · exact related_tokenExists hL hD hC (l := ⟨name, d⟩) (m := ⟨name, e⟩) rfl h hd
    · refine Related.ite (fun _ => Related.error _) fun _ => related_codeErr ?_
      exact related_establishToken hL hD hC (l := ⟨name, d⟩) (m := ⟨name, e⟩) rfl h _
  | mintToken =>
    refine Related.read (Related.same _) fun payload => ?_
    refine Related.read (related_canonicalName hL hD hC h hd _ did _ _) fun name => ?_
    exact related_codeErr
      (related_mintToken hL hD hC (l := ⟨name, d⟩) (m := ⟨name, e⟩) rfl h hd _)
  | sendToken =>
    refine Related.read (Related.same _) fun payload => ?_
    refine Related.read (related_canonicalName hL hD hC h hd _ did _ _) fun name => ?_
    exact related_codeErr
      (related_sendToken hL hD hC (l := ⟨name, d⟩) (m := ⟨name, e⟩) rfl h hd _ _ _)
  | receiveToken =>
    refine Related.read (Related.same _) fun payload => ?_
    refine Related.read (Related.same _) fun tip => ?_
    refine Related.read (Related.same _) fun senderDag => ?_
    refine Related.ite (fun _ => Related.error _) fun _ => ?_
    refine Related.read (Related.same _) ?_
    rintro ⟨name, send⟩
    exact related_codeErr
      (related_receiveToken hL hD hC (l := ⟨name, d⟩) (m := ⟨name, e⟩) rfl h hd _ _)
  | _ => exact Related.error _

/-- Setting data writes below the data, and reads nothing. -/
theorem related_setDataTransaction (h : Alike total T [] "data" d e) (txn : Transaction) :
    Related total (fun d' : Dag L => d'.store ≤ T) (Alike total T [] "data")
      (setDataTransaction D d txn) (setDataTransaction D e txn) := by
  refine Related.read (Related.same _) fun payload => ?_
  refine Related.read (Related.same _) fun path => ?_
  refine Related.read (Related.same _) fun val => ?_
  rw [decodePath_treePathForData]
  refine related_codeErr (Related.ite (fun _ => ?_) fun _ => ?_)
  · exact related_setAsLink hL hD hC h path val
  · exact related_set hL hD hC h path val

end Transactors

/-! ## Whole runs -/

def TransactionType.isToken : TransactionType → Bool
  | .establishToken => true
  | .mintToken => true
  | .sendToken => true
  | .receiveToken => true
  | _ => false

section Runs

variable {D : DagLib L} {did : String} {d d' : Dag L} {txns : List (Ranges × Transaction)}

theorem store_le_applyTransactions (hL : L.Faithful) (hD : D.Sound)
    (h : applyTransactions D did d txns = .ok d') : d.store ≤ d'.store := by
  induction txns generalizing d with
  | nil => rw [Except.ok.inj h]
  | cons a txns ih =>
    obtain ⟨d₁, hd₁, h⟩ := bind_eq_ok.mp h
    exact ((writes_transactor hD hd₁).store_le hL.objCid_injective).trans (ih h)

/--
The root of the tree is a map, and so is what is under `_tupelo`, if something is. Elsewhere a
write would not only change what is at its path: it would put a map in the place of what is on the
way.
-/
def Rooted (d : Dag L) : Prop := d.Clear (Store.all L.objCid) ["_tupelo"]

theorem rooted_transactor (hL : L.Faithful) (hD : D.Sound) {ranges : Ranges} {txn : Transaction}
    (hd : Rooted d) (h : transactor D ranges did d txn = .ok d') : Rooted d' := by
  refine (writes_transactor hD h).clear hL.objCid_injective ?_
    (Store.le_all hL.objCid_injective _) hd
  cases txn.type <;> decide

theorem rooted_applyTransactions (hL : L.Faithful) (hD : D.Sound) (hd : Rooted d)
    (h : applyTransactions D did d txns = .ok d') : Rooted d' := by
  induction txns generalizing d with
  | nil => rwa [← Except.ok.inj h]
  | cons a txns ih =>
    obtain ⟨d₁, hd₁, h⟩ := bind_eq_ok.mp h
    exact ih (rooted_transactor hL hD hd hd₁) h

/-- A field of the root that no transaction writes to leads where it led. -/
theorem look_applyTransactions (hL : L.Faithful) (hD : D.Sound) (hd : Rooted d)
    (h : applyTransactions D did d txns = .ok d') {k : String} (hk : isIndex k = false)
    (hapart : ∀ a ∈ txns, Apart (writePath a.2.type) [k]) (hf : d.look (k :: q) = some f) :
    d'.look (k :: q) = some f := by
  induction txns generalizing d with
  | nil => rwa [← Except.ok.inj h]
  | cons a txns ih =>
    obtain ⟨d₁, hd₁, h⟩ := bind_eq_ok.mp h
    refine ih (rooted_transactor hL hD hd hd₁) h
      (fun b hb => hapart b (List.mem_cons_of_mem _ hb)) ?_
    exact (writes_transactor hD hd₁).look_of_apart hL.objCid_injective (p := [])
      (by simpa using hD.lift hk) (hapart a List.mem_cons_self) hd.root hf

/-- **A run and the run of some of its kinds alone**, if these keep the trees alike. -/
theorem related_applyTransactions (hL : L.Faithful) (hD : D.Sound) {total : Prop}
    {T : Store L.objCid} {p : List String} {k : String} {sel : TransactionType → Bool}
    (hsel : ∀ {d e : Dag L} (ranges : Ranges) (txn : Transaction), sel txn.type = true →
      Alike total T p k d e → d.store ≤ T →
      Related total (fun d' : Dag L => d'.store ≤ T) (Alike total T p k)
        (transactor D ranges did d txn) (transactor D ranges did e txn))
    (hother : ∀ t, sel t = false → Apart (writePath t) (p ++ [k])) {e : Dag L}
    (h : Alike total T p k d e) :
    Related total (fun d' : Dag L => d'.store ≤ T) (Alike total T p k)
      (applyTransactions D did d txns)
      (applyTransactions D did e (txns.filter fun a => sel a.2.type)) := by
  induction txns generalizing d e with
  | nil => exact Related.ok h
  | cons a txns ih =>
    obtain ⟨ranges, txn⟩ := a
    intro d' hd' hfits
    have hd := (store_le_applyTransactions hL hD hd').trans hfits
    cases hkind : sel txn.type with
    | true =>
      rw [List.filter_cons_of_pos (by exact hkind)]
      have hrel : Related total (fun d' : Dag L => d'.store ≤ T) (Alike total T p k)
          (applyTransactions D did d ((ranges, txn) :: txns))
          (applyTransactions D did e ((ranges, txn) :: txns.filter fun a => sel a.2.type)) := by
        refine (hsel ranges txn hkind h hd).bind ?_ ?_
        · intro d₁ d₂ _ hrun hfits
          exact (store_le_applyTransactions hL hD hrun).trans hfits
        · intro d₁ e₁ _ _ h₁
          exact ih h₁
      exact hrel d' hd' hfits
    | false =>
      rw [List.filter_cons_of_neg (by simp [hkind])]
      obtain ⟨d₁, hd₁, hrun⟩ := bind_eq_ok.mp hd'
      have hd₁T := (store_le_applyTransactions hL hD hrun).trans hfits
      exact ih (h.writes hL (hD.plain h.named) (writes_transactor hD hd₁) (hother _ hkind) hd₁T)
        d' hrun hfits

/--
The transactions of some kinds, run alone from the same root, leave at the path what the whole
run does.
-/
structure RunsAlone (D : DagLib L) (did : String) (d d' : Dag L)
    (txns : List (Ranges × Transaction)) (sel : TransactionType → Bool) (path : List String) :
    Prop where
  /-- Over any nodes, the run alone makes nothing else. -/
  agrees : ∀ nodes e, applyTransactions D did { d with store := nodes }
      (txns.filter fun a => sel a.2.type) = .ok e →
    ∀ q f g, d'.look (path ++ q) = some f → e.look (path ++ q) = some g → f = g
  /-- Over the nodes of the whole run it succeeds. -/
  succeeds : D.Complete → ∃ e, applyTransactions D did { d with store := d'.store }
      (txns.filter fun a => sel a.2.type) = .ok e ∧
    ∀ q f, d'.look (path ++ q) = some f → e.look (path ++ q) = some f

theorem runsAlone (hL : L.Faithful) (hD : D.Sound) (h : applyTransactions D did d txns = .ok d')
    {p : List String} {k : String} (hnamed : ∀ a ∈ p ++ [k], isIndex a = false)
    (hclear : d.Clear (Store.all L.objCid) p) {sel : TransactionType → Bool}
    (hsel : ∀ {total : Prop} {T : Store L.objCid} {d e : Dag L} (ranges : Ranges)
      (txn : Transaction), (total → D.Complete) → sel txn.type = true →
      Alike total T p k d e → d.store ≤ T →
      Related total (fun d' : Dag L => d'.store ≤ T) (Alike total T p k)
        (transactor D ranges did d txn) (transactor D ranges did e txn))
    (hother : ∀ t, sel t = false → Apart (writePath t) (p ++ [k])) :
    RunsAlone D did d d' txns sel (p ++ [k]) where
  agrees := by
    intro nodes e he q f g hf hg
    rw [List.append_assoc, List.singleton_append] at hf hg
    have hstart : Alike False (Store.all L.objCid) p k d { d with store := nodes } :=
      ⟨hnamed, hclear, hclear, rfl, False.elim, False.elim⟩
    have hend := (related_applyTransactions hL hD (fun ranges txn => hsel ranges txn False.elim)
      hother hstart d' h (Store.le_all hL.objCid_injective _)).1 e he
    exact hend.look_agree hL hf hg
  succeeds := by
    intro hC
    have hstart : Alike True d'.store p k d { d with store := d'.store } :=
      ⟨hnamed, hclear, hclear, rfl, fun _ => le_rfl, fun _ _ hx => hx⟩
    obtain ⟨hall, hex⟩ := related_applyTransactions hL hD
      (fun ranges txn => hsel ranges txn fun _ => hC) hother hstart d' h le_rfl
    obtain ⟨e, he⟩ := hex trivial
    refine ⟨e, he, fun q f hf => ?_⟩
    rw [List.append_assoc, List.singleton_append] at hf ⊢
    exact (hall e he).look_eq hL trivial le_rfl hf

theorem runsAlone_setData (hL : L.Faithful) (hD : D.Sound) (hd : Rooted d)
    (h : applyTransactions D did d txns = .ok d') :
    RunsAlone D did d d' txns (· == .setData) dataTreePath := by
  refine runsAlone (p := []) (k := "data") hL hD h (by decide) hd.root ?_ ?_
  · intro total T d e ranges txn hC htype halike _
    unfold transactor
    rw [eq_of_beq htype]
    exact related_setDataTransaction hL hD hC halike txn
  · intro t ht
    have hne : writePath t ≠ writePath .setData := by
      cases t <;> first | decide | cases ht
    exact apart_writePath hne

theorem runsAlone_tokens (hL : L.Faithful) (hD : D.Sound) (hd : Rooted d)
    (h : applyTransactions D did d txns = .ok d') :
    RunsAlone D did d d' txns TransactionType.isToken tokensTreePath := by
  refine runsAlone (p := ["_tupelo"]) (k := "tokens") hL hD h (by decide) hd ?_ ?_
  · intro total T d e ranges txn hC htype halike hd
    have htoken : ∀ tree : Dag L,
        transactor D ranges did tree txn = tokenTransactor D ranges did tree txn := by
      intro tree
      unfold transactor
      cases ht : txn.type <;> first | rfl | simp [ht, TransactionType.isToken] at htype
    rw [htoken, htoken]
    exact related_tokenTransactor hL hD hC halike hd ranges did txn
  · intro t ht
    have hne : writePath t ≠ writePath .mintToken := by
      cases t <;> first | decide | cases ht
    exact apart_writePath hne

/-! ### The last value set -/

/-- What a transaction sets the authentications to. -/
def ownershipOf (txn : Transaction) : Option (Obj Cid) :=
  if txn.type = .setOwnership then
    txn.setOwnershipPayload.map fun payload => authenticationObj payload.authentication
  else none

/-- What a transaction sets the stake to. -/
def stakeOf (txn : Transaction) : Option (Obj Cid) :=
  if txn.type = .stake then some (txn.stakePayload.getD .null) else none

/-- The value that the last transaction which sets one sets. -/
def lastSet (value : Transaction → Option (Obj Cid)) (txns : List (Ranges × Transaction)) :
    Option (Obj Cid) := (txns.filterMap fun a => value a.2).getLast?

/-- The object at a path is the given one; without one the path leads where it led. -/
def Stays (d d' : Dag L) (path : List String) : Option (Obj Cid) → Prop
  | some v => d'.look path = some (.found v)
  | none => ∀ q f, d.look (path ++ q) = some f → d'.look (path ++ q) = some f

/-- **The last value that is set stays**, and if none is the original does. -/
theorem stays_lastSet (hL : L.Faithful) (hD : D.Sound) (hd : Rooted d)
    (h : applyTransactions D did d txns = .ok d') {value : Transaction → Option (Obj Cid)}
    {k : String} (hk : isIndex k = false)
    (hvalue : ∀ {d d' : Dag L} {ranges : Ranges} {txn : Transaction},
      transactor D ranges did d txn = .ok d' →
      (∃ v, value txn = some v ∧ d.setAsLink D.lift (["_tupelo"] ++ [k]) v = some d') ∨
        value txn = none ∧ Apart (writePath txn.type) (["_tupelo"] ++ [k])) :
    Stays d d' (["_tupelo"] ++ [k]) (lastSet value txns) := by
  unfold lastSet
  induction txns generalizing d with
  | nil =>
    rw [Except.ok.inj h]
    exact fun q f hf => hf
  | cons a txns ih =>
    obtain ⟨d₁, hd₁, h⟩ := bind_eq_ok.mp h
    have hstays := ih (rooted_transactor hL hD hd hd₁) h
    rcases hvalue hd₁ with ⟨v, hv, hset⟩ | ⟨hv, hapart⟩
    · rw [List.filterMap_cons_some (by exact hv), List.getLast?_cons]
      cases hrest : (txns.filterMap fun a => value a.2).getLast? with
      | some w =>
        rw [hrest] at hstays
        exact hstays
      | none =>
        rw [hrest] at hstays
        exact hstays [] (.found v)
          (Dag.look_of_find (Dag.find_setAsLink_self hL.objCid_injective hset))
    · rw [List.filterMap_cons_none (by exact hv)]
      cases hrest : (txns.filterMap fun a => value a.2).getLast? with
      | some w =>
        rw [hrest] at hstays
        exact hstays
      | none =>
        rw [hrest] at hstays
        intro q f hf
        refine hstays q f ?_
        have hplain : ∀ a ∈ ["_tupelo"] ++ [k], Plain D.lift a := hD.plain (by simp [hk]; decide)
        exact (writes_transactor hD hd₁).look_of_apart hL.objCid_injective hplain hapart hd hf

theorem stays_authentications (hL : L.Faithful) (hD : D.Sound) (hd : Rooted d)
    (h : applyTransactions D did d txns = .ok d') :
    Stays d d' authenticationsTreePath (lastSet ownershipOf txns) := by
  refine stays_lastSet (k := "authentications") hL hD hd h (by decide) ?_
  intro d d' ranges txn htxn
  by_cases htype : txn.type = .setOwnership
  · left
    unfold transactor at htxn
    rw [htype] at htxn
    obtain ⟨payload, -, hpayload, hset⟩ := setOwnershipTransaction_ok hD htxn
    refine ⟨authenticationObj payload.authentication, ?_, hset⟩
    rw [ownershipOf, if_pos htype, hpayload, Option.map_some]
  · right
    have hne : writePath txn.type ≠ writePath .setOwnership := by
      cases ht : txn.type <;> first | decide | exact absurd ht htype
    exact ⟨if_neg htype, apart_writePath hne⟩

theorem stays_stake (hL : L.Faithful) (hD : D.Sound) (hd : Rooted d)
    (h : applyTransactions D did d txns = .ok d') :
    Stays d d' stakeTreePath (lastSet stakeOf txns) := by
  refine stays_lastSet (k := "stake") hL hD hd h (by decide) ?_
  intro d d' ranges txn htxn
  by_cases htype : txn.type = .stake
  · left
    unfold transactor at htxn
    rw [htype] at htxn
    exact ⟨_, if_pos htype, (stakeTransaction_ok hD htxn).2⟩
  · right
    have hne : writePath txn.type ≠ writePath .stake := by
      cases ht : txn.type <;> first | decide | exact absurd ht htype
    exact ⟨if_neg htype, apart_writePath hne⟩

/--
**Transactions of different kinds do not interfere.** The data and the tokens are what the
transactions of their kind make of them alone, and owners and stake are the last ones set.

A transaction that follows a link out of the data may need a node that one of another kind has
made. Without it the run alone fails; it never makes another subtree.
-/
theorem kinds_do_not_interfere (hL : L.Faithful) (hD : D.Sound) (hd : Rooted d)
    (h : applyTransactions D did d txns = .ok d') :
    RunsAlone D did d d' txns (· == .setData) dataTreePath ∧
      RunsAlone D did d d' txns TransactionType.isToken tokensTreePath ∧
      Stays d d' authenticationsTreePath (lastSet ownershipOf txns) ∧
      Stays d d' stakeTreePath (lastSet stakeOf txns) ∧
      ((∀ a ∈ txns, a.2.type = .setData) →
        ∀ q f, d.look ("_tupelo" :: q) = some f → d'.look ("_tupelo" :: q) = some f) ∧
      Rooted d' := by
  refine ⟨runsAlone_setData hL hD hd h, runsAlone_tokens hL hD hd h,
    stays_authentications hL hD hd h, stays_stake hL hD hd h, ?_,
    rooted_applyTransactions hL hD hd h⟩
  intro hall q f hf
  refine look_applyTransactions hL hD hd h (by decide) ?_ hf
  intro a ha
  rw [hall a ha]
  exact Apart.head (by decide) [] []

end Runs

namespace InterferenceExample

def pledge : Obj Cid := .map [("group", .str "g")]

noncomputable def setLink : Transaction where
  type := .setData
  setDataPayload := some ⟨"x", some (.link (Ipld.inFull.objCid pledge))⟩

def stake : Transaction where
  type := .stake
  stakePayload := some pledge

def setBelow : Transaction where
  type := .setData
  setDataPayload := some ⟨"x/y", some (.uint 1)⟩

def own : Transaction where
  type := .setOwnership
  setOwnershipPayload := some ⟨["did:tupelo:b"]⟩

noncomputable def txns : List (Ranges × Transaction) :=
  [setLink, stake, setBelow, own].map fun txn => (Ranges.plain, txn)

theorem succeeds_txns : (applyTransactions (DagLib.std Ipld.inFull) "did:tupelo:a"
    (emptyTree Ipld.inFull) txns).toOption.isSome = true := by decide +kernel

theorem rooted_emptyTree : Rooted (emptyTree Ipld.inFull) := by
  intro root hroot
  have hempty := Store.le_all Ipld.inFull_faithful.objCid_injective
    (emptyTree Ipld.inFull).store _ _ (Store.nodes_add_self _ _)
  obtain rfl := Option.some.inj (hempty.symm.trans hroot)
  exact clear_empty _ _

/-- Data below a link to what is then staked is what the data transactions alone make of it. -/
theorem kinds_do_not_interfere_example : ∃ d' e,
    applyTransactions (DagLib.std Ipld.inFull) "did:tupelo:a" (emptyTree Ipld.inFull) txns =
      .ok d' ∧
    applyTransactions (DagLib.std Ipld.inFull) "did:tupelo:a"
      { emptyTree Ipld.inFull with store := d'.store }
      [(Ranges.plain, setLink), (Ranges.plain, setBelow)] = .ok e ∧
    (∀ q f, d'.look ("data" :: q) = some f → e.look ("data" :: q) = some f) ∧
    d'.look stakeTreePath = some (.found pledge) ∧
    d'.look authenticationsTreePath = some (.found (.list [.str "did:tupelo:b"])) := by
  obtain ⟨d', hd'⟩ := Option.isSome_iff_exists.mp succeeds_txns
  have hd' := toOption_eq_some.mp hd'
  obtain ⟨hdata, -, hown, hstake, -⟩ := kinds_do_not_interfere Ipld.inFull_faithful
    (DagLib.std_sound _) rooted_emptyTree hd'
  obtain ⟨e, he, hsame⟩ := hdata.succeeds (DagLib.std_complete _)
  exact ⟨d', e, hd', he, hsame, hstake, hown⟩

/-- Over the nodes of the tree alone the data transactions do not succeed without the stake. -/
theorem data_alone_misses_node :
    (∃ d', applyTransactions (DagLib.std Ipld.inFull) "did:tupelo:a" (emptyTree Ipld.inFull)
      txns = .ok d') ∧
    ¬ ∃ e, applyTransactions (DagLib.std Ipld.inFull) "did:tupelo:a" (emptyTree Ipld.inFull)
      (txns.filter fun a => a.2.type == .setData) = .ok e := by
  constructor
  · obtain ⟨d', hd'⟩ := Option.isSome_iff_exists.mp succeeds_txns
    exact ⟨d', toOption_eq_some.mp hd'⟩
  · have hfails : (applyTransactions (DagLib.std Ipld.inFull) "did:tupelo:a"
        (emptyTree Ipld.inFull) (txns.filter fun a => a.2.type == .setData)).toOption.isNone =
          true := by decide +kernel
    rintro ⟨e, he⟩
    rw [he] at hfails
    cases hfails

end InterferenceExample

end Tupelo

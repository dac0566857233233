import Tupelo.Infra.Lru
import Tupelo.Infra.Uvarint
import Tupelo.Sdk.Rounds
import Tupelo.Signer.Mempool
import Tupelo.Signer.State

/-!
# A signer

The model of `signer/gossip/node.go` and `signer/gossip/rounds.go`: the state of a `Node`, its
actor's two messages, the goroutines these spawn, and the start on a data store.

Goroutines run at any time, one step of theirs at a time: a step is what happens under one lock
or one call of a store. `promotions` are the goroutines that run `storeAbr` for a request that
was in flight, `threads` those that run `backgroundProcess` or `publishCompletedRound`.

Rounds that have been decided are shared between the cache and the goroutines, and mutated, so
they live in a heap and are referred to by their position in it. The round that is being
decided is referred to by the node only.

Heights of rounds are natural numbers: a signer does not come to decide `2 ^ 64` rounds.
-/

namespace Tupelo

open Infra

/-- What a signer is run with: content addressing, and `BLSSign` with its own key and index. -/
structure Env where
  L : Ipld
  sign : Bytes → Except Fault Signature

/-- `datastore.Batching`, by what its `Get` returns. -/
abbrev DataStore := String → Option Bytes

def DataStore.get (s : DataStore) (key : String) : Except Fault Bytes :=
  match s key with
  | some b => .ok b
  | none => .error (.error "datastore: key not found")

def lastCompletedHeightKey : String := "/Snowball/LastCompletedHeight"

def completedRoundsKeyRoot : String := "/Snowball/CompletedRounds"

def roundKey (height : Nat) : String := completedRoundsKeyRoot ++ "/" ++ Nat.repr height

/-- `round` while it is being decided. -/
structure CurrentRound where
  height : Nat
  preferred : Option Checkpoint

/-- `round` once it has been decided, or restored: it has a state. -/
structure PastRound where
  height : Nat
  preferred : Checkpoint
  decided : Bool
  state : GlobalState
  published : Bool

/--
Where a goroutine of a completed round stands: in `backgroundProcess` up to `flush`, in
`publishCompletedRound` from `putState` on. Each constructor is the next call it makes.
-/
inductive Pc where
  | start
  | txs (rest : List (Bytes × AddBlockWrapper))
  | flush
  | putState
  | addCheckpoint (stateCid : Cid)
  | addRound (completed : Round)
  | putHeight (completed : Round)
  | putRound (completed : Round)
  | confirm (completed : Round)
  | publish (conf : RoundConfirmation)

/-- A goroutine, with the round it was started for. -/
structure Thread where
  round : Nat
  pc : Pc

/-- `Node` with its `roundHolder`. `pubsub` is what it has published so far. -/
structure Node where
  mempool : Mempool
  inflight : Lru Bytes AddBlockWrapper
  current : CurrentRound
  started : Bool
  heap : List PastRound
  roundCache : Lru Nat Nat
  roundRepublishCache : Lru Nat RoundConfirmation
  dagStore : DagStore
  dataStore : DataStore
  promotions : List AddBlockWrapper
  threads : List Thread
  pubsub : List RoundConfirmation

namespace Node

/-! ## `rounds.go` -/

def restoreRound (L : Ipld) (n : Node) (height : Nat) : Except Fault PastRound := do
  let roundCIDBytes ← wrapErr s!"could not look up round for height {height}: "
    (n.dataStore.get (roundKey height))
  let roundCID ← wrapErr "could not cast to CID: " (L.cast roundCIDBytes)
  let roundNode ←
    wrapErr "could not get last completed round from DAG store: " (n.dagStore.get roundCID)
  let gr ← wrapErr "could not decode round: " roundNode.asRound
  let cp ← wrapErr "could not fetch checkpoint from completed round: "
    (gr.fetchCheckpoint L n.dagStore)
  let h ← wrapErr "could not fetch HAMT: " (gr.fetchHamt L n.dagStore)
  pure { height := gr.height, preferred := cp, decided := false
         state := { hamt := h, inflight := ∅ }, published := false }

/-- `roundHolder.Get` for a height other than the current one. -/
def get (L : Ipld) (n : Node) (height : Nat) : Option Nat × Node :=
  match n.roundCache.get height with
  | (some r, cache) => (some r, { n with roundCache := cache })
  | (none, _) =>
    match n.restoreRound L height with
    | .error _ => (none, n)
    | .ok r =>
      (some n.heap.length, { n with
        heap := n.heap ++ [r]
        roundCache := n.roundCache.add height n.heap.length })

/-! ## `node.go`: starting -/

/-- The height at which `initRoundHolder` resumes. -/
def resumeHeight (dataStore : DataStore) : Except Fault Nat :=
  match dataStore lastCompletedHeightKey with
  | none => .ok 0
  | some heightBytes =>
    match uvarint heightBytes with
    | some height => .ok (height + 1)
    | none => .error (.error "could not decode last completed round height")

/-- `NewNode` with `initRoundHolder`, on the stores of an earlier run. -/
def initRoundHolder (dagStore : DagStore) (dataStore : DataStore)
    (pubsub : List RoundConfirmation) : Except Fault Node := do
  let height ← resumeHeight dataStore
  pure { mempool := Mempool.new, inflight := Lru.new 500
         current := { height, preferred := none }, started := false
         heap := [], roundCache := Lru.new 64, roundRepublishCache := Lru.new 3
         dagStore, dataStore, promotions := [], threads := [], pubsub }

/-! ## `node.go`: requests -/

def getCurrent (L : Ipld) (n : Node) (objectID : Bytes) :
    Except Fault (Option AddBlockRequest) × Node :=
  -- the genesis round: there is, by definition, no state
  if n.current.height = 0 then (.ok none, n)
  else match n.get L (n.current.height - 1) with
    | (none, n) => (.error (.error "we don't have the previous round"), n)
    | (some p, n) => (deref n.heap[p]? >>= fun r => r.state.find n.dagStore objectID, n)

def inFlightID (objectID : Bytes) (height : UInt64) : Bytes := objectID ++ formatUint height

def storeAsInFlight (n : Node) (w : AddBlockWrapper) : Node :=
  { n with inflight := n.inflight.add (inFlightID w.abr.objectId w.abr.height) w }

/-- `storeAbr`; `stored` says whether the `Put` succeeds. -/
def storeAbr (L : Ipld) (n : Node) (w : AddBlockWrapper) (stored : Bool) : Node :=
  if stored then
    let id := L.cidOf (.addBlockRequest w.abr)
    { n with
      dagStore := n.dagStore.add L (.addBlockRequest w.abr)
      mempool := n.mempool.add L { w with cid := id } }
  else n

def handleAddBlockRequest (L : Ipld) (n : Node) (w : AddBlockWrapper) (stored : Bool) : Node :=
  let abr := w.abr
  match n.getCurrent L abr.objectId with
  | (.error _, n) => n
  | (.ok none, n) => if abr.height = 0 then n.storeAbr L w stored else n.storeAsInFlight w
  | (.ok (some current), n) =>
    if current.height > abr.height then n
    else if current.height + 1 = abr.height then
      if current.newTip ≠ abr.previousTip then n else n.storeAbr L w stored
    else if abr.height > current.height + 1 then n.storeAsInFlight w
    else n

/-! ## `node.go`: rounds -/

/-- `snowballer.Start`: the preference is what the mempool prefers. -/
def startSnowball (n : Node) : Node :=
  if n.started then n
  else
    let preferred := n.mempool.preferred
    if preferred.length > 0 then
      let cp : Checkpoint :=
        { height := n.current.height, addBlockRequests := preferred.map (·.bytes) }
      { n with started := true, current := { n.current with preferred := some cp } }
    else { n with started := true }

/-- If the next request of the object is in flight it is taken out, and stored if it fits. -/
def promoteNext (n : Node) (w : AddBlockWrapper) : Node :=
  let nextKey := inFlightID w.abr.objectId (w.abr.height + 1)
  match n.inflight.get nextKey with
  | (none, _) => n
  | (some next, inflight) =>
    { n with
      inflight := inflight.remove nextKey
      promotions :=
        if next.abr.previousTip = w.abr.newTip then n.promotions ++ [next] else n.promotions }

/-- The loop of `handleSnowballerDone` over the requests of the checkpoint. -/
def collect (L : Ipld) : List Bytes → Node → Except Fault (List (Cid × AddBlockWrapper) × Node)
  | [], n => .ok ([], n)
  | cidBytes :: rest, n => do
    let abrCid ← Mempool.castOrPanic L cidBytes
    let abrWrapper ← deref (n.mempool.get abrCid)
    let (abrs, n) ← collect L rest (n.promoteNext abrWrapper)
    pure ((abrCid, abrWrapper) :: abrs, n)

/-- The copy of the previous round's state, or the genesis state. -/
def previousState (L : Ipld) (n : Node) : Except Fault (GlobalState × Node) :=
  if n.current.height = 0 then .ok (GlobalState.new, n)
  else match n.get L (n.current.height - 1) with
    | (none, _) => .error (.panic "invalid memory address or nil pointer dereference")
    | (some p, n) => do
      let previousRound ← deref n.heap[p]?
      pure (previousRound.state, n)

/-- `handleSnowballerDone` for a snowball that has decided on `cp`. -/
def handleSnowballerDone (L : Ipld) (n : Node) (cp : Checkpoint) : Except Fault Node := do
  let (state, n) ← n.previousState L
  let (abrs, n) ← collect L cp.addBlockRequests n
  let completedRound : PastRound :=
    { height := n.current.height, preferred := cp, decided := true
      state := state.addInflights (abrs.map (·.2)), published := false }
  pure { n with
    mempool := n.mempool.bulkDelete (abrs.map (·.1))
    heap := n.heap ++ [completedRound]
    threads := n.threads ++ [{ round := n.heap.length, pc := .start }]
    -- `SetCurrent`
    roundCache := n.roundCache.add n.current.height n.heap.length
    current := { height := n.current.height + 1, preferred := none }
    started := false }

/-- `handleStream`: the checkpoint that is answered for a height. -/
def handleStream (L : Ipld) (n : Node) (height : Nat) : Checkpoint × Node :=
  let response : Checkpoint := { height, addBlockRequests := [] }
  if height = n.current.height then (n.current.preferred.getD response, n)
  else
    let (r, n) := n.get L height
    ((r.bind fun p => n.heap[p]?.map (·.preferred)).getD response, n)

/-! ## `node.go` and `state.go`: goroutines of a completed round -/

/-- `storeCompletedRound`, the first `Put`. -/
def putLastCompletedHeight (n : Node) (height : Nat) : Node :=
  { n with
    dataStore := Function.update n.dataStore lastCompletedHeightKey (some (putUvarint 10 height)) }

/-- `storeCompletedRound`, the second `Put`. -/
def putCompletedRound (L : Ipld) (n : Node) (completed : Round) : Node :=
  let cidBytes := (L.cidOf (.round completed)).bytes
  { n with dataStore := Function.update n.dataStore (roundKey completed.height) (some cidBytes) }

def confirmCompletedRound (E : Env) (completed : Round) : Except Fault RoundConfirmation := do
  let roundCid := E.L.cidOf (.round completed)
  let sig ← wrapErr "error signing current state checkpoint: " (E.sign roundCid.bytes)
  pure { roundCid := roundCid.bytes, signature := some sig, height := completed.height }

def addNode (L : Ipld) (n : Node) (x : DagNode) : Node := { n with dagStore := n.dagStore.add L x }

def setRound (n : Node) (p : Nat) (r : PastRound) : Node := { n with heap := n.heap.set p r }

/--
One step of a goroutine for the round `r`, which stands at `p`. `pick` is the object the range
over the map comes to next, `ok` says whether the call succeeds. The goroutine goes on at the
place that is returned, or ends.
-/
def stepThread (E : Env) (n : Node) (p : Nat) (r : PastRound) (pick : Nat) (ok : Bool) :
    Pc → Option (Node × Option Pc)
  | .start => some (n, some (.txs (r.state.inflight.entries.map fun e => (e.1, e.2))))
  | .txs [] => some (n, some .flush)
  | .txs (e :: rest) =>
    match (e :: rest)[pick]? with
    | none => none
    | some (objectID, w) =>
      if ok then
        some (n.setRound p { r with state := r.state.settle objectID w },
          some (.txs ((e :: rest).eraseIdx pick)))
      else some (n, none)
  -- a failure panics
  | .flush => if ok then some (n, some .putState) else none
  | .putState =>
    if ok then
      let n := n.addNode E.L (.hamt r.state.hamt)
      some (n, if r.decided then some (.addCheckpoint (E.L.cidOf (.hamt r.state.hamt))) else none)
    else some (n, none)
  | .addCheckpoint stateCid =>
    if ok then
      let completed : Round :=
        { height := r.height, stateCid := stateCid.bytes
          checkpointCid := (E.L.cidOf (.checkpoint r.preferred)).bytes }
      some (n.addNode E.L (.checkpoint r.preferred), some (.addRound completed))
    else some (n, none)
  | .addRound completed =>
    if ok then some (n.addNode E.L (.round completed), some (.putHeight completed))
    else some (n, none)
  | .putHeight completed =>
    if ok then some (n.putLastCompletedHeight completed.height, some (.putRound completed))
    else some (n, none)
  | .putRound completed =>
    if ok then some (n.putCompletedRound E.L completed, some (.confirm completed))
    else some (n, none)
  | .confirm completed =>
    match confirmCompletedRound E completed with
    | .error _ => some (n, none)
    | .ok conf =>
      some ({ n with roundRepublishCache := n.roundRepublishCache.add r.height conf },
        some (.publish conf))
  | .publish conf =>
    let n := n.setRound p { r with published := true }
    some (if ok then { n with pubsub := n.pubsub ++ [conf] } else n, none)

/-- The height before, in `uint64`. -/
def prevHeight (height : Nat) : Nat := if height = 0 then 2 ^ 64 - 1 else height - 1

/-- `maybeRepublish` and `republishCompletedRound`; `ok` says whether the publishing succeeds. -/
def maybeRepublish (L : Ipld) (n : Node) (ok : Bool) : Node :=
  if n.started then n
  else match n.get L (prevHeight n.current.height) with
    | (none, n) => n
    | (some p, n) =>
      match n.heap[p]? with
      | none => n
      | some r =>
        if !r.published then n
        else match n.roundRepublishCache.peek r.height with
          | some conf => if ok then { n with pubsub := n.pubsub ++ [conf] } else n
          | none => { n with threads := n.threads ++ [{ round := p, pc := .putState }] }

/-! ## Runs -/

/-- What can happen to a signer. A `Bool` says whether the call of a store succeeds. -/
inductive Event where
  /-- A validated request arrives. -/
  | addBlockRequest (abr : AddBlockRequest) (stored : Bool)
  /-- One of the spawned `storeAbr` runs. -/
  | promotion (i : Nat) (stored : Bool)
  | startSnowball
  /-- The snowball has decided, on a checkpoint whose votes were not nilled out. -/
  | snowballerDone (cp : Checkpoint)
  /-- A goroutine of a completed round takes a step. -/
  | background (i pick : Nat) (ok : Bool)
  /-- Another signer asks for a height. -/
  | stream (height : Nat)
  | republish (ok : Bool)

/-- The goroutine at `i` goes on at `pc`, or ends. -/
def setThread (n : Node) (i : Nat) (t : Thread) : Option Pc → Node
  | some pc => { n with threads := n.threads.set i { t with pc } }
  | none => { n with threads := n.threads.eraseIdx i }

def stepBackground (E : Env) (n : Node) (i pick : Nat) (ok : Bool) : Option Node := do
  let t ← n.threads[i]?
  let r ← n.heap[t.round]?
  let (n, pc) ← n.stepThread E t.round r pick ok t.pc
  pure (n.setThread i t pc)

/-- One event. It is not possible where there is no result: nothing to run, or a panic. -/
def step (E : Env) (n : Node) : Event → Option Node
  | .addBlockRequest abr stored =>
    some (n.handleAddBlockRequest E.L { abr, cid := Cid.undef } stored)
  | .promotion i stored => do
    let w ← n.promotions[i]?
    pure ({ n with promotions := n.promotions.eraseIdx i }.storeAbr E.L w stored)
  | .startSnowball => some n.startSnowball
  | .snowballerDone cp =>
    if n.started ∧ n.mempool.nilsVote E.L cp.addBlockRequests = .ok false then
      (n.handleSnowballerDone E.L cp).toOption
    else none
  | .background i pick ok => n.stepBackground E i pick ok
  | .stream height => some (n.handleStream E.L height).2
  | .republish ok => some (n.maybeRepublish E.L ok)

/-- A signer that has never run, with empty stores. -/
def genesis : Node where
  mempool := Mempool.new
  inflight := Lru.new 500
  current := { height := 0, preferred := none }
  started := false
  heap := []
  roundCache := Lru.new 64
  roundRepublishCache := Lru.new 3
  dagStore := fun _ => none
  dataStore := fun _ => none
  promotions := []
  threads := []
  pubsub := []

/-! ## The keys of the data store -/

theorem roundKey_injective : Function.Injective roundKey := by
  intro a b h
  have hl := congrArg String.toList h
  simp only [roundKey, String.toList_append] at hl
  have hdigits : Nat.toDigits 10 a = Nat.toDigits 10 b := by
    simpa [Nat.repr_eq_ofList_toDigits] using List.append_cancel_left hl
  rw [← Nat.ofDigitChars_ten_toDigits (n := a), hdigits, Nat.ofDigitChars_ten_toDigits]

theorem roundKey_ne_last (height : Nat) : roundKey height ≠ lastCompletedHeightKey := by
  intro h
  have hl := congrArg (fun s => s.toList[10]?) h
  simp only [roundKey, String.toList_append, List.append_assoc] at hl
  rw [List.getElem?_append_left (by decide)] at hl
  exact absurd hl (by decide)

section DataStore

variable (L : Ipld) (n : Node) (height : Nat) (completed : Round)

@[simp] theorem putLastCompletedHeight_last :
    (n.putLastCompletedHeight height).dataStore lastCompletedHeightKey =
      some (putUvarint 10 height) := by
  simp only [putLastCompletedHeight, Function.update_self]

@[simp] theorem putLastCompletedHeight_roundKey (k : Nat) :
    (n.putLastCompletedHeight height).dataStore (roundKey k) = n.dataStore (roundKey k) := by
  simp only [putLastCompletedHeight, Function.update_of_ne (roundKey_ne_last k)]

@[simp] theorem putCompletedRound_last :
    (n.putCompletedRound L completed).dataStore lastCompletedHeightKey =
      n.dataStore lastCompletedHeightKey := by
  simp only [putCompletedRound, Function.update_of_ne (roundKey_ne_last _).symm]

theorem putCompletedRound_roundKey (k : Nat) :
    (n.putCompletedRound L completed).dataStore (roundKey k) =
      if k = completed.height then some (L.cidOf (.round completed)).bytes
      else n.dataStore (roundKey k) := by
  simp only [putCompletedRound]
  by_cases hk : k = completed.height
  · rw [if_pos hk, hk, Function.update_self]
  · rw [if_neg hk, Function.update_of_ne (fun h => hk (roundKey_injective h))]

end DataStore

/-! ## Looking up a round -/

variable {L : Ipld} {n : Node}
variable {n₁ : Node} {height : Nat} {cp : Checkpoint}

/-- A lookup finds the round in the cache, or restores it, or fails. -/
theorem get_cases (L : Ipld) (n : Node) (height : Nat) :
    (∃ p, n.roundCache.peek height = some p ∧
      n.get L height = (some p, { n with roundCache := (n.roundCache.get height).2 })) ∨
    n.get L height = (none, n) ∨
    ∃ r, n.restoreRound L height = .ok r ∧
      n.get L height = (some n.heap.length, { n with
        heap := n.heap ++ [r]
        roundCache := n.roundCache.add height n.heap.length }) := by
  unfold get
  cases hg : n.roundCache.get height with
  | mk found cache =>
    cases found with
    | some p =>
      have hpeek : n.roundCache.peek height = some p := by rw [← Lru.get_fst, hg]
      exact Or.inl ⟨p, hpeek, rfl⟩
    | none =>
      refine Or.inr ?_
      cases hr : n.restoreRound L height with
      | error f => exact Or.inl rfl
      | ok r => exact Or.inr ⟨r, rfl, rfl⟩

/-- A lookup changes nothing but the heap and the cache. -/
theorem get_frame (L : Ipld) (n : Node) (height : Nat) :
    ∃ heap roundCache, (n.get L height).2 = { n with heap, roundCache } := by
  rcases get_cases L n height with ⟨p, -, h⟩ | h | ⟨r, -, h⟩
  · rw [h]
    exact ⟨_, _, rfl⟩
  · rw [h]
    exact ⟨n.heap, n.roundCache, rfl⟩
  · rw [h]
    exact ⟨_, _, rfl⟩

/-- What has been stored in full can be restored. -/
theorem restoreRound_of_stored (hL : L.Faithful) {completed : Round} {h : Hamt}
    (hdata : n.dataStore (roundKey height) = some (L.cidOf (.round completed)).bytes)
    (hround : n.dagStore (L.cidOf (.round completed)) = some (.round completed))
    (hcpCid : completed.checkpointCid = (L.cidOf (.checkpoint cp)).bytes)
    (hcp : n.dagStore (L.cidOf (.checkpoint cp)) = some (.checkpoint cp))
    (hstateCid : completed.stateCid = (L.cidOf (.hamt h)).bytes)
    (hstate : n.dagStore (L.cidOf (.hamt h)) = some (.hamt h)) :
    n.restoreRound L height = .ok
      { height := completed.height, preferred := cp, decided := false
        state := { hamt := h, inflight := ∅ }, published := false } := by
  unfold restoreRound
  simp only [DataStore.get, hdata, hL.cast_cidOf, DagStore.get, hround, DagNode.asRound,
    Round.fetchCheckpoint_of_mem hL hcpCid hcp, Round.fetchHamt_of_mem hL hstateCid hstate,
    wrapErr, ok_bind]
  rfl

/-- A round that is stored and not cached is restored. -/
theorem get_of_restored {r : PastRound} (hpeek : n.roundCache.peek height = none)
    (hr : n.restoreRound L height = .ok r) :
    n.get L height = (some n.heap.length, { n with
      heap := n.heap ++ [r]
      roundCache := n.roundCache.add height n.heap.length }) := by
  unfold get
  rw [Lru.get_of_peek_none hpeek]
  simp only [hr]

/-- What is restored is the round whose CID is stored, with the state the round names. -/
theorem restoreRound_ok {r : PastRound} (h : n.restoreRound L height = .ok r) :
    ∃ b gr, n.dataStore (roundKey height) = some b ∧ n.dagStore ⟨b⟩ = some (.round gr) ∧
      r.height = gr.height ∧ r.published = false ∧ r.state.inflight = ∅ ∧
      ∃ c, n.dagStore c = some (.hamt r.state.hamt) := by
  obtain ⟨b, hb, h⟩ := bind_eq_ok.mp h
  obtain ⟨id, hid, h⟩ := bind_eq_ok.mp h
  obtain ⟨x, hx, h⟩ := bind_eq_ok.mp h
  obtain ⟨gr, hgr, h⟩ := bind_eq_ok.mp h
  obtain ⟨_, _, h⟩ := bind_eq_ok.mp h
  obtain ⟨hamt, hhamt, h⟩ := bind_eq_ok.mp h
  rw [wrapErr_eq_ok] at hb hid hx hgr hhamt
  have hb' : n.dataStore (roundKey height) = some b := by
    unfold DataStore.get at hb
    split at hb
    · next hd => rw [hd, Except.ok.inj hb]
    · cases hb
  have hx' : n.dagStore id = some x := DagStore.get_ok hx
  obtain ⟨c, -, hc⟩ := Round.fetchHamt_ok hhamt
  have hround : x = .round gr := by
    cases x with
    | round r => rw [Except.ok.inj hgr]
    | _ => cases hgr
  have hbytes : id = ⟨b⟩ := by rw [← Ipld.cast_ok hid]
  rw [hround, hbytes] at hx'
  rw [← pure_eq_ok.mp h]
  exact ⟨b, gr, hb', hx', rfl, rfl, rfl, c, hc⟩

/-! ## What each function does -/

/-- The node as it was, or after a round has been looked up. -/
inductive Looked (L : Ipld) (n : Node) : Node → Prop where
  | same : Looked L n n
  | get (height : Nat) : Looked L n (n.get L height).2

theorem Looked.of_get {found : Option Nat} (h : n.get L height = (found, n₁)) : Looked L n n₁ := by
  rw [show n₁ = (n.get L height).2 by rw [h]]
  exact .get height

/-- **What lookups keep** holds after one or none. -/
theorem Looked.rule {P : Node → Prop} (h : Looked L n n₁) (hn : P n)
    (hget : ∀ height, P (n.get L height).2) : P n₁ := by
  cases h with
  | same => exact hn
  | get height => exact hget height

theorem Looked.frame (h : Looked L n n₁) : ∃ heap roundCache, n₁ = { n with heap, roundCache } :=
  h.rule (P := fun n₁ => ∃ heap roundCache, n₁ = { n with heap, roundCache })
    ⟨n.heap, n.roundCache, rfl⟩ (get_frame L n)

theorem Looked.dagStore (h : Looked L n n₁) : n₁.dagStore = n.dagStore := by
  obtain ⟨heap, roundCache, rfl⟩ := h.frame
  rfl

theorem looked_getCurrent (L : Ipld) (n : Node) (obj : Bytes) :
    Looked L n (n.getCurrent L obj).2 := by
  unfold getCurrent
  split
  · exact .same
  · split
    · next h => exact Looked.of_get h
    · next h => exact Looked.of_get h

/-- The request continues the chain of its object, which is at the given one. -/
def Extends : Option AddBlockRequest → AddBlockRequest → Prop
  | none, abr => abr.height = 0
  | some current, abr =>
    abr.height.toNat = current.height.toNat + 1 ∧ abr.previousTip = current.newTip

instance : ∀ current abr, Decidable (Extends current abr)
  | none, abr => inferInstanceAs (Decidable (abr.height = 0))
  | some current, abr => inferInstanceAs (Decidable
      (abr.height.toNat = current.height.toNat + 1 ∧ abr.previousTip = current.newTip))

/-- The next height does not wrap: a request at height 0 is below any current one. -/
theorem toNat_next_height {c a : UInt64} (hle : ¬ c > a) (h : c + 1 = a) :
    a.toNat = c.toNat + 1 := by
  have hle' : c.toNat ≤ a.toNat := by
    rw [gt_iff_lt, UInt64.lt_iff_toNat_lt] at hle
    omega
  have hadd := congrArg UInt64.toNat h
  rw [UInt64.toNat_add] at hadd
  have h1 : (1 : UInt64).toNat = 1 := rfl
  have hc := c.toNat_lt
  omega

/-- **A request is stored only if it extends what `getCurrent` returns.** -/
theorem handleAddBlockRequest_cases (L : Ipld) (n : Node) (w : AddBlockWrapper) (stored : Bool) :
    n.handleAddBlockRequest L w stored = (n.getCurrent L w.abr.objectId).2 ∨
    n.handleAddBlockRequest L w stored =
      (n.getCurrent L w.abr.objectId).2.storeAsInFlight w ∨
    ∃ current, (n.getCurrent L w.abr.objectId).1 = .ok current ∧ Extends current w.abr ∧
      n.handleAddBlockRequest L w stored =
        (n.getCurrent L w.abr.objectId).2.storeAbr L w stored := by
  unfold handleAddBlockRequest
  simp only []
  cases hg : n.getCurrent L w.abr.objectId with
  | mk current n₁ =>
    cases current with
    | error f => exact Or.inl rfl
    | ok current =>
      cases current with
      | none =>
        simp only []
        split
        · next h0 => exact Or.inr (Or.inr ⟨none, rfl, h0, rfl⟩)
        · exact Or.inr (Or.inl rfl)
      | some current =>
        simp only []
        split
        · exact Or.inl rfl
        · next hle =>
          split
          · next hnext =>
            split
            · exact Or.inl rfl
            · next htip =>
              refine Or.inr (Or.inr ⟨some current, rfl, ?_, rfl⟩)
              exact ⟨toNat_next_height hle hnext, (not_not.mp htip).symm⟩
          · split
            · exact Or.inr (Or.inl rfl)
            · exact Or.inl rfl

/-- Looking for the next request takes it out of the cache, or leaves the cache as it is. -/
theorem promoteNext_inflight (n : Node) (w : AddBlockWrapper) :
    (n.inflight.peek (inFlightID w.abr.objectId (w.abr.height + 1)) = none ∧
      n.promoteNext w = n) ∨
    ∃ next, n.inflight.peek (inFlightID w.abr.objectId (w.abr.height + 1)) = some next ∧
      n.promoteNext w = { n with
        inflight := (n.inflight.get (inFlightID w.abr.objectId (w.abr.height + 1))).2.remove
          (inFlightID w.abr.objectId (w.abr.height + 1))
        promotions := if next.abr.previousTip = w.abr.newTip then n.promotions ++ [next]
          else n.promotions } := by
  unfold promoteNext
  simp only []
  cases hget : n.inflight.get (inFlightID w.abr.objectId (w.abr.height + 1)) with
  | mk found cache =>
    have hpeek : n.inflight.peek (inFlightID w.abr.objectId (w.abr.height + 1)) = found := by
      rw [← Lru.get_fst, hget]
    cases found with
    | none => exact Or.inl ⟨hpeek, rfl⟩
    | some next => exact Or.inr ⟨next, hpeek, rfl⟩

/-- The two fields the loop of `handleSnowballerDone` changes. -/
theorem promoteNext_eq (n : Node) (w : AddBlockWrapper) :
    ∃ inflight promotions, n.promoteNext w = { n with inflight, promotions } := by
  rcases promoteNext_inflight n w with ⟨-, heq⟩ | ⟨next, -, heq⟩
  · exact ⟨n.inflight, n.promotions, heq⟩
  · exact ⟨_, _, heq⟩

/-- A CID of a checkpoint, with the request it stands for in the mempool. -/
def Names (L : Ipld) (m : Mempool) (b : Bytes) (e : Cid × AddBlockWrapper) : Prop :=
  L.cast b = .ok e.1 ∧ m.get e.1 = some e.2

/-- One round of the loop: the request is looked up, then the next one of its object. -/
theorem collect_cons {b : Bytes} {bs : List Bytes} {n' : Node} {abrs : List (Cid × AddBlockWrapper)}
    (h : collect L (b :: bs) n = .ok (abrs, n')) :
    ∃ id w rest, abrs = (id, w) :: rest ∧ Names L n.mempool b (id, w) ∧
      collect L bs (n.promoteNext w) = .ok (rest, n') := by
  obtain ⟨id, hid, h⟩ := bind_eq_ok.mp h
  obtain ⟨w, hw, h⟩ := bind_eq_ok.mp h
  obtain ⟨⟨rest, n₂⟩, hrest, h⟩ := bind_eq_ok.mp h
  obtain ⟨rfl, rfl⟩ := Prod.mk.inj (pure_eq_ok.mp h)
  exact ⟨id, w, rest, rfl, ⟨Mempool.castOrPanic_ok.mp hid, deref_eq_ok hw⟩, hrest⟩

/-- **What `promoteNext` keeps**, the loop of `handleSnowballerDone` keeps. -/
theorem collect_rule {P : Node → Prop} (hstep : ∀ n w, P n → P (n.promoteNext w)) :
    ∀ {bs : List Bytes} {n n' : Node} {abrs : List (Cid × AddBlockWrapper)},
      collect L bs n = .ok (abrs, n') → P n → P n'
  | [], n, n', abrs, h, hn => by
    obtain ⟨-, rfl⟩ := Prod.mk.inj (Except.ok.inj h)
    exact hn
  | b :: bs, n, n', abrs, h, hn => by
    obtain ⟨id, w, rest, -, -, hrest⟩ := collect_cons h
    exact collect_rule hstep hrest (hstep n w hn)

theorem collect_ok : ∀ {bs : List Bytes} {n n' : Node} {abrs : List (Cid × AddBlockWrapper)},
    collect L bs n = .ok (abrs, n') →
      List.Forall₂ (Names L n.mempool) bs abrs ∧
      ∃ inflight promotions, n' = { n with inflight, promotions }
  | [], n, n', abrs, h => by
    obtain ⟨rfl, rfl⟩ := Prod.mk.inj (Except.ok.inj h)
    exact ⟨List.Forall₂.nil, n.inflight, n.promotions, rfl⟩
  | b :: bs, n, n', abrs, h => by
    obtain ⟨id, w, rest, rfl, hname, hrest⟩ := collect_cons h
    obtain ⟨i₁, p₁, hn₁⟩ := promoteNext_eq n w
    obtain ⟨hnames, i₂, p₂, hn₂⟩ := collect_ok hrest
    rw [hn₁] at hnames hn₂
    exact ⟨List.Forall₂.cons hname hnames, i₂, p₂, hn₂⟩

/-- The previous round was found, unless this is the genesis round. -/
theorem previousState_ok {n' : Node} {state : GlobalState}
    (h : n.previousState L = .ok (state, n')) :
    (n.current.height = 0 ∧ state = GlobalState.new ∧ n' = n) ∨
    (n.current.height ≠ 0 ∧ ∃ p r, n.get L (n.current.height - 1) = (some p, n') ∧
      n'.heap[p]? = some r ∧ state = r.state) := by
  unfold previousState at h
  split at h
  · next h0 =>
    obtain ⟨rfl, rfl⟩ := Prod.mk.inj (Except.ok.inj h)
    exact Or.inl ⟨h0, rfl, rfl⟩
  · next h0 =>
    refine Or.inr ⟨h0, ?_⟩
    split at h
    · cases h
    · next p n₁ hget =>
      obtain ⟨r, hr, h⟩ := bind_eq_ok.mp h
      obtain ⟨rfl, rfl⟩ := Prod.mk.inj (pure_eq_ok.mp h)
      exact ⟨p, r, hget, deref_eq_ok hr, rfl⟩

theorem looked_previousState {n' : Node} {state : GlobalState}
    (h : n.previousState L = .ok (state, n')) : Looked L n n' := by
  rcases previousState_ok h with ⟨-, -, rfl⟩ | ⟨-, p, r, hget, -, -⟩
  · exact .same
  · exact Looked.of_get hget

/-- The node after a round has been decided, from the node that found the previous state. -/
def complete (n : Node) (cp : Checkpoint) (state : GlobalState)
    (abrs : List (Cid × AddBlockWrapper)) : Node :=
  { n with
    mempool := n.mempool.bulkDelete (abrs.map (·.1))
    heap := n.heap ++
      [{ height := n.current.height, preferred := cp, decided := true
         state := state.addInflights (abrs.map (·.2)), published := false }]
    threads := n.threads ++ [{ round := n.heap.length, pc := .start }]
    roundCache := n.roundCache.add n.current.height n.heap.length
    current := { height := n.current.height + 1, preferred := none }
    started := false }

/-- **What a decision does.** -/
theorem handleSnowballerDone_ok {n' : Node} (h : n.handleSnowballerDone L cp = .ok n') :
    ∃ state n₁ abrs inflight promotions, n.previousState L = .ok (state, n₁) ∧
      List.Forall₂ (Names L n₁.mempool) cp.addBlockRequests abrs ∧
      n' = { n₁.complete cp state abrs with inflight, promotions } := by
  obtain ⟨⟨state, n₁⟩, hstate, h⟩ := bind_eq_ok.mp h
  obtain ⟨⟨abrs, n₂⟩, habrs, h⟩ := bind_eq_ok.mp h
  obtain ⟨hnames, inflight, promotions, rfl⟩ := collect_ok habrs
  refine ⟨state, n₁, abrs, inflight, promotions, hstate, hnames, ?_⟩
  rw [← pure_eq_ok.mp h]
  rfl

/-- A round is decided on a checkpoint that got votes, and nothing panicked. -/
theorem step_snowballerDone {E : Env} {n n' : Node} (h : n.step E (.snowballerDone cp) = some n') :
    n.mempool.nilsVote E.L cp.addBlockRequests = .ok false ∧
      n.handleSnowballerDone E.L cp = .ok n' := by
  rw [step] at h
  split at h
  · next hguard =>
    refine ⟨hguard.2, ?_⟩
    cases hd : n.handleSnowballerDone E.L cp with
    | error f =>
      rw [hd] at h
      cases h
    | ok n₁ =>
      rw [hd] at h
      rw [Option.some.inj h]
  · cases h

/--
What a step of a goroutine can do to the signer, and where the goroutine goes on. The goroutine
is for the round `r`, which stands at `p`; the `Bool` says whether the call succeeds.
-/
inductive ThreadStep (E : Env) (n : Node) (p : Nat) (r : PastRound) :
    Bool → Pc → Node → Option Pc → Prop where
  /-- A failed call ends the goroutine and changes nothing. -/
  | fail (pc : Pc) : ThreadStep E n p r false pc n none
  | start (ok : Bool) : ThreadStep E n p r ok .start n
      (some (.txs (r.state.inflight.entries.map fun e => (e.1, e.2))))
  | settled (ok : Bool) : ThreadStep E n p r ok (.txs []) n (some .flush)
  | settle {todo : List (Bytes × AddBlockWrapper)} {pick : Nat} {objectID : Bytes}
      {w : AddBlockWrapper} (hpick : todo[pick]? = some (objectID, w)) :
      ThreadStep E n p r true (.txs todo)
        (n.setRound p { r with state := r.state.settle objectID w })
        (some (.txs (todo.eraseIdx pick)))
  | flush : ThreadStep E n p r true .flush n (some .putState)
  | putState : ThreadStep E n p r true .putState (n.addNode E.L (.hamt r.state.hamt))
      (if r.decided then some (.addCheckpoint (E.L.cidOf (.hamt r.state.hamt))) else none)
  | addCheckpoint (stateCid : Cid) : ThreadStep E n p r true (.addCheckpoint stateCid)
      (n.addNode E.L (.checkpoint r.preferred))
      (some (.addRound
        { height := r.height, stateCid := stateCid.bytes
          checkpointCid := (E.L.cidOf (.checkpoint r.preferred)).bytes }))
  | addRound (completed : Round) : ThreadStep E n p r true (.addRound completed)
      (n.addNode E.L (.round completed)) (some (.putHeight completed))
  | putHeight (completed : Round) : ThreadStep E n p r true (.putHeight completed)
      (n.putLastCompletedHeight completed.height) (some (.putRound completed))
  | putRound (completed : Round) : ThreadStep E n p r true (.putRound completed)
      (n.putCompletedRound E.L completed) (some (.confirm completed))
  | unconfirmed (ok : Bool) (completed : Round) :
      ThreadStep E n p r ok (.confirm completed) n none
  | confirm (ok : Bool) {completed : Round} {conf : RoundConfirmation}
      (hconf : confirmCompletedRound E completed = .ok conf) :
      ThreadStep E n p r ok (.confirm completed)
        { n with roundRepublishCache := n.roundRepublishCache.add r.height conf }
        (some (.publish conf))
  | unpublished (conf : RoundConfirmation) : ThreadStep E n p r false (.publish conf)
      (n.setRound p { r with published := true }) none
  | publish (conf : RoundConfirmation) : ThreadStep E n p r true (.publish conf)
      { n.setRound p { r with published := true } with pubsub := n.pubsub ++ [conf] } none

section Thread

variable {E : Env} {n n' : Node} {p : Nat} {r : PastRound} {ok : Bool} {pc : Pc}
  {next : Option Pc}

theorem threadStep_of_stepThread {pick : Nat}
    (h : n.stepThread E p r pick ok pc = some (n', next)) :
    ThreadStep E n p r ok pc n' next := by
  cases pc with
  | start =>
    obtain ⟨rfl, rfl⟩ := Prod.mk.inj (Option.some.inj h)
    exact .start ok
  | txs todo =>
    cases todo with
    | nil =>
      obtain ⟨rfl, rfl⟩ := Prod.mk.inj (Option.some.inj h)
      exact .settled ok
    | cons e rest =>
      rw [stepThread] at h
      split at h
      · cases h
      · next objectID w hpick =>
        cases ok with
        | false =>
          obtain ⟨rfl, rfl⟩ := Prod.mk.inj (Option.some.inj h)
          exact .fail _
        | true =>
          obtain ⟨rfl, rfl⟩ := Prod.mk.inj (Option.some.inj h)
          exact .settle hpick
  | confirm completed =>
    rw [stepThread] at h
    split at h
    · obtain ⟨rfl, rfl⟩ := Prod.mk.inj (Option.some.inj h)
      exact .unconfirmed ok completed
    · next conf hconf =>
      obtain ⟨rfl, rfl⟩ := Prod.mk.inj (Option.some.inj h)
      exact .confirm ok hconf
  | publish conf =>
    obtain ⟨rfl, rfl⟩ := Prod.mk.inj (Option.some.inj h)
    cases ok with
    | false => exact .unpublished conf
    | true => exact .publish conf
  | flush =>
    cases ok with
    | false => cases h
    | true =>
      obtain ⟨rfl, rfl⟩ := Prod.mk.inj (Option.some.inj h)
      exact .flush
  -- the calls of the stores: one that succeeds, or fails
  | putState | addCheckpoint _ | addRound _ | putHeight _ | putRound _ =>
    cases ok with
    | false =>
      obtain ⟨rfl, rfl⟩ := Prod.mk.inj (Option.some.inj h)
      exact .fail _
    | true =>
      obtain ⟨rfl, rfl⟩ := Prod.mk.inj (Option.some.inj h)
      constructor

/-- A goroutine of a completed round leaves requests, heights and other goroutines alone. -/
theorem ThreadStep.frame (h : ThreadStep E n p r ok pc n' next) :
    n'.mempool = n.mempool ∧ n'.current = n.current ∧ n'.threads = n.threads := by
  cases h <;> exact ⟨rfl, rfl, rfl⟩

/-- The round of the goroutine stays where it is. -/
theorem ThreadStep.heap (hr : n.heap[p]? = some r) (h : ThreadStep E n p r ok pc n' next) :
    ∃ r', n'.heap[p]? = some r' ∧ r'.height = r.height := by
  have hlt : p < n.heap.length := (List.getElem?_eq_some_iff.mp hr).1
  cases h with
  | settle | unpublished | publish => exact ⟨_, List.getElem?_set_self hlt, rfl⟩
  | _ => exact ⟨r, hr, rfl⟩

/-- The two places where a goroutine writes to the data store. -/
theorem ThreadStep.dataStore (h : ThreadStep E n p r ok pc n' next) :
    n'.dataStore = n.dataStore ∨
    (∃ completed, pc = .putHeight completed ∧ ok = true ∧
      n'.dataStore = (n.putLastCompletedHeight completed.height).dataStore) ∨
    ∃ completed, pc = .putRound completed ∧ ok = true ∧
      n'.dataStore = (n.putCompletedRound E.L completed).dataStore := by
  cases h with
  | putHeight completed => exact Or.inr (Or.inl ⟨completed, rfl, rfl, rfl⟩)
  | putRound completed => exact Or.inr (Or.inr ⟨completed, rfl, rfl, rfl⟩)
  | _ => exact Or.inl rfl

end Thread

theorem stepBackground_ok {E : Env} {n n' : Node} {i pick : Nat} {ok : Bool}
    (h : n.stepBackground E i pick ok = some n') :
    ∃ t r n₁ next, n.threads[i]? = some t ∧ n.heap[t.round]? = some r ∧
      ThreadStep E n t.round r ok t.pc n₁ next ∧ n' = n₁.setThread i t next := by
  obtain ⟨t, ht, h⟩ := Option.bind_eq_some_iff.mp h
  obtain ⟨r, hr, h⟩ := Option.bind_eq_some_iff.mp h
  obtain ⟨⟨n₁, next⟩, hstep, h⟩ := Option.bind_eq_some_iff.mp h
  exact ⟨t, r, n₁, next, ht, hr, threadStep_of_stepThread hstep, (Option.some.inj h).symm⟩

/-- A goroutine that goes on, or ends, changes the list of goroutines only. -/
theorem setThread_eq (n : Node) (i : Nat) (t : Thread) (next : Option Pc) :
    n.setThread i t next = { n with threads := (n.setThread i t next).threads } := by
  cases next <;> rfl

/-- The goroutines after one of them took a step. -/
theorem forall_setThread {n : Node} {i : Nat} {t : Thread} {next : Option Pc}
    {P : Thread → Prop} (h : ∀ t' ∈ n.threads, P t')
    (hnext : ∀ pc, next = some pc → P { t with pc }) :
    ∀ t' ∈ (n.setThread i t next).threads, P t' := by
  intro t' ht'
  cases next with
  | none => exact h t' (List.mem_of_mem_eraseIdx ht')
  | some pc =>
    rcases List.mem_or_eq_of_mem_set ht' with ht' | rfl
    · exact h t' ht'
    · exact hnext pc rfl

/-! ## What an event can do -/

/-- What an event that is possible does to the signer, with one constructor for each way. -/
inductive EventStep (E : Env) (n : Node) : Event → Node → Prop where
  /-- A request that does not fit is dropped, -/
  | drop {abr : AddBlockRequest} {stored : Bool} {n₁ : Node} (hn₁ : Looked E.L n n₁) :
      EventStep E n (.addBlockRequest abr stored) n₁
  /-- one that comes too early waits, -/
  | await {abr : AddBlockRequest} {stored : Bool} {n₁ : Node} (hn₁ : Looked E.L n n₁) :
      EventStep E n (.addBlockRequest abr stored)
        (n₁.storeAsInFlight { abr, cid := Cid.undef })
  /-- and one is stored only if it extends what `getCurrent` returns. -/
  | store {abr : AddBlockRequest} {stored : Bool} {n₁ : Node} {current : Option AddBlockRequest}
      (hn₁ : Looked E.L n n₁) (hcurrent : (n.getCurrent E.L abr.objectId).1 = .ok current)
      (hextends : Extends current abr) :
      EventStep E n (.addBlockRequest abr stored)
        (n₁.storeAbr E.L { abr, cid := Cid.undef } stored)
  | promote {i : Nat} {stored : Bool} {w : AddBlockWrapper} (hw : n.promotions[i]? = some w) :
      EventStep E n (.promotion i stored)
        ({ n with promotions := n.promotions.eraseIdx i }.storeAbr E.L w stored)
  | running : EventStep E n .startSnowball n
  | start (preferred : Option Checkpoint) :
      EventStep E n .startSnowball
        { n with started := true, current := { n.current with preferred } }
  | decided {cp : Checkpoint} {n' : Node} (hdone : n.handleSnowballerDone E.L cp = .ok n') :
      EventStep E n (.snowballerDone cp) n'
  | background {i pick : Nat} {ok : Bool} {t : Thread} {r : PastRound} {n₁ : Node}
      {next : Option Pc} (ht : n.threads[i]? = some t) (hr : n.heap[t.round]? = some r)
      (hstep : ThreadStep E n t.round r ok t.pc n₁ next) :
      EventStep E n (.background i pick ok) (n₁.setThread i t next)
  | answer {height : Nat} {n₁ : Node} (hn₁ : Looked E.L n n₁) :
      EventStep E n (.stream height) n₁
  | tick {ok : Bool} {n₁ : Node} (hn₁ : Looked E.L n n₁) : EventStep E n (.republish ok) n₁
  /-- The last round has been published: its confirmation is published again, -/
  | republish {ok : Bool} {p : Nat} {n₁ : Node} {r : PastRound} {conf : RoundConfirmation}
      (hget : n.get E.L (prevHeight n.current.height) = (some p, n₁))
      (hconf : n₁.roundRepublishCache.peek r.height = some conf) :
      EventStep E n (.republish ok) { n₁ with pubsub := n₁.pubsub ++ [conf] }
  /-- or made again by another goroutine. -/
  | spawn {ok : Bool} {p : Nat} {n₁ : Node} {r : PastRound}
      (hget : n.get E.L (prevHeight n.current.height) = (some p, n₁))
      (hr : n₁.heap[p]? = some r) (hpub : r.published = true) :
      EventStep E n (.republish ok)
        { n₁ with threads := n₁.threads ++ [{ round := p, pc := .putState }] }

section Event

variable {E : Env} {n n' : Node}

theorem eventStep_addBlockRequest (E : Env) (n : Node) (abr : AddBlockRequest) (stored : Bool) :
    EventStep E n (.addBlockRequest abr stored)
      (n.handleAddBlockRequest E.L { abr, cid := Cid.undef } stored) := by
  have hlook := looked_getCurrent E.L n abr.objectId
  rcases handleAddBlockRequest_cases E.L n { abr, cid := Cid.undef } stored with
    h | h | ⟨current, hcurrent, hextends, h⟩
  · rw [h]
    exact .drop hlook
  · rw [h]
    exact .await hlook
  · rw [h]
    exact .store hlook hcurrent hextends

theorem eventStep_startSnowball (E : Env) (n : Node) :
    EventStep E n .startSnowball n.startSnowball := by
  unfold startSnowball
  split
  · exact .running
  · simp only []
    split
    · exact .start _
    · exact .start n.current.preferred

theorem eventStep_stream (E : Env) (n : Node) (height : Nat) :
    EventStep E n (.stream height) (n.handleStream E.L height).2 := by
  unfold handleStream
  simp only []
  split
  · exact .answer .same
  · exact .answer (.get height)

theorem eventStep_republish (E : Env) (n : Node) (ok : Bool) :
    EventStep E n (.republish ok) (n.maybeRepublish E.L ok) := by
  unfold maybeRepublish
  split
  · exact .tick .same
  · cases hg : n.get E.L (prevHeight n.current.height) with
    | mk found n₁ =>
      have hlook := Looked.of_get hg
      cases found with
      | none => exact .tick hlook
      | some p =>
        simp only []
        cases hr : n₁.heap[p]? with
        | none => exact .tick hlook
        | some r =>
          simp only []
          cases hpub : r.published with
          | false => exact .tick hlook
          | true =>
            simp only [Bool.not_true, Bool.false_eq_true, if_false]
            cases hc : n₁.roundRepublishCache.peek r.height with
            | none => exact .spawn hg hr hpub
            | some conf =>
              cases ok with
              | false => exact .tick hlook
              | true => exact .republish hg hc

/-- **Every event does one of these.** -/
theorem eventStep_of_step {e : Event} (h : n.step E e = some n') : EventStep E n e n' := by
  cases e with
  | addBlockRequest abr stored =>
    rw [← Option.some.inj h]
    exact eventStep_addBlockRequest E n abr stored
  | promotion i stored =>
    obtain ⟨w, hw, h⟩ := Option.bind_eq_some_iff.mp h
    rw [← Option.some.inj h]
    exact .promote hw
  | startSnowball =>
    rw [← Option.some.inj h]
    exact eventStep_startSnowball E n
  | snowballerDone cp => exact .decided (step_snowballerDone h).2
  | background i pick ok =>
    obtain ⟨t, r, n₁, next, ht, hr, hstep, rfl⟩ := stepBackground_ok h
    exact .background ht hr hstep
  | stream height =>
    rw [← Option.some.inj h]
    exact eventStep_stream E n height
  | republish ok =>
    rw [← Option.some.inj h]
    exact eventStep_republish E n ok

end Event

/-- The data store is as it was, and no goroutine has taken a step. -/
def SameStore (n n' : Node) : Prop := n'.dataStore = n.dataStore ∧ n.threads <+: n'.threads

theorem SameStore.refl (n : Node) : SameStore n n := ⟨rfl, List.prefix_refl _⟩

theorem SameStore.trans {n n₂ : Node} (h : SameStore n n₁) (h' : SameStore n₁ n₂) :
    SameStore n n₂ := ⟨h'.1.trans h.1, h.2.trans h'.2⟩

theorem sameStore_get (L : Ipld) (n : Node) (height : Nat) : SameStore n (n.get L height).2 := by
  obtain ⟨heap, cache, hframe⟩ := get_frame L n height
  rw [hframe]
  exact SameStore.refl n

theorem sameStore_storeAbr (L : Ipld) (n : Node) (w : AddBlockWrapper) (stored : Bool) :
    SameStore n (n.storeAbr L w stored) := by
  cases stored with
  | false => exact SameStore.refl n
  | true => exact SameStore.refl n

/-- **Only goroutines of completed rounds write to the data store.** -/
theorem step_sameStore {E : Env} {n n' : Node} {e : Event} (h : n.step E e = some n') :
    SameStore n n' ∨ ∃ i pick ok, e = .background i pick ok := by
  have hlook : ∀ {n₁}, Looked E.L n n₁ → SameStore n n₁ := fun hn₁ =>
    hn₁.rule (SameStore.refl n) (sameStore_get E.L n)
  cases eventStep_of_step h with
  | background => exact Or.inr ⟨_, _, _, rfl⟩
  | drop hn₁ | answer hn₁ | tick hn₁ => exact Or.inl (hlook hn₁)
  | await hn₁ => exact Or.inl ((hlook hn₁).trans ⟨rfl, List.prefix_refl _⟩)
  | store hn₁ => exact Or.inl ((hlook hn₁).trans (sameStore_storeAbr E.L _ _ _))
  | promote => exact Or.inl (sameStore_storeAbr E.L _ _ _)
  | running | start => exact Or.inl (SameStore.refl n)
  | decided hdone =>
    obtain ⟨state, n₁, abrs, inflight, promotions, hstate, -, rfl⟩ := handleSnowballerDone_ok hdone
    exact Or.inl ((hlook (looked_previousState hstate)).trans ⟨rfl, List.prefix_append _ _⟩)
  | republish hget =>
    exact Or.inl ((hlook (Looked.of_get hget)).trans ⟨rfl, List.prefix_refl _⟩)
  | spawn hget =>
    exact Or.inl ((hlook (Looked.of_get hget)).trans ⟨rfl, List.prefix_append _ _⟩)

end Node

end Tupelo

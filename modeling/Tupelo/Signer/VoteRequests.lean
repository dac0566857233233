import Tupelo.Client.GroupInvariant
import Tupelo.Infra.Channel
import Tupelo.Infra.Lru
import Tupelo.Infra.Pool
import Tupelo.Infra.Transition

/-!
# Asking for votes

The model of `getOneRandomVote` (`signer/gossip/snowballnetwork.go`). A tick starts `k` goroutines.
Each draws signers of the group until it has one that is not its own node, asks it for its vote,
and sends the answer to a channel. The tick goes on when all of them have returned.

Answers are decoded through a cache that all the goroutines of a round share: the CID of the bytes
is looked up, and the bytes are decoded and added only if it is not there. The lookup and the
addition are two calls, other goroutines come in between, and the cache forgets the oldest of its
50 entries. None of that shows: the answers are those that decoding each message would give.

The loop that draws signers has no other end than a signer that is not the node itself. `newRound`
takes a `k` of 0 for the default, so a node that is alone in its group starts 100 goroutines, and
all of them draw forever.
-/

namespace Tupelo

open Infra

variable {C : Crypto}

/-! ## `rounds.go` and `notarygroup.go` -/

/-- `defaultK`. -/
def defaultK : Int := 100

/-- The `k` of a new round, as `newRound` gets it from the size of the group and corrects it. -/
def NotaryGroup.snowballK (ng : NotaryGroup C) : Int :=
  let k := min defaultK ((ng.size : Int) - 1)
  if k = 0 then defaultK else k

/-- `GetRandomSigner`, for the number that is drawn. There is none to draw for an empty group. -/
def NotaryGroup.getRandomSigner (ng : NotaryGroup C) (draw : Nat) :
    Except Fault (Option (Signer C)) :=
  if ng.sortedIds.length = 0 then .error (.panic "crypto/rand: argument to Int is <= 0")
  else ng.signerAtIndex (draw % ng.sortedIds.length)

/-! ## `snowballnetwork.go` -/

/-- What a vote is on the wire. -/
structure VoteWire where
  /-- `Wrapped().RawData()` of a checkpoint. -/
  rawData : Checkpoint → Bytes
  /-- `cbornode.DecodeInto` a checkpoint. -/
  decodeInto : Bytes → Except Fault Checkpoint
  cidFromBits : Bytes → Except Fault Cid

/-- What is written is read back, and the CID stands for the bytes. -/
structure VoteWire.Faithful (W : VoteWire) : Prop where
  decodeInto_rawData : ∀ cp, W.decodeInto (W.rawData cp) = .ok cp
  cidFromBits_ok : ∀ bits, ∃ id, W.cidFromBits bits = .ok id
  cidFromBits_inj : ∀ {bits bits' : Bytes} {id : Cid}, W.cidFromBits bits = .ok id →
    W.cidFromBits bits' = .ok id → bits = bits'

/-- `snowballer`, as far as it asks for votes. -/
structure Asker (C : Crypto) where
  group : NotaryGroup C
  /-- `p2p.PeerIDFromPublicKey` of the destination key, as it is printed. -/
  peer : Signer C → String
  /-- `host.Identity()`. -/
  identity : String
  wire : VoteWire

/-- `snowballVoteResp`. -/
structure SnowballVoteResp where
  signerID : String
  checkpoint : Checkpoint
  deriving DecidableEq

/-- Where a goroutine stands. -/
inductive VotePc (C : Crypto) where
  | picking
  /-- A stream to the signer is opened, written to and read from. -/
  | asking (signer : Signer C)
  | looking (signer : Signer C) (bits : Bytes) (id : Cid)
  /-- The cache did not have the CID. -/
  | missed (signer : Signer C) (bits : Bytes) (id : Cid)
  | responding (signer : Signer C) (cp : Checkpoint)
  | done

/-- A goroutine. What it has read, and from whom, is only there to speak about it. -/
structure VoteCall (C : Crypto) where
  pc : VotePc C
  read : Option (Signer C × Bytes)

/-- A goroutine that has just been started. -/
def VoteCall.start : VoteCall C := { pc := .picking, read := none }

/-- What a goroutine can do next. -/
inductive VoteCall.Action where
  | draw (n : Nat)
  /-- The stream fails. -/
  | fail
  | read (bits : Bytes)
  | lookup
  | decode
  | respond

/-- What a step of a goroutine makes of it and of the cache, and what it sends. -/
structure VoteCall.Outcome (C : Crypto) where
  call : VoteCall C
  cache : Lru Cid Checkpoint
  sent : Option SnowballVoteResp

/-- One step of `getOneRandomVote`. Nothing results from what cannot happen, or panics. -/
def VoteCall.step (V : Asker C) (cache : Lru Cid Checkpoint) (call : VoteCall C) :
    VoteCall.Action → Option (VoteCall.Outcome C)
  | .draw n =>
    match call.pc with
    | .picking => do
      let signer ← (V.group.getRandomSigner n).toOption
      let signer ← signer
      -- pick one non-self signer
      if V.peer signer = V.identity then pure ⟨call, cache, none⟩
      else pure ⟨{ call with pc := .asking signer }, cache, none⟩
    | _ => none
  | .fail =>
    match call.pc with
    | .asking _ => some ⟨{ call with pc := .done }, cache, none⟩
    | _ => none
  | .read bits =>
    match call.pc with
    | .asking signer =>
      match V.wire.cidFromBits bits with
      | .error _ => some ⟨{ pc := .done, read := some (signer, bits) }, cache, none⟩
      | .ok id => some ⟨{ pc := .looking signer bits id, read := some (signer, bits) }, cache, none⟩
    | _ => none
  | .lookup =>
    match call.pc with
    | .looking signer bits id =>
      match cache.get id with
      | (some cp, cache) => some ⟨{ call with pc := .responding signer cp }, cache, none⟩
      | (none, cache) => some ⟨{ call with pc := .missed signer bits id }, cache, none⟩
    | _ => none
  | .decode =>
    match call.pc with
    | .missed signer bits id =>
      match V.wire.decodeInto bits with
      | .error _ => some ⟨{ call with pc := .done }, cache, none⟩
      | .ok cp => some ⟨{ call with pc := .responding signer cp }, cache.add id cp, none⟩
    | _ => none
  | .respond =>
    match call.pc with
    | .responding signer cp =>
      some ⟨{ call with pc := .done }, cache, some { signerID := V.peer signer, checkpoint := cp }⟩
    | _ => none

/-- The goroutines of a tick, with the cache and the channel they share. -/
structure VoteRequests (C : Crypto) where
  cache : Lru Cid Checkpoint
  calls : List (VoteCall C)
  respChan : Chan SnowballVoteResp

namespace VoteRequests

inductive Action where
  /-- `doTick` makes the channel and starts the goroutines. -/
  | tick
  /-- The goroutine at the position goes on. -/
  | call (i : Nat) (a : VoteCall.Action)

/-- `wg.Wait()` returns. -/
def idle (s : VoteRequests C) : Bool := s.calls.all fun call => call.pc matches .done

/-- The goroutine at the position after a step. -/
def update (s : VoteRequests C) (i : Nat) (out : VoteCall.Outcome C) : VoteRequests C where
  cache := out.cache
  calls := s.calls.set i out.call
  respChan := match out.sent with
    | none => s.respChan
    | some resp => s.respChan.send resp

def act (V : Asker C) (s : VoteRequests C) : Action → Option (VoteRequests C)
  | .tick =>
    let k := V.group.snowballK
    -- a channel of negative size is a panic
    if s.idle && decide (0 ≤ k) then
      some { s with calls := List.replicate k.toNat VoteCall.start, respChan := Chan.make k.toNat }
    else none
  | .call i a => do
    let call ← s.calls[i]?
    let out ← call.step V s.cache a
    pure (s.update i out)

/-- The ticks of a round, one after the other. -/
def system (V : Asker C) : System (VoteRequests C) Action where
  start := { cache := Lru.new 50, calls := [], respChan := Chan.make 0 }
  act := act V

def anyAction (_ : VoteRequests C) (_ : Action) : Bool := true

/-- The tick that is going on. -/
def sameTick (_ : VoteRequests C) : Action → Bool
  | .tick => false
  | .call _ _ => true

end VoteRequests

/-! ## What a step does -/

/-- A signer of the group that is not the node itself. -/
def Asker.Another (V : Asker C) (signer : Signer C) : Prop :=
  (∃ n, V.group.getRandomSigner n = .ok (some signer)) ∧ V.peer signer ≠ V.identity

/-- The response to what was read, without a cache. -/
def Asker.plain (V : Asker C) (call : VoteCall C) : Option SnowballVoteResp := do
  let (signer, bits) ← call.read
  let _ ← (V.wire.cidFromBits bits).toOption
  let cp ← (V.wire.decodeInto bits).toOption
  pure { signerID := V.peer signer, checkpoint := cp }

/-- The response of a goroutine that has returned, without a cache. -/
def Asker.settled (V : Asker C) (call : VoteCall C) : Option SnowballVoteResp :=
  match call.pc with
  | .done => V.plain call
  | _ => none

namespace VoteCall

variable {V : Asker C} {cache : Lru Cid Checkpoint} {call : VoteCall C}

/-- The steps of a goroutine, with one constructor for each way. -/
inductive Step (V : Asker C) (cache : Lru Cid Checkpoint) : VoteCall C → Outcome C → Prop where
  /-- The node has drawn itself. -/
  | again {read : Option (Signer C × Bytes)} :
      Step V cache ⟨.picking, read⟩ ⟨⟨.picking, read⟩, cache, none⟩
  | picked {read : Option (Signer C × Bytes)} {signer : Signer C} (hsigner : V.Another signer) :
      Step V cache ⟨.picking, read⟩ ⟨⟨.asking signer, read⟩, cache, none⟩
  | failed {read : Option (Signer C × Bytes)} {signer : Signer C} :
      Step V cache ⟨.asking signer, read⟩ ⟨⟨.done, read⟩, cache, none⟩
  | unnamed {read : Option (Signer C × Bytes)} {signer : Signer C} {bits : Bytes} {f : Fault}
      (hid : V.wire.cidFromBits bits = .error f) :
      Step V cache ⟨.asking signer, read⟩ ⟨⟨.done, some (signer, bits)⟩, cache, none⟩
  | named {read : Option (Signer C × Bytes)} {signer : Signer C} {bits : Bytes} {id : Cid}
      (hid : V.wire.cidFromBits bits = .ok id) :
      Step V cache ⟨.asking signer, read⟩
        ⟨⟨.looking signer bits id, some (signer, bits)⟩, cache, none⟩
  | hit {read : Option (Signer C × Bytes)} {signer : Signer C} {bits : Bytes} {id : Cid}
      {cp : Checkpoint} (hcp : cache.peek id = some cp) :
      Step V cache ⟨.looking signer bits id, read⟩
        ⟨⟨.responding signer cp, read⟩, (cache.get id).2, none⟩
  | miss {read : Option (Signer C × Bytes)} {signer : Signer C} {bits : Bytes} {id : Cid} :
      Step V cache ⟨.looking signer bits id, read⟩
        ⟨⟨.missed signer bits id, read⟩, (cache.get id).2, none⟩
  | undecoded {read : Option (Signer C × Bytes)} {signer : Signer C} {bits : Bytes} {id : Cid}
      {f : Fault} (hcp : V.wire.decodeInto bits = .error f) :
      Step V cache ⟨.missed signer bits id, read⟩ ⟨⟨.done, read⟩, cache, none⟩
  | decoded {read : Option (Signer C × Bytes)} {signer : Signer C} {bits : Bytes} {id : Cid}
      {cp : Checkpoint} (hcp : V.wire.decodeInto bits = .ok cp) :
      Step V cache ⟨.missed signer bits id, read⟩
        ⟨⟨.responding signer cp, read⟩, cache.add id cp, none⟩
  | responded {read : Option (Signer C × Bytes)} {signer : Signer C} {cp : Checkpoint} :
      Step V cache ⟨.responding signer cp, read⟩
        ⟨⟨.done, read⟩, cache, some { signerID := V.peer signer, checkpoint := cp }⟩

/-- **Every step is one of these.** -/
theorem step_of_step {a : Action} {out : Outcome C} (h : call.step V cache a = some out) :
    Step V cache call out := by
  obtain ⟨pc, read⟩ := call
  cases a with
  | draw n =>
    cases pc with
    | picking =>
      obtain ⟨drawn, hdrawn, hrest⟩ := Option.bind_eq_some_iff.mp h
      obtain ⟨signer, hsigner, hpick⟩ := Option.bind_eq_some_iff.mp hrest
      rw [hsigner] at hdrawn
      split at hpick
      · obtain rfl := Option.some.inj hpick
        exact .again
      · next hpeer =>
        obtain rfl := Option.some.inj hpick
        exact .picked ⟨⟨n, toOption_eq_some.mp hdrawn⟩, hpeer⟩
    | asking | looking | missed | responding | done => cases h
  | fail =>
    cases pc with
    | asking signer =>
      obtain rfl := Option.some.inj h
      exact .failed
    | picking | looking | missed | responding | done => cases h
  | read bits =>
    cases pc with
    | asking signer =>
      simp only [step] at h
      split at h
      · next hid =>
        obtain rfl := Option.some.inj h
        exact .unnamed hid
      · next hid =>
        obtain rfl := Option.some.inj h
        exact .named hid
    | picking | looking | missed | responding | done => cases h
  | lookup =>
    cases pc with
    | looking signer bits id =>
      simp only [step] at h
      split at h
      · next cp cache' hget =>
        obtain rfl := Option.some.inj h
        have hcp : cache.peek id = some cp := by rw [← Lru.get_fst, hget]
        have hcache : cache' = (cache.get id).2 := by rw [hget]
        rw [hcache]
        exact .hit hcp
      · next cache' hget =>
        obtain rfl := Option.some.inj h
        have hcache : cache' = (cache.get id).2 := by rw [hget]
        rw [hcache]
        exact .miss
    | picking | asking | missed | responding | done => cases h
  | decode =>
    cases pc with
    | missed signer bits id =>
      simp only [step] at h
      split at h
      · next hcp =>
        obtain rfl := Option.some.inj h
        exact .undecoded hcp
      · next hcp =>
        obtain rfl := Option.some.inj h
        exact .decoded hcp
    | picking | asking | looking | responding | done => cases h
  | respond =>
    cases pc with
    | responding signer cp =>
      obtain rfl := Option.some.inj h
      exact .responded
    | picking | asking | looking | missed | done => cases h

end VoteCall

/-! ## What is cached is what was decoded -/

/-- Under the CID of a message stands what the message decodes to. -/
def Asker.Cached (V : Asker C) (cache : Lru Cid Checkpoint) : Prop :=
  ∀ id cp, cache.peek id = some cp →
    ∃ bits, V.wire.cidFromBits bits = .ok id ∧ V.wire.decodeInto bits = .ok cp

/-- What a goroutine has and is about to send is what it would have without a cache. -/
def Asker.Plain (V : Asker C) (call : VoteCall C) : Prop :=
  match call.pc with
  | .picking => call.read = none
  | .asking signer => V.Another signer ∧ call.read = none
  | .looking signer bits id => V.Another signer ∧ call.read = some (signer, bits) ∧
      V.wire.cidFromBits bits = .ok id
  | .missed signer bits id => V.Another signer ∧ call.read = some (signer, bits) ∧
      V.wire.cidFromBits bits = .ok id
  | .responding signer cp => V.Another signer ∧ ∃ bits id, call.read = some (signer, bits) ∧
      V.wire.cidFromBits bits = .ok id ∧ V.wire.decodeInto bits = .ok cp
  | .done => ∀ signer bits, call.read = some (signer, bits) → V.Another signer

variable {V : Asker C}

theorem Asker.plain_eq {call : VoteCall C} {signer : Signer C} {bits : Bytes} {id : Cid}
    {cp : Checkpoint} (hread : call.read = some (signer, bits))
    (hid : V.wire.cidFromBits bits = .ok id) (hcp : V.wire.decodeInto bits = .ok cp) :
    V.plain call = some { signerID := V.peer signer, checkpoint := cp } := by
  simp [plain, hread, hid, hcp, Except.toOption]

namespace VoteCall

variable {cache : Lru Cid Checkpoint} {call : VoteCall C} {out : Outcome C}

theorem Step.cached (h : Step V cache call out) (hcall : V.Plain call) (hcache : V.Cached cache) :
    V.Cached out.cache := by
  cases h with
  | again | picked | failed | unnamed | named | undecoded | responded => exact hcache
  | hit | miss =>
    intro id cp hpeek
    rw [Lru.peek_get] at hpeek
    exact hcache id cp hpeek
  | decoded hcp => exact Lru.forall_peek_add hcache ⟨_, hcall.2.2, hcp⟩

theorem Step.plain (hW : V.wire.Faithful) (h : Step V cache call out) (hcall : V.Plain call)
    (hcache : V.Cached cache) : V.Plain out.call := by
  cases h with
  | again => exact hcall
  | picked hsigner => exact ⟨hsigner, hcall⟩
  | failed =>
    intro signer bits hread
    rw [hcall.2] at hread
    cases hread
  | unnamed =>
    rintro signer bits ⟨⟩
    exact hcall.1
  | named hid => exact ⟨hcall.1, rfl, hid⟩
  | hit hpeek =>
    -- the cached checkpoint was decoded from bytes of the same CID
    obtain ⟨bits, hid, hcp⟩ := hcache _ _ hpeek
    obtain ⟨hsigner, hread, hid'⟩ := hcall
    rw [hW.cidFromBits_inj hid hid'] at hcp
    exact ⟨hsigner, _, _, hread, hid', hcp⟩
  | miss => exact hcall
  | undecoded =>
    intro signer bits hread
    obtain ⟨hsigner, hread', -⟩ := hcall
    rw [hread] at hread'
    cases hread'
    exact hsigner
  | decoded hcp => exact ⟨hcall.1, _, _, hcall.2.1, hcall.2.2, hcp⟩
  | responded =>
    intro signer bits hread
    obtain ⟨hsigner, _, _, hread', -⟩ := hcall
    rw [hread] at hread'
    cases hread'
    exact hsigner

/-- A goroutine that can still go on has not returned. -/
theorem Step.unsettled (h : Step V cache call out) : V.settled call = none := by
  cases h <;> rfl

/-- What a step sends is the response of the goroutine, which returns with it. -/
theorem Step.sent (h : Step V cache call out) (hcall : V.Plain call) :
    out.sent = V.settled out.call := by
  cases h with
  | again | picked | named | hit | miss | decoded => rfl
  | failed =>
    obtain ⟨-, rfl⟩ := hcall
    rfl
  | unnamed hid => simp [Asker.settled, Asker.plain, hid, Except.toOption]
  | undecoded hcp =>
    obtain ⟨-, rfl, hid⟩ := hcall
    simp [Asker.settled, Asker.plain, hid, hcp, Except.toOption]
  | responded =>
    obtain ⟨-, bits, id, hread, hid, hcp⟩ := hcall
    exact (Asker.plain_eq hread hid hcp).symm

end VoteCall

namespace VoteRequests

variable {s s' : VoteRequests C}

/-- What holds between the goroutines, the cache and the channel. -/
structure Inv (V : Asker C) (s : VoteRequests C) : Prop where
  cached : V.Cached s.cache
  calls : ∀ call ∈ s.calls, V.Plain call
  responses : s.respChan.pending.Perm (s.calls.filterMap V.settled)
  capacity : s.respChan.capacity = s.calls.length

theorem inv_start (V : Asker C) : Inv V (system V).start where
  cached := by
    intro id cp hpeek
    cases hpeek
  calls := by simp [system]
  responses := List.Perm.refl _
  capacity := rfl

/-- A step is the start of a tick, or one of a goroutine. -/
theorem act_cases {a : Action} (h : act V s a = some s') :
    (a = .tick ∧ s.idle = true ∧ ∃ k, s' =
      { s with calls := List.replicate k VoteCall.start, respChan := Chan.make k }) ∨
    ∃ i call out, s.calls[i]? = some call ∧ VoteCall.Step V s.cache call out ∧
      s' = s.update i out := by
  cases a with
  | tick =>
    simp only [act] at h
    split at h
    · next hidle =>
      exact Or.inl ⟨rfl, (Bool.and_eq_true_iff.mp hidle).1, _, (Option.some.inj h).symm⟩
    · cases h
  | call i a =>
    obtain ⟨call, hcall, h⟩ := Option.bind_eq_some_iff.mp h
    obtain ⟨out, hout, h⟩ := Option.bind_eq_some_iff.mp h
    exact Or.inr ⟨i, call, out, hcall, VoteCall.step_of_step hout, (Option.some.inj h).symm⟩

theorem pending_update (s : VoteRequests C) (i : Nat) (out : VoteCall.Outcome C) :
    (s.update i out).respChan.pending = s.respChan.pending ++ out.sent.toList := by
  unfold update
  cases out.sent with
  | none => simp
  | some resp => simp [Chan.pending_send]

theorem capacity_update (s : VoteRequests C) (i : Nat) (out : VoteCall.Outcome C) :
    (s.update i out).respChan.capacity = s.respChan.capacity := by
  unfold update
  cases out.sent <;> simp

/-- The step lemma. -/
theorem inv_act (hW : V.wire.Faithful) {a : Action} (hinv : Inv V s) (h : act V s a = some s') :
    Inv V s' := by
  rcases act_cases h with ⟨-, -, k, rfl⟩ | ⟨i, call, out, hi, hstep, rfl⟩
  · refine ⟨hinv.cached, ?_, ?_, by simp [Chan.make]⟩
    · intro call hcall
      rw [List.eq_of_mem_replicate hcall]
      rfl
    · simp [VoteCall.start, Asker.settled]
  · have hcall := hinv.calls call (List.mem_of_getElem? hi)
    refine ⟨hstep.cached hcall hinv.cached, ?_, ?_, ?_⟩
    · exact Pool.forall_mem_set hinv.calls (hstep.plain hW hcall hinv.cached)
    · rw [pending_update, hstep.sent hcall]
      exact (hinv.responses.append_right _).trans
        (Pool.filterMap_set_perm hi hstep.unsettled).symm
    · rw [capacity_update, hinv.capacity]
      simp [update]

/-- The run lemma. -/
theorem inv_reach (hW : V.wire.Faithful) (h : (system V).Reach anyAction s) : Inv V s :=
  h.invariant (inv_start V) fun _ _ _ hinv _ hact => inv_act hW hinv hact

/-- There are not more responses than goroutines, so none of them blocks. -/
theorem Inv.senders (h : Inv V s) : s.respChan.senders = [] := by
  by_contra hne
  have hfull := s.respChan.full hne
  have hpending := h.responses.length_eq
  have hlen := List.length_filterMap_le V.settled s.calls
  have hpos := List.length_pos_iff.mpr hne
  have hcapacity := h.capacity
  rw [Chan.pending, List.length_append] at hpending
  omega

theorem done_of_idle (h : s.idle = true) {call : VoteCall C} (hcall : call ∈ s.calls) :
    call.pc = .done := by
  have hdone := List.all_eq_true.mp h call hcall
  split at hdone
  · assumption
  · cases hdone

/--
**The cache does not show.**

When all goroutines of a tick have returned, whatever happened in between, the responses are, up
to their order, what decoding the message of each goroutine gives. No goroutine is blocked, and
all that were asked are other signers of the group. If a signer has answered with a checkpoint,
that checkpoint is among the responses.
-/
theorem responses_uncached (hW : V.wire.Faithful) (h : (system V).Reach anyAction s)
    (hidle : s.idle = true) :
    s.respChan.senders = [] ∧ s.respChan.buffer.Perm (s.calls.filterMap V.plain) ∧
    ∀ call ∈ s.calls, ∀ signer bits, call.read = some (signer, bits) → V.Another signer ∧
      ∀ cp, bits = V.wire.rawData cp →
        { signerID := V.peer signer, checkpoint := cp } ∈ s.respChan.buffer := by
  have hinv := inv_reach hW h
  have hsenders := hinv.senders
  have hsettled : s.calls.filterMap V.settled = s.calls.filterMap V.plain := by
    refine List.filterMap_congr fun call hcall => ?_
    simp [Asker.settled, done_of_idle hidle hcall]
  have hperm : s.respChan.buffer.Perm (s.calls.filterMap V.plain) := by
    have hresponses := hinv.responses
    rwa [Chan.pending, hsenders, List.append_nil, hsettled] at hresponses
  refine ⟨hsenders, hperm, ?_⟩
  intro call hcall signer bits hread
  have hplain := hinv.calls call hcall
  unfold Asker.Plain at hplain
  rw [done_of_idle hidle hcall] at hplain
  refine ⟨hplain signer bits hread, ?_⟩
  rintro cp rfl
  obtain ⟨id, hid⟩ := hW.cidFromBits_ok (V.wire.rawData cp)
  rw [hperm.mem_iff, List.mem_filterMap]
  exact ⟨call, hcall, Asker.plain_eq hread hid (hW.decodeInto_rawData cp)⟩

end VoteRequests

/-! ## When a tick ends -/

/-- Whom a goroutine is asking. -/
def VotePc.signer : VotePc C → Option (Signer C)
  | .asking signer => some signer
  | .looking signer _ _ => some signer
  | .missed signer _ _ => some signer
  | .responding signer _ => some signer
  | .picking => none
  | .done => none

/-- How many steps a goroutine takes at least from there, if its stream fails or answers. -/
def VotePc.remaining : VotePc C → Nat
  | .picking => 5
  | .asking _ => 4
  | .looking _ _ _ => 3
  | .missed _ _ _ => 2
  | .responding _ _ => 1
  | .done => 0

namespace VoteCall

variable {cache : Lru Cid Checkpoint} {call : VoteCall C} {out : Outcome C}

/-- Whoever is asked is another signer. -/
theorem Step.signer (h : Step V cache call out)
    (hcall : ∀ signer, call.pc.signer = some signer → V.Another signer) :
    ∀ signer, out.call.pc.signer = some signer → V.Another signer := by
  cases h with
  | again | named | hit | miss | decoded => exact hcall
  | picked hsigner =>
    rintro signer ⟨⟩
    exact hsigner
  | failed | unnamed | undecoded | responded =>
    rintro signer ⟨⟩

/-- A goroutine that has not returned can go on, if there is somebody to ask. -/
theorem exists_step (hother : ∃ signer, V.Another signer) (cache : Lru Cid Checkpoint)
    (hpc : call.pc ≠ .done) :
    ∃ a out, call.step V cache a = some out ∧ out.call.pc.remaining < call.pc.remaining := by
  obtain ⟨pc, read⟩ := call
  cases pc with
  | picking =>
    obtain ⟨signer, ⟨n, hn⟩, hpeer⟩ := hother
    refine ⟨.draw n, ⟨⟨.asking signer, read⟩, cache, none⟩, ?_, by simp [VotePc.remaining]⟩
    simp [step, hn, hpeer, Except.toOption]
  | asking signer => exact ⟨.fail, _, rfl, by simp [VotePc.remaining]⟩
  | looking signer bits id =>
    cases hget : cache.get id with
    | mk found cache' =>
      cases found with
      | none =>
        refine ⟨.lookup, ⟨⟨.missed signer bits id, read⟩, cache', none⟩, ?_, ?_⟩
        · simp [step, hget]
        · simp [VotePc.remaining]
      | some cp =>
        refine ⟨.lookup, ⟨⟨.responding signer cp, read⟩, cache', none⟩, ?_, ?_⟩
        · simp [step, hget]
        · simp [VotePc.remaining]
  | missed signer bits id =>
    cases hcp : V.wire.decodeInto bits with
    | error f =>
      refine ⟨.decode, ⟨⟨.done, read⟩, cache, none⟩, ?_, by simp [VotePc.remaining]⟩
      simp [step, hcp]
    | ok cp =>
      refine ⟨.decode, ⟨⟨.responding signer cp, read⟩, cache.add id cp, none⟩, ?_, ?_⟩
      · simp [step, hcp]
      · simp [VotePc.remaining]
  | responding signer cp => exact ⟨.respond, _, rfl, by simp [VotePc.remaining]⟩
  | done => exact absurd rfl hpc

end VoteCall

namespace VoteRequests

variable {s s' : VoteRequests C}

/-- All goroutines that ask somebody ask another signer. -/
def AsksOthers (V : Asker C) (s : VoteRequests C) : Prop :=
  ∀ call ∈ s.calls, ∀ signer, call.pc.signer = some signer → V.Another signer

theorem asksOthers_reach (h : (system V).Reach anyAction s) : AsksOthers V s := by
  refine h.invariant (P := AsksOthers V) ?_ fun s a s' hs _ hact => ?_
  · intro call hcall
    cases hcall
  · rcases act_cases hact with ⟨-, -, k, rfl⟩ | ⟨i, call, out, hi, hstep, rfl⟩
    · intro call hcall
      rw [List.eq_of_mem_replicate hcall]
      rintro signer ⟨⟩
    · exact Pool.forall_mem_set hs (hstep.signer (hs call (List.mem_of_getElem? hi)))

theorem exists_of_not_idle (h : ¬ s.idle = true) :
    ∃ (i : Nat) (call : VoteCall C), s.calls[i]? = some call ∧ call.pc ≠ .done := by
  rw [idle, List.all_eq_true] at h
  push Not at h
  obtain ⟨call, hcall, hdone⟩ := h
  obtain ⟨i, hi⟩ := List.mem_iff_getElem?.mp hcall
  refine ⟨i, call, hi, fun hpc => hdone ?_⟩
  rw [hpc]

/-- A goroutine that has nobody to ask draws as long as the tick lasts. -/
theorem picking_forever (hnone : ¬ ∃ signer, V.Another signer) {i : Nat} {as : List Action}
    (hi : s.calls[i]?.map (·.pc) = some .picking)
    (h : (system V).runFrom sameTick s as = some s') :
    s'.calls[i]?.map (·.pc) = some .picking := by
  refine System.runFrom_invariant (P := fun s : VoteRequests C =>
    s.calls[i]?.map (·.pc) = some .picking) (fun s a s' hs hok hact => ?_) hi h
  rcases act_cases hact with ⟨rfl, -, -⟩ | ⟨j, call, out, hj, hstep, rfl⟩
  · cases hok
  · by_cases hij : j = i
    · subst hij
      rw [hj, Option.map_some, Option.some.injEq] at hs
      have hlt := (List.getElem?_eq_some_iff.mp hj).1
      have hout : out.call.pc = .picking := by
        cases hstep with
        | again => rfl
        | picked hsigner => exact absurd ⟨_, hsigner⟩ hnone
        | failed | unnamed | named | hit | miss | undecoded | decoded | responded => cases hs
      simp [update, hlt, hout]
    · simpa [update, List.getElem?_set_ne hij] using hs

/-- The goroutines of the tick can all return. -/
def CanEnd (V : Asker C) (s : VoteRequests C) : Prop :=
  ∃ as s', (system V).runFrom sameTick s as = some s' ∧ s'.idle = true

theorem canEnd_iff (h : (system V).Reach anyAction s) :
    CanEnd V s ↔ s.idle = true ∨ ∃ signer, V.Another signer := by
  constructor
  · rintro ⟨as, s', hrun, hidle⟩
    by_contra hnot
    push Not at hnot
    obtain ⟨hbusy, hnone⟩ := hnot
    obtain ⟨i, call, hi, hpc⟩ := exists_of_not_idle hbusy
    have hpicking : call.pc = .picking := by
      have hothers := asksOthers_reach h call (List.mem_of_getElem? hi)
      cases hcall : call.pc with
      | picking => rfl
      | done => exact absurd hcall hpc
      | asking | looking | missed | responding =>
        exact absurd (hothers _ (by rw [hcall]; rfl)) (hnone _)
    have hlast :=
      picking_forever (by simpa using hnone) (by rw [hi, Option.map_some, hpicking]) hrun
    obtain ⟨call', hi', hpc'⟩ := Option.map_eq_some_iff.mp hlast
    rw [done_of_idle hidle (List.mem_of_getElem? hi')] at hpc'
    cases hpc'
  · rintro (hidle | hother)
    · exact ⟨[], s, rfl, hidle⟩
    · refine System.exists_runFrom (P := fun _ => True)
        (fun s => (s.calls.map fun call => call.pc.remaining).sum) (fun s _ hbusy => ?_) trivial
      obtain ⟨i, call, hi, hpc⟩ := exists_of_not_idle hbusy
      obtain ⟨a, out, hstep, hlt⟩ := VoteCall.exists_step hother s.cache hpc
      refine ⟨.call i a, s.update i out, rfl, ?_, trivial, Pool.sum_set_lt hi hlt⟩
      simp [system, act, hi, hstep]

/-- In a group of one signer a tick starts as many goroutines as by default. -/
theorem tick_alone (hsize : V.group.size = 1) (hidle : s.idle = true) :
    ∃ s', act V s .tick = some s' ∧ s'.calls = List.replicate 100 VoteCall.start := by
  have hk : V.group.snowballK = 100 := by
    simp [NotaryGroup.snowballK, hsize, defaultK]
  refine ⟨{ s with calls := List.replicate 100 VoteCall.start, respChan := Chan.make 100 }, ?_, rfl⟩
  simp [act, hk, hidle]

/--
**A tick can end exactly if there is somebody to ask.**

From any state of a run the goroutines of the tick can all return if they have returned already,
or if the group has a signer that is not the node itself. A node that is alone in its group has
100 goroutines in every tick, and the tick never ends.
-/
theorem tick_ends_iff (h : (system V).Reach anyAction s) :
    (CanEnd V s ↔ s.idle = true ∨ ∃ signer, V.Another signer) ∧
      (V.group.size = 1 → (∀ signer, ¬ V.Another signer) → s.idle = true →
        ∃ s', act V s .tick = some s' ∧ s'.calls.length = 100 ∧ ¬ CanEnd V s') := by
  refine ⟨canEnd_iff h, fun hsize halone hidle => ?_⟩
  obtain ⟨s', hact, hcalls⟩ := tick_alone hsize hidle
  refine ⟨s', hact, by simp [hcalls], fun hends => ?_⟩
  rcases (canEnd_iff (h.step .tick rfl hact)).mp hends with hidle' | ⟨signer, hsigner⟩
  · simp [idle, hcalls, VoteCall.start] at hidle'
  · exact halone signer hsigner

end VoteRequests

/-! ### Runs -/

namespace VoteExample

/-- Lists of bytes in bytes: a 1 before each byte, a 0 after each list. -/
def write (rs : List Bytes) : Bytes := rs.flatMap fun r => r.flatMap (fun b => [1, b]) ++ [0]

def readAll : Bytes → Option (List Bytes)
  | [] => some []
  | 0 :: bits => (readAll bits).map ([] :: ·)
  | 1 :: b :: bits => (readAll bits).bind fun
    | [] => none
    | r :: rs => some ((b :: r) :: rs)
  | _ => none

theorem readAll_append (r bits : Bytes) :
    readAll (r.flatMap (fun b => [1, b]) ++ [0] ++ bits) = (readAll bits).map (r :: ·) := by
  induction r with
  | nil => rfl
  | cons b r ih =>
    have hcons : (b :: r).flatMap (fun b => [1, b]) ++ [0] ++ bits =
        1 :: b :: (r.flatMap (fun b => [1, b]) ++ [0] ++ bits) := by simp
    rw [hcons, readAll, ih]
    cases readAll bits <;> rfl

theorem readAll_write (rs : List Bytes) : readAll (write rs) = some rs := by
  induction rs with
  | nil => rfl
  | cons r rs ih =>
    have hcons : write (r :: rs) = r.flatMap (fun b => [1, b]) ++ [0] ++ write rs := by
      simp [write]
    rw [hcons, readAll_append, ih]
    rfl

/-- The height is written as that many zeros. The bytes are their own CID. -/
def wire : VoteWire where
  rawData := fun cp => write (List.replicate cp.height 0 :: cp.addBlockRequests)
  decodeInto := fun bits =>
    match readAll bits with
    | some (height :: addBlockRequests) => .ok { height := height.length, addBlockRequests }
    | _ => .error (.error "not a checkpoint")
  cidFromBits := fun bits => .ok ⟨bits⟩

theorem wire_faithful : wire.Faithful where
  decodeInto_rawData := by
    intro cp
    simp [wire, readAll_write]
  cidFromBits_ok := fun bits => ⟨⟨bits⟩, rfl⟩
  cidFromBits_inj := by
    intro bits bits' id h h'
    exact congrArg Cid.bytes (Except.ok.inj (h.trans h'.symm))

def signer (id : String) : Signer Crypto.unary := { id, verKey := ⟨[], (0 : Nat)⟩ }

/-- The node `a`, in a group of the given ids. -/
def asker (ids : List String) : Asker Crypto.unary where
  group := NotaryGroup.ofSigners "group" (ids.map signer)
  peer := fun s => s.id
  identity := "a"
  wire := wire

def cp : Checkpoint := { height := 2, addBlockRequests := [[7]] }

/--
Both goroutines of the first tick read the same bytes and miss them in the cache. In the second
tick one finds them there, and the other has no answer.
-/
def actions : List VoteRequests.Action :=
  [.tick, .call 0 (.draw 0), .call 0 (.draw 1), .call 1 (.draw 2),
    .call 0 (.read (wire.rawData cp)), .call 1 (.read (wire.rawData cp)), .call 0 .lookup,
    .call 1 .lookup, .call 1 .decode, .call 0 .decode, .call 0 .respond, .call 1 .respond,
    .tick, .call 1 (.draw 1), .call 0 (.draw 2), .call 0 (.read (wire.rawData cp)), .call 1 .fail,
    .call 0 .lookup, .call 0 .respond]

theorem responses_uncached_example :
    ∃ s, (VoteRequests.system (asker ["a", "b", "c"])).run VoteRequests.anyAction actions = some s ∧
      s.respChan.buffer = [{ signerID := "c", checkpoint := cp }] ∧
      s.respChan.buffer.Perm (s.calls.filterMap (asker ["a", "b", "c"]).plain) := by
  have hrun : ((VoteRequests.system (asker ["a", "b", "c"])).run VoteRequests.anyAction
      actions).map (fun s => (s.idle, s.respChan.buffer)) =
      some (true, [{ signerID := "c", checkpoint := cp }]) := by
    decide +kernel
  obtain ⟨s, hs, hout⟩ := Option.map_eq_some_iff.mp hrun
  obtain ⟨hidle, hbuffer⟩ := Prod.mk.inj hout
  exact ⟨s, hs, hbuffer,
    (VoteRequests.responses_uncached wire_faithful (System.reach_of_run hs) hidle).2.1⟩

theorem nobody_else (other : Signer Crypto.unary) : ¬ (asker ["a"]).Another other := by
  rintro ⟨⟨n, hn⟩, hpeer⟩
  have hdraw : (asker ["a"]).group.getRandomSigner n = .ok (some (signer "a")) := by
    have hlen : (asker ["a"]).group.sortedIds.length = 1 := by decide +kernel
    rw [NotaryGroup.getRandomSigner, hlen, Nat.mod_one, if_neg Nat.one_ne_zero]
    rfl
  rw [hdraw] at hn
  rw [← Option.some.inj (Except.ok.inj hn)] at hpeer
  exact hpeer rfl

/-- A node that is alone, and one that is not. -/
theorem tick_ends_iff_example :
    (∃ s, VoteRequests.act (asker ["a"]) (VoteRequests.system (asker ["a"])).start .tick = some s ∧
      s.calls.length = 100 ∧ ¬ VoteRequests.CanEnd (asker ["a"]) s) ∧
    ∃ s, (VoteRequests.system (asker ["a", "b", "c"])).run VoteRequests.anyAction [.tick] = some s ∧
      s.idle = false ∧ VoteRequests.CanEnd (asker ["a", "b", "c"]) s := by
  refine ⟨(VoteRequests.tick_ends_iff System.Reach.start).2 (by decide +kernel) nobody_else rfl, ?_⟩
  have hrun : ((VoteRequests.system (asker ["a", "b", "c"])).run VoteRequests.anyAction
      [.tick]).map (·.idle) = some false := by decide +kernel
  obtain ⟨s, hs, hidle⟩ := Option.map_eq_some_iff.mp hrun
  refine ⟨s, hs, hidle, (VoteRequests.tick_ends_iff (System.reach_of_run hs)).1.mpr (Or.inr ?_)⟩
  have hdraw : (((asker ["a", "b", "c"]).group.getRandomSigner 1).toOption.bind id).map (·.id) =
      some "b" := by decide +kernel
  obtain ⟨other, hother, hid⟩ := Option.map_eq_some_iff.mp hdraw
  obtain ⟨drawn, hdrawn, rfl⟩ := Option.bind_eq_some_iff.mp hother
  refine ⟨other, ⟨1, toOption_eq_some.mp hdrawn⟩, ?_⟩
  show other.id ≠ "a"
  rw [hid]
  decide

end VoteExample

end Tupelo

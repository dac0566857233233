import Tupelo.Infra.Transition
import Tupelo.Signer.Node

/-!
# Runs of a signer

A run starts with a signer that has never run. Its actions are the events of the node and
crashes; after a crash the signer starts again on the stores it left behind.

Next to the node a run keeps its history: the checkpoints decided, with the requests they named
in the mempool. No code reads it.
-/

namespace Tupelo

open Infra

/-- A decision: the checkpoint, and the requests that were applied for it. -/
@[ext]
structure Decision where
  checkpoint : Checkpoint
  applied : List AddBlockRequest

structure History where
  decided : List Decision

/-- A node and what happened to it so far. -/
structure TracedNode where
  node : Node
  history : History

inductive Action where
  | event (e : Node.Event)
  | crash

namespace TracedNode

/-- The requests of the mempool that a checkpoint names. -/
def applied (L : Ipld) (n : Node) (cp : Checkpoint) : List AddBlockRequest :=
  cp.addBlockRequests.filterMap fun b =>
    (L.cast b).toOption.bind fun id => (n.mempool.get id).map (·.abr)

def record (L : Ipld) (n : Node) (h : History) : Action → History
  | .event (.snowballerDone cp) =>
    { decided := h.decided ++ [{ checkpoint := cp, applied := applied L n cp }] }
  | _ => h

def act (E : Env) (s : TracedNode) (a : Action) : Option TracedNode :=
  let node := match a with
    | .event e => s.node.step E e
    | .crash =>
      (Node.initRoundHolder s.node.dagStore s.node.dataStore s.node.pubsub).toOption
  node.map fun n => { node := n, history := record E.L s.node s.history a }

/-- The runs of a signer. -/
def system (E : Env) : System TracedNode Action where
  start := { node := Node.genesis, history := { decided := [] } }
  act := act E

/-- Only a decision is recorded. -/
theorem record_of_ne {L : Ipld} {n : Node} {h : History} {e : Node.Event}
    (he : ∀ cp, e ≠ .snowballerDone cp) : record L n h (.event e) = h := by
  cases e with
  | snowballerDone cp => exact absurd rfl (he cp)
  | _ => rfl

theorem act_event {E : Env} {s s' : TracedNode} {e : Node.Event}
    (h : act E s (.event e) = some s') :
    ∃ n, s.node.step E e = some n ∧ s' = ⟨n, record E.L s.node s.history (.event e)⟩ := by
  obtain ⟨n, hn, hs'⟩ := Option.map_eq_some_iff.mp h
  exact ⟨n, hn, hs'.symm⟩

/-- After a crash only the stores and what was published are left. -/
theorem act_crash {E : Env} {s s' : TracedNode} (h : act E s .crash = some s') :
    ∃ n, Node.initRoundHolder s.node.dagStore s.node.dataStore s.node.pubsub = .ok n ∧
      s' = ⟨n, s.history⟩ := by
  obtain ⟨n, hn, hs'⟩ := Option.map_eq_some_iff.mp h
  refine ⟨n, ?_, hs'.symm⟩
  simp only [] at hn
  cases hi : Node.initRoundHolder s.node.dagStore s.node.dataStore s.node.pubsub with
  | error f =>
    rw [hi] at hn
    cases hn
  | ok n₁ =>
    rw [hi] at hn
    rw [Option.some.inj hn]

end TracedNode

/-! ## A signer of one object -/

namespace RunExample

def abr (previousTip newTip : UInt8) (height : UInt64) : AddBlockRequest :=
  .bare [1] [previousTip] [newTip] height

/-- A signature that says what was signed. -/
def sign (signers : List UInt32) (msg : Bytes) : Except Fault Signature :=
  .ok { ownership := none, signers, signature := msg, preImage := "" }

noncomputable def env : Env := ⟨Ipld.inFull, sign [1]⟩

/-- The round of the height is decided on the requests. -/
noncomputable def deciding (height : Nat) (abrs : List AddBlockRequest) : List Action :=
  [.event .startSnowball, .event (.snowballerDone (Ipld.inFull.naming height abrs))]

/-- A round in which the object gets one more request. -/
noncomputable def round (height : Nat) (a : AddBlockRequest) : List Action :=
  .event (.addBlockRequest a true) :: deciding height [a]

/-- Steps of the goroutine at `i`: after 7 it is about to write its height, after 11 it is done. -/
def background (i steps : Nat) : List Action :=
  List.replicate steps (.event (.background i 0 true))

end RunExample

end Tupelo

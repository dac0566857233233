import Mathlib.Data.List.Basic

/-!
# Channels

A channel between goroutines has a buffer of bounded length. A send that finds the buffer full
blocks its goroutine until a receiver makes room; a channel without a buffer has only such
senders. What was sent and not received yet is received in the order of the sends.

A goroutine that is blocked in a send panics when the channel is closed.
-/

namespace Infra

/-- A channel, with the values of the goroutines that are blocked in a send. -/
structure Chan (α : Type) where
  capacity : Nat
  buffer : List α
  senders : List α
  bounded : buffer.length ≤ capacity
  full : senders ≠ [] → buffer.length = capacity

namespace Chan

variable {α : Type}

/-- `make(chan T, capacity)`. -/
def make (capacity : Nat) : Chan α where
  capacity := capacity
  buffer := []
  senders := []
  bounded := Nat.zero_le _
  full := fun h => absurd rfl h

/-- All that has been sent and not received. -/
def pending (c : Chan α) : List α := c.buffer ++ c.senders

def hasRoom (c : Chan α) : Bool := c.buffer.length < c.capacity

/-- `ch <- v`, with no receiver waiting: the buffer takes the value, or the goroutine blocks. -/
def send (c : Chan α) (v : α) : Chan α :=
  if h : c.buffer.length < c.capacity then
    { c with
      buffer := c.buffer ++ [v]
      bounded := by rw [List.length_append, List.length_singleton]; exact h
      full := fun hs => absurd (c.full hs) (Nat.ne_of_lt h) }
  else
    { c with
      senders := c.senders ++ [v]
      full := fun _ => Nat.le_antisymm c.bounded (Nat.le_of_not_lt h) }

/-- `<-ch`: the first value, and the first of the blocked senders gets the room it leaves. -/
def receive (c : Chan α) : Option (α × Chan α) :=
  match hb : c.buffer, hs : c.senders with
  | [], [] => none
  | [], w :: ws => some (w, { c with
      senders := ws
      full := fun _ => c.full (by rw [hs]; exact List.cons_ne_nil _ _) })
  | v :: buffer, [] => some (v, { c with
      buffer := buffer
      senders := []
      bounded := Nat.le_of_succ_le (by simpa [hb] using c.bounded)
      full := fun h => absurd rfl h })
  | v :: buffer, w :: ws => some (v, { c with
      buffer := buffer ++ [w]
      senders := ws
      bounded := by simpa [hb] using c.bounded
      full := fun _ => by simpa [hb] using c.full (by rw [hs]; exact List.cons_ne_nil _ _) })

@[simp] theorem pending_make (capacity : Nat) : (make capacity : Chan α).pending = [] := rfl

@[simp] theorem capacity_send (c : Chan α) (v : α) : (c.send v).capacity = c.capacity := by
  unfold send
  split <;> rfl

/-- A sent value comes after all others. -/
theorem pending_send (c : Chan α) (v : α) : (c.send v).pending = c.pending ++ [v] := by
  unfold send pending
  split
  · next h =>
    have hnone : c.senders = [] := by
      by_contra hs
      exact Nat.ne_of_lt h (c.full hs)
    simp [hnone]
  · simp

/-- With room in the buffer nobody blocks. -/
theorem buffer_send {c : Chan α} (h : c.hasRoom = true) (v : α) :
    (c.send v).buffer = c.buffer ++ [v] := by
  unfold send
  rw [dif_pos (of_decide_eq_true h)]

/-- **Values are received in the order of the sends**, and each once. -/
theorem pending_of_receive {c c' : Chan α} {v : α} (h : c.receive = some (v, c')) :
    c.pending = v :: c'.pending := by
  unfold receive at h
  split at h
  · cases h
  · next w ws hb hs =>
    obtain ⟨rfl, rfl⟩ := Prod.mk.inj (Option.some.inj h)
    simp [pending, hb, hs]
  · next v buffer hb hs =>
    obtain ⟨rfl, rfl⟩ := Prod.mk.inj (Option.some.inj h)
    simp [pending, hb, hs]
  · next v buffer w ws hb hs =>
    obtain ⟨rfl, rfl⟩ := Prod.mk.inj (Option.some.inj h)
    simp [pending, hb, hs]

/-- Without a buffer, whatever is pending has a goroutine that is blocked. -/
theorem senders_eq_pending {c : Chan α} (h : c.capacity = 0) : c.senders = c.pending := by
  have hb : c.buffer = [] := List.eq_nil_of_length_eq_zero (Nat.le_zero.mp (h ▸ c.bounded))
  rw [pending, hb, List.nil_append]

theorem capacity_of_receive {c c' : Chan α} {v : α} (h : c.receive = some (v, c')) :
    c'.capacity = c.capacity := by
  unfold receive at h
  split at h
  · cases h
  all_goals
    obtain ⟨-, rfl⟩ := Prod.mk.inj (Option.some.inj h)
    rfl

end Chan

end Infra

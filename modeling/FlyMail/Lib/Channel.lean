/-
Channels with a bounded buffer.

A channel is the queue of what was sent and not yet received, never longer than its buffer,
and whether it is closed.  Only the operations that do not wait are here: an offer that is
passed over when the buffer is full, and a receive that is passed over when it is empty.
What was buffered before a channel is closed can still be received.
-/
import Mathlib.Init

namespace FlyMail

/-- A channel whose buffer holds `cap` values. -/
structure Chan (α : Type) (cap : Nat) where
  queue : List α
  closed : Bool
  fits : queue.length ≤ cap

namespace Chan

variable {α : Type} {cap : Nat}

def empty : Chan α cap := ⟨[], false, Nat.zero_le cap⟩

/-- There is room for another value. -/
def room (c : Chan α cap) : Bool := decide (c.queue.length < cap)

/-- Send `x` if there is room. -/
def offer (c : Chan α cap) (x : α) : Chan α cap :=
  if h : c.queue.length < cap then
    { c with
      queue := c.queue ++ [x]
      fits := by rw [List.length_append, List.length_singleton]; omega }
  else c

/-- Receive the oldest value, if there is one. -/
def drop (c : Chan α cap) : Chan α cap :=
  { c with
    queue := c.queue.tail
    fits := by
      have hfits := c.fits
      rw [List.length_tail]
      omega }

def close (c : Chan α cap) : Chan α cap := { c with closed := true }

@[simp] theorem offer_closed (c : Chan α cap) (x : α) : (c.offer x).closed = c.closed := by
  unfold offer
  split <;> rfl

@[simp] theorem drop_closed (c : Chan α cap) : c.drop.closed = c.closed := rfl

@[simp] theorem drop_queue (c : Chan α cap) : c.drop.queue = c.queue.tail := rfl

@[simp] theorem close_queue (c : Chan α cap) : c.close.queue = c.queue := rfl

@[simp] theorem close_closed (c : Chan α cap) : c.close.closed = true := rfl

/-- With room, the value is queued behind the others. -/
theorem offer_queue {c : Chan α cap} (h : c.room = true) (x : α) :
    (c.offer x).queue = c.queue ++ [x] := by
  unfold offer
  rw [dif_pos (of_decide_eq_true h)]

/-- Without room, nothing happens. -/
theorem offer_eq_self {c : Chan α cap} (h : c.room = false) (x : α) : c.offer x = c := by
  unfold offer
  rw [dif_neg (of_decide_eq_false h)]

/-- **Receiving makes room.** -/
theorem room_drop (hcap : 0 < cap) (c : Chan α cap) : c.drop.room = true := by
  have hfits := c.fits
  refine decide_eq_true ?_
  rw [drop_queue, List.length_tail]
  omega

/-- Room only goes with an offer. -/
theorem room_of_le {c d : Chan α cap} (h : c.room = true)
    (hle : d.queue.length ≤ c.queue.length) : d.room = true :=
  decide_eq_true (Nat.lt_of_le_of_lt hle (of_decide_eq_true h))

end Chan

end FlyMail

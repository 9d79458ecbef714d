import Mathlib.Data.List.Basic

/-!
# An upload through a buffer

A producer hands over chunks; a consumer takes what it has, a part at a time; at
the end the channel is closed. `Upload` is such a transfer in progress, and it
carries what makes it one: what was taken and what is waiting are, in order, what
was handed over, and only a finished transfer is closed. The operations keep this
by their types, so a program that tracks an `Upload` has both facts at every
moment.
-/

namespace TcpClient

universe u

/-- A transfer in progress. -/
structure Upload (β : Type u) where
  /-- What the producer handed over. -/
  source : List β
  /-- What the consumer took. -/
  sent : List β
  /-- What waits in between. -/
  pending : List β
  /-- The producer is finished. -/
  ended : Bool
  /-- The channel is closed. -/
  closed : Bool
  conserved : sent ++ pending = source
  closed_done : closed = true → ended = true ∧ pending = []

namespace Upload

variable {β : Type u} (u : Upload β)

/-- Everything is there from the start. -/
def whole (bs : List β) : Upload β := ⟨bs, [], bs, true, false, rfl, by simp⟩

/-- Nothing is there yet. -/
def fresh : Upload β := ⟨[], [], [], false, false, rfl, by simp⟩

/-- The producer hands over a chunk, while nothing waits. -/
def refill (bs : List β) (hp : u.pending = []) (he : u.ended = false) : Upload β :=
  { u with
    source := u.source ++ bs
    pending := bs
    conserved := by rw [← u.conserved, hp, List.append_nil]
    closed_done := fun hc => by simpa [he] using (u.closed_done hc).1 }

/-- The producer is finished. -/
def finish : Upload β := { u with ended := true, closed_done := fun hc => ⟨rfl, (u.closed_done hc).2⟩ }

/-- The consumer takes `n` elements. -/
def take (n : ℕ) : Upload β :=
  { u with
    sent := u.sent ++ u.pending.take n
    pending := u.pending.drop n
    conserved := by rw [List.append_assoc, List.take_append_drop, u.conserved]
    closed_done := fun hc => by simpa [(u.closed_done hc).2] using (u.closed_done hc).1 }

/-- The channel is closed, after the last element. -/
def close (he : u.ended = true) (hp : u.pending = []) : Upload β :=
  { u with closed := true, closed_done := fun _ => ⟨he, hp⟩ }

/-- **A transfer with nothing waiting is complete.** -/
theorem sent_eq_source (hp : u.pending = []) : u.sent = u.source := by
  rw [← u.conserved, hp, List.append_nil]

/-- Nothing is left to take after the channel is closed. -/
theorem pending_eq_nil (hc : u.closed = true) : u.pending = [] := (u.closed_done hc).2

end Upload

end TcpClient

import Chip8.Fault

/-!
# The call stack

Return addresses, saved by calls and taken back by returns in reverse order.  The capacity is part
of the type, so nothing can change it.
-/

namespace Chip8

/-- A stack of at most `capacity` return addresses. -/
structure CallStack (capacity : Nat) where
  /-- The saved addresses, the latest first. -/
  frames : List Nat
  deriving DecidableEq

namespace CallStack

variable {capacity : Nat}

/-- No call is open. -/
def empty : CallStack capacity :=
  ⟨[]⟩

/-- Forgets all open calls. -/
def clear (_ : CallStack capacity) : CallStack capacity :=
  empty

/-- The number of open calls. -/
def depth (s : CallStack capacity) : Nat :=
  s.frames.length

/-- Saves a return address, if there is room for it. -/
def push (s : CallStack capacity) (address : Nat) : Except Fault (CallStack capacity) :=
  if s.depth < capacity then .ok ⟨address :: s.frames⟩ else .error (.stackOverflow capacity)

/-- Takes back the latest return address. -/
def pop (s : CallStack capacity) : Except Fault (Nat × CallStack capacity) :=
  match s.frames with
  | [] => .error .stackUnderflow
  | address :: rest => .ok (address, ⟨rest⟩)

theorem depth_push {s t : CallStack capacity} {address : Nat} (h : s.push address = .ok t) :
    t.depth = s.depth + 1 ∧ t.depth ≤ capacity := by
  unfold push at h
  split at h
  · next room =>
    cases h
    exact ⟨rfl, room⟩
  · cases h

end CallStack

end Chip8

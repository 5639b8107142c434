/-!
# The step budget

A rate of instructions in a second is spread over the sixty frames of each second.  A frame gets
the whole sixtieths of the rate and of what the frames before it left over; the remainder, always
below sixty, is carried on.

The sum of carry and rate has to fit in 64 bits.  It always does for rates up to `2 ^ 64 - 60`; for
a greater rate there may be a frame whose budget cannot be told.

## Main definitions

* `StepBudget.next?`: the steps of the next frame, and the budget after it.
* `StepBudget.take?`: the steps of so many frames.
-/

namespace Chip8

/-- A rate, and what earlier frames left over. -/
structure StepBudget where
  /-- Instructions in a second. -/
  rate : UInt64
  /-- Sixtieths of an instruction left over. -/
  carry : UInt64
  deriving DecidableEq

namespace StepBudget

/-- Frames in a second. -/
def framesPerSecond : UInt64 := 60

/-- The budget of a rate, before the first frame. -/
def ofRate (rate : UInt64) : StepBudget :=
  ⟨rate, 0⟩

/-- The steps of the next frame, and the budget after it. -/
def next? (b : StepBudget) : Option (UInt64 × StepBudget) :=
  if b.carry.toNat + b.rate.toNat < UInt64.size then
    let total := b.carry + b.rate
    some (total / framesPerSecond, { b with carry := total % framesPerSecond })
  else none

/-- The steps of the next `n` frames, and the budget after them. -/
def take? : Nat → StepBudget → Option (List UInt64 × StepBudget)
  | 0, b => some ([], b)
  | n + 1, b => do
    let (steps, b') ← b.next?
    let (rest, last) ← take? n b'
    return (steps :: rest, last)

theorem next?_eq_none_iff {b : StepBudget} :
    b.next? = none ↔ UInt64.size ≤ b.carry.toNat + b.rate.toNat := by
  unfold next?
  split <;> simp <;> omega

end StepBudget

end Chip8

/-!
# Keys from seeds

A seed of 64 bits is spread over a key of eight words by a linear congruential generator of 64
bits, each of whose states gives one word: its high bits are folded onto themselves and rotated by
an amount that the top five bits choose.

## Main definitions

* `Seed.key`: the key of a seed.
-/

namespace Chip8

namespace Seed

/-- The next state of the generator. -/
def advance (s : UInt64) : UInt64 :=
  s * 6364136223846793005 + 11634580027462260723

/-- Bits shifted out on the right come back on the left; the amount counts modulo 32. -/
def rotateRight (a n : UInt32) : UInt32 :=
  a >>> n ||| a <<< (32 - n)

/-- The word that a state gives. -/
def output (s : UInt64) : UInt32 :=
  rotateRight (((s >>> 18) ^^^ s) >>> 27).toUInt32 (s >>> 59).toUInt32

/-- The state after so many steps. -/
def state (seed : UInt64) : Nat → UInt64
  | 0 => seed
  | n + 1 => advance (state seed n)

/-- The eight words given by the states after the seed. -/
def key (seed : UInt64) : Vector UInt32 8 :=
  Vector.ofFn fun i => output (state seed (i.val + 1))

end Seed

end Chip8

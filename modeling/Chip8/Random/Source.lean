import Chip8.Random.ChaCha
import Chip8.Random.Seed

/-!
# Random sources

A random source is an endless sequence of 32-bit words together with the position it has reached.
Each random byte is the low eight bits of the next word, so what a machine has drawn is told by the
position alone.

## Main definitions

* `RandomSource.ofSeed`: the ChaCha stream of six double rounds under the key of a seed.
* `RandomSource.ofList`: a given list of words, over and over.
* `RandomSource.next`: the next byte.
-/

namespace Chip8

/-- A sequence of words and the number of words already taken. -/
structure RandomSource where
  /-- The words by position. -/
  word : Nat → UInt32
  /-- The position of the next word. -/
  position : Nat

namespace RandomSource

/-- The stream that a seed determines. -/
def ofSeed (seed : UInt64) : RandomSource where
  word := ChaCha.word 6 (Seed.key seed)
  position := 0

/-- The words of a list, starting over after the last; zeros for the empty list. -/
def ofList (words : List UInt32) : RandomSource where
  word i := words.getD (i % words.length) 0
  position := 0

/-- The next random byte, and the source behind it. -/
def next (r : RandomSource) : UInt8 × RandomSource :=
  ((r.word r.position).toUInt8, { r with position := r.position + 1 })

end RandomSource

end Chip8

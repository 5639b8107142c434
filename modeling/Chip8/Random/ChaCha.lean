import Chip8.Digit

/-!
# The ChaCha word stream

ChaCha turns a key of eight words and a block counter into blocks of sixteen words.  Taken block
after block, they form an endless stream of 32-bit words in which any position can be computed by
itself (`ChaCha.word`).

The state of a block is sixteen words: four constants, the key, the counter (low word first) and
two zero words.  A double round mixes the columns and then the diagonals of the four by four square
of words; after the rounds the state before them is added.
-/

namespace Chip8

namespace ChaCha

/-- The sixteen words of a block. -/
abbrev Block := Vector UInt32 16

/-- Bits shifted out on the left come back on the right. -/
def rotateLeft (a : UInt32) (n : UInt32) : UInt32 :=
  a <<< n ||| a >>> (32 - n)

/-- Mixes four words of the state. -/
def quarterRound (s : Block) (a b c d : Fin 16) : Block :=
  let s := s.set a (s[a] + s[b])
  let s := s.set d (rotateLeft (s[d] ^^^ s[a]) 16)
  let s := s.set c (s[c] + s[d])
  let s := s.set b (rotateLeft (s[b] ^^^ s[c]) 12)
  let s := s.set a (s[a] + s[b])
  let s := s.set d (rotateLeft (s[d] ^^^ s[a]) 8)
  let s := s.set c (s[c] + s[d])
  s.set b (rotateLeft (s[b] ^^^ s[c]) 7)

/-- The columns, then the diagonals. -/
def doubleRound (s : Block) : Block :=
  let s := quarterRound s 0 4 8 12
  let s := quarterRound s 1 5 9 13
  let s := quarterRound s 2 6 10 14
  let s := quarterRound s 3 7 11 15
  let s := quarterRound s 0 5 10 15
  let s := quarterRound s 1 6 11 12
  let s := quarterRound s 2 7 8 13
  quarterRound s 3 4 9 14

/-- So many double rounds. -/
def mix : Nat → Block → Block
  | 0, s => s
  | n + 1, s => mix n (doubleRound s)

/-- The state before the rounds. -/
def start (key : Vector UInt32 8) (counter : Nat) : Block :=
  #v[0x61707865, 0x3320646e, 0x79622d32, 0x6b206574,
     key[0], key[1], key[2], key[3], key[4], key[5], key[6], key[7],
     UInt32.ofNat counter, UInt32.ofNat (counter / UInt32.size), 0, 0]

/-- The block of a counter. -/
def block (doubleRounds : Nat) (key : Vector UInt32 8) (counter : Nat) : Block :=
  let s := start key counter
  s.zipWith (· + ·) (mix doubleRounds s)

/-- The word at a position of the stream. -/
def word (doubleRounds : Nat) (key : Vector UInt32 8) (position : Nat) : UInt32 :=
  have : position % 16 < 16 := mod_sixteen_lt position
  (block doubleRounds key (position / 16))[position % 16]

end ChaCha

end Chip8

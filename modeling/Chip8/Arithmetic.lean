import Chip8.Dialect

/-!
# Register arithmetic

The nine operations on two registers.  Each takes the values of Vx and Vy and gives the new value
of Vx (`Operation.result`) and, for most, what the flag says afterwards (`Operation.flag`): a carry
out of a sum, no borrow in a difference, the bit that a shift moves out.  An operation whose flag
is `none` leaves the flag register alone.

The choices of a `Dialect` decide which operand a shift takes and whether the logic operations
clear the flag.
-/

namespace Chip8

/-- The operations on Vx and Vy. -/
inductive Operation where
  /-- Vx becomes Vy. -/
  | copy
  /-- Vx becomes Vx or Vy, bit by bit. -/
  | or
  /-- Vx becomes Vx and Vy, bit by bit. -/
  | and
  /-- Vx becomes Vx exclusive or Vy, bit by bit. -/
  | xor
  /-- Vx becomes Vx + Vy. -/
  | add
  /-- Vx becomes Vx - Vy. -/
  | sub
  /-- Vx becomes its operand shifted right by one. -/
  | shiftRight
  /-- Vx becomes Vy - Vx. -/
  | subFrom
  /-- Vx becomes its operand shifted left by one. -/
  | shiftLeft
  deriving DecidableEq

namespace Operation

/-- The operand of a shift. -/
def shifted (d : Dialect) (x y : UInt8) : UInt8 :=
  if d.shiftReadsVy then y else x

/-- The new value of Vx, modulo 256. -/
def result (d : Dialect) (x y : UInt8) : Operation → UInt8
  | copy => y
  | or => x ||| y
  | and => x &&& y
  | xor => x ^^^ y
  | add => x + y
  | sub => x - y
  | shiftRight => shifted d x y >>> 1
  | subFrom => y - x
  | shiftLeft => shifted d x y <<< 1

/-- What the flag says afterwards; `none` where the operation does not write it. -/
def flag (d : Dialect) (x y : UInt8) : Operation → Option Bool
  | copy => none
  | or | and | xor => if d.logicResetsFlag then some false else none
  | add => some (decide (255 < x.toNat + y.toNat))
  | sub => some (decide (y ≤ x))
  | shiftRight => some (decide ((shifted d x y).toNat % 2 = 1))
  | subFrom => some (decide (x ≤ y))
  | shiftLeft => some (decide (128 ≤ (shifted d x y).toNat))

end Operation

end Chip8

import Chip8.Arithmetic
import Chip8.Registers

/-!
# Instructions

The instructions of the machine, each with its operands.  An operand is a register, a byte, an
address of twelve bits or a height of four, so every value of the type is an instruction that a
word can hold.

Instructions that do the same kind of thing are one constructor: the six skips differ in their
`Condition`, the nine operations on two registers in their `Operation`.

## Main definitions

* `Condition`, `Instruction`: the instructions.
* `Instruction.text`: an instruction as a word with its operands, as the log shows it.
-/

namespace Chip8

/-- What a skip depends on. -/
inductive Condition where
  /-- Vx is the byte. -/
  | byteEq (x : Register) (byte : UInt8)
  /-- Vx is not the byte. -/
  | byteNe (x : Register) (byte : UInt8)
  /-- Vx and Vy are equal. -/
  | regEq (x y : Register)
  /-- Vx and Vy differ. -/
  | regNe (x y : Register)
  /-- The key that Vx names is down. -/
  | keyDown (x : Register)
  /-- The key that Vx names is up. -/
  | keyUp (x : Register)
  deriving DecidableEq

/-- The instructions. -/
inductive Instruction where
  /-- Turns all pixels off. -/
  | clearScreen
  /-- Goes back behind the latest open call. -/
  | ret
  /-- Goes on at an address. -/
  | jump (address : Fin 4096)
  /-- Goes on at an address and saves where to come back to. -/
  | call (address : Fin 4096)
  /-- Skips the next instruction if the condition holds. -/
  | skip (condition : Condition)
  /-- Vx becomes the byte. -/
  | setByte (x : Register) (byte : UInt8)
  /-- Adds the byte to Vx without touching the flag. -/
  | addByte (x : Register) (byte : UInt8)
  /-- Vx becomes the result of an operation on Vx and Vy. -/
  | combine (operation : Operation) (x y : Register)
  /-- The index becomes the address. -/
  | setIndex (address : Fin 4096)
  /-- Goes on at an address plus V0. -/
  | jumpOffset (address : Fin 4096)
  /-- Vx becomes a random byte, masked. -/
  | random (x : Register) (mask : UInt8)
  /-- Draws the sprite of so many rows at the index, at column Vx of row Vy. -/
  | draw (x y : Register) (height : Fin 16)
  /-- Vx becomes the delay timer. -/
  | readDelay (x : Register)
  /-- Waits for a key press that is yet to come and puts the key into Vx. -/
  | awaitKey (x : Register)
  /-- The delay timer becomes Vx. -/
  | setDelay (x : Register)
  /-- The sound timer becomes Vx. -/
  | setSound (x : Register)
  /-- Adds Vx to the index. -/
  | addIndex (x : Register)
  /-- The index becomes the address of the glyph of the digit in Vx. -/
  | glyph (x : Register)
  /-- Writes the three decimal digits of Vx at the index. -/
  | decimal (x : Register)
  /-- Writes V0 to Vx at the index. -/
  | store (x : Register)
  /-- Reads V0 to Vx from the index. -/
  | load (x : Register)
  deriving DecidableEq

/-! ### Text -/

/-- A name with its operands in parentheses. -/
def Instruction.withOperands (name : String) (operands : List String) : String :=
  name ++ "(" ++ String.intercalate ", " operands ++ ")"

open Instruction (withOperands) in
/-- The text of a skip. -/
def Condition.text : Condition → String
  | byteEq x byte => withOperands "SkipEq" [x.name, toString byte.toNat]
  | byteNe x byte => withOperands "SkipNeq" [x.name, toString byte.toNat]
  | regEq x y => withOperands "SkipRegEq" [x.name, y.name]
  | regNe x y => withOperands "SkipRegNeq" [x.name, y.name]
  | keyDown x => withOperands "SkipIfKeyPressed" [x.name]
  | keyUp x => withOperands "SkipIfKeyNotPressed" [x.name]

/-- The name under which an operation is shown. -/
def Operation.name : Operation → String
  | copy => "SetXToY"
  | or => "BinaryOr"
  | and => "BinaryAnd"
  | xor => "LogicalXor"
  | add => "BinaryAdd"
  | sub => "SubtractYFromX"
  | shiftRight => "RightShift"
  | subFrom => "SubtractXFromY"
  | shiftLeft => "LeftShift"

namespace Instruction

/-- The text of an instruction: its name, and its operands with numbers in decimal. -/
def text : Instruction → String
  | clearScreen => "ClearScreen"
  | ret => "SubroutineReturn"
  | jump a => withOperands "Jump" [toString a.val]
  | call a => withOperands "SubroutineCall" [toString a.val]
  | skip c => c.text
  | setByte x byte => withOperands "SetImmediate" [x.name, toString byte.toNat]
  | addByte x byte => withOperands "Add" [x.name, toString byte.toNat]
  | combine f x y => withOperands f.name [x.name, y.name]
  | setIndex a => withOperands "SetIndex" [toString a.val]
  | jumpOffset a => withOperands "JumpWithOffset" [toString a.val]
  | random x mask => withOperands "Random" [x.name, toString mask.toNat]
  | draw x y height => withOperands "Draw" [x.name, y.name, toString height.val]
  | readDelay x => withOperands "SetVxFromTimer" [x.name]
  | awaitKey x => withOperands "GetKey" [x.name]
  | setDelay x => withOperands "SetDelayTimer" [x.name]
  | setSound x => withOperands "SetSoundTimer" [x.name]
  | addIndex x => withOperands "AddToIndex" [x.name]
  | glyph x => withOperands "FontChar" [x.name]
  | decimal x => withOperands "BinaryCodedDecimal" [x.name]
  | store x => withOperands "Store" [x.name]
  | load x => withOperands "Load" [x.name]

end Instruction

end Chip8

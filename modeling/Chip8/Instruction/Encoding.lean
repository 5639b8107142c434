import Chip8.Fault
import Chip8.Instruction
import Chip8.Word

/-!
# The encoding of instructions

How a word stands for an instruction, in both directions: `Instruction.decode?` reads a word and
`Instruction.encode` writes one.  The first digit of a word selects a family; four families look at
further digits, and a word that fits no pattern is no instruction.

## Main definitions

* `Instruction.decode?`, `Instruction.decode`: the instruction of a word, if it has one.
* `Instruction.encode`: the word of an instruction.
* `Instruction.image`: the bytes of a list of instructions, as a program is kept in memory.
-/

namespace Chip8

namespace Operation

/-- The operation that the last digit of a word selects. -/
def ofDigit? : Nat → Option Operation
  | 0x0 => some copy
  | 0x1 => some or
  | 0x2 => some and
  | 0x3 => some xor
  | 0x4 => some add
  | 0x5 => some sub
  | 0x6 => some shiftRight
  | 0x7 => some subFrom
  | 0xE => some shiftLeft
  | _ => none

/-- The digit that selects an operation. -/
def digit : Operation → Nat
  | copy => 0x0
  | or => 0x1
  | and => 0x2
  | xor => 0x3
  | add => 0x4
  | sub => 0x5
  | shiftRight => 0x6
  | subFrom => 0x7
  | shiftLeft => 0xE

theorem ofDigit?_eq_some_iff {d : Nat} {f : Operation} : ofDigit? d = some f ↔ f.digit = d := by
  constructor
  · intro h
    unfold ofDigit? at h
    split at h <;> simp_all [digit] <;> subst h <;> rfl
  · rintro rfl
    cases f <;> rfl

end Operation

namespace Instruction

/-- The instructions of the machine itself, told apart by their address digits. -/
def ofSystem? : Nat → Option Instruction
  | 0x0E0 => some clearScreen
  | 0x0EE => some ret
  | _ => none

/-- The instructions on the key that a register names, told apart by their low byte. -/
def ofKey? (x : Register) : Nat → Option Instruction
  | 0x9E => some (skip (.keyDown x))
  | 0xA1 => some (skip (.keyUp x))
  | _ => none

/-- The instructions that move one register, told apart by their low byte. -/
def ofTransfer? (x : Register) : Nat → Option Instruction
  | 0x07 => some (readDelay x)
  | 0x0A => some (awaitKey x)
  | 0x15 => some (setDelay x)
  | 0x18 => some (setSound x)
  | 0x1E => some (addIndex x)
  | 0x29 => some (glyph x)
  | 0x33 => some (decimal x)
  | 0x55 => some (store x)
  | 0x65 => some (load x)
  | _ => none

/-- The instruction that a word stands for. -/
def decode? (w : Word) : Option Instruction :=
  match w.op.val with
  | 0x0 => ofSystem? w.nnn
  | 0x1 => some (jump w.nnn)
  | 0x2 => some (call w.nnn)
  | 0x3 => some (skip (.byteEq w.x w.nn))
  | 0x4 => some (skip (.byteNe w.x w.nn))
  | 0x5 => if w.n = 0 then some (skip (.regEq w.x w.y)) else none
  | 0x6 => some (setByte w.x w.nn)
  | 0x7 => some (addByte w.x w.nn)
  | 0x8 => (Operation.ofDigit? w.n).map fun f => combine f w.x w.y
  | 0x9 => if w.n = 0 then some (skip (.regNe w.x w.y)) else none
  | 0xA => some (setIndex w.nnn)
  | 0xB => some (jumpOffset w.nnn)
  | 0xC => some (random w.x w.nn)
  | 0xD => some (draw w.x w.y w.n)
  | 0xE => ofKey? w.x w.nn.toNat
  | 0xF => ofTransfer? w.x w.nn.toNat
  | _ => none

/-- The instruction that a word stands for; a word that stands for none is a fault. -/
def decode (w : Word) : Except Fault Instruction :=
  match decode? w with
  | some i => .ok i
  | none => .error (.unsupportedOpcode w)

/-! ### Writing words -/

/-- The word with first digit `op` and an address. -/
def wordWithAddress (op : Nat) (a : Fin 4096) : Word :=
  UInt16.ofNat (op * 4096 + a.val)

/-- The word with first digit `op`, a register and a low byte. -/
def wordWithByte (op : Nat) (x : Register) (byte : Nat) : Word :=
  UInt16.ofNat (op * 4096 + x.val * 256 + byte)

/-- The word with first digit `op`, two registers and a last digit. -/
def wordWithDigit (op : Nat) (x y : Register) (digit : Nat) : Word :=
  UInt16.ofNat (op * 4096 + x.val * 256 + y.val * 16 + digit)

/-- The word of an instruction. -/
def encode : Instruction → Word
  | clearScreen => 0x00E0
  | ret => 0x00EE
  | jump a => wordWithAddress 0x1 a
  | call a => wordWithAddress 0x2 a
  | skip (.byteEq x byte) => wordWithByte 0x3 x byte.toNat
  | skip (.byteNe x byte) => wordWithByte 0x4 x byte.toNat
  | skip (.regEq x y) => wordWithDigit 0x5 x y 0
  | skip (.regNe x y) => wordWithDigit 0x9 x y 0
  | skip (.keyDown x) => wordWithByte 0xE x 0x9E
  | skip (.keyUp x) => wordWithByte 0xE x 0xA1
  | setByte x byte => wordWithByte 0x6 x byte.toNat
  | addByte x byte => wordWithByte 0x7 x byte.toNat
  | combine f x y => wordWithDigit 0x8 x y f.digit
  | setIndex a => wordWithAddress 0xA a
  | jumpOffset a => wordWithAddress 0xB a
  | random x mask => wordWithByte 0xC x mask.toNat
  | draw x y height => wordWithDigit 0xD x y height.val
  | readDelay x => wordWithByte 0xF x 0x07
  | awaitKey x => wordWithByte 0xF x 0x0A
  | setDelay x => wordWithByte 0xF x 0x15
  | setSound x => wordWithByte 0xF x 0x18
  | addIndex x => wordWithByte 0xF x 0x1E
  | glyph x => wordWithByte 0xF x 0x29
  | decimal x => wordWithByte 0xF x 0x33
  | store x => wordWithByte 0xF x 0x55
  | load x => wordWithByte 0xF x 0x65

/-- The program image of a list of instructions. -/
def image (program : List Instruction) : List UInt8 :=
  program.flatMap fun i => i.encode.bytes

end Instruction

end Chip8

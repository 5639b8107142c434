import Chip8.Instruction
import Chip8.Machine

/-!
# Execution of instructions

What each instruction does to the machine.  The program counter already points behind the
instruction: jumps replace it and a satisfied skip moves it past one more word.

An instruction that fails gives a fault and no new state, so a failure changes nothing.  Where an
instruction writes both a result and the flag, the flag is written last.

## Main definitions

* `Condition.holds`: when a skip is taken.
* `Machine.execute`: the effect of an instruction.
-/

namespace Chip8

/-- Whether the condition of a skip is met. -/
def Condition.holds (m : Machine) : Condition → Bool
  | byteEq x byte => m.registers.read x == byte
  | byteNe x byte => m.registers.read x != byte
  | regEq x y => m.registers.read x == m.registers.read y
  | regNe x y => m.registers.read x != m.registers.read y
  | keyDown x => m.keypad.isDown (Key.ofByte (m.registers.read x))
  | keyUp x => !m.keypad.isDown (Key.ofByte (m.registers.read x))

/-- The three decimal digits of a byte, hundreds first. -/
def decimalDigits (value : UInt8) : List UInt8 :=
  [value / 100, value / 10 % 10, value % 10]

namespace Machine

/-- The index counts modulo 4096. -/
def wrapIndex (i : Nat) : Nat :=
  i % 4096

theorem wrapIndex_le (i : Nat) : wrapIndex i ≤ 0xFFF :=
  Nat.le_of_lt_succ (Nat.mod_lt i (by decide))

/-- The machine with the value of a register replaced. -/
def write (m : Machine) (x : Register) (value : UInt8) : Machine :=
  { m with registers := m.registers.write x value }

/-- The machine with the flag written. -/
def setFlag (m : Machine) (on : Bool) : Machine :=
  { m with registers := m.registers.setFlag on }

/-- Writes the result of an operation to Vx, and then the flag if the operation has one. -/
def combine (m : Machine) (f : Operation) (x y : Register) : Machine :=
  let (a, b) := (m.registers.read x, m.registers.read y)
  let m' := m.write x (f.result m.dialect a b)
  match f.flag m.dialect a b with
  | none => m'
  | some on => m'.setFlag on

/-- Moves the index past a transferred block, in the dialect that does so. -/
def passBlock (m : Machine) (length : Nat) : Machine :=
  if m.dialect.loadStoreAdvancesIndex then
    { m with index := wrapIndex (m.index + length) }
  else m

/-- Draws the sprite of `height` rows at the index with its corner in column `x` of row `y`, both
counted modulo the screen; also tells whether a lit pixel was turned off. -/
def drawSprite (m : Machine) (x y : UInt8) (height : Nat) : Except Fault (Bool × Machine) := do
  let sprite ← m.memory.readBlock m.index height
  let (column, row) := (x.toNat % Screen.width, y.toNat % Screen.height)
  return (m.screen.collides column row sprite,
    { m with screen := m.screen.draw column row sprite })

/-- The effect of an instruction. -/
def execute (m : Machine) : Instruction → Except Fault Machine
  | .clearScreen => .ok { m with screen := .dark }
  | .ret => do
    let (address, stack) ← m.stack.pop
    return { m with pc := address, stack := stack }
  | .jump a => .ok { m with pc := a.val }
  | .call a => do
    let stack ← m.stack.push m.pc
    return { m with pc := a.val, stack := stack }
  | .skip c => .ok (if c.holds m then { m with pc := m.pc + 2 } else m)
  | .setByte x byte => .ok (m.write x byte)
  | .addByte x byte => .ok (m.write x (m.registers.read x + byte))
  | .combine f x y => .ok (m.combine f x y)
  | .setIndex a => .ok { m with index := a.val }
  | .jumpOffset a => .ok { m with pc := a.val + (m.registers.read 0).toNat }
  | .random x mask =>
    let (byte, source) := m.random.next
    .ok ({ m with random := source }.write x (byte &&& mask))
  | .draw x y height => do
    let (collision, m') ← m.drawSprite (m.registers.read x) (m.registers.read y) height.val
    return m'.setFlag collision
  | .readDelay x => .ok (m.write x m.timers.delay)
  | .awaitKey x => .ok { m with keypad := m.keypad.clearPress, keyWait := some x }
  | .setDelay x => .ok { m with timers := { m.timers with delay := m.registers.read x } }
  | .setSound x => .ok { m with timers := { m.timers with sound := m.registers.read x } }
  | .addIndex x =>
    let sum := m.index + (m.registers.read x).toNat
    .ok ({ m with index := wrapIndex sum }.setFlag (decide (4096 ≤ sum)))
  | .glyph x => .ok { m with index := Font.glyphAddress (m.registers.read x) }
  | .decimal x => do
    let memory ← m.memory.writeBlock m.index (decimalDigits (m.registers.read x))
    return { m with memory := memory }
  | .store x => do
    let memory ← m.memory.writeBlock m.index (m.registers.firstValues x)
    return { m with memory := memory }.passBlock (x.val + 1)
  | .load x => do
    let block ← m.memory.readBlock m.index (x.val + 1)
    return { m with registers := m.registers.writeFirst block }.passBlock (x.val + 1)

end Machine

end Chip8

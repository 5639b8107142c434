import Chip8.CallStack
import Chip8.Dialect
import Chip8.Keypad
import Chip8.Memory
import Chip8.Random.Source
import Chip8.Registers
import Chip8.Screen
import Chip8.Timers

/-!
# The machine

The whole state of the machine as one value: memory, registers, call stack, timers, screen, keypad
and random source.  Instructions act on it (`Machine.execute`), and between steps a host does.

The program counter and the index are natural numbers: the counter is never cut to the twelve bits
of an address, so that running off the end of memory is noticed where it happens.

## Main definitions

* `Machine`, `Machine.fresh`: the state, and the state at power-on.
* `Machine.load`, `Machine.loadAt`, `Machine.setKey`, `Machine.releaseAllKeys`, `Machine.tick`,
  `Machine.reset`: what the host does.
* `Machine.snapshot`: what the host sees of the registers.
-/

namespace Chip8

/-- The state of the machine. -/
structure Machine where
  /-- The memory. -/
  memory : Memory
  /-- V0 to VF. -/
  registers : Registers
  /-- The program counter: where the next instruction is fetched. -/
  pc : Nat
  /-- The index: where instructions find their block of memory. -/
  index : Nat
  /-- The open calls, at most sixteen. -/
  stack : CallStack 16
  /-- The two timers. -/
  timers : Timers
  /-- The screen. -/
  screen : Screen
  /-- The keys. -/
  keypad : Keypad
  /-- The choices on which interpreters differ. -/
  dialect : Dialect
  /-- Where random bytes come from. -/
  random : RandomSource
  /-- The register that waits for a key press, if an instruction waits. -/
  keyWait : Option Register

/-- What the host sees of the registers; counter and index as 16-bit numbers. -/
structure Snapshot where
  /-- V0 to VF. -/
  registers : Registers
  /-- The index. -/
  index : UInt16
  /-- The program counter. -/
  pc : UInt16
  /-- The number of open calls. -/
  depth : Nat
  /-- The timers. -/
  timers : Timers
  deriving DecidableEq

namespace Machine

/-- The machine at power-on. -/
def fresh (dialect : Dialect) (random : RandomSource) : Machine where
  memory := .fresh
  registers := .zero
  pc := Memory.programStart
  index := 0
  stack := .empty
  timers := .zero
  screen := .dark
  keypad := .fresh
  dialect := dialect
  random := random
  keyWait := none

/-- Back to power-on.  The dialect stays, and the random source goes on where it stands. -/
def reset (m : Machine) : Machine :=
  { m with
    memory := .fresh
    registers := .zero
    pc := Memory.programStart
    index := 0
    stack := m.stack.clear
    timers := .zero
    screen := .dark
    keypad := .fresh
    keyWait := none }

theorem reset_eq_fresh (m : Machine) : m.reset = fresh m.dialect m.random := rfl

/-- Places a program where programs start. -/
def load (m : Machine) (program : List UInt8) : Except Fault Machine := do
  return { m with memory := ← m.memory.loadProgram program }

/-- Places a program at an address. -/
def loadAt (m : Machine) (program : List UInt8) (address : Nat) : Except Fault Machine := do
  return { m with memory := ← m.memory.load program address }

/-- Reports the key of a number down or up. -/
def setKey (m : Machine) (index : Nat) (down : Bool) : Except Fault Machine := do
  let key ← Key.ofIndex index
  return { m with keypad := m.keypad.setKey key down }

/-- Reports all keys up. -/
def releaseAllKeys (m : Machine) : Machine :=
  { m with keypad := m.keypad.releaseAll }

/-- One tick of the timers. -/
def tick (m : Machine) : Machine :=
  { m with timers := m.timers.tick }

/-- Whether an instruction waits for a key press. -/
def isWaiting (m : Machine) : Bool :=
  m.keyWait.isSome

/-- The registers as the host sees them. -/
def snapshot (m : Machine) : Snapshot where
  registers := m.registers
  index := UInt16.ofNat m.index
  pc := UInt16.ofNat m.pc
  depth := m.stack.depth
  timers := m.timers

end Machine

end Chip8

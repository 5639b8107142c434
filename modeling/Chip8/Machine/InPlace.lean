import Chip8.Machine.Event
import Mathlib.Algebra.Group.Nat.Defs

/-!
# The machine in place

`Machine.step` and its companions are functions: a failed operation gives no new machine, sums are
unbounded, and an index outside an array reads as a default.  Here the same operations act on one
machine in place, a read or a write at a time, in words of 64 bits and with every array index
looked at.  So an operation can fail half-way, and it can crash: a sum that does not fit in its
word, or an index outside its array, ends everything.

An `Action` ends with a value, with a fault, or in a crash; with a fault, what was written before
it stays written.  The operations follow the order in which the machine reads, checks and writes.

## Main definitions

* `Ending`, `Action`: actions on a machine, and how they end.
* `Action.add`, `Action.span`: what may crash.
* `Action.execute`, `Action.step`, `Action.perform`: the operations in place.
* `Machine.freshInPlace`, `Machine.runInPlace`: power-on, and a list of events.
-/

namespace Chip8

/-- How an action on the machine ends. -/
inductive Ending (α : Type) where
  /-- It gives a value. -/
  | value (a : α) (m : Machine)
  /-- It fails, and leaves the machine as it is by then. -/
  | fault (f : Fault) (m : Machine)
  /-- A sum does not fit in its word, or an index is outside its array. -/
  | crash

/-- What is done after an action, if that gave a value. -/
def Ending.andThen {α β : Type} : Ending α → (α → Machine → Ending β) → Ending β
  | value a m, next => next a m
  | fault f m, _ => fault f m
  | crash, _ => crash

/-- Reads and writes of one machine, one after another. -/
structure Action (α : Type) where
  /-- How the action ends on a machine. -/
  run : Machine → Ending α

namespace Action

instance : Monad Action where
  pure a := ⟨fun m => .value a m⟩
  bind action next := ⟨fun m => (action.run m).andThen fun a m' => (next a).run m'⟩

/-! ### Single reads, writes and checks -/

/-- Reads the machine. -/
def machine : Action Machine :=
  ⟨fun m => .value m m⟩

/-- Writes the machine. -/
def update (change : Machine → Machine) : Action Unit :=
  ⟨fun m => .value () (change m)⟩

/-- Fails. -/
def refuse {α : Type} (f : Fault) : Action α :=
  ⟨fun m => .fault f m⟩

/-- The value of an attempt that touches nothing. -/
def attempt {α : Type} : Except Fault α → Action α
  | .ok a => pure a
  | .error f => refuse f

/-- The sum of two numbers in a word of so many bits. -/
def add (bits a b : Nat) : Action Nat :=
  ⟨fun m => if a + b < 2 ^ bits then .value (a + b) m else .crash⟩

/-- Asks that an index, or the end of a range, is inside an array. -/
def within (index length : Nat) : Action Unit :=
  ⟨fun m => if index < length then .value () m else .crash⟩

/-- Asks that a range from `start` up to `stop` lies in memory. -/
def span (start stop : Nat) : Action Unit := do
  within start (stop + 1)
  within stop (Memory.size + 1)

/-! ### Memory -/

/-- Reads a byte. -/
def readByte (address : Nat) : Action UInt8 := do
  match (← machine).memory.cells[address]? with
  | some b => return b
  | none => refuse (.addressOutOfRange address)

/-- Reads a word, the high byte first. -/
def readWord (address : Nat) : Action Word := do
  let high ← readByte address
  let low ← readByte (← add 64 address 1)
  return Word.ofBytes high low

/-- The end of a block, if that lies in memory; the sum rests at the greatest number of 64 bits. -/
def blockEnd (address length : Nat) : Action Nat :=
  let stop := min (address + length) (2 ^ 64 - 1)
  if Memory.size < stop ∨ Memory.size < address then
    refuse (.addressOutOfRange (max address Memory.size))
  else pure stop

/-- Reads a block. -/
def readBlock (address length : Nat) : Action (List UInt8) := do
  let stop ← blockEnd address length
  span address stop
  return ((← machine).memory.cells.toList.take stop).drop address

/-- Writes the bytes of a list from an address on. -/
def copy (address : Nat) : List UInt8 → Action Unit
  | [] => pure ()
  | b :: rest => do
    within address Memory.size
    update fun m => { m with memory := m.memory.set address b }
    copy (address + 1) rest

/-- Writes a block. -/
def writeBlock (address : Nat) (block : List UInt8) : Action Unit := do
  span address (← blockEnd address block.length)
  copy address block

/-- Places a program image. -/
def load (program : List UInt8) (address : Nat) : Action Unit := do
  if Memory.room address < program.length then
    refuse (.programTooLarge program.length (Memory.room address))
  unless program.isEmpty do
    span address (← add 64 address program.length)
    copy address program

/-! ### Registers, counter, index and stack -/

/-- Reads a register. -/
def read (x : Register) : Action UInt8 := do
  return (← machine).registers.read x

/-- Writes a register. -/
def write (x : Register) (byte : UInt8) : Action Unit :=
  update fun m => { m with registers := m.registers.write x byte }

/-- Writes the flag. -/
def setFlag (on : Bool) : Action Unit :=
  update fun m => { m with registers := m.registers.setFlag on }

/-- Writes bytes to registers in turn. -/
def writeEach : List (Register × UInt8) → Action Unit
  | [] => pure ()
  | (x, byte) :: rest => do
    write x byte
    writeEach rest

/-- Writes the counter. -/
def goTo (address : Nat) : Action Unit :=
  update fun m => { m with pc := address }

/-- Moves the counter past one word. -/
def advance : Action Unit := do
  goTo (← add 64 (← machine).pc 2)

/-- Writes the index. -/
def setIndex (address : Nat) : Action Unit :=
  update fun m => { m with index := address }

/-- Moves the index past a transferred block, in the dialect that does so. -/
def passBlock (length : Nat) : Action Unit := do
  if (← machine).dialect.loadStoreAdvancesIndex then
    setIndex (Machine.wrapIndex (← add 64 (← machine).index length))

/-- Saves a return address. -/
def push (address : Nat) : Action Unit := do
  let m ← machine
  if 16 ≤ m.stack.depth then
    refuse (.stackOverflow 16)
  update fun m => { m with stack := ⟨address :: m.stack.frames⟩ }

/-- Takes back the latest return address. -/
def pop : Action Nat := do
  match (← machine).stack.frames with
  | [] => refuse .stackUnderflow
  | address :: rest =>
    update fun m => { m with stack := ⟨rest⟩ }
    return address

/-! ### Screen -/

/-- Inverts the pixel of an index into all pixels, row after row; tells whether it was lit. -/
def invert (index : Nat) : Action Bool := do
  within index (Screen.width * Screen.height)
  let (column, row) := (index % Screen.width, index / Screen.width)
  let lit := (← machine).screen.pixel column row
  update fun m => { m with screen := m.screen.invertPixel column row }
  return lit

/-- Draws the bits that a list names of a sprite row with its left end in column `x`; the row is
`row` rows below row `y`, and `hit` tells whether a lit pixel was met before. -/
def drawBits (x y row : Nat) (b : UInt8) : List Nat → Bool → Action Bool
  | [], hit => pure hit
  | bit :: rest, hit => do
    if b.toNat.testBit (7 - bit) then
      let column ← add 64 x bit
      let line ← add 64 y row
      let lit ← invert (line % Screen.height * Screen.width + column % Screen.width)
      drawBits x y row b rest (hit || lit)
    else drawBits x y row b rest hit

/-- Draws the rows of a sprite, the first of them `row` rows below row `y`. -/
def drawRows (x y row : Nat) : List UInt8 → Bool → Action Bool
  | [], hit => pure hit
  | b :: rest, hit => do
    let hit ← drawBits x y row b (List.range 8) hit
    drawRows x y (row + 1) rest hit

/-! ### Instructions -/

/-- Moves the counter past one more word if the condition of a skip is met. -/
def skipIf (c : Condition) : Action Unit := do
  if c.holds (← machine) then
    advance

/-- The result of an operation and the flag, if it writes one; a sum of two bytes has 16 bits. -/
def operate (f : Operation) (a b : UInt8) : Action (UInt8 × Option Bool) := do
  let d := (← machine).dialect
  match f with
  | .add =>
    let sum ← add 16 a.toNat b.toNat
    return (UInt8.ofNat (sum % 256), some (decide (255 < sum)))
  | f => return (f.result d a b, f.flag d a b)

/-- Carries out an instruction. -/
def execute : Instruction → Action Unit
  | .clearScreen => update fun m => { m with screen := .dark }
  | .ret => do
    goTo (← pop)
  | .jump a => goTo a.val
  | .call a => do
    push (← machine).pc
    goTo a.val
  | .skip c => skipIf c
  | .setByte x byte => write x byte
  | .addByte x byte => do
    let sum ← add 16 (← read x).toNat byte.toNat
    write x (UInt8.ofNat (sum % 256))
  | .combine f x y => do
    let (result, flag) ← operate f (← read x) (← read y)
    write x result
    match flag with
    | none => pure ()
    | some on => setFlag on
  | .setIndex a => setIndex a.val
  | .jumpOffset a => do
    goTo (← add 64 a.val (← read 0).toNat)
  | .random x mask => do
    let (byte, source) := (← machine).random.next
    update fun m => { m with random := source }
    write x (byte &&& mask)
  | .draw x y height => do
    let (column, row) := (← read x, ← read y)
    let sprite ← readBlock (← machine).index height.val
    let hit ← drawRows (column.toNat % Screen.width) (row.toNat % Screen.height) 0 sprite false
    setFlag hit
  | .readDelay x => do
    write x (← machine).timers.delay
  | .awaitKey x => do
    update fun m => { m with keypad := m.keypad.clearPress }
    update fun m => { m with keyWait := some x }
  | .setDelay x => do
    let byte ← read x
    update fun m => { m with timers := { m.timers with delay := byte } }
  | .setSound x => do
    let byte ← read x
    update fun m => { m with timers := { m.timers with sound := byte } }
  | .addIndex x => do
    let sum ← add 64 (← machine).index (← read x).toNat
    setIndex (Machine.wrapIndex sum)
    setFlag (decide (4096 ≤ sum))
  | .glyph x => do
    setIndex (← add 64 Font.start ((← read x).toNat % 16 * Font.glyphHeight))
  | .decimal x => do
    let digits := decimalDigits (← read x)
    writeBlock (← machine).index digits
  | .store x => do
    let m ← machine
    writeBlock m.index (m.registers.firstValues x)
    passBlock (x.val + 1)
  | .load x => do
    let block ← readBlock (← machine).index (← add 64 x.val 1)
    writeEach (x.upTo.zip block)
    passBlock (← add 64 x.val 1)

/-! ### Steps and events -/

/-- Reads the word at the counter and moves the counter behind it. -/
def fetch : Action Word := do
  let w ← readWord (← machine).pc
  advance
  return w

/-- Takes the kept press. -/
def takePress : Action (Option Key) := do
  let key := (← machine).keypad.lastPress
  update fun m => { m with keypad := m.keypad.clearPress }
  return key

/-- One step. -/
def step : Action Outcome := do
  match (← machine).keyWait with
  | some x =>
    match ← takePress with
    | none => return .waitingForKey
    | some key =>
      write x key.toByte
      update fun m => { m with keyWait := none }
      return .executed (.awaitKey x)
  | none =>
    let w ← fetch
    let i ← attempt (Instruction.decode w)
    execute i
    return .executed i

/-- Writes zeros to all of memory, and then the font. -/
def eraseMemory : Action Unit := do
  update fun m => { m with memory := .blank }
  span Font.start (Font.start + Font.glyphs.length)
  copy Font.start Font.glyphs

/-- Goes back to power-on, one part after another. -/
def reset : Action Unit := do
  eraseMemory
  update fun m => { m with registers := .zero }
  goTo Memory.programStart
  setIndex 0
  update fun m => { m with stack := m.stack.clear }
  update fun m => { m with timers := .zero }
  update fun m => { m with screen := .dark }
  update fun m => { m with keypad := .fresh }
  update fun m => { m with keyWait := none }

/-- One event. -/
def perform : Event → Action Reply
  | .load program => do
    load program Memory.programStart
    return .done
  | .loadAt program address => do
    load program address
    return .done
  | .step => do
    return .stepped (← step)
  | .tick => do
    update fun m => { m with timers := m.timers.tick }
    return .done
  | .setKey index down => do
    let key ← attempt (Key.ofIndex index)
    update fun m => { m with keypad := m.keypad.setKey key down }
    return .done
  | .releaseAllKeys => do
    update fun m => { m with keypad := m.keypad.releaseAll }
    return .done
  | .reset => do
    reset
    return .done

end Action

namespace Machine

/-- Power-on in place; nothing if it crashes. -/
def freshInPlace (dialect : Dialect) (random : RandomSource) : Option Machine :=
  match Action.eraseMemory.run { fresh dialect random with memory := .blank } with
  | .value () m => some m
  | _ => none

/-- One event in place; nothing if it crashes. -/
def handleInPlace (m : Machine) (e : Event) : Option (Reply × Machine) :=
  match (Action.perform e).run m with
  | .value reply m' => some (reply, m')
  | .fault f m' => some (.failed f, m')
  | .crash => none

/-- A list of events in place; nothing if one of them crashes. -/
def runInPlace (m : Machine) : List Event → Option (List Reply × Machine)
  | [] => some ([], m)
  | e :: rest => do
    let (reply, next) ← m.handleInPlace e
    let (replies, last) ← next.runInPlace rest
    return (reply :: replies, last)

end Machine

end Chip8

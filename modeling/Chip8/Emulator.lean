import Chip8.CommandLine.Settings
import Chip8.Emulator.Log
import Chip8.StepBudget

/-!
# The emulator

An emulator is a machine that runs frame by frame at a rate.  A frame ticks the timers once and
then makes the steps of its budget.  It ends early when an instruction waits for a key press and
when a step fails in a way that halts: a fatal fault always does, an unsupported word only if the
settings say so.  The budget counts the frame as a whole, however early it ends.

## Main definitions

* `Emulator`, `Emulator.ofSettings`, `Emulator.boot`: the emulator, and how it starts.
* `Emulator.frame`: one frame.
* `keyOfChar?`: the key that a character on the host's keyboard stands for.
-/

namespace Chip8

/-- A machine with the settings it runs under and what is left of its rate. -/
structure Emulator where
  /-- The machine. -/
  machine : Machine
  /-- The settings. -/
  settings : Settings
  /-- The budget of the frames to come. -/
  budget : StepBudget

/-- Why a frame comes to an end for good. -/
inductive Halt where
  /-- A step failed. -/
  | fault (fault : Fault)
  /-- The rate is so great that the budget of the frame cannot be told. -/
  | rateTooGreat
  deriving DecidableEq

/-- What a frame did. -/
structure Frame where
  /-- The emulator afterwards. -/
  emulator : Emulator
  /-- What was reported, in order. -/
  records : List Record
  /-- Why it halted, if it did. -/
  halt : Option Halt

/-- Why a program file cannot be read. -/
inductive ReadFailure where
  /-- There is none. -/
  | notFound
  /-- Another reason, in the host's words. -/
  | other (reason : String)
  deriving DecidableEq

/-- Why an emulator does not start. -/
inductive BootFailure where
  /-- The program file cannot be read. -/
  | unreadable (path : String) (failure : ReadFailure)
  /-- The program does not fit in memory. -/
  | fault (fault : Fault)
  deriving DecidableEq

/-- The reason in words. -/
def ReadFailure.message : ReadFailure → String
  | notFound => "No such file or directory (os error 2)"
  | other reason => reason

/-- The reason in words. -/
def BootFailure.message : BootFailure → String
  | unreadable path failure => s!"reading {path}: {failure.message}"
  | fault f => f.message

namespace Emulator

/-- The emulator that settings ask for.  Where they have no seed, the given source is used. -/
def ofSettings (settings : Settings) (unseeded : RandomSource) : Emulator where
  machine := .fresh settings.dialect (settings.seed.elim unseeded RandomSource.ofSeed)
  settings := settings
  budget := .ofRate settings.rate

/-- Loads the program, given what reading its file came to. -/
def boot (e : Emulator) (file : Except ReadFailure (List UInt8)) :
    Except BootFailure (Emulator × List Record) :=
  match file with
  | .error failure => .error (.unreadable e.settings.path failure)
  | .ok program =>
    match e.machine.load program with
    | .error f => .error (.fault f)
    | .ok m => .ok ({ e with machine := m }, [.loaded program.length e.settings.path])

/-- Whether a fault ends the run. -/
def halts (e : Emulator) (fault : Fault) : Bool :=
  fault.isFatal || e.settings.haltOnUnsupported

/-- Whether the steps of a frame end with this result. -/
def endsFrame (e : Emulator) : StepResult → Bool
  | .ok (.executed _) => false
  | .ok .waitingForKey => true
  | .error fault => e.halts fault

/-- The fault with which the last of some results halts. -/
def haltOf (e : Emulator) (results : List StepResult) : Option Halt :=
  match results.getLast? with
  | some (.error fault) => if e.halts fault then some (.fault fault) else none
  | _ => none

/-- One frame: a tick, then the steps of the frame's budget up to one that ends it. -/
def frame (e : Emulator) : Frame :=
  let ticked := e.machine.tick
  match e.budget.next? with
  | none => ⟨{ e with machine := ticked }, [], some .rateTooGreat⟩
  | some (steps, budget) =>
    let (results, machine) := ticked.trace e.endsFrame steps.toNat
    { emulator := { e with machine := machine, budget := budget }
      records := results.map (Record.ofStep e.halts machine.snapshot.pc)
      halt := e.haltOf results }

/-- The key a character stands for is reported down. -/
def press (e : Emulator) (key : Key) : Emulator :=
  { e with machine := { e.machine with keypad := e.machine.keypad.press key } }

end Emulator

/-- The four by four block on the left of a keyboard stands for the keys as they lie. -/
def keyOfChar? : Char → Option Key
  | '1' => some 0x1
  | '2' => some 0x2
  | '3' => some 0x3
  | '4' => some 0xC
  | 'q' => some 0x4
  | 'w' => some 0x5
  | 'e' => some 0x6
  | 'r' => some 0xD
  | 'a' => some 0x7
  | 's' => some 0x8
  | 'd' => some 0x9
  | 'f' => some 0xE
  | 'z' => some 0xA
  | 'x' => some 0x0
  | 'c' => some 0xB
  | 'v' => some 0xF
  | _ => none

end Chip8

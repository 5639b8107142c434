import Chip8.Machine.Step

/-!
# Log records

What an emulator reports while it runs: every step of a frame gives one record.  A record has a
level, and a log keeps the records up to its own level.

## Main definitions

* `Level`, `Level.keeps`: how much detail a log has.
* `Record`, `Record.ofStep`: what is reported.
* `Record.line`: the line of a record.
-/

namespace Chip8

/-- Levels of detail, the coarsest first. -/
inductive Level where
  /-- Running comes to an end. -/
  | error
  /-- Something is wrong, and running goes on. -/
  | warn
  /-- A program is loaded. -/
  | info
  /-- A step waits. -/
  | debug
  /-- A step is made. -/
  | trace
  deriving DecidableEq

namespace Level

/-- The place of a level among the levels. -/
def rank : Level → Nat
  | error => 0
  | warn => 1
  | info => 2
  | debug => 3
  | trace => 4

/-- Whether a log of this level keeps records of the other. -/
def keeps (log record : Level) : Bool :=
  decide (record.rank ≤ log.rank)

/-- How a level is written in a line. -/
def name : Level → String
  | error => "ERROR"
  | warn => "WARN"
  | info => "INFO"
  | debug => "DEBUG"
  | trace => "TRACE"

end Level

/-- What is reported. -/
inductive Record where
  /-- A program of so many bytes was loaded from a path. -/
  | loaded (bytes : Nat) (path : String)
  /-- An instruction was carried out. -/
  | executed (instruction : Instruction)
  /-- An instruction waits for a key press; the counter points behind it. -/
  | waiting (pc : UInt16)
  /-- A step failed and running goes on. -/
  | skipping (fault : Fault)
  /-- A step failed and running comes to an end. -/
  | halting (fault : Fault)
  deriving DecidableEq

namespace Record

/-- The record of a step that was made with the counter at `pc` afterwards; `halts` tells which
faults end the run. -/
def ofStep (halts : Fault → Bool) (pc : UInt16) : StepResult → Record
  | .ok (.executed i) => executed i
  | .ok .waitingForKey => waiting pc
  | .error fault => if halts fault then halting fault else skipping fault

/-- The level of a record. -/
def level : Record → Level
  | loaded _ _ => .info
  | executed _ => .trace
  | waiting _ => .debug
  | skipping _ => .warn
  | halting _ => .error

/-- The text of a record. -/
def message : Record → String
  | loaded bytes path => s!"loaded {bytes} bytes from {path}"
  | executed i => "executed " ++ i.text
  | waiting pc => s!"waiting for key at 0x{Text.hex 3 pc.toNat}"
  | skipping fault => "skipping: " ++ fault.message
  | halting fault => "halting: " ++ fault.message

/-- The line of a record. -/
def line (r : Record) : String :=
  r.level.name ++ " " ++ r.message

/-- The lines that a log of a level keeps. -/
def lines (log : Level) (records : List Record) : List String :=
  (records.filter fun r => log.keeps r.level).map line

end Record

end Chip8

import Chip8.CommandLine
import Chip8.Emulator.View

/-!
# The terminal program

Runs a program in a terminal at sixty frames a second: each frame takes the characters typed since
the last one, runs the emulator and shows the picture.  A terminal does not tell when a key goes up,
so every press lasts one frame.  The escape character ends the run.

Characters are taken from standard input as they come; for single key presses the terminal has to
be in raw mode.  The width of the picture follows the variable `COLUMNS`.
-/

namespace Chip8

namespace Terminal

/-- How the program is called. -/
def usage : String :=
  "Run a CHIP-8 program in the terminal\n\n" ++
  "Usage: chip8 [OPTIONS] <ROM>\n\n" ++
  "Arguments:\n" ++
  "  <ROM>                        Raw program image, loaded at 0x200\n\n" ++
  "Options:\n" ++
  "  --ips <N>                    Instructions executed per second, spread over 60 frames\n" ++
  "  --seed <N>                   Seed for the random number instruction\n" ++
  "  --halt-on-unsupported        Stop on an unsupported opcode instead of skipping it\n" ++
  "  --shift-reads-vy             8xy6/8xyE shift Vy into Vx\n" ++
  "  --logic-resets-flag          8xy1/8xy2/8xy3 clear VF\n" ++
  "  --load-store-advances-index  Fx55/Fx65 advance I past the transferred bytes\n" ++
  "  -h, --help                   Print help\n" ++
  "  -V, --version                Print version"

/-- The level of the log on standard error. -/
def logLevel : Level :=
  .warn

/-- Rows of the picture. -/
def rows : Nat :=
  38

/-- Milliseconds of a frame. -/
def frameTime : Nat :=
  1000 / 60

/-- The character that ends the run. -/
def escape : Char :=
  '\x1b'

/-- Reads the program file. -/
def readProgram (path : String) : IO (Except ReadFailure (List UInt8)) := do
  try
    return .ok (← IO.FS.readBinFile path).toList
  catch failure =>
    match failure with
    | .noFileOrDirectory _ _ _ => return .error .notFound
    | _ => return .error (.other (toString failure))

/-- A random source that the operating system seeds. -/
def systemSource : IO RandomSource := do
  let bytes ← IO.getRandomBytes 8
  return .ofSeed (bytes.toList.foldl (fun seed b => seed * 256 + b.toUInt64) 0)

/-- Collects the characters typed until the input ends. -/
partial def listen (input : IO.FS.Stream) (typed : IO.Ref (List Char)) : IO Unit := do
  let bytes ← input.read 1
  unless bytes.isEmpty do
    let characters := bytes.toList.map fun b => Char.ofNat b.toNat
    typed.modify (· ++ characters)
    listen input typed

/-- Writes the kept lines of some records to standard error. -/
def report (records : List Record) : IO Unit := do
  for line in Record.lines logLevel records do
    IO.eprintln line

/-- Shows the picture from the upper left corner on. -/
def render (e : Emulator) (width : Nat) : IO Unit := do
  let picture := (e.picture width rows e.settings.title).map Text.terminalText
  let output ← IO.getStdout
  output.putStr ("\x1b[H" ++ String.intercalate "\r\n" picture)
  output.flush

/-- Runs frame after frame until the escape character is typed or a frame halts. -/
partial def play (e : Emulator) (width : Nat) (typed : IO.Ref (List Char)) :
    IO (Option Halt) := do
  let start ← IO.monoMsNow
  let characters ← typed.modifyGet fun cs => (cs, [])
  if escape ∈ characters then return none
  let frame := ((characters.filterMap keyOfChar?).foldl Emulator.press e).frame
  report frame.records
  if frame.halt.isSome then return frame.halt
  render frame.emulator width
  let elapsed := (← IO.monoMsNow) - start
  IO.sleep (UInt32.ofNat (frameTime - elapsed))
  let next := { frame.emulator with machine := frame.emulator.machine.releaseAllKeys }
  play next width typed

/-- Why the run came to an end. -/
def haltMessage : Halt → String
  | .fault f => f.message
  | .rateTooGreat => "the rate is too great"

/-- Loads the program and plays it. -/
def run (settings : Settings) : IO UInt32 := do
  let e := Emulator.ofSettings settings (← systemSource)
  match e.boot (← readProgram settings.path) with
  | .error failure =>
    IO.eprintln s!"Error: {failure.message}"
    return 1
  | .ok (booted, records) =>
    report records
    let width := ((← IO.getEnv "COLUMNS").bind String.toNat?).getD 80
    let typed ← IO.mkRef []
    let _ ← IO.asTask (listen (← IO.getStdin) typed)
    IO.print "\x1b[2J"
    let halt ← play booted width typed
    IO.print "\x1b[2J\x1b[H"
    match halt with
    | none => return 0
    | some cause =>
      IO.eprintln s!"Error: {haltMessage cause}"
      return 1

end Terminal

end Chip8

/-- Runs the program that the command line names. -/
def main (words : List String) : IO UInt32 := do
  match Chip8.CommandLine.readWords words with
  | .ok settings => Chip8.Terminal.run settings
  | .error .help =>
    IO.println Chip8.Terminal.usage
    return 0
  | .error .version =>
    IO.println "chip8 0.1.0"
    return 0
  | .error problem =>
    IO.eprintln s!"error: {problem.message}"
    return 2

import Chip8.CommandLine.Argument
import Chip8.CommandLine.Settings
import Chip8.Text.Numeral

/-!
# Reading the command line

Words are read from left to right and the first problem ends the reading.  The value of an argument
is not looked at when it is read but when the next argument that is recognised settles it, or the
end does; so an unknown argument or a second path is reported before a bad value in front of it,
and a request for help only after it.

Settling looks at three things in turn: whether there is a value, whether the argument was given
before, and whether the value can be read.

## Main definitions

* `CommandLine.Problem`: why a command line gives no settings.
* `CommandLine.Reading`, `CommandLine.Reading.accept`: the state of the reader, and one word.
* `CommandLine.read`: the settings of a command line.
-/

namespace Chip8

namespace CommandLine

/-- Why a command line gives no settings. -/
inductive Problem where
  /-- Help is asked for. -/
  | help
  /-- The version is asked for. -/
  | version
  /-- There is no such argument, or no place for it. -/
  | unknownArgument (word : String)
  /-- An argument that takes a number has none. -/
  | missingValue (name : NumberName)
  /-- The path is empty. -/
  | emptyPath
  /-- The value is no number of at most 64 bits. -/
  | notANumber (name : NumberName) (text : String)
  /-- An argument that takes no value has one. -/
  | unexpectedValue (word : String)
  /-- An argument is given twice. -/
  | givenTwice (name : LongName)
  /-- There is no path. -/
  | missingPath
  deriving DecidableEq

namespace Problem

/-- One line on what is wrong. -/
def message : Problem → String
  | help => "help requested"
  | version => "version requested"
  | unknownArgument word => s!"unexpected argument: {word}"
  | missingValue name => s!"--{name.text} needs a number"
  | emptyPath => "the path of the program is empty"
  | notANumber name text => s!"--{name.text} needs a number, not: {text}"
  | unexpectedValue word => s!"no value is expected in: {word}"
  | givenTwice name => s!"--{name.text} is given twice"
  | missingPath => "the path of the program is missing"

end Problem

/-- What has been settled so far. -/
structure Draft where
  /-- The path of the program. -/
  path : Option String := none
  /-- The rate. -/
  rate : Option UInt64 := none
  /-- The seed. -/
  seed : Option UInt64 := none
  /-- The switches given. -/
  switches : List Switch := []
  deriving DecidableEq

namespace Draft

/-- The number given for a name. -/
def number? (d : Draft) : NumberName → Option UInt64
  | .rate => d.rate
  | .seed => d.seed

/-- The draft with a number for a name. -/
def setNumber (d : Draft) (n : UInt64) : NumberName → Draft
  | .rate => { d with rate := some n }
  | .seed => { d with seed := some n }

/-- Takes the text of a number, unless the name has one already. -/
def giveNumber (d : Draft) (name : NumberName) (text : String) : Except Problem Draft :=
  if (d.number? name).isSome then .error (.givenTwice (.number name))
  else
    match Text.readNumber? text with
    | some n => .ok (d.setNumber n name)
    | none => .error (.notANumber name text)

/-- Turns a switch on, unless it is on already. -/
def giveSwitch (d : Draft) (name : Switch) : Except Problem Draft :=
  if name ∈ d.switches then .error (.givenTwice (.switch name))
  else .ok { d with switches := name :: d.switches }

/-- The settings of a finished draft. -/
def settings (d : Draft) : Except Problem Settings :=
  match d.path with
  | none => .error .missingPath
  | some path => .ok {
      path := path
      rate := d.rate.getD 700
      haltOnUnsupported := decide (.haltOnUnsupported ∈ d.switches)
      seed := d.seed
      dialect := {
        shiftReadsVy := decide (.shiftReadsVy ∈ d.switches)
        logicResetsFlag := decide (.logicResetsFlag ∈ d.switches)
        loadStoreAdvancesIndex := decide (.loadStoreAdvancesIndex ∈ d.switches) } }

end Draft

/-- An argument that has been read but not settled. -/
inductive Pending where
  /-- A path. -/
  | path (text : String)
  /-- A number, with its text once that is read. -/
  | number (name : NumberName) (text : Option String)
  deriving DecidableEq

/-- The state of the reader. -/
structure Reading where
  /-- What has been settled. -/
  draft : Draft := {}
  /-- What waits to be settled. -/
  pending : Option Pending := none
  /-- Whether all further words are positional. -/
  positionalOnly : Bool := false
  deriving DecidableEq

namespace Reading

/-- Settles what is pending. -/
def settle (r : Reading) : Except Problem Draft :=
  match r.pending with
  | none => .ok r.draft
  | some (.path text) =>
    if text.isEmpty then .error .emptyPath else .ok { r.draft with path := some text }
  | some (.number name none) => .error (.missingValue name)
  | some (.number name (some text)) => r.draft.giveNumber name text

/-- Whether a path has been read, settled or not. -/
def hasPath (r : Reading) : Bool :=
  r.draft.path.isSome ||
    match r.pending with
    | some (.path _) => true
    | _ => false

/-- A positional word: the path, of which there is one. -/
def acceptPath (r : Reading) (word : String) : Except Problem Reading :=
  if r.hasPath then .error (.unknownArgument word)
  else return { r with draft := ← r.settle, pending := some (.path word) }

/-- A long argument. -/
def acceptLong (r : Reading) (word name : String) (value : Option String) :
    Except Problem Reading :=
  match LongName.ofText? name, value with
  | none, _ => .error (.unknownArgument word)
  | some (.number n), none =>
    return { r with draft := ← r.settle, pending := some (.number n none) }
  | some (.number n), some text => do
    let draft ← r.settle
    return { r with draft := ← draft.giveNumber n text, pending := none }
  | some _, some _ => .error (.unexpectedValue word)
  | some (.switch s), none => do
    let draft ← r.settle
    return { r with draft := ← draft.giveSwitch s, pending := none }
  | some .help, none => do
    let _ ← r.settle
    throw .help
  | some .version, none => do
    let _ ← r.settle
    throw .version

/-- A group of one-letter arguments that starts with this letter. -/
def acceptShort (r : Reading) (word : String) (letter : Char) : Except Problem Reading :=
  match letter with
  | 'h' => do
    let _ ← r.settle
    throw .help
  | 'V' => do
    let _ ← r.settle
    throw .version
  | _ => .error (.unknownArgument word)

/-- A plain word: the number an argument waits for, or the path. -/
def acceptPlain (r : Reading) (word : String) : Except Problem Reading :=
  match r.pending with
  | some (.number name none) => .ok { r with pending := some (.number name (some word)) }
  | _ => r.acceptPath word

/-- One word. -/
def accept (r : Reading) (word : String) : Except Problem Reading :=
  if r.positionalOnly then r.acceptPath word
  else
    match Argument.ofWord word with
    | .separator => .ok { r with positionalOnly := true }
    | .long name value => r.acceptLong word name value
    | .short letter => r.acceptShort word letter
    | .plain text => r.acceptPlain text

end Reading

/-- The settings that the words behind the program's name ask for. -/
def readWords (words : List String) : Except Problem Settings := do
  let reading ← words.foldlM Reading.accept {}
  (← reading.settle).settings

/-- The settings of a command line, whose first word, if any, is the program's name. -/
def read (line : List String) : Except Problem Settings :=
  readWords (line.drop 1)

end CommandLine

end Chip8

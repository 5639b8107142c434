/-!
# The words of a command line

A word that starts with two dashes is a long argument, with a value behind the first equals sign if
it has one; two dashes alone make all later words positional.  A word that starts with one dash is
a group of one-letter arguments, of which the first letter decides.  Every other word, also a dash
alone, is plain text.

The long arguments are known by their exact names: two that take a number, four switches, and the
requests for help and for the version.

## Main definitions

* `Argument`, `Argument.ofWord`: the form of a word.
* `NumberName`, `Switch`, `LongName`: the long arguments.
-/

namespace Chip8

/-- The forms a word can have. -/
inductive Argument where
  /-- Two dashes alone. -/
  | separator
  /-- Two dashes, a name, and perhaps a value behind an equals sign. -/
  | long (name : String) (value : Option String)
  /-- One dash and letters, of which this is the first. -/
  | short (letter : Char)
  /-- Anything else. -/
  | plain (text : String)
  deriving DecidableEq

namespace Argument

/-- The long argument with these characters behind the dashes. -/
def ofLongText (text : List Char) : Argument :=
  let name := String.ofList (text.takeWhile (· ≠ '='))
  match text.dropWhile (· ≠ '=') with
  | [] => long name none
  | _ :: value => long name (some (String.ofList value))

/-- The form of a word. -/
def ofWord (word : String) : Argument :=
  match word.toList with
  | ['-', '-'] => separator
  | '-' :: '-' :: text => ofLongText text
  | '-' :: letter :: _ => short letter
  | _ => plain word

end Argument

/-- The long arguments that take a number. -/
inductive NumberName where
  /-- Instructions in a second. -/
  | rate
  /-- The seed of the random source. -/
  | seed
  deriving DecidableEq

/-- The long arguments that are given or not. -/
inductive Switch where
  /-- Stop at a word that is no instruction. -/
  | haltOnUnsupported
  /-- Shifts take their operand from Vy. -/
  | shiftReadsVy
  /-- Logic operations clear the flag. -/
  | logicResetsFlag
  /-- Register transfers move the index. -/
  | loadStoreAdvancesIndex
  deriving DecidableEq

/-- All long arguments. -/
inductive LongName where
  /-- One that takes a number. -/
  | number (name : NumberName)
  /-- A switch. -/
  | switch (name : Switch)
  /-- A request for help. -/
  | help
  /-- A request for the version. -/
  | version
  deriving DecidableEq

/-- How it is written. -/
def NumberName.text : NumberName → String
  | rate => "ips"
  | seed => "seed"

/-- How it is written. -/
def Switch.text : Switch → String
  | haltOnUnsupported => "halt-on-unsupported"
  | shiftReadsVy => "shift-reads-vy"
  | logicResetsFlag => "logic-resets-flag"
  | loadStoreAdvancesIndex => "load-store-advances-index"

namespace LongName

/-- How it is written. -/
def text : LongName → String
  | number name => name.text
  | switch name => name.text
  | help => "help"
  | version => "version"

/-- Every long argument once. -/
def all : List LongName :=
  [number .rate, number .seed, switch .haltOnUnsupported, switch .shiftReadsVy,
   switch .logicResetsFlag, switch .loadStoreAdvancesIndex, help, version]

/-- The long argument written in exactly this way. -/
def ofText? (text : String) : Option LongName :=
  all.find? fun name => name.text = text

end LongName

end Chip8

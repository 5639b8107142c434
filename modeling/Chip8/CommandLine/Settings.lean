import Chip8.Dialect

/-!
# Settings

What a command line asks for: the program to run, the rate at which to run it, the seed of its
random source, the dialect, and what to do about words that are no instructions.
-/

namespace Chip8

/-- What a command line asks for. -/
structure Settings where
  /-- Where the program image is kept. -/
  path : String
  /-- Instructions in a second. -/
  rate : UInt64 := 700
  /-- Whether to stop at a word that is no instruction instead of skipping it. -/
  haltOnUnsupported : Bool := false
  /-- The seed of the random source; without one the host chooses. -/
  seed : Option UInt64 := none
  /-- The dialect. -/
  dialect : Dialect := {}
  deriving DecidableEq

namespace Settings

/-- The parts of a path between its slashes, without empty parts and dots for the place itself. -/
def pathParts (path : String) : List (List Char) :=
  (path.toList.splitOn '/').filter fun part => part ≠ [] ∧ part ≠ ['.']

/-- A file name without its last extension.  A dot in front is part of the name. -/
def stem (name : List Char) : List Char :=
  match (name.reverse.dropWhile (· ≠ '.')).tail.reverse with
  | [] => name
  | front => front

/-- What the window is called: the name of the program's file without its extension. -/
def title (s : Settings) : String :=
  match (pathParts s.path).getLast? with
  | none => "Unknown ROM"
  | some ['.', '.'] => "Unknown ROM"
  | some name => String.ofList (stem name)

end Settings

end Chip8

/-!
# Dialects

Interpreters of the machine's programs differ in three places.  Each switch of a `Dialect` chooses
the older behaviour.
-/

namespace Chip8

/-- The choices on which interpreters differ. -/
structure Dialect where
  /-- Shifts take their operand from Vy; otherwise they shift Vx itself. -/
  shiftReadsVy : Bool := false
  /-- Or, and, exclusive or clear the flag; otherwise they leave it alone. -/
  logicResetsFlag : Bool := false
  /-- Storing and loading registers moves the index past the bytes transferred; otherwise it
  stays. -/
  loadStoreAdvancesIndex : Bool := false
  deriving DecidableEq

end Chip8

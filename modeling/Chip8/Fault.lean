import Chip8.Text.Hex

/-!
# Faults

The machine refuses what it cannot do: an access outside its memory, a program that does not fit,
a call too deep, a return without a call, a word that is no instruction, a key that is not there.
A fault names its cause; the text of it is `Fault.message`.

An unsupported word is noticed only after the program counter has moved past it, so a host may
keep stepping: it is the one fault that is not fatal (`Fault.isFatal`).
-/

namespace Chip8

/-- The causes of failure of the machine's operations. -/
inductive Fault where
  /-- A byte outside the memory was asked for; `address` is the first such byte. -/
  | addressOutOfRange (address : Nat)
  /-- A program of `size` bytes does not fit in the `limit` bytes left for it. -/
  | programTooLarge (size limit : Nat)
  /-- A call with all `capacity` frames of the call stack in use. -/
  | stackOverflow (capacity : Nat)
  /-- A return without a call. -/
  | stackUnderflow
  /-- The word is no instruction. -/
  | unsupportedOpcode (word : UInt16)
  /-- There is no key of this number. -/
  | invalidKey (index : Nat)
  deriving DecidableEq

namespace Fault

/-- The text of a fault: addresses and words in hexadecimal, counts in decimal. -/
def message : Fault → String
  | addressOutOfRange address => s!"Memory access out of bounds: 0x{Text.hex 4 address}"
  | programTooLarge size limit =>
    s!"Program too large ({size} bytes), at most {limit} bytes fit"
  | stackOverflow capacity => s!"Stack overflow: call depth exceeds {capacity}"
  | stackUnderflow => "Stack underflow: No return address available"
  | unsupportedOpcode word => s!"Unsupported opcode: 0x{Text.hex 4 word.toNat}"
  | invalidKey index => s!"Invalid key index: {index}"

/-- Whether stepping on is pointless: true of every fault but an unsupported word. -/
def isFatal : Fault → Bool
  | unsupportedOpcode _ => false
  | _ => true

theorem isFatal_eq_false_iff {f : Fault} : f.isFatal = false ↔ ∃ w, f = unsupportedOpcode w := by
  cases f <;> simp [isFatal]

end Fault

end Chip8

import Chip8.Fault
import Chip8.Memory.Font
import Chip8.Word

/-!
# Memory

The machine has 4096 bytes of memory.  Every access from outside is checked: a byte or a word that
reaches past the end, and a block that does, is refused with the first address that is not there,
and a refused write changes nothing.

Blocks are lists of bytes.  `Memory.byteAt` is the view in which memories are compared: the byte at
an address, zero outside.

## Main definitions

* `Memory.blank`, `Memory.fresh`: all zeros, and the memory at power-on with the font in place.
* `Memory.readByte`, `Memory.writeByte`, `Memory.readWord`: single accesses.
* `Memory.readBlock`, `Memory.writeBlock`: all of a block or nothing.
* `Memory.load`, `Memory.loadProgram`: place a program image.
-/

namespace Chip8

/-- The memory of the machine. -/
structure Memory where
  /-- The bytes by address. -/
  cells : Vector UInt8 4096
  deriving DecidableEq

namespace Memory

/-- The number of bytes. -/
def size : Nat := 4096

/-- Where programs are loaded and where execution starts. -/
def programStart : Nat := 0x200

/-- The byte at an address; zero outside the memory. -/
def byteAt (m : Memory) (address : Nat) : UInt8 :=
  m.cells[address]?.getD 0

/-- The memory with one byte replaced; unchanged for an address outside. -/
def set (m : Memory) (address : Nat) (value : UInt8) : Memory :=
  ⟨m.cells.setIfInBounds address value⟩

/-- The memory with the bytes of a list from `address` on. -/
def place (m : Memory) (address : Nat) : List UInt8 → Memory
  | [] => m
  | b :: rest => (m.set address b).place (address + 1) rest

/-- Zeros only. -/
def blank : Memory :=
  ⟨Vector.replicate 4096 0⟩

/-- Power-on: zeros and the font. -/
def fresh : Memory :=
  blank.place Font.start Font.glyphs

/-! ### Bytes and words -/

/-- The byte at an address inside the memory. -/
def readByte (m : Memory) (address : Nat) : Except Fault UInt8 :=
  if address < size then .ok (m.byteAt address) else .error (.addressOutOfRange address)

/-- Replaces the byte at an address inside the memory. -/
def writeByte (m : Memory) (address : Nat) (value : UInt8) : Except Fault Memory :=
  if address < size then .ok (m.set address value) else .error (.addressOutOfRange address)

theorem readByte_of_lt (m : Memory) {address : Nat} (h : address < size) :
    m.readByte address = .ok (m.byteAt address) := if_pos h

theorem readByte_of_le (m : Memory) {address : Nat} (h : size ≤ address) :
    m.readByte address = .error (.addressOutOfRange address) := if_neg (Nat.not_lt.2 h)

theorem writeByte_of_lt (m : Memory) {address : Nat} (h : address < size) (value : UInt8) :
    m.writeByte address value = .ok (m.set address value) := if_pos h

theorem writeByte_of_le (m : Memory) {address : Nat} (h : size ≤ address) (value : UInt8) :
    m.writeByte address value = .error (.addressOutOfRange address) := if_neg (Nat.not_lt.2 h)

/-- The word whose high byte is at `address` and whose low byte follows it. -/
def readWord (m : Memory) (address : Nat) : Except Fault Word := do
  let high ← m.readByte address
  let low ← m.readByte (address + 1)
  return Word.ofBytes high low

theorem readWord_of_lt (m : Memory) {address : Nat} (h : address + 1 < size) :
    m.readWord address =
      .ok (Word.ofBytes (m.byteAt address) (m.byteAt (address + 1))) := by
  rw [readWord, readByte_of_lt _ (by omega), readByte_of_lt _ h]
  rfl

theorem readWord_of_le (m : Memory) {address : Nat} (h : size ≤ address + 1) :
    m.readWord address = .error (.addressOutOfRange (max address size)) := by
  by_cases hlt : address < size
  · have hmax : max address size = address + 1 := by omega
    rw [readWord, readByte_of_lt _ hlt, readByte_of_le _ h, hmax]
    rfl
  · rw [readWord, readByte_of_le _ (Nat.not_lt.1 hlt), Nat.max_eq_left (by omega)]
    rfl

/-! ### Blocks -/

/-- Refuses a block that does not lie inside the memory; an empty block may start at its end. -/
def checkBlock (address length : Nat) : Except Fault Unit :=
  if address + length ≤ size then .ok () else .error (.addressOutOfRange (max address size))

/-- The `length` bytes from `address` on. -/
def readBlock (m : Memory) (address length : Nat) : Except Fault (List UInt8) := do
  checkBlock address length
  return (List.range length).map fun i => m.byteAt (address + i)

/-- Writes all of a block, or nothing. -/
def writeBlock (m : Memory) (address : Nat) (block : List UInt8) : Except Fault Memory := do
  checkBlock address block.length
  return m.place address block

theorem readBlock_of_le (m : Memory) {address length : Nat} (h : address + length ≤ size) :
    m.readBlock address length =
      .ok ((List.range length).map fun i => m.byteAt (address + i)) := by
  rw [readBlock, checkBlock, if_pos h]
  rfl

theorem readBlock_of_lt (m : Memory) {address length : Nat} (h : size < address + length) :
    m.readBlock address length = .error (.addressOutOfRange (max address size)) := by
  rw [readBlock, checkBlock, if_neg (by omega)]
  rfl

theorem writeBlock_of_le (m : Memory) {address : Nat} {block : List UInt8}
    (h : address + block.length ≤ size) :
    m.writeBlock address block = .ok (m.place address block) := by
  rw [writeBlock, checkBlock, if_pos h]
  rfl

theorem writeBlock_of_lt (m : Memory) {address : Nat} {block : List UInt8}
    (h : size < address + block.length) :
    m.writeBlock address block = .error (.addressOutOfRange (max address size)) := by
  rw [writeBlock, checkBlock, if_neg (by omega)]
  rfl

/-- How many bytes there are from `address` to the end. -/
def room (address : Nat) : Nat :=
  size - address

/-- Places a program image at `address`, if it fits in the room there. -/
def load (m : Memory) (program : List UInt8) (address : Nat) : Except Fault Memory :=
  if program.length ≤ room address then
    .ok (m.place address program)
  else
    .error (.programTooLarge program.length (room address))

theorem load_of_le (m : Memory) {program : List UInt8} {address : Nat}
    (h : program.length ≤ room address) : m.load program address = .ok (m.place address program) :=
  if_pos h

theorem load_of_lt (m : Memory) {program : List UInt8} {address : Nat}
    (h : room address < program.length) :
    m.load program address = .error (.programTooLarge program.length (room address)) :=
  if_neg (by omega)

/-- Places a program image where programs start. -/
def loadProgram (m : Memory) (program : List UInt8) : Except Fault Memory :=
  m.load program programStart

/-! ### The view of a change -/

theorem byteAt_of_size_le (m : Memory) {a : Nat} (h : size ≤ a) : m.byteAt a = 0 := by
  have h' : 4096 ≤ a := h
  simp [byteAt, h']

theorem byteAt_set (m : Memory) {a : Nat} (ha : a < size) (v : UInt8) (b : Nat) :
    (m.set a v).byteAt b = if b = a then v else m.byteAt b := by
  have ha' : a < 4096 := ha
  unfold byteAt set
  by_cases h : b = a
  · subst h
    simp [ha']
  · simp [h, Ne.symm h]

/-- A block that fits is found where it was placed, and every other byte is what it was. -/
theorem byteAt_place (m : Memory) (a : Nat) (block : List UInt8) (h : a + block.length ≤ size)
    (b : Nat) :
    (m.place a block).byteAt b =
      if a ≤ b ∧ b < a + block.length then block.getD (b - a) 0 else m.byteAt b := by
  induction block generalizing m a with
  | nil =>
    have hb : ¬(a ≤ b ∧ b < a + ([] : List UInt8).length) := by simp
    rw [if_neg hb, place]
  | cons v rest ih =>
    simp only [List.length_cons] at h ⊢
    rw [place, ih _ (a + 1) (by omega), byteAt_set _ (by omega)]
    by_cases hb : b = a
    · subst hb
      rw [if_neg (by omega), if_pos rfl, if_pos (by omega), Nat.sub_self]
      rfl
    · rw [if_neg hb]
      by_cases hin : a + 1 ≤ b ∧ b < a + 1 + rest.length
      · have hsub : b - a = (b - (a + 1)) + 1 := by omega
        rw [if_pos hin, if_pos (by omega), hsub, List.getD_cons_succ]
      · rw [if_neg hin, if_neg (by omega)]

theorem place_append (m : Memory) (a : Nat) (front back : List UInt8) :
    m.place a (front ++ back) = (m.place a front).place (a + front.length) back := by
  induction front generalizing m a with
  | nil => rfl
  | cons b front ih =>
    rw [List.cons_append, place, ih, place, List.length_cons, Nat.add_assoc, Nat.add_comm 1]

theorem byteAt_blank (a : Nat) : blank.byteAt a = 0 := by
  by_cases h : a < 4096
  · simp [byteAt, blank, h]
  · exact byteAt_of_size_le _ (Nat.not_lt.1 h)

theorem byteAt_fresh_of_le {a : Nat} (h : Font.start + Font.glyphs.length ≤ a) :
    fresh.byteAt a = 0 := by
  rw [fresh, byteAt_place _ _ _ (by decide), if_neg (by omega), byteAt_blank]

theorem ext_byteAt {m n : Memory} (h : ∀ a < size, m.byteAt a = n.byteAt a) : m = n := by
  obtain ⟨cells⟩ := m
  obtain ⟨cells'⟩ := n
  congr 1
  apply Vector.ext
  intro a ha
  have := h a ha
  simpa [byteAt, ha] using this

end Memory

end Chip8

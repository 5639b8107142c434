import Chip8.Digit
import Chip8.Fault

/-!
# The keypad

Sixteen keys, each up or down.  The host says when a key goes down or up; the change from up to
down is a press, and the latest press is kept until it is taken or cleared.  Holding a key is no
new press, and letting go of keys leaves a kept press alone.

## Main definitions

* `Key`, `Key.ofIndex`, `Key.ofByte`: keys, and how numbers name them.
* `Keypad.setKey`, `Keypad.releaseAll`: what the host reports.
* `Keypad.isDown`, `Keypad.takePress`, `Keypad.clearPress`: what the machine asks.
-/

namespace Chip8

/-- A key, by the hexadecimal digit on it. -/
abbrev Key := Fin 16

namespace Key

/-- The key with this number, if there is one. -/
def ofIndex (index : Nat) : Except Fault Key :=
  if h : index < 16 then .ok ⟨index, h⟩ else .error (.invalidKey index)

/-- The key a register value stands for: its low four bits count. -/
def ofByte (value : UInt8) : Key :=
  ⟨value.toNat % 16, mod_sixteen_lt value.toNat⟩

/-- The number of the key as a byte. -/
def toByte (k : Key) : UInt8 :=
  UInt8.ofNat k.val

/-- Keys are named `Key0` to `KeyF`. -/
def name (k : Key) : String :=
  "Key" ++ Text.hex 1 k.val

end Key

/-- Which keys are down, and the latest press not yet taken. -/
structure Keypad where
  /-- Down or up, by key. -/
  down : Vector Bool 16
  /-- The latest change from up to down, until taken or cleared. -/
  lastPress : Option Key
  deriving DecidableEq

namespace Keypad

/-- All keys up, no press. -/
def fresh : Keypad :=
  ⟨Vector.replicate 16 false, none⟩

/-- Whether a key is down. -/
def isDown (p : Keypad) (k : Key) : Bool :=
  p.down[k]

/-- The host's report that a key is now down or up. -/
def setKey (p : Keypad) (k : Key) (down : Bool) : Keypad where
  down := p.down.set k down
  lastPress := if down && !p.isDown k then some k else p.lastPress

/-- A key goes down. -/
def press (p : Keypad) (k : Key) : Keypad :=
  p.setKey k true

/-- A key goes up. -/
def release (p : Keypad) (k : Key) : Keypad :=
  p.setKey k false

/-- All keys go up; a press that was kept stays. -/
def releaseAll (p : Keypad) : Keypad :=
  { p with down := Vector.replicate 16 false }

/-- The kept press, and the keypad without it. -/
def takePress (p : Keypad) : Option Key × Keypad :=
  (p.lastPress, { p with lastPress := none })

/-- Forgets the kept press. -/
def clearPress (p : Keypad) : Keypad :=
  { p with lastPress := none }

theorem clearPress_of_none {p : Keypad} (h : p.lastPress = none) : p.clearPress = p := by
  obtain ⟨down, lastPress⟩ := p
  exact congrArg (Keypad.mk down) h.symm

/-! ### The keys that are down -/

@[simp]
theorem isDown_fresh (k : Key) : fresh.isDown k = false := by
  simp [isDown, fresh]

@[simp]
theorem isDown_releaseAll (p : Keypad) (k : Key) : p.releaseAll.isDown k = false := by
  simp [isDown, releaseAll]

theorem isDown_setKey (p : Keypad) (k j : Key) (down : Bool) :
    (p.setKey k down).isDown j = if j = k then down else p.isDown j := by
  by_cases h : j = k
  · subst h
    simp [isDown, setKey]
  · have h' : k.val ≠ j.val := fun e => h (Fin.ext e.symm)
    simp [isDown, setKey, h, h']

end Keypad

end Chip8

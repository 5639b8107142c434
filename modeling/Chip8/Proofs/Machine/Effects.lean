import Chip8.Machine.Execute

/-!
# Obstacles and effects

`Machine.execute` fails or gives a new machine.  Here the two are told apart:

* `Machine.obstacle` is what stands in the way of an instruction, if anything does: an empty or a
  full call stack, or a block at the index that does not lie in memory;
* `Machine.effect` is the machine that is left if nothing does.

`Machine.execute_eq` puts the two together.  The effect can then be looked at part by part without
any regard to failure: where the machine goes on (`Machine.pc_effect`), what the index becomes
(`Machine.index_effect`) and which calls are open (`Machine.frames_effect`).
-/

namespace Chip8

namespace Machine

/-- The bytes of the block at the index. -/
def block (m : Machine) (length : Nat) : List UInt8 :=
  (List.range length).map fun i => m.memory.byteAt (m.index + i)

/-- What stands in the way of a block at the index. -/
def blockObstacle (m : Machine) (length : Nat) : Option Fault :=
  if Memory.size < m.index + length then
    some (.addressOutOfRange (max m.index Memory.size))
  else none

/-- What stands in the way of an instruction. -/
def obstacle (m : Machine) : Instruction → Option Fault
  | .ret => if m.stack.depth = 0 then some .stackUnderflow else none
  | .call _ => if 16 ≤ m.stack.depth then some (.stackOverflow 16) else none
  | .draw _ _ height => m.blockObstacle height.val
  | .decimal _ => m.blockObstacle 3
  | .store x => m.blockObstacle (x.val + 1)
  | .load x => m.blockObstacle (x.val + 1)
  | _ => none

/-- The index after the transfer of a block. -/
def indexPast (m : Machine) (length : Nat) : Nat :=
  if m.dialect.loadStoreAdvancesIndex then wrapIndex (m.index + length) else m.index

/-- What an instruction leaves if nothing stands in its way. -/
def effect (m : Machine) : Instruction → Machine
  | .ret => { m with pc := m.stack.frames.headD m.pc, stack := ⟨m.stack.frames.tail⟩ }
  | .call a => { m with pc := a.val, stack := ⟨m.pc :: m.stack.frames⟩ }
  | .skip c => { m with pc := if c.holds m then m.pc + 2 else m.pc }
  | .combine f x y => { m with registers := (m.combine f x y).registers }
  | .draw x y height =>
    let column := (m.registers.read x).toNat % Screen.width
    let row := (m.registers.read y).toNat % Screen.height
    let sprite := m.block height.val
    { m with
      screen := m.screen.draw column row sprite
      registers := m.registers.setFlag (m.screen.collides column row sprite) }
  | .decimal x =>
    { m with memory := m.memory.place m.index (decimalDigits (m.registers.read x)) }
  | .store x =>
    { m with
      memory := m.memory.place m.index (m.registers.firstValues x)
      index := m.indexPast (x.val + 1) }
  | .load x =>
    { m with
      registers := m.registers.writeFirst (m.block (x.val + 1))
      index := m.indexPast (x.val + 1) }
  -- the others never fail, and `execute` says field by field what they leave
  | i => (m.execute i).toOption.getD m

theorem blockObstacle_of_le {m : Machine} {length : Nat} (h : m.index + length ≤ Memory.size) :
    m.blockObstacle length = none := if_neg (Nat.not_lt.2 h)

theorem blockObstacle_of_lt {m : Machine} {length : Nat} (h : Memory.size < m.index + length) :
    m.blockObstacle length = some (.addressOutOfRange (max m.index Memory.size)) := if_pos h

theorem readBlock_bind (m : Machine) (length : Nat)
    (next : List UInt8 → Except Fault Machine) :
    (m.memory.readBlock m.index length >>= next) =
      match m.blockObstacle length with
      | some f => .error f
      | none => next (m.block length) := by
  by_cases h : m.index + length ≤ Memory.size
  · rw [blockObstacle_of_le h, Memory.readBlock_of_le _ h]
    rfl
  · rw [blockObstacle_of_lt (Nat.not_le.1 h), Memory.readBlock_of_lt _ (Nat.not_le.1 h)]
    rfl

theorem writeBlock_bind (m : Machine) (bytes : List UInt8)
    (next : Memory → Except Fault Machine) :
    (m.memory.writeBlock m.index bytes >>= next) =
      match m.blockObstacle bytes.length with
      | some f => .error f
      | none => next (m.memory.place m.index bytes) := by
  by_cases h : m.index + bytes.length ≤ Memory.size
  · rw [blockObstacle_of_le h, Memory.writeBlock_of_le _ h]
    rfl
  · rw [blockObstacle_of_lt (Nat.not_le.1 h), Memory.writeBlock_of_lt _ (Nat.not_le.1 h)]
    rfl

theorem passBlock_eq (m : Machine) (length : Nat) :
    m.passBlock length = { m with index := m.indexPast length } := by
  unfold passBlock indexPast
  split <;> rfl

theorem combine_eq (m : Machine) (f : Operation) (x y : Register) :
    m.combine f x y = { m with registers := (m.combine f x y).registers } := by
  unfold combine
  dsimp only
  split <;> rfl

theorem skip_eq (m : Machine) (c : Prop) [Decidable c] :
    (if c then { m with pc := m.pc + 2 } else m) =
      { m with pc := if c then m.pc + 2 else m.pc } := by
  split <;> rfl

/-- **An instruction fails with what stands in its way, and has its effect if nothing does.** -/
theorem execute_eq (m : Machine) (i : Instruction) :
    m.execute i =
      match m.obstacle i with
      | some f => .error f
      | none => .ok (m.effect i) := by
  cases i with
  | ret =>
    rw [execute, obstacle, effect, CallStack.pop, CallStack.depth]
    cases m.stack.frames <;> rfl
  | call a =>
    rw [execute, obstacle, CallStack.push]
    by_cases h : m.stack.depth < 16
    · rw [if_pos h, if_neg (Nat.not_le.2 h)]
      rfl
    · rw [if_neg h, if_pos (Nat.not_lt.1 h)]
      rfl
  | skip c =>
    rw [execute, skip_eq]
    rfl
  | combine f x y =>
    rw [execute, combine_eq]
    rfl
  | draw x y height =>
    rw [execute, obstacle, drawSprite, bind_assoc, readBlock_bind]
    rfl
  | decimal x =>
    rw [execute, obstacle, writeBlock_bind]
    rfl
  | store x =>
    -- as many bytes are written as there are registers up to `x`
    rw [execute, obstacle, writeBlock_bind, Registers.length_firstValues]
    simp only [passBlock_eq]
    rfl
  | load x =>
    rw [execute, obstacle, readBlock_bind]
    simp only [passBlock_eq]
    rfl
  | _ => rfl

theorem execute_eq_error_iff {m : Machine} {i : Instruction} {f : Fault} :
    m.execute i = .error f ↔ m.obstacle i = some f := by
  rw [execute_eq]
  cases m.obstacle i <;> simp

theorem execute_eq_ok_iff {m m' : Machine} {i : Instruction} :
    m.execute i = .ok m' ↔ m.obstacle i = none ∧ m.effect i = m' := by
  rw [execute_eq]
  cases m.obstacle i <;> simp

/-! ### The effect part by part -/

/-- Where an instruction goes on, given a machine whose counter is behind it. -/
def nextPc (m : Machine) : Instruction → Nat
  | .ret => m.stack.frames.headD m.pc
  | .jump a => a.val
  | .call a => a.val
  | .jumpOffset a => a.val + (m.registers.read 0).toNat
  | .skip c => if c.holds m then m.pc + 2 else m.pc
  | _ => m.pc

/-- What the index becomes. -/
def nextIndex (m : Machine) : Instruction → Nat
  | .setIndex a => a.val
  | .addIndex x => wrapIndex (m.index + (m.registers.read x).toNat)
  | .glyph x => Font.glyphAddress (m.registers.read x)
  | .store x => m.indexPast (x.val + 1)
  | .load x => m.indexPast (x.val + 1)
  | _ => m.index

/-- Which calls are open afterwards. -/
def nextFrames (m : Machine) : Instruction → List Nat
  | .ret => m.stack.frames.tail
  | .call _ => m.pc :: m.stack.frames
  | _ => m.stack.frames

theorem pc_effect (m : Machine) (i : Instruction) : (m.effect i).pc = m.nextPc i := by
  cases i <;> rfl

theorem index_effect (m : Machine) (i : Instruction) : (m.effect i).index = m.nextIndex i := by
  cases i <;> rfl

theorem frames_effect (m : Machine) (i : Instruction) :
    (m.effect i).stack.frames = m.nextFrames i := by
  cases i <;> rfl

theorem down_effect (m : Machine) (i : Instruction) :
    (m.effect i).keypad.down = m.keypad.down := by
  cases i <;> rfl

end Machine

end Chip8

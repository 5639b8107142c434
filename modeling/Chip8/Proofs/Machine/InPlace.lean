import Chip8.Machine.InPlace
import Chip8.Proofs.Machine.Step
import Chip8.Proofs.Screen.Pixels

/-!
# In place and as a function

The machine in place does what the function says.  Each action of `Chip8.Machine.InPlace` is run
here and compared with its companion: where the function fails the action ends with the same fault
and has written nothing, and where the function gives a machine the action leaves that machine.

Almost no action can crash.  An address is in memory when a byte there is read, registers and
columns are small, and the counter has been used for a fetch when it is moved; what is left is the
sum of the index and a register, which is too large for its word only if the index is within a byte
of `2 ^ 64`.

* `Action.run_execute` : instructions, if that sum fits;
* **`Action.run_step_or_crash`** : steps of any machine, with the one exception;
* `Action.run_perform` : the events that are no steps, without exception;
* **`Machine.runInPlace_eq`** : histories, as long as an invariant keeps the index small.
-/

namespace Chip8

namespace Ending

variable {α β : Type}

@[simp] theorem andThen_value (a : α) (m : Machine) (next : α → Machine → Ending β) :
    (value a m).andThen next = next a m := rfl

@[simp] theorem andThen_fault (f : Fault) (m : Machine) (next : α → Machine → Ending β) :
    (fault f m).andThen next = fault f m := rfl

@[simp] theorem andThen_crash (next : α → Machine → Ending β) :
    (crash : Ending α).andThen next = crash := rfl

/-- How an attempt that leaves the machine alone ends. -/
def ofAttempt (m : Machine) : Except Fault α → Ending α
  | .ok a => value a m
  | .error f => fault f m

@[simp] theorem ofAttempt_ok (m : Machine) (a : α) : ofAttempt m (.ok a) = value a m := rfl

@[simp] theorem ofAttempt_error (m : Machine) (f : Fault) :
    ofAttempt m (.error f : Except Fault α) = fault f m := rfl

/-- How an attempt to change the machine ends; a failure leaves the machine alone. -/
def ofExcept (m : Machine) : Except Fault Machine → Ending Unit
  | .ok m' => value () m'
  | .error f => fault f m

/-- How a step ends that gives this result and leaves this machine. -/
def ofStep : StepResult × Machine → Ending Outcome
  | (.ok outcome, m) => value outcome m
  | (.error f, m) => fault f m

/-- How an event ends that gives this reply and leaves this machine. -/
def ofReply : Reply × Machine → Ending Reply
  | (.failed f, m) => fault f m
  | (reply, m) => value reply m

end Ending

namespace Action

variable {α β : Type}

@[simp] theorem run_pure (a : α) (m : Machine) : (pure a : Action α).run m = .value a m := rfl

@[simp] theorem run_bind (action : Action α) (next : α → Action β) (m : Machine) :
    (action >>= next).run m = (action.run m).andThen fun a m' => (next a).run m' := rfl

@[simp] theorem run_machine (m : Machine) : machine.run m = .value m m := rfl

@[simp] theorem run_update (change : Machine → Machine) (m : Machine) :
    (update change).run m = .value () (change m) := rfl

@[simp] theorem run_refuse (f : Fault) (m : Machine) :
    (refuse f : Action α).run m = .fault f m := rfl

@[simp] theorem run_attempt (a : Except Fault α) (m : Machine) :
    (attempt a).run m = .ofAttempt m a := by
  cases a <;> rfl

theorem run_add {bits a b : Nat} (h : a + b < 2 ^ bits) (m : Machine) :
    (add bits a b).run m = .value (a + b) m := if_pos h

theorem run_add_of_le {bits a b : Nat} (h : 2 ^ bits ≤ a + b) (m : Machine) :
    (add bits a b).run m = .crash := if_neg (Nat.not_lt.2 h)

theorem run_within {index length : Nat} (h : index < length) (m : Machine) :
    (within index length).run m = .value () m := if_pos h

theorem run_span {start stop : Nat} (h : start ≤ stop) (h' : stop ≤ Memory.size) (m : Machine) :
    (span start stop).run m = .value () m := by
  rw [span, run_bind, run_within (by omega), Ending.andThen_value, run_within (by omega)]

/-! ### Memory -/

theorem run_readByte (a : Nat) (m : Machine) :
    (readByte a).run m = .ofAttempt m (m.memory.readByte a) := by
  simp only [readByte, run_bind, run_machine, Ending.andThen_value, Memory.readByte,
    Memory.byteAt]
  by_cases h : a < Memory.size
  · have ha : a < 4096 := h
    simp [h, ha]
  · have ha : ¬ a < 4096 := h
    simp [h, ha]

theorem run_readWord (a : Nat) (m : Machine) :
    (readWord a).run m = .ofAttempt m (m.memory.readWord a) := by
  simp only [readWord, run_bind, run_readByte, Memory.readWord]
  -- the second address is formed only after a byte has been read at the first
  by_cases h : a < Memory.size
  · have hsum : a + 1 < 2 ^ 64 := by
      have : a < 4096 := h
      omega
    have hhigh : m.memory.readByte a = .ok (m.memory.byteAt a) := if_pos h
    simp only [hhigh, Ending.ofAttempt_ok, Ending.andThen_value, run_add hsum]
    cases m.memory.readByte (a + 1) <;> rfl
  · have hhigh : m.memory.readByte a = .error (.addressOutOfRange a) := if_neg h
    rw [hhigh]
    rfl

theorem run_blockEnd (a length : Nat) (m : Machine) :
    (blockEnd a length).run m =
      if a + length ≤ Memory.size then .value (a + length) m
      else .fault (.addressOutOfRange (max a Memory.size)) m := by
  have hsize : Memory.size = 4096 := rfl
  unfold blockEnd
  by_cases h : a + length ≤ Memory.size
  · have hmin : min (a + length) (2 ^ 64 - 1) = a + length := Nat.min_eq_left (by omega)
    rw [if_pos h, if_neg (by omega), hmin]
    rfl
  · rw [if_neg h, if_pos (by omega)]
    rfl

theorem slice_eq_map_byteAt (mem : Memory) {a length : Nat} (h : a + length ≤ Memory.size) :
    (mem.cells.toList.take (a + length)).drop a =
      (List.range length).map fun i => mem.byteAt (a + i) := by
  have hsize : Memory.size = 4096 := rfl
  apply List.ext_getElem
  · simp
    omega
  · intro i h1 h2
    have hi : i < length := by simpa using h2
    have hlt : a + i < 4096 := by omega
    simp [Memory.byteAt, hlt]

theorem run_readBlock (a length : Nat) (m : Machine) :
    (readBlock a length).run m = .ofAttempt m (m.memory.readBlock a length) := by
  rw [readBlock, run_bind, run_blockEnd]
  by_cases h : a + length ≤ Memory.size
  · rw [if_pos h, Memory.readBlock_of_le _ h, Ending.andThen_value, run_bind,
      run_span (Nat.le_add_right a length) h, Ending.andThen_value, run_bind, run_machine,
      Ending.andThen_value, run_pure, slice_eq_map_byteAt m.memory h]
    rfl
  · rw [if_neg h, Memory.readBlock_of_lt _ (by omega)]
    rfl

theorem run_copy (a : Nat) (block : List UInt8) (m : Machine) (h : a + block.length ≤ Memory.size) :
    (copy a block).run m = .value () { m with memory := m.memory.place a block } := by
  induction block generalizing a m with
  | nil => rfl
  | cons b rest ih =>
    simp only [List.length_cons] at h
    have hrest : a + 1 + rest.length ≤ Memory.size := by omega
    rw [copy, run_bind, run_within (by omega)]
    simp only [Ending.andThen_value, run_bind, run_update, ih (a + 1) _ hrest]
    rfl

theorem run_writeBlock (a : Nat) (block : List UInt8) (m : Machine) :
    (writeBlock a block).run m =
      .ofExcept m (do return { m with memory := ← m.memory.writeBlock a block }) := by
  rw [writeBlock, run_bind, run_blockEnd]
  by_cases h : a + block.length ≤ Memory.size
  · rw [if_pos h, Memory.writeBlock_of_le _ h, Ending.andThen_value, run_bind,
      run_span (Nat.le_add_right a _) h, Ending.andThen_value, run_copy a block m h]
    rfl
  · rw [if_neg h, Memory.writeBlock_of_lt _ (by omega)]
    rfl

theorem run_load (program : List UInt8) (a : Nat) (m : Machine) :
    (load program a).run m = .ofExcept m (m.loadAt program a) := by
  by_cases h : program.length ≤ Memory.room a
  · rw [load, if_neg (by omega), Machine.loadAt, Memory.load_of_le _ h]
    cases program with
    -- an empty program fits anywhere, and its address is never looked at
    | nil => rfl
    | cons b rest =>
      have hend : a + (b :: rest).length ≤ Memory.size := by
        simp only [Memory.room, List.length_cons] at h ⊢
        omega
      have hsum : a + (b :: rest).length < 2 ^ 64 :=
        Nat.lt_of_le_of_lt hend (by decide)
      simp only [List.isEmpty_cons, Bool.false_eq_true, if_false, run_bind, run_add hsum,
        Ending.andThen_value, run_span (Nat.le_add_right a _) hend, run_copy a _ m hend]
      rfl
  · rw [load, if_pos (by omega), Machine.loadAt, Memory.load_of_lt _ (by omega)]
    rfl

/-! ### Registers, stack and screen -/

theorem run_writeEach (block : List (Register × UInt8)) (m : Machine) :
    (writeEach block).run m =
      .value () { m with registers := block.foldl (fun v p => v.write p.1 p.2) m.registers } := by
  induction block generalizing m with
  | nil => rfl
  | cons p rest ih =>
    obtain ⟨x, byte⟩ := p
    rw [writeEach, write, run_bind, run_update, Ending.andThen_value, ih]
    rfl

theorem foldl_write_upTo (v : Registers) (x : Register) {block : List UInt8}
    (h : block.length = x.val + 1) :
    (x.upTo.zip block).foldl (fun v p => v.write p.1 p.2) v = v.writeFirst block := by
  -- the block is as long as the list of registers, so the others pair with nothing
  have hzip : x.upTo.zip block = (List.finRange 16).zip block := by
    have hx := x.isLt
    have hlt : x.val + 1 ≤ 16 := x.isLt
    conv => lhs; rw [List.zip_eq_zip_take_min]
    conv => rhs; rw [List.zip_eq_zip_take_min]
    simp only [Register.upTo, List.length_take, List.length_finRange, List.take_take, h,
      Nat.min_eq_left hlt, Nat.min_eq_right hlt, Nat.min_self]
  rw [hzip, Registers.writeFirst]

theorem run_push (a : Nat) (m : Machine) :
    (push a).run m = .ofExcept m (do return { m with stack := ← m.stack.push a }) := by
  simp only [push, run_bind, run_machine, Ending.andThen_value, CallStack.push]
  by_cases h : m.stack.depth < 16
  · rw [if_neg (by omega), if_pos h]
    rfl
  · rw [if_pos (by omega), if_neg h]
    rfl

theorem run_invert (x y : Nat) (m : Machine) :
    (invert (y % Screen.height * Screen.width + x % Screen.width)).run m =
      .value (m.screen.pixel x y) { m with screen := m.screen.invertPixel x y } := by
  have hindex : y % 32 * 64 + x % 64 < 64 * 32 := by omega
  have hx : (y % 32 * 64 + x % 64) % 64 = x % 64 := by omega
  have hy : (y % 32 * 64 + x % 64) / 64 = y % 32 := by omega
  simp only [invert, Screen.width, Screen.height, run_bind, run_within hindex,
    Ending.andThen_value, run_machine, run_update, run_pure, hx, hy, Screen.pixel_mod,
    Screen.invertPixel_mod]

/-- The set bits of a sprite row invert the pixels that they fall on one after another. -/
theorem run_drawBits {x y row : Nat} (hx : x + 7 < 2 ^ 64) (hy : y + row < 2 ^ 64) (b : UInt8)
    {bits : List Nat} (hlt : ∀ k ∈ bits, k < 8) (hit : Bool) (m : Machine) :
    (drawBits x y row b bits hit).run m =
      .value (hit || m.screen.meets (Screen.rowSpots x (y + row) b bits))
        { m with screen := m.screen.flips (Screen.rowSpots x (y + row) b bits) } := by
  induction bits generalizing hit m with
  | nil =>
    rw [drawBits, Screen.rowSpots, Screen.meets, Screen.flips, Bool.or_false, run_pure]
  | cons bit rest ih =>
    have hbit := hlt bit List.mem_cons_self
    have ih := ih fun k hk => hlt k (List.mem_cons_of_mem _ hk)
    rw [drawBits, Screen.rowSpots]
    split
    · rw [run_bind, run_add (by omega), Ending.andThen_value, run_bind, run_add hy,
        Ending.andThen_value, run_bind, run_invert, Ending.andThen_value, ih, Bool.or_assoc]
      rfl
    · exact ih hit m

theorem run_drawRows {x y row : Nat} (hx : x + 7 < 2 ^ 64) (sprite : List UInt8)
    (hy : y + row + sprite.length ≤ 2 ^ 64) (hit : Bool) (m : Machine) :
    (drawRows x y row sprite hit).run m =
      .value (hit || m.screen.meets (Screen.spots x (y + row) sprite))
        { m with screen := m.screen.flips (Screen.spots x (y + row) sprite) } := by
  induction sprite generalizing row hit m with
  | nil =>
    rw [drawRows, Screen.spots, Screen.meets, Screen.flips, Bool.or_false, run_pure]
  | cons b rest ih =>
    rw [List.length_cons] at hy
    rw [drawRows, run_bind, run_drawBits hx (by omega) b (fun k => List.mem_range.1),
      Ending.andThen_value, ih (by omega), Screen.spots, Screen.meets_append, Screen.flips_append,
      Bool.or_assoc]
    rfl

/-- A sprite drawn pixel by pixel is drawn row by row, and a bit meets a lit pixel exactly if a row
does. -/
theorem run_drawSprite {x y : Nat} (hx : x + 7 < 2 ^ 64) (sprite : List UInt8)
    (hy : y + sprite.length ≤ 2 ^ 64) (m : Machine) :
    (drawRows x y 0 sprite false).run m =
      .value (m.screen.collides x y sprite) { m with screen := m.screen.draw x y sprite } := by
  rw [run_drawRows hx sprite hy, Nat.add_zero, Bool.false_or, Screen.collides_eq_meets,
    Screen.draw_eq_flips]

/-! ### Instructions -/

theorem run_advance {m : Machine} (h : m.pc + 2 < 2 ^ 64) :
    advance.run m = .value () { m with pc := m.pc + 2 } := by
  rw [advance, run_bind, run_machine, Ending.andThen_value, run_bind, run_add h,
    Ending.andThen_value, goTo, run_update]

theorem run_skipIf {m : Machine} (h : m.pc + 2 < 2 ^ 64) (c : Condition) :
    (skipIf c).run m = .value () (if c.holds m then { m with pc := m.pc + 2 } else m) := by
  rw [skipIf, run_bind, run_machine, Ending.andThen_value]
  split
  · exact run_advance h
  · rfl

theorem run_passBlock {m : Machine} {length : Nat} (h : m.index + length < 2 ^ 64) :
    (passBlock length).run m = .value () (m.passBlock length) := by
  rw [passBlock, run_bind, run_machine, Ending.andThen_value, Machine.passBlock]
  split
  · rw [run_bind, run_machine, Ending.andThen_value, run_bind, run_add h, Ending.andThen_value,
      setIndex, run_update]
  · rfl

theorem ofNat_sum_mod (a b : UInt8) : UInt8.ofNat ((a.toNat + b.toNat) % 256) = a + b := by
  apply UInt8.toNat_inj.1
  simp [UInt8.toNat_add]

theorem run_operate (f : Operation) (a b : UInt8) (m : Machine) :
    (operate f a b).run m = .value (f.result m.dialect a b, f.flag m.dialect a b) m := by
  have ha := a.toNat_lt
  have hb := b.toNat_lt
  -- only the sum is formed in a wider word; the other results are bytes already
  cases f with
  | add =>
    rw [operate, run_bind, run_machine, Ending.andThen_value]
    simp only [run_bind, run_add (show a.toNat + b.toNat < 2 ^ 16 by omega),
      Ending.andThen_value, run_pure, ofNat_sum_mod]
    rfl
  | _ => rfl

theorem run_combine (f : Operation) (x y : Register) (m : Machine) :
    (execute (.combine f x y)).run m = .value () (m.combine f x y) := by
  simp only [execute, run_bind, read, run_machine, Ending.andThen_value, run_pure, run_operate,
    write, run_update, Machine.combine]
  cases f.flag m.dialect (m.registers.read x) (m.registers.read y) <;> rfl

theorem run_draw (x y : Register) (height : Fin 16) (m : Machine) :
    (execute (.draw x y height)).run m = .ofExcept m (m.execute (.draw x y height)) := by
  simp only [execute, run_bind, read, run_machine, Ending.andThen_value, run_pure, run_readBlock,
    Machine.execute, Machine.drawSprite]
  by_cases h : m.index + height.val ≤ Memory.size
  · have hx : (m.registers.read x).toNat % Screen.width + 7 < 2 ^ 64 := by
      unfold Screen.width
      omega
    have hy : (m.registers.read y).toNat % Screen.height +
        ((List.range height.val).map fun i => m.memory.byteAt (m.index + i)).length ≤ 2 ^ 64 := by
      unfold Screen.height
      simp only [List.length_map, List.length_range]
      omega
    rw [Memory.readBlock_of_le _ h, Ending.ofAttempt_ok, Ending.andThen_value,
      run_drawSprite hx _ hy, Ending.andThen_value]
    rfl
  · rw [Memory.readBlock_of_lt _ (by omega)]
    rfl

theorem run_store (x : Register) (m : Machine) :
    (execute (.store x)).run m = .ofExcept m (m.execute (.store x)) := by
  have hlen := m.registers.length_firstValues x
  simp only [execute, run_bind, run_machine, Ending.andThen_value, run_writeBlock,
    Machine.execute]
  by_cases h : m.index + (x.val + 1) ≤ Memory.size
  · -- the block has been written, so the index behind it is no large number
    have hsum : m.index + (x.val + 1) < 2 ^ 64 := Nat.lt_of_le_of_lt h (by decide)
    rw [Memory.writeBlock_of_le _ (by omega)]
    exact run_passBlock hsum
  · rw [Memory.writeBlock_of_lt _ (by omega)]
    rfl

theorem run_loadRegisters (x : Register) (m : Machine) :
    (execute (.load x)).run m = .ofExcept m (m.execute (.load x)) := by
  have hx : x.val + 1 < 2 ^ 64 := Nat.lt_of_le_of_lt x.isLt (by decide)
  simp only [execute, run_bind, run_machine, Ending.andThen_value, run_add hx, run_readBlock,
    Machine.execute]
  by_cases h : m.index + (x.val + 1) ≤ Memory.size
  · have hsum : m.index + (x.val + 1) < 2 ^ 64 := Nat.lt_of_le_of_lt h (by decide)
    rw [Memory.readBlock_of_le _ h, Ending.ofAttempt_ok, Ending.andThen_value, run_writeEach,
      foldl_write_upTo _ _ (by simp), Ending.andThen_value]
    exact run_passBlock hsum
  · rw [Memory.readBlock_of_lt _ (by omega)]
    rfl

theorem run_execute {m : Machine} (i : Instruction) (hpc : m.pc + 2 < 2 ^ 64)
    (hindex : ∀ x, i = .addIndex x → m.index + (m.registers.read x).toNat < 2 ^ 64) :
    (execute i).run m = .ofExcept m (m.execute i) := by
  cases i with
  | clearScreen => rfl
  | ret =>
    simp only [execute, pop, run_bind, run_machine, Ending.andThen_value, Machine.execute,
      CallStack.pop]
    cases m.stack.frames <;> rfl
  | jump a => rfl
  | call a =>
    simp only [execute, run_bind, run_machine, Ending.andThen_value, run_push, Machine.execute]
    cases m.stack.push m.pc <;> rfl
  | skip c => exact run_skipIf hpc c
  | setByte x byte => rfl
  | addByte x byte =>
    have hsum : (m.registers.read x).toNat + byte.toNat < 2 ^ 16 := by
      have := (m.registers.read x).toNat_lt
      have := byte.toNat_lt
      omega
    simp only [execute, read, run_bind, run_machine, Ending.andThen_value, run_pure,
      run_add hsum, ofNat_sum_mod]
    rfl
  | combine f x y => exact run_combine f x y m
  | setIndex a => rfl
  | jumpOffset a =>
    have hsum : a.val + (m.registers.read 0).toNat < 2 ^ 64 := by
      have := (m.registers.read 0).toNat_lt
      omega
    simp only [execute, read, run_bind, run_machine, Ending.andThen_value, run_pure, run_add hsum]
    rfl
  | random x mask => rfl
  | draw x y height => exact run_draw x y height m
  | readDelay x => rfl
  | awaitKey x => rfl
  | setDelay x => rfl
  | setSound x => rfl
  | addIndex x =>
    simp only [execute, read, run_bind, run_machine, Ending.andThen_value, run_pure,
      run_add (hindex x rfl)]
    rfl
  | glyph x =>
    have hsum : Font.start + (m.registers.read x).toNat % 16 * Font.glyphHeight < 2 ^ 64 := by
      unfold Font.start Font.glyphHeight
      omega
    simp only [execute, read, run_bind, run_machine, Ending.andThen_value, run_pure, run_add hsum]
    rfl
  | decimal x =>
    simp only [execute, read, run_bind, run_machine, Ending.andThen_value, run_pure,
      run_writeBlock]
    rfl
  | store x => exact run_store x m
  | load x => exact run_loadRegisters x m

/-- An instruction crashes only if the index is so large that a byte cannot be added to it. -/
theorem run_execute_or_crash {m : Machine} (i : Instruction) (hpc : m.pc + 2 < 2 ^ 64) :
    (execute i).run m = .ofExcept m (m.execute i) ∨
      ((execute i).run m = .crash ∧ 2 ^ 64 ≤ m.index + 255) := by
  by_cases h : ∀ x, i = .addIndex x → m.index + (m.registers.read x).toNat < 2 ^ 64
  · exact .inl (run_execute i hpc h)
  · obtain ⟨x, hx⟩ := Classical.not_forall.1 h
    obtain ⟨rfl, hsum⟩ := Classical.not_imp.1 hx
    have hv := (m.registers.read x).toNat_lt
    refine .inr ⟨?_, by omega⟩
    -- the index plus a byte is all that can leave its word
    simp only [execute, read, run_bind, run_machine, Ending.andThen_value, run_pure,
      run_add_of_le (Nat.not_lt.1 hsum)]
    rfl

/-! ### Steps -/

theorem pc_fetched {m : Machine} (h : m.pc + 1 < Memory.size) : m.fetched.pc + 2 < 2 ^ 64 := by
  have hpc : m.pc + 1 < 4096 := h
  show m.pc + 2 + 2 < 2 ^ 64
  omega

theorem run_fetch_of_lt {m : Machine} (h : m.pc + 1 < Memory.size) :
    fetch.run m = .value m.word m.fetched := by
  have hpc : m.pc + 2 < 2 ^ 64 := by
    have : m.pc + 1 < 4096 := h
    omega
  rw [fetch, run_bind, run_machine, Ending.andThen_value, run_bind, run_readWord,
    Memory.readWord_of_lt _ h, Ending.ofAttempt_ok, Ending.andThen_value, run_bind,
    run_advance hpc]
  rfl

theorem run_fetch_of_le {m : Machine} (h : Memory.size ≤ m.pc + 1) :
    fetch.run m = .fault (.addressOutOfRange (max m.pc Memory.size)) m := by
  rw [fetch, run_bind, run_machine, Ending.andThen_value, run_bind, run_readWord,
    Memory.readWord_of_le _ h]
  rfl

theorem run_step_of_waiting {m : Machine} {x : Register} (hw : m.keyWait = some x) :
    step.run m = (takePress.run m).andThen fun press m' => Action.run
      (match press with
        | none => pure .waitingForKey
        | some key => do
          write x key.toByte
          update fun m => { m with keyWait := none }
          return .executed (.awaitKey x)) m' := by
  rw [step, run_bind, run_machine, Ending.andThen_value, hw]
  rfl

theorem run_step_of_fetched {m : Machine} (hw : m.keyWait = none) (hpc : m.pc + 1 < Memory.size) :
    step.run m = (attempt (Instruction.decode m.word) >>= fun i => do
      execute i
      return .executed i).run m.fetched := by
  rw [step, run_bind, run_machine, Ending.andThen_value, hw, run_bind, run_fetch_of_lt hpc]
  rfl

theorem run_step_of_decode? {m : Machine} {i : Instruction} (hw : m.keyWait = none)
    (hpc : m.pc + 1 < Memory.size) (hd : Instruction.decode? m.word = some i) :
    step.run m = ((execute i).run m.fetched).andThen fun _ m' => .value (.executed i) m' := by
  rw [run_step_of_fetched hw hpc, Instruction.decode, hd]
  rfl

/-- **A step in place is the step of the function**, or it crashes; and then the index is so large
that a byte cannot be added to it. -/
theorem run_step_or_crash (m : Machine) :
    step.run m = .ofStep m.step ∨ (step.run m = .crash ∧ 2 ^ 64 ≤ m.index + 255) := by
  have hs := m.stepped
  generalize m.step = ending at hs ⊢
  cases hs with
  | waits hw hp =>
    left
    rw [run_step_of_waiting hw, takePress, run_bind, run_machine, Ending.andThen_value, run_bind,
      run_update, Ending.andThen_value, Keypad.clearPress_of_none hp, hp]
    rfl
  | completes hw hp =>
    left
    rw [run_step_of_waiting hw, takePress, run_bind, run_machine, Ending.andThen_value, hp]
    rfl
  | outside hw hpc =>
    left
    rw [step, run_bind, run_machine, Ending.andThen_value, hw, run_bind, run_fetch_of_le hpc]
    rfl
  | unsupported hw hpc hd =>
    left
    rw [run_step_of_fetched hw hpc, Instruction.decode, hd]
    rfl
  | @fails i f hw hpc hd he =>
    rw [run_step_of_decode? hw hpc hd]
    rcases run_execute_or_crash i (pc_fetched hpc) with hi | ⟨hi, hindex⟩
    · left
      rw [hi, he]
      rfl
    · right
      rw [hi]
      exact ⟨rfl, hindex⟩
  | @executes i m' hw hpc hd he =>
    rw [run_step_of_decode? hw hpc hd]
    rcases run_execute_or_crash i (pc_fetched hpc) with hi | ⟨hi, hindex⟩
    · left
      rw [hi, he]
      rfl
    · right
      rw [hi]
      exact ⟨rfl, hindex⟩

/-! ### Events -/

theorem run_eraseMemory (m : Machine) :
    eraseMemory.run m = .value () { m with memory := .fresh } := by
  rw [eraseMemory, run_bind, run_update, Ending.andThen_value, run_bind,
    run_span (by decide) (by decide), Ending.andThen_value, run_copy _ _ _ (by decide)]
  rfl

theorem run_reset (m : Machine) : reset.run m = .value () m.reset := by
  rw [reset, run_bind, run_eraseMemory, Ending.andThen_value]
  rfl

theorem andThen_done (m : Machine) (attempt : Except Fault Machine) :
    ((Ending.ofExcept m attempt).andThen fun _ m' => (pure Reply.done : Action Reply).run m') =
      .ofReply (m.settle attempt) := by
  cases attempt <;> rfl

/-- Every event but a step ends in place as the function says, whatever the machine. -/
theorem run_perform {m : Machine} {e : Event} (h : e ≠ .step) :
    (perform e).run m = .ofReply (m.handle e) := by
  cases e with
  | load program =>
    rw [perform, run_bind, run_load]
    exact andThen_done m (m.loadAt program Memory.programStart)
  | loadAt program a =>
    rw [perform, run_bind, run_load]
    exact andThen_done m (m.loadAt program a)
  | step => exact absurd rfl h
  | tick => rfl
  | setKey k down =>
    simp only [perform, run_bind, run_attempt, Machine.handle, Machine.setKey]
    cases Key.ofIndex k <;> rfl
  | releaseAllKeys => rfl
  | reset =>
    rw [perform, run_bind, run_reset]
    rfl

theorem run_perform_step {m : Machine} (h : m.index + 255 < 2 ^ 64) :
    (perform .step).run m = .ofReply (m.handle .step) := by
  have hs : step.run m = .ofStep m.step := by
    rcases run_step_or_crash m with hs | ⟨_, hindex⟩
    · exact hs
    · omega
  rw [perform, run_bind, hs, Machine.handle]
  obtain ⟨result, m'⟩ := m.step
  cases result <;> rfl

end Action

namespace Machine

theorem freshInPlace_eq (dialect : Dialect) (random : RandomSource) :
    freshInPlace dialect random = some (fresh dialect random) := by
  rw [freshInPlace, Action.run_eraseMemory]
  rfl

theorem handleInPlace_eq {m : Machine} (h : m.index + 255 < 2 ^ 64) (e : Event) :
    m.handleInPlace e = some (m.handle e) := by
  have he : (Action.perform e).run m = .ofReply (m.handle e) := by
    by_cases hstep : e = .step
    · subst hstep
      exact Action.run_perform_step h
    · exact Action.run_perform hstep
  rw [handleInPlace, he]
  obtain ⟨reply, m'⟩ := m.handle e
  cases reply <;> rfl

/-- A history in place is the history of the function, if an invariant keeps the index small. -/
theorem runInPlace_eq {P : Machine → Prop} (keeps : ∀ m e, P m → P (m.handle e).2)
    (small : ∀ m, P m → m.index + 255 < 2 ^ 64) {m : Machine} (start : P m)
    (history : List Event) : m.runInPlace history = some (m.run history) := by
  induction history generalizing m with
  | nil => rfl
  | cons e rest ih =>
    rw [runInPlace, handleInPlace_eq (small m start)]
    simp only [Option.bind_eq_bind, Option.bind_some, ih (keeps m e start)]
    rfl

end Machine

end Chip8

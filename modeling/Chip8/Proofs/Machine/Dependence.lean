import Chip8.Proofs.Machine.Attempt
import Chip8.Proofs.Machine.Footprint

/-!
# What instructions and steps depend on

For each instruction `Machine.reads` lists the parts of a machine that decide what it does.  On
machines that agree in these parts an instruction fails alike (`Machine.obstacle_congr`), writes
the same parts (`Machine.writes_congr`) and leaves the same in them (`Machine.effect_congr`).

The same is said of whole steps.  A step reads the word at the counter, or the keypad while a
register waits, and whatever the instruction reads that it attempts.

* `Machine.step_frame` : a step leaves alone what is not in `stepWrites`;
* **`Machine.step_congr`** : machines that agree in `stepReads` make steps of the same result, and
  each part is left alone by both steps or comes out the same from both.
-/

namespace Chip8

/-- The parts that a condition depends on. -/
def Condition.reads : Condition → List Part
  | byteEq x _ | byteNe x _ => [.register x]
  | regEq x y | regNe x y => [.register x, .register y]
  | keyDown x | keyUp x => [.register x, .keys]

namespace Operation

/-- The choices of the dialect that an operation on these registers depends on. -/
def switches (x y : Register) : Operation → List Part
  | or | and | xor => [.logicResetsFlag]
  | shiftRight | shiftLeft => if x = y then [] else [.shiftReadsVy]
  | copy | add | sub | subFrom => []

theorem shifted_self (d : Dialect) (a : UInt8) : shifted d a a = a := ite_self a

end Operation

namespace Machine

variable {m n : Machine} {i : Instruction} {p : Part}

/-! ### Instructions -/

/-- The parts that decide what an instruction does. -/
def reads (m : Machine) : Instruction → List Part
  | .clearScreen | .jump _ | .setByte _ _ | .setIndex _ | .awaitKey _ => []
  | .ret => [.stack]
  | .call _ => [.pc, .stack]
  | .skip c => .pc :: c.reads
  | .addByte x _ | .glyph x | .setDelay x | .setSound x => [.register x]
  | .combine f x y => .register x :: .register y :: f.switches x y
  | .jumpOffset _ => [.register 0]
  | .random _ _ => [.random]
  | .draw x y height =>
    .register x :: .register y :: .screen :: .index :: m.bytesAtIndex height.val
  | .readDelay _ => [.delay]
  | .addIndex x | .decimal x => [.index, .register x]
  | .store x => .index :: .loadStoreAdvancesIndex :: x.upTo.map .register
  | .load x => .index :: .loadStoreAdvancesIndex :: m.bytesAtIndex (x.val + 1)

theorem holds_congr {c : Condition} (h : ∀ p ∈ c.reads, m.Agrees n p) : c.holds m = c.holds n := by
  cases c with
  | byteEq x byte | byteNe x byte =>
    have hx : m.registers.read x = n.registers.read x := h (.register x) (by simp [Condition.reads])
    simp only [Condition.holds, hx]
  | regEq x y | regNe x y =>
    have hx : m.registers.read x = n.registers.read x := h (.register x) (by simp [Condition.reads])
    have hy : m.registers.read y = n.registers.read y := h (.register y) (by simp [Condition.reads])
    simp only [Condition.holds, hx, hy]
  | keyDown x | keyUp x =>
    have hx : m.registers.read x = n.registers.read x := h (.register x) (by simp [Condition.reads])
    have hkeys : m.keypad.down = n.keypad.down := h .keys (by simp [Condition.reads])
    simp only [Condition.holds, Keypad.isDown, hx, hkeys]

theorem blockObstacle_congr (h : m.index = n.index) (length : Nat) :
    m.blockObstacle length = n.blockObstacle length := by
  rw [blockObstacle, blockObstacle, h]

theorem block_congr {length : Nat} (hindex : m.index = n.index)
    (h : ∀ p ∈ m.bytesAtIndex length, m.Agrees n p) : m.block length = n.block length := by
  refine List.map_congr_left fun k hk => ?_
  rw [← hindex]
  exact h (.byte (m.index + k)) (List.mem_map_of_mem hk)

theorem firstValues_congr {x : Register} (h : ∀ p ∈ x.upTo.map .register, m.Agrees n p) :
    m.registers.firstValues x = n.registers.firstValues x :=
  List.map_congr_left fun r hr => h (.register r) (List.mem_map_of_mem hr)

theorem indexPast_congr (hindex : m.index = n.index)
    (hswitch : m.dialect.loadStoreAdvancesIndex = n.dialect.loadStoreAdvancesIndex)
    (length : Nat) : m.indexPast length = n.indexPast length := by
  rw [indexPast, indexPast, hindex, hswitch]

theorem operation_congr {f : Operation} {x y : Register}
    (h : ∀ p ∈ f.switches x y, m.Agrees n p) (v : Registers) :
    f.result m.dialect (v.read x) (v.read y) = f.result n.dialect (v.read x) (v.read y) ∧
      f.flag m.dialect (v.read x) (v.read y) = f.flag n.dialect (v.read x) (v.read y) := by
  cases f with
  | copy | add | sub | subFrom => exact ⟨rfl, rfl⟩
  | or | and | xor =>
    have hswitch : m.dialect.logicResetsFlag = n.dialect.logicResetsFlag :=
      h .logicResetsFlag (List.mem_singleton_self _)
    simp only [Operation.result, Operation.flag, hswitch, and_self]
  | shiftRight | shiftLeft =>
    have hoperand : Operation.shifted m.dialect (v.read x) (v.read y) =
        Operation.shifted n.dialect (v.read x) (v.read y) := by
      by_cases hxy : x = y
      · subst hxy
        rw [Operation.shifted_self, Operation.shifted_self]
      · have hswitch : m.dialect.shiftReadsVy = n.dialect.shiftReadsVy :=
          h .shiftReadsVy (by simp [Operation.switches, hxy])
        rw [Operation.shifted, Operation.shifted, hswitch]
    simp only [Operation.result, Operation.flag, hoperand, and_self]

theorem obstacle_congr (h : ∀ p ∈ m.reads i, m.Agrees n p) : m.obstacle i = n.obstacle i := by
  cases i with
  | ret =>
    have hstack : m.stack = n.stack := h .stack (by simp [reads])
    rw [obstacle, obstacle, hstack]
  | call a =>
    have hstack : m.stack = n.stack := h .stack (by simp [reads])
    rw [obstacle, obstacle, hstack]
  | draw x y height | decimal x | store x | load x =>
    exact blockObstacle_congr (h .index (by simp [reads])) _
  | _ => rfl

theorem writes_congr (h : ∀ p ∈ m.reads i, m.Agrees n p) : m.writes i = n.writes i := by
  cases i with
  | skip c =>
    have hc : c.holds m = c.holds n := holds_congr fun p hp => h p (List.mem_cons_of_mem _ hp)
    rw [writes, writes, hc]
  | combine f x y =>
    have hf : f.writesFlag m.dialect = f.writesFlag n.dialect := by
      rw [← f.isSome_flag m.dialect (m.registers.read x) (m.registers.read y),
        ← f.isSome_flag n.dialect (m.registers.read x) (m.registers.read y),
        (operation_congr (fun p hp => h p (by simp [reads, hp])) m.registers).2]
    rw [writes, writes, hf]
  | decimal x =>
    have hindex : m.index = n.index := h .index (by simp [reads])
    rw [writes, writes, bytesAtIndex, bytesAtIndex, hindex]
  | store x | load x =>
    have hindex : m.index = n.index := h .index (by simp [reads])
    have hswitch : m.dialect.loadStoreAdvancesIndex = n.dialect.loadStoreAdvancesIndex :=
      h .loadStoreAdvancesIndex (by simp [reads])
    simp only [writes, bytesAtIndex, indexMoved, hindex, hswitch]
  | _ => rfl

theorem getD_of_lt {block : List UInt8} {k : Nat} (h : k < block.length) (d d' : UInt8) :
    block.getD k d = block.getD k d' := by
  rw [List.getD_eq_getElem?_getD, List.getD_eq_getElem?_getD, List.getElem?_eq_getElem h]
  rfl

theorem read_combine_congr {f : Operation} {x y r : Register}
    (h : ∀ p ∈ m.reads (.combine f x y), m.Agrees n p)
    (hr : .register r ∈ m.writes (.combine f x y)) :
    (m.combine f x y).registers.read r = (n.combine f x y).registers.read r := by
  have hx : m.registers.read x = n.registers.read x := h (.register x) (by simp [reads])
  have hy : m.registers.read y = n.registers.read y := h (.register y) (by simp [reads])
  obtain ⟨hresult, hflag⟩ :=
    operation_congr (fun p hp => h p (List.mem_cons_of_mem _ (List.mem_cons_of_mem _ hp)))
      m.registers
  have hsome := f.isSome_flag m.dialect (m.registers.read x) (m.registers.read y)
  cases hf : f.flag m.dialect (m.registers.read x) (m.registers.read y) with
  | none =>
    rw [hf, Option.isSome_none] at hsome
    have hrx : r = x := by simpa [writes, ← hsome] using hr
    rw [read_combine_of_none m f x y r hf,
      read_combine_of_none n f x y r (by rw [← hx, ← hy, ← hflag, hf]), if_pos hrx, if_pos hrx,
      ← hx, ← hy, hresult]
  | some on =>
    rw [hf, Option.isSome_some] at hsome
    by_cases hrf : r = Register.flag
    · rw [hrf, read_flag_combine m f x y hf,
        read_flag_combine n f x y (by rw [← hx, ← hy, ← hflag, hf])]
    · have hrx : r = x := by simpa [writes, ← hsome, hrf] using hr
      rw [read_combine_of_ne m f x y hrf, read_combine_of_ne n f x y hrf, if_pos hrx, if_pos hrx,
        ← hx, ← hy, hresult]

theorem byteAt_place_congr {block : List UInt8} {a length : Nat} (hindex : m.index = n.index)
    (hlen : block.length = length) (hin : m.index + length ≤ Memory.size)
    (ha : .byte a ∈ m.bytesAtIndex length) :
    (m.memory.place m.index block).byteAt a = (n.memory.place n.index block).byteAt a := by
  subst hlen
  have hmem : m.index ≤ a ∧ a < m.index + block.length := mem_bytesAtIndex.1 ha
  rw [← hindex, Memory.byteAt_place _ _ _ hin, Memory.byteAt_place _ _ _ hin, if_pos hmem,
    if_pos hmem]

theorem read_effect_congr {r : Register} (h : ∀ p ∈ m.reads i, m.Agrees n p)
    (hr : .register r ∈ m.writes i) :
    (m.effect i).registers.read r = (n.effect i).registers.read r := by
  cases i with
  | setByte x byte =>
    obtain rfl : r = x := by simpa [writes] using hr
    show (m.registers.write r byte).read r = (n.registers.write r byte).read r
    rw [Registers.read_write_self, Registers.read_write_self]
  | addByte x byte =>
    have hx : m.registers.read x = n.registers.read x := h (.register x) (by simp [reads])
    obtain rfl : r = x := by simpa [writes] using hr
    show (m.registers.write r (m.registers.read r + byte)).read r =
      (n.registers.write r (n.registers.read r + byte)).read r
    rw [Registers.read_write_self, Registers.read_write_self, hx]
  | combine f x y => exact read_combine_congr h hr
  | random x mask =>
    have hrandom : m.random = n.random := h .random (by simp [reads])
    obtain rfl : r = x := by simpa [writes] using hr
    show (m.registers.write r (m.random.next.1 &&& mask)).read r =
      (n.registers.write r (n.random.next.1 &&& mask)).read r
    rw [Registers.read_write_self, Registers.read_write_self, hrandom]
  | draw x y height =>
    have hx : m.registers.read x = n.registers.read x := h (.register x) (by simp [reads])
    have hy : m.registers.read y = n.registers.read y := h (.register y) (by simp [reads])
    have hscreen : m.screen = n.screen := h .screen (by simp [reads])
    have hblock : m.block height.val = n.block height.val :=
      block_congr (h .index (by simp [reads])) fun p hp => h p (by simp [reads, hp])
    obtain rfl : r = Register.flag := by simpa [writes] using hr
    simp only [effect, Registers.read_setFlag, if_true, hx, hy, hscreen, hblock]
  | readDelay x =>
    have hdelay : m.timers.delay = n.timers.delay := h .delay (by simp [reads])
    obtain rfl : r = x := by simpa [writes] using hr
    show (m.registers.write r m.timers.delay).read r = (n.registers.write r n.timers.delay).read r
    rw [Registers.read_write_self, Registers.read_write_self, hdelay]
  | addIndex x =>
    have hindex : m.index = n.index := h .index (by simp [reads])
    have hx : m.registers.read x = n.registers.read x := h (.register x) (by simp [reads])
    obtain rfl : r = Register.flag := by simpa [writes] using hr
    show (m.registers.setFlag (decide (4096 ≤ m.index + (m.registers.read x).toNat))).read _ =
      (n.registers.setFlag (decide (4096 ≤ n.index + (n.registers.read x).toNat))).read _
    simp only [Registers.read_setFlag, if_true, hindex, hx]
  | load x =>
    have hblock : m.block (x.val + 1) = n.block (x.val + 1) :=
      block_congr (h .index (by simp [reads])) fun p hp => h p (by simp [reads, hp])
    have hrx : r.val ≤ x.val := by simpa [writes, indexMoved, Register.mem_upTo] using hr
    have hlt : r.val < (m.block (x.val + 1)).length := by
      simpa [block] using Nat.lt_succ_of_le hrx
    show (m.registers.writeFirst (m.block (x.val + 1))).read r =
      (n.registers.writeFirst (n.block (x.val + 1))).read r
    rw [Registers.read_writeFirst, Registers.read_writeFirst, ← hblock]
    exact getD_of_lt hlt _ _
  | _ => exact absurd hr (by simp [writes, bytesAtIndex, indexMoved])

theorem byteAt_effect_congr {a : Nat} (ho : m.obstacle i = none)
    (h : ∀ p ∈ m.reads i, m.Agrees n p) (ha : .byte a ∈ m.writes i) :
    (m.effect i).memory.byteAt a = (n.effect i).memory.byteAt a := by
  cases i with
  | decimal x =>
    have hx : m.registers.read x = n.registers.read x := h (.register x) (by simp [reads])
    show (m.memory.place m.index (decimalDigits (m.registers.read x))).byteAt a =
      (n.memory.place n.index (decimalDigits (n.registers.read x))).byteAt a
    rw [← hx]
    exact byteAt_place_congr (h .index (by simp [reads])) rfl (le_of_blockObstacle ho) ha
  | store x =>
    have hvalues : m.registers.firstValues x = n.registers.firstValues x :=
      firstValues_congr fun p hp => h p (by simp [reads, hp])
    have hblock : .byte a ∈ m.bytesAtIndex (x.val + 1) := by simpa [writes, indexMoved] using ha
    show (m.memory.place m.index (m.registers.firstValues x)).byteAt a =
      (n.memory.place n.index (n.registers.firstValues x)).byteAt a
    rw [← hvalues]
    exact byteAt_place_congr (h .index (by simp [reads])) (Registers.length_firstValues _ _)
      (le_of_blockObstacle ho) hblock
  | _ => exact absurd ha (by simp [writes, indexMoved])

theorem nextPc_congr (ho : m.obstacle i = none) (h : ∀ p ∈ m.reads i, m.Agrees n p)
    (hp : .pc ∈ m.writes i) : m.nextPc i = n.nextPc i := by
  cases i with
  | ret =>
    have hstack : m.stack = n.stack := h .stack (by simp [reads])
    have hopen : m.stack.frames ≠ [] := by
      intro hnil
      rw [obstacle, if_pos (by rw [CallStack.depth, hnil]; rfl)] at ho
      cases ho
    obtain ⟨a, rest, hframes⟩ := List.exists_cons_of_ne_nil hopen
    rw [nextPc, nextPc, ← hstack, hframes]
    rfl
  | jump a | call a => rfl
  | skip c =>
    have hpc : m.pc = n.pc := h .pc (by simp [reads])
    have hc : c.holds m = c.holds n := holds_congr fun p hp => h p (List.mem_cons_of_mem _ hp)
    rw [nextPc, nextPc, hpc, hc]
  | jumpOffset a =>
    have h0 : m.registers.read 0 = n.registers.read 0 := h (.register 0) (by simp [reads])
    rw [nextPc, nextPc, h0]
  | _ => exact absurd hp (by simp [writes, bytesAtIndex, indexMoved])

theorem nextIndex_congr (h : ∀ p ∈ m.reads i, m.Agrees n p) (hp : .index ∈ m.writes i) :
    m.nextIndex i = n.nextIndex i := by
  cases i with
  | setIndex a => rfl
  | addIndex x =>
    have hindex : m.index = n.index := h .index (by simp [reads])
    have hx : m.registers.read x = n.registers.read x := h (.register x) (by simp [reads])
    rw [nextIndex, nextIndex, hindex, hx]
  | glyph x =>
    have hx : m.registers.read x = n.registers.read x := h (.register x) (by simp [reads])
    rw [nextIndex, nextIndex, hx]
  | store x | load x =>
    exact indexPast_congr (h .index (by simp [reads]))
      (h .loadStoreAdvancesIndex (by simp [reads])) _
  | _ => exact absurd hp (by simp [writes, bytesAtIndex])

/-- **In the parts that it writes, an instruction leaves what the parts that it reads decide.** -/
theorem effect_congr (ho : m.obstacle i = none) (h : ∀ p ∈ m.reads i, m.Agrees n p)
    (hp : p ∈ m.writes i) : (m.effect i).Agrees (n.effect i) p := by
  cases p with
  | byte a => exact byteAt_effect_congr ho h hp
  | register r => exact read_effect_congr h hp
  | pc => exact (m.pc_effect i).trans ((nextPc_congr ho h hp).trans (n.pc_effect i).symm)
  | index => exact (m.index_effect i).trans ((nextIndex_congr h hp).trans (n.index_effect i).symm)
  | stack =>
    cases i with
    | ret =>
      have hstack : m.stack = n.stack := h .stack (by simp [reads])
      show CallStack.mk m.stack.frames.tail = CallStack.mk n.stack.frames.tail
      rw [hstack]
    | call a =>
      have hpc : m.pc = n.pc := h .pc (by simp [reads])
      have hstack : m.stack = n.stack := h .stack (by simp [reads])
      show CallStack.mk (m.pc :: m.stack.frames) = CallStack.mk (n.pc :: n.stack.frames)
      rw [hpc, hstack]
    | _ => exact absurd hp (by simp [writes, bytesAtIndex, indexMoved])
  | delay =>
    cases i with
    | setDelay x => exact h (.register x) (by simp [reads])
    | _ => exact absurd hp (by simp [writes, bytesAtIndex, indexMoved])
  | sound =>
    cases i with
    | setSound x => exact h (.register x) (by simp [reads])
    | _ => exact absurd hp (by simp [writes, bytesAtIndex, indexMoved])
  | screen =>
    cases i with
    | clearScreen => rfl
    | draw x y height =>
      have hx : m.registers.read x = n.registers.read x := h (.register x) (by simp [reads])
      have hy : m.registers.read y = n.registers.read y := h (.register y) (by simp [reads])
      have hscreen : m.screen = n.screen := h .screen (by simp [reads])
      have hblock : m.block height.val = n.block height.val :=
        block_congr (h .index (by simp [reads])) fun p hp => h p (by simp [reads, hp])
      simp only [Agrees, effect, hx, hy, hscreen, hblock]
    | _ => exact absurd hp (by simp [writes, bytesAtIndex, indexMoved])
  | press | keyWait =>
    cases i with
    | awaitKey x => rfl
    | _ => exact absurd hp (by simp [writes, bytesAtIndex, indexMoved])
  | random =>
    cases i with
    | random x mask =>
      have hrandom : m.random = n.random := h .random (by simp [reads])
      show m.random.next.2 = n.random.next.2
      rw [hrandom]
    | _ => exact absurd hp (by simp [writes, bytesAtIndex, indexMoved])
  | keys | shiftReadsVy | logicResetsFlag | loadStoreAdvancesIndex =>
    -- no instruction writes these
    cases i <;> exact absurd hp (by simp [writes, bytesAtIndex, indexMoved])

/-! ### Steps -/

/-- The parts that decide which word a step fetches. -/
def fetchReads (m : Machine) : List Part :=
  [.keyWait, .pc, .byte m.pc, .byte (m.pc + 1)]

/-- The parts that decide what a step does. -/
def stepReads (m : Machine) : List Part :=
  match m.keyWait with
  | some _ => [.press, .keyWait]
  | none => m.fetchReads ++ m.attempted.elim [] m.fetched.reads

/-- The parts that a step may change. -/
def stepWrites (m : Machine) : List Part :=
  match m.keyWait with
  | some x => [.register x, .press, .keyWait]
  | none => .pc :: m.attempted.elim [] m.fetched.writes

theorem stepReads_of_waiting {x : Register} (h : m.keyWait = some x) :
    m.stepReads = [.press, .keyWait] := by
  rw [stepReads, h]

theorem stepReads_of_running (h : m.keyWait = none) :
    m.stepReads = m.fetchReads ++ m.attempted.elim [] m.fetched.reads := by
  rw [stepReads, h]

theorem mem_stepReads_of_fetchReads (h : m.keyWait = none) (hp : p ∈ m.fetchReads) :
    p ∈ m.stepReads := by
  rw [stepReads_of_running h]
  exact List.mem_append_left _ hp

theorem keyWait_mem_stepReads (m : Machine) : .keyWait ∈ m.stepReads := by
  cases h : m.keyWait with
  | some x => simp [stepReads_of_waiting h]
  | none => exact mem_stepReads_of_fetchReads h List.mem_cons_self

theorem stepWrites_of_waiting {x : Register} (h : m.keyWait = some x) :
    m.stepWrites = [.register x, .press, .keyWait] := by
  rw [stepWrites, h]

theorem stepWrites_of_running (h : m.keyWait = none) :
    m.stepWrites = .pc :: m.attempted.elim [] m.fetched.writes := by
  rw [stepWrites, h]

theorem agrees_fetched (h : p ≠ .pc) : m.fetched.Agrees m p := by
  cases p with
  | pc => exact absurd rfl h
  | _ => rfl

theorem Agrees.fetched (hpc : m.Agrees n .pc) (h : m.Agrees n p) :
    m.fetched.Agrees n.fetched p := by
  cases p with
  | pc => exact congrArg (· + 2) hpc
  | _ => exact h

theorem agrees_completed {x : Register} {k : Key} (h : p ∉ [.register x, .press, .keyWait]) :
    (m.completed x k).Agrees m p := by
  cases p with
  | register r =>
    have hr : r ≠ x := fun hr => h (by simp [hr])
    exact (Registers.read_write _ _ _ _).trans (if_neg hr)
  | press | keyWait => exact absurd (by simp) h
  | _ => rfl

/-- **A part that a step does not write is left alone.** -/
theorem step_frame (h : p ∉ m.stepWrites) : m.step.2.Agrees m p := by
  have hs := m.stepped
  generalize m.step = ending at hs ⊢
  cases hs with
  | waits => exact .refl m p
  | completes hw =>
    rw [stepWrites_of_waiting hw] at h
    exact agrees_completed h
  | outside => exact .refl m p
  | unsupported hw | fails hw =>
    rw [stepWrites_of_running hw] at h
    exact agrees_fetched fun hp => h (hp ▸ List.mem_cons_self)
  | executes hw hpc hd he =>
    rw [stepWrites_of_running hw, attempted_eq_some_iff.2 ⟨hpc, hd⟩, Option.elim_some] at h
    obtain ⟨ho, rfl⟩ := execute_eq_ok_iff.1 he
    have hp : p ≠ .pc := fun hp => h (hp ▸ List.mem_cons_self)
    have hi := fun hp => h (List.mem_cons_of_mem _ hp)
    exact (agrees_effect ho hi).trans (agrees_fetched hp)

/-- What two machines `m` and `n` turn into matches in a part: it comes out the same from both or
is left alone by both. -/
def Matches (m m' n n' : Machine) (p : Part) : Prop :=
  m'.Agrees n' p ∨ (m'.Agrees m p ∧ n'.Agrees n p)

theorem Matches.refl (m n : Machine) (p : Part) : Matches m m n n p :=
  .inr ⟨.refl m p, .refl n p⟩

theorem Matches.trans {m' m'' n' n'' : Machine} (h : Matches m m' n n' p)
    (h' : Matches m' m'' n' n'' p) : Matches m m'' n n'' p := by
  rcases h' with h' | ⟨hm', hn'⟩
  · exact .inl h'
  rcases h with h | ⟨hm, hn⟩
  · exact .inl (hm'.trans (h.trans hn'.symm))
  · exact .inr ⟨hm'.trans hm, hn'.trans hn⟩

theorem execute_congr (h : ∀ p ∈ m.reads i, m.Agrees n p) :
    (∀ f, m.execute i = .error f → n.execute i = .error f) ∧
    (∀ m', m.execute i = .ok m' →
      ∃ n', n.execute i = .ok n' ∧ ∀ p, Matches m m' n n' p) := by
  have hobstacle : m.obstacle i = n.obstacle i := obstacle_congr h
  constructor
  · intro f hf
    rw [execute_eq_error_iff] at hf ⊢
    rw [← hobstacle, hf]
  · intro m' hm
    obtain ⟨ho, rfl⟩ := execute_eq_ok_iff.1 hm
    have ho' : n.obstacle i = none := hobstacle ▸ ho
    refine ⟨n.effect i, execute_eq_ok_iff.2 ⟨ho', rfl⟩, fun p => ?_⟩
    by_cases hp : p ∈ m.writes i
    · exact .inl (effect_congr ho h hp)
    · have hp' : p ∉ n.writes i := writes_congr h ▸ hp
      exact .inr ⟨agrees_effect ho hp, agrees_effect ho' hp'⟩

theorem Matches.fetched (hpc : m.pc = n.pc) (p : Part) : Matches m m.fetched n n.fetched p := by
  by_cases hp : p = .pc
  · subst hp
    exact .inl (congrArg (· + 2) hpc)
  · exact .inr ⟨agrees_fetched hp, agrees_fetched hp⟩

theorem Matches.completed (x : Register) (k : Key) (p : Part) :
    Matches m (m.completed x k) n (n.completed x k) p := by
  by_cases hmem : p ∈ [.register x, .press, .keyWait]
  · left
    obtain rfl | rfl | rfl : p = .register x ∨ p = .press ∨ p = .keyWait := by simpa using hmem
    · show (m.registers.write x k.toByte).read x = (n.registers.write x k.toByte).read x
      rw [Registers.read_write_self, Registers.read_write_self]
    · rfl
    · rfl
  · exact .inr ⟨agrees_completed hmem, agrees_completed hmem⟩

theorem fetch_congr (h : ∀ p ∈ m.fetchReads, m.Agrees n p) :
    m.keyWait = n.keyWait ∧ m.pc = n.pc ∧ m.word = n.word := by
  have hwait : m.keyWait = n.keyWait := h .keyWait (by simp [fetchReads])
  have hpc : m.pc = n.pc := h .pc (by simp [fetchReads])
  have hhigh : m.memory.byteAt m.pc = n.memory.byteAt m.pc := h (.byte m.pc) (by simp [fetchReads])
  have hlow : m.memory.byteAt (m.pc + 1) = n.memory.byteAt (m.pc + 1) :=
    h (.byte (m.pc + 1)) (by simp [fetchReads])
  refine ⟨hwait, hpc, ?_⟩
  rw [word, word, ← hpc, hhigh, hlow]

theorem reads_congr (hw : m.keyWait = none) (h : ∀ p ∈ m.stepReads, m.Agrees n p)
    (hi : m.attempted = some i) : ∀ p ∈ m.fetched.reads i, m.fetched.Agrees n.fetched p := by
  rw [stepReads_of_running hw, hi] at h
  intro p hp
  have hpc : m.Agrees n .pc := h .pc (by simp [fetchReads])
  exact Agrees.fetched hpc (h p (List.mem_append_right _ hp))

theorem stepWrites_congr (h : ∀ p ∈ m.stepReads, m.Agrees n p) :
    m.stepWrites = n.stepWrites := by
  have hwait : m.keyWait = n.keyWait := h .keyWait m.keyWait_mem_stepReads
  cases hw : m.keyWait with
  | some x => rw [stepWrites_of_waiting hw, stepWrites_of_waiting (hwait ▸ hw)]
  | none =>
    obtain ⟨-, hpc, hword⟩ := fetch_congr fun p hp => h p (mem_stepReads_of_fetchReads hw hp)
    have hattempted : m.attempted = n.attempted := attempted_congr hpc hword
    rw [stepWrites_of_running hw, stepWrites_of_running (hwait ▸ hw), ← hattempted]
    cases ha : m.attempted with
    | none => rfl
    | some i => rw [Option.elim_some, Option.elim_some, writes_congr (reads_congr hw h ha)]

/-- **A step depends on the parts that it reads only**: machines that agree in them make steps of
the same result, and each part comes out the same from both steps or is left alone by both. -/
theorem step_congr (h : ∀ p ∈ m.stepReads, m.Agrees n p) :
    m.step.1 = n.step.1 ∧ ∀ p, Matches m m.step.2 n n.step.2 p := by
  have hwait : m.keyWait = n.keyWait := h .keyWait m.keyWait_mem_stepReads
  have hpress : ∀ x, m.keyWait = some x → m.keypad.lastPress = n.keypad.lastPress :=
    fun x hw => h .press (by simp [stepReads_of_waiting hw])
  have hfetch : m.keyWait = none → m.pc = n.pc ∧ m.word = n.word := fun hw =>
    (fetch_congr fun p hp => h p (mem_stepReads_of_fetchReads hw hp)).2
  have hexecute : m.keyWait = none → ∀ i, m.attempted = some i →
      (∀ f, m.fetched.execute i = .error f → n.fetched.execute i = .error f) ∧
      ∀ m', m.fetched.execute i = .ok m' →
        ∃ n', n.fetched.execute i = .ok n' ∧ ∀ p, Matches m.fetched m' n.fetched n' p :=
    fun hw i hi => execute_congr (reads_congr hw h hi)
  -- the other machine steps in the same way
  have hs := m.stepped
  generalize m.step = ending at hs ⊢
  cases hs with
  | @waits x hw hp =>
    rw [(Stepped.waits (hwait ▸ hw) (hpress x hw ▸ hp)).step_eq]
    exact ⟨rfl, Matches.refl m n⟩
  | @completes x k hw hp =>
    rw [(Stepped.completes (hwait ▸ hw) (hpress x hw ▸ hp)).step_eq]
    exact ⟨rfl, Matches.completed x k⟩
  | outside hw hpc =>
    obtain ⟨hpc', -⟩ := hfetch hw
    rw [hpc', (Stepped.outside (hwait ▸ hw) (hpc' ▸ hpc)).step_eq]
    exact ⟨rfl, Matches.refl m n⟩
  | unsupported hw hpc hd =>
    obtain ⟨hpc', hword⟩ := hfetch hw
    rw [hword, (Stepped.unsupported (hwait ▸ hw) (hpc' ▸ hpc) (hword ▸ hd)).step_eq]
    exact ⟨rfl, Matches.fetched hpc'⟩
  | @fails i f hw hpc hd he =>
    obtain ⟨hpc', hword⟩ := hfetch hw
    obtain ⟨hfails, -⟩ := hexecute hw i (attempted_eq_some_iff.2 ⟨hpc, hd⟩)
    rw [(Stepped.fails (hwait ▸ hw) (hpc' ▸ hpc) (hword ▸ hd) (hfails f he)).step_eq]
    exact ⟨rfl, Matches.fetched hpc'⟩
  | @executes i m' hw hpc hd he =>
    obtain ⟨hpc', hword⟩ := hfetch hw
    obtain ⟨-, hworks⟩ := hexecute hw i (attempted_eq_some_iff.2 ⟨hpc, hd⟩)
    obtain ⟨n', hn', hmatch⟩ := hworks m' he
    rw [(Stepped.executes (hwait ▸ hw) (hpc' ▸ hpc) (hword ▸ hd) hn').step_eq]
    exact ⟨rfl, fun p => (Matches.fetched hpc' p).trans (hmatch p)⟩

end Machine

end Chip8

import Chip8.Proofs.Machine.Effects

/-!
# What instructions change

A machine is taken apart into `Part`s: single bytes and registers, the counter, each timer, the
keys that are down, the kept press, and so on.  There is no more to a machine than its parts
(`Machine.ext_agrees`).  For each instruction `Machine.writes` lists those that it may change.

* `Machine.agrees_effect` : a part that is not written is left alone;
* **`Machine.execute_footprint`** : the frame condition of the instruction set, and what is found
  in memory afterwards where an instruction writes to it.
-/

namespace Chip8

/-- The parts of a machine. -/
inductive Part where
  /-- A byte of memory. -/
  | byte (address : Nat)
  /-- A register. -/
  | register (r : Register)
  /-- The program counter. -/
  | pc
  /-- The index. -/
  | index
  /-- The open calls. -/
  | stack
  /-- The delay timer. -/
  | delay
  /-- The sound timer. -/
  | sound
  /-- The screen. -/
  | screen
  /-- The keys that are down. -/
  | keys
  /-- The kept press. -/
  | press
  /-- The register that waits for a key. -/
  | keyWait
  /-- The random source. -/
  | random
  /-- The dialect's choice for shifts. -/
  | shiftReadsVy
  /-- The dialect's choice for logic operations. -/
  | logicResetsFlag
  /-- The dialect's choice for storing and loading registers. -/
  | loadStoreAdvancesIndex
  deriving DecidableEq

namespace Operation

/-- Whether an operation writes the flag. -/
def writesFlag (d : Dialect) : Operation → Bool
  | copy => false
  | or | and | xor => d.logicResetsFlag
  | add | sub | shiftRight | subFrom | shiftLeft => true

theorem isSome_flag (f : Operation) (d : Dialect) (a b : UInt8) :
    (f.flag d a b).isSome = f.writesFlag d := by
  cases f with
  | copy | add | sub | shiftRight | subFrom | shiftLeft => rfl
  | or | and | xor =>
    rw [flag, writesFlag]
    cases d.logicResetsFlag <;> rfl

end Operation

namespace Machine

variable {m n o : Machine} {i : Instruction} {p : Part}

/-! ### Parts -/

/-- Two machines have the same in a part. -/
def Agrees (m n : Machine) : Part → Prop
  | .byte a => m.memory.byteAt a = n.memory.byteAt a
  | .register r => m.registers.read r = n.registers.read r
  | .pc => m.pc = n.pc
  | .index => m.index = n.index
  | .stack => m.stack = n.stack
  | .delay => m.timers.delay = n.timers.delay
  | .sound => m.timers.sound = n.timers.sound
  | .screen => m.screen = n.screen
  | .keys => m.keypad.down = n.keypad.down
  | .press => m.keypad.lastPress = n.keypad.lastPress
  | .keyWait => m.keyWait = n.keyWait
  | .random => m.random = n.random
  | .shiftReadsVy => m.dialect.shiftReadsVy = n.dialect.shiftReadsVy
  | .logicResetsFlag => m.dialect.logicResetsFlag = n.dialect.logicResetsFlag
  | .loadStoreAdvancesIndex =>
    m.dialect.loadStoreAdvancesIndex = n.dialect.loadStoreAdvancesIndex

theorem Agrees.refl (m : Machine) (p : Part) : m.Agrees m p := by
  cases p <;> rfl

theorem Agrees.symm (h : m.Agrees n p) : n.Agrees m p := by
  cases p <;> exact Eq.symm h

theorem Agrees.trans (h : m.Agrees n p) (h' : n.Agrees o p) : m.Agrees o p := by
  cases p <;> exact Eq.trans h h'

theorem ext_agrees (h : ∀ p, m.Agrees n p) : m = n := by
  have hmemory : m.memory = n.memory := Memory.ext_byteAt fun a _ => h (.byte a)
  have hregisters : m.registers = n.registers := Registers.ext_read fun r => h (.register r)
  have hpc : m.pc = n.pc := h .pc
  have hindex : m.index = n.index := h .index
  have hstack : m.stack = n.stack := h .stack
  have hdelay : m.timers.delay = n.timers.delay := h .delay
  have hsound : m.timers.sound = n.timers.sound := h .sound
  have hscreen : m.screen = n.screen := h .screen
  have hkeys : m.keypad.down = n.keypad.down := h .keys
  have hpress : m.keypad.lastPress = n.keypad.lastPress := h .press
  have hkeyWait : m.keyWait = n.keyWait := h .keyWait
  have hrandom : m.random = n.random := h .random
  have hshift : m.dialect.shiftReadsVy = n.dialect.shiftReadsVy := h .shiftReadsVy
  have hlogic : m.dialect.logicResetsFlag = n.dialect.logicResetsFlag := h .logicResetsFlag
  have hblock : m.dialect.loadStoreAdvancesIndex = n.dialect.loadStoreAdvancesIndex :=
    h .loadStoreAdvancesIndex
  obtain ⟨_, _, _, _, _, ⟨_, _⟩, _, ⟨_, _⟩, ⟨_, _, _⟩, _, _⟩ := m
  obtain ⟨_, _, _, _, _, ⟨_, _⟩, _, ⟨_, _⟩, ⟨_, _, _⟩, _, _⟩ := n
  simp_all only

/-! ### The table -/

/-- The bytes of a block at the index. -/
def bytesAtIndex (m : Machine) (length : Nat) : List Part :=
  (List.range length).map fun k => .byte (m.index + k)

/-- Transfers of registers move the index in the dialect that does so. -/
def indexMoved (m : Machine) : List Part :=
  if m.dialect.loadStoreAdvancesIndex then [.index] else []

/-- The parts that an instruction may change. -/
def writes (m : Machine) : Instruction → List Part
  | .clearScreen => [.screen]
  | .ret | .call _ => [.pc, .stack]
  | .jump _ | .jumpOffset _ => [.pc]
  | .skip c => if c.holds m then [.pc] else []
  | .setByte x _ | .addByte x _ | .readDelay x => [.register x]
  | .combine f x _ =>
    .register x :: if f.writesFlag m.dialect then [.register Register.flag] else []
  | .setIndex _ | .glyph _ => [.index]
  | .random x _ => [.register x, .random]
  | .draw _ _ _ => [.screen, .register Register.flag]
  | .awaitKey _ => [.press, .keyWait]
  | .setDelay _ => [.delay]
  | .setSound _ => [.sound]
  | .addIndex _ => [.index, .register Register.flag]
  | .decimal _ => m.bytesAtIndex 3
  | .store x => m.bytesAtIndex (x.val + 1) ++ m.indexMoved
  | .load x => x.upTo.map .register ++ m.indexMoved

theorem mem_bytesAtIndex {length a : Nat} :
    .byte a ∈ m.bytesAtIndex length ↔ m.index ≤ a ∧ a < m.index + length := by
  simp only [bytesAtIndex, List.mem_map, List.mem_range, Part.byte.injEq]
  constructor
  · rintro ⟨k, hk, rfl⟩
    omega
  · rintro ⟨hle, hlt⟩
    exact ⟨a - m.index, by omega, by omega⟩

theorem le_of_blockObstacle {length : Nat} (h : m.blockObstacle length = none) :
    m.index + length ≤ Memory.size := by
  refine Nat.le_of_not_lt fun hlt => ?_
  cases (blockObstacle_of_lt hlt).symm.trans h

theorem registers_combine (m : Machine) (f : Operation) (x y : Register) :
    (m.combine f x y).registers =
      let a := m.registers.read x
      let b := m.registers.read y
      let v := m.registers.write x (f.result m.dialect a b)
      (f.flag m.dialect a b).elim v v.setFlag := by
  unfold combine
  dsimp only
  cases f.flag m.dialect (m.registers.read x) (m.registers.read y) <;> rfl

/-- Apart from the flag, an operation leaves its result in Vx and the other registers alone. -/
theorem read_combine_of_ne (m : Machine) (f : Operation) (x y : Register) {r : Register}
    (h : r ≠ Register.flag) :
    (m.combine f x y).registers.read r =
      if r = x then f.result m.dialect (m.registers.read x) (m.registers.read y)
      else m.registers.read r := by
  rw [registers_combine]
  dsimp only
  cases f.flag m.dialect (m.registers.read x) (m.registers.read y) with
  | none => exact Registers.read_write _ _ _ _
  | some on => rw [Option.elim_some, Registers.read_setFlag, if_neg h, Registers.read_write]

theorem read_combine_of_none (m : Machine) (f : Operation) (x y r : Register)
    (h : f.flag m.dialect (m.registers.read x) (m.registers.read y) = none) :
    (m.combine f x y).registers.read r =
      if r = x then f.result m.dialect (m.registers.read x) (m.registers.read y)
      else m.registers.read r := by
  rw [registers_combine]
  dsimp only
  rw [h, Option.elim_none, Registers.read_write]

theorem read_flag_combine (m : Machine) (f : Operation) (x y : Register) {on : Bool}
    (h : f.flag m.dialect (m.registers.read x) (m.registers.read y) = some on) :
    (m.combine f x y).registers.read Register.flag = if on then 1 else 0 := by
  rw [registers_combine]
  dsimp only
  rw [h, Option.elim_some, Registers.read_setFlag, if_pos rfl]

/-! ### What is left alone -/

theorem byteAt_effect {a : Nat} (ho : m.obstacle i = none) (h : .byte a ∉ m.writes i) :
    (m.effect i).memory.byteAt a = m.memory.byteAt a := by
  cases i with
  | decimal x =>
    have hin : m.index + (decimalDigits (m.registers.read x)).length ≤ Memory.size :=
      le_of_blockObstacle ho
    have hout : ¬(m.index ≤ a ∧ a < m.index + 3) := fun ha => h (mem_bytesAtIndex.2 ha)
    exact (Memory.byteAt_place _ _ _ hin a).trans (if_neg hout)
  | store x =>
    have hin : m.index + (m.registers.firstValues x).length ≤ Memory.size := by
      rw [Registers.length_firstValues]
      exact le_of_blockObstacle ho
    have hout : ¬(m.index ≤ a ∧ a < m.index + (m.registers.firstValues x).length) := by
      rw [Registers.length_firstValues]
      exact fun ha => h (List.mem_append_left _ (mem_bytesAtIndex.2 ha))
    exact (Memory.byteAt_place _ _ _ hin a).trans (if_neg hout)
  | _ => rfl

theorem read_effect {r : Register} (h : .register r ∉ m.writes i) :
    (m.effect i).registers.read r = m.registers.read r := by
  cases i with
  | setByte x _ | addByte x _ | random x _ | readDelay x =>
    have hx : r ≠ x := fun hr => h (by simp [writes, hr])
    exact (Registers.read_write _ _ _ _).trans (if_neg hx)
  | combine f x y =>
    have hx : r ≠ x := fun hr => h (by simp [writes, hr])
    show (m.combine f x y).registers.read r = m.registers.read r
    have hsome := f.isSome_flag m.dialect (m.registers.read x) (m.registers.read y)
    cases hf : f.flag m.dialect (m.registers.read x) (m.registers.read y) with
    | none => rw [read_combine_of_none m f x y r hf, if_neg hx]
    | some on =>
      rw [hf, Option.isSome_some] at hsome
      have hflag : r ≠ Register.flag := fun hr => h (by simp [writes, ← hsome, hr])
      rw [read_combine_of_ne m f x y hflag, if_neg hx]
  | draw x y height =>
    have hflag : r ≠ Register.flag := fun hr => h (by simp [writes, hr])
    exact (Registers.read_setFlag _ _ _).trans (if_neg hflag)
  | addIndex x =>
    have hflag : r ≠ Register.flag := fun hr => h (by simp [writes, hr])
    exact (Registers.read_setFlag _ _ _).trans (if_neg hflag)
  | load x =>
    have hx : ¬ r.val ≤ x.val := fun hr =>
      h (List.mem_append_left _ (List.mem_map_of_mem (Register.mem_upTo.2 hr)))
    have hlen : (m.block (x.val + 1)).length ≤ r.val := by
      simp only [block, List.length_map, List.length_range]
      omega
    show (m.registers.writeFirst (m.block (x.val + 1))).read r = m.registers.read r
    rw [Registers.read_writeFirst, List.getD_eq_getElem?_getD, List.getElem?_eq_none hlen,
      Option.getD_none]
  | _ => rfl

theorem pc_effect_of_not_mem (h : .pc ∉ m.writes i) : (m.effect i).pc = m.pc := by
  rw [pc_effect]
  cases i with
  | ret | jump a | call a | jumpOffset a => exact absurd (by simp [writes]) h
  | skip c =>
    have hc : ¬ c.holds m := fun hc => h (by simp [writes, hc])
    exact if_neg hc
  | _ => rfl

theorem indexPast_of_not_mem (h : .index ∉ m.indexMoved) (length : Nat) :
    m.indexPast length = m.index := by
  refine if_neg fun hd => h ?_
  rw [indexMoved, if_pos hd]
  exact List.mem_singleton_self _

theorem index_effect_of_not_mem (h : .index ∉ m.writes i) : (m.effect i).index = m.index := by
  rw [index_effect]
  cases i with
  | setIndex a | addIndex x | glyph x => exact absurd (by simp [writes]) h
  | store x | load x =>
    exact indexPast_of_not_mem (fun hp => h (List.mem_append_right _ hp)) _
  | _ => rfl

/-- **A part that an instruction does not write is left alone.** -/
theorem agrees_effect (ho : m.obstacle i = none) (h : p ∉ m.writes i) :
    (m.effect i).Agrees m p := by
  cases p with
  | byte a => exact byteAt_effect ho h
  | register r => exact read_effect h
  | pc => exact pc_effect_of_not_mem h
  | index => exact index_effect_of_not_mem h
  | stack =>
    cases i with
    | ret | call a => exact absurd (by simp [writes]) h
    | _ => rfl
  | delay =>
    cases i with
    | setDelay x => exact absurd (by simp [writes]) h
    | _ => rfl
  | sound =>
    cases i with
    | setSound x => exact absurd (by simp [writes]) h
    | _ => rfl
  | screen =>
    cases i with
    | clearScreen | draw x y height => exact absurd (by simp [writes]) h
    | _ => rfl
  | keys => exact m.down_effect i
  | press =>
    cases i with
    | awaitKey x => exact absurd (by simp [writes]) h
    | _ => rfl
  | keyWait =>
    cases i with
    | awaitKey x => exact absurd (by simp [writes]) h
    | _ => rfl
  | random =>
    cases i with
    | random x mask => exact absurd (by simp [writes]) h
    | _ => rfl
  | shiftReadsVy => cases i <;> rfl
  | logicResetsFlag => cases i <;> rfl
  | loadStoreAdvancesIndex => cases i <;> rfl

/-! ### The frame condition -/

theorem digits_of_byte (v : UInt8) :
    v / 100 ≤ 9 ∧ v / 10 % 10 ≤ 9 ∧ v % 10 ≤ 9 ∧
      100 * (v / 100).toNat + 10 * (v / 10 % 10).toNat + (v % 10).toNat = v.toNat := by
  have hv : v.toNat < 256 := v.toNat_lt
  simp only [UInt8.le_iff_toNat_le, UInt8.toNat_div, UInt8.toNat_mod, UInt8.toNat_ofNat,
    Nat.reducePow, Nat.reduceMod]
  omega

/-- **The frame condition of the instruction set.**  An instruction that succeeds changes no part
but those that `writes` lists for it.  Where it writes the digits of a register to memory, they are
digits and make up the value, hundreds first; where it stores registers, each is found at its
place. -/
theorem execute_footprint {m m' : Machine} {i : Instruction} (h : m.execute i = .ok m') :
    (∀ p, p ∉ m.writes i → m'.Agrees m p) ∧
    (∀ x, i = .decimal x →
      m.index + 3 ≤ Memory.size ∧
      ∃ d₀ d₁ d₂ : UInt8,
        m'.memory.byteAt m.index = d₀ ∧ m'.memory.byteAt (m.index + 1) = d₁ ∧
        m'.memory.byteAt (m.index + 2) = d₂ ∧ d₀ ≤ 9 ∧ d₁ ≤ 9 ∧ d₂ ≤ 9 ∧
        100 * d₀.toNat + 10 * d₁.toNat + d₂.toNat = (m.registers.read x).toNat) ∧
    (∀ x, i = .store x →
      m.index + x.val + 1 ≤ Memory.size ∧
      ∀ r : Register, r.val ≤ x.val →
        m'.memory.byteAt (m.index + r.val) = m.registers.read r) := by
  obtain ⟨ho, rfl⟩ := execute_eq_ok_iff.1 h
  refine ⟨fun p => agrees_effect ho, ?_, ?_⟩
  · rintro x rfl
    have hin : m.index + 3 ≤ Memory.size := le_of_blockObstacle ho
    have hbyte : ∀ k < 3, (m.effect (.decimal x)).memory.byteAt (m.index + k) =
        (decimalDigits (m.registers.read x)).getD k 0 := by
      intro k hk
      refine (Memory.byteAt_place _ _ _ hin _).trans ?_
      rw [if_pos ⟨Nat.le_add_right _ _, Nat.add_lt_add_left hk _⟩, Nat.add_sub_cancel_left]
    exact ⟨hin, _, _, _, hbyte 0 (by decide), hbyte 1 (by decide), hbyte 2 (by decide),
      digits_of_byte _⟩
  · rintro x rfl
    have hin : m.index + (x.val + 1) ≤ Memory.size := le_of_blockObstacle ho
    refine ⟨hin, fun r hr => ?_⟩
    have hlen := m.registers.length_firstValues x
    refine (Memory.byteAt_place _ _ _ (by rw [hlen]; exact hin) _).trans ?_
    rw [if_pos ⟨by omega, by omega⟩, Nat.add_sub_cancel_left, Registers.getD_firstValues _ hr]

/-- V5 is 254 when its digits are written at 0x300; the byte behind them stays. -/
theorem execute_footprint_decimal :
    let m := { fresh {} (.ofList []) with
      index := 0x300, registers := Registers.zero.write 5 254 }
    ∃ m', m.execute (.decimal 5) = .ok m' ∧
      .byte 0x303 ∉ m.writes (.decimal 5) ∧ m'.Agrees m (.byte 0x303) ∧
      ∃ d₀ d₁ d₂ : UInt8,
        m'.memory.byteAt 0x300 = d₀ ∧ m'.memory.byteAt 0x301 = d₁ ∧
        m'.memory.byteAt 0x302 = d₂ ∧ d₀ ≤ 9 ∧ d₁ ≤ 9 ∧ d₂ ≤ 9 ∧
        100 * d₀.toNat + 10 * d₁.toNat + d₂.toNat = 254 := by
  intro m
  have hexec : m.execute (.decimal 5) = .ok (m.effect (.decimal 5)) :=
    execute_eq_ok_iff.2 ⟨blockObstacle_of_le (by decide), rfl⟩
  have hout : .byte 0x303 ∉ m.writes (.decimal 5) := by decide
  obtain ⟨hframe, hdigits, -⟩ := execute_footprint hexec
  exact ⟨_, hexec, hout, hframe _ hout, (hdigits 5 rfl).2⟩

end Machine

end Chip8

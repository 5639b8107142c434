import Chip8.Proofs.Machine.Dependence

/-!
# What a step sees of memory, and what it leaves there

A step looks at the word at the counter and at no more than sixteen bytes at the index, and it
writes one block at the index or nothing.  Which bytes these are is decided by the registers, so
two machines that differ in memory alone, and not in the bytes that are looked at, make the same
step and write the same block.

* `Machine.memory_step` : memory after a step is memory before it with the block in place;
* `Machine.byte_mem_reads` : an instruction looks at bytes near the index only;
* **`Machine.step_local`** : the step of two such machines.
-/

namespace Chip8

namespace Machine

variable {m n : Machine} {i : Instruction}

/-- The block that an instruction writes at the index. -/
def storedBy (m : Machine) : Instruction → List UInt8
  | .decimal x => decimalDigits (m.registers.read x)
  | .store x => m.registers.firstValues x
  | _ => []

/-- The block that a step with this result has written at the index. -/
def stored (m : Machine) : StepResult → List UInt8
  | .ok (.executed i) => m.storedBy i
  | _ => []

/-! ### Writing -/

theorem memory_effect (m : Machine) (i : Instruction) :
    (m.effect i).memory = m.memory.place m.index (m.storedBy i) := by
  cases i <;> rfl

/-- **A step writes one block at the index**, and nothing if it fails or waits. -/
theorem memory_step (m : Machine) :
    m.step.2.memory = m.memory.place m.index (m.stored m.step.1) := by
  have hs := m.stepped
  generalize m.step = ending at hs ⊢
  cases hs with
  | executes _ _ _ he =>
    obtain ⟨-, rfl⟩ := execute_eq_ok_iff.1 he
    exact memory_effect m.fetched _
  | _ => rfl

theorem storedBy_fits (ho : m.obstacle i = none) :
    m.storedBy i = [] ∨ m.index + (m.storedBy i).length ≤ Memory.size := by
  cases i with
  | decimal x => exact .inr (le_of_blockObstacle ho)
  | store x =>
    right
    rw [storedBy, Registers.length_firstValues]
    exact le_of_blockObstacle ho
  | _ => exact .inl rfl

theorem stored_fits (m : Machine) :
    m.stored m.step.1 = [] ∨ m.index + (m.stored m.step.1).length ≤ Memory.size := by
  have hs := m.stepped
  generalize m.step = ending at hs ⊢
  cases hs with
  | executes _ _ _ he => exact storedBy_fits (m := m.fetched) (execute_eq_ok_iff.1 he).1
  | _ => exact .inl rfl

/-- After a step the block is found at the index, and every other byte is what it was. -/
theorem byteAt_step (m : Machine) (a : Nat) :
    m.step.2.memory.byteAt a =
      if m.index ≤ a ∧ a < m.index + (m.stored m.step.1).length then
        (m.stored m.step.1).getD (a - m.index) 0
      else m.memory.byteAt a := by
  rw [memory_step]
  rcases m.stored_fits with hnone | hfits
  · rw [hnone, if_neg (by simp)]
    rfl
  · exact Memory.byteAt_place _ _ _ hfits a

/-! ### Reading -/

/-- An instruction looks at no byte but the sixteen at the index. -/
theorem byte_mem_reads {a : Nat} (h : .byte a ∈ m.reads i) :
    m.index ≤ a ∧ a ≤ m.index + 15 := by
  cases i with
  | draw x y height =>
    have hheight : height.val < 16 := height.isLt
    obtain ⟨hle, hlt⟩ : m.index ≤ a ∧ a < m.index + height.val := by
      simpa [reads, mem_bytesAtIndex] using h
    omega
  | load x =>
    have hx : x.val < 16 := x.isLt
    obtain ⟨hle, hlt⟩ : m.index ≤ a ∧ a < m.index + (x.val + 1) := by
      simpa [reads, mem_bytesAtIndex] using h
    omega
  | skip c => cases c <;> simp [reads, Condition.reads] at h
  | combine f x y =>
    cases f with
    | shiftRight | shiftLeft => by_cases hxy : x = y <;> simp [reads, Operation.switches, hxy] at h
    | _ => simp [reads, Operation.switches] at h
  | _ => simp [reads] at h

/-- While no register waits, a step looks at no byte but the word at the counter and the sixteen at
the index. -/
theorem byte_mem_stepReads {a : Nat} (h : .byte a ∈ m.stepReads) :
    m.keyWait = none ∧ (a = m.pc ∨ a = m.pc + 1 ∨ (m.index ≤ a ∧ a ≤ m.index + 15)) := by
  cases hw : m.keyWait with
  | some x => simp [stepReads_of_waiting hw] at h
  | none =>
    refine ⟨rfl, ?_⟩
    rw [stepReads_of_running hw, List.mem_append] at h
    rcases h with hfetch | hreads
    · obtain rfl | rfl : a = m.pc ∨ a = m.pc + 1 := by simpa [fetchReads] using hfetch
      · exact .inl rfl
      · exact .inr (.inl rfl)
    · cases ha : m.attempted with
      | none => simp [ha] at hreads
      | some i =>
        rw [ha, Option.elim_some] at hreads
        exact .inr (.inr (byte_mem_reads (m := m.fetched) hreads))

/-! ### Two machines -/

theorem eq_of_agrees_outside (h : ∀ p, (∀ a, p ≠ .byte a) → n.Agrees m p) :
    n = { m with memory := n.memory } := by
  refine ext_agrees fun p => ?_
  by_cases hp : ∀ a, p ≠ .byte a
  · have hsame := h p hp
    cases p with
    | byte a => exact absurd rfl (hp a)
    | _ => exact hsame
  · obtain ⟨a, rfl⟩ : ∃ a, p = .byte a := by simpa using hp
    rfl

/-- Memories that are the same where a step looks are all the same to it. -/
theorem agrees_of_near {memory : Memory}
    (h : m.keyWait = none → ∀ a < Memory.size,
      a = m.pc ∨ a = m.pc + 1 ∨ (m.index ≤ a ∧ a ≤ m.index + 15) →
        m.memory.byteAt a = memory.byteAt a) :
    ∀ p ∈ m.stepReads, m.Agrees { m with memory := memory } p := by
  intro p hp
  cases p with
  | byte a =>
    by_cases ha : a < Memory.size
    · obtain ⟨hw, hnear⟩ := byte_mem_stepReads hp
      exact h hw a ha hnear
    · -- outside memory there are zeros in both
      have hout := Nat.not_lt.1 ha
      exact (Memory.byteAt_of_size_le _ hout).trans (Memory.byteAt_of_size_le _ hout).symm
  | _ => rfl

/-- **A step is local in memory.**  Let two machines differ in memory alone, and there not in the
word at the counter nor in the sixteen bytes at the index, as far as these lie in memory; while a
register waits they may differ anywhere.  Then their steps have the same result and again leave
machines that differ in memory alone.  Both write the same block at the index, which lies in
memory, and each leaves every other byte of its own as it was; so where the memories agreed they
still agree. -/
theorem step_local (m : Machine) (memory : Memory)
    (h : m.keyWait = none → ∀ a < Memory.size,
      a = m.pc ∨ a = m.pc + 1 ∨ (m.index ≤ a ∧ a ≤ m.index + 15) →
        m.memory.byteAt a = memory.byteAt a) :
    let n := { m with memory := memory }
    let block := m.stored m.step.1
    n.step.1 = m.step.1 ∧ n.step.2 = { m.step.2 with memory := n.step.2.memory } ∧
      (block = [] ∨ m.index + block.length ≤ Memory.size) ∧
      (∀ k (hk : k < block.length), m.step.2.memory.byteAt (m.index + k) = block[k] ∧
        n.step.2.memory.byteAt (m.index + k) = block[k]) ∧
      (∀ a, ¬(m.index ≤ a ∧ a < m.index + block.length) →
        m.step.2.memory.byteAt a = m.memory.byteAt a ∧
          n.step.2.memory.byteAt a = memory.byteAt a) ∧
      ∀ a, m.memory.byteAt a = memory.byteAt a →
        m.step.2.memory.byteAt a = n.step.2.memory.byteAt a := by
  intro n block
  obtain ⟨hresult, hmatch⟩ := step_congr (agrees_of_near h)
  have hm := m.byteAt_step
  have hn : ∀ a, n.step.2.memory.byteAt a =
      if m.index ≤ a ∧ a < m.index + block.length then block.getD (a - m.index) 0
      else memory.byteAt a := by
    -- what is written depends on the registers, which are the same
    have hblock : n.stored n.step.1 = block := by
      rw [← hresult]
      rfl
    intro a
    rw [← hblock]
    exact n.byteAt_step a
  refine ⟨hresult.symm, eq_of_agrees_outside fun p hp => ?_, m.stored_fits, ?_, ?_, ?_⟩
  · have hbefore : n.Agrees m p := by
      cases p with
      | byte a => exact absurd rfl (hp a)
      | _ => rfl
    rcases hmatch p with hsame | ⟨hm', hn'⟩
    · exact hsame.symm
    · exact hn'.trans (hbefore.trans hm'.symm)
  · intro k hk
    have hin : m.index ≤ m.index + k ∧ m.index + k < m.index + block.length := by omega
    rw [hm, hn, if_pos hin, if_pos hin, Nat.add_sub_cancel_left, List.getD_eq_getElem?_getD,
      List.getElem?_eq_getElem hk]
    exact ⟨rfl, rfl⟩
  · intro a ha
    rw [hm, hn, if_neg ha, if_neg ha]
    exact ⟨rfl, rfl⟩
  · intro a ha
    rw [hm, hn, ha]

/-- V0 and V1 are stored at 0x300 by two machines whose memories differ at 0x400. -/
theorem step_local_store :
    let m := { fresh {} (.ofList []) with
      memory := Memory.fresh.place Memory.programStart [0xF1, 0x55], index := 0x300,
      registers := (Registers.zero.write 0 7).write 1 9 }
    let memory := m.memory.set 0x400 0xAB
    let n := { m with memory := memory }
    (∀ a < Memory.size, a = m.pc ∨ a = m.pc + 1 ∨ (m.index ≤ a ∧ a ≤ m.index + 15) →
        m.memory.byteAt a = memory.byteAt a) ∧
      m.step.1 = .ok (.executed (.store 1)) ∧ n.step.1 = .ok (.executed (.store 1)) ∧
      m.step.2.memory.byteAt 0x301 = 9 ∧ n.step.2.memory.byteAt 0x301 = 9 ∧
      m.step.2.memory.byteAt 0x400 = 0 ∧ n.step.2.memory.byteAt 0x400 = 0xAB := by
  intro m memory n
  have hset : ∀ a, memory.byteAt a = if a = 0x400 then 0xAB else m.memory.byteAt a :=
    Memory.byteAt_set _ (by decide) _
  have hsame : ∀ a < Memory.size,
      a = m.pc ∨ a = m.pc + 1 ∨ (m.index ≤ a ∧ a ≤ m.index + 15) →
        m.memory.byteAt a = memory.byteAt a := by
    intro a _ hnear
    have hne : a ≠ 0x400 := by
      have hpc : m.pc = 0x200 := rfl
      have hindex : m.index = 0x300 := rfl
      omega
    rw [hset, if_neg hne]
  have hroom : m.fetched.obstacle (.store 1) = none := blockObstacle_of_le (by decide)
  have hstep : m.step.1 = .ok (.executed (.store 1)) :=
    congrArg Prod.fst
      (step_of_program (k := 0) rfl (by decide) rfl rfl (by decide) (by decide) hroom)
  obtain ⟨hresult, -, -, hblock, hrest, -⟩ := step_local m memory fun _ => hsame
  rw [hstep] at hresult hblock hrest
  obtain ⟨hm, hn⟩ := hblock 1 (by decide)
  obtain ⟨hm', hn'⟩ := hrest 0x400 (by decide)
  have hzero : m.memory.byteAt 0x400 = 0 :=
    (Memory.byteAt_place _ _ _ (by decide) _).trans (Memory.byteAt_fresh_of_le (by decide))
  exact ⟨hsame, hstep, hresult, hm, hn, hm'.trans hzero, hn'.trans (hset 0x400)⟩

end Machine

end Chip8

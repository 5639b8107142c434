import Chip8.Proofs.Machine.Effects
import Chip8.Proofs.Machine.InPlace

/-!
# The bounds of a machine

The counter is never cut to an address, so what keeps it small is the check of each fetch: a word
that can be read ends inside memory, and behind it the counter is at most `0x1000`.  From there an
instruction moves it past one more word, to an address, to an address and a byte, or back to where
a call was made; and a call saves the counter behind a fetched word.  `Machine.Bounded` says this of
the counter and of the saved addresses together, and of the index and the depth of the calls.

* `Machine.Bounded.step`, `Machine.Bounded.handle` : the bounds are kept, by failures too;
* `Machine.Reachable.bounded` : they hold of every reachable machine;
* `Machine.history_safe` : under every history the machine in place does just what the function
  says: no sum leaves its word and no index its array.
-/

namespace Chip8

namespace Machine

/-- The bounds that every history keeps. -/
structure Bounded (m : Machine) : Prop where
  /-- The index is an address. -/
  index : m.index ≤ 0xFFF
  /-- The counter is at most an address and a byte. -/
  pc : m.pc ≤ 0x10FE
  /-- No more calls are open than the stack has room for. -/
  depth : m.stack.depth ≤ 16
  /-- Every saved address is behind a word of memory. -/
  frames : ∀ a ∈ m.stack.frames, 2 ≤ a ∧ a ≤ 0x1000

theorem bounded_fresh (dialect : Dialect) (random : RandomSource) :
    (fresh dialect random).Bounded where
  index := Nat.zero_le _
  pc := (by decide : Memory.programStart ≤ 0x10FE)
  depth := Nat.zero_le _
  frames := fun _ ha => nomatch ha

variable {m : Machine}

/-! ### Instructions

The counter is behind a word that has been read. -/

theorem Bounded.indexPast_le (h : m.Bounded) (length : Nat) : m.indexPast length ≤ 0xFFF := by
  unfold indexPast
  split
  · exact wrapIndex_le _
  · exact h.index

theorem Bounded.nextIndex_le (h : m.Bounded) (i : Instruction) : m.nextIndex i ≤ 0xFFF := by
  cases i with
  | setIndex a => exact Nat.le_of_lt_succ a.isLt
  | addIndex x => exact wrapIndex_le _
  | glyph x =>
    refine Nat.le_trans (Font.glyphAddress_le _) ?_
    decide
  | store x => exact h.indexPast_le _
  | load x => exact h.indexPast_le _
  | _ => exact h.index

theorem Bounded.nextPc_le (h : m.Bounded) (hpc : m.pc ≤ 0x1000) (i : Instruction) :
    m.nextPc i ≤ 0x10FE := by
  have hkept : m.pc ≤ 0x10FE := h.pc
  cases i with
  | ret =>
    show m.stack.frames.headD m.pc ≤ 0x10FE
    cases hs : m.stack.frames with
    | nil => exact hkept
    | cons a rest =>
      have ha : a ≤ 0x1000 := (h.frames a (by rw [hs]; exact List.mem_cons_self)).2
      exact Nat.le_trans ha (by decide)
  | jump a => exact Nat.le_trans (Nat.le_of_lt_succ a.isLt) (by decide)
  | call a => exact Nat.le_trans (Nat.le_of_lt_succ a.isLt) (by decide)
  | jumpOffset a =>
    -- the highest address plus the greatest byte
    have ha : a.val < 4096 := a.isLt
    have hv : (m.registers.read 0).toNat < 256 := (m.registers.read 0).toNat_lt
    show a.val + (m.registers.read 0).toNat ≤ 0x10FE
    omega
  | skip c =>
    -- a skip moves past one word more, which need not be in memory
    show (if c.holds m then m.pc + 2 else m.pc) ≤ 0x10FE
    split <;> omega
  | _ => exact hkept

theorem Bounded.depth_effect (h : m.Bounded) {i : Instruction} (ho : m.obstacle i = none) :
    (m.effect i).stack.depth ≤ 16 := by
  have hdepth := h.depth
  rw [CallStack.depth, frames_effect]
  cases i with
  | ret =>
    show m.stack.frames.tail.length ≤ 16
    rw [List.length_tail]
    exact Nat.le_trans (Nat.sub_le _ _) hdepth
  | call a =>
    have hroom : m.stack.depth < 16 := by
      refine Nat.lt_of_not_le fun hfull => ?_
      cases (if_pos hfull).symm.trans ho
    exact hroom
  | _ => exact hdepth

theorem Bounded.nextFrames_le (h : m.Bounded) (hpos : 2 ≤ m.pc) (hpc : m.pc ≤ 0x1000)
    (i : Instruction) : ∀ a ∈ m.nextFrames i, 2 ≤ a ∧ a ≤ 0x1000 := by
  intro a ha
  cases i with
  | ret => exact h.frames a (List.mem_of_mem_tail ha)
  | call b =>
    rcases List.mem_cons.1 ha with rfl | ha
    · exact ⟨hpos, hpc⟩
    · exact h.frames a ha
  | _ => exact h.frames a ha

theorem Bounded.execute {m' : Machine} {i : Instruction} (h : m.Bounded) (hpos : 2 ≤ m.pc)
    (hpc : m.pc ≤ 0x1000) (he : m.execute i = .ok m') : m'.Bounded := by
  obtain ⟨ho, rfl⟩ := execute_eq_ok_iff.1 he
  refine ⟨?_, ?_, h.depth_effect ho, ?_⟩
  · rw [index_effect]
    exact h.nextIndex_le i
  · rw [pc_effect]
    exact h.nextPc_le hpc i
  · rw [frames_effect]
    exact h.nextFrames_le hpos hpc i

/-! ### Steps and events -/

theorem pc_fetched_le (hpc : m.pc + 1 < Memory.size) : m.fetched.pc ≤ 0x1000 := by
  have h : m.pc + 1 < 4096 := hpc
  show m.pc + 2 ≤ 0x1000
  omega

theorem Bounded.fetched (h : m.Bounded) (hpc : m.pc + 1 < Memory.size) : m.fetched.Bounded :=
  ⟨h.index, Nat.le_trans (pc_fetched_le hpc) (by decide), h.depth, h.frames⟩

/-- A step keeps the bounds, whatever its outcome. -/
theorem Bounded.step (h : m.Bounded) : m.step.2.Bounded := by
  have hs := m.stepped
  generalize m.step = ending at hs ⊢
  cases hs with
  | waits => exact h
  | completes => exact ⟨h.index, h.pc, h.depth, h.frames⟩
  | outside => exact h
  | unsupported _ hpc => exact h.fetched hpc
  | fails _ hpc => exact h.fetched hpc
  | executes _ hpc _ he =>
    -- behind a fetched word the counter is at least 2, which a call may save
    exact (h.fetched hpc).execute (Nat.le_add_left 2 m.pc) (pc_fetched_le hpc) he

theorem Bounded.handle (h : m.Bounded) (e : Event) : (m.handle e).2.Bounded := by
  by_cases hs : e = .step
  · subst hs
    exact h.step
  by_cases hr : e = .reset
  · subst hr
    exact bounded_fresh m.dialect m.random
  · obtain ⟨memory, timers, keypad, he⟩ := m.handle_host hs hr
    rw [he]
    exact ⟨h.index, h.pc, h.depth, h.frames⟩

theorem Reachable.bounded (h : m.Reachable) : m.Bounded :=
  h.induct bounded_fresh fun _ e hm => hm.handle e

/-! ### Histories -/

/-- A history that starts at power-on ends in place as the function says. -/
theorem runInPlace_fresh (dialect : Dialect) (random : RandomSource) (history : List Event) :
    (freshInPlace dialect random).bind (·.runInPlace history) =
      some ((fresh dialect random).run history) := by
  have hsmall : ∀ m : Machine, m.Bounded → m.index + 255 < 2 ^ 64 := by
    intro m h
    have := h.index
    omega
  rw [freshInPlace_eq, Option.bind_some]
  exact runInPlace_eq (fun _ e h => h.handle e) hsmall (bounded_fresh dialect random) history

/-- **No history leaves the bounds**, and none makes the machine in place crash: power-on and then
every event end in place as the function says.  So counter and index fit in the 16 bits in which
the host sees them. -/
theorem history_safe (dialect : Dialect) (random : RandomSource) (history : List Event) :
    let m := ((fresh dialect random).run history).2
    (m.index ≤ 0xFFF ∧ m.pc ≤ 0x10FE ∧ m.stack.depth ≤ 16 ∧
      ∀ a ∈ m.stack.frames, 2 ≤ a ∧ a ≤ 0x1000) ∧
    ((freshInPlace dialect random).bind fun m₀ => m₀.runInPlace history) =
      some ((fresh dialect random).run history) ∧
    m.snapshot.index.toNat = m.index ∧ m.snapshot.pc.toNat = m.pc := by
  intro m
  have hm : m.Bounded := ((Reachable.fresh dialect random).run history).bounded
  have hindex : m.index ≤ 0xFFF := hm.index
  have hpc : m.pc ≤ 0x10FE := hm.pc
  refine ⟨⟨hindex, hpc, hm.depth, hm.frames⟩, runInPlace_fresh dialect random history, ?_, ?_⟩
  · show (UInt16.ofNat m.index).toNat = m.index
    exact UInt16.toNat_ofNat_of_lt' (Nat.lt_of_le_of_lt hindex (by decide))
  · show (UInt16.ofNat m.pc).toNat = m.pc
    exact UInt16.toNat_ofNat_of_lt' (Nat.lt_of_le_of_lt hpc (by decide))

end Machine

end Chip8

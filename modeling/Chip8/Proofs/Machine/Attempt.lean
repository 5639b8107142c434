import Chip8.Proofs.Machine.Effects
import Chip8.Proofs.Machine.Step

/-!
# The instruction that a step attempts

While no register waits, a step attempts the instruction that the word at the counter stands for
(`Machine.attempted`), and is nothing but this attempt (`Machine.step_eq_attempt`).  If nothing
stands in its way, the step has its effect (`Machine.step_of_attempted`), and most of the machine is
not touched by anything else (`Machine.step_keeps`).

What the words of a program are can be told from its bytes (`Machine.word_of_program`), so a
program of known bytes can be followed step by step (`Machine.attempted_of_program`,
`Machine.step_of_program`).
-/

namespace Chip8

namespace Machine

variable {m n : Machine} {i : Instruction}

/-- The instruction that a step attempts while no register waits. -/
def attempted (m : Machine) : Option Instruction :=
  if m.pc + 1 < Memory.size then Instruction.decode? m.word else none

theorem attempted_eq_some_iff :
    m.attempted = some i ↔ m.pc + 1 < Memory.size ∧ Instruction.decode? m.word = some i := by
  unfold attempted
  split
  · next h => simp only [h, true_and]
  · next h => simp only [h, false_and, reduceCtorEq]

theorem attempted_congr (hpc : m.pc = n.pc) (hword : m.word = n.word) :
    m.attempted = n.attempted := by
  rw [attempted, attempted, hpc, hword]

/-- An attempt at an instruction: what a step says of it, and the machine that is left. -/
def attempt (m : Machine) (i : Instruction) : StepResult × Machine :=
  match m.execute i with
  | .error f => (.error f, m)
  | .ok m' => (.ok (.executed i), m')

theorem attempt_of_some {f : Fault} (ho : m.obstacle i = some f) :
    m.attempt i = (.error f, m) := by
  rw [attempt, execute_eq_error_iff.2 ho]

theorem attempt_of_none (ho : m.obstacle i = none) :
    m.attempt i = (.ok (.executed i), m.effect i) := by
  rw [attempt, execute_eq_ok_iff.2 ⟨ho, rfl⟩]

theorem step_eq_attempt (hw : m.keyWait = none) (ha : m.attempted = some i) :
    m.step = m.fetched.attempt i := by
  obtain ⟨hpc, hd⟩ := attempted_eq_some_iff.1 ha
  cases ho : m.fetched.obstacle i with
  | some f =>
    rw [attempt_of_some ho, (Stepped.fails hw hpc hd (execute_eq_error_iff.2 ho)).step_eq]
  | none =>
    rw [attempt_of_none ho, (Stepped.executes hw hpc hd (execute_eq_ok_iff.2 ⟨ho, rfl⟩)).step_eq]

theorem step_of_attempted (hw : m.keyWait = none) (ha : m.attempted = some i)
    (ho : m.fetched.obstacle i = none) : m.step = (.ok (.executed i), m.fetched.effect i) := by
  rw [step_eq_attempt hw ha, attempt_of_none ho]

/-- What neither the fetch of a word nor the coming of a key touches is left by a step as it was, if
the instruction that is carried out leaves it. -/
theorem step_keeps {α : Type} (part : Machine → α) (hfetched : part m.fetched = part m)
    (hcompleted : ∀ x k, part (m.completed x k) = part m)
    (heffect : ∀ i, m.step.1 = .ok (.executed i) → part (m.fetched.effect i) = part m.fetched) :
    part m.step.2 = part m := by
  have hs := m.stepped
  generalize m.step = ending at hs heffect ⊢
  cases hs with
  | waits | outside => rfl
  | completes => exact hcompleted _ _
  | unsupported | fails => exact hfetched
  | executes _ _ _ he =>
    obtain ⟨-, rfl⟩ := execute_eq_ok_iff.1 he
    exact (heffect _ rfl).trans hfetched

/-- An instruction that a step has carried out was attempted by it, unless a key has come for one
that waited. -/
theorem attempted_of_executed (h : m.step.1 = .ok (.executed i)) (hi : ∀ x, i ≠ .awaitKey x) :
    m.keyWait = none ∧ m.attempted = some i ∧ m.fetched.obstacle i = none := by
  have hs := m.stepped
  generalize m.step = ending at hs h
  cases hs with
  | completes => exact absurd (Outcome.executed.inj (Except.ok.inj h)).symm (hi _)
  | executes hw hpc hd he =>
    obtain rfl := Outcome.executed.inj (Except.ok.inj h)
    exact ⟨hw, attempted_eq_some_iff.2 ⟨hpc, hd⟩, (execute_eq_ok_iff.1 he).1⟩
  | _ => cases h

theorem word_of_program {memory : Memory} {program : List UInt8}
    (hmem : m.memory = memory.place Memory.programStart program)
    (hfits : Memory.programStart + program.length ≤ Memory.size) {k : Nat}
    (hpc : m.pc = Memory.programStart + k) (hk : k + 1 < program.length) :
    m.word = Word.ofBytes (program.getD k 0) (program.getD (k + 1) 0) := by
  rw [word, hmem, hpc, Memory.byteAt_place _ _ _ hfits, Memory.byteAt_place _ _ _ hfits,
    if_pos (by omega), if_pos (by omega), Nat.add_assoc, Nat.add_sub_cancel_left,
    Nat.add_sub_cancel_left]

theorem attempted_of_program {memory : Memory} {program : List UInt8}
    (hmem : m.memory = memory.place Memory.programStart program)
    (hfits : Memory.programStart + program.length ≤ Memory.size) {k : Nat}
    (hpc : m.pc = Memory.programStart + k) (hk : k + 1 < program.length)
    (hd : Instruction.decode? (Word.ofBytes (program.getD k 0) (program.getD (k + 1) 0)) = some i) :
    m.attempted = some i := by
  have hin : m.pc + 1 < Memory.size := by omega
  rw [← word_of_program hmem hfits hpc hk] at hd
  exact attempted_eq_some_iff.2 ⟨hin, hd⟩

theorem step_of_program {memory : Memory} {program : List UInt8}
    (hmem : m.memory = memory.place Memory.programStart program)
    (hfits : Memory.programStart + program.length ≤ Memory.size) (hw : m.keyWait = none) {k : Nat}
    (hpc : m.pc = Memory.programStart + k) (hk : k + 1 < program.length)
    (hd : Instruction.decode? (Word.ofBytes (program.getD k 0) (program.getD (k + 1) 0)) = some i)
    (ho : m.fetched.obstacle i = none) : m.step = (.ok (.executed i), m.fetched.effect i) :=
  step_of_attempted hw (attempted_of_program hmem hfits hpc hk hd) ho

theorem effect_jump_self {a : Fin 4096} (hpc : m.pc = a) : m.fetched.effect (.jump a) = m := by
  show { m with pc := a.val } = m
  rw [← hpc]

end Machine

end Chip8

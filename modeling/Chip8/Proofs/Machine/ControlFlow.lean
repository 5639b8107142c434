import Chip8.Proofs.Instruction.Table
import Chip8.Proofs.Machine.Calls

/-!
# Where a step goes on

Most instructions go on behind themselves.  The others are of two kinds: jumps go on elsewhere, and
skips pass over the next word if their condition is met.  Two tables list them by the patterns of
their words (`Machine.jumps`, `Machine.skips`), and read the address and the condition off the
machine that meets the word.

A step moves the counter in up to two places, when it fetches the word and when it carries out a
jump or a skip that is taken.  The tables say what comes of it:

* `Machine.pc_of_jumps`, `Machine.pc_of_skips`, `Machine.pc_of_others` : each kind of word;
* **`Machine.control_flow`** : all words, and what a call saves.
-/

namespace Chip8

namespace Machine

/-- The words that go on elsewhere: their patterns, and where they go on, if anywhere. -/
def jumps : List (String × (Machine → Word → Option Nat)) :=
  [("00EE", fun m _ => m.stack.frames.head?),
   ("1nnn", fun _ w => some w.nnn.val),
   ("2nnn", fun _ w => some w.nnn.val),
   ("Bnnn", fun m w => some (w.nnn.val + (m.registers.read 0).toNat))]

/-- The words that may pass over the next one: their patterns, and when they do. -/
def skips : List (String × (Machine → Word → Bool)) :=
  [("3xnn", fun m w => m.registers.read w.x == w.nn),
   ("4xnn", fun m w => m.registers.read w.x != w.nn),
   ("5xy0", fun m w => m.registers.read w.x == m.registers.read w.y),
   ("9xy0", fun m w => m.registers.read w.x != m.registers.read w.y),
   ("Ex9E", fun m w =>
     m.keypad.isDown ⟨(m.registers.read w.x).toNat % 16, mod_sixteen_lt _⟩),
   ("ExA1", fun m w =>
     !m.keypad.isDown ⟨(m.registers.read w.x).toNat % 16, mod_sixteen_lt _⟩)]

variable {m m' : Machine} {outcome : Outcome}

/-- A step that succeeds while no register waits has carried out the instruction at the counter. -/
theorem exists_executed (hk : m.keyWait = none) (h : m.step = (.ok outcome, m')) :
    ∃ i, m.attempted = some i ∧ m.step.1 = .ok (.executed i) ∧ m' = m.fetched.effect i := by
  have hs := m.stepped
  rw [h] at hs ⊢
  cases hs with
  | waits hw => cases hk.symm.trans hw
  | completes hw => cases hk.symm.trans hw
  | @executes i _ _ hpc hd he =>
    obtain ⟨-, heffect⟩ := execute_eq_ok_iff.1 he
    exact ⟨i, attempted_eq_some_iff.2 ⟨hpc, hd⟩, rfl, heffect.symm⟩

theorem executed_of_fits (hk : m.keyWait = none) (h : m.step = (.ok outcome, m'))
    (pattern : String) (meaning : Word → Instruction)
    (hmem : (pattern, meaning) ∈ Instruction.table) (hw : m.word.fits pattern) :
    m.step.1 = .ok (.executed (meaning m.word)) ∧ m' = m.fetched.effect (meaning m.word) := by
  obtain ⟨i, ha, hstep, heffect⟩ := exists_executed hk h
  obtain ⟨-, hd⟩ := attempted_eq_some_iff.1 ha
  have hi : meaning m.word = i :=
    Option.some.inj ((Instruction.decode?_of_fits _ hmem hw).symm.trans hd)
  rw [hi]
  exact ⟨hstep, heffect⟩

/-! ### The kinds of words -/

theorem pc_of_jumps (hk : m.keyWait = none) (h : m.step = (.ok outcome, m')) :
    ∀ entry ∈ jumps, m.word.fits entry.1 → entry.2 m m.word = some m'.pc := by
  simp only [jumps, List.forall_mem_cons, List.not_mem_nil, false_imp_iff, implies_true, and_true]
  refine ⟨fun hw => ?ret, fun hw => ?jump, fun hw => ?call, fun hw => ?jumpOffset⟩
  case ret =>
    obtain ⟨hret, -⟩ := executed_of_fits hk h "00EE" (fun _ => .ret)
      (by simp [Instruction.table]) hw
    have hframes := frames_of_ret hret
    rw [h] at hframes
    rw [hframes]
    rfl
  case jump =>
    obtain ⟨-, rfl⟩ := executed_of_fits hk h "1nnn" (fun w => .jump w.nnn)
      (by simp [Instruction.table]) hw
    rfl
  case call =>
    obtain ⟨-, rfl⟩ := executed_of_fits hk h "2nnn" (fun w => .call w.nnn)
      (by simp [Instruction.table]) hw
    rfl
  case jumpOffset =>
    obtain ⟨-, rfl⟩ := executed_of_fits hk h "Bnnn" (fun w => .jumpOffset w.nnn)
      (by simp [Instruction.table]) hw
    rfl

/-- The entries of the table of instructions that are skips have the conditions of `skips`. -/
theorem exists_condition : ∀ entry ∈ skips, ∃ condition : Word → Condition,
    (entry.1, fun w => .skip (condition w)) ∈ Instruction.table ∧
      ∀ (n : Machine) (w : Word), (condition w).holds n = entry.2 n w := by
  simp only [skips, List.forall_mem_cons, List.not_mem_nil, false_imp_iff, implies_true, and_true]
  refine ⟨⟨fun w => .byteEq w.x w.nn, ?_⟩, ⟨fun w => .byteNe w.x w.nn, ?_⟩,
    ⟨fun w => .regEq w.x w.y, ?_⟩, ⟨fun w => .regNe w.x w.y, ?_⟩,
    ⟨fun w => .keyDown w.x, ?_⟩, ⟨fun w => .keyUp w.x, ?_⟩⟩
  all_goals exact ⟨by simp [Instruction.table], fun _ _ => rfl⟩

theorem pc_of_skips (hk : m.keyWait = none) (h : m.step = (.ok outcome, m')) :
    ∀ entry ∈ skips, m.word.fits entry.1 →
      m'.pc = if entry.2 m m.word then m.pc + 4 else m.pc + 2 := by
  intro entry hentry hw
  obtain ⟨condition, hmem, hholds⟩ := exists_condition entry hentry
  obtain ⟨-, rfl⟩ := executed_of_fits hk h _ _ hmem hw
  rw [← hholds m m.word]
  rfl

/-- An entry of the table of instructions whose pattern is in neither of the two tables here leaves
the counter behind the word. -/
theorem nextPc_of_table (n : Machine) (w : Word) : ∀ entry ∈ Instruction.table,
    entry.1 ∉ jumps.map Prod.fst → entry.1 ∉ skips.map Prod.fst →
      n.nextPc (entry.2 w) = n.pc := by
  simp [Instruction.table, jumps, skips, nextPc]

theorem pc_of_others (hk : m.keyWait = none) (h : m.step = (.ok outcome, m'))
    (hjumps : ∀ entry ∈ jumps, ¬ m.word.fits entry.1)
    (hskips : ∀ entry ∈ skips, ¬ m.word.fits entry.1) : m'.pc = m.pc + 2 := by
  obtain ⟨i, ha, -, rfl⟩ := exists_executed hk h
  obtain ⟨-, hd⟩ := attempted_eq_some_iff.1 ha
  obtain ⟨entry, hmem, hfits, rfl⟩ := Instruction.decode?_eq_some_iff_table.1 hd
  rw [pc_effect]
  refine nextPc_of_table m.fetched m.word entry hmem ?_ ?_
  · intro hin
    obtain ⟨jump, hj, heq⟩ := List.mem_map.1 hin
    exact hjumps jump hj (heq ▸ hfits)
  · intro hin
    obtain ⟨skip, hs, heq⟩ := List.mem_map.1 hin
    exact hskips skip hs (heq ▸ hfits)

/-! ### Steps -/

/-- **Where a step goes on.**  Let no register wait, and let a step succeed.  Then its word lies in
memory.  A word of a pattern in `jumps` goes on where that table says.  A word of a pattern in
`skips` goes on four bytes behind the counter if the condition there is met before the step, and
else two bytes behind it, as every word of any other pattern does.  And a call saves the address two
bytes behind the counter, on those that were saved before. -/
theorem control_flow (hk : m.keyWait = none) (h : m.step = (.ok outcome, m')) :
    m.pc ≤ 0xFFE ∧
    (∀ entry ∈ jumps, m.word.fits entry.1 → entry.2 m m.word = some m'.pc) ∧
    (∀ entry ∈ skips, m.word.fits entry.1 →
      m'.pc = if entry.2 m m.word then m.pc + 4 else m.pc + 2) ∧
    ((∀ entry ∈ jumps, ¬ m.word.fits entry.1) → (∀ entry ∈ skips, ¬ m.word.fits entry.1) →
      m'.pc = m.pc + 2) ∧
    (m.word.fits "2nnn" → m'.stack.frames = (m.pc + 2) :: m.stack.frames) := by
  refine ⟨?_, pc_of_jumps hk h, pc_of_skips hk h, pc_of_others hk h, ?_⟩
  · obtain ⟨i, ha, -⟩ := exists_executed hk h
    exact Nat.le_of_lt_succ (Nat.lt_of_succ_lt_succ (attempted_eq_some_iff.1 ha).1)
  · intro hw
    obtain ⟨-, rfl⟩ := executed_of_fits hk h "2nnn" (fun w => .call w.nnn)
      (by simp [Instruction.table]) hw
    rfl

/-- At an odd address, a register above fifteen names a key by its low digit; the key is down, so
the next word is passed over. -/
theorem control_flow_key :
    let program : List UInt8 := [0x00, 0xE2, 0x9E]
    let m := { fresh {} (.ofList []) with
      memory := Memory.blank.place Memory.programStart program, pc := 0x201,
      registers := Registers.zero.write 2 0x35, keypad := Keypad.fresh.press 5 }
    m.keyWait = none ∧ ∃ m', m.step = (.ok (.executed (.skip (.keyDown 2))), m') ∧
      m.word.fits "Ex9E" ∧ m'.pc = 0x205 := by
  intro program m
  have hmem : m.memory = Memory.blank.place Memory.programStart program := rfl
  have hpc : m.pc = Memory.programStart + 1 := rfl
  have hword : m.word = 0xE29E :=
    (word_of_program hmem (by decide) hpc (by decide)).trans (by decide)
  have hstep := step_of_program (i := .skip (.keyDown 2)) hmem (by decide) rfl hpc (by decide)
    (by decide) rfl
  obtain ⟨-, -, hskips, -⟩ := control_flow rfl hstep
  have hfits : m.word.fits "Ex9E" := by rw [hword]; decide
  have htaken := hskips skips[4] (List.getElem_mem _) hfits
  have hdown : skips[4].2 m 0xE29E = true := by decide
  rw [hword, if_pos hdown] at htaken
  exact ⟨rfl, _, hstep, hfits, htaken⟩

end Machine

end Chip8

import Chip8.Proofs.Instruction.Table
import Chip8.Proofs.Machine.Safety
import Mathlib.Control.Monad.Basic

/-!
# Failures

Which operations fail, with which fault, and what they leave.

* **`Machine.failure_atomic`** : a failed operation leaves the machine as it was, but for the
  counter of a step whose word could be read.  The function has no choice here, since a failure
  gives it no new machine; so the same is shown of the machine in place, which writes as it goes.
* **`Machine.failure_exact`** : a step of a reachable machine fails exactly for the reasons of
  `Machine.Refuses`, each with its fault.

`Machine.Refuses` names the words by the patterns of `Instruction.table` and says nothing of how
they are decoded.
-/

namespace Chip8

namespace Machine

variable {m : Machine} {f : Fault}

/-! ### What a failure leaves -/

theorem step_of_error (h : m.step.1 = .error f) :
    (m.memory.readWord m.pc = .error f ∧ m.step.2 = m) ∨
      (∃ w, m.memory.readWord m.pc = .ok w ∧
        (Instruction.decode w = .error f ∨
          ∃ i, Instruction.decode w = .ok i ∧ m.fetched.execute i = .error f) ∧
        m.step.2 = m.fetched) := by
  have hs := m.stepped
  generalize m.step = ending at hs h ⊢
  cases hs with
  | waits => cases h
  | completes => cases h
  | executes => cases h
  | outside _ hpc =>
    obtain rfl := Except.error.inj h
    exact .inl ⟨Memory.readWord_of_le _ hpc, rfl⟩
  | unsupported _ hpc hd =>
    obtain rfl := Except.error.inj h
    refine .inr ⟨m.word, Memory.readWord_of_lt _ hpc, .inl ?_, rfl⟩
    rw [Instruction.decode, hd]
  | @fails i g _ hpc hd he =>
    obtain rfl := Except.error.inj h
    refine .inr ⟨m.word, Memory.readWord_of_lt _ hpc, .inr ⟨i, ?_, he⟩, rfl⟩
    rw [Instruction.decode, hd]

theorem settle_of_failed {attempt : Except Fault Machine}
    (h : (m.settle attempt).1 = .failed f) : (m.settle attempt).2 = m := by
  cases attempt with
  | ok m' => cases h
  | error g => rfl

theorem handle_of_failed {e : Event} (hs : e ≠ .step) (h : (m.handle e).1 = .failed f) :
    (m.handle e).2 = m := by
  cases e with
  | load program => exact settle_of_failed h
  | loadAt program a => exact settle_of_failed h
  | step => exact absurd rfl hs
  | tick => cases h
  | setKey k down => exact settle_of_failed h
  | releaseAllKeys => cases h
  | reset => cases h

/-- A step in place that fails is a failed step of the function, even where steps may crash. -/
theorem step_of_fault {m' : Machine} (h : Action.step.run m = .fault f m') :
    m.step = (.error f, m') := by
  rcases Action.run_step_or_crash m with hs | ⟨hs, -⟩
  · rw [hs] at h
    generalize m.step = ending at h ⊢
    obtain ⟨result, left⟩ := ending
    cases result with
    | ok outcome => cases h
    | error g => cases h; rfl
  · -- a crash is no fault
    rw [hs] at h
    cases h

theorem handle_of_fault {m' : Machine} {e : Event} (hs : e ≠ .step)
    (h : (Action.perform e).run m = .fault f m') : m.handle e = (.failed f, m') := by
  rw [Action.run_perform hs] at h
  generalize m.handle e = ending at h ⊢
  obtain ⟨reply, left⟩ := ending
  cases reply with
  | failed g => cases h; rfl
  | done => cases h
  | stepped outcome => cases h

/-- Where a byte can be added to the index, a failed step fails in place too. -/
theorem run_step_of_error (hindex : m.index + 255 < 2 ^ 64) (h : m.step.1 = .error f) :
    Action.step.run m = .fault f m.step.2 := by
  rcases Action.run_step_or_crash m with hs | ⟨-, hlarge⟩
  · rw [hs]
    generalize m.step = ending at h ⊢
    obtain ⟨result, left⟩ := ending
    cases h
    rfl
  · exact absurd hlarge (Nat.not_le_of_lt hindex)

/-- **Failures are atomic**: a step whose word cannot be read leaves the machine, and one that
fails later leaves all but the counter, which is behind the word; any other failed event leaves the
machine.  The machine in place has then written nothing else either. -/
theorem failure_atomic (m : Machine) (f : Fault) :
    (m.step.1 = .error f →
      (m.memory.readWord m.pc = .error f ∧ m.step.2 = m) ∨
        (∃ w, m.memory.readWord m.pc = .ok w ∧
          (Instruction.decode w = .error f ∨
            ∃ i, Instruction.decode w = .ok i ∧ { m with pc := m.pc + 2 }.execute i = .error f) ∧
          m.step.2 = { m with pc := m.pc + 2 })) ∧
    (∀ m', Action.step.run m = .fault f m' → m.step = (.error f, m')) ∧
    (∀ e, e ≠ .step → (m.handle e).1 = .failed f → (m.handle e).2 = m) ∧
    (∀ e m', e ≠ .step → (Action.perform e).run m = .fault f m' → m' = m) := by
  refine ⟨step_of_error, fun m' => step_of_fault, fun e => handle_of_failed, ?_⟩
  intro e m' hs h
  have he : m.handle e = (.failed f, m') := handle_of_fault hs h
  have hkept : (m.handle e).2 = m := handle_of_failed hs (by rw [he])
  rw [he] at hkept
  exact hkept

/-- A subroutine draws a glyph and then stores eleven registers two bytes before the end of memory.
The store fails, and so does a report of key 16: neither touches the registers, the open call or the
screen, in the function and in place. -/
theorem failure_atomic_store :
    let m := ((fresh {} (.ofList [])).run
      (.load [0x6A, 0x07, 0x22, 0x06, 0x00, 0xEE, 0xA0, 0x50, 0xD0, 0x05, 0xAF, 0xFE, 0xFA, 0x55] ::
        List.replicate 5 .step)).2
    let moved := { m with pc := m.pc + 2 }
    (m.registers.read 10 = 7 ∧ m.stack.frames = [0x204] ∧ m.screen.pixel 0 0 = true) ∧
    (m.step.1 = .error (.addressOutOfRange 0x1000) ∧ m.step.2 = moved) ∧
    (Action.step.run m = .fault (.addressOutOfRange 0x1000) moved ∧
      m.step = (.error (.addressOutOfRange 0x1000), moved)) ∧
    ((m.handle (.setKey 16 true)).1 = .failed (.invalidKey 16) ∧
      (m.handle (.setKey 16 true)).2 = m) ∧
    (∃ m', (Action.perform (.setKey 16 true)).run m = .fault (.invalidKey 16) m' ∧ m' = m) := by
  intro m moved
  obtain ⟨hstate, hread, hindex, hstep⟩ :
      (m.registers.read 10 = 7 ∧ m.stack.frames = [0x204] ∧ m.screen.pixel 0 0 = true) ∧
        m.memory.readWord m.pc = .ok 0xFA55 ∧ m.index = 0xFFE ∧
        m.step.1 = .error (.addressOutOfRange 0x1000) := by
    decide +kernel
  obtain ⟨hleft, hfault, -, -⟩ := failure_atomic m (.addressOutOfRange 0x1000)
  obtain ⟨-, -, hhost, hhost'⟩ := failure_atomic m (.invalidKey 16)
  have hmoved : m.step.2 = moved := by
    rcases hleft hstep with ⟨hread', -⟩ | ⟨w, -, -, hmoved⟩
    · cases hread.symm.trans hread'
    · exact hmoved
  have hplace : Action.step.run m = .fault (.addressOutOfRange 0x1000) moved := by
    rw [← hmoved]
    exact run_step_of_error (by rw [hindex]; decide) hstep
  have hkey : (m.handle (.setKey 16 true)).1 = .failed (.invalidKey 16) := rfl
  exact ⟨hstate, ⟨hstep, hmoved⟩, ⟨hplace, hfault _ hplace⟩, ⟨hkey, hhost _ (nomatch ·) hkey⟩,
    m, rfl, hhost' (.setKey 16 true) m (nomatch ·) rfl⟩

/-! ### Which steps fail -/

/-- Why a step of a machine that waits for no key fails, and with which fault. -/
inductive Refuses (m : Machine) : Fault → Prop
  /-- The word is not inside memory. -/
  | fetch (hpc : 0xFFF ≤ m.pc) : Refuses m (.addressOutOfRange (max m.pc 0x1000))
  /-- The word fits no pattern. -/
  | unsupported (hpc : m.pc < 0xFFF)
    (hw : ∀ entry ∈ Instruction.table, ¬ m.word.fits entry.1) :
    Refuses m (.unsupportedOpcode m.word)
  /-- A return without a call. -/
  | ret (hpc : m.pc < 0xFFF) (hw : m.word.fits "00EE") (hs : m.stack.depth = 0) :
    Refuses m .stackUnderflow
  /-- A call too deep. -/
  | call (hpc : m.pc < 0xFFF) (hw : m.word.fits "2nnn") (hs : m.stack.depth = 16) :
    Refuses m (.stackOverflow 16)
  /-- A sprite that is not inside memory. -/
  | draw (hpc : m.pc < 0xFFF) (hw : m.word.fits "Dxyn") (hi : 4096 < m.index + m.word.n.val) :
    Refuses m (.addressOutOfRange 0x1000)
  /-- No room for three digits. -/
  | decimal (hpc : m.pc < 0xFFF) (hw : m.word.fits "Fx33") (hi : 4096 < m.index + 3) :
    Refuses m (.addressOutOfRange 0x1000)
  /-- No room for the registers, or not so many bytes to read. -/
  | transfer (hpc : m.pc < 0xFFF) (hw : m.word.fits "Fx55" ∨ m.word.fits "Fx65")
    (hi : 4096 < m.index + m.word.x.val + 1) :
    Refuses m (.addressOutOfRange 0x1000)

theorem Bounded.blockObstacle_eq_some_iff (h : m.Bounded) {length : Nat} :
    m.blockObstacle length = some f ↔
      4096 < m.index + length ∧ f = .addressOutOfRange 0x1000 := by
  have hmax : max m.index Memory.size = 0x1000 :=
    Nat.max_eq_right (Nat.le_trans h.index (by decide))
  rw [blockObstacle, hmax]
  by_cases hi : Memory.size < m.index + length
  · rw [if_pos hi, Option.some_inj]
    constructor
    · rintro rfl
      exact ⟨hi, rfl⟩
    · rintro ⟨-, rfl⟩
      rfl
  · rw [if_neg hi]
    constructor
    · intro hf
      cases hf
    · rintro ⟨hi', -⟩
      exact absurd hi' hi

/-- What stands in the way of a decoded instruction is a reason to refuse its word. -/
theorem Bounded.refuses_of_obstacle (h : m.Bounded) (hpc : m.pc < 0xFFF) {i : Instruction}
    (hd : Instruction.decode? m.word = some i) (ho : m.obstacle i = some f) : m.Refuses f := by
  have hw : i.encode = m.word := Instruction.decode?_eq_some_iff.1 hd
  cases i with
  | ret =>
    by_cases hs : m.stack.depth = 0
    · obtain rfl := Option.some.inj ((if_pos hs).symm.trans ho)
      exact .ret hpc (hw ▸ Instruction.fits_encode_ret) hs
    · cases (if_neg hs).symm.trans ho
  | call a =>
    by_cases hs : 16 ≤ m.stack.depth
    · obtain rfl := Option.some.inj ((if_pos hs).symm.trans ho)
      exact .call hpc (hw ▸ Instruction.fits_encode_call a) (Nat.le_antisymm h.depth hs)
    · cases (if_neg hs).symm.trans ho
  | draw x y height =>
    obtain ⟨hi, rfl⟩ := h.blockObstacle_eq_some_iff.1 ho
    obtain ⟨hfits, hn⟩ := Instruction.fits_encode_draw x y height
    rw [hw] at hfits hn
    exact .draw hpc hfits (hn ▸ hi)
  | decimal x =>
    obtain ⟨hi, rfl⟩ := h.blockObstacle_eq_some_iff.1 ho
    exact .decimal hpc (hw ▸ Instruction.fits_encode_decimal x) hi
  | store x =>
    obtain ⟨hi, rfl⟩ := h.blockObstacle_eq_some_iff.1 ho
    obtain ⟨hfits, hx⟩ := Instruction.fits_encode_store x
    rw [hw] at hfits hx
    exact .transfer hpc (.inl hfits) (hx ▸ hi)
  | load x =>
    obtain ⟨hi, rfl⟩ := h.blockObstacle_eq_some_iff.1 ho
    obtain ⟨hfits, hx⟩ := Instruction.fits_encode_load x
    rw [hw] at hfits hx
    exact .transfer hpc (.inr hfits) (hx ▸ hi)
  | _ => cases ho

theorem step_error_of_obstacle (hk : m.keyWait = none) (hpc : m.pc < 0xFFF) (pattern : String)
    (meaning : Word → Instruction) (hmem : (pattern, meaning) ∈ Instruction.table)
    (hw : m.word.fits pattern) (ho : m.obstacle (meaning m.word) = some f) :
    m.step.1 = .error f := by
  have hd : Instruction.decode? m.word = some (meaning m.word) :=
    Instruction.decode?_of_fits _ hmem hw
  have ho' : m.fetched.obstacle (meaning m.word) = some f := ho
  rw [(Stepped.fails hk (Nat.succ_lt_succ hpc) hd (execute_eq_error_iff.2 ho')).step_eq]

theorem Bounded.step_error_iff (h : m.Bounded) :
    m.step.1 = .error f ↔ m.keyWait = none ∧ m.Refuses f := by
  constructor
  · intro hf
    have hs := m.stepped
    generalize m.step = ending at hs hf
    cases hs with
    | waits => cases hf
    | completes => cases hf
    | executes => cases hf
    | outside hk hpc =>
      obtain rfl := Except.error.inj hf
      exact ⟨hk, .fetch (Nat.le_of_succ_le_succ hpc)⟩
    | unsupported hk hpc hd =>
      obtain rfl := Except.error.inj hf
      refine ⟨hk, .unsupported (Nat.lt_of_succ_lt_succ hpc) ?_⟩
      exact Instruction.decode?_eq_none_iff_table.1 hd
    | @fails i g hk hpc hd he =>
      obtain rfl := Except.error.inj hf
      refine ⟨hk, h.refuses_of_obstacle (Nat.lt_of_succ_lt_succ hpc) hd ?_⟩
      exact (execute_eq_error_iff.1 he : m.fetched.obstacle i = some _)
  · rintro ⟨hk, hr⟩
    cases hr with
    | fetch hpc =>
      rw [step_of_running hk, stepRunning_of_le (Nat.succ_le_succ hpc)]
      rfl
    | unsupported hpc hw =>
      have hd := Instruction.decode?_eq_none_iff_table.2 hw
      rw [step_of_running hk, stepRunning_of_lt (Nat.succ_lt_succ hpc), perform_of_decode?_none hd]
    | ret hpc hw hs =>
      refine step_error_of_obstacle hk hpc "00EE" (fun _ => .ret) ?_ hw (if_pos hs)
      simp [Instruction.table]
    | call hpc hw hs =>
      refine step_error_of_obstacle hk hpc "2nnn" (fun w => .call w.nnn) ?_ hw ?_
      · simp [Instruction.table]
      · exact if_pos (Nat.le_of_eq hs.symm)
    | draw hpc hw hi =>
      refine step_error_of_obstacle hk hpc "Dxyn" (fun w => .draw w.x w.y w.n) ?_ hw ?_
      · simp [Instruction.table]
      · exact h.blockObstacle_eq_some_iff.2 ⟨hi, rfl⟩
    | decimal hpc hw hi =>
      refine step_error_of_obstacle hk hpc "Fx33" (fun w => .decimal w.x) ?_ hw ?_
      · simp [Instruction.table]
      · exact h.blockObstacle_eq_some_iff.2 ⟨hi, rfl⟩
    | transfer hpc hw hi =>
      have ho : m.blockObstacle (m.word.x.val + 1) = some (.addressOutOfRange 0x1000) :=
        h.blockObstacle_eq_some_iff.2 ⟨hi, rfl⟩
      rcases hw with hw | hw
      · refine step_error_of_obstacle hk hpc "Fx55" (fun w => .store w.x) ?_ hw ho
        simp [Instruction.table]
      · refine step_error_of_obstacle hk hpc "Fx65" (fun w => .load w.x) ?_ hw ho
        simp [Instruction.table]

/-- **A step of a reachable machine fails exactly for the reasons of `Refuses`**, and only if no
key is waited for.  So it never complains of a program or a key, and its fault is not fatal exactly
if the word fits no pattern. -/
theorem failure_exact (h : m.Reachable) :
    (∀ f, m.step.1 = .error f ↔ m.keyWait = none ∧ m.Refuses f) ∧
    (∀ f, m.step.1 = .error f →
      (∀ size limit, f ≠ .programTooLarge size limit) ∧ (∀ k, f ≠ .invalidKey k) ∧
      (f.isFatal = false ↔
        m.pc < 0xFFF ∧ ∀ entry ∈ Instruction.table, ¬ m.word.fits entry.1)) := by
  refine ⟨fun f => h.bounded.step_error_iff, ?_⟩
  intro f hf
  obtain ⟨hk, hr⟩ := h.bounded.step_error_iff.1 hf
  refine ⟨?_, ?_, ?_⟩
  · rintro size limit rfl
    cases hr
  · rintro k rfl
    cases hr
  · constructor
    · intro hfatal
      cases hr with
      | unsupported hpc hw => exact ⟨hpc, hw⟩
      | _ => cases hfatal
    · rintro ⟨hpc, hw⟩
      have hu : m.step.1 = .error (.unsupportedOpcode m.word) :=
        h.bounded.step_error_iff.2 ⟨hk, .unsupported hpc hw⟩
      obtain rfl := Except.error.inj (hf.symm.trans hu)
      rfl

/-- A subroutine draws a glyph and returns to a second return, which has no call left. -/
theorem failure_exact_return :
    let m := ((fresh {} (.ofList [])).run
      (.load [0x6A, 0x07, 0x22, 0x06, 0x00, 0xEE, 0xA0, 0x50, 0xD0, 0x05, 0x00, 0xEE] ::
        List.replicate 5 .step)).2
    (m.registers.read 10 = 7 ∧ m.stack.frames = [] ∧ m.screen.pixel 0 0 = true) ∧
    m.Reachable ∧ m.step.1 = .error .stackUnderflow ∧ m.Refuses .stackUnderflow ∧
    ¬ ∀ entry ∈ Instruction.table, ¬ m.word.fits entry.1 := by
  intro m
  have hm : m.Reachable := (Reachable.fresh {} (.ofList [])).run _
  obtain ⟨hstate, hpc, hstep⟩ :
      (m.registers.read 10 = 7 ∧ m.stack.frames = [] ∧ m.screen.pixel 0 0 = true) ∧
        m.pc = 0x204 ∧ m.step.1 = .error .stackUnderflow := by
    decide +kernel
  obtain ⟨hiff, hkind⟩ := failure_exact hm
  obtain ⟨-, hr⟩ := (hiff .stackUnderflow).1 hstep
  obtain ⟨-, -, hfatal⟩ := hkind _ hstep
  refine ⟨hstate, hm, hstep, hr, ?_⟩
  intro hw
  -- a word that fits no pattern would make a fault that is not fatal
  cases hfatal.2 ⟨by rw [hpc]; decide, hw⟩

end Machine

end Chip8

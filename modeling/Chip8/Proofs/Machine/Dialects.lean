import Chip8.Proofs.Machine.Dependence

/-!
# One history in two dialects

Two machines that differ in nothing but their dialects are taken through the same history.  Which
instructions the two dialects treat differently is said by `Dialect.disputes`: those that are
governed by a choice in which the dialects differ.  Until a step carries out one of them, nobody can
tell the machines apart; and that step still says the same of both and leaves a difference in the
parts of `Instruction.swayed` at most.

What stands in the way of an instruction has nothing to do with the dialect, so an instruction in
dispute makes no difference either as long as it fails.

* `Machine.dialect_run` : no history changes the dialect;
* `Machine.agrees_effect_withDialect`, `Machine.effect_withDialect` : one instruction in two
  dialects, in dispute or not;
* `Machine.step_withDialect`, `Machine.handle_withDialect` : one step and one event;
* **`Machine.dialect_isolation`** : histories, and the step that first makes a difference.
-/

namespace Chip8

/-- Whether an instruction is governed by a choice in which two dialects differ.  For a shift of a
register by itself there is nothing to choose. -/
def Dialect.disputes (d e : Dialect) : Instruction → Bool
  | .combine .shiftRight x y | .combine .shiftLeft x y =>
    x != y && d.shiftReadsVy != e.shiftReadsVy
  | .combine .or _ _ | .combine .and _ _ | .combine .xor _ _ =>
    d.logicResetsFlag != e.logicResetsFlag
  | .store _ | .load _ => d.loadStoreAdvancesIndex != e.loadStoreAdvancesIndex
  | _ => false

/-- The parts in which an instruction may leave something else in another dialect. -/
def Instruction.swayed : Instruction → List Part
  | .combine .shiftRight x _ | .combine .shiftLeft x _ => [.register x, .register Register.flag]
  | .combine .or _ _ | .combine .and _ _ | .combine .xor _ _ => [.register Register.flag]
  | .store _ | .load _ => [.index]
  | _ => []

/-- The same machine in another dialect. -/
def Machine.withDialect (m : Machine) (d : Dialect) : Machine :=
  { m with dialect := d }

/-- The same moment in another dialect. -/
def Moment.withDialect (s : Moment) (d : Dialect) : Moment :=
  ⟨s.machine.withDialect d, s.event⟩

namespace Machine

variable {m : Machine} {d : Dialect} {e : Event} {i : Instruction} {p : Part}

/-! ### The dialect of a machine -/

theorem registers_withDialect (m : Machine) (d : Dialect) :
    (m.withDialect d).registers = m.registers := rfl

theorem dialect_effect (m : Machine) (i : Instruction) : (m.effect i).dialect = m.dialect := by
  cases i <;> rfl

theorem dialect_step (m : Machine) : m.step.2.dialect = m.dialect :=
  step_keeps dialect rfl (fun _ _ => rfl) fun i _ => dialect_effect m.fetched i

theorem dialect_handle (m : Machine) (e : Event) : (m.handle e).2.dialect = m.dialect := by
  by_cases hs : e = .step
  · subst hs
    exact m.dialect_step
  · exact (m.handle_of_ne_step hs).1

theorem dialect_run (m : Machine) (history : List Event) :
    (m.run history).2.dialect = m.dialect :=
  run_induct (P := fun n => n.dialect = m.dialect) (fun n e h => (n.dialect_handle e).trans h) rfl
    history

/-! ### Instructions -/

theorem obstacle_withDialect (m : Machine) (d : Dialect) (i : Instruction) :
    (m.withDialect d).obstacle i = m.obstacle i := by
  cases i <;> rfl

theorem agrees_of_not_disputes {f : Operation} {x y : Register}
    (h : m.dialect.disputes d (.combine f x y) = false) :
    ∀ p ∈ f.switches x y, m.Agrees (m.withDialect d) p := by
  cases f with
  | copy | add | sub | subFrom => exact fun p hp => absurd hp List.not_mem_nil
  | or | and | xor =>
    intro p hp
    obtain rfl := List.mem_singleton.1 hp
    exact bne_eq_false_iff_eq.1 h
  | shiftRight | shiftLeft =>
    intro p hp
    by_cases hxy : x = y
    · simp [Operation.switches, hxy] at hp
    · obtain rfl : p = .shiftReadsVy := by simpa [Operation.switches, hxy] using hp
      have hsame : m.dialect.shiftReadsVy = d.shiftReadsVy := by
        simpa [Dialect.disputes, hxy] using h
      exact hsame

theorem read_combine_withDialect {f : Operation} {x y r : Register}
    (h : .register r ∉ (Instruction.combine f x y).swayed) :
    ((m.withDialect d).combine f x y).registers.read r = (m.combine f x y).registers.read r := by
  cases f with
  | copy | add | sub | subFrom => rfl
  | or | and | xor =>
    have hr : r ≠ Register.flag := fun hr => h (by simp [Instruction.swayed, hr])
    rw [read_combine_of_ne _ _ _ _ hr, read_combine_of_ne _ _ _ _ hr]
    rfl
  | shiftRight | shiftLeft =>
    have hr : r ≠ Register.flag := fun hr => h (by simp [Instruction.swayed, hr])
    have hx : r ≠ x := fun hx => h (by simp [Instruction.swayed, hx])
    rw [read_combine_of_ne _ _ _ _ hr, read_combine_of_ne _ _ _ _ hr, if_neg hx, if_neg hx]
    rfl

/-- In another dialect an instruction leaves the same in all parts that it does not list. -/
theorem agrees_effect_withDialect (m : Machine) (d : Dialect) (h : p ∉ i.swayed) :
    ((m.withDialect d).effect i).Agrees ((m.effect i).withDialect d) p := by
  cases i with
  | skip c => cases c <;> exact .refl _ p
  | combine f x y =>
    cases p with
    | register r => exact read_combine_withDialect h
    | _ => rfl
  | store x | load x =>
    cases p with
    | index => exact absurd (List.mem_singleton_self _) h
    | _ => rfl
  | _ => exact .refl _ p

theorem effect_withDialect (h : m.dialect.disputes d i = false) :
    (m.withDialect d).effect i = (m.effect i).withDialect d := by
  cases i with
  | skip c => cases c <;> rfl
  | combine f x y =>
    obtain ⟨hresult, hflag⟩ :=
      operation_congr (n := m.withDialect d) (agrees_of_not_disputes h) m.registers
    have hregisters : ((m.withDialect d).combine f x y).registers =
        (m.combine f x y).registers := by
      rw [registers_combine, registers_combine]
      dsimp only
      rw [hresult, hflag]
      rfl
    rw [effect, hregisters]
    rfl
  | store x | load x =>
    have hswitch : m.dialect.loadStoreAdvancesIndex = d.loadStoreAdvancesIndex :=
      bne_eq_false_iff_eq.1 h
    have hindex : (m.withDialect d).indexPast (x.val + 1) = m.indexPast (x.val + 1) :=
      indexPast_congr (m := m.withDialect d) (n := m) rfl hswitch.symm _
    rw [effect, hindex]
    rfl
  | _ => rfl

/-! ### Steps and events -/

/-- A step says the same in every dialect, and what it leaves differs only where the effect of the
instruction does that it carries out. -/
theorem step_withDialect (m : Machine) (d : Dialect) :
    (m.withDialect d).step.1 = m.step.1 ∧
      ∀ p, (∀ i, m.step.1 = .ok (.executed i) →
          ((m.fetched.withDialect d).effect i).Agrees ((m.fetched.effect i).withDialect d) p) →
        (m.withDialect d).step.2.Agrees (m.step.2.withDialect d) p := by
  have hs := m.stepped
  generalize m.step = ending at hs ⊢
  cases hs with
  | waits hw hp =>
    rw [(Stepped.waits (m := m.withDialect d) hw hp).step_eq]
    exact ⟨rfl, fun p _ => .refl _ p⟩
  | completes hw hp =>
    rw [(Stepped.completes (m := m.withDialect d) hw hp).step_eq]
    exact ⟨rfl, fun p _ => .refl _ p⟩
  | outside hw hpc =>
    rw [(Stepped.outside (m := m.withDialect d) hw hpc).step_eq]
    exact ⟨rfl, fun p _ => .refl _ p⟩
  | unsupported hw hpc hd =>
    rw [(Stepped.unsupported (m := m.withDialect d) hw hpc hd).step_eq]
    exact ⟨rfl, fun p _ => .refl _ p⟩
  | fails hw hpc hd he =>
    have ho := (obstacle_withDialect m.fetched d _).trans (execute_eq_error_iff.1 he)
    rw [(Stepped.fails (m := m.withDialect d) hw hpc hd (execute_eq_error_iff.2 ho)).step_eq]
    exact ⟨rfl, fun p _ => .refl _ p⟩
  | executes hw hpc hd he =>
    obtain ⟨ho, rfl⟩ := execute_eq_ok_iff.1 he
    have ho' := (obstacle_withDialect m.fetched d _).trans ho
    rw [(Stepped.executes (m := m.withDialect d) hw hpc hd
      (execute_eq_ok_iff.2 ⟨ho', rfl⟩)).step_eq]
    exact ⟨rfl, fun p hp => hp _ rfl⟩

/-- Where there is no dispute about a step, it leaves the same in both dialects. -/
theorem step_withDialect_of_not_disputes
    (hquiet : ∀ i, m.step.1 = .ok (.executed i) → m.dialect.disputes d i = false) :
    (m.withDialect d).step = (m.step.1, m.step.2.withDialect d) := by
  obtain ⟨hresult, hleft⟩ := m.step_withDialect d
  refine Prod.ext hresult (ext_agrees fun p => hleft p fun i hi => ?_)
  have heffect : (m.fetched.withDialect d).effect i = (m.fetched.effect i).withDialect d :=
    effect_withDialect (hquiet i hi)
  rw [heffect]
  exact .refl _ p

theorem handle_withDialect
    (hquiet : ∀ i, (⟨m, e⟩ : Moment).executed? = some i → m.dialect.disputes d i = false) :
    (m.withDialect d).handle e = ((m.handle e).1, (m.handle e).2.withDialect d) := by
  by_cases hs : e = .step
  · subst hs
    rw [handle, step_withDialect_of_not_disputes fun i hi =>
      hquiet i (executed?_eq_some_iff.2 ⟨rfl, hi⟩)]
    rfl
  · refine (m.handle_with_of_ne_step d m.random hs).trans ?_
    rw [← (m.handle_of_ne_step hs).2]
    rfl

/-! ### Histories -/

/-- As long as there is no dispute, a history comes to the same in both dialects, and the machines
are the same but for the dialect in each of its moments. -/
theorem run_withDialect {history : List Event}
    (hquiet : ∀ s ∈ m.moments history, ∀ i, s.executed? = some i →
      m.dialect.disputes d i = false) :
    (m.withDialect d).run history = ((m.run history).1, (m.run history).2.withDialect d) ∧
      (m.withDialect d).moments history = (m.moments history).map (·.withDialect d) := by
  induction history generalizing m with
  | nil => exact ⟨rfl, rfl⟩
  | cons e rest ih =>
    have hhandle : (m.withDialect d).handle e = ((m.handle e).1, (m.handle e).2.withDialect d) :=
      handle_withDialect (hquiet _ List.mem_cons_self)
    obtain ⟨hrun, hmoments⟩ := ih (m := (m.handle e).2) (by
      rw [m.dialect_handle e]
      exact fun s hs => hquiet s (List.mem_cons_of_mem _ hs))
    rw [run_cons, run_cons, moments, moments, hhandle, hrun, hmoments]
    exact ⟨rfl, rfl⟩

/-- **Dialects differ only where an instruction asks for them.**  Let two machines differ in nothing
but their dialects, and let no step of a history carry out an instruction that is in dispute between
the two.  Then both get the same replies, and in each moment and at the end they differ in nothing
but their dialects.  The next step says the same of both, too; and whatever instruction it carries
out, in dispute or not, afterwards they differ at most in the parts that this instruction lists, and
in their dialects. -/
theorem dialect_isolation (m : Machine) (d : Dialect) (history : List Event)
    (hquiet : ∀ s ∈ m.moments history, ∀ i, s.executed? = some i →
      m.dialect.disputes d i = false) :
    let n := m.withDialect d
    let last := (m.run history).2
    n.run history = ((m.run history).1, last.withDialect d) ∧
    n.moments history = (m.moments history).map (·.withDialect d) ∧
    (last.withDialect d).step.1 = last.step.1 ∧
    ∀ i, last.step.1 = .ok (.executed i) → ∀ p, p ∉ i.swayed →
      (last.withDialect d).step.2.Agrees (last.step.2.withDialect d) p := by
  intro n last
  obtain ⟨hrun, hmoments⟩ := run_withDialect hquiet
  obtain ⟨hresult, hleft⟩ := last.step_withDialect d
  refine ⟨hrun, hmoments, hresult, fun i hi p hp => hleft p fun j hj => ?_⟩
  obtain rfl : i = j := by
    rw [hi] at hj
    exact Outcome.executed.inj (Except.ok.inj hj)
  exact agrees_effect_withDialect _ d hp

/-- Two registers cannot be stored at the last byte, so that this is in dispute makes no difference;
the shift behind it makes one. -/
theorem dialect_isolation_shift :
    let program : List UInt8 := [0xF1, 0x55, 0x81, 0x26]
    let history : List Event := [.step, .tick]
    let shift : Instruction := .combine .shiftRight 1 2
    let m := { fresh {} (.ofList []) with
      memory := Memory.fresh.place Memory.programStart program, index := 0xFFF,
      registers := (Registers.zero.write 1 5).write 2 8 }
    let d : Dialect := ⟨true, true, true⟩
    let last := (m.run history).2
    let other := ((m.withDialect d).run history).2
    (∀ s ∈ m.moments history, ∀ i, s.executed? = some i → m.dialect.disputes d i = false) ∧
      ((m.withDialect d).run history).1 = (m.run history).1 ∧ other = last.withDialect d ∧
      m.dialect.disputes d (.store 1) = true ∧ m.dialect.disputes d shift = true ∧
      last.step.1 = .ok (.executed shift) ∧ other.step.1 = .ok (.executed shift) ∧
      last.step.2.registers.read 1 = 2 ∧ other.step.2.registers.read 1 = 4 ∧
      other.step.2.registers.read 2 = last.step.2.registers.read 2 := by
  intro program history shift m d last other
  have hmem : m.memory = Memory.fresh.place Memory.programStart program := rfl
  have hfits : Memory.programStart + program.length ≤ Memory.size := by decide
  have hpc : m.pc = Memory.programStart := rfl
  have hindex : m.index = 0xFFF := rfl
  have hw : m.keyWait = none := rfl
  have hregisters : m.registers.read 1 = 5 ∧ m.registers.read 2 = 8 := by decide
  have hdialect : m.dialect = {} := rfl
  -- the rest of the machine does not matter
  clear_value m
  let m₁ := m.fetched.tick
  have hfirst : m.step = (.error (.addressOutOfRange 0x1000), m.fetched) := by
    have ha : m.attempted = some (.store 1) :=
      attempted_of_program (k := 0) hmem hfits hpc (by decide) (by decide)
    have ho : m.fetched.obstacle (.store 1) = some (.addressOutOfRange 0x1000) := by
      show m.blockObstacle 2 = _
      rw [blockObstacle, hindex]
      rfl
    rw [step_eq_attempt hw ha, attempt_of_some ho]
  have hsecond : ∀ e, (m₁.withDialect e).step =
      (.ok (.executed shift), (m₁.withDialect e).fetched.effect shift) := fun e =>
    step_of_program (k := 2) hmem hfits hw (congrArg (· + 2) hpc) (by decide) (by decide) rfl
  have hread : ∀ e, (m₁.withDialect e).step.2.registers.read 1 =
      Operation.shifted e 5 8 >>> 1 := by
    intro e
    rw [hsecond, ← hregisters.1, ← hregisters.2]
    exact read_combine_of_ne _ _ _ _ (by decide)
  have hquiet : ∀ s ∈ m.moments history, ∀ i, s.executed? = some i →
      m.dialect.disputes d i = false := by
    have hmoments : m.moments history = [⟨m, .step⟩, ⟨(m.handle .step).2, .tick⟩] := rfl
    rw [hmoments, List.forall_mem_cons, List.forall_mem_singleton]
    constructor
    · intro i hi
      have hfailed := (congrArg Prod.fst hfirst).symm.trans (executed?_eq_some_iff.1 hi).2
      cases hfailed
    · intro i hi
      cases (executed?_eq_some_iff.1 hi).1
  have hlast : last = m₁.withDialect m.dialect := by
    show m.step.2.tick = m₁
    rw [hfirst]
  obtain ⟨hrun, -, hresult, hleft⟩ := dialect_isolation m d history hquiet
  have hother : other = last.withDialect d := congrArg Prod.snd hrun
  have hshift : last.step.1 = .ok (.executed shift) := by rw [hlast, hsecond]
  refine ⟨hquiet, by rw [hrun], hother, ?_, ?_, hshift, ?_, ?_, ?_, ?_⟩
  · rw [hdialect]
    rfl
  · rw [hdialect]
    rfl
  · rw [hother]
    exact hresult.trans hshift
  · rw [hlast, hread, hdialect]
    rfl
  · rw [hother, hlast]
    exact (hread d).trans (by decide)
  · rw [hother, ← registers_withDialect last.step.2 d]
    exact hleft shift hshift (.register 2) (by decide)

end Machine

end Chip8

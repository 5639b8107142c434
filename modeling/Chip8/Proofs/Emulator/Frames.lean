import Chip8.Emulator
import Chip8.Proofs.Machine.Independence
import Chip8.Proofs.StepBudget

/-!
# Frames in a row

A frame that nothing ends early is a tick and the steps of its budget
(`Emulator.frame_of_next?`).  Frames in a row are therefore a history of steps and ticks, and as
the order of these does not matter while the timers are left alone, the machine they leave is that
of all the steps followed by all the ticks.

* `Emulator.frames_interleave` : frames in a row as a history of the machine, with the number of
  its steps;
* **`Emulator.frames_refine_machine`** : frames in a row against the plain machine, and two rates
  against each other.
-/

namespace Chip8

namespace Emulator

open Machine

variable {e : Emulator} {k : Nat}

/-- The results of the steps that the next frame makes. -/
def frameResults (e : Emulator) : List StepResult :=
  match e.budget.next? with
  | none => []
  | some (steps, _) => (e.machine.tick.trace e.endsFrame steps.toNat).1

/-- The emulator after `k` frames with nothing done in between. -/
def afterFrames (e : Emulator) : Nat → Emulator
  | 0 => e
  | k + 1 => e.frame.emulator.afterFrames k

/-- The results of the steps that the next `k` frames make. -/
def results (e : Emulator) : Nat → List StepResult
  | 0 => []
  | k + 1 => e.frameResults ++ e.frame.emulator.results k

/-- In the next `k` frames no step halts or waits, and the timers are left to the frames. -/
structure Undisturbed (e : Emulator) (k : Nat) : Prop where
  /-- No frame halts for a fault. -/
  works : ∀ j < k, ∀ f, (e.afterFrames j).frame.halt ≠ some (.fault f)
  /-- No step waits for a key. -/
  runs : .ok .waitingForKey ∉ e.results k
  /-- No step executes an instruction that uses the timers. -/
  leaves : ∀ i, .ok (.executed i) ∈ e.results k → i.usesTimers = false

theorem Undisturbed.tail (h : e.Undisturbed (k + 1)) : e.frame.emulator.Undisturbed k where
  works j hj := h.works (j + 1) (Nat.succ_lt_succ hj)
  runs hmem := h.runs (List.mem_append_right _ hmem)
  leaves i hi := h.leaves i (List.mem_append_right _ hi)

/-! ### One frame -/

/-- A frame whose budget can be told is a tick, the trace of its steps, and the budget after it. -/
theorem frame_of_next? {steps : UInt64} {b : StepBudget}
    (h : e.budget.next? = some (steps, b)) :
    e.frameResults = (e.machine.tick.trace e.endsFrame steps.toNat).1 ∧
      e.frame.emulator =
        { e with machine := (e.machine.tick.trace e.endsFrame steps.toNat).2, budget := b } ∧
      e.frame.halt = e.haltOf e.frameResults := by
  rw [frameResults, frame, h]
  exact ⟨rfl, rfl, rfl⟩

theorem haltOf_eq_none {results : List StepResult}
    (h : ∀ r ∈ results, e.endsFrame r = false) : e.haltOf results = none := by
  unfold haltOf
  split
  · next f hlast =>
    have hf : e.halts f = false := h _ (List.mem_of_getLast? hlast)
    rw [hf]
    rfl
  · rfl

theorem endsFrame_eq_false {m : Machine} {n : Nat}
    (hworks : ∀ f, e.haltOf (m.trace e.endsFrame n).1 ≠ some (.fault f))
    (hruns : .ok .waitingForKey ∉ (m.trace e.endsFrame n).1) :
    ∀ r ∈ (m.trace e.endsFrame n).1, e.endsFrame r = false := by
  intro r hr
  cases hends : e.endsFrame r with
  | false => rfl
  | true =>
    have hlast := getLast?_trace hr hends
    match r with
    | .ok (.executed i) => cases hends
    | .ok .waitingForKey => exact absurd hr hruns
    | .error f =>
      refine absurd ?_ (hworks f)
      rw [haltOf, hlast]
      exact if_pos hends

/-- A frame that is not ended early is a tick and the steps of its budget. -/
theorem frame_of_not_ends {steps : UInt64} {b : StepBudget}
    (hb : e.budget.next? = some (steps, b)) (hworks : ∀ f, e.frame.halt ≠ some (.fault f))
    (hruns : .ok .waitingForKey ∉ e.frameResults) :
    let history := Event.tick :: List.replicate steps.toNat .step
    e.frameResults = e.machine.stepResults history ∧
      e.frame.emulator = { e with machine := (e.machine.run history).2, budget := b } ∧
      e.frame.halt = none := by
  intro history
  obtain ⟨hresults, hafter, hhalt⟩ := frame_of_next? hb
  rw [hhalt, hresults] at hworks
  rw [hresults] at hruns
  have hends := endsFrame_eq_false hworks hruns
  have htrace := trace_of_not_ends hends
  refine ⟨?_, ?_, ?_⟩
  · rw [hresults, htrace, stepResults_tick]
  · rw [hafter, htrace, run_tick]
  · rw [hhalt, hresults]
    exact haltOf_eq_none hends

/-! ### Frames in a row -/

/-- **Undisturbed frames in a row are a history of steps and ticks**, one tick for each frame and a
step for each sixtieth of what the rate comes to. -/
theorem frames_interleave (hb : e.budget.Safe) (h : e.Undisturbed k) :
    (∀ j < k, (e.afterFrames j).frame.halt = none) ∧
      ∃ history,
        Interleaves ((e.budget.carry.toNat + k * e.budget.rate.toNat) / 60) k history ∧
        e.results k = e.machine.stepResults history ∧
        (e.afterFrames k).machine = (e.machine.run history).2 := by
  induction k generalizing e with
  | zero =>
    have hnone : (e.budget.carry.toNat + 0 * e.budget.rate.toNat) / 60 = 0 := by
      have := hb.carry_lt
      omega
    rw [hnone]
    exact ⟨fun j hj => absurd hj (Nat.not_lt_zero j), [], ⟨nofun, rfl, rfl⟩, rfl, rfl⟩
  | succ k ih =>
    obtain ⟨steps, b, hnext, hsafe, hrate, hsteps, hcarry⟩ := hb.next?
    have hruns : .ok .waitingForKey ∉ e.frameResults :=
      fun hmem => h.runs (List.mem_append_left _ hmem)
    obtain ⟨hresults, hafter, hhalt⟩ := frame_of_not_ends hnext (h.works 0 (Nat.succ_pos k)) hruns
    have hbudget : e.frame.emulator.budget = b := by rw [hafter]
    have hmachine : e.frame.emulator.machine =
        (e.machine.run (.tick :: List.replicate steps.toNat .step)).2 := by rw [hafter]
    obtain ⟨hhalts, history, hi, hrest, hlast⟩ := ih (hbudget ▸ hsafe) h.tail
    rw [hbudget, hrate, hcarry] at hi
    rw [hmachine] at hrest hlast
    refine ⟨?_, .tick :: List.replicate steps.toNat .step ++ history, ?_, ?_, ?_⟩
    · intro j hj
      cases j with
      | zero => exact hhalt
      | succ j => exact hhalts j (Nat.lt_of_succ_lt_succ hj)
    · have hall := ((interleaves_ticks 1).append (interleaves_steps steps.toNat)).append hi
      -- what is carried over counts in the frames to come
      have hsum : 0 + steps.toNat + ((e.budget.carry.toNat + e.budget.rate.toNat) % 60 +
          k * e.budget.rate.toNat) / 60 =
          (e.budget.carry.toNat + (k + 1) * e.budget.rate.toNat) / 60 := by
        rw [hsteps, Nat.succ_mul]
        omega
      rw [hsum, Nat.add_zero, Nat.add_comm 1 k] at hall
      exact hall
    · rw [results, hresults, hrest, stepResults_append]
    · rw [afterFrames, hlast, run_append]

/-! ### Against the plain machine -/

theorem boot_eq_ok {program : List UInt8} {e' : Emulator} {log : List Record}
    (h : e.boot (.ok program) = .ok (e', log)) :
    ∃ m, e.machine.load program = .ok m ∧ e' = { e with machine := m } := by
  cases hload : e.machine.load program with
  | error f =>
    simp only [boot, hload] at h
    cases h
  | ok m =>
    simp only [boot, hload] at h
    cases h
    exact ⟨m, rfl, rfl⟩

/-- Steps in a row, and then ticks. -/
def stepsThenTicks (steps ticks : Nat) : List Event :=
  List.replicate steps .step ++ List.replicate ticks .tick

theorem interleaves_stepsThenTicks (steps ticks : Nat) :
    Interleaves steps ticks (stepsThenTicks steps ticks) := by
  have h := (interleaves_steps steps).append (interleaves_ticks ticks)
  rwa [Nat.add_zero, Nat.zero_add] at h

theorem run_ticks (m : Machine) (k : Nat) :
    ∃ timers, (m.run (List.replicate k .tick)).2 = { m with timers := timers } := by
  induction k generalizing m with
  | zero => exact ⟨m.timers, rfl⟩
  | succ k ih =>
    obtain ⟨timers, hrest⟩ := ih m.tick
    exact ⟨timers, by rw [List.replicate_succ, run_tick, hrest]; rfl⟩

/-- After all their steps, ticks make no difference but to the timers. -/
theorem run_stepsThenTicks (m : Machine) (steps ticks ticks' : Nat) :
    ∃ timers, (m.run (stepsThenTicks steps ticks')).2 =
      { (m.run (stepsThenTicks steps ticks)).2 with timers := timers } := by
  obtain ⟨before, hbefore⟩ := run_ticks (m.run (List.replicate steps .step)).2 ticks
  obtain ⟨after, hafter⟩ := run_ticks (m.run (List.replicate steps .step)).2 ticks'
  refine ⟨after, ?_⟩
  rw [stepsThenTicks, stepsThenTicks, run_append, run_append, hbefore, hafter]

/-- What an emulator that was started with a program does in undisturbed frames, a plain machine
with the program does in as many steps and ticks. -/
theorem frames_of_boot {settings : Settings} {unseeded : RandomSource} {program : List UInt8}
    {log : List Record} (hboot : (ofSettings settings unseeded).boot (.ok program) = .ok (e, log))
    (hrate : settings.rate.toNat ≤ 2 ^ 64 - 60) (h : e.Undisturbed k) :
    (∀ j < k, (e.afterFrames j).frame.halt = none) ∧
    (e.results k).length = k * settings.rate.toNat / 60 ∧
    ∃ m, (Machine.fresh settings.dialect (settings.seed.elim unseeded .ofSeed)).load program =
        .ok m ∧
      e.results k = m.stepResults (stepsThenTicks (k * settings.rate.toNat / 60) k) ∧
      (e.afterFrames k).machine =
        (m.run (stepsThenTicks (k * settings.rate.toNat / 60) k)).2 := by
  obtain ⟨m, hload, rfl⟩ := boot_eq_ok hboot
  obtain ⟨hhalts, history, hi, hresults, hlast⟩ :=
    frames_interleave (StepBudget.safe_ofRate hrate) h
  have hcount : Interleaves (k * settings.rate.toNat / 60) k history := by
    have hzero : (StepBudget.ofRate settings.rate).carry.toNat = 0 := rfl
    rw [show (ofSettings settings unseeded).budget = .ofRate settings.rate from rfl, hzero,
      Nat.zero_add] at hi
    exact hi
  have hquiet : m.LeavesTimers history := fun i hmem => h.leaves i (hresults ▸ hmem)
  have hplain := interleaves_stepsThenTicks (k * settings.rate.toNat / 60) k
  obtain ⟨hsame, hend⟩ := run_perm (hcount.perm hplain) hcount.only hquiet
  refine ⟨hhalts, ?_, m, hload, ?_, ?_⟩
  · rw [hresults, length_stepResults, hcount.steps]
  · rw [hresults, hsame]
  · rw [hlast, hend]

/-- **Frames refine the plain machine.**  Let an emulator be started with a program at a rate up to
`2 ^ 64 - 60`, and let `k` frames follow in which no step waits or halts and the timers are left
alone.  No frame fails, the frames make `k * rate / 60` steps, skipped words included, and both
the results of the steps and the machine are those of a plain machine with the same dialect, random
source and program that makes so many steps and then `k` ticks.  Hence an emulator at another rate
that has made as many steps differs in the timers only. -/
theorem frames_refine_machine {settings : Settings} {unseeded : RandomSource}
    {program : List UInt8} {e : Emulator} {log : List Record} {k : Nat}
    (hboot : (ofSettings settings unseeded).boot (.ok program) = .ok (e, log))
    (hrate : settings.rate.toNat ≤ 2 ^ 64 - 60) (h : e.Undisturbed k) :
    (∀ j < k, (e.afterFrames j).frame.halt = none) ∧
    (e.results k).length = k * settings.rate.toNat / 60 ∧
    (∃ m, (Machine.fresh settings.dialect (settings.seed.elim unseeded .ofSeed)).load program =
        .ok m ∧
      let history := stepsThenTicks (k * settings.rate.toNat / 60) k
      e.results k = m.stepResults history ∧ (e.afterFrames k).machine = (m.run history).2) ∧
    ∀ (settings' : Settings) (e' : Emulator) (log' : List Record) (k' : Nat),
      settings'.dialect = settings.dialect → settings'.seed = settings.seed →
      (ofSettings settings' unseeded).boot (.ok program) = .ok (e', log') →
      settings'.rate.toNat ≤ 2 ^ 64 - 60 → e'.Undisturbed k' →
      (e'.results k').length = (e.results k).length →
        ∃ timers, (e'.afterFrames k').machine =
          { (e.afterFrames k).machine with timers := timers } := by
  obtain ⟨hhalts, hlength, m, hload, hresults, hlast⟩ := frames_of_boot hboot hrate h
  refine ⟨hhalts, hlength, ⟨m, hload, hresults, hlast⟩, ?_⟩
  intro settings' e' log' k' hdialect hseed hboot' hrate' h' hsteps
  obtain ⟨-, hlength', m', hload', -, hlast'⟩ := frames_of_boot hboot' hrate' h'
  have hm : m' = m := by
    rw [hdialect, hseed, hload] at hload'
    exact (Except.ok.inj hload').symm
  rw [hlength', hlength] at hsteps
  rw [hlast', hm, hsteps, hlast]
  exact run_stepsThenTicks m _ k k'

theorem undisturbed_of_step_self {i : Instruction} (hb : e.budget.Safe)
    (hi : i.usesTimers = false)
    (h : ∀ timers, { e.machine with timers := timers }.step =
      (.ok (.executed i), { e.machine with timers := timers })) (k : Nat) : e.Undisturbed k := by
  suffices hall : (∀ j < k, (e.afterFrames j).frame.halt = none) ∧
      ∀ r ∈ e.results k, r = .ok (.executed i) by
    refine ⟨?_, ?_, ?_⟩
    · intro j hj f
      rw [hall.1 j hj]
      nofun
    · intro hmem
      cases hall.2 _ hmem
    · intro i' hmem
      cases hall.2 _ hmem
      exact hi
  induction k generalizing e with
  | zero => exact ⟨fun j hj => absurd hj (Nat.not_lt_zero j), nofun⟩
  | succ k ih =>
    obtain ⟨steps, b, hnext, hsafe, -⟩ := hb.next?
    obtain ⟨hresults, hafter, hhalt⟩ := frame_of_next? hnext
    have htrace : e.machine.tick.trace e.endsFrame steps.toNat =
        (List.replicate steps.toNat (.ok (.executed i)), e.machine.tick) :=
      trace_of_step_self (h e.machine.tick.timers) rfl _
    rw [htrace] at hresults hafter
    have hframe : ∀ r ∈ e.frameResults, r = .ok (.executed i) := by
      rw [hresults]
      exact fun r hr => List.eq_of_mem_replicate hr
    obtain ⟨hhalts, hrest⟩ := ih (e := e.frame.emulator) (hafter ▸ hsafe) (hafter ▸ h)
    constructor
    · intro j hj
      cases j with
      | zero => exact hhalt.trans (haltOf_eq_none fun r hr => hframe r hr ▸ rfl)
      | succ j => exact hhalts j (Nat.lt_of_succ_lt_succ hj)
    · intro r hr
      exact (List.mem_append.1 hr).elim (hframe r) (hrest r)

/-- Ninety instructions in a second for two frames and 180 for one are three steps each. -/
theorem frames_refine_machine_rates :
    let program : List UInt8 := [0x12, 0x00]
    let start (rate : UInt64) :=
      (ofSettings { path := "loop", rate := rate } (.ofList [])).boot (.ok program)
    ∃ e log e' log', start 90 = .ok (e, log) ∧ start 180 = .ok (e', log') ∧
      e.Undisturbed 2 ∧ e'.Undisturbed 1 ∧ (e.results 2).length = 3 ∧
      (e'.results 1).length = 3 ∧
      ∃ timers, (e'.afterFrames 1).machine =
        { (e.afterFrames 2).machine with timers := timers } := by
  intro program start
  -- what matters of the machine with the program
  let m := ((Machine.fresh {} (.ofList [])).run [.load program]).2
  have hmem : m.memory = Memory.fresh.place Memory.programStart program := rfl
  have hw : m.keyWait = none := rfl
  have hpc : m.pc = 0x200 := rfl
  let settings (rate : UInt64) : Settings := { path := "loop", rate := rate }
  let loaded (rate : UInt64) : Emulator := ⟨m, settings rate, .ofRate rate⟩
  have hstart : ∀ rate, start rate = .ok (loaded rate, [.loaded 2 "loop"]) := fun rate => rfl
  clear_value m
  have hloop : ∀ timers, { m with timers := timers }.step =
      (.ok (.executed (.jump 0x200)), { m with timers := timers }) := by
    intro timers
    let n : Machine := { m with timers := timers }
    have hn : n.fetched.effect (.jump 0x200) = n := effect_jump_self hpc
    have hstep : n.step = (.ok (.executed (.jump 0x200)), n.fetched.effect (.jump 0x200)) :=
      step_of_program (k := 0) hmem (by decide) hw hpc (by decide) (by decide) rfl
    exact hstep.trans (by rw [hn])
  have hslow : (loaded 90).Undisturbed 2 :=
    undisturbed_of_step_self (StepBudget.safe_ofRate (by decide)) rfl hloop 2
  have hfast : (loaded 180).Undisturbed 1 :=
    undisturbed_of_step_self (StepBudget.safe_ofRate (by decide)) rfl hloop 1
  have hrate : (180 : UInt64).toNat ≤ 2 ^ 64 - 60 := by decide
  obtain ⟨-, hthree, -, hsame⟩ := frames_refine_machine (hstart 90) (by decide) hslow
  obtain ⟨-, hthree', -, -⟩ := frames_refine_machine (hstart 180) hrate hfast
  exact ⟨_, _, _, _, hstart 90, hstart 180, hslow, hfast, hthree, hthree',
    hsame (settings 180) _ _ 1 rfl rfl (hstart 180) hrate hfast (hthree'.trans hthree.symm)⟩

end Emulator

end Chip8

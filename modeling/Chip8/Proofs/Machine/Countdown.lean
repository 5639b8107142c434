import Chip8.Proofs.Machine.Attempt
import Mathlib.Data.List.Induction

/-!
# The timers told from the history

Nothing sets a timer but the instruction made for it, nothing takes it down but a tick, and a reset
stops it.  So what a timer shows is known without looking at the machine: the value that was written
last, less the ticks since then.

A history is told backwards.  `Machine.life` lists the moments since power-on or the last reset,
the latest first; in it `Timer.setting` finds the value that was written last and
`Timer.ticksSince` counts the ticks that came after.

* `Machine.timer_step` : a step that does not set a timer leaves it, whatever else it does;
* **`Machine.timer_history`** : both timers show their settings less the ticks since, so this is
  what programs read and what makes the tone sound.
-/

namespace Chip8

/-- The two timers, by name. -/
inductive Timer where
  /-- The delay timer. -/
  | delay
  /-- The sound timer. -/
  | sound
  deriving DecidableEq

namespace Timer

/-- What a timer shows. -/
def value : Timer → Timers → UInt8
  | delay, timers => timers.delay
  | sound, timers => timers.sound

/-- The register that an instruction sets a timer from. -/
def source? : Timer → Instruction → Option Register
  | delay, .setDelay x => some x
  | sound, .setSound x => some x
  | _, _ => none

end Timer

/-- The value that is written to a timer at a moment, if one is. -/
def Moment.written? (s : Moment) (t : Timer) : Option UInt8 :=
  s.executed?.bind fun i => (t.source? i).map s.machine.registers.read

namespace Timer

/-- The value that was written last to a timer; zero if none was. -/
def setting (t : Timer) (life : List Moment) : UInt8 :=
  (life.findSome? (·.written? t)).getD 0

/-- The ticks since a timer was last written to. -/
def ticksSince (t : Timer) (life : List Moment) : Nat :=
  (life.takeWhile fun s => (s.written? t).isNone).countP fun s => s.event = .tick

end Timer

namespace Machine

/-- The moments of a history since power-on or the last reset, the latest first. -/
def life (m : Machine) (history : List Event) : List Moment :=
  (m.moments history).reverse.takeWhile fun s => s.event ≠ .reset

variable {m : Machine} {t : Timer}

/-! ### Lives -/

theorem life_append_singleton (m : Machine) (history : List Event) (e : Event) :
    m.life (history ++ [e]) =
      if e = .reset then [] else ⟨(m.run history).2, e⟩ :: m.life history := by
  rw [life, moments_append, moments, moments, List.reverse_append, List.reverse_singleton,
    List.singleton_append, List.takeWhile_cons]
  by_cases he : e = .reset <;> simp [he, life]

theorem setting_cons_of_some {s : Moment} {v : UInt8} (h : s.written? t = some v)
    (life : List Moment) : t.setting (s :: life) = v := by
  rw [Timer.setting, List.findSome?_cons, h]
  rfl

theorem setting_cons_of_none {s : Moment} (h : s.written? t = none) (life : List Moment) :
    t.setting (s :: life) = t.setting life := by
  rw [Timer.setting, List.findSome?_cons, h]
  rfl

theorem ticksSince_cons_of_some {s : Moment} {v : UInt8} (h : s.written? t = some v)
    (life : List Moment) : t.ticksSince (s :: life) = 0 := by
  simp [Timer.ticksSince, h]

theorem ticksSince_cons_of_none {s : Moment} (h : s.written? t = none) (life : List Moment) :
    t.ticksSince (s :: life) = t.ticksSince life + if s.event = .tick then 1 else 0 := by
  simp [Timer.ticksSince, h, List.countP_cons]

/-! ### One event -/

theorem timer_effect (t : Timer) (m : Machine) (i : Instruction) :
    t.value (m.effect i).timers =
      ((t.source? i).map m.registers.read).getD (t.value m.timers) := by
  cases t <;> cases i <;> rfl

/-- A step leaves in a timer what it writes there, or what was there. -/
theorem timer_step (t : Timer) (m : Machine) :
    t.value m.step.2.timers = ((⟨m, .step⟩ : Moment).written? t).getD (t.value m.timers) := by
  have hs := m.stepped
  simp only [Moment.written?, Moment.executed?]
  generalize m.step = ending at hs ⊢
  cases hs with
  | @executes i m' _ _ _ he =>
    obtain ⟨-, rfl⟩ := execute_eq_ok_iff.1 he
    exact timer_effect t m.fetched i
  | completes => cases t <;> rfl
  | _ => rfl

theorem written?_of_ne_step {e : Event} (h : e ≠ .step) : (⟨m, e⟩ : Moment).written? t = none := by
  cases e with
  | step => exact absurd rfl h
  | _ => rfl

theorem timer_handle_of_some {e : Event} {v : UInt8}
    (h : (⟨m, e⟩ : Moment).written? t = some v) : t.value (m.handle e).2.timers = v := by
  by_cases he : e = .step
  · subst he
    have hstep := timer_step t m
    rw [h] at hstep
    exact hstep
  · rw [written?_of_ne_step he] at h
    cases h

/-- An event that writes nothing to a timer takes it down if it is a tick, and leaves it
otherwise. -/
theorem timer_handle_of_none {e : Event} (h : (⟨m, e⟩ : Moment).written? t = none)
    (hr : e ≠ .reset) :
    (t.value (m.handle e).2.timers).toNat =
      (t.value m.timers).toNat - if e = .tick then 1 else 0 := by
  cases e with
  | load program => rw [handle_load, handle_loadAt]; rfl
  | loadAt program a => rw [handle_loadAt]; rfl
  | step =>
    have hstep := timer_step t m
    rw [h] at hstep
    exact congrArg UInt8.toNat hstep
  | tick => cases t <;> exact Timers.toNat_countDown _
  | setKey index on =>
    by_cases hlt : index < 16
    · rw [handle_setKey_of_lt m hlt]; rfl
    · rw [handle_setKey_of_le m (Nat.not_lt.1 hlt)]; rfl
  | releaseAllKeys => rfl
  | reset => exact absurd rfl hr

/-! ### Histories -/

/-- A timer shows the value that was written last less the ticks since. -/
theorem timer_run (t : Timer) (dialect : Dialect) (random : RandomSource)
    (history : List Event) :
    (t.value ((fresh dialect random).run history).2.timers).toNat =
      (t.setting ((fresh dialect random).life history)).toNat -
        t.ticksSince ((fresh dialect random).life history) := by
  -- from the end, since the latest event decides what the others count for
  induction history using List.reverseRecOn with
  | nil => cases t <;> rfl
  | append_singleton history e ih =>
    rw [life_append_singleton, run_append, run_cons, run_nil]
    generalize ((fresh dialect random).run history).2 = s at ih ⊢
    by_cases hr : e = .reset
    · rw [hr, if_pos rfl]
      cases t <;> rfl
    rw [if_neg hr]
    cases hw : (⟨s, e⟩ : Moment).written? t with
    | some v =>
      rw [setting_cons_of_some hw, ticksSince_cons_of_some hw, timer_handle_of_some hw,
        Nat.sub_zero]
    | none =>
      rw [setting_cons_of_none hw, ticksSince_cons_of_none hw, timer_handle_of_none hw hr, ih,
        Nat.sub_sub]

theorem read_of_readDelay {x : Register} (h : m.step.1 = .ok (.executed (.readDelay x))) :
    m.step.2.registers.read x = m.timers.delay := by
  obtain ⟨hw, ha, ho⟩ := attempted_of_executed h (by simp)
  rw [step_of_attempted hw ha ho]
  exact Registers.read_write_self _ _ _

theorem soundActive_iff (timers : Timers) : timers.soundActive = true ↔ 0 < timers.sound.toNat := by
  rw [Timers.soundActive, decide_eq_true_iff, Nat.pos_iff_ne_zero, ne_eq, ← UInt8.toNat_inj]
  rfl

/-- **The timers are told from the history.**  After every history from power-on each timer shows
the value that was written to it last, since power-on or the last reset, less the ticks since then,
and zero once there are as many.  An instruction that reads the delay timer stores this number, and
the tone sounds as long as fewer ticks have come than were written to the sound timer. -/
theorem timer_history (dialect : Dialect) (random : RandomSource) (history : List Event) :
    let m := ((fresh dialect random).run history).2
    let life := (fresh dialect random).life history
    (∀ t : Timer, (t.value m.timers).toNat = (t.setting life).toNat - t.ticksSince life) ∧
    (∀ x, m.step.1 = .ok (.executed (.readDelay x)) →
      (m.step.2.registers.read x).toNat =
        (Timer.delay.setting life).toNat - Timer.delay.ticksSince life) ∧
    (m.timers.soundActive = true ↔
      Timer.sound.ticksSince life < (Timer.sound.setting life).toNat) := by
  intro m life
  have hshows := fun t => timer_run t dialect random history
  refine ⟨hshows, fun x hx => ?_, ?_⟩
  · rw [read_of_readDelay hx]
    exact hshows .delay
  · rw [soundActive_iff]
    have hsound : m.timers.sound.toNat = _ := hshows .sound
    rw [hsound]
    exact Nat.sub_pos_iff_lt

/-- Both timers are set to 5, the sound timer a tick later than the delay timer; when V1 takes the
delay it has been down by two ticks. -/
theorem timer_history_staggered :
    let program : List UInt8 := [0x60, 0x05, 0xF0, 0x15, 0xF0, 0x18, 0xF1, 0x07]
    let history : List Event := [.load program, .step, .step, .tick, .step, .tick]
    let m := ((fresh {} (.ofList [])).run history).2
    let life := (fresh {} (.ofList [])).life history
    m.step.1 = .ok (.executed (.readDelay 1)) ∧
      Timer.delay.setting life = 5 ∧ Timer.delay.ticksSince life = 2 ∧
      Timer.sound.setting life = 5 ∧ Timer.sound.ticksSince life = 1 ∧
      (m.step.2.registers.read 1).toNat = 3 ∧ m.timers.soundActive = true := by
  intro program history m life
  obtain ⟨hstep, ⟨hdelay, hdelayTicks⟩, hsound, hsoundTicks⟩ :
      m.step.1 = .ok (.executed (.readDelay 1)) ∧
        (Timer.delay.setting life = 5 ∧ Timer.delay.ticksSince life = 2) ∧
        Timer.sound.setting life = 5 ∧ Timer.sound.ticksSince life = 1 := by
    decide +kernel
  obtain ⟨-, hread, hactive⟩ := timer_history {} (.ofList []) history
  have hstored := hread 1 hstep
  rw [hdelay, hdelayTicks] at hstored
  rw [hsound, hsoundTicks] at hactive
  exact ⟨hstep, hdelay, hdelayTicks, hsound, hsoundTicks, hstored, hactive.2 (by decide)⟩

end Machine

end Chip8

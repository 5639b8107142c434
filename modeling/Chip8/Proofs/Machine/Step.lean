import Chip8.Machine.Event

/-!
# What a step can do

`Machine.Stepped` lists the ends of a step as a relation, each with all that is known of it: which
check went which way, and what is left.  `Machine.stepped` says that every step ends in one of
these ways, so that a proof about steps is a proof by cases on the relation and never opens the
step itself.

Between steps the host changes little: `Machine.handle_host` says what at most.

A history is also looked at as its moments, each an event and the machine that it meets.  At some
of them an instruction is carried out (`Moment.executed?`).

A machine that history leads to from power-on is `Machine.Reachable`; what every event keeps holds
of all of them (`Machine.Reachable.induct`).
-/

namespace Chip8

/-- A moment of a history: an event, and the machine that it meets. -/
structure Moment where
  /-- The machine before the event. -/
  machine : Machine
  /-- The event. -/
  event : Event

/-- The instruction that is carried out at a moment, if it is one of a step that carries one out. -/
def Moment.executed? (s : Moment) : Option Instruction :=
  match s.event, s.machine.step.1 with
  | .step, .ok (.executed i) => some i
  | _, _ => none

namespace Machine

/-- The word at the counter. -/
def word (m : Machine) : Word :=
  Word.ofBytes (m.memory.byteAt m.pc) (m.memory.byteAt (m.pc + 1))

/-- The machine with the counter behind the word. -/
def fetched (m : Machine) : Machine :=
  { m with pc := m.pc + 2 }

/-- The machine after key `k` has come for register `x`. -/
def completed (m : Machine) (x : Register) (k : Key) : Machine :=
  { m with
    registers := m.registers.write x k.toByte
    keypad := m.keypad.clearPress
    keyWait := none }

/-- The ways in which a step ends. -/
inductive Stepped (m : Machine) : StepResult × Machine → Prop
  /-- A register waits and no press has come. -/
  | waits {x : Register} (hw : m.keyWait = some x) (hp : m.keypad.lastPress = none) :
    Stepped m (.ok .waitingForKey, m)
  /-- A register waits and a press has come. -/
  | completes {x : Register} {k : Key} (hw : m.keyWait = some x)
    (hp : m.keypad.lastPress = some k) :
    Stepped m (.ok (.executed (.awaitKey x)), m.completed x k)
  /-- The word is not inside memory. -/
  | outside (hw : m.keyWait = none) (hpc : Memory.size ≤ m.pc + 1) :
    Stepped m (.error (.addressOutOfRange (max m.pc Memory.size)), m)
  /-- The word is no instruction. -/
  | unsupported (hw : m.keyWait = none) (hpc : m.pc + 1 < Memory.size)
    (hd : Instruction.decode? m.word = none) :
    Stepped m (.error (.unsupportedOpcode m.word), m.fetched)
  /-- The instruction fails. -/
  | fails {i : Instruction} {f : Fault} (hw : m.keyWait = none) (hpc : m.pc + 1 < Memory.size)
    (hd : Instruction.decode? m.word = some i) (he : m.fetched.execute i = .error f) :
    Stepped m (.error f, m.fetched)
  /-- The instruction is carried out. -/
  | executes {i : Instruction} {m' : Machine} (hw : m.keyWait = none)
    (hpc : m.pc + 1 < Memory.size) (hd : Instruction.decode? m.word = some i)
    (he : m.fetched.execute i = .ok m') :
    Stepped m (.ok (.executed i), m')

variable {m : Machine}

theorem step_of_waiting {x : Register} (h : m.keyWait = some x) : m.step = m.stepWaiting x := by
  rw [step, h]

theorem step_of_running (h : m.keyWait = none) : m.step = m.stepRunning := by
  rw [step, h]

theorem stepWaiting_of_none {x : Register} (hp : m.keypad.lastPress = none) :
    m.stepWaiting x = (.ok .waitingForKey, m) := by
  rw [stepWaiting, Keypad.takePress, hp]

theorem stepWaiting_of_some {x : Register} {k : Key} (hp : m.keypad.lastPress = some k) :
    m.stepWaiting x = (.ok (.executed (.awaitKey x)), m.completed x k) := by
  rw [stepWaiting, Keypad.takePress, hp]
  rfl

theorem stepRunning_of_le (h : Memory.size ≤ m.pc + 1) :
    m.stepRunning = (.error (.addressOutOfRange (max m.pc Memory.size)), m) := by
  rw [stepRunning, Memory.readWord_of_le _ h]

theorem stepRunning_of_lt (h : m.pc + 1 < Memory.size) :
    m.stepRunning = m.fetched.perform m.word := by
  rw [stepRunning, Memory.readWord_of_lt _ h]
  rfl

theorem perform_of_decode?_none {w : Word} (h : Instruction.decode? w = none) :
    m.perform w = (.error (.unsupportedOpcode w), m) := by
  rw [perform, Instruction.decode, h]

theorem perform_of_error {w : Word} {i : Instruction} {f : Fault}
    (h : Instruction.decode? w = some i) (he : m.execute i = .error f) :
    m.perform w = (.error f, m) := by
  simp only [perform, Instruction.decode, h, he]

theorem perform_of_ok {w : Word} {i : Instruction} {m' : Machine}
    (h : Instruction.decode? w = some i) (he : m.execute i = .ok m') :
    m.perform w = (.ok (.executed i), m') := by
  simp only [perform, Instruction.decode, h, he]

/-- **Every step ends in one of the ways of `Stepped`.** -/
theorem stepped (m : Machine) : Stepped m m.step := by
  cases hw : m.keyWait with
  | some x =>
    rw [step_of_waiting hw]
    cases hp : m.keypad.lastPress with
    | none => rw [stepWaiting_of_none hp]; exact .waits hw hp
    | some k => rw [stepWaiting_of_some hp]; exact .completes hw hp
  | none =>
    rw [step_of_running hw]
    by_cases hpc : m.pc + 1 < Memory.size
    · rw [stepRunning_of_lt hpc]
      cases hd : Instruction.decode? m.word with
      | none => rw [perform_of_decode?_none hd]; exact .unsupported hw hpc hd
      | some i =>
        cases he : m.fetched.execute i with
        | error f => rw [perform_of_error hd he]; exact .fails hw hpc hd he
        | ok m' => rw [perform_of_ok hd he]; exact .executes hw hpc hd he
    · rw [stepRunning_of_le (Nat.not_lt.1 hpc)]
      exact .outside hw (Nat.not_lt.1 hpc)

/-- A step that may end in such a way does so. -/
theorem Stepped.step_eq {ending : StepResult × Machine} (h : Stepped m ending) :
    m.step = ending := by
  cases h with
  | waits hw hp => rw [step_of_waiting hw, stepWaiting_of_none hp]
  | completes hw hp => rw [step_of_waiting hw, stepWaiting_of_some hp]
  | outside hw hpc => rw [step_of_running hw, stepRunning_of_le hpc]
  | unsupported hw hpc hd =>
    rw [step_of_running hw, stepRunning_of_lt hpc, perform_of_decode?_none hd]
  | fails hw hpc hd he => rw [step_of_running hw, stepRunning_of_lt hpc, perform_of_error hd he]
  | executes hw hpc hd he => rw [step_of_running hw, stepRunning_of_lt hpc, perform_of_ok hd he]

/-! ### The host between steps -/

theorem handle_load (m : Machine) (program : List UInt8) :
    m.handle (.load program) = m.handle (.loadAt program Memory.programStart) := rfl

theorem handle_loadAt (m : Machine) (program : List UInt8) (a : Nat) :
    (m.handle (.loadAt program a)).2 =
      { m with memory := (m.memory.load program a).toOption.getD m.memory } := by
  rw [handle, loadAt]
  cases m.memory.load program a <;> rfl

theorem handle_setKey_of_lt (m : Machine) {index : Nat} (h : index < 16) (on : Bool) :
    (m.handle (.setKey index on)).2 = { m with keypad := m.keypad.setKey ⟨index, h⟩ on } := by
  rw [handle, setKey, Key.ofIndex, dif_pos h]
  rfl

theorem handle_setKey_of_le (m : Machine) {index : Nat} (h : 16 ≤ index) (on : Bool) :
    (m.handle (.setKey index on)).2 = m := by
  rw [handle, setKey, Key.ofIndex, dif_neg (Nat.not_lt.2 h)]
  rfl

/-- Between steps, short of a reset, the host changes memory, timers and keypad only. -/
theorem handle_host (m : Machine) {e : Event} (hs : e ≠ .step) (hr : e ≠ .reset) :
    ∃ memory timers keypad, (m.handle e).2 =
      { m with memory := memory, timers := timers, keypad := keypad } := by
  cases e with
  | load program =>
    rw [handle_load]
    exact ⟨_, m.timers, m.keypad, m.handle_loadAt program Memory.programStart⟩
  | loadAt program a => exact ⟨_, m.timers, m.keypad, m.handle_loadAt program a⟩
  | step => exact absurd rfl hs
  | tick => exact ⟨m.memory, m.timers.tick, m.keypad, rfl⟩
  | setKey index on =>
    by_cases h : index < 16
    · exact ⟨m.memory, m.timers, _, m.handle_setKey_of_lt h on⟩
    · exact ⟨m.memory, m.timers, m.keypad, m.handle_setKey_of_le (Nat.not_lt.1 h) on⟩
  | releaseAllKeys => exact ⟨m.memory, m.timers, m.keypad.releaseAll, rfl⟩
  | reset => exact absurd rfl hr

theorem dialect_fresh (dialect : Dialect) (random : RandomSource) :
    (fresh dialect random).dialect = dialect := rfl

theorem random_fresh (dialect : Dialect) (random : RandomSource) :
    (fresh dialect random).random = random := rfl

theorem handle_of_ne_step (m : Machine) {e : Event} (h : e ≠ .step) :
    (m.handle e).2.dialect = m.dialect ∧ (m.handle e).2.random = m.random := by
  by_cases hr : e = .reset
  · rw [hr, handle, reset_eq_fresh]
    exact ⟨dialect_fresh _ _, random_fresh _ _⟩
  · obtain ⟨memory, timers, keypad, hhost⟩ := m.handle_host h hr
    rw [hhost]
    exact ⟨rfl, rfl⟩

theorem handle_with_of_ne_step (m : Machine) (d : Dialect) (r : RandomSource) {e : Event}
    (h : e ≠ .step) :
    { m with dialect := d, random := r }.handle e =
      ((m.handle e).1, { (m.handle e).2 with dialect := d, random := r }) := by
  cases e with
  | load program =>
    simp only [handle, load]
    cases m.memory.loadProgram program <;> rfl
  | loadAt program a =>
    simp only [handle, loadAt]
    cases m.memory.load program a <;> rfl
  | step => exact absurd rfl h
  | setKey index on =>
    simp only [handle, setKey]
    cases Key.ofIndex index <;> rfl
  | tick | releaseAllKeys | reset => rfl

theorem run_of_step {n : Machine} {r : StepResult} (h : m.step = (r, n)) (rest : List Event) :
    (m.run (.step :: rest)).2 = (n.run rest).2 := by
  rw [run_cons, handle, h]

theorem run_tick (m : Machine) (rest : List Event) :
    (m.run (.tick :: rest)).2 = (m.tick.run rest).2 := rfl

/-- The results of the steps of a history, in order. -/
def stepResults (m : Machine) : List Event → List StepResult
  | [] => []
  | e :: rest => (if e = .step then [m.step.1] else []) ++ (m.handle e).2.stepResults rest

theorem stepResults_step (m : Machine) (rest : List Event) :
    m.stepResults (.step :: rest) = m.step.1 :: m.step.2.stepResults rest := rfl

theorem stepResults_tick (m : Machine) (rest : List Event) :
    m.stepResults (.tick :: rest) = m.tick.stepResults rest := rfl

theorem stepResults_append (m : Machine) (before after : List Event) :
    m.stepResults (before ++ after) =
      m.stepResults before ++ (m.run before).2.stepResults after := by
  induction before generalizing m with
  | nil => rfl
  | cons e before ih =>
    rw [List.cons_append, stepResults, ih, stepResults, List.append_assoc, run_cons]

theorem length_stepResults (m : Machine) (history : List Event) :
    (m.stepResults history).length = history.count .step := by
  induction history generalizing m with
  | nil => rfl
  | cons e rest ih =>
    rw [stepResults, List.length_append, ih, List.count_cons, Nat.add_comm]
    by_cases h : e = .step <;> simp [h]

theorem executed?_eq_some_iff {s : Moment} {i : Instruction} :
    s.executed? = some i ↔ s.event = .step ∧ s.machine.step.1 = .ok (.executed i) := by
  obtain ⟨m, e⟩ := s
  cases e with
  | step =>
    simp only [Moment.executed?, true_and]
    rcases m.step with ⟨fault | outcome, _⟩
    · simp
    · cases outcome <;> simp
  | _ => simp [Moment.executed?]

/-- The moments of a history in order. -/
def moments (m : Machine) : List Event → List Moment
  | [] => []
  | e :: rest => ⟨m, e⟩ :: (m.handle e).2.moments rest

theorem moments_append (m : Machine) (before after : List Event) :
    m.moments (before ++ after) = m.moments before ++ (m.run before).2.moments after := by
  induction before generalizing m with
  | nil => rfl
  | cons e before ih => rw [List.cons_append, moments, ih, run_cons, moments, List.cons_append]

/-! ### Steps in a row -/

theorem getLast?_trace {ends : StepResult → Bool} {n : Nat} {r : StepResult}
    (h : r ∈ (m.trace ends n).1) (he : ends r = true) :
    (m.trace ends n).1.getLast? = some r := by
  induction n generalizing m with
  | zero => cases h
  | succ n ih =>
    rw [trace_succ] at h ⊢
    split at h
    · next hends =>
      rw [if_pos hends]
      obtain rfl := List.mem_singleton.1 h
      rfl
    · next hends =>
      rw [if_neg hends]
      rcases List.mem_cons.1 h with rfl | hrest
      · exact absurd he hends
      · rw [List.getLast?_cons, ih hrest]
        rfl

/-- A trace that nothing ends is made of all the steps. -/
theorem trace_of_not_ends {ends : StepResult → Bool} {n : Nat}
    (h : ∀ r ∈ (m.trace ends n).1, ends r = false) :
    m.trace ends n =
      (m.stepResults (List.replicate n .step), (m.run (List.replicate n .step)).2) := by
  induction n generalizing m with
  | zero => rfl
  | succ n ih =>
    rw [trace_succ] at h ⊢
    split at h
    · next hends => cases hends.symm.trans (h _ List.mem_cons_self)
    · next hends =>
      have hrest := ih fun r hr => h r (List.mem_cons_of_mem _ hr)
      rw [if_neg hends, hrest]
      rfl

theorem trace_of_step_self {ends : StepResult → Bool} {r : StepResult} (h : m.step = (r, m))
    (he : ends r = false) (n : Nat) : m.trace ends n = (List.replicate n r, m) := by
  induction n with
  | zero => rfl
  | succ n ih =>
    rw [trace_succ, h, ih, he]
    rfl

/-! ### Reachable machines -/

/-- Some history leads from power-on to the machine. -/
def Reachable (m : Machine) : Prop :=
  ∃ (dialect : Dialect) (random : RandomSource) (history : List Event),
    ((fresh dialect random).run history).2 = m

theorem Reachable.fresh (dialect : Dialect) (random : RandomSource) :
    (Machine.fresh dialect random).Reachable :=
  ⟨dialect, random, [], rfl⟩

theorem Reachable.run (h : m.Reachable) (history : List Event) : (m.run history).2.Reachable := by
  obtain ⟨dialect, random, before, rfl⟩ := h
  exact ⟨dialect, random, before ++ history, by rw [run_append]⟩

/-- What holds at power-on and is kept by every event holds of every reachable machine. -/
theorem Reachable.induct {P : Machine → Prop} (start : ∀ d r, P (Machine.fresh d r))
    (keeps : ∀ m e, P m → P (m.handle e).2) (h : m.Reachable) : P m := by
  obtain ⟨dialect, random, history, rfl⟩ := h
  exact run_induct keeps (start dialect random) history

end Machine

end Chip8

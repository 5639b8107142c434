import Chip8.Instruction.Encoding
import Chip8.Machine.Execute

/-!
# Steps

One step fetches the word at the program counter, moves the counter behind it, and decodes and
executes it.  While an instruction waits for a key press, a step only looks at the keypad: the step
that finds a press puts the key into the waiting register and does nothing else.

A step that fails changes nothing, except that the counter has moved if the word could be fetched.

## Main definitions

* `Outcome`, `StepResult`: what a step may say.
* `Machine.step`: one step.
* `Machine.trace`: steps in a row, up to a result that ends them.
-/

namespace Chip8

/-- What a step did. -/
inductive Outcome where
  /-- An instruction was carried out, or a waiting one completed. -/
  | executed (instruction : Instruction)
  /-- An instruction waits for a key press and none has come. -/
  | waitingForKey
  deriving DecidableEq

/-- An outcome or a fault. -/
abbrev StepResult := Except Fault Outcome

namespace Machine

/-- A step while register `x` waits for a key press. -/
def stepWaiting (m : Machine) (x : Register) : StepResult × Machine :=
  match m.keypad.takePress with
  | (none, _) => (.ok .waitingForKey, m)
  | (some key, keypad) =>
    (.ok (.executed (.awaitKey x)),
      { m with keypad := keypad, keyWait := none }.write x key.toByte)

/-- Decodes and executes a word that has been fetched. -/
def perform (m : Machine) (w : Word) : StepResult × Machine :=
  match Instruction.decode w with
  | .error fault => (.error fault, m)
  | .ok i =>
    match m.execute i with
    | .error fault => (.error fault, m)
    | .ok m' => (.ok (.executed i), m')

/-- A step while no instruction waits. -/
def stepRunning (m : Machine) : StepResult × Machine :=
  match m.memory.readWord m.pc with
  | .error fault => (.error fault, m)
  | .ok w => { m with pc := m.pc + 2 }.perform w

/-- One step. -/
def step (m : Machine) : StepResult × Machine :=
  match m.keyWait with
  | some x => m.stepWaiting x
  | none => m.stepRunning

/-- Up to `n` steps, the last of them the first whose result satisfies `ends`; the results in
order, put in front of the reversed list `before`, and the machine afterwards. -/
def traceFrom (ends : StepResult → Bool) :
    Nat → List StepResult → Machine → List StepResult × Machine
  | 0, before, m => (before.reverse, m)
  | n + 1, before, m =>
    match m.step with
    | (result, m') =>
      if ends result then ((result :: before).reverse, m')
      else traceFrom ends n (result :: before) m'

/-- Up to `n` steps, the last of them the first whose result satisfies `ends`; the results in
order and the machine afterwards. -/
def trace (m : Machine) (ends : StepResult → Bool) (n : Nat) : List StepResult × Machine :=
  traceFrom ends n [] m

theorem traceFrom_eq (ends : StepResult → Bool) (n : Nat) (before : List StepResult)
    (m : Machine) :
    traceFrom ends n before m = (before.reverse ++ (m.trace ends n).1, (m.trace ends n).2) := by
  unfold trace
  induction n generalizing before m with
  | zero => simp [traceFrom]
  | succ n ih =>
    simp only [traceFrom]
    split
    · simp
    · rw [ih, ih [_]]
      simp

@[simp]
theorem trace_zero (m : Machine) (ends : StepResult → Bool) : m.trace ends 0 = ([], m) := rfl

theorem trace_succ (m : Machine) (ends : StepResult → Bool) (n : Nat) :
    m.trace ends (n + 1) =
      if ends m.step.1 then ([m.step.1], m.step.2)
      else (m.step.1 :: (m.step.2.trace ends n).1, (m.step.2.trace ends n).2) := by
  unfold trace
  simp only [traceFrom]
  split
  · simp
  · rw [traceFrom_eq]
    simp [trace]

end Machine

end Chip8

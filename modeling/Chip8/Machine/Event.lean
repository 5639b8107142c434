import Chip8.Machine.Step

/-!
# Runs under a host

Everything a host may do to a machine is an `Event`, so a history is a list of events.  An event
that is refused leaves the machine as it is and the history goes on.

## Main definitions

* `Event`, `Reply`: what a host may do, and what it is told.
* `Machine.handle`: one event.
* `Machine.run`: a list of events.
* `Machine.steps`: a bounded number of steps in a row with a tally of what happened.
-/

namespace Chip8

/-- What a host may do. -/
inductive Event where
  /-- Place a program where programs start. -/
  | load (program : List UInt8)
  /-- Place a program at an address. -/
  | loadAt (program : List UInt8) (address : Nat)
  /-- Let the machine make one step. -/
  | step
  /-- Let the timers tick. -/
  | tick
  /-- Report a key down or up. -/
  | setKey (index : Nat) (down : Bool)
  /-- Report all keys up. -/
  | releaseAllKeys
  /-- Go back to power-on. -/
  | reset
  deriving DecidableEq

/-- What the host is told. -/
inductive Reply where
  /-- It is done, and there is no more to say. -/
  | done
  /-- What the step did. -/
  | stepped (outcome : Outcome)
  /-- It failed. -/
  | failed (fault : Fault)
  deriving DecidableEq

namespace Reply

/-- The reply to a step. -/
def ofStep : StepResult → Reply
  | .ok outcome => stepped outcome
  | .error fault => failed fault

end Reply

namespace Machine

/-- The reply to an attempt, and the machine that is left: the old one if it failed. -/
def settle (m : Machine) : Except Fault Machine → Reply × Machine
  | .ok m' => (.done, m')
  | .error fault => (.failed fault, m)

/-- One event. -/
def handle (m : Machine) : Event → Reply × Machine
  | .load program => m.settle (m.load program)
  | .loadAt program address => m.settle (m.loadAt program address)
  | .step => (Reply.ofStep m.step.1, m.step.2)
  | .tick => (.done, m.tick)
  | .setKey index down => m.settle (m.setKey index down)
  | .releaseAllKeys => (.done, m.releaseAllKeys)
  | .reset => (.done, m.reset)

/-- A list of events in order: the replies and the machine afterwards. -/
def run (m : Machine) : List Event → List Reply × Machine
  | [] => ([], m)
  | e :: rest =>
    let (reply, next) := m.handle e
    let (replies, last) := next.run rest
    (reply :: replies, last)

@[simp]
theorem run_nil (m : Machine) : m.run [] = ([], m) := rfl

theorem run_cons (m : Machine) (e : Event) (rest : List Event) :
    m.run (e :: rest) =
      ((m.handle e).1 :: ((m.handle e).2.run rest).1, ((m.handle e).2.run rest).2) := rfl

theorem run_append (m : Machine) (before after : List Event) :
    m.run (before ++ after) =
      ((m.run before).1 ++ ((m.run before).2.run after).1, ((m.run before).2.run after).2) := by
  induction before generalizing m with
  | nil => rfl
  | cons e before ih => simp only [List.cons_append, run_cons, ih]

/-- What holds at first and is kept by every event holds after every history. -/
theorem run_induct {P : Machine → Prop} (keeps : ∀ m e, P m → P (m.handle e).2) {m : Machine}
    (start : P m) (history : List Event) : P (m.run history).2 := by
  induction history generalizing m with
  | nil => exact start
  | cons e rest ih => exact ih (keeps m e start)

/-! ### Steps in a row -/

/-- Why steps in a row came to an end. -/
inductive Stop where
  /-- As many as were asked for have been made. -/
  | limit
  /-- An instruction waits for a key press. -/
  | waitingForKey
  /-- A fatal fault. -/
  | fault (fault : Fault)
  deriving DecidableEq

/-- What happened in steps in a row. -/
structure Tally where
  /-- How many instructions were carried out. -/
  executed : Nat
  /-- How many words were no instruction. -/
  skipped : Nat
  /-- Why it came to an end. -/
  stop : Stop
  deriving DecidableEq

/-- Whether steps in a row end with this result: waiting and fatal faults do. -/
def endsRow : StepResult → Bool
  | .ok (.executed _) => false
  | .ok .waitingForKey => true
  | .error fault => fault.isFatal

/-- Whether an instruction was carried out. -/
def isExecuted : StepResult → Bool
  | .ok (.executed _) => true
  | _ => false

/-- Whether a word was no instruction. -/
def isSkipped : StepResult → Bool
  | .error fault => !fault.isFatal
  | .ok _ => false

/-- Why a row of steps with this last result came to an end. -/
def stopOf : Option StepResult → Stop
  | some (.ok .waitingForKey) => .waitingForKey
  | some (.error f) => if f.isFatal then .fault f else .limit
  | _ => .limit

/-- Counts the results of steps in a row. -/
def tally (results : List StepResult) : Tally where
  executed := results.countP isExecuted
  skipped := results.countP isSkipped
  stop := stopOf results.getLast?

/-- Up to `n` steps; faults that are not fatal are counted and passed over. -/
def steps (m : Machine) (n : Nat) : Tally × Machine :=
  match m.trace endsRow n with
  | (results, m') => (tally results, m')

end Machine

end Chip8

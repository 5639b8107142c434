import Chip8.Proofs.Machine.Dialects
import Chip8.Proofs.Machine.RandomBytes
import Chip8.Proofs.Machine.Safety

/-!
# What a reset leaves of the past

A reset puts each part of a machine back in its turn, except for two: the dialect, which no event
changes, and the random source, which stays at the position that the history has brought it to.  So
nothing of a history can be found out afterwards but how many random bytes it has asked for.

The reset of `Action.reset` writes the parts one after another over what calls, waits, presses and
failures have left there.  `Machine.reset_forgets` therefore also compares the two machines in
place.

* `Machine.reset_run` : a reset after a history gives a new machine;
* **`Machine.reset_forgets`** : from there on, the two are the same under every history.
-/

namespace Chip8

namespace Machine

/-- After a history and a reset there is a new machine, with the source where the history has left
it. -/
theorem reset_run (dialect : Dialect) (random : RandomSource) (history : List Event) :
    ((fresh dialect random).run history).2.reset =
      fresh dialect (random.drop ((fresh dialect random).rolls history).length) := by
  rw [reset_eq_fresh, dialect_run, random_run]
  rfl

/-- **A reset forgets the history.**  After any history from power-on and a reset, every later
history gets the replies of a new machine of the same dialect whose source stands where the old one
does, and meets the same machine in each of its moments and at its end.  In place, the machine that
has been reset and the new one are the same as well. -/
theorem reset_forgets (dialect : Dialect) (random : RandomSource) (history later : List Event) :
    let start := fresh dialect random
    let m := (start.run history).2
    let source := random.drop (start.rolls history).length
    let n := fresh dialect source
    m.run (.reset :: later) = (.done :: (n.run later).1, (n.run later).2) ∧
    m.moments (.reset :: later) = ⟨m, .reset⟩ :: n.moments later ∧
    (freshInPlace dialect random).bind (·.runInPlace (history ++ .reset :: later)) =
      some ((start.run history).1 ++ .done :: (n.run later).1, (n.run later).2) ∧
    (freshInPlace dialect source).bind (·.runInPlace later) = some (n.run later) := by
  intro start m source n
  have hreset : m.handle .reset = (.done, n) := by
    rw [handle, reset_run]
  have hrun : m.run (.reset :: later) = (.done :: (n.run later).1, (n.run later).2) := by
    rw [run_cons, hreset]
  refine ⟨hrun, ?_, ?_, runInPlace_fresh dialect source later⟩
  · rw [moments, hreset]
  · rw [runInPlace_fresh, run_append, hrun]

end Machine

end Chip8

/-!
# Timers

Two counters that a tick, sixty times a second, takes down by one until they rest at zero.  The
delay timer can be read back by programs; a tone sounds while the sound timer is not zero.
-/

namespace Chip8

/-- The delay timer and the sound timer. -/
structure Timers where
  /-- The delay timer. -/
  delay : UInt8
  /-- The sound timer. -/
  sound : UInt8
  deriving DecidableEq

namespace Timers

/-- Both at rest. -/
def zero : Timers :=
  ⟨0, 0⟩

/-- One less, but never below zero. -/
def countDown (t : UInt8) : UInt8 :=
  if t = 0 then 0 else t - 1

/-- One tick of both timers. -/
def tick (t : Timers) : Timers :=
  ⟨countDown t.delay, countDown t.sound⟩

/-- Whether the tone sounds. -/
def soundActive (t : Timers) : Bool :=
  t.sound ≠ 0

theorem toNat_countDown (t : UInt8) : (countDown t).toNat = t.toNat - 1 := by
  unfold countDown
  split
  · next h => subst h; rfl
  · next h =>
    have h1 : (1 : UInt8) ≤ t := by
      have : t.toNat ≠ 0 := fun e => h (UInt8.toNat_inj.mp e)
      exact UInt8.le_iff_toNat_le.mpr (by simp; omega)
    rw [UInt8.toNat_sub_of_le _ _ h1]
    rfl

end Timers

end Chip8

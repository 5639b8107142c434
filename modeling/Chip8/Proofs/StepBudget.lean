import Chip8.StepBudget
import Mathlib.Algebra.GroupWithZero.Nat

/-!
# Budgets that never fail

A budget is safe when its carry is below sixty and its rate is at most `2 ^ 64 - 60`.  The budget of
a safe one can be told for every frame to come, as the numbers are those of the natural numbers.

What frames in a row get depends on the carry before the first of them only, which is less than an
instruction.  So any frames in a row, wherever they begin, get what the rate comes to in that time,
rounded down or up.

* `StepBudget.next?_of_lt`, `StepBudget.Safe.next?` : one frame;
* `StepBudget.Safe.take?` : frames in a row;
* `StepBudget.Safe.window` : frames in a row among others;
* **`StepBudget.steps_exact`** : the frames of a rate from the first one on.
-/

namespace Chip8

namespace StepBudget

/-- Carry and rate are small enough for every frame to come. -/
structure Safe (b : StepBudget) : Prop where
  /-- The rate leaves room for a carry. -/
  rate_le : b.rate.toNat ≤ 2 ^ 64 - 60
  /-- The carry is less than an instruction. -/
  carry_lt : b.carry.toNat < 60

variable {b : StepBudget}

theorem safe_ofRate {rate : UInt64} (h : rate.toNat ≤ 2 ^ 64 - 60) : (ofRate rate).Safe where
  rate_le := h
  carry_lt := Nat.zero_lt_succ 59

/-- **A budget whose sum fits in its word can be told.**  The frame gets the whole sixtieths of
carry and rate, and the rest is carried on. -/
theorem next?_of_lt (h : b.carry.toNat + b.rate.toNat < UInt64.size) :
    ∃ steps b', b.next? = some (steps, b') ∧ b'.rate = b.rate ∧
      steps.toNat = (b.carry.toNat + b.rate.toNat) / 60 ∧
      b'.carry.toNat = (b.carry.toNat + b.rate.toNat) % 60 := by
  have htotal : (b.carry + b.rate).toNat = b.carry.toNat + b.rate.toNat := by
    rw [UInt64.toNat_add]
    exact Nat.mod_eq_of_lt h
  have hsteps : ((b.carry + b.rate) / framesPerSecond).toNat =
      (b.carry.toNat + b.rate.toNat) / 60 := by
    rw [UInt64.toNat_div, htotal]
    rfl
  have hleft : ((b.carry + b.rate) % framesPerSecond).toNat =
      (b.carry.toNat + b.rate.toNat) % 60 := by
    rw [UInt64.toNat_mod, htotal]
    rfl
  exact ⟨_, _, if_pos h, rfl, hsteps, hleft⟩

/-- **A safe budget can be told, and stays safe.** -/
theorem Safe.next? (h : b.Safe) : ∃ steps b', b.next? = some (steps, b') ∧ b'.Safe ∧
    b'.rate = b.rate ∧ steps.toNat = (b.carry.toNat + b.rate.toNat) / 60 ∧
    b'.carry.toNat = (b.carry.toNat + b.rate.toNat) % 60 := by
  have hfits : b.carry.toNat + b.rate.toNat < UInt64.size := by
    have hrate := h.rate_le
    have hcarry := h.carry_lt
    unfold UInt64.size
    omega
  obtain ⟨steps, b', hnext, hrate, hsteps, hleft⟩ := next?_of_lt hfits
  have hsafe : b'.Safe := ⟨hrate ▸ h.rate_le, hleft ▸ Nat.mod_lt _ (by decide)⟩
  exact ⟨steps, b', hnext, hsafe, hrate, hsteps, hleft⟩

/-! ### Frames in a row -/

/-- The steps of some frames taken together, as a number without bound. -/
def total (steps : List UInt64) : Nat :=
  (steps.map UInt64.toNat).sum

@[simp]
theorem total_cons (s : UInt64) (rest : List UInt64) : total (s :: rest) = s.toNat + total rest :=
  rfl

theorem take?_succ {n : Nat} {rest : List UInt64} {s : UInt64} {b' last : StepBudget}
    (hnext : b.next? = some (s, b')) (hrest : b'.take? n = some (rest, last)) :
    b.take? (n + 1) = some (s :: rest, last) := by
  rw [StepBudget.take?, hnext]
  simp only [Option.bind_eq_bind, Option.bind_some, hrest]
  rfl

theorem take?_add {j n : Nat} {before after : List UInt64} {b' last : StepBudget}
    (hbefore : b.take? j = some (before, b')) (hafter : b'.take? n = some (after, last)) :
    b.take? (j + n) = some (before ++ after, last) := by
  induction j generalizing b before with
  | zero =>
    cases hbefore
    rw [Nat.zero_add]
    exact hafter
  | succ j ih =>
    rw [StepBudget.take?] at hbefore
    obtain ⟨⟨s, next⟩, hnext, hbefore⟩ := Option.bind_eq_some_iff.1 hbefore
    obtain ⟨⟨rest, left⟩, hrest, hbefore⟩ := Option.bind_eq_some_iff.1 hbefore
    cases hbefore
    rw [Nat.succ_add]
    exact take?_succ hnext (ih hrest)

/-- **Frames in a row get the whole sixtieths** of the carry before them and of the rate for each of
them, and the rest is carried on. -/
theorem Safe.take? (h : b.Safe) (n : Nat) : ∃ steps b', b.take? n = some (steps, b') ∧ b'.Safe ∧
    b'.rate = b.rate ∧ steps.length = n ∧
    total steps = (b.carry.toNat + n * b.rate.toNat) / 60 ∧
    b'.carry.toNat = (b.carry.toNat + n * b.rate.toNat) % 60 := by
  induction n generalizing b with
  | zero =>
    have hcarry := h.carry_lt
    refine ⟨[], b, rfl, h, rfl, rfl, ?_, ?_⟩
    · rw [Nat.zero_mul, Nat.add_zero, Nat.div_eq_of_lt hcarry]
      rfl
    · rw [Nat.zero_mul, Nat.add_zero, Nat.mod_eq_of_lt hcarry]
  | succ n ih =>
    obtain ⟨s, next, hnext, hsafe, hrate, hs, hleft⟩ := h.next?
    obtain ⟨rest, last, hrest, hlast, hrate', hlength, htotal, hcarry⟩ := ih hsafe
    -- what the first frame leaves over counts in the others
    rw [hrate, hleft] at htotal hcarry
    refine ⟨s :: rest, last, take?_succ hnext hrest, hlast, hrate'.trans hrate,
      congrArg Nat.succ hlength, ?_, ?_⟩
    · rw [total_cons, hs, htotal, Nat.succ_mul]
      omega
    · rw [hcarry, Nat.succ_mul]
      omega

/-- Frames in a row among others get the whole sixtieths of a carry and of the rate for each. -/
theorem Safe.window (h : b.Safe) {k j n : Nat} {steps : List UInt64} {last : StepBudget}
    (hsteps : b.take? k = some (steps, last)) (hk : j + n ≤ k) :
    ∃ carry < 60, total ((steps.drop j).take n) = (carry + n * b.rate.toNat) / 60 := by
  obtain ⟨before, b₁, hbefore, hsafe₁, hrate, hj, -⟩ := h.take? j
  obtain ⟨window, b₂, hwindow, hsafe₂, -, hn, htotal, -⟩ := hsafe₁.take? n
  obtain ⟨after, b₃, hafter, -⟩ := hsafe₂.take? (k - (j + n))
  have hall := take?_add hbefore (take?_add hwindow hafter)
  rw [show j + (n + (k - (j + n))) = k by omega, hsteps] at hall
  obtain ⟨rfl, rfl⟩ := Prod.mk.inj (Option.some.inj hall)
  refine ⟨b₁.carry.toNat, hsafe₁.carry_lt, ?_⟩
  rw [← hj, List.drop_left, ← hn, List.take_left, htotal, hrate, hn]

/-- **The budget of a rate neither loses nor invents steps.**  Let the rate be at most
`2 ^ 64 - 60`.  The budgets of the first `k` frames can be told.  Together they come to
`k * rate / 60` steps, and the remainder of this division is carried on.  Each frame gets a sixtieth
of the rate, rounded down or up; any sixty frames in a row, wherever they begin, get exactly the
rate; and the budget is as at first exactly if a whole number of steps has been due. -/
theorem steps_exact {rate : UInt64} (h : rate.toNat ≤ 2 ^ 64 - 60) (k : Nat) :
    ∃ steps b, (ofRate rate).take? k = some (steps, b) ∧ steps.length = k ∧
      total steps = k * rate.toNat / 60 ∧ b.carry.toNat = k * rate.toNat % 60 ∧
      (∀ s ∈ steps, s.toNat = rate.toNat / 60 ∨ s.toNat = (rate.toNat + 59) / 60) ∧
      (∀ j, j + 60 ≤ k → total ((steps.drop j).take 60) = rate.toNat) ∧
      (b = ofRate rate ↔ 60 ∣ k * rate.toNat) := by
  have hsafe := safe_ofRate h
  have hzero : (ofRate rate).carry.toNat = 0 := rfl
  have hrate : (ofRate rate).rate = rate := rfl
  obtain ⟨steps, b, htake, -, hsame, hlength, htotal, hcarry⟩ := hsafe.take? k
  rw [hzero, hrate, Nat.zero_add] at htotal hcarry
  refine ⟨steps, b, htake, hlength, htotal, hcarry, ?_, ?_, ?_⟩
  · intro s hs
    obtain ⟨j, hj, rfl⟩ := List.getElem_of_mem hs
    -- a frame is a window of length one
    obtain ⟨carry, hlt, hone⟩ := hsafe.window (j := j) (n := 1) htake (by omega)
    have hsingle : total ((steps.drop j).take 1) = steps[j].toNat := by
      rw [List.drop_eq_getElem_cons hj, List.take_succ_cons, List.take_zero, total_cons]
      rfl
    rw [hsingle, hrate] at hone
    omega
  · intro j hj
    obtain ⟨carry, hlt, hsixty⟩ := hsafe.window htake hj
    rw [hsixty, hrate]
    omega
  · rw [Nat.dvd_iff_mod_eq_zero, ← hcarry]
    constructor
    · rintro rfl
      exact hzero
    · intro hnone
      obtain ⟨_, _⟩ := b
      rw [ofRate, StepBudget.mk.injEq]
      exact ⟨hsame, UInt64.toNat_inj.1 hnone⟩

/-- At the greatest rate that is always safe, the sixty-first frame has a part of a step left over,
and the sixty frames up to it come to the rate. -/
theorem steps_exact_greatest :
    let rate : UInt64 := 18446744073709551556
    rate.toNat ≤ 2 ^ 64 - 60 ∧ ∃ steps b, (ofRate rate).take? 61 = some (steps, b) ∧
      total steps = 18754189808271377415 ∧ b.carry.toNat = 16 ∧ b ≠ ofRate rate ∧
      total (steps.tail.take 60) = rate.toNat := by
  intro rate
  have hrate : rate.toNat = 18446744073709551556 := rfl
  have hle : rate.toNat ≤ 2 ^ 64 - 60 := by decide
  obtain ⟨steps, b, htake, -, htotal, hcarry, -, hsixty, hnew⟩ := steps_exact hle 61
  refine ⟨hle, steps, b, htake, ?_, ?_, ?_, ?_⟩
  · rw [htotal, hrate]
  · rw [hcarry, hrate]
  · rw [Ne, hnew, hrate]
    decide
  · have htail := hsixty 1 (by decide)
    rwa [List.drop_one] at htail

end StepBudget

end Chip8

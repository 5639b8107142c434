import Mathlib.Data.Int.GCD
import Chip8.Proofs.StepBudget

/-!
# Rates that every frame bears

A frame adds its rate to what the frames before it left over, in a word of 64 bits.  The first `j`
frames of rate `r` leave over `j * r % 60`.  So the sum of the next one is `j * r % 60 + r`, and the
budgets of a rate can be told as long as these sums fit.

What is left over is a multiple of the greatest common divisor of the rate and sixty, and each such
multiple below sixty is left over at some time in the first second.  So the greatest carry is sixty
less this divisor, and whether it goes with the rate into a word decides about all frames.  Every
rate up to `2 ^ 64 - 60` is borne; of the greater ones only some are, as those that are a multiple
of sixty.

* `StepBudget.isSome_take?_iff` : frames in a row, from any carry on;
* `StepBudget.carry_le`, `StepBudget.exists_carry_eq` : the greatest carry;
* **`StepBudget.every_frame_told_iff`** : which rates are borne, and for how long the others are;
* `StepBudget.greatest_rate_fails` : the greatest rate is not borne by the second frame.
-/

namespace Chip8

namespace StepBudget

variable {b b' : StepBudget} {s : UInt64}

/-! ### Frames in a row -/

theorem isSome_take?_succ (hnext : b.next? = some (s, b')) (k : Nat) :
    (b.take? (k + 1)).isSome = (b'.take? k).isSome := by
  rw [take?, hnext]
  simp only [Option.bind_eq_bind, Option.bind_some]
  cases b'.take? k <;> rfl

theorem isSome_take?_of_next?_eq_none (hnext : b.next? = none) (k : Nat) :
    (b.take? (k + 1)).isSome = false := by
  rw [take?, hnext]
  rfl

theorem isSome_take?_iff (hcarry : b.carry.toNat < 60) (k : Nat) :
    (b.take? k).isSome ↔
      ∀ j < k, (b.carry.toNat + j * b.rate.toNat) % 60 + b.rate.toNat < UInt64.size := by
  induction k generalizing b with
  | zero => simp [take?]
  | succ k ih =>
    have hfirst : (b.carry.toNat + 0 * b.rate.toNat) % 60 = b.carry.toNat := by
      rw [Nat.zero_mul]
      exact Nat.mod_eq_of_lt hcarry
    rw [Nat.forall_lt_succ_left, hfirst]
    by_cases hfits : b.carry.toNat + b.rate.toNat < UInt64.size
    · obtain ⟨s, b', hnext, hrate, -, hleft⟩ := next?_of_lt hfits
      have hlt : b'.carry.toNat < 60 := hleft ▸ Nat.mod_lt _ (by decide)
      -- the carry of a later frame does not care where the frames before it are cut
      have hlater : ∀ j, (b'.carry.toNat + j * b.rate.toNat) % 60 =
          (b.carry.toNat + (j + 1) * b.rate.toNat) % 60 := by
        intro j
        rw [hleft, Nat.mod_add_mod, Nat.succ_mul, Nat.add_assoc, Nat.add_comm b.rate.toNat]
      simp only [isSome_take?_succ hnext, ih hlt, hrate, hlater, hfits, true_and]
    · have hnone : b.next? = none := next?_eq_none_iff.2 (Nat.not_lt.1 hfits)
      simp only [isSome_take?_of_next?_eq_none hnone, hfits, false_and, Bool.false_eq_true]

/-! ### The greatest carry -/

/-- What frames leave over is at least a divisor of the rate away from sixty. -/
theorem carry_le (rate j : Nat) : j * rate % 60 ≤ 60 - Nat.gcd rate 60 := by
  have hlt : j * rate % 60 < 60 := Nat.mod_lt _ (by decide)
  have hcarry : Nat.gcd rate 60 ∣ j * rate % 60 :=
    (Nat.dvd_mod_iff (Nat.gcd_dvd_right rate 60)).2
      (dvd_mul_of_dvd_right (Nat.gcd_dvd_left rate 60) j)
  have hrest : Nat.gcd rate 60 ∣ 60 - j * rate % 60 :=
    Nat.dvd_sub (Nat.gcd_dvd_right rate 60) hcarry
  have hle := Nat.le_of_dvd (Nat.sub_pos_of_lt hlt) hrest
  omega

/-- In the first second some frames leave over just that. -/
theorem exists_carry_eq (rate : Nat) : ∃ j < 60, j * rate % 60 = 60 - Nat.gcd rate 60 := by
  have hle : Nat.gcd rate 60 ≤ 60 := Nat.gcd_le_right rate (by decide)
  by_cases hall : Nat.gcd rate 60 < 60
  · obtain ⟨m, -, hm⟩ := Nat.exists_mul_mod_eq_gcd hall
    -- 59 is one below zero modulo sixty, so it turns the divisor around
    refine ⟨59 * m % 60, Nat.mod_lt _ (by decide), ?_⟩
    have hpos : 0 < Nat.gcd rate 60 := Nat.gcd_pos_of_pos_right rate (by decide)
    calc 59 * m % 60 * rate % 60 = 59 * m * rate % 60 := Nat.mod_mul_mod _ _ _
      _ = 59 * (rate * m % 60) % 60 := by
        rw [Nat.mul_mod_mod, Nat.mul_assoc, Nat.mul_comm m]
      _ = 59 * Nat.gcd rate 60 % 60 := by rw [hm]
      _ = 60 - Nat.gcd rate 60 := by omega
  · refine ⟨0, by decide, ?_⟩
    rw [Nat.zero_mul, Nat.zero_mod]
    omega

/-! ### The rates -/

/-- **The rates that every frame bears.**  Of any rate, the budgets of the first `k` frames can be
told exactly if the sum of each of them fits in its word, where frame `j` adds the rate to
`j * rate % 60`.  All frames can be told exactly if the rate and the greatest carry go into a word;
and if the frames of the first second can be told, so can all others. -/
theorem every_frame_told_iff (rate : UInt64) :
    (∀ k, ((ofRate rate).take? k).isSome ↔
      ∀ j < k, j * rate.toNat % 60 + rate.toNat < 2 ^ 64) ∧
    ((∀ k, ((ofRate rate).take? k).isSome) ↔
      rate.toNat + (60 - Nat.gcd rate.toNat 60) < 2 ^ 64) ∧
    (((ofRate rate).take? 60).isSome → ∀ k, ((ofRate rate).take? k).isSome) := by
  have htold : ∀ k, ((ofRate rate).take? k).isSome ↔
      ∀ j < k, j * rate.toNat % 60 + rate.toNat < 2 ^ 64 := by
    intro k
    have hstart : (ofRate rate).carry.toNat = 0 := rfl
    have hfrom := isSome_take?_iff (b := ofRate rate) (by rw [hstart]; decide) k
    simp only [hstart, Nat.zero_add] at hfrom
    exact hfrom
  have hborne : rate.toNat + (60 - Nat.gcd rate.toNat 60) < 2 ^ 64 →
      ∀ k, ((ofRate rate).take? k).isSome := by
    intro hfits k
    refine (htold k).2 fun j _ => ?_
    have hle := carry_le rate.toNat j
    omega
  have hsecond : ((ofRate rate).take? 60).isSome →
      rate.toNat + (60 - Nat.gcd rate.toNat 60) < 2 ^ 64 := by
    intro hsixty
    obtain ⟨j, hj, hgreatest⟩ := exists_carry_eq rate.toNat
    have hsum := (htold 60).1 hsixty j hj
    omega
  exact ⟨htold, ⟨fun hall => hsecond (hall 60), hborne⟩, fun hsixty => hborne (hsecond hsixty)⟩

/-- The greatest rate is not borne: its first frame leaves over 15 sixtieths, and in the second one
the sum outgrows its word. -/
theorem greatest_rate_fails :
    let rate : UInt64 := 18446744073709551615
    ∃ b, (ofRate rate).next? = some (307445734561825860, b) ∧ b.carry = 15 ∧
      2 ^ 64 ≤ b.carry.toNat + b.rate.toNat ∧ (ofRate rate).take? 2 = none := by
  intro rate
  exact ⟨⟨rate, 15⟩, by decide, rfl, by decide, by decide⟩

end StepBudget

end Chip8

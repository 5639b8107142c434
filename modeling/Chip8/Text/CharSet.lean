/-!
# Sets of characters

A property of characters is a set of code points, written as closed ranges in ascending order.  The
tables in the modules under this one follow Unicode 16.

## Main definitions

* `Text.CharSet`: closed ranges of code points, ascending and apart.
* `Text.CharSet.contains`: whether a character is in the set.
-/

namespace Chip8

namespace Text

/-- Whether closed ranges ascend and lie apart, so that no two of them could be one. -/
def ascending : List (Nat × Nat) → Bool
  | [] => true
  | [r] => r.1 ≤ r.2
  | r :: s :: rest => r.1 ≤ r.2 && r.2 + 1 < s.1 && ascending (s :: rest)

/-- A set of characters. -/
structure CharSet where
  /-- The first and the last code point of each range. -/
  ranges : List (Nat × Nat)
  /-- The ranges ascend and lie apart. -/
  isAscending : ascending ranges = true := by decide +kernel

namespace CharSet

/-- Whether a character is in the set. -/
def contains (s : CharSet) (c : Char) : Bool :=
  s.ranges.any fun r => decide (r.1 ≤ c.toNat) && decide (c.toNat ≤ r.2)

theorem le_of_ascending {r : Nat × Nat} {rest : List (Nat × Nat)}
    (h : ascending (r :: rest) = true) : ∀ s ∈ r :: rest, r.1 ≤ s.1 := by
  induction rest generalizing r with
  | nil => simp
  | cons t rest ih =>
    simp only [ascending, Bool.and_eq_true, decide_eq_true_eq] at h
    intro s hs
    rcases List.mem_cons.mp hs with rfl | hs
    · exact Nat.le_refl _
    · have := ih h.2 s hs
      omega

theorem contains_eq_false_of_lt {s : CharSet} {c : Char} {first : Nat × Nat}
    (hf : s.ranges.head? = some first) (hc : c.toNat < first.1) : s.contains c = false := by
  have ha := s.isAscending
  obtain ⟨rest, hr⟩ := List.head?_eq_some_iff.mp hf
  rw [hr] at ha
  have hle := le_of_ascending ha
  rw [contains, hr, List.any_eq_false]
  intro t ht
  have := hle t ht
  simp only [Bool.and_eq_true, decide_eq_true_eq]
  omega

end CharSet

end Text

end Chip8

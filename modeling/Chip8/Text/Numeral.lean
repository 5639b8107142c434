/-!
# Decimal numbers in arguments

Numbers on the command line are written in decimal: one plus sign if wanted, then at least one of
the digits 0 to 9 and nothing else.  They have to fit in 64 bits.

## Main definitions

* `Text.readNumber?`: the number a text stands for.
* `Text.numeral`: the texts that stand for a number.
-/

namespace Chip8

namespace Text

/-- A text without the one plus sign it may start with. -/
def dropPlus : List Char → List Char
  | '+' :: digits => digits
  | digits => digits

/-- The number a text stands for, if it is one of at most 64 bits. -/
def readNumber? (text : String) : Option UInt64 :=
  let digits := dropPlus text.toList
  if !digits.isEmpty && digits.all Char.isDigit then
    let n := Nat.ofDigitChars 10 digits 0
    if n < UInt64.size then some (UInt64.ofNat n) else none
  else none

/-- The digits of a number behind some zeros. -/
def digits (zeros : Nat) (n : UInt64) : List Char :=
  List.replicate zeros '0' ++ Nat.toDigits 10 n.toNat

/-- A number in decimal, behind a plus sign and zeros if they are wanted. -/
def numeral (plus : Bool) (zeros : Nat) (n : UInt64) : String :=
  String.ofList ((if plus then ['+'] else []) ++ digits zeros n)

/-! ### Numbers written and read -/

theorem isDigit_of_mem_digits {zeros : Nat} {n : UInt64} {c : Char} (h : c ∈ digits zeros n) :
    c.isDigit := by
  obtain hzero | hdigit := List.mem_append.1 h
  · rw [(List.mem_replicate.1 hzero).2]
    rfl
  · exact Nat.isDigit_of_mem_toDigits (by decide) (by decide) hdigit

theorem ofDigitChars_digits (zeros : Nat) (n : UInt64) :
    Nat.ofDigitChars 10 (digits zeros n) 0 = n.toNat := by
  rw [digits, Nat.ofDigitChars_append, Nat.ofDigitChars_replicate_zero, Nat.mul_zero,
    Nat.ofDigitChars_ten_toDigits]

theorem mem_numeral {plus : Bool} {zeros : Nat} {n : UInt64} {c : Char}
    (h : c ∈ (numeral plus zeros n).toList) : c = '+' ∨ c.isDigit := by
  rw [numeral, String.toList_ofList] at h
  obtain hsign | hdigit := List.mem_append.1 h
  · cases plus with
    | false => cases hsign
    | true => exact .inl (List.mem_singleton.1 hsign)
  · exact .inr (isDigit_of_mem_digits hdigit)

theorem dropPlus_numeral (plus : Bool) (zeros : Nat) (n : UInt64) :
    dropPlus (numeral plus zeros n).toList = digits zeros n := by
  rw [numeral, String.toList_ofList]
  cases plus with
  | true => rfl
  | false =>
    show dropPlus (digits zeros n) = digits zeros n
    have hdigit : ∀ c ∈ digits zeros n, c.isDigit := fun c => isDigit_of_mem_digits
    cases hd : digits zeros n with
    | nil => rfl
    | cons c rest =>
      have hc : c ≠ '+' := by
        rintro rfl
        exact absurd (hdigit '+' (hd ▸ List.mem_cons_self)) (by decide)
      simp [dropPlus, hc]

/-- A number that is written is read again, up to the greatest. -/
theorem readNumber?_numeral (plus : Bool) (zeros : Nat) (n : UInt64) :
    readNumber? (numeral plus zeros n) = some n := by
  have hdigit : (digits zeros n).all Char.isDigit = true :=
    List.all_eq_true.2 fun c => isDigit_of_mem_digits
  have hsome : (digits zeros n).isEmpty = false :=
    List.isEmpty_eq_false_iff.2 (List.append_ne_nil_of_right_ne_nil _ Nat.toDigits_ne_nil)
  rw [readNumber?, dropPlus_numeral, hdigit, hsome, ofDigitChars_digits]
  simp [n.toNat_lt]

end Text

end Chip8

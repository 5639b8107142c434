/-!
# Hexadecimal digits

Registers, keys and the parts of an instruction word are hexadecimal digits: numbers below sixteen.
-/

namespace Chip8

/-- There is a digit, so numerals can stand for digits. -/
instance neZero_sixteen : @NeZero Nat Zero.ofOfNat0 16 := ⟨by decide⟩

theorem mod_sixteen_lt (n : Nat) : n % 16 < 16 := Nat.mod_lt n (by decide)

end Chip8

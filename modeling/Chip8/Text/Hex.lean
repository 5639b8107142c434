/-!
# Hexadecimal text

Numbers in messages and in the register view are written in upper-case hexadecimal, padded with
zeros to a least number of digits and never cut.

## Main definitions

* `Text.hex`: the digits of a number, at least as many as asked for.
-/

namespace Chip8

namespace Text

/-- The upper-case hexadecimal digits of `n`, with zeros in front up to `width` digits. -/
def hex (width n : Nat) : String :=
  String.ofList (((Nat.toDigits 16 n).map Char.toUpper).leftpad width '0')

end Text

end Chip8

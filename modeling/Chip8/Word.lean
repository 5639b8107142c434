/-!
# Instruction words

An instruction is a word of two bytes, the high one first.  Its four-bit digits are named after
their part in an instruction: `op x y n`; the last two digits together are the byte `nn`, the last
three the address `nnn`.

## Main definitions

* `Word`, `Word.ofBytes`, `Word.bytes`: words and their two bytes.
* `Word.op`, `Word.x`, `Word.y`, `Word.n`, `Word.nn`, `Word.nnn`: the fields.
-/

namespace Chip8

/-- An instruction word. -/
abbrev Word := UInt16

namespace Word

/-- The word with these two bytes. -/
def ofBytes (high low : UInt8) : Word :=
  UInt16.ofNat (high.toNat * 256 + low.toNat)

/-- The two bytes of a word in the order they have in memory. -/
def bytes (w : Word) : List UInt8 :=
  [UInt8.ofNat (w.toNat / 256), UInt8.ofNat (w.toNat % 256)]

theorem ofBytes_eq_iff {w : Word} {high low : UInt8} :
    ofBytes high low = w ↔ w.bytes = [high, low] := by
  have hw := w.toNat_lt
  have hhigh := high.toNat_lt
  have hlow := low.toNat_lt
  simp only [bytes, List.cons.injEq, and_true, ← UInt8.toNat_inj, ← UInt16.toNat_inj, ofBytes,
    UInt16.toNat_ofNat', UInt8.toNat_ofNat']
  omega

/-- First digit: the kind of operation. -/
def op (w : Word) : Fin 16 :=
  ⟨w.toNat / 4096, by have := w.toNat_lt; omega⟩

/-- Second digit: usually the register that is changed. -/
def x (w : Word) : Fin 16 :=
  ⟨w.toNat / 256 % 16, by omega⟩

/-- Third digit: usually the second register. -/
def y (w : Word) : Fin 16 :=
  ⟨w.toNat / 16 % 16, by omega⟩

/-- Fourth digit. -/
def n (w : Word) : Fin 16 :=
  ⟨w.toNat % 16, by omega⟩

/-- The low byte. -/
def nn (w : Word) : UInt8 :=
  UInt8.ofNat (w.toNat % 256)

/-- The last three digits, an address. -/
def nnn (w : Word) : Fin 4096 :=
  ⟨w.toNat % 4096, by omega⟩

end Word

end Chip8

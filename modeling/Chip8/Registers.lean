import Chip8.Digit
import Chip8.Text.Hex

/-!
# Registers

Sixteen byte registers V0 to VF.  VF doubles as the flag: instructions that report a carry, a bit
shifted out or a collision write it after their result, so the flag wins where VF is also the
destination.

## Main definitions

* `Register`, `Register.flag`, `Register.upTo`: the registers.
* `Registers.read`, `Registers.write`, `Registers.setFlag`: the register file.
* `Registers.firstValues`, `Registers.writeFirst`: V0 to Vx as a block of bytes.
-/

namespace Chip8

/-- A register, by the digit that names it in an instruction. -/
abbrev Register := Fin 16

namespace Register

/-- VF, the flag. -/
def flag : Register := 15

/-- The register named by the low four bits of a number. -/
def ofNibble (n : Nat) : Register :=
  ⟨n % 16, mod_sixteen_lt n⟩

/-- Registers are named `V0` to `VF`. -/
def name (r : Register) : String :=
  "V" ++ Text.hex 1 r.val

/-- V0 to `r`, in order and with `r`. -/
def upTo (r : Register) : List Register :=
  (List.finRange 16).take (r.val + 1)

theorem mem_upTo {r x : Register} : r ∈ x.upTo ↔ r.val ≤ x.val := by
  have hr := r.isLt
  simp only [upTo, List.mem_take_iff_getElem, List.getElem_finRange, List.length_finRange]
  constructor
  · rintro ⟨k, hk, rfl⟩
    simp only [Fin.val_cast]
    omega
  · intro h
    exact ⟨r.val, by omega, rfl⟩

end Register

/-- The values of all registers. -/
structure Registers where
  /-- The bytes by register. -/
  values : Vector UInt8 16
  deriving DecidableEq

namespace Registers

/-- All zero. -/
def zero : Registers :=
  ⟨Vector.replicate 16 0⟩

/-- The value of a register. -/
def read (v : Registers) (r : Register) : UInt8 :=
  v.values[r]

/-- Replaces the value of a register. -/
def write (v : Registers) (r : Register) (value : UInt8) : Registers :=
  ⟨v.values.set r value⟩

/-- Writes the flag as one or zero. -/
def setFlag (v : Registers) (on : Bool) : Registers :=
  v.write Register.flag (if on then 1 else 0)

/-- The bytes V0 to VF. -/
def toList (v : Registers) : List UInt8 :=
  v.values.toList

/-- The values of V0 to `r`, in order. -/
def firstValues (v : Registers) (r : Register) : List UInt8 :=
  r.upTo.map v.read

/-- The registers with the bytes of a list written to V0, V1 and so on. -/
def writeFirst (v : Registers) (block : List UInt8) : Registers :=
  ((List.finRange 16).zip block).foldl (fun acc p => acc.write p.1 p.2) v

theorem length_firstValues (v : Registers) (r : Register) :
    (v.firstValues r).length = r.val + 1 := by
  have hr := r.isLt
  simp only [firstValues, Register.upTo, List.length_map, List.length_take,
    List.length_finRange]
  omega

theorem read_write (v : Registers) (r q : Register) (value : UInt8) :
    (v.write r value).read q = if q = r then value else v.read q := by
  by_cases h : q = r
  · subst h
    simp [read, write]
  · have h' : r.val ≠ q.val := fun e => h (Fin.ext e.symm)
    simp [read, write, h, h']

theorem read_write_self (v : Registers) (r : Register) (value : UInt8) :
    (v.write r value).read r = value :=
  (read_write v r r value).trans (if_pos rfl)

theorem read_setFlag (v : Registers) (on : Bool) (q : Register) :
    (v.setFlag on).read q = if q = Register.flag then (if on then 1 else 0) else v.read q :=
  read_write v Register.flag q _

theorem read_foldl_write (rs : List Register) (block : List UInt8) (v : Registers) (r : Register)
    (h : rs.Nodup) :
    ((rs.zip block).foldl (fun acc p => acc.write p.1 p.2) v).read r =
      if rs.contains r then block.getD (rs.idxOf r) (v.read r) else v.read r := by
  induction rs generalizing block v with
  | nil => simp
  | cons q rs ih =>
    obtain ⟨hq, hrs⟩ := List.nodup_cons.1 h
    cases block with
    | nil => simp
    | cons b block =>
      rw [List.zip_cons_cons, List.foldl_cons, ih _ _ hrs, read_write]
      by_cases hr : r = q
      · subst hr
        simp [hq]
      · have hne : (q == r) = false := beq_false_of_ne (Ne.symm hr)
        simp [hr, List.idxOf_cons, hne]

theorem read_writeFirst (v : Registers) (block : List UInt8) (r : Register) :
    (v.writeFirst block).read r = block.getD r.val (v.read r) := by
  have hr : (List.finRange 16).idxOf r = r.val := by
    have h := List.Nodup.idxOf_getElem (List.nodup_finRange 16) r.val (by simp)
    rw [List.getElem_finRange] at h
    exact h
  have hmem : (List.finRange 16).contains r = true := List.contains_iff_mem.2 (List.mem_finRange r)
  rw [writeFirst, read_foldl_write _ _ _ _ (List.nodup_finRange 16), if_pos hmem, hr]

theorem getD_firstValues (v : Registers) {r x : Register} (h : r.val ≤ x.val) (d : UInt8) :
    (v.firstValues x).getD r.val d = v.read r := by
  have hr : r.val < (v.firstValues x).length := by
    rw [length_firstValues]
    omega
  rw [List.getD_eq_getElem?_getD, List.getElem?_eq_getElem hr, Option.getD_some]
  simp [firstValues, Register.upTo]

theorem ext_read {v w : Registers} (h : ∀ r, v.read r = w.read r) : v = w := by
  obtain ⟨values⟩ := v
  obtain ⟨values'⟩ := w
  congr 1
  apply Vector.ext
  intro r hr
  exact h ⟨r, hr⟩

end Registers

end Chip8

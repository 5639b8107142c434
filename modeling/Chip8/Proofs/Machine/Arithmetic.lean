import Chip8.Proofs.Machine.Footprint

/-!
# Arithmetic with the flag

The arithmetic operations on two registers give a byte and a flag that together say the whole
result.  What they say is an equation between integers (`Operation.Balances`), and it has just one
solution in bytes and flags (`Operation.balances_unique`).  The registers are read before one of
them is written and the flag is written last, so the equation holds of the operands as they were
whichever registers these are, and the flag is right even where it takes the place of the result.

* `Operation.balances` : the result and the flag of an operation solve its equation;
* `Machine.balances_combine` : so do the registers, unless the flag is the destination;
* **`Machine.arithmetic_exact`** : the operations on two registers, the addition to the index and
  the addition of a byte.
-/

namespace Chip8

namespace Operation

/-- The operations whose result is a number and not a pattern of bits. -/
def arithmetic : List Operation :=
  [add, sub, shiftRight, subFrom, shiftLeft]

/-- What the result and the flag of an arithmetic operation on two bytes have to do with these, as
integers: a carry counts for 256, and a flag that is not set after a subtraction is a borrow of 256.
The other operations have no such equation. -/
def Balances (d : Dialect) (a b : UInt8) (result flag : Int) : Operation → Prop
  | add => result + 256 * flag = a.toNat + b.toNat
  | sub => result + b.toNat = a.toNat + 256 * (1 - flag)
  | subFrom => result + a.toNat = b.toNat + 256 * (1 - flag)
  | shiftRight => 2 * result + flag = (shifted d a b).toNat
  | shiftLeft => result + 256 * flag = 2 * (shifted d a b).toNat
  | copy | or | and | xor => False

variable {f : Operation} {d : Dialect} {a b : UInt8} {on : Bool}

theorem exists_flag_of_arithmetic (hf : f ∈ arithmetic) (d : Dialect) (a b : UInt8) :
    ∃ on, f.flag d a b = some on := by
  cases f with
  | copy | or | and | xor => exact absurd hf (by decide)
  | add | sub | shiftRight | subFrom | shiftLeft => exact ⟨_, rfl⟩

theorem balances (hf : f ∈ arithmetic) (hon : f.flag d a b = some on) :
    f.Balances d a b (f.result d a b).toNat (if on then 1 else 0) := by
  have ha := a.toNat_lt
  have hb := b.toNat_lt
  have hs := (shifted d a b).toNat_lt
  cases f with
  | copy | or | and | xor => exact absurd hf (by decide)
  | add =>
    obtain rfl := Option.some.inj hon
    simp only [Balances, result, UInt8.toNat_add, decide_eq_true_eq]
    split <;> omega
  | sub | subFrom =>
    obtain rfl := Option.some.inj hon
    simp only [Balances, result, UInt8.toNat_sub, decide_eq_true_eq, UInt8.le_iff_toNat_le]
    split <;> omega
  | shiftRight =>
    obtain rfl := Option.some.inj hon
    have hhalf : (shifted d a b >>> 1).toNat = (shifted d a b).toNat / 2 := by
      rw [UInt8.toNat_shiftRight]
      exact Nat.shiftRight_eq_div_pow _ 1
    simp only [Balances, result, hhalf, decide_eq_true_eq]
    split <;> omega
  | shiftLeft =>
    obtain rfl := Option.some.inj hon
    have hdouble : (shifted d a b <<< 1).toNat = 2 * (shifted d a b).toNat % 256 := by
      rw [UInt8.toNat_shiftLeft]
      exact congrArg (· % 256) ((Nat.shiftLeft_eq _ 1).trans (Nat.mul_comm _ 2))
    simp only [Balances, result, hdouble, decide_eq_true_eq]
    split <;> omega

/-- No equation has two solutions in bytes and flags. -/
theorem balances_unique {r r' : UInt8} {c c' : Nat} (hc : c ≤ 1) (hc' : c' ≤ 1)
    (h : f.Balances d a b r.toNat c) (h' : f.Balances d a b r'.toNat c') : r = r' ∧ c = c' := by
  have hr := r.toNat_lt
  have hr' := r'.toNat_lt
  rw [← UInt8.toNat_inj]
  cases f with
  | copy | or | and | xor => exact h.elim
  | add | sub | shiftRight | subFrom | shiftLeft =>
    unfold Balances at h h'
    omega

end Operation

namespace Machine

variable {f : Operation} {x y : Register}

/-! ### The registers after an operation -/

/-- The flag that an arithmetic operation leaves, with the result that belongs to it, whether this
is kept or not. -/
theorem flag_combine (m : Machine) (hf : f ∈ Operation.arithmetic) (x y : Register) :
    let a := m.registers.read x
    let b := m.registers.read y
    let flag := (m.combine f x y).registers.read Register.flag
    flag.toNat ≤ 1 ∧ f.Balances m.dialect a b (f.result m.dialect a b).toNat flag.toNat := by
  intro a b flag
  obtain ⟨on, hon⟩ := Operation.exists_flag_of_arithmetic hf m.dialect a b
  have hflag : flag = if on then 1 else 0 := m.read_flag_combine f x y hon
  have hbalances := Operation.balances hf hon
  rw [hflag]
  cases on
  · exact ⟨by decide, hbalances⟩
  · exact ⟨by decide, hbalances⟩

theorem balances_combine (m : Machine) (hf : f ∈ Operation.arithmetic) (y : Register)
    (hx : x ≠ Register.flag) :
    f.Balances m.dialect (m.registers.read x) (m.registers.read y)
      ((m.combine f x y).registers.read x).toNat
      ((m.combine f x y).registers.read Register.flag).toNat := by
  rw [m.read_combine_of_ne f x y hx, if_pos rfl]
  exact (m.flag_combine hf x y).2

theorem balances_addIndex (m : Machine) (hindex : m.index ≤ 0xFFF) (x : Register) :
    let m' := m.effect (.addIndex x)
    let flag := m'.registers.read Register.flag
    flag.toNat ≤ 1 ∧ m'.index + 4096 * flag.toNat = m.index + (m.registers.read x).toNat := by
  intro m' flag
  have ha := (m.registers.read x).toNat_lt
  have hsum : m'.index = (m.index + (m.registers.read x).toNat) % 4096 := rfl
  have hflag : flag = if 4096 ≤ m.index + (m.registers.read x).toNat then 1 else 0 := by
    refine (Registers.read_setFlag _ _ _).trans ?_
    rw [if_pos rfl]
    simp only [decide_eq_true_eq]
  rw [hsum, hflag]
  split
  · exact ⟨by decide, by rw [UInt8.toNat_one]; omega⟩
  · exact ⟨by decide, by rw [UInt8.toNat_zero]; omega⟩

/-- **Register arithmetic is exact, flag included.**  After an arithmetic operation the flag is zero
or one, and unless it is itself the destination, destination and flag solve the equation of the
operation for the operands as they were.  The flag is the only one that the equation allows; so
where it is the destination, it still is what the same operands leave with another destination.
Adding to the index is exact, too, if the index is an address, and adding a byte is exact modulo
256 and leaves the flag alone.  No other register changes. -/
theorem arithmetic_exact (m : Machine) (hindex : m.index ≤ 0xFFF) (x y : Register) :
    let a := m.registers.read x
    let b := m.registers.read y
    (∀ f ∈ Operation.arithmetic, ∃ m', m.execute (.combine f x y) = .ok m' ∧
      let flag := m'.registers.read Register.flag
      flag.toNat ≤ 1 ∧
      (x ≠ Register.flag →
        f.Balances m.dialect a b (m'.registers.read x).toNat flag.toNat) ∧
      (∀ (r : UInt8) (c : Nat), c ≤ 1 → f.Balances m.dialect a b r.toNat c → c = flag.toNat) ∧
      (∀ (n n' : Machine) (z w : Register), n.dialect = m.dialect → n.registers.read z = a →
        n.registers.read w = b → n.execute (.combine f z w) = .ok n' →
        n'.registers.read Register.flag = flag) ∧
      ∀ r, r ≠ x → r ≠ Register.flag → m'.registers.read r = m.registers.read r) ∧
    (∃ m', m.execute (.addIndex x) = .ok m' ∧
      let flag := m'.registers.read Register.flag
      flag.toNat ≤ 1 ∧ m'.index + 4096 * flag.toNat = m.index + a.toNat ∧
      ∀ r, r ≠ Register.flag → m'.registers.read r = m.registers.read r) ∧
    ∀ byte : UInt8, ∃ m', m.execute (.addByte x byte) = .ok m' ∧
      (m'.registers.read x).toNat = (a.toNat + byte.toNat) % 256 ∧
      ∀ r, r ≠ x → m'.registers.read r = m.registers.read r := by
  intro a b
  refine ⟨fun f hf => ⟨m.combine f x y, rfl, ?_⟩, ?_, fun byte => ?_⟩
  · obtain ⟨hone, hflag⟩ := m.flag_combine hf x y
    refine ⟨hone, m.balances_combine hf y, fun r c hc hr => ?_, ?_, fun r hx hr => ?_⟩
    · exact (Operation.balances_unique hc hone hr hflag).2
    · intro n n' z w hdialect hz hw hn
      obtain rfl : n.combine f z w = n' := Except.ok.inj hn
      obtain ⟨hone', hflag'⟩ := n.flag_combine hf z w
      rw [hdialect, hz, hw] at hflag'
      exact UInt8.toNat_inj.1 (Operation.balances_unique hone' hone hflag' hflag).2
    · rw [m.read_combine_of_ne f x y hr, if_neg hx]
  · obtain ⟨hone, hsum⟩ := m.balances_addIndex hindex x
    exact ⟨_, rfl, hone, hsum, fun r hr => (Registers.read_setFlag _ _ _).trans (if_neg hr)⟩
  · refine ⟨_, rfl, ?_, fun r hr => (Registers.read_write _ _ _ _).trans (if_neg hr)⟩
    exact (congrArg UInt8.toNat (Registers.read_write_self _ _ _)).trans (UInt8.toNat_add _ _)

/-- With 200 in the flag register: added to itself it leaves the carry, taken from zero it leaves a
borrow, and added to the last address it leaves an index that has gone round. -/
theorem arithmetic_exact_flag :
    let m := { fresh {} (.ofList []) with
      index := 0xFFF, registers := Registers.zero.write Register.flag 200 }
    m.index ≤ 0xFFF ∧
      (∃ m', m.execute (.combine .add Register.flag Register.flag) = .ok m' ∧
        (m'.registers.read Register.flag).toNat = 1) ∧
      (∃ m', m.execute (.combine .sub 1 Register.flag) = .ok m' ∧
        (m'.registers.read 1).toNat = 56 ∧ (m'.registers.read Register.flag).toNat = 0) ∧
      ∃ m', m.execute (.addIndex Register.flag) = .ok m' ∧
        m'.index = 199 ∧ (m'.registers.read Register.flag).toNat = 1 := by
  intro m
  have hindex : m.index ≤ 0xFFF := Nat.le_refl _
  have hflag : m.registers.read Register.flag = 200 := by decide
  have hzero : m.registers.read 1 = 0 := by decide
  have hdest : (1 : Register) ≠ Register.flag := by decide
  obtain ⟨hself, hpast, -⟩ := arithmetic_exact m hindex Register.flag Register.flag
  obtain ⟨hother, -, -⟩ := arithmetic_exact m hindex 1 Register.flag
  refine ⟨hindex, ?_, ?_, ?_⟩
  · obtain ⟨m', hok, -, -, hunique, -⟩ := hself .add (by decide)
    refine ⟨m', hok, (hunique 144 1 (Nat.le_refl 1) ?_).symm⟩
    rw [hflag]
    rfl
  · obtain ⟨m', hok, hone, hbalances, -⟩ := hother .sub (by decide)
    have hdifference := hbalances hdest
    rw [hflag, hzero] at hdifference
    have hsum : ((m'.registers.read 1).toNat : Int) + 200 =
        0 + 256 * (1 - (m'.registers.read Register.flag).toNat) := hdifference
    have hlt := (m'.registers.read 1).toNat_lt
    exact ⟨m', hok, by omega, by omega⟩
  · obtain ⟨m', hok, hone, hsum, -⟩ := hpast
    have hvalue : m'.index + 4096 * (m'.registers.read Register.flag).toNat = 0xFFF + 200 := by
      rw [hsum, hflag]
      rfl
    have hlt : m'.index < 4096 := by
      obtain rfl := Except.ok.inj hok
      exact Nat.mod_lt _ (by decide)
    exact ⟨m', hok, by omega, by omega⟩

end Machine

end Chip8

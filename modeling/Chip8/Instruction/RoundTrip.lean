import Chip8.Instruction.Encoding

/-!
# Words and instructions correspond

Decoding and encoding are inverse to each other: `Instruction.decode?_eq_some_iff` says that the
words that stand for an instruction are exactly its encoding.  So no two words stand for the same
instruction, and every instruction is what some word stands for; any other word is refused
(`Instruction.decode_eq_ok_iff`, `Instruction.decode_eq_error`).

The proof goes through the fields of a word put together from digits
(`Instruction.fields_wordWithAddress` and its companions).
-/

namespace Chip8

namespace Instruction

/-! ### The fields of a word put together -/

theorem toNat_wordWithAddress {op : Nat} (h : op < 16) (a : Fin 4096) :
    (wordWithAddress op a).toNat = op * 4096 + a.val := by
  have := a.isLt
  simp only [wordWithAddress, UInt16.toNat_ofNat']
  omega

theorem toNat_wordWithByte {op byte : Nat} (h : op < 16) (x : Register) (hb : byte < 256) :
    (wordWithByte op x byte).toNat = op * 4096 + x.val * 256 + byte := by
  have := x.isLt
  simp only [wordWithByte, UInt16.toNat_ofNat']
  omega

theorem toNat_wordWithDigit {op digit : Nat} (h : op < 16) (x y : Register) (hd : digit < 16) :
    (wordWithDigit op x y digit).toNat = op * 4096 + x.val * 256 + y.val * 16 + digit := by
  have := x.isLt
  have := y.isLt
  simp only [wordWithDigit, UInt16.toNat_ofNat']
  omega

theorem fields_wordWithAddress (op : Nat) (h : op < 16) (a : Fin 4096) :
    (wordWithAddress op a).op.val = op ∧ (wordWithAddress op a).nnn = a := by
  have := a.isLt
  simp only [Word.op, Word.nnn, toNat_wordWithAddress h, Fin.ext_iff]
  omega

theorem fields_wordWithByte (op : Nat) {byte : Nat} (h : op < 16) (x : Register)
    (hb : byte < 256) :
    (wordWithByte op x byte).op.val = op ∧ (wordWithByte op x byte).x = x ∧
      (wordWithByte op x byte).nn = UInt8.ofNat byte := by
  have := x.isLt
  simp only [Word.op, Word.x, Word.nn, toNat_wordWithByte h x hb, Fin.ext_iff]
  refine ⟨by omega, by omega, ?_⟩
  congr 1
  omega

theorem fields_wordWithDigit (op : Nat) {digit : Nat} (h : op < 16) (x y : Register)
    (hd : digit < 16) :
    (wordWithDigit op x y digit).op.val = op ∧ (wordWithDigit op x y digit).x = x ∧
      (wordWithDigit op x y digit).y = y ∧ (wordWithDigit op x y digit).n.val = digit := by
  have := x.isLt
  have := y.isLt
  simp only [Word.op, Word.x, Word.y, Word.n, toNat_wordWithDigit h x y hd, Fin.ext_iff]
  omega

/-! ### Decoding what was encoded -/

theorem decode?_key {byte : Nat} (hb : byte < 256) (x : Register) :
    decode? (wordWithByte 0xE x byte) = ofKey? x byte := by
  obtain ⟨ho, hx, hn⟩ := fields_wordWithByte 0xE (by omega) x hb
  simp [decode?, ho, hx, hn, Nat.mod_eq_of_lt hb]

theorem decode?_transfer {byte : Nat} (hb : byte < 256) (x : Register) :
    decode? (wordWithByte 0xF x byte) = ofTransfer? x byte := by
  obtain ⟨ho, hx, hn⟩ := fields_wordWithByte 0xF (by omega) x hb
  simp [decode?, ho, hx, hn, Nat.mod_eq_of_lt hb]

theorem decode?_encode_skip (c : Condition) : decode? (skip c).encode = some (skip c) := by
  cases c with
  | byteEq x b =>
    obtain ⟨ho, hx, hn⟩ := fields_wordWithByte 0x3 (by omega) x b.toNat_lt
    simp [decode?, encode, ho, hx, hn]
  | byteNe x b =>
    obtain ⟨ho, hx, hn⟩ := fields_wordWithByte 0x4 (by omega) x b.toNat_lt
    simp [decode?, encode, ho, hx, hn]
  | regEq x y =>
    obtain ⟨ho, hx, hy, hn⟩ := fields_wordWithDigit 0x5 (by omega) x y (Nat.zero_lt_succ 15)
    simp [decode?, encode, ho, hx, hy, Fin.ext_iff, hn]
  | regNe x y =>
    obtain ⟨ho, hx, hy, hn⟩ := fields_wordWithDigit 0x9 (by omega) x y (Nat.zero_lt_succ 15)
    simp [decode?, encode, ho, hx, hy, Fin.ext_iff, hn]
  | keyDown x => exact decode?_key (by omega) x
  | keyUp x => exact decode?_key (by omega) x

theorem decode?_encode (i : Instruction) : decode? i.encode = some i := by
  cases i with
  | clearScreen => rfl
  | ret => rfl
  | jump a =>
    obtain ⟨ho, ha⟩ := fields_wordWithAddress 0x1 (by omega) a
    simp [decode?, encode, ho, ha]
  | call a =>
    obtain ⟨ho, ha⟩ := fields_wordWithAddress 0x2 (by omega) a
    simp [decode?, encode, ho, ha]
  | skip c => exact decode?_encode_skip c
  | setByte x b =>
    obtain ⟨ho, hx, hn⟩ := fields_wordWithByte 0x6 (by omega) x b.toNat_lt
    simp [decode?, encode, ho, hx, hn]
  | addByte x b =>
    obtain ⟨ho, hx, hn⟩ := fields_wordWithByte 0x7 (by omega) x b.toNat_lt
    simp [decode?, encode, ho, hx, hn]
  | combine f x y =>
    have hd : f.digit < 16 := by cases f <;> decide
    obtain ⟨ho, hx, hy, hn⟩ := fields_wordWithDigit 0x8 (by omega) x y hd
    simp [decode?, encode, ho, hx, hy, hn, Operation.ofDigit?_eq_some_iff.mpr rfl]
  | setIndex a =>
    obtain ⟨ho, ha⟩ := fields_wordWithAddress 0xA (by omega) a
    simp [decode?, encode, ho, ha]
  | jumpOffset a =>
    obtain ⟨ho, ha⟩ := fields_wordWithAddress 0xB (by omega) a
    simp [decode?, encode, ho, ha]
  | random x mask =>
    obtain ⟨ho, hx, hn⟩ := fields_wordWithByte 0xC (by omega) x mask.toNat_lt
    simp [decode?, encode, ho, hx, hn]
  | draw x y height =>
    obtain ⟨ho, hx, hy, hn⟩ := fields_wordWithDigit 0xD (by omega) x y height.isLt
    simp [decode?, encode, ho, hx, hy, Fin.ext_iff, hn]
  | readDelay x => exact decode?_transfer (by omega) x
  | awaitKey x => exact decode?_transfer (by omega) x
  | setDelay x => exact decode?_transfer (by omega) x
  | setSound x => exact decode?_transfer (by omega) x
  | addIndex x => exact decode?_transfer (by omega) x
  | glyph x => exact decode?_transfer (by omega) x
  | decimal x => exact decode?_transfer (by omega) x
  | store x => exact decode?_transfer (by omega) x
  | load x => exact decode?_transfer (by omega) x

/-! ### Encoding what was decoded -/

theorem eq_of_digits {v w : Word} (h : v.toNat = w.op.val * 4096 + w.toNat % 4096) : v = w := by
  apply UInt16.toNat_inj.mp
  have := w.toNat_lt
  simp only [Word.op] at h
  omega

theorem wordWithAddress_of_op {w : Word} {op : Nat} (h : w.op.val = op) :
    wordWithAddress op w.nnn = w := by
  subst h
  apply eq_of_digits
  rw [toNat_wordWithAddress w.op.isLt]
  rfl

theorem wordWithByte_of_op {w : Word} {op byte : Nat} (h : w.op.val = op)
    (hb : w.nn.toNat = byte) : wordWithByte op w.x byte = w := by
  subst h hb
  apply eq_of_digits
  rw [toNat_wordWithByte w.op.isLt _ w.nn.toNat_lt]
  simp only [Word.x, Word.nn, UInt8.toNat_ofNat']
  omega

theorem wordWithDigit_of_op {w : Word} {op digit : Nat} (h : w.op.val = op)
    (hd : w.n.val = digit) : wordWithDigit op w.x w.y digit = w := by
  subst h hd
  apply eq_of_digits
  rw [toNat_wordWithDigit w.op.isLt _ _ w.n.isLt]
  simp only [Word.x, Word.y, Word.n]
  omega

theorem encode_of_ofKey? {w : Word} {i : Instruction} (hop : w.op.val = 0xE)
    (h : ofKey? w.x w.nn.toNat = some i) : i.encode = w := by
  unfold ofKey? at h
  split at h <;> cases h
  all_goals exact wordWithByte_of_op hop (by assumption)

theorem encode_of_ofTransfer? {w : Word} {i : Instruction} (hop : w.op.val = 0xF)
    (h : ofTransfer? w.x w.nn.toNat = some i) : i.encode = w := by
  unfold ofTransfer? at h
  split at h <;> cases h
  all_goals exact wordWithByte_of_op hop (by assumption)

theorem encode_of_ofSystem? {w : Word} {i : Instruction} (hop : w.op.val = 0x0)
    (h : ofSystem? w.nnn.val = some i) : i.encode = w := by
  have hw : ∀ v : Word, v.toNat = w.nnn.val → v = w := fun v hv =>
    eq_of_digits (by rw [hop, Nat.zero_mul, Nat.zero_add]; exact hv)
  unfold ofSystem? at h
  split at h <;> cases h
  · next ha => exact hw _ ha.symm
  · next ha => exact hw _ ha.symm

theorem encode_of_decode? {w : Word} {i : Instruction} (h : decode? w = some i) :
    i.encode = w := by
  unfold decode? at h
  split at h
  · next hop => exact encode_of_ofSystem? hop h
  · next hop => cases h; exact wordWithAddress_of_op hop
  · next hop => cases h; exact wordWithAddress_of_op hop
  · next hop => cases h; exact wordWithByte_of_op hop rfl
  · next hop => cases h; exact wordWithByte_of_op hop rfl
  · next hop =>
    split at h
    · next hn => cases h; exact wordWithDigit_of_op hop (congrArg Fin.val hn)
    · cases h
  · next hop => cases h; exact wordWithByte_of_op hop rfl
  · next hop => cases h; exact wordWithByte_of_op hop rfl
  · next hop =>
    obtain ⟨f, hf, rfl⟩ := Option.map_eq_some_iff.mp h
    exact wordWithDigit_of_op hop (Operation.ofDigit?_eq_some_iff.mp hf).symm
  · next hop =>
    split at h
    · next hn => cases h; exact wordWithDigit_of_op hop (congrArg Fin.val hn)
    · cases h
  · next hop => cases h; exact wordWithAddress_of_op hop
  · next hop => cases h; exact wordWithAddress_of_op hop
  · next hop => cases h; exact wordWithByte_of_op hop rfl
  · next hop => cases h; exact wordWithDigit_of_op hop rfl
  · next hop => exact encode_of_ofKey? hop h
  · next hop => exact encode_of_ofTransfer? hop h
  · cases h

/-- The words that stand for an instruction are exactly its encoding. -/
theorem decode?_eq_some_iff {w : Word} {i : Instruction} : decode? w = some i ↔ i.encode = w :=
  ⟨encode_of_decode?, fun h => h ▸ decode?_encode i⟩

theorem decode_eq_ok_iff {w : Word} {i : Instruction} : decode w = .ok i ↔ i.encode = w := by
  rw [← decode?_eq_some_iff, decode]
  cases decode? w with
  | none => simp only [reduceCtorEq]
  | some j => rw [Except.ok.injEq, Option.some.injEq]

theorem decode_eq_error {w : Word} (h : ¬ ∃ i, decode w = .ok i) :
    decode w = .error (.unsupportedOpcode w) := by
  unfold decode at h ⊢
  cases hd : decode? w with
  | none => rfl
  | some i => exact absurd ⟨i, by rw [hd]⟩ h

end Instruction

end Chip8

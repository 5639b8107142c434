import Chip8.Instruction.RoundTrip

/-!
# The table of instructions

The instructions as a reader finds them listed: by patterns of four signs, such as `8xy4`.  A digit
or a capital letter in a pattern asks for just that digit of the word, and a small letter stands for
any digit; what the operands are is said beside each pattern.

`Instruction.decode?` looks at a word digit by digit and never at a pattern.  Here the two are
compared: a word stands for an instruction exactly if it fits an entry of the table that reads the
instruction off it (`Instruction.decode?_eq_some_iff_table`), and the words that fit no entry are
no instructions (`Instruction.decode?_eq_none_iff_table`).
-/

namespace Chip8

namespace Word

/-- What a sign of a pattern asks of a digit. -/
def asked (c : Char) : Option Nat :=
  if c.isDigit then some (c.toNat - '0'.toNat)
  else if c.isUpper then some (c.toNat - 'A'.toNat + 10)
  else none

/-- Whether the four digits of a word are what the signs of a pattern ask for. -/
def fits (w : Word) (pattern : String) : Bool :=
  ([w.op.val, w.x.val, w.y.val, w.n.val].zip pattern.toList).all fun (digit, sign) =>
    (asked sign).all (digit == ·)

theorem nn_eq (w : Word) : w.nn.toNat = w.y.val * 16 + w.n.val := by
  simp only [nn, y, n, UInt8.toNat_ofNat']
  omega

theorem nnn_eq (w : Word) : w.nnn.val = w.x.val * 256 + w.y.val * 16 + w.n.val := by
  simp only [nnn, x, y, n]
  omega

end Word

namespace Instruction

/-- The table: how the words of each instruction look, and how operands are read off them. -/
def table : List (String × (Word → Instruction)) :=
  [("00E0", fun _ => clearScreen),
   ("00EE", fun _ => ret),
   ("1nnn", fun w => jump w.nnn),
   ("2nnn", fun w => call w.nnn),
   ("3xnn", fun w => skip (.byteEq w.x w.nn)),
   ("4xnn", fun w => skip (.byteNe w.x w.nn)),
   ("5xy0", fun w => skip (.regEq w.x w.y)),
   ("6xnn", fun w => setByte w.x w.nn),
   ("7xnn", fun w => addByte w.x w.nn),
   ("8xy0", fun w => combine .copy w.x w.y),
   ("8xy1", fun w => combine .or w.x w.y),
   ("8xy2", fun w => combine .and w.x w.y),
   ("8xy3", fun w => combine .xor w.x w.y),
   ("8xy4", fun w => combine .add w.x w.y),
   ("8xy5", fun w => combine .sub w.x w.y),
   ("8xy6", fun w => combine .shiftRight w.x w.y),
   ("8xy7", fun w => combine .subFrom w.x w.y),
   ("8xyE", fun w => combine .shiftLeft w.x w.y),
   ("9xy0", fun w => skip (.regNe w.x w.y)),
   ("Annn", fun w => setIndex w.nnn),
   ("Bnnn", fun w => jumpOffset w.nnn),
   ("Cxnn", fun w => random w.x w.nn),
   ("Dxyn", fun w => draw w.x w.y w.n),
   ("Ex9E", fun w => skip (.keyDown w.x)),
   ("ExA1", fun w => skip (.keyUp w.x)),
   ("Fx07", fun w => readDelay w.x),
   ("Fx0A", fun w => awaitKey w.x),
   ("Fx15", fun w => setDelay w.x),
   ("Fx18", fun w => setSound w.x),
   ("Fx1E", fun w => addIndex w.x),
   ("Fx29", fun w => glyph w.x),
   ("Fx33", fun w => decimal w.x),
   ("Fx55", fun w => store w.x),
   ("Fx65", fun w => load w.x)]

theorem decode?_of_fits {w : Word} :
    ∀ entry ∈ table, w.fits entry.1 → decode? w = some (entry.2 w) := by
  simp only [table, List.forall_mem_cons, List.not_mem_nil, false_imp_iff, implies_true, and_true]
  and_intros
  all_goals
    -- the pattern says which digits the word has, and `decode?` looks at no others
    intro h
    simp [Word.fits, Word.asked] at h
    simp [decode?, ofSystem?, ofKey?, ofTransfer?, Operation.ofDigit?, Word.nn_eq, Word.nnn_eq, h]

theorem digits_of_nnn {w : Word} {a : Nat} (h : w.nnn.val = a) :
    w.x.val = a / 256 ∧ w.y.val = a / 16 % 16 ∧ w.n.val = a % 16 := by
  have := w.nnn_eq
  omega

theorem digits_of_nn {w : Word} {a : Nat} (h : w.nn.toNat = a) :
    w.y.val = a / 16 ∧ w.n.val = a % 16 := by
  have := w.nn_eq
  omega

theorem fits_of_decode? {w : Word} (h : (decode? w).isSome) : ∃ entry ∈ table, w.fits entry.1 := by
  refine List.any_eq_true.1 ?_
  unfold decode? at h
  split at h
  -- the families that look at more than the first digit
  case h_1 hop =>
    unfold ofSystem? at h
    split at h
    · next ha => simp only [Word.fits, hop, digits_of_nnn ha]; rfl
    · next ha => simp only [Word.fits, hop, digits_of_nnn ha]; rfl
    · cases h
  case h_6 hop | h_10 hop =>
    split at h
    · next hn => simp only [Word.fits, hop, hn]; rfl
    · cases h
  case h_9 hop =>
    rw [Option.isSome_map] at h
    unfold Operation.ofDigit? at h
    split at h
    case h_10 => cases h
    all_goals next hn => simp only [Word.fits, hop, hn]; rfl
  case h_15 hop =>
    unfold ofKey? at h
    split at h
    · next ha => simp only [Word.fits, hop, digits_of_nn ha]; rfl
    · next ha => simp only [Word.fits, hop, digits_of_nn ha]; rfl
    · cases h
  case h_16 hop =>
    unfold ofTransfer? at h
    split at h
    case h_10 => cases h
    all_goals next hn => simp only [Word.fits, hop, digits_of_nn hn]; rfl
  case h_17 => cases h
  -- and the others
  all_goals next hop => simp only [Word.fits, hop]; rfl

/-- **The table says what words stand for**: a word stands for an instruction exactly if the
instruction is read off it by an entry that it fits. -/
theorem decode?_eq_some_iff_table {w : Word} {i : Instruction} :
    decode? w = some i ↔ ∃ entry ∈ table, w.fits entry.1 ∧ entry.2 w = i := by
  constructor
  · intro h
    obtain ⟨entry, hmem, hfits⟩ := fits_of_decode? (Option.isSome_of_eq_some h)
    have hread := decode?_of_fits entry hmem hfits
    exact ⟨entry, hmem, hfits, Option.some.inj (hread.symm.trans h)⟩
  · rintro ⟨entry, hmem, hfits, rfl⟩
    exact decode?_of_fits entry hmem hfits

theorem decode?_eq_none_iff_table {w : Word} :
    decode? w = none ↔ ∀ entry ∈ table, ¬ w.fits entry.1 := by
  constructor
  · intro h entry hmem hfits
    cases h.symm.trans (decode?_of_fits entry hmem hfits)
  · intro h
    rw [Option.eq_none_iff_forall_ne_some]
    intro i hi
    obtain ⟨entry, hmem, hfits⟩ := fits_of_decode? (Option.isSome_of_eq_some hi)
    exact h entry hmem hfits

/-! ### Words of the table put together -/

theorem fits_encode_ret : ret.encode.fits "00EE" := by decide

theorem fits_encode_call (a : Fin 4096) : (call a).encode.fits "2nnn" := by
  obtain ⟨hop, -⟩ := fields_wordWithAddress 0x2 (by omega) a
  simp [Word.fits, Word.asked, encode, hop]

theorem fits_encode_draw (x y : Register) (height : Fin 16) :
    (draw x y height).encode.fits "Dxyn" ∧ (draw x y height).encode.n = height := by
  obtain ⟨hop, -, -, hn⟩ := fields_wordWithDigit 0xD (by omega) x y height.isLt
  refine ⟨?_, Fin.ext hn⟩
  simp [Word.fits, Word.asked, encode, hop]

theorem digits_wordWithByte (op : Nat) {byte : Nat} (h : op < 16) (x : Register)
    (hb : byte < 256) :
    (wordWithByte op x byte).op.val = op ∧ (wordWithByte op x byte).x = x ∧
      (wordWithByte op x byte).y.val = byte / 16 ∧ (wordWithByte op x byte).n.val = byte % 16 := by
  obtain ⟨hop, hx, hn⟩ := fields_wordWithByte op h x hb
  refine ⟨hop, hx, digits_of_nn ?_⟩
  rw [hn, UInt8.toNat_ofNat']
  exact Nat.mod_eq_of_lt hb

theorem fits_encode_decimal (x : Register) : (decimal x).encode.fits "Fx33" := by
  obtain ⟨hop, -, hy, hn⟩ := digits_wordWithByte 0xF (by omega) x (by omega : 0x33 < 256)
  simp [Word.fits, Word.asked, encode, hop, hy, hn]

theorem fits_encode_store (x : Register) :
    (store x).encode.fits "Fx55" ∧ (store x).encode.x = x := by
  obtain ⟨hop, hx, hy, hn⟩ := digits_wordWithByte 0xF (by omega) x (by omega : 0x55 < 256)
  refine ⟨?_, hx⟩
  simp [Word.fits, Word.asked, encode, hop, hy, hn]

theorem fits_encode_load (x : Register) :
    (load x).encode.fits "Fx65" ∧ (load x).encode.x = x := by
  obtain ⟨hop, hx, hy, hn⟩ := digits_wordWithByte 0xF (by omega) x (by omega : 0x65 < 256)
  refine ⟨?_, hx⟩
  simp [Word.fits, Word.asked, encode, hop, hy, hn]

end Instruction

end Chip8

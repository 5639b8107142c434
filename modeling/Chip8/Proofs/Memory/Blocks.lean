import Chip8.Proofs.Machine.InPlace

/-!
# Blocks against bytes

A block can be read and written as a whole or a byte at a time, and a program image is a block, too.
Each way has a range check of its own: the block one looks at the end of the block, loading looks at
the room that is left, and the bytes are looked at one after another.  The checks agree on every
address.

* `Memory.writeBytes`, `Memory.readBytes` : blocks a byte at a time;
* `Memory.writeBlock_eq_writeBytes`, `Memory.readBlock_eq_readBytes` : blocks that are not empty
  are the same as their bytes;
* **`Memory.blocks_bytewise`** : what is accepted, what is written, and what is said of a refusal,
  also in words of 64 bits.
-/

namespace Chip8

namespace Memory

/-- Writes the bytes of a list one after another, as far as they can be written. -/
def writeBytes (m : Memory) (address : Nat) : List UInt8 → Except Fault Memory
  | [] => .ok m
  | b :: rest => do
    let next ← m.writeByte address b
    next.writeBytes (address + 1) rest

/-- Reads so many bytes one after another, as far as they can be read. -/
def readBytes (m : Memory) (address : Nat) : Nat → Except Fault (List UInt8)
  | 0 => .ok []
  | n + 1 => do
    let b ← m.readByte address
    let rest ← m.readBytes (address + 1) n
    return b :: rest

variable {m : Memory} {a length : Nat} {block : List UInt8}

/-! ### Writing -/

theorem writeBytes_of_le (h : a + block.length ≤ size) :
    m.writeBytes a block = .ok (m.place a block) := by
  induction block generalizing m a with
  | nil => rfl
  | cons b rest ih =>
    rw [List.length_cons] at h
    rw [writeBytes, writeByte_of_lt _ (by omega)]
    exact ih (by omega)

/-- The first byte that cannot be written is the first of all or the one behind the end. -/
theorem writeBytes_of_lt (hne : block ≠ []) (h : size < a + block.length) :
    m.writeBytes a block = .error (.addressOutOfRange (max a size)) := by
  induction block generalizing m a with
  | nil => exact absurd rfl hne
  | cons b rest ih =>
    rw [List.length_cons] at h
    by_cases ha : a < size
    · -- this one can be written, so there are others
      have hrest : rest ≠ [] := by
        rintro rfl
        rw [List.length_nil] at h
        omega
      have hmax : max (a + 1) size = max a size := by omega
      rw [writeBytes, writeByte_of_lt _ ha, ← hmax]
      exact ih hrest (by omega)
    · rw [writeBytes, writeByte_of_le _ (Nat.not_lt.1 ha), Nat.max_eq_left (Nat.not_lt.1 ha)]
      rfl

theorem writeBlock_eq_writeBytes (m : Memory) (a : Nat) (hne : block ≠ []) :
    m.writeBlock a block = m.writeBytes a block := by
  by_cases h : a + block.length ≤ size
  · rw [writeBlock_of_le _ h, writeBytes_of_le h]
  · rw [writeBlock_of_lt _ (Nat.not_le.1 h), writeBytes_of_lt hne (Nat.not_le.1 h)]

theorem exists_writeBlock_iff :
    (∃ m', m.writeBlock a block = .ok m') ↔ a + block.length ≤ size := by
  by_cases h : a + block.length ≤ size
  · exact iff_of_true ⟨_, writeBlock_of_le m h⟩ h
  · refine iff_of_false ?_ h
    rintro ⟨m', hm'⟩
    cases (writeBlock_of_lt m (Nat.not_le.1 h)).symm.trans hm'

/-- Bytes that cannot all be written can be written up to an offset, and not there. -/
theorem exists_first_refused (m : Memory) (hne : block ≠ []) (h : size < a + block.length) :
    ∃ k < block.length, (∃ m', m.writeBytes a (block.take k) = .ok m') ∧
      m.writeBytes a (block.take (k + 1)) = .error (.addressOutOfRange (a + k)) ∧
      a + k = max a size := by
  have hpos : 0 < block.length := List.length_pos_iff.2 hne
  have hk : size - a < block.length := by omega
  have hmax : a + (size - a) = max a size := by omega
  refine ⟨size - a, hk, ?_, ?_, hmax⟩
  · by_cases ha : a ≤ size
    · refine ⟨_, writeBytes_of_le ?_⟩
      rw [List.length_take_of_le (Nat.le_of_lt hk)]
      omega
    · rw [Nat.sub_eq_zero_of_le (by omega), List.take_zero]
      exact ⟨m, rfl⟩
  · have hlen : (block.take (size - a + 1)).length = size - a + 1 := List.length_take_of_le hk
    rw [hmax]
    refine writeBytes_of_lt (List.ne_nil_of_length_pos (by omega)) ?_
    rw [hlen]
    omega

theorem writeBytes_eq_ok_iff {m' : Memory} (hne : block ≠ []) :
    m.writeBytes a block = .ok m' ↔ a + block.length ≤ size ∧ m.place a block = m' := by
  by_cases h : a + block.length ≤ size
  · rw [writeBytes_of_le h]
    simp [h]
  · rw [writeBytes_of_lt hne (Nat.not_le.1 h)]
    simp [h]

/-- The room for a program is enough exactly if its end is in memory, unless it is empty. -/
theorem load_eq_ok_iff {m' : Memory} (hne : block ≠ []) :
    m.load block a = .ok m' ↔ a + block.length ≤ size ∧ m.place a block = m' := by
  have hpos : 0 < block.length := List.length_pos_iff.2 hne
  have hroom : block.length ≤ room a ↔ a + block.length ≤ size := by
    unfold room
    omega
  rw [← hroom]
  by_cases h : block.length ≤ room a
  · rw [load_of_le _ h]
    simp [h]
  · rw [load_of_lt _ (Nat.not_le.1 h)]
    simp [h]

/-! ### Reading -/

theorem readBytes_of_le (h : a + length ≤ size) :
    m.readBytes a length = .ok ((List.range length).map fun i => m.byteAt (a + i)) := by
  induction length generalizing a with
  | zero => rfl
  | succ n ih =>
    have hshift : (fun i => m.byteAt (a + 1 + i)) = (fun i => m.byteAt (a + i)) ∘ Nat.succ := by
      funext i
      rw [Function.comp_apply, Nat.succ_eq_add_one, Nat.add_assoc, Nat.add_comm 1 i]
    rw [readBytes, readByte_of_lt _ (by omega), ih (by omega), List.range_succ_eq_map,
      List.map_cons, List.map_map, hshift]
    rfl

theorem readBytes_of_lt (hpos : 0 < length) (h : size < a + length) :
    m.readBytes a length = .error (.addressOutOfRange (max a size)) := by
  induction length generalizing a with
  | zero => exact absurd hpos (Nat.lt_irrefl 0)
  | succ n ih =>
    by_cases ha : a < size
    · have hmax : max (a + 1) size = max a size := by omega
      rw [readBytes, readByte_of_lt _ ha, ← hmax, ih (by omega) (by omega)]
      rfl
    · rw [readBytes, readByte_of_le _ (Nat.not_lt.1 ha), Nat.max_eq_left (Nat.not_lt.1 ha)]
      rfl

theorem exists_readBlock_iff :
    (∃ bytes, m.readBlock a length = .ok bytes) ↔ a + length ≤ size := by
  by_cases h : a + length ≤ size
  · exact iff_of_true ⟨_, readBlock_of_le m h⟩ h
  · refine iff_of_false ?_ h
    rintro ⟨bytes, hbytes⟩
    cases (readBlock_of_lt m (Nat.not_le.1 h)).symm.trans hbytes

theorem readBlock_eq_readBytes (m : Memory) (a : Nat) (hpos : 0 < length) :
    m.readBlock a length = m.readBytes a length := by
  by_cases h : a + length ≤ size
  · rw [readBlock_of_le _ h, readBytes_of_le h]
  · rw [readBlock_of_lt _ (Nat.not_le.1 h), readBytes_of_lt hpos (Nat.not_le.1 h)]

/-! ### Words -/

theorem toNat_ofBytes (high low : UInt8) :
    (Word.ofBytes high low).toNat = 256 * high.toNat + low.toNat := by
  have hhigh := high.toNat_lt
  have hlow := low.toNat_lt
  rw [Word.ofBytes, UInt16.toNat_ofNat', Nat.mod_eq_of_lt (by omega), Nat.mul_comm]

theorem readWord_cases (m : Memory) (a : Nat) :
    (∃ high low, m.readBlock a 2 = .ok [high, low] ∧
      m.readWord a = .ok (Word.ofBytes high low)) ∨
    ∃ f, m.readBlock a 2 = .error f ∧ m.readWord a = .error f := by
  by_cases h : a + 1 < size
  · exact .inl ⟨_, _, readBlock_of_le _ h, readWord_of_lt _ h⟩
  · exact .inr ⟨_, readBlock_of_lt _ (by omega), readWord_of_le _ (by omega)⟩

theorem readWord_eq_ok_iff {w : Word} :
    m.readWord a = .ok w ↔ ∃ high low, m.readBlock a 2 = .ok [high, low] ∧
      w.toNat = 256 * high.toNat + low.toNat := by
  rcases m.readWord_cases a with ⟨high, low, hblock, hword⟩ | ⟨f, hblock, hword⟩
  · simp only [hblock, hword, Except.ok.injEq, List.cons.injEq, and_true]
    constructor
    · rintro rfl
      exact ⟨high, low, ⟨rfl, rfl⟩, toNat_ofBytes high low⟩
    · rintro ⟨_, _, ⟨rfl, rfl⟩, hw⟩
      exact UInt16.toNat_inj.1 ((toNat_ofBytes high low).trans hw.symm)
  · simp [hblock, hword]

theorem readWord_eq_error_iff {f : Fault} :
    m.readWord a = .error f ↔ m.readBlock a 2 = .error f := by
  rcases m.readWord_cases a with ⟨high, low, hblock, hword⟩ | ⟨g, hblock, hword⟩
  · simp [hblock, hword]
  · simp [hblock, hword]

/-! ### All of it -/

/-- **Blocks agree with their bytes on every address.**  A block that is not empty is accepted as a
block exactly if it is as a program, exactly if its bytes are one after another, and exactly if its
end lies in memory; the memory is then the same, and differs from the old one inside the block only.
If it is not accepted, the block is refused with the first address at which a byte cannot be
written, and the program with its size and the room that there is.  A block that is not empty is
read as its bytes are, with the fault of the first that cannot be read; a word is read as a block of
two bytes, the high one first.  Empty blocks are accepted up to the end of memory, and empty
programs everywhere.

In place, where sums have 64 bits and an array is indexed, all of this is the same: nothing crashes,
and a refusal leaves the machine as it was. -/
theorem blocks_bytewise (m : Memory) (a : Nat) :
    (∀ block : List UInt8, block ≠ [] →
      (∀ m', (m.writeBlock a block = .ok m' ↔ m.writeBytes a block = .ok m') ∧
        (m.load block a = .ok m' ↔ m.writeBytes a block = .ok m')) ∧
      ((∃ m', m.writeBytes a block = .ok m') ↔ a + block.length ≤ size) ∧
      (∀ m', m.writeBytes a block = .ok m' → ∀ b, m'.byteAt b =
        if a ≤ b ∧ b < a + block.length then block.getD (b - a) 0 else m.byteAt b) ∧
      (size < a + block.length →
        (∃ k < block.length, (∃ m', m.writeBytes a (block.take k) = .ok m') ∧
          m.writeBytes a (block.take (k + 1)) = .error (.addressOutOfRange (a + k)) ∧
          m.writeBlock a block = .error (.addressOutOfRange (a + k))) ∧
        m.load block a = .error (.programTooLarge block.length (size - min a size)))) ∧
    (∀ length, 0 < length → m.readBlock a length = m.readBytes a length) ∧
    (∀ w, m.readWord a = .ok w ↔ ∃ high low, m.readBlock a 2 = .ok [high, low] ∧
      w.toNat = 256 * high.toNat + low.toNat) ∧
    (∀ f, m.readWord a = .error f ↔ m.readBlock a 2 = .error f) ∧
    ((∃ bytes, m.readBlock a 0 = .ok bytes) ↔ a ≤ size) ∧
    ((∃ m', m.writeBlock a [] = .ok m') ↔ a ≤ size) ∧
    (∃ m', m.load [] a = .ok m') ∧
    ∀ n : Machine, n.memory = m →
      (∀ block, (Action.writeBlock a block).run n =
        .ofExcept n (do return { n with memory := ← m.writeBlock a block })) ∧
      (∀ block, (Action.load block a).run n =
        .ofExcept n (do return { n with memory := ← m.load block a })) ∧
      (∀ length, (Action.readBlock a length).run n = .ofAttempt n (m.readBlock a length)) ∧
      (Action.readWord a).run n = .ofAttempt n (m.readWord a) := by
  refine ⟨fun block hne => ⟨fun m' => ⟨?_, ?_⟩, ?_, ?_, fun h => ⟨?_, ?_⟩⟩,
    fun length => readBlock_eq_readBytes m a, fun w => readWord_eq_ok_iff,
    fun f => readWord_eq_error_iff, exists_readBlock_iff, exists_writeBlock_iff, ⟨m, rfl⟩, ?_⟩
  · rw [writeBlock_eq_writeBytes m a hne]
  · rw [load_eq_ok_iff hne, writeBytes_eq_ok_iff hne]
  · simp only [writeBytes_eq_ok_iff hne, exists_and_left, exists_eq', and_true]
  · intro m' hm' b
    obtain ⟨hle, rfl⟩ := (writeBytes_eq_ok_iff hne).1 hm'
    exact byteAt_place m a block hle b
  · obtain ⟨k, hk, hbefore, hfirst, hmax⟩ := m.exists_first_refused hne h
    exact ⟨k, hk, hbefore, hfirst, by rw [writeBlock_of_lt _ h, hmax]⟩
  · have hroom : room a = size - min a size := by
      unfold room
      omega
    have hpos : 0 < block.length := List.length_pos_iff.2 hne
    rw [load_of_lt _ (by omega), hroom]
  · rintro n rfl
    exact ⟨fun block => Action.run_writeBlock a block n, fun block => Action.run_load block a n,
      fun length => Action.run_readBlock a length n, Action.run_readWord a n⟩

/-- Two bytes fit at the end of memory and three do not; at the last of all addresses, where the
end of a block has no number of 64 bits, nothing fits. -/
theorem blocks_bytewise_end :
    let m := fresh
    (∃ m', m.writeBlock 0xFFE [7, 9] = .ok m' ∧ m.load [7, 9] 0xFFE = .ok m' ∧
      m'.byteAt 0xFFF = 9 ∧ m'.byteAt 0xFFD = 0) ∧
    m.writeBlock 0xFFE [7, 9, 11] = .error (.addressOutOfRange 0x1000) ∧
    m.load [7, 9, 11] 0xFFE = .error (.programTooLarge 3 2) ∧
    m.load [7] (2 ^ 64 - 1) = .error (.programTooLarge 1 0) ∧
    m.readBlock (2 ^ 64 - 1) 1 = m.readBytes (2 ^ 64 - 1) 1 := by
  intro m
  obtain ⟨hend, -⟩ := blocks_bytewise m 0xFFE
  obtain ⟨hlast, hread, -⟩ := blocks_bytewise m (2 ^ 64 - 1)
  obtain ⟨hsame, hfits, hbytes, -⟩ := hend [7, 9] (by decide)
  obtain ⟨m', hm'⟩ := hfits.2 (by decide)
  obtain ⟨hblock, hprogram⟩ := hsame m'
  obtain ⟨-, -, -, hthree⟩ := hend [7, 9, 11] (by decide)
  obtain ⟨-, -, -, hone⟩ := hlast [7] (by decide)
  refine ⟨⟨m', hblock.2 hm', hprogram.2 hm', hbytes m' hm' 0xFFF, ?_⟩, ?_,
    (hthree (by decide)).2, (hone (by decide)).2, hread 1 (by decide)⟩
  · exact (hbytes m' hm' 0xFFD).trans (byteAt_fresh_of_le (by decide))
  · exact writeBlock_of_lt m (by decide)

end Memory

end Chip8

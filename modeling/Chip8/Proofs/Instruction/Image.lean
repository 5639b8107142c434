import Mathlib.Logic.ExistsUnique
import Chip8.Instruction.RoundTrip
import Chip8.Proofs.Machine.Attempt

/-!
# Programs and their images

A program is a list of instructions, its image the list of bytes that is loaded.  What it means that
bytes are an image of a program is said by `Instruction.Assembles`, by decoding alone: two bytes for
each instruction, and the word of these two stands for it.  `Instruction.image` is the other side, a
function that writes the image down; that there is no other image is `Instruction.assembles_iff`,
and rests on the correspondence of words and instructions.

* `Instruction.operands_of_decode` : the address and the height of an instruction are the digits of
  its word;
* `Instruction.Assembles.decode` : the words of an image stand for the instructions in turn;
* `Machine.attempted_of_image` : what a step attempts where an image lies in memory;
* **`Instruction.image_exact`** : words, instructions and images correspond, and the machine runs
  a loaded image instruction by instruction.
-/

namespace Chip8

namespace Instruction

/-- The address that an instruction holds, if it holds one. -/
def address? : Instruction → Option Nat
  | jump a | call a | setIndex a | jumpOffset a => some a.val
  | _ => none

/-- The height of the sprite that an instruction draws, if it draws one. -/
def height? : Instruction → Option Nat
  | draw _ _ height => some height.val
  | _ => none

/-- The bytes are those of words that stand for the instructions, in their order. -/
inductive Assembles : List Instruction → List UInt8 → Prop where
  | nil : Assembles [] []
  | cons {i : Instruction} {program : List Instruction} {high low : UInt8} {image : List UInt8}
      (hd : decode (Word.ofBytes high low) = .ok i) (hrest : Assembles program image) :
      Assembles (i :: program) (high :: low :: image)

variable {w : Word} {i : Instruction} {program : List Instruction} {bytes : List UInt8}

/-! ### Operands -/

/-- The address and the height of an instruction are the last digits of its word. -/
theorem operands_of_decode (h : decode w = .ok i) :
    (∀ a ∈ i.address?, a = w.toNat % 0x1000) ∧ ∀ height ∈ i.height?, height = w.toNat % 0x10 := by
  obtain rfl := decode_eq_ok_iff.1 h
  constructor
  · intro a ha
    cases i with
    | jump b | call b | setIndex b | jumpOffset b =>
      obtain rfl : b.val = a := Option.some.inj ha
      rw [encode, toNat_wordWithAddress (by decide)]
      omega
    | _ => cases ha
  · intro height hh
    cases i with
    | draw x y n =>
      obtain rfl : n.val = height := Option.some.inj hh
      rw [encode, toNat_wordWithDigit (by decide) x y n.isLt]
      omega
    | _ => cases hh

/-! ### Images -/

theorem image_cons (i : Instruction) (program : List Instruction) :
    image (i :: program) = i.encode.bytes ++ image program :=
  List.flatMap_cons

theorem assembles_iff : Assembles program bytes ↔ bytes = image program := by
  constructor
  · intro h
    induction h with
    | nil => rfl
    | cons hd _ ih =>
      rw [image_cons, Word.ofBytes_eq_iff.1 (decode_eq_ok_iff.1 hd).symm, ← ih]
      rfl
  · rintro rfl
    induction program with
    | nil => exact .nil
    | cons i program ih =>
      obtain ⟨high, low, hbytes⟩ : ∃ high low, i.encode.bytes = [high, low] := ⟨_, _, rfl⟩
      rw [image_cons, hbytes]
      exact .cons (decode_eq_ok_iff.2 (Word.ofBytes_eq_iff.2 hbytes).symm) ih

namespace Assembles

theorem length_eq (h : Assembles program bytes) : bytes.length = 2 * program.length := by
  induction h with
  | nil => rfl
  | cons _ _ ih =>
    simp only [List.length_cons, ih]
    omega

theorem decode (h : Assembles program bytes) {k : Nat} (hk : k < program.length) :
    Instruction.decode (Word.ofBytes (bytes.getD (2 * k) 0) (bytes.getD (2 * k + 1) 0)) =
      .ok program[k] := by
  induction h generalizing k with
  | nil => exact absurd hk (Nat.not_lt_zero k)
  | cons hd _ ih =>
    cases k with
    | zero => exact hd
    | succ k => exact ih (Nat.lt_of_succ_lt_succ hk)

end Assembles

end Instruction

namespace Machine

open Instruction (Assembles)

variable {n : Machine} {program : List Instruction} {bytes : List UInt8}

/-- Where the image of a program lies in memory, a step attempts the instructions of the program. -/
theorem attempted_of_image {memory : Memory} (himage : Assembles program bytes)
    (hfits : Memory.programStart + bytes.length ≤ Memory.size)
    (hmem : ∀ a, Memory.programStart ≤ a → a < Memory.programStart + bytes.length →
      n.memory.byteAt a = (memory.place Memory.programStart bytes).byteAt a)
    {k : Nat} (hk : k < program.length) (hpc : n.pc = Memory.programStart + 2 * k) :
    n.attempted = some program[k] := by
  have hlen := himage.length_eq
  have hhigh := hmem n.pc (by omega) (by omega)
  have hlow := hmem (n.pc + 1) (by omega) (by omega)
  let placed := { n with memory := memory.place Memory.programStart bytes }
  have hword : n.word = placed.word := by
    rw [word, hhigh, hlow]
    rfl
  have hd := Instruction.decode?_eq_some_iff.2 (Instruction.decode_eq_ok_iff.1 (himage.decode hk))
  have hplaced : placed.attempted = some program[k] :=
    attempted_of_program rfl hfits hpc (by omega) hd
  rw [← hplaced]
  exact attempted_congr rfl hword

end Machine

namespace Instruction

/-- **Words, instructions and images correspond.**  The address and the height of an instruction
that some word stands for are the last digits of the word; every instruction is what exactly one
word stands for; and a word that stands for none is refused as such.  So a program that fits in
memory has exactly one image, of two bytes an instruction; it can be loaded into every machine, and
as long as its bytes are in place, a step at the `k`-th word of it attempts the `k`-th instruction
of the program. -/
theorem image_exact :
    (∀ w i, decode w = .ok i →
      (∀ a ∈ i.address?, a = w.toNat % 0x1000 ∧ a ≤ 0xFFF) ∧
      ∀ height ∈ i.height?, height = w.toNat % 0x10 ∧ height ≤ 15) ∧
    (∀ i, ∃! w, decode w = .ok i) ∧
    (∀ w, (¬ ∃ i, decode w = .ok i) → decode w = .error (.unsupportedOpcode w)) ∧
    ∀ program : List Instruction, program.length ≤ 1792 →
      (∃! bytes, Assembles program bytes) ∧
      ∀ bytes, Assembles program bytes → bytes.length = 2 * program.length ∧
        ∀ m : Machine, ∃ loaded, m.load bytes = .ok loaded ∧
          loaded = { m with memory := loaded.memory } ∧
          ∀ n : Machine,
            (∀ a, Memory.programStart ≤ a → a < Memory.programStart + bytes.length →
              n.memory.byteAt a = loaded.memory.byteAt a) →
            n.keyWait = none →
            ∀ k (hk : k < program.length), n.pc = Memory.programStart + 2 * k →
              n.attempted = some program[k] ∧ n.step = n.fetched.attempt program[k] := by
  refine ⟨fun w i h => ?_, fun i => ?_, fun w h => decode_eq_error h, fun program hlen => ⟨?_, ?_⟩⟩
  · obtain ⟨haddress, hheight⟩ := operands_of_decode h
    constructor
    · intro a ha
      have := haddress a ha
      omega
    · intro height hh
      have := hheight height hh
      omega
  · exact ⟨i.encode, decode_eq_ok_iff.2 rfl, fun w h => (decode_eq_ok_iff.1 h).symm⟩
  · exact ⟨image program, assembles_iff.2 rfl, fun bytes h => assembles_iff.1 h⟩
  · intro bytes himage
    have hbytes := himage.length_eq
    have hfits : Memory.programStart + bytes.length ≤ Memory.size := by
      rw [Memory.programStart, Memory.size]
      omega
    refine ⟨hbytes, fun m => ⟨{ m with memory := m.memory.place Memory.programStart bytes },
      ?_, rfl, fun n hmem hw k hk hpc => ?_⟩⟩
    · rw [Machine.load, Memory.loadProgram, Memory.load_of_le _ (Nat.le_sub_of_add_le' hfits)]
      rfl
    · have ha := Machine.attempted_of_image himage hfits hmem hk hpc
      exact ⟨ha, Machine.step_eq_attempt hw ha⟩

/-- The second instruction of a loaded program is attempted where its word is, and fails there for
lack of room behind the index. -/
theorem image_exact_store :
    let program : List Instruction := [.setIndex 0xFFF, .store 15]
    let bytes : List UInt8 := [0xAF, 0xFF, 0xFF, 0x55]
    let m := { Machine.fresh {} (.ofList []) with pc := 0x202, index := 0xFFF }
    program.length ≤ 1792 ∧ Assembles program bytes ∧ bytes = image program ∧
      ∃ loaded, m.load bytes = .ok loaded ∧ loaded.keyWait = none ∧
        loaded.pc = Memory.programStart + 2 ∧ loaded.attempted = some (.store 15) ∧
        loaded.step = (.error (.addressOutOfRange 0x1000), loaded.fetched) := by
  intro program bytes m
  have hlen : program.length ≤ 1792 := by decide
  have himage : Assembles program bytes :=
    .cons (decode_eq_ok_iff.2 rfl) (.cons (decode_eq_ok_iff.2 rfl) .nil)
  obtain ⟨-, -, -, hprogram⟩ := image_exact
  obtain ⟨⟨only, -, honly⟩, hloads⟩ := hprogram program hlen
  obtain ⟨-, hload⟩ := hloads bytes himage
  obtain ⟨loaded, hloaded, hsame, hsteps⟩ := hload m
  have hw : loaded.keyWait = none := congrArg Machine.keyWait hsame
  have hpc : loaded.pc = Memory.programStart + 2 := congrArg Machine.pc hsame
  obtain ⟨ha, hstep⟩ := hsteps loaded (fun _ _ _ => rfl) hw 1 (by decide) hpc
  have hobstacle : loaded.fetched.obstacle (.store 15) = some (.addressOutOfRange 0x1000) := by
    rw [hsame]
    rfl
  refine ⟨hlen, himage, ?_, loaded, hloaded, hw, hpc, ha, ?_⟩
  · rw [honly _ himage, honly _ (assembles_iff.2 rfl)]
  · rw [hstep]
    exact Machine.attempt_of_some hobstacle

end Instruction

end Chip8

import Mathlib.Data.List.Nodup
import Mathlib.Tactic.TFAE
import Chip8.Proofs.Screen.Pixels

/-!
# Views of the screen

The screen is looked at in five ways: a pixel at a time, as the bytes of a row, as all bytes, by
the number of its lit pixels, and as a picture of characters.  Each view goes its own way through
the rows.  Here all of them are told from the pixels:

* `Screen.block_flatMap` : where the rows lie in a list that is put together from them;
* `Screen.testBit_packRow` : the bits of the bytes of a row are its pixels;
* `Screen.litCount_eq` : the number of lit pixels is counted over the positions of the screen;
* `Screen.ext_pixel` : screens with the same pixels are the same;
* **`Screen.views_agree`** : all views, and that each of them tells screens apart.
-/

namespace Chip8

namespace Screen

/-- The positions of the screen, row after row, each by its column and its row. -/
def positions : List (Nat × Nat) :=
  (List.range 32).flatMap fun py => (List.range 64).map fun px => (px, py)

/-! ### Rows put together -/

section Blocks

variable {α β : Type} {f : α → List β} {n : Nat} {l : List α} {i : Nat} {a : α}

theorem block_flatMap (hf : ∀ a, (f a).length = n) (ha : l[i]? = some a) :
    ((l.flatMap f).drop (i * n)).take n = f a := by
  induction l generalizing i with
  | nil => cases ha
  | cons b l ih =>
    rw [List.flatMap_cons]
    cases i with
    | zero =>
      obtain rfl := Option.some.inj ha
      rw [Nat.zero_mul, List.drop_zero]
      exact List.take_left' (hf b)
    | succ i =>
      rw [Nat.succ_mul, Nat.add_comm, ← hf b, List.drop_length_add_append, hf b]
      exact ih ha

theorem getElem?_flatMap (hf : ∀ a, (f a).length = n) (ha : l[i]? = some a) {j : Nat}
    (hj : j < n) : (l.flatMap f)[i * n + j]? = (f a)[j]? := by
  rw [← block_flatMap hf ha, List.getElem?_take_of_lt hj, List.getElem?_drop]

theorem length_flatMap (hf : ∀ a, (f a).length = n) (l : List α) :
    (l.flatMap f).length = l.length * n := by
  simp [List.length_flatMap, hf]

end Blocks

theorem getElem?_rows (s : Screen) (y : Nat) : s.rows.toList[y % 32]? = some (s.row y) := by
  rw [List.getElem?_eq_getElem (by simp [Nat.mod_lt])]
  rfl

theorem toList_rows (s : Screen) : s.rows.toList = (List.range 32).map s.row := by
  apply List.ext_getElem (by simp)
  intro y hy _
  have hlt : y < 32 := by simpa using hy
  simp [row, wrapRow, Nat.mod_eq_of_lt hlt]

/-! ### Bytes -/

theorem length_packRow (r : BitVec 64) : (packRow r).length = 8 := rfl

theorem testBit_packRow (r : BitVec 64) {c : Nat} (hc : c < 64) :
    ∃ b, (packRow r)[c / 8]? = some b ∧ b.toNat.testBit (7 - c % 8) = r.getMsbD c := by
  have hk : c / 8 < 8 := by omega
  refine ⟨UInt8.ofBitVec (r.extractLsb' (56 - 8 * (c / 8)) 8), ?_, ?_⟩
  · rw [packRow, List.getElem?_map, List.getElem?_range hk]
    rfl
  · have hbit : (7 - c % 8) < 8 := by omega
    have hplace : 56 - 8 * (c / 8) + (7 - c % 8) = 63 - c := by omega
    show (r.extractLsb' (56 - 8 * (c / 8)) 8).getLsbD (7 - c % 8) = _
    rw [BitVec.getLsbD_extractLsb', decide_eq_true hbit, Bool.true_and, hplace, BitVec.getMsbD,
      decide_eq_true hc, Bool.true_and]

theorem length_bytes (s : Screen) : s.bytes.length = 256 := by
  rw [bytes, length_flatMap length_packRow, Vector.length_toList]

theorem rowBytes_eq (s : Screen) (y : Nat) :
    s.rowBytes y = (s.bytes.drop (y % 32 * 8)).take 8 :=
  (block_flatMap length_packRow (s.getElem?_rows y)).symm

theorem pixel_eq_testBit (s : Screen) (x y : Nat) :
    ∃ b, s.bytes[y % 32 * 8 + x % 64 / 8]? = some b ∧
      s.pixel x y = b.toNat.testBit (7 - x % 8) := by
  have hx : x % 64 < 64 := Nat.mod_lt _ (by decide)
  obtain ⟨b, hb, hbit⟩ := testBit_packRow (s.row y) hx
  rw [Nat.mod_mod_of_dvd x (by decide)] at hbit
  refine ⟨b, ?_, hbit.symm⟩
  rw [bytes, getElem?_flatMap length_packRow (s.getElem?_rows y) (by omega), hb]

/-! ### Lit pixels -/

theorem mem_positions {px py : Nat} : (px, py) ∈ positions ↔ px < 64 ∧ py < 32 := by
  simp [positions, and_comm]

theorem nodup_positions : positions.Nodup := by
  rw [positions, List.nodup_flatMap]
  constructor
  · intro py _
    exact List.nodup_range.map fun px px' h => (Prod.mk.inj h).1
  · refine List.nodup_range.imp fun {py py'} hne => ?_
    intro p hp hp'
    obtain ⟨px, -, rfl⟩ := List.mem_map.1 hp
    obtain ⟨px', -, h⟩ := List.mem_map.1 hp'
    exact hne (Prod.mk.inj h).2.symm

theorem cpopNatRec_eq_countP {w : Nat} (r : BitVec w) (n : Nat) :
    r.cpopNatRec n 0 = (List.range n).countP r.getLsbD := by
  induction n with
  | zero => rfl
  | succ n ih =>
    rw [BitVec.cpopNatRec_succ, BitVec.cpopNatRec_add, ih, List.range_succ, List.countP_append,
      List.countP_singleton]
    cases r.getLsbD n <;> rfl

/-- The set bits of a row are counted from either end. -/
theorem cpop_eq_countP (r : BitVec 64) : r.cpop.toNat = (List.range 64).countP r.getMsbD := by
  rw [← BitVec.cpop_reverse, BitVec.toNat_cpop, cpopNatRec_eq_countP]
  exact List.countP_congr fun c _ => by rw [BitVec.getLsbD_reverse]

theorem litCount_eq (s : Screen) : s.litCount = positions.countP fun p => s.pixel p.1 p.2 := by
  have hrow : ∀ py, (s.row py).cpop.toNat =
      ((List.range 64).map fun px => (px, py)).countP fun p => s.pixel p.1 p.2 := by
    intro py
    rw [cpop_eq_countP, List.countP_map]
    refine List.countP_congr fun px hpx => ?_
    rw [Function.comp_apply, pixel, Nat.mod_eq_of_lt (List.mem_range.1 hpx)]
  rw [positions, List.countP_flatMap, litCount, toList_rows, List.foldr_map, List.sum_eq_foldr,
    List.foldr_map]
  simp only [hrow]
  rfl

/-! ### Text -/

theorem length_rowText (s : Screen) (y : Nat) : (s.rowText y).length = 64 := by
  rw [rowText, List.length_map, List.length_range, width]

theorem length_line (s : Screen) (y : Nat) : (s.rowText y ++ ['\n']).length = 65 := by
  rw [List.length_append, length_rowText, List.length_singleton]

theorem pixelChar_inj {a b : Bool} (h : pixelChar a = pixelChar b) : a = b := by
  revert a b
  decide

theorem toList_text (s : Screen) :
    s.text.toList = (List.range 32).flatMap fun y => s.rowText y ++ ['\n'] :=
  String.toList_ofList

theorem length_text (s : Screen) : s.text.length = 32 * 65 := by
  rw [← String.length_toList, toList_text, length_flatMap s.length_line, List.length_range]

theorem getElem?_text_line (s : Screen) (y : Nat) {c : Nat} (hc : c < 65) :
    s.text.toList[y % 32 * 65 + c]? = (s.rowText (y % 32) ++ ['\n'])[c]? := by
  have hy : (List.range 32)[y % 32]? = some (y % 32) :=
    List.getElem?_range (Nat.mod_lt _ (by decide))
  rw [toList_text, getElem?_flatMap s.length_line hy hc]

/-- Every pixel has its character in the line of its row. -/
theorem getElem?_text (s : Screen) (x y : Nat) :
    s.text.toList[y % 32 * 65 + x % 64]? = some (pixelChar (s.pixel x y)) := by
  have hx : x % 64 < 64 := Nat.mod_lt _ (by decide)
  have hline : x % 64 < (s.rowText (y % 32)).length := by rwa [length_rowText]
  rw [getElem?_text_line s y (by omega), List.getElem?_append_left hline, rowText,
    List.getElem?_map, width, List.getElem?_range hx, Option.map_some, pixel_mod]

theorem getElem?_text_newline (s : Screen) (y : Nat) :
    s.text.toList[y % 32 * 65 + 64]? = some '\n' := by
  have hline := s.length_rowText (y % 32)
  rw [getElem?_text_line s y (by decide), List.getElem?_append_right (by omega), hline]
  rfl

/-! ### Screens -/

theorem ext_pixel {s t : Screen} (h : ∀ px < 64, ∀ py < 32, s.pixel px py = t.pixel px py) :
    s = t := by
  obtain ⟨rows⟩ := s
  obtain ⟨rows'⟩ := t
  congr 1
  apply Vector.ext
  intro py hy
  apply BitVec.eq_of_getMsbD_eq
  intro px hx
  have hpixel := h px hx py hy
  simp only [pixel, row, wrapRow, Nat.mod_eq_of_lt hx, Nat.mod_eq_of_lt hy] at hpixel
  exact hpixel

/-- The four views that tell screens apart. -/
theorem views_tfae (s t : Screen) :
    [(s == t) = true, s.bytes = t.bytes, ∀ x y, s.pixel x y = t.pixel x y,
      s.text = t.text].TFAE := by
  tfae_have 1 → 2 := fun h => by rw [eq_of_beq h]
  tfae_have 1 → 4 := fun h => by rw [eq_of_beq h]
  tfae_have 2 → 3 := by
    intro h x y
    obtain ⟨b, hb, hs⟩ := s.pixel_eq_testBit x y
    obtain ⟨b', hb', ht⟩ := t.pixel_eq_testBit x y
    rw [h, hb'] at hb
    rw [hs, ht, Option.some.inj hb]
  tfae_have 3 → 1 := fun h => beq_of_eq (ext_pixel fun px _ py _ => h px py)
  tfae_have 4 → 3 := by
    intro h x y
    have hs := s.getElem?_text x y
    rw [h, t.getElem?_text x y] at hs
    exact pixelChar_inj (Option.some.inj hs).symm
  tfae_finish

/-- **All views of the screen agree.**  In every screen the pixel in column `x` of row `y`, wherever
that is on the torus, is a bit of a byte, counted from the top one; it is a character of the
picture, in the line of the row; and the bytes of the row are the eight of its place among all
bytes.  The lit pixels are as many as there are positions with a lit pixel.  So two screens are
equal exactly if they have the same bytes, the same pixels, or the same picture. -/
theorem views_agree :
    (∀ (s : Screen) (x y : Nat),
      (∃ b, s.bytes[y % 32 * 8 + x % 64 / 8]? = some b ∧
        s.pixel x y = b.toNat.testBit (7 - x % 8)) ∧
      s.rowBytes y = (s.bytes.drop (y % 32 * 8)).take 8 ∧
      s.text.toList[y % 32 * 65 + x % 64]? = some (if s.pixel x y then '█' else ' ') ∧
      s.text.toList[y % 32 * 65 + 64]? = some '\n') ∧
    (∀ s : Screen, s.bytes.length = 256 ∧ s.text.length = 32 * 65 ∧
      s.litCount = positions.countP fun (px, py) => s.pixel px py) ∧
    ∀ s t : Screen,
      [(s == t) = true, s.bytes = t.bytes, ∀ x y, s.pixel x y = t.pixel x y,
        s.text = t.text].TFAE := by
  refine ⟨fun s x y => ?_, fun s => ?_, views_tfae⟩
  · exact ⟨s.pixel_eq_testBit x y, s.rowBytes_eq y, s.getElem?_text x y, s.getElem?_text_newline y⟩
  · exact ⟨s.length_bytes, s.length_text, s.litCount_eq⟩

end Screen

end Chip8

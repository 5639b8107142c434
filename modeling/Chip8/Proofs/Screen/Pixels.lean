import Chip8.Screen

/-!
# Sprites pixel by pixel

A row of a sprite is drawn as one word: `Screen.mask` spreads its byte over the columns it covers.
Here the same row is taken a pixel at a time.  `Screen.bitsMask` collects the pixels that a list of
bits stands for, and all eight bits together make up the mask (`Screen.bitsMask_range`).  Different
bits fall on different columns, so no bit of a row meets another one (`Screen.and_bitsMask`).

So a sprite can as well be drawn by inverting one pixel after another, wherever a set bit falls
(`Screen.spots`):

* `Screen.draw_eq_flips` : the screen is the same;
* `Screen.collides_eq_meets` : and a lit pixel is met by a row exactly if one is met by a bit.
-/

namespace Chip8

namespace Screen

/-! ### Columns of a mask -/

/-- How far column `c` lies to the right of column `x`, counted around the screen. -/
def distance (x c : Nat) : Nat :=
  (c + 64 - x % 64) % 64

theorem distance_eq_iff {x c k : Nat} (hc : c < 64) (hk : k < 64) :
    distance x c = k ↔ (x + k) % 64 = c := by
  unfold distance
  omega

/-- The bit of a mask in column `c` is the bit of the byte that falls there. -/
theorem getMsbD_mask (x : Nat) (b : UInt8) {c : Nat} (hc : c < 64) :
    (mask x b).getMsbD c = b.toBitVec.getMsbD (distance x c) := by
  have hx : x % 64 < 64 := Nat.mod_lt _ (by decide)
  have hbyte : ∀ d, (b.toBitVec.setWidth 64 <<< 56).getMsbD d = b.toBitVec.getMsbD d := by
    intro d
    rw [BitVec.getMsbD_shiftLeft, BitVec.getMsbD_setWidth, decide_eq_true (by omega),
      Bool.true_and]
    congr 1
  rw [mask, BitVec.getMsbD_rotateRight_of_lt hx, Nat.mod_eq_of_lt hx, decide_eq_true hc,
    Bool.true_and, hbyte, hbyte]
  unfold distance
  split
  · congr 1
    omega
  · congr 1
    omega

/-! ### Masks bit by bit -/

/-- The pixels of the bits that a list names, of a sprite byte with its left end in column `x`. -/
def bitsMask (x : Nat) (b : UInt8) : List Nat → BitVec 64
  | [] => 0
  | bit :: rest =>
    if b.toNat.testBit (7 - bit) then
      BitVec.twoPow 64 (63 - (x + bit) % 64) ^^^ bitsMask x b rest
    else bitsMask x b rest

theorem getMsbD_pixelMask (x : Nat) {c : Nat} (hc : c < 64) :
    (BitVec.twoPow 64 (63 - x % 64)).getMsbD c = decide (x % 64 = c) := by
  rw [BitVec.getMsbD_twoPow, Bool.eq_iff_iff]
  simp only [Bool.and_eq_true, decide_eq_true_eq]
  omega

/-- The bits of a row fall on different columns, so each of them is seen. -/
theorem getMsbD_bitsMask (x : Nat) (b : UInt8) {bits : List Nat} (hn : bits.Nodup)
    (hlt : ∀ k ∈ bits, k < 64) {c : Nat} (hc : c < 64) :
    (bitsMask x b bits).getMsbD c =
      (decide (distance x c ∈ bits) && b.toNat.testBit (7 - distance x c)) := by
  induction bits with
  | nil => simp [bitsMask]
  | cons bit rest ih =>
    obtain ⟨hbit, hrest⟩ := List.nodup_cons.1 hn
    have ih := ih hrest fun k hk => hlt k (List.mem_cons_of_mem _ hk)
    have hd := distance_eq_iff (x := x) hc (hlt bit List.mem_cons_self)
    rw [bitsMask]
    -- either this bit falls on the column, or only one of the rest can
    by_cases hdist : distance x c = bit
    · subst hdist
      split
      · next hset =>
        rw [BitVec.getMsbD_xor, getMsbD_pixelMask _ hc, ih]
        simp [hd.1 rfl, hbit, hset]
      · next hset =>
        rw [ih]
        simp [hbit, hset]
    · have hcol : ¬ (x + bit) % 64 = c := fun h => hdist (hd.2 h)
      split
      · rw [BitVec.getMsbD_xor, getMsbD_pixelMask _ hc, ih]
        simp [hcol, hdist]
      · rw [ih]
        simp [hdist]

theorem bitsMask_range (x : Nat) (b : UInt8) : bitsMask x b (List.range 8) = mask x b := by
  apply BitVec.eq_of_getMsbD_eq
  intro c hc
  rw [getMsbD_bitsMask x b List.nodup_range (by simp; omega) hc, getMsbD_mask x b hc]
  by_cases hd : distance x c < 8
  · simp only [List.mem_range, hd, decide_true, Bool.true_and, BitVec.getMsbD]
    rfl
  · simp [hd, BitVec.getMsbD]

theorem and_bitsMask (x : Nat) (b : UInt8) {bit : Nat} {rest : List Nat}
    (hn : (bit :: rest).Nodup) (hlt : ∀ k ∈ bit :: rest, k < 64) :
    BitVec.twoPow 64 (63 - (x + bit) % 64) &&& bitsMask x b rest = 0 := by
  obtain ⟨hbit, hrest⟩ := List.nodup_cons.1 hn
  have hlt' : ∀ k ∈ rest, k < 64 := fun k hk => hlt k (List.mem_cons_of_mem _ hk)
  apply BitVec.eq_of_getMsbD_eq
  intro c hc
  rw [BitVec.getMsbD_and, getMsbD_pixelMask _ hc, getMsbD_bitsMask x b hrest hlt' hc]
  by_cases h : (x + bit) % 64 = c
  · have hd := (distance_eq_iff hc (hlt bit List.mem_cons_self)).2 h
    simp [hd, hbit]
  · simp [h]

/-! ### Inverting one part after another -/

theorem pixel_mod (s : Screen) (x y : Nat) : s.pixel (x % 64) (y % 32) = s.pixel x y := by
  simp only [pixel, row, wrapRow, Nat.mod_mod]

theorem invertPixel_mod (s : Screen) (x y : Nat) :
    s.invertPixel (x % 64) (y % 32) = s.invertPixel x y := by
  simp only [invertPixel, invertRow, row, wrapRow, Nat.mod_mod]

theorem invertRow_zero (s : Screen) (y : Nat) : s.invertRow y 0 = s := by
  simp [invertRow, row]

theorem and_pixelMask_ne_zero_iff (s : Screen) (x y : Nat) :
    s.row y &&& BitVec.twoPow 64 (63 - x % 64) ≠ 0 ↔ s.pixel x y = true := by
  have hlt : 63 - x % 64 < 64 := by omega
  have hone : BitVec.twoPow 64 (63 - x % 64) ≠ 0#64 := by
    intro h
    have hbit := congrArg (fun v : BitVec 64 => v.getLsbD (63 - x % 64)) h
    simp [hlt] at hbit
  have hpixel : s.pixel x y = (s.row y).getLsbD (63 - x % 64) := by
    rw [pixel, BitVec.getMsbD, decide_eq_true (Nat.mod_lt _ (by decide)), Bool.true_and]
  rw [hpixel, BitVec.and_twoPow]
  cases (s.row y).getLsbD (63 - x % 64)
  · simp
  · simpa using hone

theorem invertRow_invertRow (s : Screen) (y : Nat) (p q : BitVec 64) :
    (s.invertRow y p).invertRow y q = s.invertRow y (p ^^^ q) := by
  simp [invertRow, row, BitVec.xor_assoc]

theorem and_xor (r p q : BitVec 64) : r &&& (p ^^^ q) = (r &&& p) ^^^ (r &&& q) := by
  apply BitVec.eq_of_getLsbD_eq
  intro i _
  simp only [BitVec.getLsbD_and, BitVec.getLsbD_xor, Bool.and_xor_distrib_left]

theorem and_xor_ne_zero_iff {r p q : BitVec 64} (h : p &&& q = 0) :
    r &&& (p ^^^ q) ≠ 0 ↔ r &&& p ≠ 0 ∨ r &&& q ≠ 0 := by
  have hmeet : r &&& p = r &&& q → r &&& p = 0 := by
    intro heq
    calc r &&& p = (r &&& p) &&& (r &&& q) := by rw [← heq, BitVec.and_self]
      _ = r &&& (p &&& q) := by ac_nf
      _ = 0 := by rw [h]; exact BitVec.and_zero
  rw [and_xor]
  constructor
  · intro hne
    by_cases hp : r &&& p = 0
    · right
      intro hq
      exact hne (by rw [hp, hq]; rfl)
    · exact .inl hp
  · -- if both met the row in the same pixels, those would be in both parts
    intro hor hzero
    have heq := BitVec.xor_eq_zero_iff.1 hzero
    have hp := hmeet heq
    rcases hor with hne | hne
    · exact hne hp
    · exact hne (heq ▸ hp)

theorem row_invertPixel_and (s : Screen) (x y : Nat) {q : BitVec 64}
    (h : BitVec.twoPow 64 (63 - x % 64) &&& q = 0) :
    (s.invertPixel x y).row y &&& q = s.row y &&& q := by
  rw [invertPixel, row_invertRow, if_pos rfl, BitVec.and_comm, and_xor, BitVec.and_comm q,
    BitVec.and_comm q, h]
  exact BitVec.xor_zero

/-- A pixel apart from `q` and `q` itself are met together as one after the other. -/
theorem pixel_or_meets (s : Screen) (x y : Nat) {q : BitVec 64}
    (h : BitVec.twoPow 64 (63 - x % 64) &&& q = 0) :
    (s.pixel x y || decide ((s.invertPixel x y).row y &&& q ≠ 0)) =
      decide (s.row y &&& (BitVec.twoPow 64 (63 - x % 64) ^^^ q) ≠ 0) := by
  rw [row_invertPixel_and s x y h, Bool.eq_iff_iff, Bool.or_eq_true, decide_eq_true_iff,
    decide_eq_true_iff, and_xor_ne_zero_iff h, and_pixelMask_ne_zero_iff]

/-! ### One pixel after another -/

/-- The screen with the pixels at these columns and rows inverted one after another. -/
def flips (s : Screen) : List (Nat × Nat) → Screen
  | [] => s
  | (column, line) :: rest => (s.invertPixel column line).flips rest

/-- Whether one of these pixels is lit when its turn comes. -/
def meets (s : Screen) : List (Nat × Nat) → Bool
  | [] => false
  | (column, line) :: rest =>
    s.pixel column line || (s.invertPixel column line).meets rest

/-- Where the set bits of a sprite byte fall, among those that a list names; its left end is in
column `x` of row `y`. -/
def rowSpots (x y : Nat) (b : UInt8) : List Nat → List (Nat × Nat)
  | [] => []
  | bit :: rest =>
    if b.toNat.testBit (7 - bit) then (x + bit, y) :: rowSpots x y b rest else rowSpots x y b rest

/-- Where the set bits of a sprite fall, in the order in which they are drawn. -/
def spots (x y : Nat) : List UInt8 → List (Nat × Nat)
  | [] => []
  | b :: rest => rowSpots x y b (List.range 8) ++ spots x (y + 1) rest

theorem flips_append (s : Screen) (first second : List (Nat × Nat)) :
    s.flips (first ++ second) = (s.flips first).flips second := by
  induction first generalizing s with
  | nil => rfl
  | cons p first ih => exact ih _

theorem meets_append (s : Screen) (first second : List (Nat × Nat)) :
    s.meets (first ++ second) = (s.meets first || (s.flips first).meets second) := by
  induction first generalizing s with
  | nil => rfl
  | cons p first ih =>
    rw [List.cons_append, meets, ih, ← Bool.or_assoc]
    rfl

theorem flips_rowSpots (s : Screen) (x y : Nat) (b : UInt8) (bits : List Nat) :
    s.flips (rowSpots x y b bits) = s.invertRow y (bitsMask x b bits) := by
  induction bits generalizing s with
  | nil => exact (invertRow_zero s y).symm
  | cons bit rest ih =>
    rw [rowSpots, bitsMask]
    split
    · rw [flips, ih, invertPixel, invertRow_invertRow]
    · exact ih s

theorem meets_rowSpots (s : Screen) (x y : Nat) (b : UInt8) {bits : List Nat} (hn : bits.Nodup)
    (hlt : ∀ k ∈ bits, k < 64) :
    s.meets (rowSpots x y b bits) = decide (s.row y &&& bitsMask x b bits ≠ 0) := by
  induction bits generalizing s with
  | nil =>
    have hnone : s.row y &&& bitsMask x b [] = 0 := BitVec.and_zero
    rw [hnone, decide_eq_false (not_not_intro rfl)]
    rfl
  | cons bit rest ih =>
    have hsep := and_bitsMask x b hn hlt
    have ih := fun s => ih s (List.nodup_cons.1 hn).2 fun k hk => hlt k (List.mem_cons_of_mem _ hk)
    rw [rowSpots, bitsMask]
    split
    -- the first bit and the rest are in different columns, so none of them meets the other
    · rw [meets, ih, pixel_or_meets s _ _ hsep]
    · exact ih s

/-- Drawing inverts a pixel for each set bit of the sprite. -/
theorem draw_eq_flips (s : Screen) (x y : Nat) (sprite : List UInt8) :
    s.draw x y sprite = s.flips (spots x y sprite) := by
  induction sprite generalizing s y with
  | nil => rfl
  | cons b rest ih => rw [draw, spots, flips_append, flips_rowSpots, bitsMask_range, ih]

/-- A sprite collides exactly if one of its set bits meets a lit pixel. -/
theorem collides_eq_meets (s : Screen) (x y : Nat) (sprite : List UInt8) :
    s.collides x y sprite = s.meets (spots x y sprite) := by
  induction sprite generalizing s y with
  | nil => rfl
  | cons b rest ih =>
    have hlt : ∀ k ∈ List.range 8, k < 64 := fun k hk => by
      have := List.mem_range.1 hk
      omega
    rw [collides, spots, meets_append, meets_rowSpots s x y b List.nodup_range hlt, flips_rowSpots,
      bitsMask_range, ih]

end Screen

end Chip8

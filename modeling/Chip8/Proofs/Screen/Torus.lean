import Mathlib.Data.List.Nodup
import Mathlib.Data.List.ProdSigma
import Chip8.Proofs.Machine.Effects
import Chip8.Proofs.Machine.InPlace
import Chip8.Proofs.Screen.Pixels

/-!
# Sprites on the torus

Drawing goes over the rows of a sprite and their bits one after another, and reads a screen that it
has changed before.  What comes of it has no order: `Screen.hits` is the number of set bits that
fall on a position of the screen, and a pixel changes if that number is odd.  A lit pixel is turned
off somewhere, and that is a collision, exactly if some position is hit at least twice, counting a
pixel that was lit as a hit.

* `Screen.pixel_flips`, `Screen.meets_iff` : the same for any pixels that are inverted one after
  another;
* `Screen.hits_le_one` : a sprite no taller than the screen hits no position twice;
* **`Screen.draw_torus`** : sprites of any height anywhere, and the instruction that draws one.
-/

namespace Chip8

namespace Screen

/-- The set bits of a sprite: their rows, and their places in the row counted from the left. -/
def setBits (sprite : List UInt8) : List (Nat × Nat) :=
  ((List.range sprite.length).product (List.range 8)).filter fun (row, bit) =>
    (sprite.getD row 0).toNat.testBit (7 - bit)

/-- The number of set bits that fall on the position in column `px` of row `py`, for a sprite with
its top left corner in column `x` of row `y`. -/
def hits (x y : Nat) (sprite : List UInt8) (px py : Nat) : Nat :=
  (setBits sprite).countP fun (row, bit) => (x + bit) % 64 = px ∧ (y + row) % 32 = py

variable {sprite : List UInt8} {px py : Nat}

/-! ### Inverting one pixel after another -/

/-- The position of the screen that a pixel, given by its column and row, lies on. -/
def wrap (spot : Nat × Nat) : Nat × Nat :=
  (spot.1 % 64, spot.2 % 32)

/-- Whether a pixel, given by its column and row, is the one on a position of the screen. -/
def isAt (px py : Nat) (spot : Nat × Nat) : Bool :=
  spot.1 % 64 = px ∧ spot.2 % 32 = py

theorem pixel_invertPixel (s : Screen) (spot : Nat × Nat) (hx : px < 64) (hy : py < 32) :
    (s.invertPixel spot.1 spot.2).pixel px py = (s.pixel px py ^^ isAt px py spot) := by
  rw [pixel, invertPixel, row_invertRow, Nat.mod_eq_of_lt hy, Nat.mod_eq_of_lt hx]
  by_cases hline : py = spot.2 % 32
  · rw [if_pos hline, BitVec.getMsbD_xor, getMsbD_pixelMask _ hx, pixel, Nat.mod_eq_of_lt hx]
    simp [isAt, hline]
  · rw [if_neg hline, pixel, Nat.mod_eq_of_lt hx]
    simp [isAt, Ne.symm hline]

/-- A pixel changes each time that it is inverted. -/
theorem pixel_flips (s : Screen) (spots : List (Nat × Nat)) (hx : px < 64) (hy : py < 32) :
    (s.flips spots).pixel px py =
      (s.pixel px py ^^ decide (spots.countP (isAt px py) % 2 = 1)) := by
  induction spots generalizing s with
  | nil => simp [flips]
  | cons spot rest ih =>
    rw [flips, ih, pixel_invertPixel s spot hx hy, List.countP_cons, Bool.xor_assoc]
    congr 1
    cases isAt px py spot with
    | false => simp
    | true =>
      rw [if_pos rfl, Bool.true_xor, ← decide_not]
      congr 1
      rw [eq_iff_iff]
      omega

theorem two_le_iff (lit here : Bool) (later : Nat) :
    2 ≤ lit.toNat + (later + if here then 1 else 0) ↔
      (lit = true ∧ here = true) ∨ 2 ≤ (lit ^^ here).toNat + later := by
  cases lit <;> cases here <;> simp <;> omega

/-- A lit pixel is met exactly if a position counts twice: a pixel that was lit, and each time that
it is inverted. -/
theorem meets_iff (s : Screen) (spots : List (Nat × Nat)) :
    s.meets spots = true ↔
      ∃ px < 64, ∃ py < 32, 2 ≤ (s.pixel px py).toNat + spots.countP (isAt px py) := by
  induction spots generalizing s with
  | nil =>
    refine ⟨fun h => absurd h Bool.false_ne_true, ?_⟩
    rintro ⟨px, -, py, -, htwo⟩
    have := (s.pixel px py).toNat_le
    rw [List.countP_nil] at htwo
    omega
  | cons spot rest ih =>
    have hcons : ∀ px < 64, ∀ py < 32,
        2 ≤ (s.pixel px py).toNat + (spot :: rest).countP (isAt px py) ↔
          (s.pixel px py = true ∧ isAt px py spot = true) ∨
            2 ≤ ((s.invertPixel spot.1 spot.2).pixel px py).toNat + rest.countP (isAt px py) := by
      intro px hx py hy
      rw [List.countP_cons, two_le_iff, pixel_invertPixel s spot hx hy]
    rw [meets, Bool.or_eq_true, ih]
    constructor
    · rintro (hlit | ⟨px, hx, py, hy, htwo⟩)
      · have hx : spot.1 % 64 < 64 := Nat.mod_lt _ (by decide)
        have hy : spot.2 % 32 < 32 := Nat.mod_lt _ (by decide)
        have hat : isAt (spot.1 % 64) (spot.2 % 32) spot = true := by simp [isAt]
        rw [← pixel_mod] at hlit
        exact ⟨_, hx, _, hy, (hcons _ hx _ hy).2 (.inl ⟨hlit, hat⟩)⟩
      · exact ⟨px, hx, py, hy, (hcons px hx py hy).2 (.inr htwo)⟩
    · rintro ⟨px, hx, py, hy, htwo⟩
      rcases (hcons px hx py hy).1 htwo with ⟨hlit, hat⟩ | htwo
      · obtain ⟨rfl, rfl⟩ : spot.1 % 64 = px ∧ spot.2 % 32 = py := of_decide_eq_true hat
        rw [pixel_mod] at hlit
        exact .inl hlit
      · exact .inr ⟨px, hx, py, hy, htwo⟩

/-! ### The set bits of a sprite -/

theorem mem_setBits {row bit : Nat} :
    (row, bit) ∈ setBits sprite ↔
      row < sprite.length ∧ bit < 8 ∧ (sprite.getD row 0).toNat.testBit (7 - bit) = true := by
  rw [setBits, List.mem_filter, List.pair_mem_product, List.mem_range, List.mem_range, and_assoc]

theorem nodup_setBits (sprite : List UInt8) : (setBits sprite).Nodup :=
  (List.nodup_range.product List.nodup_range).filter _

theorem rowSpots_eq (x y : Nat) (b : UInt8) (bits : List Nat) :
    rowSpots x y b bits =
      (bits.filter fun bit => b.toNat.testBit (7 - bit)).map fun bit => (x + bit, y) := by
  induction bits with
  | nil => rfl
  | cons bit rest ih =>
    rw [rowSpots, ih, List.filter_cons]
    split <;> rfl

theorem setBits_cons (b : UInt8) (rest : List UInt8) :
    setBits (b :: rest) =
      ((List.range 8).filter fun bit => b.toNat.testBit (7 - bit)).map (fun bit => (0, bit)) ++
        (setBits rest).map fun place => (place.1 + 1, place.2) := by
  simp only [setBits, List.length_cons, List.range_succ_eq_map, List.product, List.flatMap_cons,
    List.flatMap_map, List.filter_append, List.filter_map, List.filter_flatMap, List.map_flatMap,
    List.map_map]
  rfl

theorem spots_eq (x y : Nat) (sprite : List UInt8) :
    spots x y sprite = (setBits sprite).map fun place => (x + place.2, y + place.1) := by
  induction sprite generalizing y with
  | nil => rfl
  | cons b rest ih =>
    rw [spots, ih, rowSpots_eq, setBits_cons, List.map_append, List.map_map, List.map_map]
    congr 1
    refine List.map_congr_left fun place _ => ?_
    simp only [Function.comp_apply, Nat.add_assoc, Nat.add_comm 1]

theorem hits_eq (x y : Nat) (sprite : List UInt8) (px py : Nat) :
    hits x y sprite px py = (spots x y sprite).countP (isAt px py) := by
  rw [spots_eq, List.countP_map]
  rfl

theorem hits_pos (x y : Nat) {row bit : Nat} (hset : (row, bit) ∈ setBits sprite) :
    0 < hits x y sprite ((x + bit) % 64) ((y + row) % 32) :=
  List.countP_pos_iff.2 ⟨(row, bit), hset, by simp⟩

/-- The set bits of a sprite no taller than the screen fall on different positions. -/
theorem nodup_map_wrap (x y : Nat) (h : sprite.length ≤ 32) :
    ((spots x y sprite).map wrap).Nodup := by
  rw [spots_eq, List.map_map]
  refine (nodup_setBits sprite).map_on ?_
  rintro ⟨row, bit⟩ hset ⟨row', bit'⟩ hset' heq
  obtain ⟨hrow, hbit, -⟩ := mem_setBits.1 hset
  obtain ⟨hrow', hbit', -⟩ := mem_setBits.1 hset'
  obtain ⟨hcolumn, hline⟩ : (x + bit) % 64 = (x + bit') % 64 ∧
      (y + row) % 32 = (y + row') % 32 := Prod.mk.inj heq
  rw [Prod.mk.injEq]
  omega

theorem hits_le_one (x y : Nat) (h : sprite.length ≤ 32) (px py : Nat) :
    hits x y sprite px py ≤ 1 := by
  have hcount : hits x y sprite px py = ((spots x y sprite).map wrap).count (px, py) := by
    rw [hits_eq, List.count_eq_countP, List.countP_map]
    refine List.countP_congr fun spot _ => ?_
    simp [isAt, wrap]
  rw [hcount]
  exact List.nodup_iff_count_le_one.1 (nodup_map_wrap x y h) _

/-! ### Drawing -/

theorem pixel_draw (s : Screen) (x y : Nat) (sprite : List UInt8) (hx : px < 64) (hy : py < 32) :
    (s.draw x y sprite).pixel px py =
      (s.pixel px py ^^ decide (hits x y sprite px py % 2 = 1)) := by
  rw [draw_eq_flips, pixel_flips s _ hx hy, hits_eq]

theorem collides_iff_hits (s : Screen) (x y : Nat) (sprite : List UInt8) :
    s.collides x y sprite = true ↔
      ∃ px < 64, ∃ py < 32, 2 ≤ (s.pixel px py).toNat + hits x y sprite px py := by
  simp only [collides_eq_meets, meets_iff, hits_eq]

/-- A sprite no taller than the screen collides exactly if a set bit falls on a pixel that was lit
before. -/
theorem collides_iff_of_length_le (s : Screen) (x y : Nat) (h : sprite.length ≤ 32) :
    s.collides x y sprite = true ↔
      ∃ row bit, (row, bit) ∈ setBits sprite ∧ s.pixel (x + bit) (y + row) = true := by
  rw [collides_iff_hits]
  constructor
  · rintro ⟨px, hx, py, hy, htwo⟩
    have hone := hits_le_one x y h px py
    have hle := (s.pixel px py).toNat_le
    have hlit : s.pixel px py = true := Bool.toNat_eq_one.1 (by omega)
    have hhit : 0 < hits x y sprite px py := by omega
    obtain ⟨⟨row, bit⟩, hset, hfalls⟩ := List.countP_pos_iff.1 hhit
    obtain ⟨rfl, rfl⟩ : (x + bit) % 64 = px ∧ (y + row) % 32 = py := of_decide_eq_true hfalls
    rw [pixel_mod] at hlit
    exact ⟨row, bit, hset, hlit⟩
  · rintro ⟨row, bit, hset, hlit⟩
    have hhit := hits_pos x y hset
    have hx : (x + bit) % 64 < 64 := Nat.mod_lt _ (by decide)
    have hy : (y + row) % 32 < 32 := Nat.mod_lt _ (by decide)
    refine ⟨_, hx, _, hy, ?_⟩
    rw [pixel_mod, hlit, Bool.toNat_true]
    omega

/-- **Sprites are drawn by exclusive or on the torus.**  Where no coordinate outgrows its word,
inverting one pixel after another ends well and leaves the screen that `draw` says, with the answer
of `collides`.  A pixel then is what it was, inverted if the number of set bits that fall on it is
odd; and a collision is reported exactly if some position counts two or more, by its hits and by one
if it was lit before.  For a sprite no taller than the screen this is so exactly if some set bit
falls on a pixel that was lit before the sprite was drawn, and so it is for every sprite that an
instruction draws. -/
theorem draw_torus :
    (∀ (s : Screen) (x y : Nat) (sprite : List UInt8), x + 7 < 2 ^ 64 →
      y + sprite.length < 2 ^ 64 →
      (∀ m : Machine, m.screen = s → (Action.drawRows x y 0 sprite false).run m =
        .value (s.collides x y sprite) { m with screen := s.draw x y sprite }) ∧
      (∀ px < 64, ∀ py < 32, (s.draw x y sprite).pixel px py =
        (s.pixel px py ^^ decide (hits x y sprite px py % 2 = 1))) ∧
      (s.collides x y sprite = true ↔
        ∃ px < 64, ∃ py < 32, 2 ≤ (s.pixel px py).toNat + hits x y sprite px py) ∧
      (sprite.length ≤ 32 → (s.collides x y sprite = true ↔
        ∃ row bit, (row, bit) ∈ setBits sprite ∧ s.pixel (x + bit) (y + row) = true))) ∧
    ∀ (m m' : Machine) (x y : Register) (height : Fin 16),
      m.execute (.draw x y height) = .ok m' →
      let sprite := m.block height.val
      let column := (m.registers.read x).toNat % 64
      let line := (m.registers.read y).toNat % 32
      (∀ px < 64, ∀ py < 32, m'.screen.pixel px py =
        (m.screen.pixel px py ^^ decide (hits column line sprite px py % 2 = 1))) ∧
      (m'.registers.read Register.flag =
        if m.screen.collides column line sprite then 1 else 0) ∧
      (m.screen.collides column line sprite = true ↔
        ∃ row bit, (row, bit) ∈ setBits sprite ∧
          m.screen.pixel (column + bit) (line + row) = true) := by
  constructor
  · intro s x y sprite hx hy
    refine ⟨?_, fun px hpx py hpy => pixel_draw s x y sprite hpx hpy,
      collides_iff_hits s x y sprite, collides_iff_of_length_le s x y⟩
    rintro m rfl
    exact Action.run_drawSprite hx sprite (Nat.le_of_lt hy) m
  · intro m m' x y height h sprite column line
    obtain ⟨-, rfl⟩ := Machine.execute_eq_ok_iff.1 h
    have hlen : sprite.length ≤ 32 := by
      simp only [sprite, Machine.block, List.length_map, List.length_range]
      omega
    exact ⟨fun px hpx py hpy => pixel_draw m.screen column line sprite hpx hpy,
      (Registers.read_setFlag _ _ _).trans (if_pos rfl),
      collides_iff_of_length_le m.screen column line hlen⟩

/-- On a dark screen a sprite of 33 rows meets its own first row again; and a sprite that leaves on
the right meets what is lit on the left. -/
theorem draw_torus_wrap :
    let tall : List UInt8 := List.replicate 33 0x80
    let m := { Machine.fresh {} (.ofList []) with
      memory := Memory.blank.place 0 [0x81], registers := Registers.zero.write 2 61,
      screen := dark.invertPixel 4 0 }
    63 + 7 < 2 ^ 64 ∧ 31 + tall.length < 2 ^ 64 ∧ hits 63 31 tall 63 31 = 2 ∧
      dark.collides 63 31 tall = true ∧ (dark.draw 63 31 tall).pixel 63 31 = false ∧
      (dark.draw 63 31 tall).pixel 63 0 = true ∧
      ∃ m', m.execute (.draw 2 3 1) = .ok m' ∧ m'.registers.read Register.flag = 1 ∧
        m'.screen.pixel 4 0 = false ∧ m'.screen.pixel 61 0 = true := by
  intro tall m
  obtain ⟨hsprites, hinstruction⟩ := draw_torus
  have htwice : hits 63 31 tall 63 31 = 2 := by decide
  have honce : hits 63 31 tall 63 0 = 1 := by decide
  obtain ⟨-, hpixel, hcollides, -⟩ := hsprites dark 63 31 tall (by decide) (by decide)
  have hok : m.execute (.draw 2 3 1) = .ok (m.effect (.draw 2 3 1)) :=
    Machine.execute_eq_ok_iff.2 ⟨Machine.blockObstacle_of_le (by decide), rfl⟩
  obtain ⟨hdrawn, hflag, hlit⟩ := hinstruction m _ 2 3 1 hok
  have hsprite : m.block (1 : Fin 16).val = [0x81] := by
    show [m.memory.byteAt 0] = _
    rw [Memory.byteAt_place _ _ _ (by decide)]
    rfl
  refine ⟨by decide, by decide, htwice, ?_, ?_, ?_, _, hok, ?_, ?_, ?_⟩
  · exact hcollides.2 ⟨63, by decide, 31, by decide, by decide⟩
  · rw [hpixel 63 (by decide) 31 (by decide), htwice]
    rfl
  · rw [hpixel 63 (by decide) 0 (by decide), honce]
    rfl
  · have hmet : m.screen.pixel (61 + 7) (0 + 0) = true := by decide
    rw [hflag, hlit.2 ⟨0, 7, hsprite ▸ by decide, hmet⟩]
    rfl
  · rw [hdrawn 4 (by decide) 0 (by decide), hsprite]
    decide
  · rw [hdrawn 61 (by decide) 0 (by decide), hsprite]
    decide

end Screen

end Chip8

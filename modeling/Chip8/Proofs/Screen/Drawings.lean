import Chip8.Proofs.Screen.Torus
import Chip8.Proofs.Screen.Views

/-!
# Drawings in any order

Drawing inverts a pixel for each set bit of a sprite.  So of many drawings it only counts how often
they invert each pixel: their order does not matter, and drawing all of them once more brings back
the screen that was there before (`Screen.flips_perm`, `Screen.flips_flips`).

One pixel more or less is lit after it is inverted.  A sprite no taller than the screen inverts no
pixel twice, so each set bit lights a pixel or turns one off by what the screen was before
(`Screen.litCount_flips`), and a second drawing of it finds just these pixels the other way round
(`Screen.pixel_draw_of_mem`).

* `Action.drawAll` : drawings one after another, in place;
* **`Screen.drawings_commute`** : lists of drawings in any order, the lit pixels after a drawing,
  and what two drawings of the same sprite meet.
-/

namespace Chip8

/-- A sprite, and where its top left corner is drawn. -/
structure Drawing where
  /-- The column. -/
  column : Nat
  /-- The row. -/
  row : Nat
  /-- The sprite. -/
  sprite : List UInt8

/-- No coordinate of the drawing outgrows its word. -/
def Drawing.Fits (d : Drawing) : Prop :=
  d.column + 7 < 2 ^ 64 ∧ d.row + d.sprite.length < 2 ^ 64

/-- The screen after some drawings, one after another. -/
def Screen.drawAll (s : Screen) : List Drawing → Screen
  | [] => s
  | d :: rest => (s.draw d.column d.row d.sprite).drawAll rest

/-- Whether each of some drawings meets a lit pixel when its turn comes. -/
def Screen.collideAll (s : Screen) : List Drawing → List Bool
  | [] => []
  | d :: rest =>
    s.collides d.column d.row d.sprite :: (s.draw d.column d.row d.sprite).collideAll rest

/-- Makes some drawings one after another; tells of each whether it met a lit pixel. -/
def Action.drawAll : List Drawing → Action (List Bool)
  | [] => pure []
  | d :: rest => do
    let hit ← drawRows d.column d.row 0 d.sprite false
    return hit :: (← drawAll rest)

theorem Action.run_drawAll (m : Machine) {drawings : List Drawing}
    (hfits : ∀ d ∈ drawings, d.Fits) :
    (Action.drawAll drawings).run m =
      .value (m.screen.collideAll drawings) { m with screen := m.screen.drawAll drawings } := by
  induction drawings generalizing m with
  | nil => rfl
  | cons d rest ih =>
    obtain ⟨hcolumn, hrow⟩ := hfits d List.mem_cons_self
    rw [drawAll, run_bind, run_drawSprite hcolumn d.sprite (Nat.le_of_lt hrow),
      Ending.andThen_value, run_bind, ih _ fun d hd => hfits d (List.mem_cons_of_mem _ hd)]
    rfl

namespace Screen

variable {sprite : List UInt8} {px py : Nat}

/-! ### The order of inversions -/

/-- Pixels may be inverted in any order. -/
theorem flips_perm (s : Screen) {spots spots' : List (Nat × Nat)} (h : spots.Perm spots') :
    s.flips spots = s.flips spots' := by
  refine ext_pixel fun px hx py hy => ?_
  rw [pixel_flips s _ hx hy, pixel_flips s _ hx hy, h.countP_eq]

/-- Inverting the same pixels again, in any order, brings back what was there. -/
theorem flips_flips (s : Screen) {spots spots' : List (Nat × Nat)} (h : spots.Perm spots') :
    (s.flips spots).flips spots' = s := by
  refine ext_pixel fun px hx py hy => ?_
  rw [pixel_flips _ _ hx hy, pixel_flips s _ hx hy, h.countP_eq, Bool.xor_assoc, Bool.xor_self,
    Bool.xor_false]

theorem drawAll_eq_flips (s : Screen) (drawings : List Drawing) :
    s.drawAll drawings = s.flips (drawings.flatMap fun d => spots d.column d.row d.sprite) := by
  induction drawings generalizing s with
  | nil => rfl
  | cons d rest ih => rw [drawAll, ih, List.flatMap_cons, flips_append, draw_eq_flips]

/-! ### Lit pixels -/

/-- If one element of a list without repetitions changes sides, the count changes by one. -/
theorem countP_of_flip {α : Type} [DecidableEq α] {p q : α → Bool} {l : List α} {a : α}
    (hn : l.Nodup) (ha : a ∈ l) (hflip : q a = !p a) (hsame : ∀ b ∈ l, b ≠ a → q b = p b) :
    l.countP q + 2 * (p a).toNat = l.countP p + 1 := by
  have hperm := List.perm_cons_erase ha
  have hrest : (l.erase a).countP q = (l.erase a).countP p := by
    refine List.countP_congr fun b hb => ?_
    obtain ⟨hne, hb⟩ := hn.mem_erase_iff.1 hb
    rw [hsame b hb hne]
  rw [hperm.countP_eq, hperm.countP_eq, List.countP_cons, List.countP_cons, hrest, hflip]
  cases p a <;> simp

theorem pixel_wrap (s : Screen) (spot : Nat × Nat) :
    s.pixel (wrap spot).1 (wrap spot).2 = s.pixel spot.1 spot.2 :=
  s.pixel_mod spot.1 spot.2

theorem pixel_invertPixel_wrap (s : Screen) (spot other : Nat × Nat) :
    (s.invertPixel spot.1 spot.2).pixel other.1 other.2 =
      (s.pixel other.1 other.2 ^^ decide (wrap other = wrap spot)) := by
  have h : (s.invertPixel spot.1 spot.2).pixel (other.1 % 64) (other.2 % 32) = _ :=
    pixel_invertPixel s spot (Nat.mod_lt _ (by decide)) (Nat.mod_lt _ (by decide))
  rw [pixel_mod, pixel_mod] at h
  rw [h]
  simp [isAt, wrap, eq_comm]

theorem litCount_invertPixel (s : Screen) (spot : Nat × Nat) :
    (s.invertPixel spot.1 spot.2).litCount + 2 * (s.pixel spot.1 spot.2).toNat =
      s.litCount + 1 := by
  have hmem : wrap spot ∈ positions :=
    mem_positions.2 ⟨Nat.mod_lt _ (by decide), Nat.mod_lt _ (by decide)⟩
  have hwrap : ∀ p ∈ positions, wrap p = p := by
    rintro ⟨px, py⟩ hp
    obtain ⟨hx, hy⟩ := mem_positions.1 hp
    rw [wrap, Nat.mod_eq_of_lt hx, Nat.mod_eq_of_lt hy]
  let before : Nat × Nat → Bool := fun p => s.pixel p.1 p.2
  let after : Nat × Nat → Bool := fun p => (s.invertPixel spot.1 spot.2).pixel p.1 p.2
  have hflip : after (wrap spot) = !before (wrap spot) := by
    simp only [after, before]
    rw [pixel_invertPixel_wrap, hwrap _ hmem, decide_eq_true rfl, Bool.xor_true]
  have hsame : ∀ p ∈ positions, p ≠ wrap spot → after p = before p := by
    intro p hp hne
    have hother : wrap p ≠ wrap spot := by rwa [hwrap p hp]
    simp only [after, before]
    rw [pixel_invertPixel_wrap, decide_eq_false hother, Bool.xor_false]
  have hcount := countP_of_flip nodup_positions hmem hflip hsame
  rw [litCount_eq, litCount_eq, ← pixel_wrap]
  exact hcount

/-- Inverting pixels on different positions lights those that were dark and turns the others off. -/
theorem litCount_flips (s : Screen) {spots : List (Nat × Nat)} (hn : (spots.map wrap).Nodup) :
    (s.flips spots).litCount + 2 * spots.countP (fun spot => s.pixel spot.1 spot.2) =
      s.litCount + spots.length := by
  induction spots generalizing s with
  | nil => rfl
  | cons spot rest ih =>
    obtain ⟨hspot, hrest⟩ := List.nodup_cons.1 hn
    have hone := s.litCount_invertPixel spot
    -- the pixels of the rest are as they were when this one was inverted
    have hkept : rest.countP (fun other => (s.invertPixel spot.1 spot.2).pixel other.1 other.2) =
        rest.countP fun other => s.pixel other.1 other.2 := by
      refine List.countP_congr fun other hother => ?_
      have hne : wrap other ≠ wrap spot := fun h => hspot (h ▸ List.mem_map_of_mem hother)
      rw [pixel_invertPixel_wrap, decide_eq_false hne, Bool.xor_false]
    have hcount : (spot :: rest).countP (fun other => s.pixel other.1 other.2) =
        rest.countP (fun other => s.pixel other.1 other.2) + (s.pixel spot.1 spot.2).toNat := by
      rw [List.countP_cons]
      cases s.pixel spot.1 spot.2 <;> rfl
    have ih := ih (s.invertPixel spot.1 spot.2) hrest
    rw [hkept] at ih
    rw [flips, hcount, List.length_cons]
    omega

/-! ### One sprite, and the same sprite again -/

theorem litCount_draw (s : Screen) (x y : Nat) (h : sprite.length ≤ 32) :
    (s.draw x y sprite).litCount +
        2 * (setBits sprite).countP (fun (row, bit) => s.pixel (x + bit) (y + row)) =
      s.litCount + (setBits sprite).length := by
  have hflips := s.litCount_flips (nodup_map_wrap x y h)
  rw [← draw_eq_flips, spots_eq, List.countP_map, List.length_map] at hflips
  exact hflips

theorem pixel_draw_of_mem (s : Screen) (x y : Nat) (h : sprite.length ≤ 32) {row bit : Nat}
    (hset : (row, bit) ∈ setBits sprite) :
    (s.draw x y sprite).pixel (x + bit) (y + row) = !s.pixel (x + bit) (y + row) := by
  have hone : hits x y sprite ((x + bit) % 64) ((y + row) % 32) = 1 :=
    Nat.le_antisymm (hits_le_one x y h _ _) (hits_pos x y hset)
  have hdraw : (s.draw x y sprite).pixel ((x + bit) % 64) ((y + row) % 32) = _ :=
    s.pixel_draw x y sprite (Nat.mod_lt _ (by decide)) (Nat.mod_lt _ (by decide))
  rw [pixel_mod, pixel_mod, hone] at hdraw
  exact hdraw.trans (Bool.xor_true _)

/-- Drawn once more, a sprite meets the pixels that were dark at first. -/
theorem collides_draw_iff (s : Screen) (x y : Nat) (h : sprite.length ≤ 32) :
    (s.draw x y sprite).collides x y sprite = true ↔
      ∃ row bit, (row, bit) ∈ setBits sprite ∧ s.pixel (x + bit) (y + row) = false := by
  rw [collides_iff_of_length_le _ x y h]
  refine exists_congr fun row => exists_congr fun bit => and_congr_right fun hset => ?_
  rw [pixel_draw_of_mem s x y h hset, Bool.not_eq_true']

theorem collides_or_collides_draw_iff (s : Screen) (x y : Nat) (h : sprite.length ≤ 32) :
    (s.collides x y sprite = true ∨ (s.draw x y sprite).collides x y sprite = true) ↔
      setBits sprite ≠ [] := by
  rw [collides_iff_of_length_le s x y h, collides_draw_iff s x y h]
  constructor
  · rintro (⟨row, bit, hset, -⟩ | ⟨row, bit, hset, -⟩)
    · exact List.ne_nil_of_mem hset
    · exact List.ne_nil_of_mem hset
  · intro hne
    obtain ⟨⟨row, bit⟩, hset⟩ := List.exists_mem_of_ne_nil _ hne
    cases hlit : s.pixel (x + bit) (y + row) with
    | false => exact .inr ⟨row, bit, hset, hlit⟩
    | true => exact .inl ⟨row, bit, hset, hlit⟩

/-- **Drawings commute and cancel.**  Drawings in which no coordinate outgrows its word end well one
after another, and leave the screen that `drawAll` says.  That screen is the same in any order of
the drawings, and the same drawings once more, in any order, bring back the screen before.  After
one drawing of a sprite no taller than the screen, as many more pixels are lit as the sprite has set
bits, less two for each that falls on a lit pixel.  Of two such drawings in a row one collides
exactly if the sprite has a set bit, and the second one exactly if some set bit falls on a pixel
that was dark before the first. -/
theorem drawings_commute :
    (∀ (m : Machine) (drawings : List Drawing), (∀ d ∈ drawings, d.Fits) →
      (Action.drawAll drawings).run m =
        .value (m.screen.collideAll drawings) { m with screen := m.screen.drawAll drawings }) ∧
    (∀ (s : Screen) (drawings drawings' : List Drawing), drawings.Perm drawings' →
      s.drawAll drawings' = s.drawAll drawings ∧ (s.drawAll drawings).drawAll drawings' = s) ∧
    ∀ (s : Screen) (x y : Nat) (sprite : List UInt8), sprite.length ≤ 32 →
      (s.draw x y sprite).litCount +
          2 * (setBits sprite).countP (fun (row, bit) => s.pixel (x + bit) (y + row)) =
        s.litCount + (setBits sprite).length ∧
      ((s.collides x y sprite = true ∨ (s.draw x y sprite).collides x y sprite = true) ↔
        setBits sprite ≠ []) ∧
      ((s.draw x y sprite).collides x y sprite = true ↔
        ∃ row bit, (row, bit) ∈ setBits sprite ∧ s.pixel (x + bit) (y + row) = false) := by
  refine ⟨fun m drawings hfits => Action.run_drawAll m hfits, fun s drawings drawings' h => ?_,
    fun s x y sprite h => ?_⟩
  · have hspots := h.flatMap_right fun d => spots d.column d.row d.sprite
    rw [drawAll_eq_flips, drawAll_eq_flips, drawAll_eq_flips]
    exact ⟨(s.flips_perm hspots).symm, s.flips_flips hspots⟩
  · exact ⟨s.litCount_draw x y h, s.collides_or_collides_draw_iff x y h,
      s.collides_draw_iff x y h⟩

/-- A sprite that leaves at the lower right corner meets the one lit pixel at the upper left, and
another sprite meets what it has lit there. -/
theorem drawings_commute_corner :
    let m := { Machine.fresh {} (.ofList []) with screen := dark.invertPixel 3 0 }
    let sprite : List UInt8 := [0xFF, 0x81]
    let drawings : List Drawing := [⟨60, 31, sprite⟩, ⟨59, 0, [0xC0]⟩]
    (∀ d ∈ drawings, d.Fits) ∧ drawings.Perm drawings.reverse ∧ sprite.length ≤ 32 ∧
      (Action.drawAll drawings).run m =
        .value [true, true] { m with screen := m.screen.drawAll drawings } ∧
      m.screen.drawAll drawings.reverse = m.screen.drawAll drawings ∧
      (m.screen.drawAll drawings).drawAll drawings.reverse = m.screen ∧
      (m.screen.draw 60 31 sprite).litCount = 9 ∧
      (m.screen.draw 60 31 sprite).collides 60 31 sprite = true := by
  intro m sprite drawings
  obtain ⟨hrun, horder, hone⟩ := drawings_commute
  have hfits : ∀ d ∈ drawings, d.Fits := by
    simp only [drawings, List.forall_mem_cons, List.not_mem_nil, false_imp_iff, implies_true,
      and_true, Drawing.Fits]
    decide
  have hperm : drawings.Perm drawings.reverse := drawings.reverse_perm.symm
  have hlength : sprite.length ≤ 32 := by decide
  have hhits : m.screen.collideAll drawings = [true, true] := by decide
  obtain ⟨hsame, hback⟩ := horder m.screen _ _ hperm
  obtain ⟨hlit, -, hagain⟩ := hone m.screen 60 31 sprite hlength
  have hafter := hrun m drawings hfits
  rw [hhits] at hafter
  refine ⟨hfits, hperm, hlength, hafter, hsame, hback, ?_, ?_⟩
  · have hbefore : m.screen.litCount = 1 := by decide
    have hset : (setBits sprite).length = 10 := by decide
    have hmet : (setBits sprite).countP
        (fun (row, bit) => m.screen.pixel (60 + bit) (31 + row)) = 1 := by decide
    omega
  · exact hagain.2 ⟨0, 0, by decide, by decide⟩

end Screen

end Chip8

import Chip8.Proofs.Screen.Parity

/-!
# Drawing on a rotated screen

A screen has no edges: both axes wrap around, so all its pixels can be rotated along both of them
(`Screen.rotate`).  To flip a pixel and then to rotate is to rotate and then to flip the pixel that
is rotated to its place (`Screen.flip_rotate`), and with that the same holds of whole sprites
(`Screen.draw_rotate`): what a sprite does to a screen does not depend on where it is drawn.
-/

namespace Chip8

theorem Sprite.hits_add (x y dx dy : Int) (sprite : List UInt8) :
    Sprite.hits (x + dx) (y + dy) sprite =
      (Sprite.hits x y sprite).map fun p => (p.1 + dx, p.2 + dy) := by
  simp only [Sprite.hits, List.map_flatMap, List.map_map]
  congr 1
  funext cell
  refine List.map_congr_left fun bit _ => ?_
  simp only [Function.comp_apply, Prod.mk.injEq]
  omega

namespace Screen

variable {s : Screen}

/-- All pixels move by `(dx, dy)`, and those that leave the screen come in at the opposite edge. -/
def rotate (s : Screen) (dx dy : Int) : Screen :=
  { s with pixels := Array.ofFn fun i : Fin (s.width * s.height) =>
      s.pixels.getD (s.index ((i % s.width : Nat) - dx) ((i / s.width : Nat) - dy)) 0 }

/-! ### Places that are one pixel -/

theorem index_eq_index_iff (hw : 1 ≤ s.width) (hh : 1 ≤ s.height) (x y x' y' : Int) :
    s.index x y = s.index x' y' ↔ x % s.width = x' % s.width ∧ y % s.height = y' % s.height := by
  obtain ⟨hx₀, hx⟩ := emod_bounds hw x'
  obtain ⟨hy₀, hy⟩ := emod_bounds hh y'
  obtain ⟨column, hcolumn⟩ := Int.eq_ofNat_of_zero_le hx₀
  obtain ⟨row, hrow⟩ := Int.eq_ofNat_of_zero_le hy₀
  have hplace : s.index x' y' = s.index column row :=
    (index_eq_iff hw hh x' y' (by omega) (by omega)).2 ⟨hcolumn, hrow⟩
  rw [hplace, index_eq_iff hw hh x y (by omega) (by omega), hcolumn, hrow]

theorem index_add_eq_iff (hw : 1 ≤ s.width) (hh : 1 ≤ s.height) (x y x' y' dx dy : Int) :
    s.index (x + dx) (y + dy) = s.index x' y' ↔ s.index x y = s.index (x' - dx) (y' - dy) := by
  rw [index_eq_index_iff hw hh, index_eq_index_iff hw hh]
  simp only [Int.emod_eq_emod_iff_emod_sub_eq_zero]
  rw [show x + dx - x' = x - (x' - dx) by omega, show y + dy - y' = y - (y' - dy) by omega]

theorem index_of_lt {i : Nat} (hi : i < s.width * s.height) :
    s.index (i % s.width : Nat) (i / s.width : Nat) = i := by
  have hw : 0 < s.width := Nat.pos_of_ne_zero fun h => by simp [h] at hi
  have hcolumn : i % s.width < s.width := Nat.mod_lt i hw
  have hrow : i / s.width < s.height := Nat.div_lt_of_lt_mul hi
  rw [index, Int.emod_eq_of_lt (Int.natCast_nonneg _) (Int.ofNat_lt.2 hcolumn),
    Int.emod_eq_of_lt (Int.natCast_nonneg _) (Int.ofNat_lt.2 hrow), Int.toNat_natCast,
    Int.toNat_natCast]
  exact Nat.div_add_mod' i s.width

/-! ### Rotated screens -/

theorem getD_rotate (s : Screen) (dx dy : Int) {i : Nat} (hi : i < s.width * s.height) :
    (s.rotate dx dy).pixels.getD i 0 =
      s.pixels.getD (s.index ((i % s.width : Nat) - dx) ((i / s.width : Nat) - dy)) 0 := by
  simp [rotate, hi]

theorem getD_index_rotate (hw : 1 ≤ s.width) (hh : 1 ≤ s.height) (x y dx dy : Int) :
    (s.rotate dx dy).pixels.getD (s.index (x + dx) (y + dy)) 0 =
      s.pixels.getD (s.index x y) 0 := by
  have hi := index_lt_mul hw hh (x + dx) (y + dy)
  have hback := (index_add_eq_iff hw hh x y _ _ dx dy).1 (index_of_lt hi).symm
  rw [getD_rotate s dx dy hi, hback]

theorem flip_rotate (hsize : s.pixels.size = s.width * s.height) (hw : 1 ≤ s.width)
    (hh : 1 ≤ s.height) (off : Bool) (dx dy : Int) (p : Int × Int) :
    flip (s.rotate dx dy, off) (p.1 + dx, p.2 + dy) =
      ((flip (s, off) p).1.rotate dx dy, (flip (s, off) p).2) := by
  have hlit : (s.rotate dx dy).isLit (p.1 + dx) (p.2 + dy) = s.isLit p.1 p.2 := by
    have hpixel := getD_index_rotate hw hh p.1 p.2 dx dy
    unfold isLit
    rw [← hpixel]
    rfl
  have hpixels : (flip (s.rotate dx dy, off) (p.1 + dx, p.2 + dy)).1.pixels =
      ((flip (s, off) p).1.rotate dx dy).pixels := by
    refine Array.ext (by simp [flip, rotate]) fun i hi hi' => ?_
    have hin : i < s.width * s.height := by simpa [flip, rotate] using hi'
    have hrotated : i < (s.rotate dx dy).pixels.size := by simpa [rotate] using hin
    -- the pixel with index `i` is flipped if the one that is rotated to it is
    have hplace := index_add_eq_iff hw hh p.1 p.2 (i % s.width : Nat) (i / s.width : Nat) dx dy
    rw [index_of_lt hin] at hplace
    have hbefore := getD_flip (s.rotate dx dy) off (p.1 + dx, p.2 + dy) fun _ => hrotated
    have hafter := getD_rotate (flip (s, off) p).1 dx dy hin
    have hflip := getD_flip s off p fun _ =>
      hsize ▸ index_lt_mul hw hh ((i % s.width : Nat) - dx) ((i / s.width : Nat) - dy)
    rw [Array.getElem_eq_getD 0, Array.getElem_eq_getD 0, hbefore, getD_rotate s dx dy hin, hafter]
    refine Eq.trans ?_ hflip.symm
    exact if_congr hplace rfl rfl
  refine Prod.ext ?_ ?_
  · exact congrArg (fun pixels => { s with pixels }) hpixels
  · simp only [flip, hlit]

theorem foldl_flip_rotate (hsize : s.pixels.size = s.width * s.height) (hw : 1 ≤ s.width)
    (hh : 1 ≤ s.height) (off : Bool) (dx dy : Int) (places : List (Int × Int)) :
    (places.map fun p => (p.1 + dx, p.2 + dy)).foldl flip (s.rotate dx dy, off) =
      ((places.foldl flip (s, off)).1.rotate dx dy, (places.foldl flip (s, off)).2) := by
  induction places generalizing s off with
  | nil => rfl
  | cons place places ih =>
    have hsize' : (flip (s, off) place).1.pixels.size = s.width * s.height := by
      simpa [flip] using hsize
    rw [List.map_cons, List.foldl_cons, flip_rotate hsize hw hh]
    exact ih hsize' hw hh _

/-- **To rotate and draw is to draw and rotate.** -/
theorem draw_rotate (hsize : s.pixels.size = s.width * s.height) (hw : 1 ≤ s.width)
    (hh : 1 ≤ s.height) (x y dx dy height address : Int) (store : Store) :
    (s.rotate dx dy).draw (x + dx) (y + dy) height address store =
      (s.draw x y height address store).map fun (t, off) => (t.rotate dx dy, off) := by
  have hpixels : s.isEmpty = false := not_isEmpty hw hh
  have hpixels' : (s.rotate dx dy).isEmpty = false := hpixels
  rw [draw_eq hpixels, draw_eq hpixels']
  cases store.readBlock address height with
  | error fault => rfl
  | ok sprite =>
    have hflips := foldl_flip_rotate hsize hw hh false dx dy (Sprite.hits x y sprite.toList)
    simp only [Except.map, drawRows, Sprite.hits_add, hflips]
    rfl

/-! ### Whole turns -/

theorem flip_turn (state : Screen × Bool) (a b : Int) (p : Int × Int) :
    flip state (p.1 + a * state.1.width, p.2 + b * state.1.height) = flip state p := by
  simp [flip, isLit, index]

theorem foldl_flip_turn (state : Screen × Bool) (a b : Int) (places : List (Int × Int)) :
    (places.map fun p => (p.1 + a * state.1.width, p.2 + b * state.1.height)).foldl flip state =
      places.foldl flip state := by
  induction places generalizing state with
  | nil => rfl
  | cons place places ih =>
    rw [List.map_cons, List.foldl_cons, flip_turn]
    exact ih (flip state place)

/-- **What a sprite does to a screen does not depend on where it is drawn.**  Let a screen of any
extents be given, with any pixels, and a sprite that memory holds or does not hold.  Rotating the
screen moves every pixel, and to rotate it and draw the sprite as much farther is to draw and then
to rotate: the pixels and the report are the same, and so is the fault of a drawing that fails.  In
particular whole turns make no difference.  A sprite that memory holds is drawn. -/
theorem draw_wraps (s : Screen) (hsize : s.pixels.size = s.width * s.height) (hw : 1 ≤ s.width)
    (hh : 1 ≤ s.height) (x y height address : Int) (store : Store) :
    (∀ dx dy, (s.rotate dx dy).width = s.width ∧ (s.rotate dx dy).height = s.height ∧
      (∀ column row,
        (s.rotate dx dy).pixelAt (column + dx) (row + dy) = s.pixelAt column row) ∧
      (s.rotate dx dy).draw (x + dx) (y + dy) height address store =
        (s.draw x y height address store).map fun (t, off) => (t.rotate dx dy, off)) ∧
    (∀ a b : Int, s.draw (x + a * s.width) (y + b * s.height) height address store =
      s.draw x y height address store) ∧
    (0 ≤ address → address + height ≤ store.size →
      ∃ t off, s.draw x y height address store = .ok (t, off)) := by
  have hpixels : s.isEmpty = false := not_isEmpty hw hh
  refine ⟨fun dx dy => ⟨rfl, rfl, fun column row => ?_, ?_⟩, fun a b => ?_, fun hlow hhigh => ?_⟩
  · exact congrArg UInt8.toNat (getD_index_rotate hw hh column row dx dy)
  · exact draw_rotate hsize hw hh x y dx dy height address store
  · rw [draw_eq hpixels, draw_eq hpixels]
    congr 1
    funext sprite
    rw [drawRows, Sprite.hits_add, foldl_flip_turn (s, false)]
    rfl
  · obtain ⟨block, hread⟩ := Store.exists_readBlock hlow hhigh
    rw [draw_eq hpixels, hread]
    exact ⟨_, _, rfl⟩

/-- A sprite that overlaps itself and two edges of a small screen turns a pixel off, wherever it is
drawn on the rotated screen. -/
theorem overlapping_sprite_wraps :
    ∃ (s : Screen) (store : Store) (t : Screen), s.pixels.size = s.width * s.height ∧
      1 ≤ s.width ∧ 1 ≤ s.height ∧ s.draw (-1) 1 3 0 store = .ok (t, true) ∧
      t.pixels = #[1, 0, 0, 0, 0, 1, 0, 1] ∧
      (s.rotate 3 (-1)).draw (-1 + 3) (1 + -1) 3 0 store = .ok (t.rotate 3 (-1), true) ∧
      s.draw (-1 + -5 * s.width) (1 + 7 * s.height) 3 0 store = .ok (t, true) := by
  let s : Screen := ⟨4, 2, #[1, 0, 0, 0, 0, 0, 1, 0], false⟩
  let store : Store := ⟨#[0xC0, 0x88, 0x70]⟩
  obtain ⟨hrotated, hturned, hdrawn⟩ :=
    draw_wraps s (by decide) (by decide) (by decide) (-1) 1 3 0 store
  obtain ⟨t, off, hdraw⟩ := hdrawn (by decide) (by decide)
  have hreport : (s.draw (-1) 1 3 0 store).toOption.map (fun p => (p.1.pixels, p.2)) =
      some (#[1, 0, 0, 0, 0, 1, 0, 1], true) := by decide
  rw [hdraw] at hreport
  obtain ⟨ht, rfl⟩ := Prod.mk.inj (Option.some.inj hreport)
  refine ⟨s, store, t, by decide, by decide, by decide, hdraw, ht, ?_, ?_⟩
  · rw [(hrotated 3 (-1)).2.2.2, hdraw]
    rfl
  · rw [hturned, hdraw]

end Screen

end Chip8

import Chip8.Proofs.Screen
import Chip8.Proofs.Store
import Mathlib.Algebra.BigOperators.Group.Finset.Sigma
import Mathlib.Data.Finset.Prod

/-!
# Sprites by parity

A set bit of a sprite hits one pixel of the screen, and on a small screen several bits may hit the
same one.  Drawing flips a pixel as often as it is hit (`getD_foldl_flip`), and it reports that a
pixel was turned off if one was hit while it was lit: either it was lit before, or an earlier hit
has lit it (`off_foldl_flip_iff`).

`Screen.hits` counts the bits that hit a pixel by row and bit, and `draw_by_parity` says what
drawing does to a screen of any extents, in terms of these counts alone.
-/

namespace Chip8

namespace Screen

variable {s : Screen}

/-- The value of the pixel at a place. -/
def pixelAt (s : Screen) (column row : Int) : Nat := (s.pixels.getD (s.index column row) 0).toNat

/-! ### Flips, counted -/

/-- How many of the places are the pixel with this index. -/
def countAt (s : Screen) (places : List (Int × Int)) (i : Nat) : Nat :=
  places.countP fun p => s.index p.1 p.2 = i

theorem countAt_cons (s : Screen) (place : Int × Int) (places : List (Int × Int)) (i : Nat) :
    s.countAt (place :: places) i =
      s.countAt places i + if s.index place.1 place.2 = i then 1 else 0 := by
  simp [countAt, List.countP_cons]

theorem countAt_flip (s : Screen) (off : Bool) (place : Int × Int) (places : List (Int × Int))
    (i : Nat) : (flip (s, off) place).1.countAt places i = s.countAt places i := rfl

theorem off_flip_iff (s : Screen) (off : Bool) (place : Int × Int) :
    (flip (s, off) place).2 = true ↔
      off = true ∨ s.pixels.getD (s.index place.1 place.2) 0 ≠ 0 := by
  simp [flip, isLit]

theorem getD_flip (s : Screen) (off : Bool) (place : Int × Int) {i : Nat}
    (hi : s.index place.1 place.2 = i → i < s.pixels.size) :
    (flip (s, off) place).1.pixels.getD i 0 =
      if s.index place.1 place.2 = i then s.pixels.getD i 0 ^^^ 1 else s.pixels.getD i 0 := by
  by_cases h : s.index place.1 place.2 = i
  · simp [flip, h, hi h, Array.getElem_modify]
  · simp [flip, h, Array.getElem?_modify]

/-- A pixel is flipped once for each place that it is. -/
theorem getD_foldl_flip (places : List (Int × Int)) (s : Screen) (off : Bool) {i : Nat}
    (hi : i < s.pixels.size) :
    (places.foldl flip (s, off)).1.pixels.getD i 0 =
      s.pixels.getD i 0 ^^^ UInt8.ofNat (s.countAt places i % 2) := by
  induction places generalizing s off with
  | nil => simp [countAt]
  | cons place places ih =>
    have hsize : i < (flip (s, off) place).1.pixels.size := by simpa [flip] using hi
    rw [List.foldl_cons, ih _ _ hsize, countAt_flip, getD_flip s off place fun _ => hi,
      countAt_cons]
    generalize s.countAt places i = n
    split
    · -- one more flip exchanges the two parities
      rcases Nat.mod_two_eq_zero_or_one n with h | h
      · have h' : (n + 1) % 2 = 1 := by omega
        simp_all
      · have h' : (n + 1) % 2 = 0 := by omega
        rw [h, h', UInt8.xor_assoc]
        rfl
    · simp_all

theorem getD_flip_ne_zero_iff (h : s.Binary) (off : Bool) {place : Int × Int} {i : Nat}
    (hi : s.index place.1 place.2 = i) (hin : i < s.pixels.size) :
    (flip (s, off) place).1.pixels.getD i 0 ≠ 0 ↔ s.pixels.getD i 0 = 0 := by
  have hbit : s.pixels.getD i 0 = 0 ∨ s.pixels.getD i 0 = 1 := by
    simpa [hin] using h.bit _ (Array.getElem_mem hin)
  rw [getD_flip s off place fun _ => hin, if_pos hi]
  rcases hbit with hz | ho
  · simp [hz]
  · simp [ho]

/-- A flip turns a pixel off if it finds it lit, be it from before or by an earlier flip. -/
theorem off_foldl_flip_iff (places : List (Int × Int)) (h : s.Binary)
    (hin : ∀ p ∈ places, s.index p.1 p.2 < s.pixels.size) (off : Bool) :
    (places.foldl flip (s, off)).2 = true ↔
      off = true ∨
        ∃ i, 1 ≤ s.countAt places i ∧ (s.pixels.getD i 0 ≠ 0 ∨ 2 ≤ s.countAt places i) := by
  induction places generalizing s off with
  | nil => simp [countAt]
  | cons place places ih =>
    have hplace := hin place List.mem_cons_self
    have hbinary : (flip (s, off) place).1.Binary := @flip_binary (s, off) h place
    have hrest : ∀ p ∈ places, s.index p.1 p.2 < (flip (s, off) place).1.pixels.size := by
      simpa [flip] using fun p hp => hin p (List.mem_cons_of_mem place hp)
    rw [List.foldl_cons, ← Prod.eta (flip (s, off) place), ih hbinary hrest, off_flip_iff]
    simp only [countAt_flip, countAt_cons]
    constructor
    · rintro ((hlit | hlit) | ⟨i, hone, hmore⟩)
      · exact .inl hlit
      · refine .inr ⟨s.index place.1 place.2, ?_, .inl hlit⟩
        rw [if_pos rfl]
        omega
      · refine .inr ⟨i, by omega, ?_⟩
        by_cases hi : s.index place.1 place.2 = i
        · rw [if_pos hi]
          exact .inr (by omega)
        · rw [getD_flip s off place fun h => absurd h hi, if_neg hi] at hmore
          rwa [if_neg hi]
    · rintro (hlit | ⟨i, hone, hmore⟩)
      · exact .inl (.inl hlit)
      · by_cases hi : s.index place.1 place.2 = i
        · rw [if_pos hi] at hone hmore
          by_cases hlit : s.pixels.getD i 0 = 0
          · have htwice := hmore.resolve_left (not_not_intro hlit)
            refine .inr ⟨i, by omega, .inl ?_⟩
            exact (getD_flip_ne_zero_iff h off hi (hi ▸ hplace)).2 hlit
          · exact .inl (.inr (hi ▸ hlit))
        · rw [if_neg hi] at hone hmore
          refine .inr ⟨i, hone, ?_⟩
          rwa [getD_flip s off place fun h => absurd h hi, if_neg hi]

/-! ### Bits of a sprite -/

/-- The bits of a sprite that hit the pixel in a column and a row of the screen: pairs of a row of
the sprite and a bit of it, counted from the most significant.  The `n` rows are in memory from
`address` on, and the sprite is drawn at `(x, y)`. -/
def hits (s : Screen) (x y : Int) (store : Store) (address n column row : Nat) :
    Finset (Nat × Nat) :=
  (Finset.range n ×ˢ Finset.range 8).filter fun (r, b) =>
    (store.byteAt (address + r)).toNat.testBit (7 - b) ∧
      (x + b) % s.width = column ∧ (y + r) % s.height = row

/-- The places of a sprite are those of its set bits, row by row. -/
theorem countP_hits (x y : Int) (sprite : List UInt8) (p : Int × Int → Bool) :
    (Sprite.hits x y sprite).countP p =
      ((Finset.range sprite.length ×ˢ Finset.range 8).filter fun (r, b) =>
        (sprite.getD r 0).toNat.testBit (7 - b) ∧ p (x + b, y + r)).card := by
  have hpairs : (Finset.range sprite.length ×ˢ Finset.range 8) =
      ((List.range sprite.length).product (List.range 8)).toFinset := by
    ext ⟨r, b⟩
    simp
  have hnodup : ((List.range sprite.length).product (List.range 8)).Nodup :=
    List.nodup_range.product List.nodup_range
  have hrows : sprite.zipIdx = (List.range sprite.length).map fun r => (sprite.getD r 0, r) := by
    refine List.ext_getElem (by simp) fun r hr _ => ?_
    have hr' : r < sprite.length := by simpa using hr
    simp [hr']
  rw [hpairs, hnodup.card_eq_countP, Sprite.hits, hrows, List.flatMap_map, List.countP_flatMap,
    List.product, List.countP_flatMap]
  congr 2
  funext r
  simp only [Function.comp_apply, List.countP_map, List.countP_filter]
  refine List.countP_congr fun b _ => ?_
  simp [and_comm]

theorem emod_bounds {extent : Nat} (h : 1 ≤ extent) (x : Int) :
    0 ≤ x % extent ∧ x % extent < extent :=
  ⟨Int.emod_nonneg x (by omega), Int.emod_lt_of_pos x (by omega)⟩

theorem index_eq_iff (hw : 1 ≤ s.width) (hh : 1 ≤ s.height) (x y : Int) {column row : Nat}
    (hcolumn : column < s.width) (hrow : row < s.height) :
    s.index x y = s.index column row ↔ x % s.width = column ∧ y % s.height = row := by
  obtain ⟨hx₀, hx⟩ := emod_bounds hw x
  obtain ⟨hy₀, -⟩ := emod_bounds hh y
  have hcolumn_mod : (column : Int) % s.width = column := Int.emod_eq_of_lt (by omega) (by omega)
  have hrow_mod : (row : Int) % s.height = row := Int.emod_eq_of_lt (by omega) (by omega)
  unfold index
  rw [hcolumn_mod, hrow_mod]
  constructor
  · intro h
    have hmod := congrArg (· % s.width) h
    have hdiv := congrArg (· / s.width) h
    simp only [Int.toNat_natCast, Nat.mul_comm _ s.width, Nat.mul_add_mod,
      Nat.mul_add_div hw] at hmod hdiv
    rw [Nat.mod_eq_of_lt (by omega), Nat.mod_eq_of_lt hcolumn] at hmod
    rw [Nat.div_eq_of_lt (by omega), Nat.div_eq_of_lt hcolumn] at hdiv
    omega
  · rintro ⟨h, h'⟩
    rw [h, h', Int.toNat_natCast, Int.toNat_natCast]

theorem index_lt_mul (hw : 1 ≤ s.width) (hh : 1 ≤ s.height) (x y : Int) :
    s.index x y < s.width * s.height := by
  have hx := emod_bounds hw x
  have hy := emod_bounds hh y
  have hrow : (y % s.height).toNat + 1 ≤ s.height := by omega
  have hmul := Nat.mul_le_mul_right s.width hrow
  rw [index, Nat.mul_comm s.width]
  rw [Nat.add_mul, Nat.one_mul] at hmul
  omega

theorem index_lt (hs : s.Binary) (hw : 1 ≤ s.width) (hh : 1 ≤ s.height) (x y : Int) :
    s.index x y < s.pixels.size := by
  rw [hs.size]
  exact index_lt_mul hw hh x y

theorem countAt_hits (hw : 1 ≤ s.width) (hh : 1 ≤ s.height) (x y : Int) {store : Store}
    {address n : Nat} {block : Array UInt8} (hread : store.readBlock address n = .ok block)
    {column row : Nat} (hcolumn : column < s.width) (hrow : row < s.height) :
    s.countAt (Sprite.hits x y block.toList) (s.index column row) =
      (s.hits x y store address n column row).card := by
  obtain ⟨-, hbytes⟩ := Store.getD_of_readBlock hread
  have hlength : block.toList.length = n := by
    rw [Array.length_toList, Store.size_of_readBlock hread]
  rw [countAt, countP_hits, hlength, hits]
  congr 1
  refine Finset.filter_congr fun ⟨r, b⟩ hmem => ?_
  have hr : r < n := Finset.mem_range.1 (Finset.mem_product.1 hmem).1
  have hbyte : block.toList.getD r 0 = store.byteAt (address + r) := by
    rw [← Int.toNat_natCast address, ← hbytes r hr]
    simp
  simp only [hbyte, decide_eq_true_eq, index_eq_iff hw hh _ _ hcolumn hrow]

theorem eq_of_add_emod_eq {x width : Int} {b c : Nat} (hb : b < width) (hc : c < width)
    (h : (x + b) % width = (x + c) % width) : b = c := by
  have hzero := Int.emod_eq_emod_iff_emod_sub_eq_zero.1 h
  have hsub : x + b - (x + c) = b - c := by omega
  rw [hsub] at hzero
  have := Int.eq_zero_of_dvd_of_natAbs_lt_natAbs (Int.dvd_of_emod_eq_zero hzero) (by omega)
  omega

/-- On a screen that is as wide as a byte and as high as the sprite no pixel is hit twice. -/
theorem card_hits_le_one (hw : 8 ≤ s.width) (x y : Int) (store : Store) (address : Nat) {n : Nat}
    (hn : n ≤ s.height) (column row : Nat) :
    (s.hits x y store address n column row).card ≤ 1 := by
  refine Finset.card_le_one_iff.2 fun {p q} hp hq => ?_
  simp only [hits, Finset.mem_filter, Finset.mem_product, Finset.mem_range] at hp hq
  obtain ⟨⟨hr, hb⟩, -, hx, hy⟩ := hp
  obtain ⟨⟨hr', hb'⟩, -, hx', hy'⟩ := hq
  exact Prod.ext (eq_of_add_emod_eq (by omega) (by omega) (hy.trans hy'.symm))
    (eq_of_add_emod_eq (by omega) (by omega) (hx.trans hx'.symm))

/-! ### Drawing -/

theorem pixelAt_eq_one_iff (hs : s.Binary) (hw : 1 ≤ s.width) (hh : 1 ≤ s.height) (x y : Int) :
    s.pixelAt x y = 1 ↔ s.pixels.getD (s.index x y) 0 ≠ 0 := by
  have hin := index_lt hs hw hh x y
  have hbit : s.pixels.getD (s.index x y) 0 = 0 ∨ s.pixels.getD (s.index x y) 0 = 1 := by
    simpa [hin] using hs.bit _ (Array.getElem_mem hin)
  rw [pixelAt]
  rcases hbit with h | h <;> rw [h] <;> decide

theorem pixelAt_drawRows (hs : s.Binary) (hw : 1 ≤ s.width) (hh : 1 ≤ s.height) (x y : Int)
    {store : Store} {address n : Nat} {block : Array UInt8}
    (hread : store.readBlock address n = .ok block) {column row : Nat} (hcolumn : column < s.width)
    (hrow : row < s.height) :
    (s.drawRows x y block.toList).1.pixelAt column row =
      s.pixelAt column row ^^^ (s.hits x y store address n column row).card % 2 := by
  have hextents := drawRows_extents s x y block.toList
  have hindex : (s.drawRows x y block.toList).1.index column row = s.index column row := by
    unfold index
    rw [hextents.1, hextents.2]
  have hflips := getD_foldl_flip (Sprite.hits x y block.toList) s false
    (index_lt hs hw hh column row)
  rw [countAt_hits hw hh x y hread hcolumn hrow] at hflips
  rw [pixelAt, hindex]
  refine (congrArg UInt8.toNat hflips).trans ?_
  rw [UInt8.toNat_xor, UInt8.toNat_ofNat', Nat.mod_eq_of_lt (b := 2 ^ 8) (by omega)]
  rfl

/-- Drawing turns a pixel off if it hits one that is lit, or one twice. -/
theorem off_drawRows_iff (hs : s.Binary) (hw : 1 ≤ s.width) (hh : 1 ≤ s.height) (x y : Int)
    {store : Store} {address n : Nat} {block : Array UInt8}
    (hread : store.readBlock address n = .ok block) :
    (s.drawRows x y block.toList).2 = true ↔ ∃ column < s.width, ∃ row < s.height,
      1 ≤ (s.hits x y store address n column row).card ∧
        (s.pixelAt column row = 1 ∨ 2 ≤ (s.hits x y store address n column row).card) := by
  have hin : ∀ p ∈ Sprite.hits x y block.toList, s.index p.1 p.2 < s.pixels.size :=
    fun p _ => index_lt hs hw hh p.1 p.2
  refine (off_foldl_flip_iff _ hs hin false).trans ?_
  simp only [Bool.false_eq_true, false_or]
  constructor
  · rintro ⟨i, hone, hmore⟩
    -- a place that is hit lies in some column and row
    obtain ⟨p, -, hp⟩ := List.countP_pos_iff.1 hone
    obtain ⟨hcolumn₀, hcolumn⟩ := emod_bounds hw p.1
    obtain ⟨hrow₀, hrow⟩ := emod_bounds hh p.2
    obtain ⟨column, hcolumn_eq⟩ := Int.eq_ofNat_of_zero_le hcolumn₀
    obtain ⟨row, hrow_eq⟩ := Int.eq_ofNat_of_zero_le hrow₀
    have hindex : s.index column row = i :=
      ((index_eq_iff hw hh _ _ (by omega) (by omega)).2 ⟨hcolumn_eq, hrow_eq⟩).symm.trans
        (of_decide_eq_true hp)
    refine ⟨column, by omega, row, by omega, ?_⟩
    rw [pixelAt_eq_one_iff hs hw hh, ← countAt_hits hw hh x y hread (by omega) (by omega), hindex]
    exact ⟨hone, hmore⟩
  · rintro ⟨column, hcolumn, row, hrow, hhits⟩
    rw [pixelAt_eq_one_iff hs hw hh, ← countAt_hits hw hh x y hread hcolumn hrow] at hhits
    exact ⟨_, hhits⟩

/-- **A sprite is drawn by parity.**  Let a binary screen of any extents be given, and `n` rows of a
sprite that begin at an address.  If memory holds all the rows, drawing them anywhere keeps the
extents of the screen and leaves it binary and due to be shown.  Each pixel changes if the number of
bits that hit it is odd, and it is reported that a pixel was turned off if one that was lit is hit
or one is hit twice; where the sprite cannot overlap itself this means that a pixel was lit before
and is dark after.  If memory does not hold all the rows, drawing fails with the address that it
could not have. -/
theorem draw_by_parity (s : Screen) (hs : s.Binary) (hw : 1 ≤ s.width) (hh : 1 ≤ s.height)
    (x y : Int) (store : Store) (n : Nat) :
    (∀ address : Nat, address + n ≤ store.size →
      ∃ t off, s.draw x y n address store = .ok (t, off) ∧
        t.width = s.width ∧ t.height = s.height ∧ t.Binary ∧ t.dirty = true ∧
        (∀ column < s.width, ∀ row < s.height,
          t.pixelAt column row =
            s.pixelAt column row ^^^ (s.hits x y store address n column row).card % 2) ∧
        (off = true ↔ ∃ column < s.width, ∃ row < s.height,
          1 ≤ (s.hits x y store address n column row).card ∧
            (s.pixelAt column row = 1 ∨ 2 ≤ (s.hits x y store address n column row).card)) ∧
        (8 ≤ s.width → n ≤ s.height →
          (off = true ↔ ∃ column < s.width, ∃ row < s.height,
            s.pixelAt column row = 1 ∧ t.pixelAt column row = 0))) ∧
    ∀ address : Int, ¬ (0 ≤ address ∧ address + n ≤ store.size) →
      s.draw x y n address store =
        .error (.outOfBounds (if address < 0 then address else max address store.size)) := by
  have hpixels : s.isEmpty = false := by
    simp [isEmpty]
    omega
  refine ⟨fun address hinside => ?_, fun address hinside => ?_⟩
  · have hend : (address : Int) + n ≤ store.size := by omega
    obtain ⟨block, hread⟩ := Store.exists_readBlock (Int.natCast_nonneg address) hend
    have hpixel (column : Nat) (hcolumn : column < s.width) (row : Nat) (hrow : row < s.height) :=
      pixelAt_drawRows hs hw hh x y hread hcolumn hrow
    have hoff := off_drawRows_iff hs hw hh x y hread
    obtain ⟨hwidth, hheight⟩ := drawRows_extents s x y block.toList
    refine ⟨_, _, by rw [draw_eq hpixels, hread]; rfl, hwidth, hheight,
      drawRows_binary hs x y block.toList, rfl, hpixel, hoff, fun hwide hhigh => ?_⟩
    rw [hoff]
    refine exists_congr fun column => and_congr_right fun hcolumn =>
      exists_congr fun row => and_congr_right fun hrow => ?_
    -- a pixel that is hit once at most is turned off if it was lit and is hit
    have hone := card_hits_le_one hwide x y store address hhigh column row
    rw [hpixel column hcolumn row hrow]
    generalize (s.hits x y store address n column row).card = count at hone
    rcases Nat.le_one_iff_eq_zero_or_eq_one.1 hone with rfl | rfl
    · simp +contextual
    · simp +contextual
  · rw [draw_eq hpixels, map_eq_error_iff, Store.readBlock, map_eq_error_iff]
    unfold Store.check
    split
    · rfl
    · rw [if_pos (by omega)]

/-- Two bits of one row that is drawn on four columns: they hit the same pixel, which is dark before
and after, and yet it is reported that a pixel was turned off. -/
theorem overlap_reported :
    (blank 4 1).Binary ∧ 1 ≤ (blank 4 1).width ∧ 1 ≤ (blank 4 1).height ∧
      ((blank 4 1).hits 0 0 ⟨#[0x88]⟩ 0 1 0 0).card = 2 ∧
      ∃ t, (blank 4 1).draw 0 0 1 0 ⟨#[0x88]⟩ = .ok (t, true) ∧ t.pixelAt 0 0 = 0 := by
  have hcard : ((blank 4 1).hits 0 0 ⟨#[0x88]⟩ 0 1 0 0).card = 2 := by decide
  obtain ⟨t, off, hdraw, -, -, -, -, hpixel, hoff, -⟩ :=
    (draw_by_parity (blank 4 1) (blank_binary 4 1) (by decide) (by decide) 0 0 ⟨#[0x88]⟩ 1).1 0
      (by decide)
  have hreported : off = true :=
    hoff.2 ⟨0, by decide, 0, by decide, by rw [hcard]; decide, .inr (by rw [hcard])⟩
  have hdark := hpixel 0 (by decide) 0 (by decide)
  rw [hcard] at hdark
  exact ⟨blank_binary 4 1, by decide, by decide, hcard, t, hreported ▸ hdraw,
    hdark.trans (by decide)⟩

end Screen

end Chip8

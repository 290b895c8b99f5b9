import Chip8.Proofs.Screen.Parity

/-!
# Drawings commute and undo themselves

As far as pixels are concerned, drawing a sprite toggles the places of its set bits one after the
other (`Screen.toggleAll`).  Toggles commute, and a toggle undoes itself, so the places may be
toggled in any order, and toggled again they are what they were.  This carries over to whole
drawings, of which a list is nothing but a longer list of places (`Screen.drawAll_eq`,
`Screen.drawings_commute`).
-/

namespace Chip8

/-- A sprite to be drawn: where to, and which rows of the memory. -/
structure Drawing where
  /-- The column of its left edge. -/
  x : Int
  /-- The row of its upper edge. -/
  y : Int
  /-- How many rows it has. -/
  rows : Nat
  /-- The address of its first row. -/
  address : Int

namespace Drawing

/-- The memory holds all rows. -/
def Readable (d : Drawing) (store : Store) : Prop :=
  0 ≤ d.address ∧ d.address + d.rows ≤ store.size

/-- The bytes of the rows. -/
def sprite (d : Drawing) (store : Store) : List UInt8 :=
  (store.window d.address (d.address + d.rows)).toList

/-- The places of the set bits. -/
def places (d : Drawing) (store : Store) : List (Int × Int) :=
  Sprite.hits d.x d.y (d.sprite store)

/-- Some bit of the rows is set. -/
def HasBit (d : Drawing) (store : Store) : Prop :=
  ∃ r < d.rows, ∃ b < 8, (store.byteAt (d.address.toNat + r)).toNat.testBit b = true

end Drawing

namespace Screen

variable {s t : Screen} {store : Store} {d : Drawing}

/-! ### Toggles -/

/-- The pixel at a place is changed. -/
def toggle (s : Screen) (place : Int × Int) : Screen :=
  { s with pixels := s.pixels.modify (s.index place.1 place.2) (· ^^^ 1) }

/-- The pixels at places are changed one after the other. -/
def toggleAll (s : Screen) (places : List (Int × Int)) : Screen := places.foldl toggle s

theorem toggle_comm (s : Screen) (p q : Int × Int) :
    (s.toggle p).toggle q = (s.toggle q).toggle p := by
  have hpixels : ((s.toggle p).toggle q).pixels = ((s.toggle q).toggle p).pixels := by
    refine Array.ext (by simp [toggle]) fun i _ _ => ?_
    simp only [toggle, index, Array.getElem_modify]
    split <;> split <;> rfl
  exact congrArg (fun pixels => { s with pixels }) hpixels

theorem toggle_toggle (s : Screen) (p : Int × Int) : (s.toggle p).toggle p = s := by
  have hpixels : ((s.toggle p).toggle p).pixels = s.pixels := by
    refine Array.ext (by simp [toggle]) fun i _ _ => ?_
    simp only [toggle, index, Array.getElem_modify]
    split
    · rw [UInt8.xor_assoc, UInt8.xor_self, UInt8.xor_zero]
    · rfl
  exact congrArg (fun pixels => { s with pixels }) hpixels

instance : RightCommutative toggle := ⟨toggle_comm⟩

theorem toggleAll_append (s : Screen) (places more : List (Int × Int)) :
    s.toggleAll (places ++ more) = (s.toggleAll places).toggleAll more :=
  List.foldl_append

theorem toggleAll_perm {places places' : List (Int × Int)} (h : places.Perm places') (s : Screen) :
    s.toggleAll places = s.toggleAll places' :=
  h.foldl_eq s

theorem toggleAll_toggleAll (s : Screen) (places : List (Int × Int)) :
    (s.toggleAll places).toggleAll places = s := by
  induction places generalizing s with
  | nil => rfl
  | cons place places ih =>
    -- the first place comes last the second time, when all others have undone themselves
    have hlast : (place :: places).Perm (places ++ [place]) :=
      (List.perm_append_singleton place places).symm
    calc (s.toggleAll (place :: places)).toggleAll (place :: places)
        = ((s.toggle place).toggleAll places).toggleAll (places ++ [place]) :=
          toggleAll_perm hlast _
      _ = (((s.toggle place).toggleAll places).toggleAll places).toggle place :=
          toggleAll_append _ _ _
      _ = (s.toggle place).toggle place := by rw [ih]
      _ = s := toggle_toggle s place

theorem toggleAll_eq (s : Screen) (places : List (Int × Int)) :
    s.toggleAll places = { s with pixels := (s.toggleAll places).pixels } := by
  induction places generalizing s with
  | nil => rfl
  | cons place places ih => exact ih (s.toggle place)

theorem isEmpty_toggleAll (s : Screen) (places : List (Int × Int)) :
    (s.toggleAll places).isEmpty = s.isEmpty := by
  rw [toggleAll_eq]
  rfl

theorem toggleAll_due (s : Screen) (due : Bool) (places : List (Int × Int)) :
    ({ s with dirty := due } : Screen).toggleAll places =
      { s.toggleAll places with dirty := due } := by
  induction places generalizing s with
  | nil => rfl
  | cons place places ih => exact ih (s.toggle place)

/-! ### Drawings -/

theorem foldl_flip_fst (places : List (Int × Int)) (s : Screen) (off : Bool) :
    (places.foldl flip (s, off)).1 = s.toggleAll places := by
  induction places generalizing s off with
  | nil => rfl
  | cons place places ih => exact ih (s.toggle place) _

/-- Drawing toggles the places of the sprite, and then the picture is due to be shown. -/
theorem drawRows_fst (s : Screen) (x y : Int) (sprite : List UInt8) :
    (s.drawRows x y sprite).1 = { s.toggleAll (Sprite.hits x y sprite) with dirty := true } := by
  rw [← foldl_flip_fst _ s false]
  rfl

theorem isEmpty_drawRows (s : Screen) (x y : Int) (sprite : List UInt8) :
    (s.drawRows x y sprite).1.isEmpty = s.isEmpty := by
  rw [drawRows_fst]
  exact isEmpty_toggleAll s _

theorem draw_eq_ok_iff (hs : s.isEmpty = false) {result : Screen × Bool} :
    s.draw d.x d.y d.rows d.address store = .ok result ↔
      d.Readable store ∧ s.drawRows d.x d.y (d.sprite store) = result := by
  rw [draw_eq hs]
  constructor
  · intro h
    obtain ⟨block, hread, hdrawn⟩ := map_eq_ok h
    obtain ⟨_, hcheck, rfl⟩ := map_eq_ok hread
    exact ⟨Store.check_eq_ok_iff.1 hcheck, hdrawn⟩
  · rintro ⟨⟨hlow, hhigh⟩, rfl⟩
    rw [Store.readBlock_eq hlow hhigh]
    rfl

/-- Drawings are made one after the other. -/
def drawAll (s : Screen) (store : Store) : List Drawing → Except Fault Screen
  | [] => .ok s
  | d :: ds => do
    let (t, _) ← s.draw d.x d.y d.rows d.address store
    t.drawAll store ds

/-- **A list of drawings toggles the places of all of them.** -/
theorem drawAll_eq (hs : s.isEmpty = false) {ds : List Drawing}
    (h : ∀ d ∈ ds, d.Readable store) :
    s.drawAll store ds =
      .ok { s.toggleAll (ds.flatMap (·.places store)) with dirty := s.dirty || !ds.isEmpty } := by
  induction ds generalizing s with
  | nil => simp [drawAll, toggleAll]
  | cons d ds ih =>
    obtain ⟨hd, hds⟩ := List.forall_mem_cons.1 h
    have hdraw := (draw_eq_ok_iff hs).2 ⟨hd, rfl⟩
    have hrest := ih ((isEmpty_drawRows s d.x d.y (d.sprite store)).trans hs) hds
    rw [drawAll, hdraw]
    refine hrest.trans ?_
    rw [drawRows_fst, toggleAll_due, List.flatMap_cons, toggleAll_append]
    simp [Drawing.places]

theorem drawAll_perm (hs : s.isEmpty = false) {ds ds' : List Drawing}
    (h : ∀ d ∈ ds, d.Readable store) (hperm : ds.Perm ds') :
    s.drawAll store ds = s.drawAll store ds' := by
  have h' : ∀ d ∈ ds', d.Readable store := fun d hd => h d (hperm.mem_iff.2 hd)
  have hempty : ds.isEmpty = ds'.isEmpty := by
    rw [Bool.eq_iff_iff, List.isEmpty_iff, List.isEmpty_iff, ← List.length_eq_zero_iff,
      ← List.length_eq_zero_iff, hperm.length_eq]
  rw [drawAll_eq hs h, drawAll_eq hs h', toggleAll_perm (hperm.flatMap_right _), hempty]

theorem isEmpty_drawAll (hs : s.isEmpty = false) {ds : List Drawing}
    (h : ∀ d ∈ ds, d.Readable store) (hdrawn : s.drawAll store ds = .ok t) : t.isEmpty = false := by
  rw [drawAll_eq hs h] at hdrawn
  cases hdrawn
  exact (isEmpty_toggleAll s _).trans hs

theorem drawAll_drawAll (hs : s.isEmpty = false) {ds : List Drawing}
    (h : ∀ d ∈ ds, d.Readable store) (hdrawn : s.drawAll store ds = .ok t) :
    t.drawAll store ds = .ok { s with dirty := t.dirty } := by
  have hagain := drawAll_eq (isEmpty_drawAll hs h hdrawn) h
  rw [drawAll_eq hs h] at hdrawn
  cases hdrawn
  rw [hagain, toggleAll_due, toggleAll_toggleAll, Bool.or_assoc, Bool.or_self]

/-! ### What is turned off -/

theorem getD_toggleAll (places : List (Int × Int)) (s : Screen) {i : Nat}
    (hi : i < s.pixels.size) :
    (s.toggleAll places).pixels.getD i 0 =
      s.pixels.getD i 0 ^^^ UInt8.ofNat (s.countAt places i % 2) := by
  rw [← foldl_flip_fst places s false, getD_foldl_flip places s false hi]

theorem countAt_toggleAll (s : Screen) (toggled places : List (Int × Int)) (i : Nat) :
    (s.toggleAll toggled).countAt places i = s.countAt places i := by
  rw [toggleAll_eq]
  rfl

/-- Of places that are flipped twice one is turned off, if there are any: the first of them is lit
before, or it is lit by its flip. -/
theorem off_or_off_iff (hs : s.Binary) (hw : 1 ≤ s.width) (hh : 1 ≤ s.height)
    (places : List (Int × Int)) :
    (places.foldl flip (s, false)).2 = true ∨
      (places.foldl flip (s.toggleAll places, false)).2 = true ↔ places ≠ [] := by
  have hbinary : (s.toggleAll places).Binary := by
    rw [← foldl_flip_fst places s false]
    exact foldl_flip_binary places hs
  have hw' : 1 ≤ (s.toggleAll places).width := by rwa [toggleAll_eq]
  have hh' : 1 ≤ (s.toggleAll places).height := by rwa [toggleAll_eq]
  have hin : ∀ p ∈ places, s.index p.1 p.2 < s.pixels.size :=
    fun p _ => index_lt hs hw hh p.1 p.2
  rw [off_foldl_flip_iff places hs hin,
    off_foldl_flip_iff places hbinary fun p _ => index_lt hbinary hw' hh' p.1 p.2]
  simp only [countAt_toggleAll, Bool.false_eq_true, false_or]
  constructor
  · rintro (⟨i, hone, -⟩ | ⟨i, hone, -⟩) rfl
    · exact absurd hone (by simp [countAt])
    · exact absurd hone (by simp [countAt])
  · intro hne
    obtain ⟨place, hplace⟩ := List.exists_mem_of_ne_nil places hne
    have hone : 1 ≤ s.countAt places (s.index place.1 place.2) :=
      List.countP_pos_iff.2 ⟨place, hplace, decide_eq_true rfl⟩
    have hpixel := getD_toggleAll places s (hin place hplace)
    generalize s.index place.1 place.2 = i at hone hpixel
    by_cases hlit : s.pixels.getD i 0 ≠ 0
    · exact .inl ⟨i, hone, .inl hlit⟩
    by_cases htwice : 2 ≤ s.countAt places i
    · exact .inl ⟨i, hone, .inr htwice⟩
    · have hodd : s.countAt places i = 1 := by omega
      refine .inr ⟨i, hone, .inl ?_⟩
      rw [hpixel, not_not.1 hlit, hodd]
      decide

theorem drawRows_snd (s : Screen) (x y : Int) (sprite : List UInt8) :
    (s.drawRows x y sprite).2 = ((Sprite.hits x y sprite).foldl flip (s, false)).2 := rfl

theorem off_drawRows_twice_iff (hs : s.Binary) (hw : 1 ≤ s.width) (hh : 1 ≤ s.height) (x y : Int)
    (sprite : List UInt8) :
    (s.drawRows x y sprite).2 = true ∨
      ((s.drawRows x y sprite).1.drawRows x y sprite).2 = true ↔ Sprite.hits x y sprite ≠ [] := by
  rw [drawRows_snd, drawRows_snd, drawRows_fst, foldl_flip_due _ (s.toggleAll _)]
  exact off_or_off_iff hs hw hh (Sprite.hits x y sprite)

theorem places_ne_nil_iff (h : d.Readable store) : d.places store ≠ [] ↔ d.HasBit store := by
  have hread := Store.readBlock_eq h.1 h.2
  obtain ⟨-, hbytes⟩ := Store.getD_of_readBlock hread
  have hlength : (d.sprite store).length = d.rows := by
    rw [Drawing.sprite, Array.length_toList, Store.size_of_readBlock hread]
  have hbyte (r : Nat) (hr : r < d.rows) :
      (d.sprite store).getD r 0 = store.byteAt (d.address.toNat + r) := by
    rw [← hbytes r hr]
    simp [Drawing.sprite]
  have hcount := countP_hits d.x d.y (d.sprite store) fun _ => true
  rw [List.countP_true, hlength] at hcount
  rw [← List.length_pos_iff, Drawing.places, hcount, Finset.card_pos]
  constructor
  · rintro ⟨⟨r, b⟩, hmem⟩
    simp only [Finset.mem_filter, Finset.mem_product, Finset.mem_range, and_true] at hmem
    obtain ⟨⟨hr, hb⟩, hset⟩ := hmem
    exact ⟨r, hr, 7 - b, by omega, hbyte r hr ▸ hset⟩
  · rintro ⟨r, hr, b, hb, hset⟩
    refine ⟨(r, 7 - b), ?_⟩
    simp only [Finset.mem_filter, Finset.mem_product, Finset.mem_range, and_true]
    refine ⟨⟨hr, by omega⟩, ?_⟩
    rw [hbyte r hr, show 7 - (7 - b) = b by omega]
    exact hset

/-- **Drawings commute and undo themselves.**  Let a list of drawings be given each of which can be
made on a binary screen.  Then all of them can be made one after the other; in any order they leave
the same screen, and made again, in any order, they bring all pixels back.  And if one drawing is
made twice in a row it is reported at least once that a pixel was turned off, exactly if some bit of
the sprite is set. -/
theorem drawings_commute (s : Screen) (hs : s.Binary) (hw : 1 ≤ s.width) (hh : 1 ≤ s.height)
    (store : Store) (ds : List Drawing)
    (hdrawn : ∀ d ∈ ds, ∃ result, s.draw d.x d.y d.rows d.address store = .ok result) :
    (∃ t, (∀ ds', ds.Perm ds' → s.drawAll store ds' = .ok t) ∧
      ∀ ds', ds.Perm ds' → t.drawAll store ds' = .ok { s with dirty := t.dirty }) ∧
    ∀ d ∈ ds, ∃ t off u off', s.draw d.x d.y d.rows d.address store = .ok (t, off) ∧
      t.draw d.x d.y d.rows d.address store = .ok (u, off') ∧
      (off = true ∨ off' = true ↔ d.HasBit store) := by
  have hpixels : s.isEmpty = false := not_isEmpty hw hh
  have hreadable : ∀ d ∈ ds, d.Readable store := by
    intro d hd
    obtain ⟨result, hresult⟩ := hdrawn d hd
    exact ((draw_eq_ok_iff hpixels).1 hresult).1
  refine ⟨?_, fun d hd => ?_⟩
  · obtain ⟨t, ht⟩ : ∃ t, s.drawAll store ds = .ok t := ⟨_, drawAll_eq hpixels hreadable⟩
    refine ⟨t, fun ds' hperm => ?_, fun ds' hperm => ?_⟩
    · rw [← drawAll_perm hpixels hreadable hperm, ht]
    · have hpixels' := isEmpty_drawAll hpixels hreadable ht
      rw [← drawAll_perm hpixels' hreadable hperm, drawAll_drawAll hpixels hreadable ht]
  · have hdraw := (draw_eq_ok_iff hpixels).2 ⟨hreadable d hd, rfl⟩
    have hpixels' := (isEmpty_drawRows s d.x d.y (d.sprite store)).trans hpixels
    have hagain := (draw_eq_ok_iff hpixels').2 ⟨hreadable d hd, rfl⟩
    have hoff := off_drawRows_twice_iff hs hw hh d.x d.y (d.sprite store)
    exact ⟨_, _, _, _, hdraw, hagain, hoff.trans (places_ne_nil_iff (hreadable d hd))⟩

/-- Two drawings that overlap each other, themselves and the edges of a small screen are made in
either order and undone in the other.  One of them turns a pixel off if it is made twice. -/
theorem overlapping_drawings_undone :
    ∃ (store : Store) (d₁ d₂ : Drawing) (t : Screen),
      (∀ d ∈ [d₁, d₂], ∃ result, (blank 4 2).draw d.x d.y d.rows d.address store = .ok result) ∧
      (blank 4 2).drawAll store [d₁, d₂] = .ok t ∧ (blank 4 2).drawAll store [d₂, d₁] = .ok t ∧
      t.pixels = #[0, 1, 1, 0, 0, 1, 0, 0] ∧
      t.drawAll store [d₂, d₁] = .ok { blank 4 2 with dirty := t.dirty } ∧
      ∃ u off v off', (blank 4 2).draw d₁.x d₁.y d₁.rows d₁.address store = .ok (u, off) ∧
        u.draw d₁.x d₁.y d₁.rows d₁.address store = .ok (v, off') ∧ (off = true ∨ off' = true) := by
  let store : Store := ⟨#[0x90, 0xC0, 0x88, 0x70]⟩
  let d₁ : Drawing := ⟨-1, 1, 3, 1⟩
  let d₂ : Drawing := ⟨2, 0, 2, 0⟩
  have hdrawn : ∀ d ∈ [d₁, d₂],
      ∃ result, (blank 4 2).draw d.x d.y d.rows d.address store = .ok result := by
    intro d hd
    have hreadable : d.Readable store := by
      simp only [List.mem_cons, List.not_mem_nil, or_false] at hd
      rcases hd with rfl | rfl <;> exact ⟨by decide, by decide⟩
    exact ⟨_, (draw_eq_ok_iff (by decide)).2 ⟨hreadable, rfl⟩⟩
  obtain ⟨⟨t, hdraws, hundoes⟩, htwice⟩ :=
    drawings_commute (blank 4 2) (blank_binary 4 2) (by decide) (by decide) store [d₁, d₂] hdrawn
  obtain ⟨u, off, v, off', hfirst, hsecond, hoff⟩ := htwice d₁ List.mem_cons_self
  have hpixels : ((blank 4 2).drawAll store [d₁, d₂]).toOption.map Screen.pixels =
      some #[0, 1, 1, 0, 0, 1, 0, 0] := by decide
  rw [hdraws _ (.refl _)] at hpixels
  have hbit : d₁.HasBit store := ⟨0, by decide, 7, by decide, by decide⟩
  exact ⟨store, d₁, d₂, t, hdrawn, hdraws _ (.refl _), hdraws _ (.swap _ _ _),
    Option.some.inj hpixels, hundoes _ (.swap _ _ _), u, off, v, off', hfirst, hsecond, hoff.2 hbit⟩

end Screen

end Chip8

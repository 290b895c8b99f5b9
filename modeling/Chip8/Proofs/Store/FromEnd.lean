import Chip8.Proofs.Screen
import Chip8.Proofs.Store.Writes

/-!
# What is counted back from the end

The checks of the memory are made for blocks that begin at nought or later and have no negative
length.  Some other requests pass them too, and then an end of the window that lies below nought is
counted back from the end of the memory.

So a program with bytes that is loaded below nought is never stored where it was meant to be: either
it takes the place of bytes near the end of the memory, or it is pushed in between them and the
memory gets longer (`Store.load_from_end`, `Store.size_lt_of_load`).  A block whose end lies below
nought is read up to a place near the end of the memory, and a sprite of negative height can have
thousands of rows (`Store.draw_of_neg`).  `Store.below_nought` says for all requests whether they do
what they say.
-/

namespace Chip8

namespace Store

/-- The program lies in the memory from its start on, and nothing else has changed. -/
structure Stores (s : Store) (program : Array UInt8) (start : Int) (after : Store) : Prop where
  /-- The memory keeps its size. -/
  size : after.size = s.size
  /-- Each byte of the program has its place in the memory. -/
  stored : ∀ (i : Nat) b, program[i]? = some b →
    0 ≤ start + i ∧ start + i < s.size ∧ after.byteAt (start + i).toNat = b
  /-- The other bytes stay. -/
  elsewhere : ∀ address : Nat, (address : Int) < start ∨ start + program.size ≤ address →
    after.byteAt address = s.byteAt address

/-- The block consists of the bytes from an address on, and there are none if the length is
negative. -/
structure Returns (s : Store) (address length : Int) (block : Array UInt8) : Prop where
  /-- It has the length that was asked for. -/
  size : block.size = length.toNat
  /-- Each byte is that of its place in the memory. -/
  bytes : ∀ (i : Nat) b, block[i]? = some b →
    0 ≤ address + i ∧ address + i < s.size ∧ s.byteAt (address + i).toNat = b

variable {s after : Store} {program block : Array UInt8} {start address length : Int}

/-! ### Places below nought -/

theorem position_of_neg {place : Int} (h : place < 0) :
    s.position place = (place + s.size).toNat := by
  rw [position, if_pos h]

/-- A place below nought is the one so far from the end of the memory. -/
theorem position_from_end {place : Int} (h : place < 0) (hwithin : 0 ≤ s.size + place) :
    s.position place = s.position (s.size + place) := by
  rw [position_of_neg h, position_of_nonneg hwithin, Int.add_comm]

/-! ### Programs -/

theorem load_of_le (h : (program.size : Int) ≤ s.size - start) :
    s.load program start = .ok (s.replace start (start + program.size) program) :=
  if_neg (by omega)

theorem exists_load_of_le (h : (program.size : Int) ≤ s.size - start) :
    ∃ after, s.load program start = .ok after :=
  ⟨_, load_of_le h⟩

theorem le_of_load (h : s.load program start = .ok after) :
    (program.size : Int) ≤ s.size - start := by
  by_contra hlarge
  rw [load_eq_error_iff.2 ⟨by omega, rfl⟩] at h
  cases h

theorem stores_of_load {start : Nat} (h : s.load program start = .ok after) :
    s.Stores program start after where
  size := size_of_load h
  stored i b hb := by
    obtain ⟨hi, -⟩ := Array.getElem?_eq_some_iff.1 hb
    have hfits := le_of_load h
    have hplace : ((start : Int) + i).toNat = start + i := by omega
    refine ⟨by omega, by omega, ?_⟩
    rw [hplace, byteAt_of_load h, if_pos (by omega), Nat.add_sub_cancel_left, hb, Option.getD_some]
  elsewhere address hout := by
    rw [byteAt_of_load h, if_neg (by omega)]

theorem replace_empty (s : Store) (start : Int) : s.replace start start #[] = s := by
  have hall : max (s.position start) s.bytes.size ≥ s.bytes.size := Nat.le_max_right _ _
  simp [replace, size, Array.extract_eq_self_of_le hall]

theorem stores_empty (s : Store) (start : Int) : s.Stores #[] start s where
  size := rfl
  stored i b hb := by simp at hb
  elsewhere _ _ := rfl

theorem Stores.nonneg (h : s.Stores program start after) (hsome : program ≠ #[]) : 0 ≤ start := by
  have hpos : 0 < program.size := Array.size_pos_iff.2 hsome
  have hfirst := (h.stored 0 program[0] (Array.getElem?_eq_getElem hpos)).1
  omega

/-- **Only programs that begin below nought are misplaced.** -/
theorem stores_iff_of_load (h : s.load program start = .ok after) :
    s.Stores program start after ↔ 0 ≤ start ∨ program = #[] := by
  constructor
  · intro hstores
    by_cases hempty : program = #[]
    · exact .inr hempty
    · exact .inl (hstores.nonneg hempty)
  · rintro (hstart | rfl)
    · obtain ⟨first, rfl⟩ := Int.eq_ofNat_of_zero_le hstart
      exact stores_of_load h
    · rw [load_of_le (le_of_load h), Array.size_empty, Int.natCast_zero, Int.add_zero,
        replace_empty] at h
      exact Except.ok.inj h ▸ s.stores_empty start

/-- A program that begins and ends below nought is stored so far from the end of the memory. -/
theorem load_from_end (hstart : 0 ≤ s.size + start) (hstop : start + program.size < 0) :
    s.load program start = s.load program (s.size + start) := by
  have hfirst : s.position start = s.position (s.size + start) :=
    position_from_end (by omega) hstart
  have hlast : s.position (start + program.size) =
      s.position (s.size + start + program.size) := by
    rw [position_from_end hstop (by omega), Int.add_assoc]
  rw [load_of_le (by omega), load_of_le (by omega), replace, replace, hfirst, hlast]

theorem size_replace_eq (s : Store) (start stop : Int) (block : Array UInt8) :
    (s.replace start stop block).size = min (s.position start) s.size + block.size +
      (s.size - max (s.position start) (s.position stop)) := by
  simp only [replace, size_mk, Array.size_append, Array.size_extract, Nat.sub_zero]
  unfold size
  omega

theorem size_lt_of_load (hneg : start < 0) (hsome : program ≠ #[])
    (hacross : ¬ (0 ≤ s.size + start ∧ start + program.size < 0))
    (h : s.load program start = .ok after) : s.size < after.size := by
  have hpos : 0 < program.size := Array.size_pos_iff.2 hsome
  have hfits := le_of_load h
  rw [load_of_le hfits] at h
  obtain rfl := Except.ok.inj h
  rw [size_replace_eq]
  unfold position
  -- the window lies in the memory, and it is shorter than the program
  split <;> split <;> omega

/-! ### Blocks -/

theorem returns_extract (first : Nat) {last : Nat} (h : last ≤ s.size) :
    s.Returns first (last - first) (s.bytes.extract first last) where
  size := by
    rw [Array.size_extract]
    unfold size at h
    omega
  bytes i b hb := by
    obtain ⟨hi, -⟩ := Array.getElem?_eq_some_iff.1 hb
    have hplace : ((first : Int) + i).toNat = first + i := by omega
    unfold size at h
    rw [Array.size_extract] at hi
    rw [Array.getElem?_extract, if_pos hi] at hb
    refine ⟨by omega, by unfold size; omega, ?_⟩
    rw [hplace, byteAt_eq, hb, Option.getD_some]

/-- A block whose length is negative has no bytes, whatever the length is. -/
theorem Returns.of_toNat_eq {length' : Int} (h : s.Returns address length block)
    (hlength : length'.toNat = length.toNat) : s.Returns address length' block :=
  ⟨h.size.trans hlength.symm, h.bytes⟩

theorem readBlock_eq_error_iff :
    (∃ fault, s.readBlock address length = .error fault) ↔
      address < 0 ∨ s.size < address + length := by
  constructor
  · rintro ⟨fault, hfault⟩
    by_contra hinside
    rw [readBlock_eq (by omega) (by omega)] at hfault
    cases hfault
  · intro hout
    rcases hcheck : s.check address length with fault | _
    · exact ⟨fault, map_eq_error_iff.2 hcheck⟩
    · have hinside := check_eq_ok_iff.1 hcheck
      omega

theorem returns_of_readBlock (hend : 0 ≤ address + length)
    (h : s.readBlock address length = .ok block) : s.Returns address length block := by
  obtain ⟨_, hcheck, rfl⟩ := map_eq_ok h
  obtain ⟨hlow, hhigh⟩ := check_eq_ok_iff.1 hcheck
  rw [window, position_of_nonneg hlow, position_of_nonneg hend]
  have hwithin : (address + length).toNat ≤ s.size := by omega
  have hreturns := returns_extract address.toNat hwithin
  rw [Int.toNat_of_nonneg hlow, Int.toNat_of_nonneg hend] at hreturns
  exact hreturns.of_toNat_eq (by omega)

/-- A block that ends below nought is read up to so far from the end of the memory. -/
theorem returns_from_end (hend : address + length < 0)
    (h : s.readBlock address length = .ok block) : s.Returns address (s.size + length) block := by
  obtain ⟨_, hcheck, rfl⟩ := map_eq_ok h
  obtain ⟨hlow, hhigh⟩ := check_eq_ok_iff.1 hcheck
  rw [window, position_of_nonneg hlow, position_of_neg hend]
  have hwithin : (address + length + s.size).toNat ≤ s.size := by omega
  have hreturns := returns_extract address.toNat hwithin
  rw [Int.toNat_of_nonneg hlow] at hreturns
  exact hreturns.of_toNat_eq (by omega)

/-- **Only blocks that end below nought have other bytes than those that were asked for.** -/
theorem returns_iff_of_readBlock (h : s.readBlock address length = .ok block) :
    s.Returns address length block ↔ 0 ≤ address + length ∨ s.size + length ≤ 0 := by
  obtain ⟨_, hcheck, -⟩ := map_eq_ok h
  obtain ⟨hlow, -⟩ := check_eq_ok_iff.1 hcheck
  rcases Int.lt_or_le (address + length) 0 with hend | hend
  · have hlonger := returns_from_end hend h
    constructor
    · intro hreturns
      have hsame := hreturns.size.symm.trans hlonger.size
      omega
    · intro hshort
      exact hlonger.of_toNat_eq (by omega)
  · exact ⟨fun _ => .inl hend, fun _ => returns_of_readBlock hend h⟩

theorem readBlock_from_end (hlow : 0 ≤ address) (hend : address + length < 0)
    (hsize : 0 ≤ s.size + length) :
    s.readBlock address length = s.readBlock address (s.size + length) := by
  have hlast : s.position (address + length) = s.position (address + (s.size + length)) := by
    rw [position_from_end hend (by omega), Int.add_left_comm]
  rw [readBlock_eq hlow (by omega), readBlock_eq hlow (by omega), window, window, hlast]

/-! ### Sprites -/

/-- A sprite of negative height that is drawn has no rows, unless its end lies below nought; then it
is a sprite of so many rows fewer than the memory has bytes. -/
theorem draw_of_neg (s : Store) (screen : Screen) (x y : Int) {height : Int} (hneg : height < 0)
    (hlow : 0 ≤ address) (hhigh : address + height ≤ s.size) :
    screen.draw x y height address s =
      if 0 ≤ address + height ∨ s.size + height ≤ 0 then .ok ({ screen with dirty := true }, false)
      else screen.draw x y (s.size + height) address s := by
  have hread := readBlock_eq (s := s) hlow hhigh
  split
  next hquiet =>
    have hempty : (s.window address (address + height)).size = 0 := by
      rcases Int.lt_or_le (address + height) 0 with hend | hend
      · rw [(returns_from_end hend hread).size]
        omega
      · rw [(returns_of_readBlock hend hread).size]
        omega
    rw [Screen.draw, hread, Array.eq_empty_of_size_eq_zero hempty]
    simp [bind, Except.bind, Screen.drawRows, Sprite.hits]
  next hloud =>
    rw [Screen.draw, Screen.draw, readBlock_from_end hlow (by omega) (by omega)]

/-- **What requests below nought come to.**

* A program is refused exactly if it is longer than the memory from its start on.  Otherwise it is
  stored where it was meant to be exactly if it begins at nought or later, or has no bytes.  If it
  is misplaced, its start is counted back from the end of the memory; and unless it then lies within
  the memory, the memory gets longer.
* A block is refused exactly if it begins below nought or ends beyond the memory.  Otherwise it is
  the one that was asked for exactly if it ends at nought or later, or has no bytes even if its end
  is counted back from the end of the memory.  That is what happens to an end below nought.
* A sprite of negative height whose block is not refused leaves every pixel as it is under that same
  condition, and otherwise it is a sprite with more rows. -/
theorem below_nought (s : Store) :
    (∀ program start fault, s.load program start = .error fault ↔
      (s.size : Int) - start < program.size ∧
        fault = .programTooLarge program.size (s.size - start)) ∧
    (∀ program start after, s.load program start = .ok after →
      (s.Stores program start after ↔ 0 ≤ start ∨ program = #[]) ∧
      (start < 0 → program ≠ #[] →
        if 0 ≤ s.size + start ∧ start + program.size < 0 then
          s.Stores program (s.size + start) after
        else s.size < after.size)) ∧
    (∀ address length, (∃ fault, s.readBlock address length = .error fault) ↔
      address < 0 ∨ s.size < address + length) ∧
    (∀ address length block, s.readBlock address length = .ok block →
      (s.Returns address length block ↔ 0 ≤ address + length ∨ s.size + length ≤ 0) ∧
      (address + length < 0 → s.Returns address (s.size + length) block)) ∧
    ∀ (screen : Screen) (x y height address : Int), height < 0 → 0 ≤ address →
      address + height ≤ s.size →
      screen.draw x y height address s =
        if 0 ≤ address + height ∨ s.size + height ≤ 0 then
          .ok ({ screen with dirty := true }, false)
        else screen.draw x y (s.size + height) address s := by
  refine ⟨fun _ _ _ => load_eq_error_iff, fun program start after hload => ?_,
    fun _ _ => readBlock_eq_error_iff,
    fun _ _ _ hread => ⟨returns_iff_of_readBlock hread, fun hend => returns_from_end hend hread⟩,
    fun screen x y _ _ hneg hlow hhigh => s.draw_of_neg screen x y hneg hlow hhigh⟩
  refine ⟨stores_iff_of_load hload, fun hneg hsome => ?_⟩
  split
  next hwithin =>
    rw [load_from_end hwithin.1 hwithin.2] at hload
    exact (stores_iff_of_load hload).2 (.inl hwithin.1)
  next hacross => exact size_lt_of_load hneg hsome hacross hload

/-! ### The usual memory -/

/-- The memory of the usual size as it is at first. -/
def usual : Store := ofSize standardSize

theorem size_usual : usual.size = 4096 := size_ofSize (by decide)

theorem byteAt_ofSize {size : Nat} (h : fontStart + glyphs.size ≤ size) {i : Nat}
    (hi : i < glyphs.size) : (ofSize size).byteAt (fontStart + i) = glyphs[i] := by
  have hfits : fontStart + glyphs.size ≤ Store.size ⟨Array.replicate size 0⟩ := by simpa using h
  rw [ofSize, byteAt_replace hfits, if_pos (by omega), Nat.add_sub_cancel_left,
    Array.getElem?_eq_getElem hi, Option.getD_some]

theorem readBlock_usual : usual.readBlock 0x50 5 = .ok #[0xF0, 0x90, 0x90, 0x90, 0xF0] := by
  have hsize := size_usual
  obtain ⟨block, hread⟩ : ∃ block, usual.readBlock 0x50 5 = .ok block :=
    exists_readBlock (by decide) (by omega)
  have hreturns := returns_of_readBlock (by decide) hread
  have hlength : block.size = 5 := hreturns.size
  have hglyph : ∀ i < 5, glyphs[i]? = #[0xF0, 0x90, 0x90, 0x90, 0xF0][i]? := by decide
  rw [hread]
  refine congrArg Except.ok (Array.ext hlength fun i hi hi' => ?_)
  have hlit : i < glyphs.size := by
    have hall : glyphs.size = 80 := rfl
    omega
  have hplace : ((0x50 : Int) + i).toNat = fontStart + i := by
    have hfirst : fontStart = 0x50 := rfl
    omega
  have hentry := hglyph i (by omega)
  rw [Array.getElem?_eq_getElem hlit, Array.getElem?_eq_getElem hi'] at hentry
  have hbyte := (hreturns.bytes i block[i] (Array.getElem?_eq_getElem hi)).2.2
  rw [hplace, usual, byteAt_ofSize (by decide) hlit] at hbyte
  exact hbyte.symm.trans (Option.some.inj hentry)

/-- Two bytes that are loaded four places below nought are stored four places from the end of the
memory, and if they are loaded two places below nought the memory gets longer.  A block whose length
is 4091 below nought has five bytes. -/
theorem two_bytes_below_nought :
    (∃ after, usual.load #[0xAA, 0xBB] (-4) = .ok after ∧
      usual.Stores #[0xAA, 0xBB] 4092 after) ∧
    (∃ after, usual.load #[0xAA, 0xBB] (-2) = .ok after ∧ 4096 < after.size) ∧
    ∃ block, usual.readBlock 0x50 (-4091) = .ok block ∧ usual.Returns 0x50 5 block := by
  have hsize := size_usual
  have hsome : (#[0xAA, 0xBB] : Array UInt8) ≠ #[] := by decide
  obtain ⟨-, hload, -, hread, -⟩ := below_nought usual
  rw [hsize] at hload hread
  obtain ⟨within, hwithin⟩ : ∃ after, usual.load #[0xAA, 0xBB] (-4) = .ok after :=
    exists_load_of_le (by rw [hsize]; decide)
  obtain ⟨longer, hlonger⟩ : ∃ after, usual.load #[0xAA, 0xBB] (-2) = .ok after :=
    exists_load_of_le (by rw [hsize]; decide)
  obtain ⟨block, hblock⟩ : ∃ block, usual.readBlock 0x50 (-4091) = .ok block :=
    exists_readBlock (by decide) (by rw [hsize]; decide)
  have hstored := (hload _ _ _ hwithin).2 (by decide) hsome
  rw [if_pos (by decide)] at hstored
  have hgrown := (hload _ _ _ hlonger).2 (by decide) hsome
  rw [if_neg (by decide)] at hgrown
  have hbytes := (hread _ _ _ hblock).2 (by decide)
  exact ⟨⟨within, hwithin, hstored⟩, ⟨longer, hlonger, hgrown⟩, ⟨block, hblock, hbytes⟩⟩

/-- The usual memory does not refuse a program that begins below nought, nor is the program stored
where it was meant to be: the memory gets longer.  It does not refuse a block of negative length,
which has bytes all the same; and a sprite of negative height lights pixels. -/
theorem not_refused_below_nought :
    (∃ after, usual.load #[0xAA, 0xBB] (-2) = .ok after ∧
      ¬ usual.Stores #[0xAA, 0xBB] (-2) after ∧ after.size ≠ usual.size) ∧
    (∃ block, usual.readBlock 0x50 (-4091) = .ok block ∧ ¬ usual.Returns 0x50 (-4091) block ∧
      block = #[0xF0, 0x90, 0x90, 0x90, 0xF0]) ∧
    ∃ after off, (Screen.blank 64 32).draw 0 0 (-4091) 0x50 usual = .ok (after, off) ∧
      (Screen.blank 64 32).isLit 0 0 = false ∧ after.isLit 0 0 = true := by
  have hsize := size_usual
  have hsome : (#[0xAA, 0xBB] : Array UInt8) ≠ #[] := by decide
  have hread : usual.readBlock 0x50 (-4091) = .ok #[0xF0, 0x90, 0x90, 0x90, 0xF0] := by
    rw [readBlock_from_end (by decide) (by decide) (by rw [hsize]; decide), hsize]
    exact readBlock_usual
  refine ⟨?_, ⟨_, hread, fun hreturns => ?_, rfl⟩, ?_⟩
  · obtain ⟨after, hload⟩ : ∃ after, usual.load #[0xAA, 0xBB] (-2) = .ok after :=
      exists_load_of_le (by rw [hsize]; decide)
    have hlonger := size_lt_of_load (by decide) hsome (by rw [hsize]; decide) hload
    refine ⟨after, hload, fun hstores => ?_, Nat.ne_of_gt hlonger⟩
    exact absurd (hstores.nonneg hsome) (by decide)
  · exact absurd hreturns.size (by decide)
  · rcases hdraw : (Screen.blank 64 32).drawRows 0 0 [0xF0, 0x90, 0x90, 0x90, 0xF0]
      with ⟨after, off⟩
    have hlit : ((Screen.blank 64 32).drawRows 0 0 [0xF0, 0x90, 0x90, 0x90, 0xF0]).1.isLit 0 0 =
      true := by decide +kernel
    refine ⟨after, off, ?_, by decide +kernel, by rwa [hdraw] at hlit⟩
    rw [Screen.draw_eq rfl, hread, ← hdraw]
    rfl

end Store

end Chip8

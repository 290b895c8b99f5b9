import Chip8.Store

/-!
# Checks, sizes and contents of the memory

No access changes the size of a memory: a block that is written or a program that is loaded lies
over bytes that are already there.  `check_of_le` and `check_of_lt` say when an access is allowed
and which address a refused one reports; `byteAt_of_load` says what the memory holds after a program
was loaded, and `receives_of_writeBlock` what it holds after a block was written.
-/

namespace Chip8

theorem map_eq_ok {α β : Type} {f : α → β} {e : Except Fault α} {b : β}
    (h : e.map f = .ok b) : ∃ a, e = .ok a ∧ f a = b := by
  cases e with
  | error fault => cases h
  | ok a => exact ⟨a, rfl, Except.ok.inj h⟩

theorem map_eq_error_iff {α β : Type} {f : α → β} {e : Except Fault α} {fault : Fault} :
    e.map f = .error fault ↔ e = .error fault := by
  cases e <;> simp [Except.map]

namespace Store

variable {s : Store}

/-! ### Checks -/

theorem check_of_le {address length : Int} (h₀ : 0 ≤ address)
    (h : address + length ≤ s.size) :
    s.check address length = .ok () := by
  unfold check
  rw [if_neg (by omega), if_neg (by omega)]

theorem check_of_lt {address length : Int} (h₀ : 0 ≤ address) (h : s.size < address + length) :
    s.check address length = .error (.outOfBounds (max address s.size)) := by
  unfold check
  rw [if_neg (by omega), if_pos h]

theorem check_eq_ok_iff {address length : Int} :
    s.check address length = .ok () ↔ 0 ≤ address ∧ address + length ≤ s.size := by
  unfold check
  split
  · next h => simp [show ¬ 0 ≤ address by omega]
  · split
    · next h => simp [show ¬ address + length ≤ s.size by omega]
    · simp only [true_iff]
      omega

/-! ### Sizes -/

@[simp] theorem size_mk (bytes : Array UInt8) : size ⟨bytes⟩ = bytes.size := rfl

@[simp] theorem size_overlay (address : Nat) (block : Array UInt8) :
    (s.overlay address block).size = s.size := by
  simp [overlay, size]

theorem size_of_writeBlock {address : Int} {values : Array Int} {after : Store}
    (h : s.writeBlock address values = .ok after) : after.size = s.size := by
  obtain ⟨_, -, rfl⟩ := map_eq_ok h
  exact size_overlay _ _

theorem position_of_nonneg {i : Int} (h : 0 ≤ i) : s.position i = i.toNat := by
  unfold position
  rw [if_neg (by omega)]

theorem size_replace {start : Nat} {block : Array UInt8} (h : start + block.size ≤ s.size) :
    (s.replace start (start + block.size) block).size = s.size := by
  simp only [replace, size_mk, Array.size_append, Array.size_extract]
  rw [position_of_nonneg (by omega), position_of_nonneg (by omega)]
  unfold size at h ⊢
  omega

theorem size_ofSize {size : Nat} (h : fontStart + glyphs.size ≤ size) :
    (ofSize size).size = size := by
  have hs : Store.size ⟨Array.replicate size 0⟩ = size := by simp
  rw [ofSize, size_replace (by omega), hs]

theorem size_of_load {program : Array UInt8} {start : Nat} {after : Store}
    (h : s.load program start = .ok after) : after.size = s.size := by
  unfold load at h
  dsimp only at h
  split at h
  · cases h
  · cases h
    exact size_replace (by omega)

/-! ### Contents -/

theorem byteAt_eq (s : Store) (i : Nat) : s.byteAt i = s.bytes[i]?.getD 0 := by
  simp [byteAt]

/-- A window inside the memory holds the block that replaced it, and nothing else changed. -/
theorem byteAt_replace {start : Nat} {block : Array UInt8} (h : start + block.size ≤ s.size)
    (i : Nat) :
    (s.replace start (start + block.size) block).byteAt i =
      if start ≤ i ∧ i < start + block.size then block[i - start]?.getD 0 else s.byteAt i := by
  have hbytes : start + block.size ≤ s.bytes.size := h
  have hstop : ((start : Int) + block.size).toNat = start + block.size := by omega
  simp only [byteAt_eq, replace]
  rw [position_of_nonneg (by omega), position_of_nonneg (by omega), hstop, Int.toNat_natCast,
    Nat.max_eq_right (Nat.le_add_right _ _)]
  have hleft : (s.bytes.extract 0 start).size = start := by
    rw [Array.size_extract]
    omega
  by_cases hlow : i < start
  · rw [if_neg (by omega), Array.append_assoc, Array.getElem?_append_left (by omega),
      Array.getElem?_extract, if_pos (by omega), Nat.zero_add]
  by_cases hhigh : i < start + block.size
  · rw [if_pos (by omega), Array.getElem?_append_left (by rw [Array.size_append]; omega),
      Array.getElem?_append_right (by omega), hleft]
  · rw [if_neg (by omega), Array.getElem?_append_right (by rw [Array.size_append]; omega),
      Array.size_append, hleft, Array.getElem?_extract]
    split
    · congr 2
      omega
    · rw [Array.getElem?_eq_none]
      unfold size at *
      omega

theorem byteAt_of_load {program : Array UInt8} {start : Nat} {after : Store}
    (h : s.load program start = .ok after) (i : Nat) :
    after.byteAt i =
      if start ≤ i ∧ i < start + program.size then program[i - start]?.getD 0 else s.byteAt i := by
  unfold load at h
  dsimp only at h
  split at h
  · cases h
  · cases h
    exact byteAt_replace (by omega) i

theorem exists_load {program : Array UInt8} {start : Nat}
    (h : start + program.size ≤ s.size) : ∃ after, s.load program start = .ok after := by
  unfold load
  dsimp only
  rw [if_neg (by omega)]
  exact ⟨_, rfl⟩

theorem eq_of_byteAt_eq {t : Store} (hsize : s.size = t.size)
    (hbytes : ∀ i, s.byteAt i = t.byteAt i) : s = t := by
  obtain ⟨bytes⟩ := s
  obtain ⟨bytes'⟩ := t
  congr 1
  refine Array.ext hsize fun i hi hi' => ?_
  have hi_eq := hbytes i
  rwa [byteAt_eq, byteAt_eq, Array.getElem?_eq_getElem hi, Array.getElem?_eq_getElem hi'] at hi_eq

theorem getD_of_readBlock {address : Int} {length : Nat} {block : Array UInt8}
    (h : s.readBlock address length = .ok block) :
    0 ≤ address ∧ ∀ i < length, block.getD i 0 = s.byteAt (address.toNat + i) := by
  obtain ⟨_, hcheck, rfl⟩ := map_eq_ok h
  obtain ⟨hlow, hhigh⟩ := check_eq_ok_iff.1 hcheck
  refine ⟨hlow, fun i hi => ?_⟩
  rw [byteAt_eq, Array.getD_eq_getD_getElem?, window, position_of_nonneg hlow,
    position_of_nonneg (by omega), Array.getElem?_extract, if_pos]
  unfold size at hhigh
  omega

theorem size_of_readBlock {address : Int} {length : Nat} {block : Array UInt8}
    (h : s.readBlock address length = .ok block) : block.size = length := by
  obtain ⟨_, hcheck, rfl⟩ := map_eq_ok h
  obtain ⟨hlow, hhigh⟩ := check_eq_ok_iff.1 hcheck
  rw [window, position_of_nonneg hlow, position_of_nonneg (by omega), Array.size_extract]
  unfold size at hhigh
  omega

theorem readBlock_eq {address length : Int} (h₀ : 0 ≤ address) (h : address + length ≤ s.size) :
    s.readBlock address length = .ok (s.window address (address + length)) := by
  rw [readBlock, check_of_le h₀ h]
  rfl

theorem exists_readBlock {address length : Int} (h₀ : 0 ≤ address)
    (h : address + length ≤ s.size) : ∃ block, s.readBlock address length = .ok block :=
  ⟨_, readBlock_eq h₀ h⟩

/-! ### Blocks that are written -/

theorem byteAt_overlay {address : Nat} {block : Array UInt8}
    (h : address + block.size ≤ s.size) (i : Nat) :
    (s.overlay address block).byteAt i =
      if address ≤ i ∧ i < address + block.size then block[i - address]?.getD 0
      else s.byteAt i := by
  have hsize : address + block.size ≤ s.bytes.size := h
  simp only [byteAt_eq, overlay, Array.getElem?_mapIdx, Array.getD_eq_getD_getElem?]
  by_cases hin : address ≤ i ∧ i < address + block.size
  · have hold : s.bytes[i]? = some s.bytes[i] := Array.getElem?_eq_getElem (by omega)
    have hnew : block[i - address]? = some block[i - address] :=
      Array.getElem?_eq_getElem (by omega)
    rw [if_pos hin, hold, hnew, Option.map_some, Option.getD_some, if_neg (by omega)]
    rfl
  · rw [if_neg hin]
    cases hold : s.bytes[i]? with
    | none => rfl
    | some old =>
      rw [Option.map_some, Option.getD_some]
      split
      · rfl
      · rw [Array.getElem?_eq_none (by omega)]
        rfl

theorem overlay_eq_replace {address : Nat} {block : Array UInt8}
    (h : address + block.size ≤ s.size) :
    s.overlay address block = s.replace address (address + block.size) block := by
  refine eq_of_byteAt_eq ?_ fun i => ?_
  · rw [size_overlay, size_replace h]
  · rw [byteAt_overlay h, byteAt_replace h]

/-- **A block that is written replaces the window that it fills**, which is as long as it is. -/
theorem writeBlock_eq (s : Store) (address : Int) (values : Array Int) :
    s.writeBlock address values = (s.check address values.size).map fun _ =>
      s.replace address (address + values.size) (values.map lowByte) := by
  rw [writeBlock]
  cases hcheck : s.check address values.size with
  | error fault => rfl
  | ok _ =>
    obtain ⟨hlow, hhigh⟩ := check_eq_ok_iff.1 hcheck
    obtain ⟨first, rfl⟩ := Int.eq_ofNat_of_zero_le hlow
    have hfits : first + (values.map lowByte).size ≤ s.size := by
      rw [Array.size_map]
      omega
    have hoverlay := overlay_eq_replace hfits
    rw [Array.size_map] at hoverlay
    exact congrArg Except.ok hoverlay

/-- The bytes from an address on become these numbers, and all others stay. -/
structure Receives (s : Store) (start : Int) (values : List Nat) (after : Store) : Prop where
  /-- The bytes lie in the memory. -/
  inside : 0 ≤ start ∧ start + values.length ≤ s.size
  /-- The memory keeps its size. -/
  size : after.size = s.size
  /-- The bytes become the numbers, in order. -/
  received : ∀ n v, values[n]? = some v → (after.byteAt (start.toNat + n)).toNat = v
  /-- The other bytes stay. -/
  elsewhere : ∀ address : Nat, address < start ∨ start + values.length ≤ address →
    after.byteAt address = s.byteAt address

theorem toNat_lowByte_emod (v : Int) : ((lowByte v).toNat : Int) = v % 256 := by
  have hlow : 0 ≤ v % 256 := Int.emod_nonneg v (by decide)
  have hhigh : v % 256 < 256 := Int.emod_lt_of_pos v (by decide)
  have hmod : (v % 256).toNat % 2 ^ 8 = (v % 256).toNat := Nat.mod_eq_of_lt (by omega)
  rw [lowByte, UInt8.toNat_ofNat', hmod, Int.toNat_of_nonneg hlow]

theorem toNat_lowByte {v : Nat} (h : v ≤ 0xFF) : (lowByte v).toNat = v := by
  have hlow := toNat_lowByte_emod v
  omega

theorem receives_of_writeBlock {start : Int} {values : List Nat} {after : Store}
    (hbytes : ∀ v ∈ values, v ≤ 0xFF)
    (h : s.writeBlock start (values.toArray.map Int.ofNat) = .ok after) :
    s.Receives start values after := by
  have hsize := size_of_writeBlock h
  obtain ⟨_, hcheck, rfl⟩ := map_eq_ok h
  rw [Array.size_map, List.size_toArray] at hcheck
  obtain ⟨hlow, hhigh⟩ := check_eq_ok_iff.1 hcheck
  obtain ⟨first, rfl⟩ := Int.eq_ofNat_of_zero_le hlow
  have hfits : first + ((values.toArray.map Int.ofNat).map lowByte).size ≤ s.size := by
    rw [Array.size_map, Array.size_map, List.size_toArray]
    omega
  refine ⟨⟨hlow, hhigh⟩, hsize, fun n v hv => ?_, fun address hout => ?_⟩
  · obtain ⟨hn, -⟩ := List.getElem?_eq_some_iff.1 hv
    rw [Int.toNat_natCast, byteAt_overlay hfits, if_pos (by simp; omega), Nat.add_sub_cancel_left]
    simp only [Array.getElem?_map, List.getElem?_toArray, hv, Option.map_some, Option.getD_some]
    exact toNat_lowByte (hbytes v (List.mem_of_getElem? hv))
  · rw [Int.toNat_natCast, byteAt_overlay hfits, if_neg (by simp; omega)]

end Store

end Chip8

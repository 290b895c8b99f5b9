import Chip8.Proofs.Store
import Mathlib.Data.List.Induction
import Mathlib.Order.Bounds.Defs

/-!
# The memory is an array of bytes

`Store.afterWrites` is what a row of writes makes of a memory: single bytes, blocks and programs, in
any order and at any address.  A write that does not fit into the memory fails and changes nothing.

The memory keeps its size all the time, and each address holds the number last written there, modulo
256 (`Store.byteAt_afterWrites`).  The reads return these numbers.  An access fails exactly if it
leaves the memory, and then it reports the first address of its range that lies outside
(`Store.guards_check`).
-/

namespace Chip8

/-- A change of the memory that is asked for. -/
inductive Write where
  /-- A byte is written. -/
  | byte (address value : Int)
  /-- A block is written. -/
  | block (address : Int) (values : Array Int)
  /-- A program is loaded. -/
  | program (bytes : Array UInt8) (start : Nat)
  deriving DecidableEq, Repr

namespace Write

/-- The first address that is written. -/
def start : Write → Int
  | byte address _ | block address _ => address
  | program _ start => start

/-- The numbers that are written. -/
def values : Write → List Int
  | byte _ value => [value]
  | block _ values => values.toList
  | program bytes _ => bytes.toList.map fun b => (b.toNat : Int)

/-- All that is written lies in a memory of this size. -/
def Fits (size : Nat) (w : Write) : Prop := 0 ≤ w.start ∧ w.start + w.values.length ≤ size

instance (size : Nat) : DecidablePred (Fits size) := fun w =>
  inferInstanceAs (Decidable (0 ≤ w.start ∧ w.start + w.values.length ≤ size))

/-- The number that is written at an address, if one is. -/
def valueAt? (address : Nat) (w : Write) : Option Int :=
  if w.start ≤ address then w.values[(address - w.start).toNat]? else none

/-- Makes the change, if that is allowed. -/
def attempt (w : Write) (s : Store) : Except Fault Store :=
  match w with
  | byte address value => s.writeByte address value
  | block address values => s.writeBlock address values
  | program bytes start => s.load bytes start

end Write

namespace Store

/-- A write that is asked for; if it fails, the memory stays what it was. -/
def write (s : Store) (w : Write) : Store :=
  match w.attempt s with
  | .ok after => after
  | .error _ => s

/-- A memory after a row of writes. -/
def afterWrites (s : Store) (writes : List Write) : Store := writes.foldl write s

/-- The number last written at an address of a memory of this size, by a write that fits. -/
def lastWritten? (size : Nat) (writes : List Write) (address : Nat) : Option Int :=
  (writes.filter (·.Fits size)).reverse.findSome? (Write.valueAt? address)

/-- The number that an address should hold after a row of writes: the last number written there,
modulo 256, or else what it held before. -/
def cellAfter (s : Store) (writes : List Write) (address : Nat) : Int :=
  (lastWritten? s.size writes address).elim (s.byteAt address).toNat (· % 256)

/-- The addresses of an access that lie outside a memory of this size. -/
def outside (size : Nat) (address length : Int) : Set Int :=
  {a | address ≤ a ∧ a < address + length ∧ ¬ (0 ≤ a ∧ a < size)}

/-- An access to `length` bytes at `address`, with its result, is allowed inside the memory only. -/
structure Guards {α : Type} (size : Nat) (address length : Int) (result : Except Fault α) :
    Prop where
  /-- It fails exactly if it leaves the memory. -/
  fails_iff : (∃ fault, result = .error fault) ↔ address < 0 ∨ size < address + length
  /-- It reports the first address that it cannot have. -/
  reports : ∀ fault, result = .error fault →
    ∃ a, fault = .outOfBounds a ∧ IsLeast (outside size address length) a

/-- Every access to at least one byte is guarded, and so is the loading of a program. -/
structure Guarded (s : Store) : Prop where
  /-- A byte is read. -/
  readByte : ∀ address, Guards s.size address 1 (s.readByte address)
  /-- A word is read. -/
  readWord : ∀ address, Guards s.size address 2 (s.readWord address)
  /-- A block is read. -/
  readBlock : ∀ address length, 1 ≤ length →
    Guards s.size address length (s.readBlock address length)
  /-- A byte is written. -/
  writeByte : ∀ address value, Guards s.size address 1 (s.writeByte address value)
  /-- A block is written. -/
  writeBlock : ∀ (address : Int) (values : Array Int), 1 ≤ values.size →
    Guards s.size address values.size (s.writeBlock address values)
  /-- A program is loaded. -/
  load : ∀ (program : Array UInt8) (start : Nat) (fault : Fault),
    s.load program start = .error fault ↔ (s.size : Int) - start < program.size ∧
      fault = .programTooLarge program.size (s.size - start)

/-- The reads of a memory, when they succeed, return these numbers. -/
structure Shows (s : Store) (cell : Nat → Int) : Prop where
  /-- A byte. -/
  byte : ∀ address b, s.readByte address = .ok b → (b.toNat : Int) = cell address.toNat
  /-- A word has its high byte first. -/
  word : ∀ address w, s.readWord address = .ok w →
    (w : Int) = 256 * cell address.toNat + cell (address.toNat + 1)
  /-- A block. -/
  block : ∀ (address : Int) (length : Nat) block, s.readBlock address length = .ok block →
    block.size = length ∧
      ∀ i b, block[i]? = some b → (b.toNat : Int) = cell (address.toNat + i)

variable {s : Store} {w : Write}

/-! ### Guards -/

theorem check_of_neg {address length : Int} (h : address < 0) :
    s.check address length = .error (.outOfBounds address) :=
  if_pos h

theorem guards_check {α : Type} {length : Int} (hlength : 1 ≤ length) (address : Int)
    (f : Unit → α) : Guards s.size address length ((s.check address length).map f) := by
  rcases Int.lt_or_le address 0 with hneg | hlow
  · have hcheck : s.check address length = .error (.outOfBounds address) := check_of_neg hneg
    refine ⟨by simp [hcheck, Except.map, hneg], fun fault h => ⟨address, ?_, ?_, fun a ha => ha.1⟩⟩
    · rw [map_eq_error_iff, hcheck] at h
      exact (Except.error.inj h).symm
    · exact ⟨Int.le_refl _, by omega, by omega⟩
  rcases Int.lt_or_le (s.size : Int) (address + length) with hhigh | hfits
  · have hcheck := check_of_lt hlow hhigh
    refine ⟨by simp [hcheck, Except.map, hhigh], fun fault h => ⟨max address s.size, ?_, ?_, ?_⟩⟩
    · rw [map_eq_error_iff, hcheck] at h
      exact (Except.error.inj h).symm
    · exact ⟨by omega, by omega, by omega⟩
    · rintro a ⟨hfirst, -, hout⟩
      omega
  · have hcheck := check_of_le hlow hfits
    refine ⟨?_, fun fault h => ?_⟩
    · rw [hcheck]
      exact ⟨fun ⟨_, h⟩ => (by cases h), fun h => by omega⟩
    · rw [hcheck] at h
      cases h

theorem load_eq_error_iff {program : Array UInt8} {start : Int} {fault : Fault} :
    s.load program start = .error fault ↔ (s.size : Int) - start < program.size ∧
      fault = .programTooLarge program.size (s.size - start) := by
  unfold load
  dsimp only
  split
  next hlarge => simp [hlarge, eq_comm]
  next hfits => simp [hfits]

theorem guarded (s : Store) : s.Guarded where
  readByte address := guards_check (by decide) address _
  readWord address := guards_check (by decide) address _
  readBlock address _ hlength := guards_check hlength address _
  writeByte address _ := guards_check (by decide) address _
  writeBlock address _ hsize := guards_check (by exact_mod_cast hsize) address _
  load _ _ _ := load_eq_error_iff

/-! ### One write -/

/-- Every address that a write covers holds its number, and the others what they held before. -/
def Takes (s : Store) (w : Write) (after : Store) : Prop :=
  after.size = s.size ∧ ∀ i,
    ((after.byteAt i).toNat : Int) = (w.valueAt? i).elim ((s.byteAt i).toNat : Int) (· % 256)

/-- A memory whose bytes are replaced by a block takes the numbers of the block. -/
theorem takes_of_byteAt {after : Store} {first : Nat} {block : Array UInt8}
    (hstart : w.start = first)
    (hvalues : w.values.map (· % 256) = block.toList.map fun b => (b.toNat : Int))
    (hsize : after.size = s.size)
    (hbytes : ∀ i, after.byteAt i =
      if first ≤ i ∧ i < first + block.size then block[i - first]?.getD 0 else s.byteAt i) :
    s.Takes w after := by
  have hlength : w.values.length = block.size := by simpa using congrArg List.length hvalues
  refine ⟨hsize, fun i => ?_⟩
  rw [hbytes, Write.valueAt?, hstart]
  by_cases hin : first ≤ i ∧ i < first + block.size
  · have hplace : ((i : Int) - first).toNat = i - first := by omega
    have hentry : w.values[i - first]?.map (· % 256) =
        block[i - first]?.map fun b => (b.toNat : Int) := by
      simpa using congrArg (·[i - first]?) hvalues
    rw [if_pos hin, if_pos (by omega), hplace]
    rw [Array.getElem?_eq_getElem (show i - first < block.size by omega),
      List.getElem?_eq_getElem (by omega)] at hentry ⊢
    exact (Option.some.inj hentry).symm
  · have hnone : (if (first : Int) ≤ i then w.values[((i : Int) - first).toNat]? else none) =
        none := by
      split
      · exact List.getElem?_eq_none (by omega)
      · rfl
    rw [if_neg hin, hnone]
    rfl

theorem exists_takes_block {address : Int} {values : Array Int}
    (h : (Write.block address values).Fits s.size) :
    ∃ after, s.writeBlock address values = .ok after ∧ s.Takes (.block address values) after := by
  obtain ⟨hlow, hhigh⟩ := h
  simp only [Write.start, Write.values, Array.length_toList] at hlow hhigh
  obtain ⟨first, rfl⟩ := Int.eq_ofNat_of_zero_le hlow
  have hwritten : s.writeBlock first values = .ok (s.overlay first (values.map lowByte)) := by
    rw [writeBlock, check_of_le hlow hhigh]
    rfl
  refine ⟨_, hwritten, takes_of_byteAt rfl ?_ (size_of_writeBlock hwritten) (byteAt_overlay ?_)⟩
  · simp [Write.values, toNat_lowByte_emod]
  · rw [Array.size_map]
    omega

theorem exists_takes_program {program : Array UInt8} {start : Nat}
    (h : (Write.program program start).Fits s.size) :
    ∃ after, s.load program start = .ok after ∧ s.Takes (.program program start) after := by
  obtain ⟨-, hhigh⟩ := h
  simp only [Write.start, Write.values, List.length_map, Array.length_toList] at hhigh
  have hfits : start + program.size ≤ s.size := by omega
  obtain ⟨after, hloaded⟩ := exists_load hfits
  refine ⟨after, hloaded, takes_of_byteAt rfl ?_ (size_of_load hloaded) (byteAt_of_load hloaded)⟩
  simp only [Write.values, List.map_map]
  refine List.map_congr_left fun b _ => ?_
  have hbyte := b.toNat_lt
  simp only [Function.comp_apply]
  omega

theorem exists_takes (h : w.Fits s.size) : ∃ after, w.attempt s = .ok after ∧ s.Takes w after := by
  cases w with
  | byte address value => exact @exists_takes_block s address #[value] h
  | block address values => exact exists_takes_block h
  | program bytes start => exact exists_takes_program h

theorem writeBlock_of_not_fits {address : Int} {values : Array Int}
    (h : ¬ (Write.block address values).Fits s.size) :
    ∃ fault, s.writeBlock address values = .error fault := by
  rcases hcheck : s.check address values.size with fault | _
  · exact ⟨fault, map_eq_error_iff.2 hcheck⟩
  · exact absurd (check_eq_ok_iff.1 hcheck) h

theorem attempt_of_not_fits (h : ¬ w.Fits s.size) : ∃ fault, w.attempt s = .error fault := by
  cases w with
  | byte address value => exact @writeBlock_of_not_fits s address #[value] h
  | block address values => exact writeBlock_of_not_fits h
  | program bytes start =>
    refine ⟨_, load_eq_error_iff.2 ⟨?_, rfl⟩⟩
    simp only [Write.Fits, Write.start, Write.values, List.length_map, Array.length_toList] at h
    omega

theorem attempt_eq_ok_iff : (∃ after, w.attempt s = .ok after) ↔ w.Fits s.size := by
  constructor
  · rintro ⟨after, hafter⟩
    by_contra hout
    obtain ⟨fault, hfault⟩ := attempt_of_not_fits hout
    rw [hfault] at hafter
    cases hafter
  · intro h
    obtain ⟨after, hafter, -⟩ := exists_takes h
    exact ⟨after, hafter⟩

theorem write_of_error {fault : Fault} (h : w.attempt s = .error fault) : s.write w = s := by
  rw [write, h]

theorem takes_write (h : w.Fits s.size) : s.Takes w (s.write w) := by
  obtain ⟨after, hafter, htakes⟩ := exists_takes h
  rwa [write, hafter]

theorem write_of_not_fits (h : ¬ w.Fits s.size) : s.write w = s := by
  obtain ⟨fault, hfault⟩ := attempt_of_not_fits h
  exact write_of_error hfault

/-! ### Rows of writes -/

theorem afterWrites_append (s : Store) (writes : List Write) (w : Write) :
    s.afterWrites (writes ++ [w]) = (s.afterWrites writes).write w :=
  List.foldl_append

theorem lastWritten?_append (size : Nat) (writes : List Write) (w : Write) (i : Nat) :
    lastWritten? size (writes ++ [w]) i =
      if w.Fits size then (w.valueAt? i).or (lastWritten? size writes i)
      else lastWritten? size writes i := by
  unfold lastWritten?
  split
  next hfits =>
    rw [List.filter_append, List.filter_cons_of_pos (by simpa using hfits), List.filter_nil,
      List.reverse_append, List.findSome?_append]
    cases hvalue : w.valueAt? i <;> simp [hvalue]
  next hout => simp [List.filter_append, hout]

/-- **A memory keeps its size.** -/
theorem size_afterWrites (s : Store) (writes : List Write) :
    (s.afterWrites writes).size = s.size := by
  induction writes using List.reverseRecOn with
  | nil => rfl
  | append_singleton writes w ih =>
    rw [afterWrites_append]
    by_cases hfits : w.Fits (s.afterWrites writes).size
    · exact (takes_write hfits).1.trans ih
    · rw [write_of_not_fits hfits, ih]

/-- **Every address holds the number last written there.** -/
theorem byteAt_afterWrites (s : Store) (writes : List Write) (i : Nat) :
    (((s.afterWrites writes).byteAt i).toNat : Int) = s.cellAfter writes i := by
  induction writes using List.reverseRecOn with
  | nil => rfl
  | append_singleton writes w ih =>
    have hsize := size_afterWrites s writes
    rw [afterWrites_append, cellAfter, lastWritten?_append]
    by_cases hfits : w.Fits s.size
    · rw [(takes_write (hsize.symm ▸ hfits)).2, if_pos hfits, ih]
      cases w.valueAt? i <;> rfl
    · rw [write_of_not_fits (hsize.symm ▸ hfits), if_neg hfits, ih]
      rfl

theorem shows_byteAt (s : Store) : s.Shows fun i => (s.byteAt i).toNat where
  byte address b h := by
    obtain ⟨_, -, rfl⟩ := map_eq_ok h
    rfl
  word address w h := by
    obtain ⟨_, -, rfl⟩ := map_eq_ok h
    exact Int.natCast_add _ _
  block address length block h := by
    have hsize := size_of_readBlock h
    refine ⟨hsize, fun i b hb => ?_⟩
    obtain ⟨hi, rfl⟩ := Array.getElem?_eq_some_iff.1 hb
    have hread := (getD_of_readBlock h).2 i (hsize ▸ hi)
    rw [Array.getD_eq_getD_getElem?, hb, Option.getD_some] at hread
    exact congrArg (fun b : UInt8 => (b.toNat : Int)) hread

/-- **The memory is an array of bytes.**  Whatever is written to a memory, it keeps its size; a
later read that succeeds returns for each of its addresses the number that was last written there by
a write that succeeded, modulo 256, or else what the memory held at first.  An access fails exactly
if it leaves the memory, and reports the first address that it cannot have; the loading of a program
fails exactly if the program is longer than the memory from its start, and reports the two lengths.
A write succeeds exactly if it fits, and one that fails changes nothing. -/
theorem acts_as_array (s : Store) (writes : List Write) :
    (s.afterWrites writes).size = s.size ∧
    (s.afterWrites writes).Shows (s.cellAfter writes) ∧
    (s.afterWrites writes).Guarded ∧
    ∀ w : Write,
      ((∃ after, w.attempt (s.afterWrites writes) = .ok after) ↔ w.Fits s.size) ∧
      ∀ fault, w.attempt (s.afterWrites writes) = .error fault →
        s.afterWrites (writes ++ [w]) = s.afterWrites writes := by
  have hsize := size_afterWrites s writes
  have hcells : s.cellAfter writes = fun i => (((s.afterWrites writes).byteAt i).toNat : Int) :=
    funext fun i => (byteAt_afterWrites s writes i).symm
  refine ⟨hsize, hcells ▸ shows_byteAt _, guarded _, fun w => ⟨?_, fun fault hfault => ?_⟩⟩
  · rw [← hsize]
    exact attempt_eq_ok_iff
  · rw [afterWrites_append, write_of_error hfault]

/-- A value above a byte keeps its low bits, the byte beyond the end is refused, and the program
lies over the last byte. -/
example :
    Store.afterWrites ⟨#[1, 2, 3, 4]⟩ [.block 1 #[0x1FF, -1, 5], .byte 4 9, .program #[7] 3] =
      ⟨#[1, 0xFF, 0xFF, 7]⟩ := by
  decide +kernel

end Store

end Chip8

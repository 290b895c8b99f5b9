import Chip8.Machine.Execute
import Chip8.Proofs.Screen
import Chip8.Proofs.Store

/-!
# Operations: what they leave alone, when they fail and what they keep in bounds

An operation changes nothing of the surroundings but the timers, and it touches the stack and the
screen only if that is its business (`Machine.execute_spares`).  It fails exactly if it reaches
beyond the memory, or if it returns and no call is open (`Machine.execute_error_iff`).  And it keeps
the processor tidy: whatever it writes fits the place it is written to (`Machine.Tidy.execute`).
-/

namespace Chip8

/-- Both timers hold a byte. -/
def Countdown.Bounded (t : Countdown) : Prop := t.delay.value ≤ 0xFF ∧ t.sound.value ≤ 0xFF

theorem Countdown.Bounded.tick {t : Countdown} (h : t.Bounded) : t.tick.Bounded := by
  obtain ⟨hd, hs⟩ := h
  refine ⟨?_, ?_⟩ <;> simp only [Countdown.tick, tickDelay, tickSound, Counter.decrement] <;> omega

theorem Countdown.Bounded.setDelay {t : Countdown} (h : t.Bounded) (v : Int) :
    (t.setDelay v).Bounded := by
  refine ⟨?_, h.2⟩
  simp only [Countdown.setDelay, Counter.set, Counter.ofInt]
  omega

theorem Countdown.Bounded.setSound {t : Countdown} (h : t.Bounded) (v : Int) :
    (t.setSound v).Bounded := by
  refine ⟨h.1, ?_⟩
  simp only [Countdown.setSound, Counter.set, Counter.ofInt]
  omega

/-- The number of bytes from the index register on that an operation reads or writes. -/
def Instruction.reach? (i : Instruction) : Op → Option Nat
  | .draw => some i.n
  | .storeDecimal => some 3
  | .dump | .load => some (i.x + 1)
  | _ => none

namespace Machine

variable {κ : Type} {m after : Machine κ} {i : Instruction} {op : Op}

/-! ### What operations leave alone -/

theorem skipIf_eq (m : Machine κ) (c : Bool) :
    m.skipIf c = { m with pc := if c then nextAddress m.pc else m.pc } := by
  cases c <;> rfl

/-- What an operation leaves alone. -/
structure Spares (op : Op) (m after : Machine κ) : Prop where
  /-- The operation does not count itself. -/
  cycles : after.cycles = m.cycles
  /-- The memory keeps its size. -/
  size : after.store.size = m.store.size
  /-- Nothing of the surroundings changes but the timers. -/
  around : ∃ timers, after.around = { m.around with timers }
  /-- The stack is for calls and returns. -/
  stack : op ≠ .call → op ≠ .leave → after.stack = m.stack
  /-- The screen is for clearing and drawing. -/
  screen : op ≠ .clearScreen → op ≠ .draw → after.screen = m.screen

/-- **What operations leave alone.** -/
theorem execute_spares (h : m.execute i op = .ok after) : Spares op m after := by
  -- first the operations that can fail, then those that set a timer or skip
  cases op
  case leave =>
    simp only [execute, leave] at h
    split at h
    · cases h
    · cases h
      exact ⟨rfl, rfl, ⟨m.around.timers, rfl⟩, fun _ hleave => absurd rfl hleave, fun _ _ => rfl⟩
  case draw =>
    obtain ⟨⟨screen, off⟩, -, rfl⟩ := map_eq_ok h
    exact ⟨rfl, rfl, ⟨m.around.timers, rfl⟩, fun _ _ => rfl, fun _ hdraw => absurd rfl hdraw⟩
  case storeDecimal | dump =>
    obtain ⟨_, hwrite, rfl⟩ := map_eq_ok h
    exact ⟨rfl, Store.size_of_writeBlock hwrite, ⟨m.around.timers, rfl⟩, fun _ _ => rfl,
      fun _ _ => rfl⟩
  case load =>
    obtain ⟨_, -, rfl⟩ := map_eq_ok h
    exact ⟨rfl, rfl, ⟨m.around.timers, rfl⟩, fun _ _ => rfl, fun _ _ => rfl⟩
  case setDelay | setSound =>
    cases h
    exact ⟨rfl, rfl, ⟨_, rfl⟩, fun _ _ => rfl, fun _ _ => rfl⟩
  case skipIfByte | skipUnlessByte | skipIfEqual | skipUnlessEqual | skipIfPressed |
      skipUnlessPressed =>
    simp only [execute, skipIf_eq] at h
    cases h
    exact ⟨rfl, rfl, ⟨m.around.timers, rfl⟩, fun _ _ => rfl, fun _ _ => rfl⟩
  case clearScreen =>
    cases h
    exact ⟨rfl, rfl, ⟨m.around.timers, rfl⟩, fun _ _ => rfl, fun hclear => absurd rfl hclear⟩
  case call =>
    cases h
    exact ⟨rfl, rfl, ⟨m.around.timers, rfl⟩, fun hcall => absurd rfl hcall, fun _ _ => rfl⟩
  all_goals
    cases h
    exact ⟨rfl, rfl, ⟨m.around.timers, rfl⟩, fun _ _ => rfl, fun _ _ => rfl⟩

theorem due_of_execute (h : m.execute i op = .ok after) (hop : op = .clearScreen ∨ op = .draw) :
    after.screen.dirty = true := by
  rcases hop with rfl | rfl
  · cases h
    rfl
  · obtain ⟨⟨screen, off⟩, hdraw, rfl⟩ := map_eq_ok h
    exact Screen.due_of_draw hdraw

theorem execute_around (h : m.execute i op = .ok after) :
    after.cycles = m.cycles ∧ ∃ timers, after.around = { m.around with timers } :=
  ⟨(execute_spares h).cycles, (execute_spares h).around⟩

/-! ### When operations fail -/

theorem size_registersTo (m : Machine κ) (x : Fin 16) : (m.registersTo x).size = x + 1 := by
  simp only [registersTo, Array.size_map, Array.size_extract, Vector.size_toArray]
  omega

/-- An operation that reaches into the memory fails with the check of what it reaches for. -/
theorem execute_error_iff_of_reach? (hs : m.screen.isEmpty = false) {length : Nat}
    (h : i.reach? op = some length) {fault : Fault} :
    m.execute i op = .error fault ↔ m.store.check m.index length = .error fault := by
  cases op
  case draw =>
    cases h
    rw [execute, drawSprite, map_eq_error_iff, Screen.draw_eq hs, map_eq_error_iff]
    exact map_eq_error_iff
  case storeDecimal =>
    cases h
    rw [execute, storeAtIndex, map_eq_error_iff]
    exact map_eq_error_iff
  case dump =>
    cases h
    rw [execute, storeAtIndex, map_eq_error_iff, Store.writeBlock, map_eq_error_iff,
      size_registersTo]
  case load =>
    cases h
    rw [execute, loadRegisters, map_eq_error_iff]
    exact map_eq_error_iff
  all_goals cases h

/-- **An operation fails exactly if it reaches beyond the memory, or returns from no call.** -/
theorem execute_error_iff (hs : m.screen.isEmpty = false) {fault : Fault} :
    m.execute i op = .error fault ↔
      (∃ length, i.reach? op = some length ∧ m.store.check m.index length = .error fault) ∨
      (op = .leave ∧ m.stack = [] ∧ fault = .emptyStack (previousAddress m.pc)) := by
  cases hreach : i.reach? op with
  | some length =>
    have hleave : op ≠ .leave := by
      rintro rfl
      cases hreach
    simp [execute_error_iff_of_reach? hs hreach, hleave]
  | none =>
    cases op
    case leave =>
      cases hstack : m.stack with
      | nil => simp [execute, leave, hstack, eq_comm]
      | cons address rest => simp [execute, leave, hstack]
    case draw | storeDecimal | dump | load => cases hreach
    all_goals simp [execute]

/-! ### What operations keep in bounds -/

/-- The processor, the memory, the screen and the timers hold only what fits into them. -/
structure Tidy (m : Machine κ) : Prop where
  /-- A register holds a byte. -/
  registers : ∀ x, m.reg x ≤ 0xFF
  /-- The index register holds twelve bits. -/
  index : 0 ≤ m.index ∧ m.index ≤ 0xFFF
  /-- The farthest that the program counter gets is a jump with the greatest offset. -/
  pc : 0 ≤ m.pc ∧ m.pc ≤ 0x10FE
  /-- A return address lies behind a call. -/
  stack : ∀ address ∈ m.stack, 2 ≤ address ∧ address ≤ 0x1000
  /-- The memory has its usual size. -/
  store : m.store.size = Store.standardSize
  /-- The screen has its usual extents. -/
  extents : m.screen.width = Screen.standardWidth ∧ m.screen.height = Screen.standardHeight
  /-- Pixels are nought or one. -/
  screen : m.screen.Binary
  /-- The timers hold bytes. -/
  timers : m.around.timers.Bounded

theorem Tidy.not_isEmpty (h : m.Tidy) : m.screen.isEmpty = false :=
  Screen.not_isEmpty (h.extents.1 ▸ by decide) (h.extents.2 ▸ by decide)

theorem Tidy.size_eq (h : m.Tidy) : (m.store.size : Int) = 0x1000 := by
  rw [h.store]
  rfl

@[simp] theorem reg_setReg (x y : Fin 16) (v : Nat) :
    (m.setReg x v).reg y = if x = y then v else m.reg y := by
  simp [reg, setReg, Vector.getElem_set, Fin.ext_iff]

theorem Tidy.setReg (h : m.Tidy) (x : Fin 16) {v : Nat} (hv : v ≤ 0xFF) : (m.setReg x v).Tidy where
  registers y := by
    rw [reg_setReg]
    split
    · exact hv
    · exact h.registers y
  index := h.index
  pc := h.pc
  stack := h.stack
  store := h.store
  extents := h.extents
  screen := h.screen
  timers := h.timers

theorem Tidy.setWithFlag (h : m.Tidy) (x : Fin 16) {v : Nat} (hv : v ≤ 0xFF) (f : Bool) :
    (m.setWithFlag x v f).Tidy :=
  (h.setReg x hv).setReg flag (Nat.le_trans (Bool.toNat_le f) (by decide))

theorem Tidy.setPc (h : m.Tidy) {pc : Int} (hpc : 0 ≤ pc ∧ pc ≤ 0x10FE) :
    Tidy { m with pc } := { h with pc := hpc }

theorem Tidy.setIndex (h : m.Tidy) {index : Int} (hi : 0 ≤ index ∧ index ≤ 0xFFF) :
    Tidy { m with index } := { h with index := hi }

theorem Tidy.skipIf (h : m.Tidy) (hpc : m.pc ≤ 0x1000) (c : Bool) : (m.skipIf c).Tidy := by
  have hpos := h.pc.1
  rw [skipIf_eq]
  refine h.setPc ?_
  unfold nextAddress
  split <;> omega

theorem byte_le (v : Int) : byte v ≤ 0xFF := by
  unfold byte
  omega

theorem byte_toNat_le (b : UInt8) : b.toNat ≤ 0xFF := by
  have := b.toNat_lt
  omega

theorem Tidy.addIndex (h : m.Tidy) (x : Fin 16) : (m.addIndex x).Tidy := by
  have hindex := h.index
  refine Tidy.setReg (h.setIndex ?_) flag (Nat.le_trans (Bool.toNat_le _) (by decide))
  split <;> simp_all <;> omega

theorem Tidy.drawSprite (h : m.Tidy) {x y : Fin 16} {n : Nat}
    (hop : m.drawSprite x y n = .ok after) : after.Tidy := by
  obtain ⟨⟨screen, off⟩, hdraw, rfl⟩ := map_eq_ok hop
  rw [Screen.draw_eq h.not_isEmpty] at hdraw
  obtain ⟨sprite, -, hscreen⟩ := map_eq_ok hdraw
  have hextents := Screen.drawRows_extents m.screen (m.reg x) (m.reg y) sprite.toList
  have hbinary := Screen.drawRows_binary h.screen (m.reg x) (m.reg y) sprite.toList
  rw [hscreen] at hextents hbinary
  have hdrawn : Tidy { m with screen } := { h with
    extents := ⟨hextents.1.trans h.extents.1, hextents.2.trans h.extents.2⟩
    screen := hbinary }
  exact hdrawn.setReg flag (Nat.le_trans (Bool.toNat_le off) (by decide))

theorem Tidy.storeAtIndex (h : m.Tidy) {values : Array Int}
    (hop : m.storeAtIndex values = .ok after) : after.Tidy := by
  obtain ⟨store, hwrite, rfl⟩ := map_eq_ok hop
  exact { h with store := (Store.size_of_writeBlock hwrite).trans h.store }

theorem Tidy.loadRegisters (h : m.Tidy) {x : Fin 16}
    (hop : m.loadRegisters x = .ok after) : after.Tidy := by
  obtain ⟨block, -, rfl⟩ := map_eq_ok hop
  refine { h with registers := fun y => ?_ }
  have hold : m.registers[(y : Nat)] ≤ 0xFF := h.registers y
  simp only [reg, Fin.getElem_fin, Vector.getElem_mapFinIdx]
  split
  · exact byte_toNat_le _
  · exact hold

theorem Tidy.leave (h : m.Tidy) (hop : m.leave = .ok after) : after.Tidy := by
  have hstack := h.stack
  unfold Machine.leave at hop
  split at hop
  case h_1 => cases hop
  case h_2 address rest heq =>
    cases hop
    rw [heq] at hstack
    have haddress := hstack address List.mem_cons_self
    have hpc : 0 ≤ address ∧ address ≤ 0x10FE := by omega
    exact { h with
      pc := hpc
      stack := fun a ha => hstack a (List.mem_cons_of_mem _ ha) }

/-- **Whatever an operation writes fits the place it is written to.** -/
theorem Tidy.execute (h : m.Tidy) (hpc : 2 ≤ m.pc ∧ m.pc ≤ 0x1000)
    (hop : m.execute i op = .ok after) : after.Tidy := by
  have hnnn : i.nnn < 0x1000 := Nat.mod_lt _ (by decide)
  have hkk : i.kk < 0x100 := Nat.mod_lt _ (by decide)
  have hx := h.registers i.x
  have hy := h.registers i.y
  -- what can fail has a lemma of its own; what cannot is written out in the goal
  cases op
  case leave => exact h.leave hop
  case draw => exact h.drawSprite hop
  case storeDecimal | dump => exact h.storeAtIndex hop
  case load => exact h.loadRegisters hop
  all_goals cases hop
  case clearScreen => exact { h with extents := h.extents, screen := Screen.clear_binary _ }
  case jump => exact h.setPc (by omega)
  case call =>
    -- the counter is already behind the call: this is why return addresses are never nought
    refine { h with pc := ⟨by simp, by simp; omega⟩, stack := fun a ha => ?_ }
    rcases List.mem_cons.1 ha with rfl | ha
    · exact hpc
    · exact h.stack a ha
  case skipIfByte | skipUnlessByte | skipIfEqual | skipUnlessEqual | skipIfPressed |
      skipUnlessPressed => exact h.skipIf hpc.2 _
  case setByte => exact h.setReg _ (by omega)
  case addByte => exact h.setReg _ (by omega)
  case copy => exact h.setReg _ hy
  case or => exact h.setReg _ (Nat.le_of_lt_succ (Nat.or_lt_two_pow (n := 8) (by omega) (by omega)))
  case and => exact h.setReg _ (Nat.le_trans Nat.and_le_left hx)
  case xor =>
    exact h.setReg _ (Nat.le_of_lt_succ (Nat.xor_lt_two_pow (n := 8) (by omega) (by omega)))
  case add => exact h.setWithFlag _ (by omega) _
  case subtract | subtractFrom => exact h.setWithFlag _ (byte_le _) _
  case shiftRight => exact h.setWithFlag _ (by omega) _
  case shiftLeft => exact h.setWithFlag _ (by omega) _
  case setIndex => exact h.setIndex (by omega)
  case jumpOffset =>
    have hfirst := h.registers first
    exact h.setPc (by omega)
  case random =>
    have hrandom : Tidy { m with random := m.random.draw.2 } := { h with }
    exact hrandom.setReg _ (Nat.le_trans Nat.and_le_left (byte_toNat_le _))
  case readDelay => exact h.setReg _ h.timers.1
  case awaitKey => exact h
  case setDelay => exact { h with timers := h.timers.setDelay _ }
  case setSound => exact { h with timers := h.timers.setSound _ }
  case addIndex => exact h.addIndex _
  case glyph =>
    refine h.setIndex ?_
    simp only [Store.fontStart, glyphHeight]
    omega

end Machine

end Chip8

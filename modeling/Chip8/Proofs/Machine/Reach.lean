import Chip8.Proofs.Machine.Step

/-!
# What holds of every machine that is being used

`Machine.Reachable` is every machine that can come about: it was switched on with some program and
some source of random bytes, and since then instructions were executed, events happened, pictures
were taken and the machine or its keyboard were reset, in any order and number.

`Machine.Reachable.in_bounds` says what is in the registers, on the stack, in the memory, on the
screen, in the timers and in the queue of the keyboard of such a machine.
-/

namespace Chip8

namespace Surroundings

variable {κ τ : Type} [Clock κ τ] {s : Surroundings κ}

theorem occur_bounded (h : s.timers.Bounded) (e : Event τ) : (s.occur e).timers.Bounded := by
  cases e with
  | tick => exact h.tick
  | press | release | exit | stay | advance | toggleDetails => exact h

theorem deliver_bounded (h : s.timers.Bounded) (events : List (Event τ)) :
    (s.deliver events).timers.Bounded := by
  induction events generalizing s with
  | nil => exact h
  | cons e events ih => exact ih (occur_bounded h e)

theorem waitForKey_bounded (h : s.timers.Bounded) (a : Attendant τ) :
    (s.waitForKey a).2.timers.Bounded := by
  rw [(answers_waitForKey a s).timers]
  exact deliver_bounded (s := s.freshen) h _

end Surroundings

namespace Machine

variable {κ τ : Type} [Clock κ τ] {m : Machine κ}

/-- An event happens around the machine. -/
def occur (m : Machine κ) (e : Event τ) : Machine κ := { m with around := m.around.occur e }

/-- Other surroundings take the place of those there are, but for the keyboard and the timers. -/
def settle (m : Machine κ) (s : Surroundings κ) : Machine κ :=
  { m with around := { s with keyboard := m.around.keyboard, timers := m.around.timers } }

/-- A picture is taken of the screen. -/
def photographed (m : Machine κ) : Machine κ := { m with screen := m.screen.snapshot.2 }

/-- The keyboard is reset. -/
def resetKeys (m : Machine κ) : Machine κ :=
  { m with around := { m.around with keyboard := m.around.keyboard.reset } }

/-- The machine was switched on and used since then. -/
inductive Reachable : Machine κ → Prop where
  | boot {program : Array UInt8} {random : RandomBytes} {clock : κ} {journal : Journal}
      {m : Machine κ} (h : boot Store.standardSize program random { clock, journal } = .ok m) :
      Reachable m
  | step {m : Machine κ} (a : Attendant τ) : Reachable m → Reachable (m.step a).1
  | occur {m : Machine κ} (e : Event τ) : Reachable m → Reachable (m.occur e)
  | settle {m : Machine κ} (s : Surroundings κ) : Reachable m → Reachable (m.settle s)
  | photographed {m : Machine κ} : Reachable m → Reachable m.photographed
  | reset {m : Machine κ} : Reachable m → Reachable m.reset
  | resetKeys {m : Machine κ} : Reachable m → Reachable m.resetKeys

/-- What holds of every machine that is being used. -/
structure Sound (m : Machine κ) : Prop extends Tidy m where
  /-- Every completed instruction was begun. -/
  counted : m.cycles ≤ m.around.keyboard.cycle
  /-- The keyboard has a history. -/
  chronicled : m.around.keyboard.Chronicled

/-! ### The program counter -/

theorem nextAddress_eq {address : Int} (h : 0 ≤ address ∧ address ≤ 0x10FE) :
    nextAddress address = address + 2 := by
  unfold nextAddress
  omega

theorem previousAddress_eq {address : Int} (h : 2 ≤ address ∧ address ≤ 0x1000) :
    previousAddress address = address - 2 := by
  unfold previousAddress
  omega

theorem Tidy.fetched_pc (h : m.Tidy) (hfetch : m.CanFetch) :
    m.fetched.pc = m.pc + 2 ∧ 2 ≤ m.fetched.pc ∧ m.fetched.pc ≤ 0x1000 := by
  have hpc : m.fetched.pc = m.pc + 2 := nextAddress_eq h.pc
  have hlow := hfetch.1
  have hhigh := hfetch.2
  rw [h.size_eq] at hhigh
  omega

/-! ### Steps -/

theorem Tidy.noted (h : m.Tidy) (i : Instruction) (op : Op) : (m.noted i op).Tidy := by
  obtain ⟨journal, hnoted⟩ := m.noted_eq i op
  rw [hnoted]
  exact { h with }

theorem Tidy.withAround (h : m.Tidy) {around : Surroundings κ} (ht : around.timers.Bounded) :
    Tidy { m with around } := { h with timers := ht }

theorem Tidy.fetched (h : m.Tidy) (hfetch : m.CanFetch) : m.fetched.Tidy := by
  have hpc := h.fetched_pc hfetch
  exact { h with pc := ⟨by omega, by omega⟩ }

theorem Sound.tidy_step (h : m.Sound) (a : Attendant τ) : (m.step a).1.Tidy := by
  have htidy : m.Tidy := h.toTidy
  have hwait := Surroundings.waitForKey_bounded (s := m.fetched.around) h.timers a
  have houtcome := m.step_outcome a
  generalize m.step a = result at houtcome
  cases houtcome with
  | unfetched => exact { htidy with }
  | unknown fetch => exact htidy.fetched fetch
  | refused fetch => exact htidy.fetched fetch
  | done fetch _ _ execute =>
    have hafter := (htidy.fetched fetch).execute (htidy.fetched_pc fetch).2 execute
    exact { hafter.noted _ _ with }
  | @keyed key around awaits wait journal =>
    -- the key comes from the queue, which holds keys only
    have hkey : key < 16 := Surroundings.key_lt_of_waitForKey (s := m.fetched.around)
      (h.chronicled.perform .nextCycle) (congrArg Prod.fst wait)
    rw [wait] at hwait
    have hnoted : Tidy { m.fetched with around := { around with journal } } :=
      (htidy.fetched awaits.1).withAround hwait
    exact { hnoted.setReg m.nextInstruction.x (Nat.le_trans (Nat.le_of_lt hkey) (by decide)) with }
  | cancelled awaits wait =>
    rw [wait] at hwait
    have hpc := htidy.fetched_pc awaits.1
    have hback := previousAddress_eq hpc.2
    have hpc' : 0 ≤ previousAddress m.fetched.pc ∧ previousAddress m.fetched.pc ≤ 0x10FE := by
      omega
    exact { ((htidy.fetched awaits.1).withAround hwait).setPc hpc' with }
  | exhausted awaits wait =>
    rw [wait] at hwait
    exact (htidy.fetched awaits.1).withAround hwait

theorem Sound.step (h : m.Sound) (a : Attendant τ) : (m.step a).1.Sound where
  toTidy := h.tidy_step a
  counted := by
    rw [step_cycle]
    exact Nat.le_trans (step_cycles_le a m) (Nat.succ_le_succ h.counted)
  chronicled := by
    rw [keyboard_step]
    exact h.chronicled.foldl _

/-! ### What else happens to a machine -/

theorem Sound.occur (h : m.Sound) (e : Event τ) : (m.occur e).Sound where
  toTidy := { h.toTidy with timers := Surroundings.occur_bounded h.timers e }
  counted := by
    refine Nat.le_trans h.counted (Nat.le_of_eq ?_)
    cases e with
    | press key => exact (Keyboard.press_cycle key).symm
    | release key => exact (Keyboard.release_cycle key).symm
    | tick | exit | stay | advance | toggleDetails => rfl
  chronicled := by
    have hkeyboard := m.around.occur_keyboard e
    simp only [Machine.occur, hkeyboard]
    cases Keyboard.deed? e with
    | none => exact h.chronicled
    | some deed => exact h.chronicled.perform deed

theorem Sound.settle (h : m.Sound) (s : Surroundings κ) : (m.settle s).Sound :=
  { h with timers := h.timers, counted := h.counted, chronicled := h.chronicled }

theorem Sound.photographed (h : m.Sound) : m.photographed.Sound :=
  { h with extents := h.extents, screen := Screen.snapshot_binary h.screen }

theorem Sound.reset (h : m.Sound) : m.reset.Sound :=
  { h with
    registers := fun x => by simp [reg, Machine.reset]
    index := ⟨Int.le_refl 0, by simp [Machine.reset]⟩
    pc := by simp [Machine.reset, Store.programStart]
    stack := by simp [Machine.reset]
    counted := Nat.zero_le _ }

theorem Sound.resetKeys (h : m.Sound) : m.resetKeys.Sound :=
  { h with
    timers := h.timers
    counted := h.counted
    chronicled := h.chronicled.perform .reset }

/-! ### Switching on -/

theorem exists_fresh_store :
    ∃ store, Store.ofSize? Store.standardSize = .ok store ∧ store.size = Store.standardSize := by
  have hclaim : Extent.claim Store.standardSize = .ok () :=
    Extent.claim_eq_ok (by decide) (by decide)
  refine ⟨.ofSize Store.standardSize, ?_, Store.size_ofSize (by decide)⟩
  unfold Store.ofSize?
  rw [if_neg (by decide), if_neg (by decide), hclaim, Except.map, Int.toNat_natCast]

theorem boot_of_ofSize? {size : Int} {store : Store} (h : Store.ofSize? size = .ok store)
    (program : Array UInt8) (random : RandomBytes) (around : Surroundings κ) :
    boot size program random around = load { store, random, around } program := by
  rw [boot, h]
  rfl

/-- A machine that was just switched on differs from others only in its memory. -/
theorem exists_store_of_boot {size : Int} {program : Array UInt8} {random : RandomBytes}
    {around : Surroundings κ} (h : boot size program random around = .ok m) :
    ∃ store, m =
      { store, random, around := around.note (Store.loadNote program Store.programStart) } := by
  cases hstore : Store.ofSize? size with
  | error fault =>
    rw [boot, hstore] at h
    cases h
  | ok fresh =>
    rw [boot_of_ofSize? hstore] at h
    obtain ⟨store, -, rfl⟩ := map_eq_ok h
    exact ⟨store, rfl⟩

/-- Every program that fits is loaded, and the machine is about to execute its first word. -/
theorem exists_boot (program : Array UInt8)
    (h : Store.programStart + program.size ≤ Store.standardSize) (random : RandomBytes)
    (around : Surroundings κ) :
    ∃ m, boot Store.standardSize program random around = .ok m ∧ m.pc = Store.programStart ∧
      m.stack = [] ∧ m.around = around.note (Store.loadNote program Store.programStart) ∧
      ∀ i < program.size, m.store.byteAt (Store.programStart + i) = program[i]?.getD 0 := by
  obtain ⟨fresh, hfresh, hsize⟩ := exists_fresh_store
  obtain ⟨store, hload⟩ := Store.exists_load (s := fresh) (hsize ▸ h)
  refine ⟨{ store, random, around := around.note (Store.loadNote program Store.programStart) },
    ?_, rfl, rfl, rfl, fun i hi => ?_⟩
  · rw [boot_of_ofSize? hfresh]
    simp only [load, hload, Except.map]
  · rw [Store.byteAt_of_load hload, if_pos ⟨Nat.le_add_right _ _, Nat.add_lt_add_left hi _⟩,
      Nat.add_sub_cancel_left]

theorem sound_of_boot {program : Array UInt8} {random : RandomBytes} {clock : κ}
    {journal : Journal}
    (h : boot Store.standardSize program random { clock, journal } = .ok m) : m.Sound := by
  -- of the fresh memory only its size is used, so that nobody has to compute its bytes
  obtain ⟨fresh, hfresh, hfreshSize⟩ := exists_fresh_store
  rw [boot_of_ofSize? hfresh] at h
  obtain ⟨store, hload, rfl⟩ := map_eq_ok h
  have hsize : store.size = Store.standardSize := (Store.size_of_load hload).trans hfreshSize
  exact {
    registers := fun x => by simp [reg]
    index := ⟨Int.le_refl 0, by simp⟩
    pc := by simp [Store.programStart]
    stack := by simp
    store := hsize
    extents := ⟨rfl, rfl⟩
    screen := Screen.blank_binary _ _
    timers := ⟨Nat.zero_le _, Nat.zero_le _⟩
    counted := Nat.zero_le _
    chronicled := Keyboard.chronicled_empty }

/-- The memory has its usual size and holds a program at the usual place. -/
structure Holds (program : Array UInt8) (m : Machine κ) : Prop where
  /-- The memory has its usual size. -/
  size : m.store.size = Store.standardSize
  /-- The bytes of the program are where programs are loaded to. -/
  bytes : ∀ i < program.size, m.store.byteAt (Store.programStart + i) = program[i]?.getD 0

section Holds

variable {program : Array UInt8} {after : Machine κ}

theorem Holds.of_store_eq (h : m.Holds program) (hstore : after.store = m.store) :
    after.Holds program where
  size := hstore ▸ h.size
  bytes := hstore ▸ h.bytes

theorem Holds.canFetch (h : m.Holds program) (i : Nat)
    (hpc : m.pc = (Store.programStart + i : Nat))
    (hi : Store.programStart + i + 2 ≤ Store.standardSize) : m.CanFetch := by
  rw [CanFetch, hpc, h.size]
  omega

theorem Holds.nextInstruction (h : m.Holds program) (i : Nat)
    (hpc : m.pc = (Store.programStart + i : Nat)) (hi : i + 1 < program.size) :
    m.nextInstruction =
      .decode (0x100 * (program[i]?.getD 0).toNat + (program[i + 1]?.getD 0).toNat : Nat) := by
  have hhigh := h.bytes i (Nat.lt_of_succ_lt hi)
  have hlow := h.bytes (i + 1) hi
  rw [Machine.nextInstruction, nextWord, hpc, Int.toNat_natCast, Nat.add_assoc, hhigh, hlow]

theorem Holds.readBlock (h : m.Holds program) (hsize : 0 < program.size) :
    m.store.readBlock Store.programStart (1 : Nat) = .ok #[program[0]] := by
  obtain ⟨block, hblock⟩ : ∃ block, m.store.readBlock Store.programStart (1 : Nat) = .ok block :=
    Store.exists_readBlock (by decide) (by rw [h.size]; decide)
  have hbyte : block.getD 0 0 = program[0] := by
    rw [(Store.getD_of_readBlock hblock).2 0 Nat.one_pos]
    refine (h.bytes 0 hsize).trans ?_
    rw [Array.getElem?_eq_getElem hsize, Option.getD_some]
  obtain ⟨byte, rfl⟩ := Array.size_eq_one_iff.1 (Store.size_of_readBlock hblock)
  obtain rfl : byte = program[0] := hbyte
  exact hblock

theorem exists_holds (program : Array UInt8)
    (h : Store.programStart + program.size ≤ Store.standardSize) (clock : κ) :
    ∃ (m : Machine κ) (journal : Journal),
      boot Store.standardSize program (.cycling #[]) { clock } = .ok m ∧ m.Holds program ∧
        m.pc = Store.programStart ∧ m.around = { clock, journal } := by
  obtain ⟨m, hboot, hpc, -, haround, hbytes⟩ := exists_boot program h (.cycling #[]) { clock }
  exact ⟨m, _, hboot, ⟨(sound_of_boot hboot).store, hbytes⟩, hpc, haround⟩

end Holds

theorem Reachable.sound (h : m.Reachable) : m.Sound := by
  induction h with
  | boot h => exact sound_of_boot h
  | step a _ ih => exact ih.step a
  | occur e _ ih => exact ih.occur e
  | settle s _ ih => exact ih.settle s
  | photographed _ ih => exact ih.photographed
  | reset _ ih => exact ih.reset
  | resetKeys _ ih => exact ih.resetKeys

/-- **What a machine that is being used holds is in bounds**: its sixteen registers and its
timers hold bytes, its index register twelve bits; the program counter gets no farther than a jump
with an offset takes it, so that its masks never change it; return addresses lie behind a call; the
memory keeps its size, the screen its extents, and pixels are nought or one; no more instructions
were completed than begun; and at most sixteen key-downs of the sixteen keys wait. -/
theorem Reachable.in_bounds (h : m.Reachable) :
    (m.registers.toArray.size = 16 ∧ ∀ x, m.reg x ≤ 255) ∧
    (0 ≤ m.index ∧ m.index ≤ 0xFFF) ∧
    (0 ≤ m.pc ∧ m.pc ≤ 0x10FE) ∧
    (∀ address ∈ m.stack, 2 ≤ address ∧ address ≤ 0x1000) ∧
    (m.store.bytes.size = 4096 ∧ ∀ b ∈ m.store.bytes, b.toNat ≤ 255) ∧
    (m.screen.width = 64 ∧ m.screen.height = 32 ∧ m.screen.pixels.size = 64 * 32 ∧
      ∀ v ∈ m.screen.pixels, v = 0 ∨ v = 1) ∧
    (m.around.timers.delay.value ≤ 255 ∧ m.around.timers.sound.value ≤ 255) ∧
    m.cycles ≤ m.around.keyboard.cycle ∧
    (m.around.keyboard.downs.length ≤ 16 ∧ ∀ d ∈ m.around.keyboard.downs, d.key < 16) ∧
    (nextAddress m.pc = m.pc + 2 ∧ nextAddress (nextAddress m.pc) = m.pc + 4 ∧
      previousAddress (nextAddress m.pc) = m.pc) := by
  have hsound := h.sound
  have hpixels : m.screen.pixels.size = 64 * 32 := by
    rw [hsound.screen.size, hsound.extents.1, hsound.extents.2]
    rfl
  have hpc := hsound.pc
  refine ⟨⟨m.registers.size_toArray, hsound.registers⟩, hsound.index, hpc, hsound.stack,
    ⟨hsound.store, fun b _ => byte_toNat_le b⟩,
    ⟨hsound.extents.1, hsound.extents.2, hpixels, hsound.screen.bit⟩, hsound.timers,
    hsound.counted, ⟨hsound.chronicled.length_le, fun d hd => hsound.chronicled.key_lt hd⟩, ?_⟩
  unfold nextAddress previousAddress
  omega

/-- After its first step, a machine with a jump to an offset is where the bounds allow. -/
theorem jump_in_bounds :
    ∃ m : Machine (VirtualClock Int),
      boot Store.standardSize #[0xBF, 0xFF] (.cycling #[]) { clock := ⟨0, 0, 0⟩ } = .ok m ∧
      (m.step ⟨⟨fun _ => [], fun _ => []⟩, true, true, 1, 0⟩).1.pc ≤ 0x10FE := by
  obtain ⟨m, hboot, -⟩ := exists_boot #[0xBF, 0xFF] (by decide) (.cycling #[])
    ({ clock := ⟨0, 0, 0⟩ } : Surroundings (VirtualClock Int))
  exact ⟨m, hboot, (Reachable.in_bounds (.step _ (.boot hboot))).2.2.1.2⟩

end Machine

end Chip8

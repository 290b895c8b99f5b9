import Chip8.Proofs.Machine.Reach

/-!
# What each instruction touches

Every operation has its own registers (`Instruction.writes`), and the parts of the machine beside
them are each the business of a few operations: an operation is *confined* to what is its business
(`Machine.execute_confined`), and what it writes to the memory is what it is for
(`Machine.receives_of_storeDecimal`, `Machine.receives_of_dump`).

During a step nothing else changes the machine, but for the events that arrive while it waits for
a key.  So each part of the machine is after the step what these events have made of it, unless it
is the business of the instruction (`Machine.Reachable.step_touches`).
-/

namespace Chip8

/-- The registers that an operation may write. -/
def Instruction.writes (i : Instruction) (op : Op) (r : Fin 16) : Bool :=
  match op with
  | .setByte | .addByte | .copy | .or | .and | .xor | .random | .readDelay | .awaitKey => r = i.x
  | .add | .subtract | .shiftRight | .subtractFrom | .shiftLeft => r = i.x ∨ r = Machine.flag
  | .draw | .addIndex => r = Machine.flag
  | .load => r ≤ i.x
  | _ => false

/-! ### What events do to timers and held keys -/

theorem Keyboard.held_press {k l : Keyboard} (h : k.held = l.held) (key : Int) :
    (k.press key).held = (l.press key).held := by
  unfold press
  split <;> simp [h]

theorem Keyboard.held_release {k l : Keyboard} (h : k.held = l.held) (key : Int) :
    (k.release key).held = (l.release key).held := by
  unfold release
  split <;> simp [h]

namespace Surroundings

variable {κ τ : Type} [Clock κ τ] {s t : Surroundings κ}

/-- The same keys are held, and the timers are the same. -/
def Matches (s t : Surroundings κ) : Prop :=
  s.keyboard.held = t.keyboard.held ∧ s.timers = t.timers

theorem Matches.occur (h : s.Matches t) (e : Event τ) : (s.occur e).Matches (t.occur e) := by
  obtain ⟨hheld, htimers⟩ := h
  cases e with
  | press key => exact ⟨Keyboard.held_press hheld key, htimers⟩
  | release key => exact ⟨Keyboard.held_release hheld key, htimers⟩
  | tick => exact ⟨hheld, congrArg Countdown.tick htimers⟩
  | exit | stay | advance | toggleDetails => exact ⟨hheld, htimers⟩

theorem Matches.deliver (h : s.Matches t) (events : List (Event τ)) :
    (s.deliver events).Matches (t.deliver events) := by
  induction events generalizing s t with
  | nil => exact h
  | cons e events ih => exact ih (h.occur e)

/-- Its queue apart, a key wait does what the events that arrive in its course do. -/
theorem waitForKey_matches (a : Attendant τ) (s : Surroundings κ) :
    (s.waitForKey a).2.Matches (s.deliver (s.eventsOfWait a)) := by
  have hfresh : (s.freshen.deliver (s.eventsOfWait a)).Matches (s.deliver (s.eventsOfWait a)) :=
    Matches.deliver (s := s.freshen) (t := s) ⟨rfl, rfl⟩ _
  have hanswers := answers_waitForKey a s
  generalize (s.waitForKey a).1 = result at hanswers
  cases hanswers with
  | key _ alike => exact ⟨(congrArg _ alike.keyboard).trans hfresh.1, alike.timers.trans hfresh.2⟩
  | cancelled _ _ alike =>
    exact ⟨(congrArg _ alike.keyboard).trans hfresh.1, alike.timers.trans hfresh.2⟩
  | exhausted _ alike =>
    exact ⟨(congrArg _ alike.keyboard).trans hfresh.1, alike.timers.trans hfresh.2⟩

end Surroundings

namespace Machine

variable {κ τ : Type} {m after : Machine κ} {i : Instruction} {op : Op}

/-! ### Operations -/

/-- An operation leaves alone what is not its business. -/
structure Confined (i : Instruction) (op : Op) (m after : Machine κ) : Prop where
  /-- It writes its own registers only. -/
  registers : ∀ r, i.writes op r = false → after.reg r = m.reg r
  /-- The index register is the business of three operations. -/
  index : op ∉ [.setIndex, .addIndex, .glyph] → after.index = m.index
  /-- The memory is that of two. -/
  store : op ∉ [.storeDecimal, .dump] → after.store = m.store
  /-- One operation draws a random byte, and only one. -/
  random : after.random = if op = .random then m.random.draw.2 else m.random
  /-- One operation sets the delay timer. -/
  delay : op ≠ .setDelay → after.around.timers.delay = m.around.timers.delay
  /-- One operation sets the sound timer. -/
  sound : op ≠ .setSound → after.around.timers.sound = m.around.timers.sound

theorem reg_setReg_of_ne {x r : Fin 16} (h : r ≠ x) (v : Nat) : (m.setReg x v).reg r = m.reg r := by
  rw [reg_setReg, if_neg h.symm]

theorem reg_setWithFlag_of_ne {x r : Fin 16} (hx : r ≠ x) (hf : r ≠ flag) (v : Nat) (f : Bool) :
    (m.setWithFlag x v f).reg r = m.reg r := by
  rw [setWithFlag, reg_setReg_of_ne hf, reg_setReg_of_ne hx]

theorem reg_loadRegisters {x r : Fin 16} (h : m.loadRegisters x = .ok after) (hr : x < r) :
    after.reg r = m.reg r := by
  obtain ⟨block, -, rfl⟩ := map_eq_ok h
  simp only [reg, Fin.getElem_fin, Vector.getElem_mapFinIdx]
  exact if_neg (Fin.not_le.2 hr)

/-- **An operation is confined to what is its business.** -/
theorem execute_confined (h : m.execute i op = .ok after) : Confined i op m after := by
  -- first the operations that write registers, by which registers they write
  cases op
  case setByte | addByte | copy | or | and | xor | readDelay =>
    cases h
    refine ⟨fun r hr => ?_, fun _ => rfl, fun _ => rfl, rfl, fun _ => rfl, fun _ => rfl⟩
    exact reg_setReg_of_ne (by simpa [Instruction.writes] using hr) _
  case random =>
    cases h
    refine ⟨fun r hr => ?_, fun _ => rfl, fun _ => rfl, rfl, fun _ => rfl, fun _ => rfl⟩
    exact reg_setReg_of_ne (m := { m with random := m.random.draw.2 })
      (by simpa [Instruction.writes] using hr) _
  case add | subtract | shiftRight | subtractFrom | shiftLeft =>
    cases h
    refine ⟨fun r hr => ?_, fun _ => rfl, fun _ => rfl, rfl, fun _ => rfl, fun _ => rfl⟩
    simp only [Instruction.writes, decide_eq_false_iff_not, not_or] at hr
    exact reg_setWithFlag_of_ne hr.1 hr.2 _ _
  case draw =>
    obtain ⟨⟨screen, off⟩, -, rfl⟩ := map_eq_ok h
    refine ⟨fun r hr => ?_, fun _ => rfl, fun _ => rfl, rfl, fun _ => rfl, fun _ => rfl⟩
    exact reg_setReg_of_ne (m := { m with screen }) (by simpa [Instruction.writes] using hr) _
  case addIndex =>
    cases h
    refine ⟨fun r hr => ?_, fun hop => absurd hop (by decide), fun _ => rfl, rfl, fun _ => rfl,
      fun _ => rfl⟩
    exact reg_setReg_of_ne (m := { m with index := _ }) (by simpa [Instruction.writes] using hr) _
  case load =>
    have hregisters : ∀ r, i.writes .load r = false → after.reg r = m.reg r := by
      intro r hr
      exact reg_loadRegisters h (by simpa [Instruction.writes] using hr)
    obtain ⟨_, -, rfl⟩ := map_eq_ok h
    exact ⟨hregisters, fun _ => rfl, fun _ => rfl, rfl, fun _ => rfl, fun _ => rfl⟩
  case storeDecimal | dump =>
    obtain ⟨_, -, rfl⟩ := map_eq_ok h
    exact ⟨fun _ _ => rfl, fun _ => rfl, fun hop => absurd hop (by decide), rfl, fun _ => rfl,
      fun _ => rfl⟩
  case setIndex | glyph =>
    cases h
    exact ⟨fun _ _ => rfl, fun hop => absurd hop (by decide), fun _ => rfl, rfl, fun _ => rfl,
      fun _ => rfl⟩
  case setDelay =>
    cases h
    exact ⟨fun _ _ => rfl, fun _ => rfl, fun _ => rfl, rfl, fun hop => absurd rfl hop,
      fun _ => rfl⟩
  case setSound =>
    cases h
    exact ⟨fun _ _ => rfl, fun _ => rfl, fun _ => rfl, rfl, fun _ => rfl,
      fun hop => absurd rfl hop⟩
  case leave =>
    simp only [execute, leave] at h
    split at h
    · cases h
    · cases h
      exact ⟨fun _ _ => rfl, fun _ => rfl, fun _ => rfl, rfl, fun _ => rfl, fun _ => rfl⟩
  case skipIfByte | skipUnlessByte | skipIfEqual | skipUnlessEqual | skipIfPressed |
      skipUnlessPressed =>
    simp only [execute, skipIf_eq] at h
    cases h
    exact ⟨fun _ _ => rfl, fun _ => rfl, fun _ => rfl, rfl, fun _ => rfl, fun _ => rfl⟩
  all_goals
    cases h
    exact ⟨fun _ _ => rfl, fun _ => rfl, fun _ => rfl, rfl, fun _ => rfl, fun _ => rfl⟩

/-! ### What goes to the memory -/

theorem receives_of_storeAtIndex {values : List Nat} (hbytes : ∀ v ∈ values, v ≤ 0xFF)
    (h : m.storeAtIndex (values.toArray.map Int.ofNat) = .ok after) :
    m.store.Receives m.index values after.store := by
  obtain ⟨store, hwrite, rfl⟩ := map_eq_ok h
  exact Store.receives_of_writeBlock hbytes hwrite

theorem receives_of_storeDecimal (hm : m.Tidy) (h : m.execute i .storeDecimal = .ok after) :
    ∃ d₂ d₁ d₀, (d₂ ≤ 9 ∧ d₁ ≤ 9 ∧ d₀ ≤ 9) ∧ 100 * d₂ + 10 * d₁ + d₀ = m.reg i.x ∧
      m.store.Receives m.index [d₂, d₁, d₀] after.store := by
  have hx := hm.registers i.x
  refine ⟨m.reg i.x / 100, m.reg i.x / 10 % 10, m.reg i.x % 10, by omega, by omega, ?_⟩
  refine receives_of_storeAtIndex ?_ ?_
  · simp only [List.mem_cons, List.not_mem_nil, or_false, forall_eq_or_imp, forall_eq]
    omega
  · rw [List.map_toArray]
    exact h

theorem receives_of_dump (hm : m.Tidy) (h : m.execute i .dump = .ok after) :
    m.store.Receives m.index (m.registers.toList.take (i.x + 1)) after.store := by
  refine receives_of_storeAtIndex ?_ ?_
  · intro v hv
    obtain ⟨r, hr, rfl⟩ := List.mem_iff_getElem.1 (List.mem_of_mem_take hv)
    exact hm.registers ⟨r, by simpa using hr⟩
  · have hvalues : ((m.registers.toList.take (i.x + 1)).toArray).map Int.ofNat =
        m.registersTo i.x := by
      simp [registersTo, Array.ext_iff]
    rw [hvalues]
    exact h

/-! ### Steps -/

variable [Clock κ τ]

theorem exists_execute (hs : m.screen.isEmpty = false) {length : Nat}
    (hreach : i.reach? op = some length) (hcheck : m.store.check m.index length = .ok ()) :
    ∃ after, m.execute i op = .ok after := by
  cases hexecute : m.execute i op with
  | ok after => exact ⟨after, rfl⟩
  | error fault =>
    rw [execute_error_iff_of_reach? hs hreach, hcheck] at hexecute
    cases hexecute

theorem step_setByte (a : Attendant τ) (hfetch : m.CanFetch)
    (hop : m.nextInstruction.op = some .setByte) :
    (∀ r, (m.step a).1.reg r =
      if m.nextInstruction.x = r then m.nextInstruction.kk else m.reg r) ∧
      (m.step a).1.pc = nextAddress m.pc ∧ (m.step a).1.index = m.index ∧
      (m.step a).1.store = m.store := by
  obtain ⟨journal, hnoted⟩ := noted_eq
    (m.fetched.setReg m.nextInstruction.x m.nextInstruction.kk) m.nextInstruction .setByte
  rw [step_of_execute_ok a hfetch hop (by decide) rfl, hnoted]
  exact ⟨fun r => reg_setReg _ r _, rfl, rfl, rfl⟩

/-- The events that arrive in the course of a step. -/
def stepEvents (a : Attendant τ) (m : Machine κ) : List (Event τ) :=
  if m.AwaitsKey then m.fetched.around.eventsOfWait a else []

/-- What a completed step leaves alone, and what it writes to the memory, if these events arrived
in its course. -/
structure Touches (i : Instruction) (op : Op) (events : List (Event τ)) (m after : Machine κ) :
    Prop where
  /-- An instruction writes its own registers only. -/
  registers : ∀ r, i.writes op r = false → after.reg r = m.reg r
  /-- The index register is the business of three operations. -/
  index : op ∉ [.setIndex, .addIndex, .glyph] → after.index = m.index
  /-- The memory is that of two. -/
  store : op ∉ [.storeDecimal, .dump] → after.store = m.store
  /-- One of them writes the decimal digits of a register, -/
  decimal : op = .storeDecimal →
    ∃ d₂ d₁ d₀, (d₂ ≤ 9 ∧ d₁ ≤ 9 ∧ d₀ ≤ 9) ∧ 100 * d₂ + 10 * d₁ + d₀ = m.reg i.x ∧
      m.store.Receives m.index [d₂, d₁, d₀] after.store
  /-- and the other one the registers up to `Vx`. -/
  dump : op = .dump →
    m.store.Receives m.index (m.registers.toList.take (i.x + 1)) after.store
  /-- The screen is for clearing and drawing. -/
  screen : op ∉ [.clearScreen, .draw] → after.screen = m.screen
  /-- The stack is for calls and returns. -/
  stack : op ∉ [.call, .leave] → after.stack = m.stack
  /-- But for the events, one operation sets the delay timer, -/
  delay : op ≠ .setDelay →
    after.around.timers.delay = (m.around.deliver events).timers.delay
  /-- and one the sound timer. -/
  sound : op ≠ .setSound →
    after.around.timers.sound = (m.around.deliver events).timers.sound
  /-- The queue of key-downs is for key waits. -/
  downs : op ≠ .awaitKey → after.around.keyboard.downs = m.around.keyboard.downs
  /-- But for the events, the same keys are held. -/
  held : after.around.keyboard.held = (m.around.deliver events).keyboard.held
  /-- One operation draws a random byte, and only one. -/
  random : after.random.byteAt = m.random.byteAt ∧
    after.random.drawn = m.random.drawn + if op = .random then 1 else 0
  /-- One instruction was completed. -/
  cycles : after.cycles = m.cycles + 1
  /-- One cycle was begun. -/
  cycle : after.around.keyboard.cycle = m.around.keyboard.cycle + 1

/-- An operation that is done touches its business, and no events arrive meanwhile. -/
theorem touches_of_execute (hm : m.Tidy) (hfetch : m.CanFetch) (hother : op ≠ .awaitKey)
    (h : m.fetched.execute i op = .ok after) :
    Touches i op ([] : List (Event τ)) m (after.noted i op).completed := by
  have hspares := execute_spares h
  have hconfined := execute_confined h
  obtain ⟨timers, haround⟩ := hspares.around
  obtain ⟨journal, hnoted⟩ := after.noted_eq i op
  have hkeyboard : (after.around.keyboard.held = m.around.keyboard.held ∧
      after.around.keyboard.downs = m.around.keyboard.downs) ∧
      after.around.keyboard.cycle = m.around.keyboard.cycle + 1 := by
    rw [haround]
    exact ⟨⟨rfl, rfl⟩, rfl⟩
  rw [hnoted]
  constructor
  case registers => exact hconfined.registers
  case index => exact hconfined.index
  case store => exact hconfined.store
  case decimal =>
    rintro rfl
    have hreceived := receives_of_storeDecimal (hm.fetched hfetch) h
    exact hreceived
  case dump =>
    rintro rfl
    have hreceived := receives_of_dump (hm.fetched hfetch) h
    exact hreceived
  case screen =>
    intro hop
    simp only [List.mem_cons, List.not_mem_nil, or_false, not_or] at hop
    exact hspares.screen hop.1 hop.2
  case stack =>
    intro hop
    simp only [List.mem_cons, List.not_mem_nil, or_false, not_or] at hop
    exact hspares.stack hop.1 hop.2
  case delay => exact hconfined.delay
  case sound => exact hconfined.sound
  case downs => exact fun _ => hkeyboard.1.2
  case held => exact hkeyboard.1.1
  case random =>
    have hrandom := hconfined.random
    by_cases hop : op = .random
    · rw [if_pos hop] at hrandom
      rw [if_pos hop, completed, hrandom]
      exact ⟨rfl, rfl⟩
    · rw [if_neg hop] at hrandom
      rw [if_neg hop, completed, hrandom]
      exact ⟨rfl, rfl⟩
  case cycles => exact congrArg (· + 1) hspares.cycles
  case cycle => exact hkeyboard.2

/-- A key wait touches the register it is for, and the events that arrive in its course do the
rest. -/
theorem touches_of_wait (a : Attendant τ) (hawaits : m.AwaitsKey) {i : Instruction}
    (hstep : (m.step a).2 = .ok i) :
    Touches i .awaitKey (m.stepEvents a) m (m.step a).1 := by
  have hcycle := step_cycle a m
  have hmatches := Surroundings.waitForKey_matches a m.fetched.around
  have hstart : m.fetched.around.Matches m.around := ⟨rfl, rfl⟩
  have hevents := hmatches.2.trans (hstart.deliver (m.fetched.around.eventsOfWait a)).2
  have hheld := hmatches.1.trans (hstart.deliver (m.fetched.around.eventsOfWait a)).1
  rw [stepEvents, if_pos hawaits]
  have houtcome := m.step_outcome a
  generalize m.step a = result at houtcome hstep hcycle
  cases houtcome with
  | unfetched | unknown | refused | exhausted => cases hstep
  | done _ op_eq other => exact absurd (Option.some.inj (op_eq.symm.trans hawaits.2)) other
  | keyed _ wait journal =>
    cases hstep
    rw [wait] at hevents hheld
    refine ⟨fun r hr => ?_, fun _ => rfl, fun _ => rfl, nofun, nofun, fun _ => rfl, fun _ => rfl,
      fun _ => congrArg _ hevents, fun _ => congrArg _ hevents, fun hop => absurd rfl hop, hheld,
      ⟨rfl, rfl⟩, rfl, hcycle⟩
    exact reg_setReg_of_ne (m := { m.fetched with around := _ })
      (by simpa [Instruction.writes] using hr) _
  | cancelled _ wait =>
    cases hstep
    rw [wait] at hevents hheld
    exact ⟨fun _ _ => rfl, fun _ => rfl, fun _ => rfl, nofun, nofun, fun _ => rfl, fun _ => rfl,
      fun _ => congrArg _ hevents, fun _ => congrArg _ hevents, fun hop => absurd rfl hop, hheld,
      ⟨rfl, rfl⟩, rfl, hcycle⟩

/-- **Each instruction touches only its own state.**  A step that is completed has executed the
instruction at the program counter, and it leaves alone whatever is not the business of this
instruction.  Events arrive in its course only if it waits for a key, and what they do to the timers
and the held keys is all that happens to these beside. -/
theorem Reachable.step_touches (h : m.Reachable) (a : Attendant τ) {i : Instruction}
    (hstep : (m.step a).2 = .ok i) :
    i = m.nextInstruction ∧ i.word = m.nextWord ∧ ∃ op, i.op = some op ∧
      (op ≠ .awaitKey → m.stepEvents a = []) ∧ Touches i op (m.stepEvents a) m (m.step a).1 := by
  by_cases hawaits : m.AwaitsKey
  · have htouches := touches_of_wait a hawaits hstep
    obtain rfl : i = m.nextInstruction := by
      have houtcome := m.step_outcome a
      generalize m.step a = result at houtcome hstep
      cases houtcome <;> cases hstep <;> rfl
    exact ⟨rfl, nextInstruction_word m, .awaitKey, hawaits.2, fun hop => absurd rfl hop, htouches⟩
  · have hnone : m.stepEvents a = [] := if_neg hawaits
    have houtcome := m.step_outcome a
    rw [hnone]
    generalize m.step a = result at houtcome hstep
    cases houtcome with
    | unfetched | unknown | refused | exhausted => cases hstep
    | keyed awaits => exact absurd awaits hawaits
    | cancelled awaits => exact absurd awaits hawaits
    | @done op after fetch op_eq other execute =>
      cases hstep
      exact ⟨rfl, nextInstruction_word m, op, op_eq, fun _ => rfl,
        touches_of_execute h.sound.toTidy fetch other execute⟩

/-- A program that puts 254 into a register and stores its digits stores 2, 5 and 4. -/
theorem digits_touched :
    ∃ m : Machine (VirtualClock Int), m.Reachable ∧ m.reg 0 = 254 ∧ ∀ a : Attendant Int,
      ∃ i, (m.step a).2 = .ok i ∧ (m.step a).1.reg 0 = 254 ∧
        (m.step a).1.store.byteAt 0 = 2 ∧ (m.step a).1.store.byteAt 1 = 5 ∧
        (m.step a).1.store.byteAt 2 = 4 := by
  obtain ⟨start, journal, hboot, hholds, hpc, -⟩ :=
    exists_holds #[0x60, 0xFE, 0xF0, 0x33] (by decide) (⟨0, 0, 0⟩ : VirtualClock Int)
  have hindex : start.index = 0 := by
    obtain ⟨store, rfl⟩ := exists_store_of_boot hboot
    rfl
  -- the first instruction
  have hfirst : start.nextInstruction = .decode 0x60FE := hholds.nextInstruction 0 hpc (by decide)
  have hop : start.nextInstruction.op = some .setByte := by rw [hfirst]; decide
  let idle : Attendant Int := { feed := { atPoll := fun _ => [] }, interval := 1, patience := 0 }
  obtain ⟨hregisters, hpc', hindex', hstore⟩ :=
    step_setByte idle (hholds.canFetch 0 hpc (by decide)) hop
  have hholds' : (start.step idle).1.Holds _ := hholds.of_store_eq hstore
  have hreachable : (start.step idle).1.Reachable := .step idle (.boot hboot)
  generalize (start.step idle).1 = m at *
  have hreg : m.reg 0 = 254 := by
    rw [hregisters, hfirst, if_pos (by decide)]
    decide
  rw [hpc] at hpc'
  -- the second instruction
  have hsecond : m.nextInstruction = .decode 0xF033 := hholds'.nextInstruction 2 hpc' (by decide)
  have hfetch : m.CanFetch := hholds'.canFetch 2 hpc' (by decide)
  have hop' : m.nextInstruction.op = some .storeDecimal := by rw [hsecond]; decide
  refine ⟨m, hreachable, hreg, fun a => ⟨m.nextInstruction, ?_⟩⟩
  have hcheck : m.fetched.store.check m.fetched.index (3 : Nat) = .ok () := by
    have hinside : 0 ≤ m.index ∧ m.index + 3 ≤ m.store.size := by
      rw [hindex', hindex, hholds'.size]
      decide
    exact Store.check_eq_ok_iff.2 hinside
  have htidy := hreachable.sound.toTidy.fetched hfetch
  obtain ⟨after, hexecute⟩ := exists_execute (i := m.nextInstruction) htidy.not_isEmpty
    (show m.nextInstruction.reach? .storeDecimal = some 3 from rfl) hcheck
  have hdone : (m.step a).2 = .ok m.nextInstruction :=
    congrArg Prod.snd (step_of_execute_ok a hfetch hop' (by decide) hexecute)
  obtain ⟨-, -, op, hop'', -, htouches⟩ := hreachable.step_touches a hdone
  obtain rfl : op = .storeDecimal := Option.some.inj (hop''.symm.trans hop')
  obtain ⟨d₂, d₁, d₀, ⟨h₂, h₁, h₀⟩, hsum, hreceives⟩ := htouches.decimal rfl
  have hreceived := hreceives.received
  rw [hsecond] at hsum htouches
  rw [show (Instruction.decode 0xF033).x = 0 by decide, hreg] at hsum
  rw [hindex', hindex] at hreceived
  obtain ⟨rfl, rfl, rfl⟩ : d₂ = 2 ∧ d₁ = 5 ∧ d₀ = 4 := by omega
  refine ⟨hdone, (htouches.registers 0 rfl).trans hreg, ?_⟩
  simp only [← UInt8.toNat_inj]
  exact ⟨hreceived 0 2 rfl, hreceived 1 5 rfl, hreceived 2 4 rfl⟩

end Machine

end Chip8

import Chip8.Proofs.Machine.Step

/-!
# Veils

Much of what happens around a program is nothing to it: what time it is, what the journal says,
perhaps where the timers stand.  A `Veil` hides such a part.  It is *thin* (`Veil.Thin`) if every
event is seen through it as an event, or not seen at all.

A key wait goes the same way behind a thin veil, where only the visible events arrive
(`Surroundings.veiled_waitRounds`).  So does a step, unless it uses the timers and they are hidden
(`Machine.veiled_step`).
-/

namespace Chip8

/-- The operation reads a timer or sets one. -/
def Op.usesTimers : Op → Bool
  | .readDelay | .setDelay | .setSound => true
  | _ => false

/-- The next instruction reads a timer or sets one. -/
def Machine.UsesTimers {κ : Type} (m : Machine κ) : Prop :=
  m.CanFetch ∧ ∃ op, m.nextInstruction.op = some op ∧ op.usesTimers = true

/-- A veil: what is still to be seen of the surroundings and the screen of a machine.  The keys,
the wish to leave and the counts are always seen as they are. -/
structure Veil (κ κ' τ τ' : Type) where
  /-- The timers as they are seen. -/
  timers : Countdown → Countdown
  /-- The clock as it is seen. -/
  clock : κ → κ'
  /-- A duration as it is seen. -/
  duration : τ → τ'
  /-- The journal as it is seen. -/
  journal : Journal → Journal
  /-- The screen as it is seen. -/
  screen : Screen → Screen
  /-- An event as it is seen, if it is. -/
  event : Event τ → Option (Event τ')

variable {κ κ' τ τ' : Type}

/-- The events of a feed that are seen. -/
def Feed.veiled (v : Veil κ κ' τ τ') (f : Feed τ) : Feed τ' where
  atPoll n := (f.atPoll n).filterMap v.event
  atNap n := (f.atNap n).filterMap v.event

/-- An attendant behind a veil. -/
def Attendant.veiled (v : Veil κ κ' τ τ') (a : Attendant τ) : Attendant τ' where
  feed := a.feed.veiled v
  polled := a.polled
  heeded := a.heeded
  interval := v.duration a.interval
  patience := a.patience

/-- Surroundings behind a veil. -/
def Surroundings.veiled (v : Veil κ κ' τ τ') (s : Surroundings κ) : Surroundings κ' where
  keyboard := s.keyboard
  timers := v.timers s.timers
  clock := v.clock s.clock
  exitRequested := s.exitRequested
  polls := s.polls
  checks := s.checks
  naps := s.naps
  journal := v.journal s.journal

/-- A machine behind a veil. -/
def Machine.veiled (v : Veil κ κ' τ τ') (m : Machine κ) : Machine κ' where
  registers := m.registers
  index := m.index
  pc := m.pc
  stack := m.stack
  cycles := m.cycles
  store := m.store
  screen := v.screen m.screen
  random := m.random
  around := m.around.veiled v

variable [Clock κ τ] [Clock κ' τ']

/-- What is hidden by the veil has no effect on what is to be seen. -/
structure Veil.Thin (v : Veil κ κ' τ τ') : Prop where
  /-- An event has its effect behind the veil as well, or none at all. -/
  occur : ∀ (s : Surroundings κ) (e : Event τ),
    (s.occur e).veiled v = (v.event e).elim (s.veiled v) (s.veiled v).occur
  /-- Time passes. -/
  pass : ∀ (t : τ) (c : κ), v.clock (Clock.pass t c) = Clock.pass (v.duration t) (v.clock c)
  /-- The screen is cleared, -/
  clear : ∀ s : Screen, v.screen s.clear = (v.screen s).clear
  /-- and sprites are drawn. -/
  draw : ∀ (m : Machine κ) (x y : Fin 16) (n : Nat),
    (m.veiled v).drawSprite x y n = (m.drawSprite x y n).map (Machine.veiled v)
  /-- Instructions are noted as the machine behind the veil would note them. -/
  noted : ∀ (m : Machine κ) (i : Instruction) (op : Op),
    (m.noted i op).veiled v = (m.veiled v).noted i op

namespace Surroundings

variable {v : Veil κ κ' τ τ'}

/-! ### Key waits -/

theorem veiled_deliver (hv : v.Thin) (s : Surroundings κ) (events : List (Event τ)) :
    (s.deliver events).veiled v = (s.veiled v).deliver (events.filterMap v.event) := by
  induction events generalizing s with
  | nil => rfl
  | cons e events ih =>
    have hrest := ih (s.occur e)
    rw [hv.occur] at hrest
    rw [List.filterMap_cons]
    cases he : v.event e with
    | none => rwa [he] at hrest
    | some seen => rwa [he] at hrest

theorem veiled_poll (hv : v.Thin) (feed : Feed τ) (s : Surroundings κ) :
    (s.poll feed).veiled v = (s.veiled v).poll (feed.veiled v) :=
  veiled_deliver hv _ _

theorem veiled_sleep (hv : v.Thin) (interval : τ) (s : Surroundings κ) :
    (s.sleep interval).veiled v = (s.veiled v).sleep (v.duration interval) := by
  simp only [sleep, veiled, hv.pass]

theorem veiled_nap (hv : v.Thin) (a : Attendant τ) (s : Surroundings κ) :
    (s.nap a.feed a.interval).veiled v =
      (s.veiled v).nap (a.veiled v).feed (a.veiled v).interval := by
  have hsleep := veiled_sleep hv a.interval s
  unfold nap
  rw [veiled_deliver hv, hsleep]
  rfl

theorem veiled_pollFor (hv : v.Thin) (a : Attendant τ) (s : Surroundings κ) :
    (s.pollFor a).veiled v = (s.veiled v).pollFor (a.veiled v) := by
  have hpoll := veiled_poll hv a.feed s
  unfold pollFor
  by_cases hpolled : a.polled = true <;> simp [Attendant.veiled, hpolled, hpoll]

omit [Clock κ τ] [Clock κ' τ'] in
theorem veiled_takeKey? (s : Surroundings κ) :
    (s.veiled v).takeKey? = s.takeKey?.map (Prod.map id (veiled v)) := by
  cases hdowns : s.keyboard.downs <;> simp [takeKey?, Keyboard.take?, veiled, hdowns]

omit [Clock κ τ] [Clock κ' τ'] in
theorem veiled_askFor (a : Attendant τ) (s : Surroundings κ) :
    (s.veiled v).askFor (a.veiled v) = Prod.map id (veiled v) (s.askFor a) := by
  by_cases hheeded : a.heeded = true <;> simp [askFor, Attendant.veiled, hheeded, veiled]

theorem veiled_waitRound (hv : v.Thin) (a : Attendant τ) (s : Surroundings κ) :
    (s.veiled v).waitRound (a.veiled v) = Prod.map id (veiled v) (s.waitRound a) := by
  simp only [waitRound, veiled_takeKey?, ← veiled_pollFor hv, veiled_askFor]
  cases s.takeKey? with
  | some taken => rfl
  | none =>
    cases (s.pollFor a).takeKey? with
    | some taken => rfl
    | none => rfl

/-- **A key wait goes the same way behind a thin veil**, round after round. -/
theorem veiled_waitRounds (hv : v.Thin) (a : Attendant τ) (room : Nat) (s : Surroundings κ) :
    (s.veiled v).waitRounds (a.veiled v) room = Prod.map id (veiled v) (s.waitRounds a room) := by
  induction room generalizing s with
  | zero =>
    simp only [waitRounds, veiled_waitRound hv]
    rcases s.waitRound a with ⟨_ | result, after⟩
    · exact Prod.ext rfl (veiled_sleep hv a.interval after).symm
    · rfl
  | succ room ih =>
    simp only [waitRounds, veiled_waitRound hv]
    rcases s.waitRound a with ⟨_ | result, after⟩
    · have hnap := veiled_nap hv a after
      simp only [Prod.map_apply, id_eq, ← ih, hnap]
    · rfl

theorem veiled_waitForKey (hv : v.Thin) (a : Attendant τ) (s : Surroundings κ) :
    (s.veiled v).waitForKey (a.veiled v) = Prod.map id (veiled v) (s.waitForKey a) :=
  veiled_waitRounds hv a _ s.freshen

end Surroundings

namespace Machine

variable {v : Veil κ κ' τ τ'} {m : Machine κ}

/-! ### Operations -/

omit [Clock κ τ] [Clock κ' τ'] in
theorem veiled_skipIf (m : Machine κ) (c : Bool) :
    (m.veiled v).skipIf c = (m.skipIf c).veiled v := by
  cases c <;> rfl

/-- **An operation has the same effect behind a thin veil**, unless it uses timers that are
hidden. -/
theorem veiled_execute (hv : v.Thin) (m : Machine κ) (i : Instruction) {op : Op}
    (h : v.timers = id ∨ op.usesTimers = false) :
    (m.veiled v).execute i op = (m.execute i op).map (veiled v) := by
  cases op
  case readDelay | setDelay | setSound =>
    rcases h with h | h
    · simp [execute, veiled, Surroundings.veiled, h, setReg, withTimers, Except.map, reg]
    · cases h
  case clearScreen =>
    simp only [execute, veiled, Except.map, hv.clear]
  case leave =>
    cases hstack : m.stack <;> simp [execute, leave, veiled, hstack, Except.map]
  case draw => exact hv.draw m _ _ _
  case storeDecimal =>
    simp only [execute, storeAtIndex, veiled, reg]
    cases m.store.writeBlock m.index _ <;> rfl
  case dump =>
    simp only [execute, storeAtIndex, veiled, registersTo]
    cases m.store.writeBlock m.index _ <;> rfl
  case load =>
    simp only [execute, loadRegisters, veiled]
    cases m.store.readBlock m.index _ <;> rfl
  case skipIfByte | skipUnlessByte | skipIfEqual | skipUnlessEqual | skipIfPressed |
      skipUnlessPressed => exact congrArg Except.ok (veiled_skipIf m _)
  all_goals rfl

/-! ### Steps -/

theorem veiled_awaitKey (hv : v.Thin) (a : Attendant τ) (m : Machine κ) (i : Instruction) :
    (m.veiled v).awaitKey (a.veiled v) i = Prod.map (veiled v) id (m.awaitKey a i) := by
  have hwait := Surroundings.veiled_waitForKey hv a m.around
  unfold awaitKey
  rw [show (m.veiled v).around = m.around.veiled v from rfl, hwait]
  rcases m.around.waitForKey a with ⟨key | _ | _, around⟩
  · simp only [Prod.map_apply, id_eq, hv.noted]
    rfl
  · rfl
  · rfl

theorem veiled_perform (hv : v.Thin) (a : Attendant τ) (m : Machine κ) (address : Int)
    {i : Instruction} (h : v.timers = id ∨ ∀ op, i.op = some op → op.usesTimers = false) :
    (m.veiled v).perform (a.veiled v) address i =
      Prod.map (veiled v) id (m.perform a address i) := by
  cases hop : i.op with
  | none => simp [perform, hop]
  | some op =>
    by_cases hawait : op = .awaitKey
    · subst hawait
      simp only [perform, hop]
      exact veiled_awaitKey hv a m i
    · rw [perform_of_ne_awaitKey _ _ hop hawait, perform_of_ne_awaitKey _ _ hop hawait,
        veiled_execute hv m i (h.imp_right fun h => h op hop)]
      cases m.execute i op with
      | error fault => rfl
      | ok after => simp only [Except.map, Prod.map_apply, hv.noted, id_eq]

/-- **A step goes the same way behind a thin veil**, and fails in the same way, unless it uses
timers that are hidden. -/
theorem veiled_step (hv : v.Thin) (a : Attendant τ) (m : Machine κ)
    (h : v.timers = id ∨ ¬ m.UsesTimers) :
    (m.veiled v).step (a.veiled v) = Prod.map (veiled v) id (m.step a) := by
  by_cases hfetch : m.CanFetch
  · have hfetch' : (m.veiled v).CanFetch := hfetch
    have hunused : v.timers = id ∨
        ∀ op, m.nextInstruction.op = some op → op.usesTimers = false := by
      refine h.imp_right fun hunused op hop => Bool.eq_false_iff.2 fun huses => ?_
      exact hunused ⟨hfetch, op, hop, huses⟩
    have hperform : (m.veiled v).fetched.perform (a.veiled v) (m.veiled v).pc
        (m.veiled v).nextInstruction =
          Prod.map (veiled v) id (m.fetched.perform a m.pc m.nextInstruction) :=
      veiled_perform hv a m.fetched m.pc hunused
    rw [step_of_canFetch a hfetch, step_of_canFetch (a.veiled v) hfetch', hperform]
    rcases m.fetched.perform a m.pc m.nextInstruction with ⟨after, fault | ⟨⟩⟩ <;> rfl
  · cases hcheck : m.store.check m.pc 2 with
    | ok _ => exact absurd (Store.check_eq_ok_iff.1 hcheck) hfetch
    | error fault =>
      have hcheck' : (m.veiled v).store.check (m.veiled v).pc 2 = .error fault := hcheck
      simp only [step, fetch_of_check_error hcheck, fetch_of_check_error hcheck']
      rfl

end Machine

end Chip8

import Chip8.Proofs.Machine.Footprint
import Mathlib.Data.List.Induction

/-!
# Timers count down exactly

The timers are shared.  The program sets and reads them, and with every tick the timer clock takes
one off the delay timer and then one off the sound timer.  Each of these acts is done in one go,
but the acts of the two sides fall in any order.

`Countdown.after` is what a row of acts makes of fresh timers.  Whatever the order of the acts, a
timer then shows what was last put into it less what was taken off since, but never less than nought
(`Countdown.read_after`).

In a run of a machine acts come from the instructions, from the ticks between them, and from the
ticks that arrive while the program waits for a key.  `Machine.Clocked` is the run together with
the row of its acts, so a program that reads the delay timer gets that number
(`Machine.timers_count_down`).
-/

namespace Chip8

namespace Countdown

/-- One of the timers. -/
inductive Register where
  /-- The delay timer. -/
  | delay
  /-- The sound timer. -/
  | sound
  deriving DecidableEq, Repr

/-- Something that is done to a timer in one go. -/
inductive Act where
  /-- A number is put into it. -/
  | set (r : Register) (v : Int)
  /-- Someone reads it. -/
  | get (r : Register)
  /-- It goes down by one, unless it is at nought. -/
  | decrement (r : Register)
  deriving DecidableEq, Repr

namespace Act

/-- The timer that something is done to. -/
def register : Act → Register
  | set r _ | get r | decrement r => r

/-- The number that is put into a timer, if one is. -/
def setting? (r : Register) : Act → Option Int
  | set r' v => if r' = r then some v else none
  | get _ | decrement _ => none

/-- A tick: the delay timer goes down, and then the sound timer. -/
def tick : List Act := [.decrement .delay, .decrement .sound]

end Act

/-- What a timer shows. -/
def read (t : Countdown) : Register → Nat
  | .delay => t.delay.value
  | .sound => t.sound.value

/-- Something is done to a timer. -/
def perform (t : Countdown) : Act → Countdown
  | .set .delay v => t.setDelay v
  | .set .sound v => t.setSound v
  | .get _ => t
  | .decrement .delay => t.tickDelay
  | .decrement .sound => t.tickSound

/-- Fresh timers after a row of acts. -/
def after (acts : List Act) : Countdown := acts.foldl perform {}

/-- The number last put into a timer; before there is one, it is nought. -/
def lastSet (r : Register) (acts : List Act) : Int :=
  (acts.reverse.findSome? (Act.setting? r)).getD 0

/-- How often a timer was to go down since a number was last put into it. -/
def decrementsSince (r : Register) (acts : List Act) : Nat :=
  (acts.reverse.takeWhile fun act => (act.setting? r).isNone).count (.decrement r)

variable {t : Countdown} {r : Register} {acts : List Act} {act : Act}

/-! ### One act -/

theorem read_perform_set (t : Countdown) (r : Register) (v : Int) :
    ((t.perform (.set r v)).read r : Int) = v % 0x100 := by
  cases r <;> exact Int.toNat_of_nonneg (Int.emod_nonneg v (by decide))

theorem read_perform_decrement (t : Countdown) (r : Register) :
    (t.perform (.decrement r)).read r = t.read r - 1 := by
  cases r <;> rfl

theorem read_perform_of_ne (t : Countdown) (h : act.register ≠ r) :
    (t.perform act).read r = t.read r := by
  cases act with
  | get => rfl
  | set r' v =>
    cases r' <;> cases r
    case delay.delay | sound.sound => exact absurd rfl h
    case delay.sound | sound.delay => rfl
  | decrement r' =>
    cases r' <;> cases r
    case delay.delay | sound.sound => exact absurd rfl h
    case delay.sound | sound.delay => rfl

theorem setting?_of_ne (h : act.register ≠ r) : act.setting? r = none := by
  cases act with
  | set r' v => exact if_neg h
  | get | decrement => rfl

/-! ### Rows of acts -/

theorem after_append (acts more : List Act) :
    after (acts ++ more) = more.foldl perform (after acts) :=
  List.foldl_append

theorem lastSet_append_set (r : Register) (v : Int) (acts : List Act) :
    lastSet r (acts ++ [.set r v]) = v := by
  simp [lastSet, Act.setting?]

theorem decrementsSince_append_set (r : Register) (v : Int) (acts : List Act) :
    decrementsSince r (acts ++ [.set r v]) = 0 := by
  simp [decrementsSince, Act.setting?]

theorem lastSet_append_of_none (h : act.setting? r = none) (acts : List Act) :
    lastSet r (acts ++ [act]) = lastSet r acts := by
  simp [lastSet, h]

theorem decrementsSince_append_of_none (h : act.setting? r = none) (acts : List Act) :
    decrementsSince r (acts ++ [act]) =
      decrementsSince r acts + if act = .decrement r then 1 else 0 := by
  simp [decrementsSince, h, List.count_cons]

/-- **A timer shows what was last put into it, less what was taken off since.** -/
theorem read_after (r : Register) (acts : List Act) :
    ((after acts).read r : Int) = max 0 (lastSet r acts % 0x100 - decrementsSince r acts) := by
  induction acts using List.reverseRecOn with
  | nil => cases r <;> rfl
  | append_singleton acts act ih =>
    rw [after_append, List.foldl_cons, List.foldl_nil]
    by_cases hother : act.register = r
    · subst hother
      cases act with
      | set r v =>
        have hnonneg : 0 ≤ v % 0x100 := Int.emod_nonneg v (by decide)
        simp only [Act.register]
        rw [read_perform_set, lastSet_append_set, decrementsSince_append_set]
        omega
      | get r =>
        simp only [Act.register] at ih ⊢
        rw [lastSet_append_of_none rfl, decrementsSince_append_of_none rfl, if_neg nofun,
          Nat.add_zero]
        exact ih
      | decrement r =>
        simp only [Act.register] at ih ⊢
        rw [read_perform_decrement, lastSet_append_of_none rfl,
          decrementsSince_append_of_none rfl, if_pos rfl]
        omega
    · have hnone : act.setting? r = none := setting?_of_ne hother
      have hdecrement : act ≠ .decrement r := by
        rintro rfl
        exact hother rfl
      rw [read_perform_of_ne _ hother, lastSet_append_of_none hnone,
        decrementsSince_append_of_none hnone, if_neg hdecrement, Nat.add_zero]
      exact ih

theorem read_after_le (r : Register) (acts : List Act) : (after acts).read r ≤ 0xFF := by
  have hread := read_after r acts
  have hlow := Int.emod_lt_of_pos (lastSet r acts) (b := 0x100) (by decide)
  omega

end Countdown

open Countdown (Act Register)

/-- What an event does to the timers. -/
def Event.acts {τ : Type} : Event τ → List Act
  | .tick => Act.tick
  | .press _ | .release _ | .exit | .stay | .advance _ | .toggleDetails => []

namespace Surroundings

variable {κ τ : Type} [Clock κ τ]

theorem timers_occur (s : Surroundings κ) (e : Event τ) :
    (s.occur e).timers = e.acts.foldl Countdown.perform s.timers := by
  cases e <;> rfl

theorem timers_deliver (s : Surroundings κ) (events : List (Event τ)) :
    (s.deliver events).timers = (events.flatMap Event.acts).foldl Countdown.perform s.timers := by
  induction events generalizing s with
  | nil => rfl
  | cons e events ih =>
    rw [List.flatMap_cons, List.foldl_append, ← timers_occur]
    exact ih (s.occur e)

end Surroundings

namespace Machine

variable {κ τ : Type} [Clock κ τ] {m after : Machine κ} {acts : List Act}

/-! ### Steps -/

/-- What an operation does to the timers. -/
def operationActs (m : Machine κ) (i : Instruction) : Op → List Act
  | .setDelay => [.set .delay (m.reg i.x)]
  | .setSound => [.set .sound (m.reg i.x)]
  | .readDelay => [.get .delay]
  | _ => []

/-- What a step does to the timers: a key wait lets the ticks of its course happen. -/
def stepActs (a : Attendant τ) (m : Machine κ) : List Act :=
  if m.AwaitsKey then (m.stepEvents a).flatMap Event.acts
  else if m.CanFetch then (m.nextInstruction.op.map (m.operationActs m.nextInstruction)).getD []
  else []

theorem stepActs_of_op (a : Attendant τ) (hfetch : m.CanFetch) {op : Op}
    (hop : m.nextInstruction.op = some op) (hother : op ≠ .awaitKey) :
    m.stepActs a = m.operationActs m.nextInstruction op := by
  have hawaits : ¬ m.AwaitsKey := by
    rintro ⟨-, hawait⟩
    exact hother (Option.some.inj (hop.symm.trans hawait))
  rw [stepActs, if_neg hawaits, if_pos hfetch, hop]
  rfl

omit [Clock κ τ] in
theorem timers_execute {i : Instruction} {op : Op} (h : m.execute i op = .ok after) :
    after.around.timers = (m.operationActs i op).foldl Countdown.perform m.around.timers := by
  have hconfined := execute_confined h
  have hrest : op ≠ .setDelay → op ≠ .setSound → after.around.timers = m.around.timers := by
    intro hdelay hsound
    exact congrArg₂ Countdown.mk (hconfined.delay hdelay) (hconfined.sound hsound)
  cases op
  case setDelay | setSound =>
    cases h
    rfl
  all_goals exact hrest nofun nofun

omit [Clock κ τ] in
theorem operationActs_of_error {i : Instruction} {op : Op} {fault : Fault}
    (h : m.execute i op = .error fault) : m.operationActs i op = [] := by
  cases op
  case setDelay | setSound | readDelay => cases h
  all_goals rfl

/-- **What a step does to the timers.** -/
theorem timers_step (a : Attendant τ) (m : Machine κ) :
    (m.step a).1.around.timers = (m.stepActs a).foldl Countdown.perform m.around.timers := by
  by_cases hawaits : m.AwaitsKey
  · have hstart : m.fetched.around.Matches m.around := ⟨rfl, rfl⟩
    have hmatches := Surroundings.waitForKey_matches a m.fetched.around
    have hevents := hstart.deliver (m.fetched.around.eventsOfWait a)
    obtain ⟨journal, haround⟩ := around_step_of_awaitsKey a hawaits
    rw [stepActs, if_pos hawaits, stepEvents, if_pos hawaits, ← Surroundings.timers_deliver,
      haround]
    exact hmatches.2.trans hevents.2
  · have houtcome := m.step_outcome a
    rw [stepActs, if_neg hawaits]
    generalize m.step a = result at houtcome
    cases houtcome with
    | unfetched check =>
      have hfetch : ¬ m.CanFetch := by
        intro hfetch
        rw [Store.check_eq_ok_iff.2 hfetch] at check
        cases check
      rw [if_neg hfetch]
      rfl
    | unknown fetch op =>
      rw [if_pos fetch, op]
      rfl
    | @refused op fault fetch op_eq _ execute =>
      have hacts : m.fetched.operationActs m.nextInstruction op = [] :=
        operationActs_of_error execute
      rw [if_pos fetch, op_eq]
      exact congrArg (List.foldl Countdown.perform m.around.timers) hacts.symm
    | @done op after fetch op_eq _ execute =>
      obtain ⟨journal, hnoted⟩ := after.noted_eq m.nextInstruction op
      have hexecute := timers_execute execute
      rw [if_pos fetch, op_eq, hnoted]
      exact hexecute
    | keyed awaits => exact absurd awaits hawaits
    | cancelled awaits => exact absurd awaits hawaits
    | exhausted awaits => exact absurd awaits hawaits

theorem step_setDelay (a : Attendant τ) (hfetch : m.CanFetch)
    (hop : m.nextInstruction.op = some .setDelay) :
    (m.step a).1.pc = nextAddress m.pc ∧ (m.step a).1.store = m.store := by
  obtain ⟨journal, hnoted⟩ := noted_eq
    (m.fetched.withTimers (·.setDelay (m.fetched.reg m.nextInstruction.x))) m.nextInstruction
    .setDelay
  rw [step_of_execute_ok a hfetch hop (by decide) rfl, hnoted]
  exact ⟨rfl, rfl⟩

theorem step_readDelay (a : Attendant τ) (hfetch : m.CanFetch)
    (hop : m.nextInstruction.op = some .readDelay) :
    (m.step a).2 = .ok m.nextInstruction ∧
      (m.step a).1.reg m.nextInstruction.x = m.around.timers.read .delay := by
  obtain ⟨journal, hnoted⟩ := noted_eq
    (m.fetched.setReg m.nextInstruction.x m.fetched.around.timers.delay.value) m.nextInstruction
    .readDelay
  rw [step_of_execute_ok a hfetch hop (by decide) rfl, hnoted]
  exact ⟨rfl, (reg_setReg _ _ _).trans (if_pos rfl)⟩

/-! ### Runs -/

/-- One of the timers goes down, which is one half of a tick. -/
def tickOne (m : Machine κ) (r : Register) : Machine κ :=
  m.withTimers (·.perform (.decrement r))

/-- A run of a machine, together with all that was done to the timers in its course. -/
inductive Clocked : List Act → Machine κ → Prop where
  | boot {program : Array UInt8} {random : RandomBytes} {clock : κ} {journal : Journal}
      {m : Machine κ} (h : boot Store.standardSize program random { clock, journal } = .ok m) :
      Clocked [] m
  | step {acts : List Act} {m : Machine κ} (a : Attendant τ) :
      Clocked acts m → Clocked (acts ++ m.stepActs a) (m.step a).1
  | occur {acts : List Act} {m : Machine κ} (e : Event τ) :
      Clocked acts m → Clocked (acts ++ e.acts) (m.occur e)
  | tickOne {acts : List Act} {m : Machine κ} (r : Register) :
      Clocked acts m → Clocked (acts ++ [.decrement r]) (m.tickOne r)
  | settle {acts : List Act} {m : Machine κ} (s : Surroundings κ) :
      Clocked acts m → Clocked acts (m.settle s)
  | photographed {acts : List Act} {m : Machine κ} :
      Clocked acts m → Clocked acts m.photographed
  | reset {acts : List Act} {m : Machine κ} : Clocked acts m → Clocked acts m.reset
  | resetKeys {acts : List Act} {m : Machine κ} : Clocked acts m → Clocked acts m.resetKeys

theorem Reachable.exists_clocked (h : m.Reachable) : ∃ acts, m.Clocked acts := by
  induction h with
  | boot h => exact ⟨_, .boot h⟩
  | step a _ ih => exact ⟨_, .step a ih.choose_spec⟩
  | occur e _ ih => exact ⟨_, .occur e ih.choose_spec⟩
  | settle s _ ih => exact ⟨_, .settle s ih.choose_spec⟩
  | photographed _ ih => exact ⟨_, .photographed ih.choose_spec⟩
  | reset _ ih => exact ⟨_, .reset ih.choose_spec⟩
  | resetKeys _ ih => exact ⟨_, .resetKeys ih.choose_spec⟩

theorem Clocked.timers_eq (h : m.Clocked acts) : m.around.timers = Countdown.after acts := by
  induction h with
  | boot h =>
    obtain ⟨store, rfl⟩ := exists_store_of_boot h
    rfl
  | step a _ ih => rw [timers_step, ih, ← Countdown.after_append]
  | occur e _ ih => exact (Surroundings.timers_occur _ e).trans (by rw [ih, Countdown.after_append])
  | tickOne r _ ih =>
    rw [Countdown.after_append, ← ih]
    rfl
  | settle _ _ ih | photographed _ ih | reset _ ih | resetKeys _ ih => exact ih

/-- **Timers count down exactly**, in whatever order the program and the timer clock act on them;
other acts may fall between the two halves of a tick.  A timer shows the low eight bits of the
number last put into it, less what was taken off since, but not less than nought.  It never wraps
round, and what is done to the other timer is nothing to it.

Every machine that is being used has a run, and in a run with ticks before, between and within its
steps a program that reads the delay timer gets just this number. -/
theorem timers_count_down :
    (∀ (acts : List Act) (r : Register),
      ((Countdown.after acts).read r : Int) =
          max 0 (Countdown.lastSet r acts % 0x100 - Countdown.decrementsSince r acts) ∧
        (Countdown.after acts).read r ≤ 0xFF ∧
        (Countdown.after (acts ++ [.decrement r])).read r = (Countdown.after acts).read r - 1 ∧
        (Countdown.after (acts ++ [.get r])).read r = (Countdown.after acts).read r ∧
        ∀ act : Act, act.register ≠ r →
          (Countdown.after (acts ++ [act])).read r = (Countdown.after acts).read r) ∧
    (∀ m : Machine κ, m.Reachable → ∃ acts, m.Clocked acts) ∧
    ∀ (m : Machine κ) (acts : List Act), m.Clocked acts → m.CanFetch →
      m.nextInstruction.op = some .readDelay → ∀ a : Attendant τ,
        (m.step a).2 = .ok m.nextInstruction ∧
          ((m.step a).1.reg m.nextInstruction.x : Int) =
            max 0 (Countdown.lastSet .delay acts % 0x100 -
              Countdown.decrementsSince .delay acts) := by
  refine ⟨fun acts r => ?_, fun m h => h.exists_clocked, fun m acts h hfetch hop a => ?_⟩
  · simp only [Countdown.after_append, List.foldl_cons, List.foldl_nil]
    exact ⟨Countdown.read_after r acts, Countdown.read_after_le r acts,
      Countdown.read_perform_decrement _ r, rfl,
      fun act hother => Countdown.read_perform_of_ne _ hother⟩
  · obtain ⟨hdone, hread⟩ := step_readDelay a hfetch hop
    rw [hread, h.timers_eq]
    exact ⟨hdone, Countdown.read_after .delay acts⟩

/-- A program sets the delay timer to 5, half a tick passes, and it reads 4. -/
theorem delay_read_after_half_a_tick :
    ∃ m : Machine (VirtualClock Int), m.Clocked [.set .delay 5, .decrement .delay] ∧
      ∀ a : Attendant Int, (m.step a).1.reg 1 = 4 := by
  obtain ⟨start, journal, hboot, hholds, hpc, -⟩ :=
    exists_holds #[0x60, 0x05, 0xF0, 0x15, 0xF1, 0x07] (by decide) (⟨0, 0, 0⟩ : VirtualClock Int)
  let idle : Attendant Int := { feed := { atPoll := fun _ => [] }, interval := 1, patience := 0 }
  -- the program puts 5 into a register
  have hfirst : start.nextInstruction = .decode 0x6005 := hholds.nextInstruction 0 hpc (by decide)
  have hfetch := hholds.canFetch 0 hpc (by decide)
  have hop : start.nextInstruction.op = some .setByte := by rw [hfirst]; decide
  obtain ⟨hregisters, hpc₁, -, hstore₁⟩ := step_setByte idle hfetch hop
  have hholds₁ : (start.step idle).1.Holds _ := hholds.of_store_eq hstore₁
  have hclocked₁ := (Clocked.boot hboot).step idle
  have hnone : start.stepActs idle = [] := stepActs_of_op idle hfetch hop (by decide)
  rw [hnone] at hclocked₁
  have hreg : (start.step idle).1.reg 0 = 5 := by
    rw [hregisters, hfirst, if_pos (by decide)]
    decide
  rw [hpc] at hpc₁
  generalize (start.step idle).1 = m₁ at *
  -- and then into the delay timer
  have hsecond : m₁.nextInstruction = .decode 0xF015 := hholds₁.nextInstruction 2 hpc₁ (by decide)
  have hfetch₁ := hholds₁.canFetch 2 hpc₁ (by decide)
  have hop₁ : m₁.nextInstruction.op = some .setDelay := by rw [hsecond]; decide
  obtain ⟨hpc₂, hstore₂⟩ := step_setDelay idle hfetch₁ hop₁
  have hholds₂ : (m₁.step idle).1.Holds _ := hholds₁.of_store_eq hstore₂
  have hclocked₂ := hclocked₁.step idle
  have hacts : m₁.operationActs m₁.nextInstruction .setDelay = [.set .delay 5] := by
    rw [hsecond, operationActs, show (Instruction.decode 0xF015).x = 0 by decide, hreg]
    rfl
  rw [stepActs_of_op idle hfetch₁ hop₁ (by decide), hacts] at hclocked₂
  rw [hpc₁] at hpc₂
  generalize (m₁.step idle).1 = m₂ at *
  -- one half of a tick later it asks for the delay timer
  have hholds₃ : (m₂.tickOne .delay).Holds _ := hholds₂.of_store_eq rfl
  have hthird : (m₂.tickOne .delay).nextInstruction = .decode 0xF107 :=
    hholds₃.nextInstruction 4 hpc₂ (by decide)
  have hop₃ : (m₂.tickOne .delay).nextInstruction.op = some .readDelay := by
    rw [hthird]
    decide
  refine ⟨m₂.tickOne .delay, hclocked₂.tickOne .delay, fun a => ?_⟩
  obtain ⟨-, hread⟩ := timers_count_down.2.2 _ _ (hclocked₂.tickOne .delay)
    (hholds₃.canFetch 4 hpc₂ (by decide)) hop₃ a
  rw [hthird, show (Instruction.decode 0xF107).x = 1 by decide] at hread
  exact Int.ofNat_inj.1 (hread.trans (by decide))

end Machine

end Chip8

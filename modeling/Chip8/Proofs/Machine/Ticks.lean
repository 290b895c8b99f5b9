import Chip8.Proofs.Machine.Calls
import Chip8.Proofs.Machine.Timers
import Chip8.Proofs.Machine.Veil

/-!
# Ticks move freely

The timer clock ticks on a thread of its own, so where its ticks fall among the steps of a program
is left to chance.  A step that neither reads nor sets a timer does not care: it goes the same way
whether a tick falls before it or behind it, and so does each half of the tick
(`Machine.step_tickOne`).  It does not even care for the ticks that arrive while it waits for a key
(`Machine.still_step`).

So in a run a tick may be moved across any stretch of such steps (`Machine.course_tick`), and what
comes of the stretch depends on the number of its ticks alone (`Machine.ticks_move_freely`).
-/

namespace Chip8

open Countdown (Act Register)

variable {κ τ : Type}

/-- The event is a tick. -/
def Event.isTick : Event τ → Bool
  | .tick => true
  | _ => false

/-- The event, unless it is a tick. -/
def Event.still? (e : Event τ) : Option (Event τ) := if e.isTick then none else some e

/-- The attendant without ticks. -/
def Attendant.still (a : Attendant τ) : Attendant τ where
  feed.atPoll n := (a.feed.atPoll n).filterMap Event.still?
  feed.atNap n := (a.feed.atNap n).filterMap Event.still?
  polled := a.polled
  heeded := a.heeded
  interval := a.interval
  patience := a.patience

/-- The machine without what its timers show. -/
def Machine.still (m : Machine κ) : Machine κ :=
  { m with around := { m.around with timers := {} } }

theorem Countdown.foldl_acts (t : Countdown) (events : List (Event τ)) :
    (events.flatMap Event.acts).foldl perform t = tick^[events.countP Event.isTick] t := by
  induction events generalizing t with
  | nil => rfl
  | cons e events ih =>
    rw [List.flatMap_cons, List.foldl_append, ih, List.countP_cons]
    cases e <;> rfl

/-! ### Veils over the timers -/

/-- A veil that changes only what is seen of the timers. -/
def Veil.overTimers (κ : Type) (timers : Countdown → Countdown)
    (event : Event τ → Option (Event τ)) : Veil κ κ τ τ where
  timers := timers
  clock := id
  duration := id
  journal := id
  screen := id
  event := event

/-- The veil behind which one of the timers is one lower. -/
def Veil.lowered (κ τ : Type) (r : Register) : Veil κ κ τ τ :=
  .overTimers κ (·.perform (.decrement r)) some

/-- The veil that hides the timers and their ticks. -/
def Veil.still (κ τ : Type) : Veil κ κ τ τ := .overTimers κ (fun _ => {}) Event.still?

variable [Clock κ τ]

theorem Veil.thin_overTimers {timers : Countdown → Countdown}
    {event : Event τ → Option (Event τ)}
    (h : ∀ (s : Surroundings κ) (e : Event τ), (s.occur e).veiled (.overTimers κ timers event) =
      (event e).elim (s.veiled (.overTimers κ timers event))
        (s.veiled (.overTimers κ timers event)).occur) :
    (Veil.overTimers κ timers event).Thin where
  occur := h
  pass _ _ := rfl
  clear _ := rfl
  draw m x y n := by
    simp only [Machine.drawSprite, Machine.veiled, Machine.reg, Veil.overTimers, id_eq]
    cases m.screen.draw m.registers[x] m.registers[y] n m.index m.store <;> rfl
  noted m i op := by
    have hnote : (m.veiled (.overTimers κ timers event)).noteOf i op = m.noteOf i op := by
      cases op <;> rfl
    unfold Machine.noted
    rw [hnote]
    by_cases hdetails : m.around.journal.details = true
    · have hdetails' :
          (m.veiled (.overTimers κ timers event)).around.journal.details = true := hdetails
      rw [if_pos hdetails, if_pos hdetails']
      cases m.noteOf i op <;> rfl
    · have hdetails' :
          ¬ (m.veiled (.overTimers κ timers event)).around.journal.details = true := hdetails
      rw [if_neg hdetails, if_neg hdetails']

theorem Veil.thin_lowered (r : Register) : (Veil.lowered κ τ r).Thin := by
  refine Veil.thin_overTimers fun s e => ?_
  cases e with
  | tick => cases r <;> rfl
  | press | release | exit | stay | advance | toggleDetails => rfl

theorem Veil.thin_still : (Veil.still κ τ).Thin := by
  refine Veil.thin_overTimers fun s e => ?_
  cases e <;> rfl

namespace Machine

variable {m : Machine κ}

/-! ### Steps -/

omit [Clock κ τ] in
theorem veiled_lowered (a : Attendant τ) (r : Register) : a.veiled (.lowered κ τ r) = a := by
  unfold Attendant.veiled Feed.veiled Veil.lowered Veil.overTimers
  simp

/-- **A step that leaves the timers alone commutes with either half of a tick.** -/
theorem step_tickOne (a : Attendant τ) (h : ¬ m.UsesTimers) (r : Register) :
    (m.tickOne r).step a = ((m.step a).1.tickOne r, (m.step a).2) := by
  have hstep := veiled_step (Veil.thin_lowered r) a m (.inr h)
  rw [veiled_lowered] at hstep
  exact hstep

theorem occur_tick (m : Machine κ) :
    m.occur (.tick : Event τ) = (m.tickOne .delay).tickOne .sound := rfl

theorem step_tick (a : Attendant τ) (h : ¬ m.UsesTimers) :
    (m.occur (.tick : Event τ)).step a =
      ((m.step a).1.occur (.tick : Event τ), (m.step a).2) := by
  have h' : ¬ (m.tickOne .delay).UsesTimers := h
  rw [occur_tick, occur_tick, step_tickOne a h', step_tickOne a h]

/-- **A step that leaves the timers alone does not notice the ticks of its course.** -/
theorem still_step (a : Attendant τ) (h : ¬ m.UsesTimers) :
    m.still.step a.still = ((m.step a).1.still, (m.step a).2) :=
  veiled_step Veil.thin_still a m (.inr h)

theorem operationActs_of_unused {i : Instruction} {op : Op} (h : op.usesTimers = false) :
    m.operationActs i op = [] := by
  cases op
  case readDelay | setDelay | setSound => cases h
  all_goals rfl

theorem stepActs_of_unused (a : Attendant τ) (h : ¬ m.UsesTimers) :
    m.stepActs a = (m.stepEvents a).flatMap Event.acts := by
  by_cases hawaits : m.AwaitsKey
  · rw [stepActs, if_pos hawaits]
  · rw [stepActs, if_neg hawaits, stepEvents, if_neg hawaits, List.flatMap_nil]
    by_cases hfetch : m.CanFetch
    · rw [if_pos hfetch]
      cases hop : m.nextInstruction.op with
      | none => rfl
      | some op =>
        have hunused : op.usesTimers = false := by
          by_contra huses
          exact h ⟨hfetch, op, hop, by simpa using huses⟩
        exact operationActs_of_unused hunused
    · rw [if_neg hfetch]

theorem timers_step_of_unused (a : Attendant τ) (h : ¬ m.UsesTimers) :
    (m.step a).1.around.timers =
      Countdown.tick^[(m.stepEvents a).countP Event.isTick] m.around.timers := by
  rw [timers_step, stepActs_of_unused a h, Countdown.foldl_acts]

omit [Clock κ τ] in
theorem eq_of_still_eq {m m' : Machine κ} (h : m.still = m'.still)
    (htimers : m.around.timers = m'.around.timers) : m = m' := by
  calc m = m.still.withTimers fun _ => m.around.timers := rfl
    _ = m'.still.withTimers fun _ => m'.around.timers := by rw [h, htimers]
    _ = m' := rfl

end Machine

/-! ### Runs -/

/-- The use without ticks; it is nothing if it is a tick itself. -/
def Use.still? : Use κ τ → Option (Use κ τ)
  | .step a => some (.step a.still)
  | .event e => e.still?.map .event
  | .settle s => some (.settle s)
  | .photograph => some .photograph
  | .resetKeys => some .resetKeys

namespace Machine

variable {m : Machine κ}

/-- The use leaves the timers alone, though it may be a tick. -/
def SparesTimers (m : Machine κ) : Use κ τ → Prop
  | .step _ => ¬ m.UsesTimers
  | _ => True

/-- None of these uses, one after the other, reads a timer or sets one. -/
def NeverUsesTimers (m : Machine κ) : List (Use κ τ) → Prop
  | [] => True
  | use :: uses => m.SparesTimers use ∧ (m.undergo use).NeverUsesTimers uses

/-- The events that arrive in the course of a use. -/
def eventsOf (m : Machine κ) : Use κ τ → List (Event τ)
  | .step a => m.stepEvents a
  | .event e => [e]
  | _ => []

/-- How many ticks arrive in the course of these uses. -/
def ticksOf (m : Machine κ) : List (Use κ τ) → Nat
  | [] => 0
  | use :: uses => (m.eventsOf use).countP Event.isTick + (m.undergo use).ticksOf uses

/-- What the steps among these uses come to. -/
def results (m : Machine κ) : List (Use κ τ) → List (Except Fault Instruction)
  | [] => []
  | .step a :: uses => (m.step a).2 :: (m.step a).1.results uses
  | use :: uses => (m.undergo use).results uses

theorem undergo_tick {use : Use κ τ} (h : m.SparesTimers use) :
    (m.occur (.tick : Event τ)).undergo use = (m.undergo use).occur (.tick : Event τ) := by
  cases use with
  | step a => exact congrArg Prod.fst (step_tick a h)
  | event e => cases e <;> rfl
  | settle | photograph | resetKeys => rfl

/-- **A tick may be moved across uses that leave the timers alone**, and nothing changes, not even
what their steps come to. -/
theorem course_tick {uses : List (Use κ τ)} (h : m.NeverUsesTimers uses) :
    (m.occur (.tick : Event τ)).course uses = (m.course uses).occur (.tick : Event τ) ∧
      (m.occur (.tick : Event τ)).results uses = m.results uses := by
  induction uses generalizing m with
  | nil => exact ⟨rfl, rfl⟩
  | cons use uses ih =>
    obtain ⟨hcourse, hresults⟩ := ih h.2
    have huse := undergo_tick h.1
    have hcourse' : (m.occur (.tick : Event τ)).course (use :: uses) =
        (m.course (use :: uses)).occur (.tick : Event τ) := by
      rw [course, List.foldl_cons, huse]
      exact hcourse
    refine ⟨hcourse', ?_⟩
    cases use with
    | step a =>
      have hstep := step_tick a h.1
      simp only [results, hstep]
      exact congrArg _ hresults
    | event | settle | photograph | resetKeys =>
      simp only [results]
      rw [huse]
      exact hresults

theorem results_append (m : Machine κ) (uses more : List (Use κ τ)) :
    m.results (uses ++ more) = m.results uses ++ (m.course uses).results more := by
  induction uses generalizing m with
  | nil => rfl
  | cons use uses ih =>
    cases use with
    | step a => exact congrArg _ (ih _)
    | event | settle | photograph | resetKeys => exact ih _

/-! ### Runs without their ticks -/

theorem still_undergo {use : Use κ τ} (h : m.SparesTimers use) :
    (m.undergo use).still = use.still?.elim m.still m.still.undergo := by
  cases use with
  | step a => exact (congrArg Prod.fst (still_step a h)).symm
  | event e => cases e <;> rfl
  | settle | photograph | resetKeys => rfl

/-- But for the timers, a run that leaves them alone is what it is without ticks. -/
theorem still_course {uses : List (Use κ τ)} (h : m.NeverUsesTimers uses) :
    (m.course uses).still = m.still.course (uses.filterMap Use.still?) := by
  induction uses generalizing m with
  | nil => rfl
  | cons use uses ih =>
    have hrest := ih h.2
    rw [still_undergo h.1] at hrest
    rw [List.filterMap_cons]
    cases hstill : use.still? with
    | none =>
      rw [hstill] at hrest
      exact hrest
    | some quiet =>
      rw [hstill] at hrest
      exact hrest

theorem timers_undergo {use : Use κ τ} (h : m.SparesTimers use) :
    (m.undergo use).around.timers =
      Countdown.tick^[(m.eventsOf use).countP Event.isTick] m.around.timers := by
  cases use with
  | step a => exact timers_step_of_unused a h
  | event e => cases e <;> rfl
  | settle | photograph | resetKeys => rfl

/-- The timers of a run that leaves them alone tick as often as ticks arrive in its course. -/
theorem timers_course {uses : List (Use κ τ)} (h : m.NeverUsesTimers uses) :
    (m.course uses).around.timers = Countdown.tick^[m.ticksOf uses] m.around.timers := by
  induction uses generalizing m with
  | nil => rfl
  | cons use uses ih =>
    rw [ticksOf, Nat.add_comm, Function.iterate_add_apply, ← timers_undergo h.1]
    exact ih h.2

theorem neverUsesTimers_still_iff (m : Machine κ) (uses : List (Use κ τ)) :
    m.still.NeverUsesTimers (uses.filterMap Use.still?) ↔ m.NeverUsesTimers uses := by
  induction uses generalizing m with
  | nil => exact Iff.rfl
  | cons use uses ih =>
    have hrest := ih (m.undergo use)
    by_cases hspares : m.SparesTimers use
    · rw [still_undergo hspares] at hrest
      rw [List.filterMap_cons, NeverUsesTimers, ← hrest]
      cases use with
      | step a => exact Iff.rfl
      | event e =>
        cases e with
        | tick => exact ⟨fun h => ⟨trivial, h⟩, And.right⟩
        | press | release | exit | stay | advance | toggleDetails => exact Iff.rfl
      | settle | photograph | resetKeys => exact Iff.rfl
    · -- only a step does not leave the timers alone
      cases use with
      | step a => exact iff_of_false (fun h => hspares h.1) fun h => hspares h.1
      | event | settle | photograph | resetKeys => exact absurd trivial hspares

/-- **Ticks move freely** past whatever leaves the timers alone.  A step that neither reads a timer
nor sets one, whether it is completed or fails or waits for a key while events arrive, comes to the
same with a tick before it as with the tick behind it, and leaves the same machine; it does so with
either half of a tick.

In any run a tick may be moved across any stretch of such steps, with whatever happens between them.
And two stretches that differ in their ticks only, be it between their steps or in the course of
their key waits, leave the same machine as soon as they have as many ticks. -/
theorem ticks_move_freely :
    (∀ (m : Machine κ) (a : Attendant τ), ¬ m.UsesTimers →
      (m.occur (.tick : Event τ)).step a =
          ((m.step a).1.occur (.tick : Event τ), (m.step a).2) ∧
        ∀ r, (m.tickOne r).step a = ((m.step a).1.tickOne r, (m.step a).2)) ∧
    (∀ (m : Machine κ) (before stretch later : List (Use κ τ)),
      (m.course before).NeverUsesTimers stretch →
      m.course (before ++ .event .tick :: (stretch ++ later)) =
          m.course (before ++ (stretch ++ .event .tick :: later)) ∧
        m.results (before ++ .event .tick :: (stretch ++ later)) =
          m.results (before ++ (stretch ++ .event .tick :: later))) ∧
    ∀ (m : Machine κ) (uses uses' : List (Use κ τ)), m.NeverUsesTimers uses →
      uses.filterMap Use.still? = uses'.filterMap Use.still? → m.ticksOf uses = m.ticksOf uses' →
      m.course uses = m.course uses' := by
  refine ⟨?_, ?_, ?_⟩
  · intro m a h
    exact ⟨step_tick a h, step_tickOne a h⟩
  · intro m before stretch later h
    obtain ⟨hcourse, hresults⟩ := course_tick h
    -- the stretch begins where the run has come to, and the rest of the run where it ends
    have hcons : ∀ (m : Machine κ) (uses : List (Use κ τ)),
        m.course (.event .tick :: uses) = (m.occur .tick).course uses ∧
          m.results (.event .tick :: uses) = (m.occur .tick).results uses :=
      fun _ _ => ⟨rfl, rfl⟩
    simp only [course_append, results_append, hcons, hcourse, hresults, and_self]
  · intro m uses uses' h hstill hticks
    have h' : m.NeverUsesTimers uses' := by
      rw [← neverUsesTimers_still_iff, ← hstill, neverUsesTimers_still_iff]
      exact h
    refine eq_of_still_eq ?_ ?_
    · rw [still_course h, still_course h', hstill]
    · rw [timers_course h, timers_course h', hticks]

/-- An attendant whose first poll brings these events. -/
def pollingOnce (events : List (Event Int)) : Attendant Int where
  feed := { atPoll := fun n => if n = 1 then events else [] }
  interval := 1
  patience := 0

/-- A program that waits for a key with 5 in its delay timer finds 4 there when it goes on, whether
the tick came at the poll that brought the key or behind the step. -/
theorem tick_moved_out_of_wait :
    ∃ m : Machine (VirtualClock Int), m.AwaitsKey ∧ ¬ m.UsesTimers ∧
      m.around.timers.delay.value = 5 ∧
      ((m.step (pollingOnce [.press 3])).1.occur
        (.tick : Event Int)).around.timers.delay.value = 4 ∧
      (m.occur (.tick : Event Int)).step (pollingOnce [.press 3]) =
        ((m.step (pollingOnce [.press 3])).1.occur (.tick : Event Int),
          (m.step (pollingOnce [.press 3])).2) ∧
      m.course [.event .tick, .step (pollingOnce [.press 3])] =
        m.course [.step (pollingOnce [.press 3]), .event .tick] ∧
      m.course [.step (pollingOnce [.tick, .press 3])] =
        m.course [.step (pollingOnce [.press 3]), .event .tick] := by
  obtain ⟨start, journal, -, hholds, hpc, haround⟩ :=
    exists_holds #[0xF5, 0x0A] (by decide) (⟨0, 0, 0⟩ : VirtualClock Int)
  obtain ⟨m, hm⟩ : ∃ m, m = start.withTimers (·.setDelay 5) := ⟨_, rfl⟩
  have hfetch : m.CanFetch := hm ▸ hholds.canFetch 0 hpc (by decide)
  have hop : m.nextInstruction.op = some .awaitKey := by
    have hword : m.nextInstruction = .decode 0xF50A := hm ▸ hholds.nextInstruction 0 hpc (by decide)
    rw [hword]
    decide
  have hunused : ¬ m.UsesTimers := by
    rintro ⟨-, op, hop', huses⟩
    obtain rfl := Option.some.inj (hop.symm.trans hop')
    cases huses
  have hevents : ∀ events, m.stepEvents (pollingOnce events) = events := by
    intro events
    rw [stepEvents, if_pos ⟨hfetch, hop⟩, hm]
    simp [withTimers, fetched, beginCycle, haround, Surroundings.eventsOfWait, Surroundings.freshen,
      pollingOnce, Surroundings.waitEvents, Surroundings.roundEvents, Surroundings.pollEvents,
      Keyboard.nextCycle, Keyboard.dropStale]
  have hdelay : m.around.timers.delay.value = 5 := by
    rw [hm, withTimers, haround]
    rfl
  have htimers := timers_step_of_unused (pollingOnce [.press 3]) hunused
  rw [hevents] at htimers
  refine ⟨m, ⟨hfetch, hop⟩, hunused, hdelay, ?_, (ticks_move_freely.1 m _ hunused).1,
    (ticks_move_freely.2.1 m [] [.step (pollingOnce [.press 3])] [] ⟨hunused, trivial⟩).1,
    ticks_move_freely.2.2 m _ _ ⟨hunused, trivial⟩ ?_ ?_⟩
  · show (m.step (pollingOnce [.press 3])).1.around.timers.delay.value - 1 = 4
    rw [htimers]
    exact congrArg (· - 1) hdelay
  · have hstill : (pollingOnce [.tick, .press 3]).still = (pollingOnce [.press 3]).still := by
      simp only [Attendant.still, pollingOnce, Attendant.mk.injEq, Feed.mk.injEq, and_true]
      funext n
      by_cases hn : n = 1 <;> simp [hn, Event.still?, Event.isTick]
    exact congrArg (fun a => [Use.step a]) hstill
  · simp only [ticksOf, eventsOf, hevents]
    rfl

end Machine

end Chip8

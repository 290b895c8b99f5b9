import Chip8.Proofs.Machine.Calm
import Chip8.Proofs.Machine.Footprint
import Chip8.Proofs.Session.Display
import Chip8.Proofs.Session.Plain

/-!
# Every run cleans up

A run starts the timer clock and the buzzer, goes round its loop, and stops both when the loop is
left.  The loop can be left in the midst of an instruction too, when something outside fails, such
as the input source that a key wait polls (`Session.Leaves`).

Nothing in the loop touches the timer clock or the buzzer, and nothing in it reports an error
(`Session.Steady`).  So each run starts the timer clock and stops it, starts the buzzer and stops
it, and reports the one error that it ended with, if any (`Session.Makes.cleanedUp`).  This adds
up over any number of runs, and the machine stays what it was when the loop was left
(`Session.run_cleans_up`).
-/

namespace Chip8

variable {κ τ : Type}

/-- The buzzer is switched. -/
def Moment.isSound : Moment τ → Bool
  | .soundOn | .soundOff => true
  | _ => false

namespace Session

variable {s after later left : Session κ τ} {u : Setup τ}

/-! ### What the loop leaves alone -/

/-- When the buzzer was switched on and off, the earliest first. -/
def sounds (s : Session κ τ) : List (Moment τ) := s.moments.toList.filter Moment.isSound

/-- The timer clock and the buzzer were left alone, and no error was reported. -/
structure Steady (s after : Session κ τ) : Prop where
  /-- The timer clock was left alone. -/
  ticker : after.ticker = s.ticker
  /-- The buzzer was left alone. -/
  sounds : after.sounds = s.sounds
  /-- No error was reported. -/
  journal : s.journal.Calm after.journal

theorem Steady.refl (s : Session κ τ) : s.Steady s := ⟨rfl, rfl, .refl _⟩

theorem Steady.trans (h : s.Steady after) (h' : after.Steady later) : s.Steady later :=
  ⟨h'.ticker.trans h.ticker, h'.sounds.trans h.sounds, h.journal.trans h'.journal⟩

theorem sounds_notice (s : Session κ τ) (moment : Moment τ) :
    (s.notice moment).sounds = s.sounds ++ if moment.isSound then [moment] else [] := by
  simp only [sounds, notice, Array.toList_push, List.filter_append]
  cases h : moment.isSound <;> simp [h]

theorem steady_withAround (s : Session κ τ) {f : Surroundings κ → Surroundings κ}
    (h : s.journal.Calm (f s.machine.around).journal) : s.Steady (s.withAround f) := ⟨rfl, rfl, h⟩

theorem steady_note (s : Session κ τ) (text : String) : s.Steady (s.note text) :=
  steady_withAround s (s.journal.calm_note text)

theorem steady_notice (s : Session κ τ) {moment : Moment τ} (h : moment.isSound = false) :
    s.Steady (s.notice moment) := by
  refine ⟨rfl, ?_, .refl _⟩
  rw [sounds_notice, if_neg (by simp [h]), List.append_nil]

theorem steady_present [Clock κ τ] (s : Session κ τ) : s.Steady s.present := by
  have hshown : s.Steady { s with
      machine := { s.machine with screen := s.machine.screen.snapshot.2 }
      frames := s.frames + 1 } := ⟨rfl, rfl, .refl _⟩
  exact hshown.trans (steady_notice _ rfl)

theorem steady_report (u : Setup τ) (s : Session κ τ) (d : Schedule τ) :
    s.Steady (s.report u d) := by
  have hcounted : s.Steady { s with
      cyclesPerSecond := s.machine.cycles - d.cyclesAtReport
      framesPerSecond := s.frames - d.framesAtReport } := ⟨rfl, rfl, .refl _⟩
  unfold report
  split
  · exact (hcounted.trans (steady_notice _ rfl)).trans (steady_note _ _)
  · exact hcounted.trans (steady_notice _ rfl)

section Loop

variable [Clock κ τ]

theorem follows_steady : Follows (Steady : Session κ τ → Session κ τ → Prop) where
  refl := .refl
  trans := .trans
  look _ := ⟨rfl, rfl, .refl _⟩
  sleep duration s := by
    have hslept : s.Steady
        (s.withAround fun a => { a with clock := Clock.pass duration a.clock }) :=
      ⟨rfl, rfl, .refl _⟩
    exact hslept.trans (steady_notice _ rfl)
  present := steady_present
  report := steady_report

theorem steady_polled (u : Setup τ) (s : Session κ τ) : s.Steady (s.polled u) :=
  steady_withAround s (s.machine.around.calm_poll u.attendant.feed)

theorem steady_stepped (u : Setup τ) (s : Session κ τ) : s.Steady (s.stepped u) :=
  (steady_polled u s).trans ⟨rfl, rfl, (s.polled u).machine.calm_step u.attendant⟩

variable [Add τ] [Sub τ] [Neg τ] [LT τ] [LE τ] [OfNat τ 0] [DecidableLT τ] [DecidableLE τ]

theorem steady_pass {d : Schedule τ} (h : (s.pass u d).2.2 = none) :
    s.Steady (s.pass u d).1 := by
  rw [pass_of_goes_on h]
  exact (steady_stepped u s).trans (follows_steady.afterInstruction u (s.stepped u) d)

/-! ### How a loop is left -/

/-- The loop of a run with its deadlines is left with this ending, and leaves this session. -/
inductive Leaves (u : Setup τ) :
    Session κ τ → Schedule τ → Session κ τ → Ending → Prop where
  /-- The run is long enough. -/
  | limit {s : Session κ τ} {d : Schedule τ} : Leaves u s d s .limit
  /-- The user wants to leave. -/
  | exit {s : Session κ τ} {d : Schedule τ} (leaving : (s.polled u).exitRequested = true) :
      Leaves u s d ((s.polled u).note "Exit requested") .exit
  /-- The instruction fails. -/
  | fault {s : Session κ τ} {d : Schedule τ} {fault : Fault}
      (staying : (s.polled u).exitRequested = false)
      (failed : ((s.polled u).machine.step u.attendant).2 = .error fault) :
      Leaves u s d (s.stepped u) (.fault fault)
  /-- Something outside fails in the course of the instruction.  Whatever has become of the machine
  by then, no error was reported. -/
  | interrupted {s : Session κ τ} {d : Schedule τ} {machine : Machine κ}
      (staying : (s.polled u).exitRequested = false)
      (calm : (s.polled u).journal.Calm machine.around.journal) (fault : Fault) :
      Leaves u s d { s.polled u with machine } (.fault fault)
  /-- The loop goes on. -/
  | pass {s left : Session κ τ} {d : Schedule τ} {ending : Ending}
      (goes_on : (s.pass u d).2.2 = none) :
      Leaves u (s.pass u d).1 (s.pass u d).2.1 left ending → Leaves u s d left ending

theorem Leaves.steady {d : Schedule τ} {ending : Ending} (h : Leaves u s d left ending) :
    s.Steady left := by
  induction h with
  | limit => exact .refl _
  | exit leaving => exact (steady_polled u _).trans (steady_note _ _)
  | fault staying failed => exact steady_stepped u _
  | interrupted staying calm fault => exact (steady_polled u _).trans ⟨rfl, rfl, calm⟩
  | pass goes_on _ ih => exact (steady_pass goes_on).trans ih

/-- The session that the loop leaves is that of an instruction that fails with this fault. -/
def StepFails (u : Setup τ) (left : Session κ τ) (fault : Fault) : Prop :=
  ∃ before : Session κ τ, (before.polled u).exitRequested = false ∧
    ((before.polled u).machine.step u.attendant).2 = .error fault ∧ left = before.stepped u

/-- A key wait can be left after any events, when the input source fails that it polls. -/
theorem Leaves.of_waiting {d : Schedule τ} {around : Surroundings κ}
    (staying : (s.polled u).exitRequested = false) (events : List (Event τ))
    (h : around.journal = ((s.polled u).machine.around.deliver events).journal) (fault : Fault) :
    Leaves u s d (s.waiting u around) (.fault fault) := by
  refine .interrupted staying ?_ fault
  have hevents := (s.polled u).machine.around.calm_deliver events
  rw [← h] at hevents
  exact hevents

/-- The loop of a run is left in one of these ways, and a fault is that of an instruction. -/
theorem leaves_passes (u : Setup τ) (n : Nat) (s : Session κ τ) (d : Schedule τ) :
    Leaves u s d (s.passes u n d).1 (s.passes u n d).2 ∧
      ∀ fault, (s.passes u n d).2 = .fault fault → StepFails u (s.passes u n d).1 fault := by
  induction n generalizing s d with
  | zero => exact ⟨.limit, fun _ h => by cases h⟩
  | succ n ih =>
    cases hexit : (s.polled u).exitRequested with
    | true =>
      simp only [passes, pass_of_exit u d hexit]
      exact ⟨.exit hexit, fun _ h => by cases h⟩
    | false =>
      cases hresult : ((s.polled u).machine.step u.attendant).2 with
      | error fault =>
        simp only [passes, pass_of_failed u d hexit hresult]
        refine ⟨.fault hexit hresult, ?_⟩
        rintro _ ⟨⟩
        exact ⟨s, hexit, hresult, rfl⟩
      | ok i =>
        have hpass := pass_of_completed u d hexit hresult
        have hgoes_on : (s.pass u d).2.2 = none := by rw [hpass]
        obtain ⟨hleaves, hfails⟩ := ih (s.pass u d).1 (s.pass u d).2.1
        rw [passes_of_goes_on n hgoes_on]
        exact ⟨.pass hgoes_on hleaves, hfails⟩

end Loop

/-! ### The start and the end of a run -/

theorem ticker_setOut (u : Setup τ) (s : Session κ τ) :
    (s.setOut u).ticker = (s.ticker.start s.journal).1 := by
  unfold setOut
  split <;> rfl

theorem sounds_setOut (u : Setup τ) (s : Session κ τ) :
    (s.setOut u).sounds = s.sounds ++ if u.hasSound then [.soundOn] else [] := by
  unfold setOut
  split
  · exact sounds_notice (s.withTicker Ticker.start) .soundOn
  · exact (List.append_nil _).symm

theorem calm_setOut (u : Setup τ) (s : Session κ τ) : s.journal.Calm (s.setOut u).journal := by
  have hstart := s.ticker.calm_start s.journal
  unfold setOut
  split
  · exact hstart.trans (Journal.calm_note _ _)
  · exact hstart.trans (Journal.calm_note _ _)

theorem ticker_close (u : Setup τ) (s : Session κ τ) :
    (s.close u).ticker = (s.ticker.stop s.journal).1 := by
  unfold close
  split <;> rfl

theorem sounds_close (u : Setup τ) (s : Session κ τ) :
    (s.close u).sounds = s.sounds ++ if u.hasSound then [.soundOff] else [] := by
  unfold close
  split
  · exact sounds_notice s .soundOff
  · exact (List.append_nil _).symm

theorem calm_close (u : Setup τ) (s : Session κ τ) : s.journal.Calm (s.close u).journal := by
  unfold close
  split <;> exact s.ticker.calm_stop s.journal

end Session

/-- The run ended with a fatal emulation error. -/
def Ending.isEmulation : Ending → Bool
  | .fault f => f.isEmulation
  | _ => false

namespace Session

variable {s : Session κ τ}

/-- What the end of a run reports: after how many instructions and at which program counter the
machine was halted if there was a fatal emulation error, unless errors are held back. -/
def haltErrors (left : Session κ τ) (ending : Ending) : List Message :=
  if ending.isEmulation ∧ left.journal.threshold ≤ .error then
    [⟨.error, "Emulation halted after " ++ toString left.machine.cycles ++ " cycles (pc=0x" ++
      Hex.upper 3 left.machine.pc ++ ")", left.journal.isOpen⟩]
  else []

/-- The session was left as it was, but for one thing that may have been reported. -/
structure Mourned (s after : Session κ τ) (ending : Ending) : Prop where
  /-- The timer clock was left alone. -/
  ticker : after.ticker = s.ticker
  /-- The buzzer was left alone. -/
  sounds : after.sounds = s.sounds
  /-- The error was reported. -/
  errors : after.journal.errors = s.journal.errors ++ s.haltErrors ending
  /-- Errors are held back if they were. -/
  threshold : after.journal.threshold = s.journal.threshold

theorem mourned_of_not_isEmulation {ending : Ending} (h : ending.isEmulation = false) :
    s.Mourned s ending :=
  ⟨rfl, rfl, by simp [haltErrors, h], rfl⟩

theorem mourned_mourn (s : Session κ τ) (fault : Fault) :
    s.Mourned (s.mourn fault) (.fault fault) := by
  unfold mourn
  split
  · next hfault =>
    refine ⟨rfl, rfl, ?_, ?_⟩
    · have hwritten := s.journal.errors_write_error (haltText s.machine)
      simp only [haltErrors, Ending.isEmulation, hfault, true_and]
      exact hwritten
    · show (s.journal.write .error (haltText s.machine)).threshold = s.journal.threshold
      unfold Journal.write
      split <;> rfl
  · next hfault => exact mourned_of_not_isEmulation (by simpa [Ending.isEmulation] using hfault)

/-- A run is ended by closing what it has opened, once its fault was reported. -/
theorem exists_mourned (u : Setup τ) (s : Session κ τ) (ending : Ending) :
    ∃ mourned : Session κ τ, s.Mourned mourned ending ∧ s.finish u ending = mourned.close u := by
  cases ending with
  | limit => exact ⟨s, mourned_of_not_isEmulation rfl, rfl⟩
  | exit => exact ⟨s, mourned_of_not_isEmulation rfl, rfl⟩
  | fault fault => exact ⟨s.mourn fault, mourned_mourn s fault, rfl⟩

/-! ### Runs -/

/-- What is to be told of a run: how it was arranged, the session that its loop left, and how it
ended. -/
structure RunRecord (κ τ : Type) where
  /-- How it was arranged. -/
  setup : Setup τ
  /-- The session that its loop left. -/
  left : Session κ τ
  /-- How it ended. -/
  ending : Ending

namespace RunRecord

/-- The session after the run. -/
def after (r : RunRecord κ τ) : Session κ τ := r.left.finish r.setup r.ending

/-- What the buzzer gets to do in the run. -/
def sounds (r : RunRecord κ τ) : List (Moment τ) :=
  if r.setup.hasSound then [.soundOn, .soundOff] else []

/-- The errors that the run reports. -/
def errors (r : RunRecord κ τ) : List Message := r.left.haltErrors r.ending

end RunRecord

variable [Clock κ τ]
variable [Add τ] [Sub τ] [Neg τ] [LT τ] [LE τ] [OfNat τ 0] [DecidableLT τ] [DecidableLE τ]

/-- The session can make this run. -/
def Makes (s : Session κ τ) (r : RunRecord κ τ) : Prop :=
  Leaves r.setup ((s.setOut r.setup).schedule r.setup).2 ((s.setOut r.setup).schedule r.setup).1
    r.left r.ending

/-- The session can make these runs one after the other. -/
def MakesAll (s : Session κ τ) : List (RunRecord κ τ) → Prop
  | [] => True
  | r :: rs => s.Makes r ∧ r.after.MakesAll rs

omit [Clock κ τ] [Add τ] [Sub τ] [Neg τ] [LT τ] [LE τ] [OfNat τ 0] [DecidableLT τ]
  [DecidableLE τ] in
/-- The session after runs one after the other. -/
def afterAll (s : Session κ τ) (rs : List (RunRecord κ τ)) : Session κ τ :=
  rs.foldl (fun _ r => r.after) s

/-- A run of this session has cleaned up. -/
structure CleanedUp (s : Session κ τ) (r : RunRecord κ τ) : Prop where
  /-- The timer clock does not run. -/
  stopped : r.after.ticker.worker = .absent ∧ r.after.ticker.running = false
  /-- It was started, unless it was running. -/
  started : r.after.ticker.started = s.ticker.started + if s.ticker.running then 0 else 1
  /-- Its thread was joined, once. -/
  joined : r.after.ticker.joined = s.ticker.joined + 1
  /-- The buzzer, if there is one, was switched on and then off, once. -/
  sounds : r.after.sounds = s.sounds ++ r.sounds
  /-- A fatal emulation error was reported, and nothing else. -/
  errors : r.after.journal.errors = s.journal.errors ++ r.errors
  /-- Errors that were not held back were not held back in the end. -/
  heard : s.journal.threshold ≤ .error →
    r.left.journal.threshold ≤ .error ∧ r.after.journal.threshold ≤ .error
  /-- But for the journal, the machine is what it was when the loop was left. -/
  machine : r.left.machine.Journaled r.after.machine
  /-- The next run starts a thread that has not been asked to stop. -/
  restarts : ∀ u : Setup τ,
    (r.after.setOut u).ticker.worker = .alive ∧ (r.after.setOut u).ticker.stopping = false

/-- **A run cleans up**, however its loop is left. -/
theorem Makes.cleanedUp {r : RunRecord κ τ} (h : s.Makes r) : s.CleanedUp r := by
  have hschedule : (s.setOut r.setup).Steady ((s.setOut r.setup).schedule r.setup).2 :=
    follows_steady.look _
  have hsteady := hschedule.trans h.steady
  obtain ⟨mourned, hmourned, hafter⟩ := exists_mourned r.setup r.left r.ending
  -- the thread that runs in the end is the one that ran when the loop began
  obtain ⟨hthread, hjoined, hstarted⟩ := s.ticker.started_start s.journal
  rw [← ticker_setOut r.setup, ← hsteady.ticker, ← hmourned.ticker] at hthread hjoined hstarted
  obtain ⟨habsent, hjoined', hstarted'⟩ := Ticker.joined_stop hthread mourned.journal
  rw [← ticker_close r.setup, ← hafter] at habsent hjoined' hstarted'
  have hclosed := calm_close r.setup mourned
  have hbegun := calm_setOut r.setup s
  constructor
  case stopped =>
    refine ⟨habsent, ?_⟩
    rw [Ticker.running, RunRecord.after, habsent]
    rfl
  case started => exact hstarted'.trans hstarted
  case joined => exact hjoined'.trans (congrArg (· + 1) hjoined)
  case sounds =>
    rw [RunRecord.after, hafter, sounds_close, hmourned.sounds, hsteady.sounds, sounds_setOut,
      List.append_assoc, RunRecord.sounds]
    split <;> rfl
  case errors =>
    rw [RunRecord.after, hafter, hclosed.errors, hmourned.errors, hsteady.journal.errors,
      hbegun.errors, RunRecord.errors]
  case heard =>
    intro hheard
    have hleft := hsteady.journal.threshold (hbegun.threshold hheard)
    refine ⟨hleft, ?_⟩
    rw [RunRecord.after, hafter]
    exact hclosed.threshold (hmourned.threshold ▸ hleft)
  case machine => exact finish_journaled r.setup r.left r.ending
  case restarts =>
    intro u
    rw [ticker_setOut]
    exact Ticker.alive_start habsent _

/-- The runs of a session one after the other start and join as many threads, and what they ask of
the buzzer and report adds up. -/
structure AddUp (s : Session κ τ) (rs : List (RunRecord κ τ)) : Prop where
  /-- After a run there is no thread. -/
  stopped : rs ≠ [] → (s.afterAll rs).ticker.worker = .absent
  /-- As many threads were started as there were runs. -/
  started : s.ticker.running = false →
    (s.afterAll rs).ticker.started = s.ticker.started + rs.length
  /-- As many threads were joined. -/
  joined : (s.afterAll rs).ticker.joined = s.ticker.joined + rs.length
  /-- The buzzer was switched on and off in each of them. -/
  sounds : (s.afterAll rs).sounds = s.sounds ++ rs.flatMap RunRecord.sounds
  /-- The errors are those of the runs. -/
  errors : (s.afterAll rs).journal.errors = s.journal.errors ++ rs.flatMap RunRecord.errors

theorem MakesAll.addUp {rs : List (RunRecord κ τ)} (h : s.MakesAll rs) : s.AddUp rs := by
  induction rs generalizing s with
  | nil =>
    exact ⟨fun hne => absurd rfl hne, fun _ => rfl, rfl, by simp [afterAll], by simp [afterAll]⟩
  | cons r rs ih =>
    have hrun := h.1.cleanedUp
    have hrest := ih h.2
    have hafter : s.afterAll (r :: rs) = r.after.afterAll rs := rfl
    constructor
    case stopped =>
      intro _
      rw [hafter]
      by_cases hlast : rs = []
      · rw [hlast]
        exact hrun.stopped.1
      · exact hrest.stopped hlast
    case started =>
      intro hidle
      rw [hafter, hrest.started hrun.stopped.2, hrun.started, hidle, List.length_cons]
      simp only [Bool.false_eq_true, if_false]
      omega
    case joined =>
      rw [hafter, hrest.joined, hrun.joined, List.length_cons]
      omega
    case sounds =>
      rw [hafter, hrest.sounds, hrun.sounds, List.append_assoc, List.flatMap_cons]
    case errors =>
      rw [hafter, hrest.errors, hrun.errors, List.append_assoc, List.flatMap_cons]

/-- **Every run cleans up, whatever happens.**  Whatever a run comes to, with a limit or without
one, its loop was left because the limit was reached, because the user wanted to leave, or by an
instruction whose fault is the one that the run ends with.  And however a loop is left, be it in the
midst of an instruction when something fails outside: the timer clock is stopped, and the thread
that the run has started was joined, once; the buzzer, if there is one, was switched on once and
then off once; if the fault is a fatal emulation error it was reported once, with the count of
instructions and the program counter of that moment, and otherwise nothing was; and the machine is
what it was when the loop was left.  Over runs one after the other all this adds up. -/
theorem run_cleans_up (u : Setup τ) (s : Session κ τ) :
    (∀ limit result, ComesTo (fun n => s.run u n) limit result →
      ∃ left, s.Makes ⟨u, left, result.2⟩ ∧
        result.1 = (⟨u, left, result.2⟩ : RunRecord κ τ).after ∧
        ∀ fault, result.2 = .fault fault → StepFails u left fault) ∧
    (∀ r, s.Makes r → s.CleanedUp r) ∧
    ∀ rs, s.MakesAll rs → s.AddUp rs := by
  have hrun : ∀ n, ∃ left, s.Makes ⟨u, left, (s.run u n).2⟩ ∧
      (s.run u n).1 = (⟨u, left, (s.run u n).2⟩ : RunRecord κ τ).after ∧
      ∀ fault, (s.run u n).2 = .fault fault → StepFails u left fault := by
    intro n
    obtain ⟨hleaves, hfails⟩ :=
      leaves_passes u n ((s.setOut u).schedule u).2 ((s.setOut u).schedule u).1
    exact ⟨_, hleaves, rfl, hfails⟩
  refine ⟨?_, fun r hr => hr.cleanedUp, fun rs hrs => hrs.addUp⟩
  intro limit result hresult
  cases limit with
  | some n =>
    obtain rfl : s.run u n = result := hresult
    exact hrun n
  | none =>
    obtain ⟨-, n, rfl⟩ := hresult
    exact hrun n

/-- A run of a program whose second word is no instruction has reported that, stopped its timer
clock and switched its buzzer off; the first instruction was completed. -/
theorem failed_run_cleaned_up :
    ∃ s left : Session (VirtualClock Int) Int,
      (s.run showingAtOnce 9).2 = .fault (.unknownInstruction 0xFFFF 0x202) ∧
      s.Makes ⟨showingAtOnce, left, .fault (.unknownInstruction 0xFFFF 0x202)⟩ ∧
      (s.run showingAtOnce 9).1.machine.cycles = 1 ∧
      (s.run showingAtOnce 9).1.machine.reg 0 = 1 ∧
      (s.run showingAtOnce 9).1.ticker.worker = .absent ∧
      (s.run showingAtOnce 9).1.ticker.joined = 1 ∧
      (s.run showingAtOnce 9).1.sounds = [.soundOn, .soundOff] ∧
      (s.run showingAtOnce 9).1.journal.errors =
        [⟨.error, "Emulation halted after 1 cycles (pc=0x204)", left.journal.isOpen⟩] := by
  obtain ⟨m, -, hboot, hholds, hpc, -⟩ :=
    Machine.exists_holds #[0x60, 0x01, 0xFF, 0xFF] (by decide) (⟨0, 0, 0⟩ : VirtualClock Int)
  let s : Session (VirtualClock Int) Int :=
    { machine := { m with around := { clock := ⟨0, 0, 0⟩ } }
      ticker := { period := 1, rate := .ok 60 } }
  let a := showingAtOnce.attendant
  have hcycles : m.cycles = 0 := by
    obtain ⟨store, rfl⟩ := Machine.exists_store_of_boot hboot
    rfl
  -- the first instruction is completed
  have hfirst : (s.machine.polled a).Holds _ := hholds.of_store_eq rfl
  have hfetch : (s.machine.polled a).CanFetch := hfirst.canFetch 0 hpc (by decide)
  have hset : (s.machine.polled a).nextInstruction = .decode 0x6001 :=
    hfirst.nextInstruction 0 hpc (by decide)
  have hop : (s.machine.polled a).nextInstruction.op = some .setByte := by rw [hset]; decide
  have hstep := Machine.step_of_execute_ok a hfetch hop (by decide) rfl
  obtain ⟨journal, hnoted⟩ := Machine.noted_eq ((s.machine.polled a).fetched.setReg
    (s.machine.polled a).nextInstruction.x (s.machine.polled a).nextInstruction.kk)
    (s.machine.polled a).nextInstruction .setByte
  rw [hnoted] at hstep
  have hone := Machine.loop_of_ok a 8 (m := s.machine) rfl hstep
  obtain ⟨next, hnext⟩ : ∃ next, next = ({ (s.machine.polled a).fetched.setReg
    (s.machine.polled a).nextInstruction.x (s.machine.polled a).nextInstruction.kk with
      around := { (s.machine.polled a).fetched.around with journal } }).completed := ⟨_, rfl⟩
  have hone' : s.machine.loop a 9 = next.loop a 8 := hnext ▸ hone
  have hreg : next.reg 0 = 1 := by
    rw [hnext]
    show ((s.machine.polled a).fetched.setReg _ _).reg 0 = 1
    rw [Machine.reg_setReg, hset, if_pos (by decide)]
    decide
  -- the second one is none
  have hsecond : (next.polled a).Holds _ := hholds.of_store_eq (hnext ▸ rfl)
  have hpc' : (next.polled a).pc = (Store.programStart + 2 : Nat) := by
    rw [hnext]
    exact congrArg Machine.nextAddress hpc
  have hword : (next.polled a).nextInstruction = .decode 0xFFFF :=
    hsecond.nextInstruction 2 hpc' (by decide)
  have hfailed := Machine.step_of_unknown a (hsecond.canFetch 2 hpc' (by decide))
    (by rw [hword]; decide)
  rw [← Machine.nextInstruction_word, hword, hpc'] at hfailed
  have htwo := Machine.loop_of_error a 7 (hnext ▸ rfl) hfailed
  obtain ⟨hending, hsame⟩ := run_same_loop showingAtOnce 9 s
  have hloop : s.machine.loop showingAtOnce.attendant 9 =
      ((next.polled a).fetched, .fault (.unknownInstruction 0xFFFF 0x202)) := hone'.trans htwo
  rw [hloop] at hending hsame
  -- and so the run ends as runs do
  obtain ⟨left, hmakes, hafter, -⟩ := (run_cleans_up showingAtOnce s).1 (some 9) _ rfl
  rw [hending] at hmakes hafter
  have hclean := (run_cleans_up showingAtOnce s).2.1 _ hmakes
  have hgrave : Level.warning ≤ Level.error := by decide
  have hheard : left.journal.threshold ≤ .error := (hclean.heard hgrave).1
  have hcycles' : (s.run showingAtOnce 9).1.machine.cycles = 1 := by
    rw [hsame.cycles, hnext]
    exact congrArg (· + 1) hcycles
  refine ⟨s, left, hending, hmakes, hcycles', ?_, ?_, ?_, ?_, ?_⟩
  · rw [Machine.reg, hsame.registers]
    exact hreg
  · rw [hafter]
    exact hclean.stopped.1
  · rw [hafter]
    exact hclean.joined
  · rw [hafter]
    exact hclean.sounds
  · obtain ⟨journal, hleft⟩ := hclean.machine
    rw [← hafter] at hleft
    have hcount : left.machine.cycles = 1 := (congrArg Machine.cycles hleft).symm.trans hcycles'
    have hcounter : left.machine.pc = Machine.nextAddress (next.polled a).pc :=
      (congrArg Machine.pc hleft).symm.trans hsame.pc
    rw [hafter, hclean.errors, RunRecord.errors, haltErrors, if_pos ⟨rfl, hheard⟩, hcount, hcounter,
      hpc']
    rfl

end Session

end Chip8

import Chip8.Proofs.Machine.Reach
import Chip8.Session.Run

/-!
# What a session does to its machine

Apart from polls and steps, a session looks at the clock, sleeps, shows pictures and writes to the
journal.  The program notices none of it: the machine before and the machine after *agree*
(`Machine.Agrees`).  So a pass of a run is, for the machine, a poll and perhaps a step
(`Session.pass_passes`).
-/

namespace Chip8

/-- Only whether the picture is due to be shown, the clock and the journal may differ. -/
def Machine.Agrees {κ : Type} (m after : Machine κ) : Prop :=
  ∃ dirty clock journal,
    after = { m with
      screen := { m.screen with dirty }
      around := { m.around with clock, journal } }

/-- Only the journal may differ. -/
def Machine.Journaled {κ : Type} (m after : Machine κ) : Prop :=
  ∃ journal, after = { m with around := { m.around with journal } }

namespace Machine

variable {κ : Type} {m after later : Machine κ}

theorem Journaled.refl (m : Machine κ) : m.Journaled m := ⟨m.around.journal, rfl⟩

theorem Journaled.trans (h : m.Journaled after) (h' : after.Journaled later) :
    m.Journaled later := by
  obtain ⟨_, rfl⟩ := h
  obtain ⟨journal, rfl⟩ := h'
  exact ⟨journal, rfl⟩

theorem Journaled.agrees (h : m.Journaled after) : m.Agrees after := by
  obtain ⟨journal, rfl⟩ := h
  exact ⟨m.screen.dirty, m.around.clock, journal, rfl⟩

theorem Agrees.refl (m : Machine κ) : m.Agrees m :=
  ⟨m.screen.dirty, m.around.clock, m.around.journal, rfl⟩

theorem Agrees.trans (h : m.Agrees after) (h' : after.Agrees later) : m.Agrees later := by
  obtain ⟨_, _, _, rfl⟩ := h
  obtain ⟨dirty, clock, journal, rfl⟩ := h'
  exact ⟨dirty, clock, journal, rfl⟩

theorem Agrees.cycles (h : m.Agrees after) : after.cycles = m.cycles := by
  obtain ⟨_, _, _, rfl⟩ := h
  rfl

theorem Agrees.polls (h : m.Agrees after) : after.around.polls = m.around.polls := by
  obtain ⟨_, _, _, rfl⟩ := h
  rfl

theorem Agrees.keyboard (h : m.Agrees after) : after.around.keyboard = m.around.keyboard := by
  obtain ⟨_, _, _, rfl⟩ := h
  rfl

end Machine

namespace Session

variable {κ τ : Type} {s : Session κ τ}

theorem note_journaled (s : Session κ τ) (text : String) :
    s.machine.Journaled (s.note text).machine := ⟨_, rfl⟩

theorem withTicker_journaled (s : Session κ τ)
    (act : Ticker τ → Journal → Ticker τ × Journal) :
    s.machine.Journaled (s.withTicker act).machine := ⟨_, rfl⟩

theorem mourn_journaled (s : Session κ τ) (fault : Fault) :
    s.machine.Journaled (s.mourn fault).machine := by
  unfold mourn
  split
  · exact ⟨_, rfl⟩
  · exact .refl _

theorem close_journaled (u : Setup τ) (s : Session κ τ) :
    s.machine.Journaled (s.close u).machine := by
  unfold close
  split
  · exact withTicker_journaled _ _
  · exact withTicker_journaled _ _

theorem finish_journaled (u : Setup τ) (s : Session κ τ) (ending : Ending) :
    s.machine.Journaled (s.finish u ending).machine := by
  unfold finish
  split
  · exact (mourn_journaled s _).trans (close_journaled u _)
  · exact close_journaled u s

theorem setOut_journaled (u : Setup τ) (s : Session κ τ) :
    s.machine.Journaled (s.setOut u).machine := by
  have hstart := withTicker_journaled s Ticker.start
  unfold setOut
  split
  · exact hstart.trans (note_journaled _ _)
  · exact hstart.trans (note_journaled _ _)

theorem report_journaled (u : Setup τ) (s : Session κ τ) (d : Schedule τ) :
    s.machine.Journaled (s.report u d).machine := by
  unfold report
  split
  · exact note_journaled _ _
  · exact .refl _

theorem finish_agrees (u : Setup τ) (s : Session κ τ) (ending : Ending) :
    s.machine.Agrees (s.finish u ending).machine :=
  (finish_journaled u s ending).agrees

theorem setOut_agrees (u : Setup τ) (s : Session κ τ) : s.machine.Agrees (s.setOut u).machine :=
  (setOut_journaled u s).agrees

theorem present_agrees [Clock κ τ] (s : Session κ τ) : s.machine.Agrees s.present.machine :=
  ⟨false, s.machine.around.clock, s.machine.around.journal, rfl⟩

variable [Clock κ τ]

theorem look_agrees (s : Session κ τ) : s.machine.Agrees s.look.2.machine :=
  ⟨s.machine.screen.dirty, _, s.machine.around.journal, rfl⟩

theorem schedule_agrees [Add τ] (u : Setup τ) (s : Session κ τ) :
    s.machine.Agrees (s.schedule u).2.machine :=
  look_agrees s

theorem schedule_setOut [Add τ] (u : Setup τ) (s : Session κ τ) :
    ((s.setOut u).schedule u).1.cycle = Clock.time s.machine.around.clock ∧
      ((s.setOut u).schedule u).1.frame = Clock.time s.machine.around.clock + u.pace.frame ∧
      ((s.setOut u).schedule u).1.report = Clock.time s.machine.around.clock + u.pace.report ∧
      ((s.setOut u).schedule u).2.machine.around.clock = Clock.read s.machine.around.clock := by
  have hclock : (s.setOut u).machine.around.clock = s.machine.around.clock := by
    unfold setOut
    split <;> rfl
  simp only [schedule, look, withAround, hclock, and_self]

/-! ### What follows an instruction -/

/-- A relation between sessions that holds whatever follows an instruction in a pass: looks at the
clock, sleeps, frames that are shown, reports, and several of these one after the other. -/
structure Follows (R : Session κ τ → Session κ τ → Prop) : Prop where
  /-- Nothing happens. -/
  refl : ∀ s, R s s
  /-- One thing happens after another. -/
  trans : ∀ {s after later : Session κ τ}, R s after → R after later → R s later
  /-- The session looks at the clock. -/
  look : ∀ s : Session κ τ, R s s.look.2
  /-- It sleeps. -/
  sleep : ∀ (duration : τ) (s : Session κ τ),
    R s ((s.withAround fun a => { a with clock := Clock.pass duration a.clock }).notice
      (.slept duration))
  /-- It shows its picture. -/
  present : ∀ s : Session κ τ, R s s.present
  /-- It reports its speed. -/
  report : ∀ (u : Setup τ) (s : Session κ τ) (d : Schedule τ), R s (s.report u d)

section Pacing

variable [Add τ] [Sub τ] [Neg τ] [LT τ] [OfNat τ 0] [DecidableLT τ]
variable {R : Session κ τ → Session κ τ → Prop}

theorem Follows.paceOut (hR : Follows R) (u : Setup τ) (s : Session κ τ) (d : Schedule τ) :
    R s (s.paceOut u d).1 := by
  have hlook := hR.look s
  unfold Session.paceOut
  dsimp only
  split
  · exact hR.trans hlook (hR.sleep _ _)
  · split
    · exact hR.trans hlook (hR.look _)
    · exact hlook

variable [LE τ] [DecidableLE τ]

omit [Sub τ] [Neg τ] [OfNat τ 0] in
theorem Follows.showIfDue (hR : Follows R) (u : Setup τ) (s : Session κ τ) (d : Schedule τ)
    (now : τ) : R s (s.showIfDue u d now).1 := by
  unfold Session.showIfDue
  split
  · dsimp only
    split
    · exact hR.present s
    · exact hR.refl s
  · exact hR.refl s

omit [Sub τ] [Neg τ] [LT τ] [OfNat τ 0] [DecidableLT τ] in
theorem Follows.reportIfDue (hR : Follows R) (u : Setup τ) (s : Session κ τ) (d : Schedule τ)
    (now : τ) : R s (s.reportIfDue u d now).1 := by
  unfold Session.reportIfDue
  split
  · exact hR.report u s d
  · exact hR.refl s

theorem Follows.afterInstruction (hR : Follows R) (u : Setup τ) (s : Session κ τ)
    (d : Schedule τ) : R s (s.afterInstruction u d).1 := by
  have hshown := hR.trans (hR.look s) (hR.showIfDue u s.look.2 d s.look.1)
  exact hR.trans hshown (hR.trans (hR.reportIfDue u _ _ _) (hR.paceOut u _ _))

omit [Add τ] [Sub τ] [Neg τ] [LT τ] [OfNat τ 0] [DecidableLT τ] [LE τ] [DecidableLE τ] in
theorem follows_agrees :
    Follows fun s after : Session κ τ => s.machine.Agrees after.machine where
  refl s := .refl s.machine
  trans := .trans
  look := look_agrees
  sleep _ s := ⟨s.machine.screen.dirty, _, s.machine.around.journal, rfl⟩
  present := present_agrees
  report u s d := (report_journaled u s d).agrees

theorem afterInstruction_agrees (u : Setup τ) (s : Session κ τ) (d : Schedule τ) :
    s.machine.Agrees (s.afterInstruction u d).1.machine :=
  follows_agrees.afterInstruction u s d

/-! ### Time -/

omit [Sub τ] [Neg τ] [OfNat τ 0] in
theorem showIfDue_clock (u : Setup τ) (s : Session κ τ) (d : Schedule τ) (now : τ) :
    (s.showIfDue u d now).1.machine.around.clock = s.machine.around.clock ∧
      (s.showIfDue u d now).2.cycle = d.cycle := by
  unfold showIfDue
  split
  · dsimp only
    split <;> exact ⟨rfl, rfl⟩
  · exact ⟨rfl, rfl⟩

omit [Clock κ τ] [Sub τ] [Neg τ] [LT τ] [OfNat τ 0] [DecidableLT τ] in
theorem reportIfDue_clock (u : Setup τ) (s : Session κ τ) (d : Schedule τ) (now : τ) :
    (s.reportIfDue u d now).1.machine.around.clock = s.machine.around.clock ∧
      (s.reportIfDue u d now).2.cycle = d.cycle := by
  unfold reportIfDue
  split
  · refine ⟨?_, rfl⟩
    unfold report
    split <;> rfl
  · exact ⟨rfl, rfl⟩

omit [LE τ] [DecidableLE τ] in
theorem paceOut_clock (u : Setup τ) (s : Session κ τ) (d : Schedule τ)
    (h : 0 < d.cycle + u.pace.cycle - Clock.time s.machine.around.clock) :
    (s.paceOut u d).1.machine.around.clock =
      Clock.pass (d.cycle + u.pace.cycle - Clock.time s.machine.around.clock)
        (Clock.read s.machine.around.clock) := by
  unfold paceOut
  dsimp only [look]
  rw [if_pos h]
  rfl

/-- Behind an instruction a session looks at the clock twice, and it sleeps until the next
instruction is due if that is not due by then. -/
theorem clock_afterInstruction (u : Setup τ) (s : Session κ τ) (d : Schedule τ)
    (h : 0 < d.cycle + u.pace.cycle - Clock.time (Clock.read s.machine.around.clock)) :
    (s.afterInstruction u d).1.machine.around.clock =
      Clock.pass (d.cycle + u.pace.cycle - Clock.time (Clock.read s.machine.around.clock))
        (Clock.read (Clock.read s.machine.around.clock)) := by
  obtain ⟨hshown, hcycle⟩ := showIfDue_clock u s.look.2 d s.look.1
  obtain ⟨hreported, hcycle'⟩ := reportIfDue_clock u (s.look.2.showIfDue u d s.look.1).1
    (s.look.2.showIfDue u d s.look.1).2 s.look.1
  have hclock := hreported.trans hshown
  have hsame := hcycle'.trans hcycle
  unfold afterInstruction
  dsimp only
  generalize reportIfDue u _ _ _ = later at hclock hsame ⊢
  have hlook : later.1.machine.around.clock = Clock.read s.machine.around.clock := hclock
  have hpace := paceOut_clock u later.1 later.2
  rw [hlook, hsame] at hpace
  exact hpace h

/-! ### A pass -/

/-- The session after the poll that a pass begins with. -/
def polled (u : Setup τ) (s : Session κ τ) : Session κ τ :=
  s.withAround (·.poll u.attendant.feed)

/-- The session after the poll and the instruction of a pass. -/
def stepped (u : Setup τ) (s : Session κ τ) : Session κ τ :=
  { s.polled u with machine := ((s.polled u).machine.step u.attendant).1 }

/-- A pass for the machine: it polls, and unless the user wants to leave it executes one
instruction. -/
inductive Passes (u : Setup τ) (s : Session κ τ) : Session κ τ → Option Ending → Prop where
  /-- The user wants to leave. -/
  | exit {after : Session κ τ} (leaving : (s.polled u).exitRequested = true)
      (agrees : (s.polled u).machine.Agrees after.machine) : Passes u s after (some .exit)
  /-- The instruction fails. -/
  | fault {after : Session κ τ} {fault : Fault} (staying : (s.polled u).exitRequested = false)
      (failed : ((s.polled u).machine.step u.attendant).2 = .error fault)
      (agrees : ((s.polled u).machine.step u.attendant).1.Agrees after.machine) :
      Passes u s after (some (.fault fault))
  /-- The instruction is completed. -/
  | step {after : Session κ τ} {i : Instruction} (staying : (s.polled u).exitRequested = false)
      (completed : ((s.polled u).machine.step u.attendant).2 = .ok i)
      (agrees : ((s.polled u).machine.step u.attendant).1.Agrees after.machine) :
      Passes u s after none

theorem pass_of_exit (u : Setup τ) (d : Schedule τ) (h : (s.polled u).exitRequested = true) :
    s.pass u d = ((s.polled u).note "Exit requested", d, some .exit) := if_pos h

theorem pass_of_error (u : Setup τ) (d : Schedule τ) (h : (s.polled u).exitRequested = false)
    {machine : Machine κ} {fault : Fault}
    (hstep : (s.polled u).machine.step u.attendant = (machine, .error fault)) :
    s.pass u d = ({ s.polled u with machine }, d, some (.fault fault)) := by
  unfold polled at h hstep
  simp only [pass, h, hstep, polled, Bool.false_eq_true, if_false]

theorem pass_of_ok (u : Setup τ) (d : Schedule τ) (h : (s.polled u).exitRequested = false)
    {machine : Machine κ} {i : Instruction}
    (hstep : (s.polled u).machine.step u.attendant = (machine, .ok i)) :
    s.pass u d =
      ((afterInstruction u { s.polled u with machine } d).1,
        (afterInstruction u { s.polled u with machine } d).2, none) := by
  unfold polled at h hstep
  simp only [pass, h, hstep, polled, Bool.false_eq_true, if_false]

theorem pass_of_failed (u : Setup τ) (d : Schedule τ) (h : (s.polled u).exitRequested = false)
    {fault : Fault} (hstep : ((s.polled u).machine.step u.attendant).2 = .error fault) :
    s.pass u d = (s.stepped u, d, some (.fault fault)) :=
  pass_of_error u d h (Prod.ext rfl hstep)

theorem pass_of_completed (u : Setup τ) (d : Schedule τ) (h : (s.polled u).exitRequested = false)
    {i : Instruction} (hstep : ((s.polled u).machine.step u.attendant).2 = .ok i) :
    s.pass u d =
      (((s.stepped u).afterInstruction u d).1, ((s.stepped u).afterInstruction u d).2, none) :=
  pass_of_ok u d h (Prod.ext rfl hstep)

theorem pass_of_goes_on {u : Setup τ} {d : Schedule τ} (h : (s.pass u d).2.2 = none) :
    s.pass u d =
      (((s.stepped u).afterInstruction u d).1, ((s.stepped u).afterInstruction u d).2, none) := by
  cases hexit : (s.polled u).exitRequested with
  | true =>
    rw [pass_of_exit u d hexit] at h
    cases h
  | false =>
    cases hresult : ((s.polled u).machine.step u.attendant).2 with
    | error fault =>
      rw [pass_of_failed u d hexit hresult] at h
      cases h
    | ok i => exact pass_of_completed u d hexit hresult

/-- A pass that ends its run has heard that the user wants to leave, or its instruction fails. -/
theorem pass_of_stops {u : Setup τ} {d : Schedule τ} {ending : Ending}
    (h : (s.pass u d).2.2 = some ending) :
    (ending = .exit ∧ s.pass u d = ((s.polled u).note "Exit requested", d, some .exit)) ∨
      ∃ fault, ending = .fault fault ∧ s.pass u d = (s.stepped u, d, some (.fault fault)) := by
  cases hexit : (s.polled u).exitRequested with
  | true =>
    have hpass := pass_of_exit u d hexit
    rw [hpass] at h
    exact .inl ⟨(Option.some.inj h).symm, hpass⟩
  | false =>
    cases hresult : ((s.polled u).machine.step u.attendant).2 with
    | error fault =>
      have hpass := pass_of_failed u d hexit hresult
      rw [hpass] at h
      exact .inr ⟨fault, (Option.some.inj h).symm, hpass⟩
    | ok i =>
      rw [pass_of_completed u d hexit hresult] at h
      cases h

theorem cycles_pass (u : Setup τ) (s : Session κ τ) (d : Schedule τ) :
    (s.pass u d).1.machine.cycles =
      s.machine.cycles + if (s.pass u d).2.2.isNone then 1 else 0 := by
  cases hexit : (s.polled u).exitRequested with
  | true =>
    rw [pass_of_exit u d hexit]
    rfl
  | false =>
    have hstepped := Machine.step_cycles u.attendant (s.polled u).machine
    cases hresult : ((s.polled u).machine.step u.attendant).2 with
    | error fault =>
      rw [hresult] at hstepped
      rw [pass_of_failed u d hexit hresult]
      exact hstepped
    | ok i =>
      rw [hresult] at hstepped
      rw [pass_of_completed u d hexit hresult]
      exact (afterInstruction_agrees u (s.stepped u) d).cycles.trans hstepped

theorem passes_of_goes_on {u : Setup τ} {d : Schedule τ} (n : Nat) (h : (s.pass u d).2.2 = none) :
    s.passes u (n + 1) d = (s.pass u d).1.passes u n (s.pass u d).2.1 := by
  rcases hpass : s.pass u d with ⟨after, next, _ | ending⟩
  · simp only [passes, hpass]
  · rw [hpass] at h
    cases h

theorem pass_passes (u : Setup τ) (s : Session κ τ) (d : Schedule τ) :
    s.Passes u (s.pass u d).1 (s.pass u d).2.2 := by
  by_cases hexit : (s.polled u).exitRequested = true
  · rw [pass_of_exit u d hexit]
    exact .exit hexit (note_journaled _ _).agrees
  have hstaying : (s.polled u).exitRequested = false := by simpa using hexit
  rcases hstep : (s.polled u).machine.step u.attendant with ⟨machine, fault | i⟩
  · rw [pass_of_error u d hstaying hstep]
    refine .fault hstaying (congrArg Prod.snd hstep) ?_
    rw [hstep]
    exact .refl _
  · rw [pass_of_ok u d hstaying hstep]
    refine .step hstaying (congrArg Prod.snd hstep) ?_
    rw [hstep]
    exact afterInstruction_agrees u { s.polled u with machine } d

theorem goes_on_of_limit {u : Setup τ} {d : Schedule τ} {n : Nat}
    (h : (s.passes u (n + 1) d).2 = .limit) : (s.pass u d).2.2 = none := by
  have hpasses := pass_passes u s d
  rcases hpass : s.pass u d with ⟨after, next, _ | ending⟩
  · rfl
  · -- a pass ends a run in other ways
    rw [hpass] at hpasses
    simp only [passes, hpass] at h
    subst h
    cases hpasses

end Pacing

/-! ### A run that begins -/

/-- A run of a program has just begun with a machine that was just switched on, at time nought and
on a clock that only naps move. -/
structure Begun (program : Array UInt8) (u : Setup Int) (s : Session (VirtualClock Int) Int)
    (d : Schedule Int) : Prop where
  /-- Before the run nothing was drawn or shown. -/
  start : ∃ fresh : Session (VirtualClock Int) Int,
    fresh.machine.screen = .blank Screen.standardWidth Screen.standardHeight ∧
      fresh.moments = #[] ∧ (fresh.setOut u).schedule u = (d, s)
  /-- The machine is about to execute the first word of the program. -/
  pc : s.machine.pc = Store.programStart
  /-- The memory has its usual size. -/
  size : s.machine.store.size = Store.standardSize
  /-- The memory holds the program. -/
  bytes : ∀ i < program.size,
    s.machine.store.byteAt (Store.programStart + i) = program[i]?.getD 0
  /-- No key was touched. -/
  keyboard : s.machine.around.keyboard = {}
  /-- The user has not asked to leave. -/
  staying : s.machine.around.exitRequested = false
  /-- Nobody has waited for a key. -/
  naps : s.machine.around.naps = 0
  /-- It is time nought. -/
  clock : s.machine.around.clock.now = 0 ∧ s.machine.around.clock.step = 0
  /-- The first instruction is due. -/
  cycle : d.cycle = 0
  /-- The first frame is not due before its time. -/
  frame : d.frame = u.pace.frame
  /-- Nor is the first report. -/
  report : d.report = u.pace.report

theorem exists_begun (program : Array UInt8)
    (h : Store.programStart + program.size ≤ Store.standardSize) (u : Setup Int) :
    ∃ s d, Begun program u s d := by
  obtain ⟨m, hboot, hpc, -, haround, hbytes⟩ := Machine.exists_boot program h (.cycling #[])
    ({ clock := ⟨0, 0, 0⟩ } : Surroundings (VirtualClock Int))
  obtain ⟨fresh, rfl, hmoments⟩ : ∃ fresh : Session (VirtualClock Int) Int,
      fresh.machine = m ∧ fresh.moments = #[] :=
    ⟨{ machine := m, ticker := { period := 1, rate := .ok 60 } }, rfl, rfl⟩
  have hscreen : fresh.machine.screen = .blank Screen.standardWidth Screen.standardHeight := by
    obtain ⟨store, hm⟩ := Machine.exists_store_of_boot hboot
    rw [hm]
  have hsize : fresh.machine.store.size = Store.standardSize := (Machine.sound_of_boot hboot).store
  obtain ⟨hcycle, hframe, hreport, hclock⟩ := schedule_setOut u fresh
  obtain ⟨dirty, clock, journal, hmachine⟩ :=
    (setOut_agrees u fresh).trans (schedule_agrees u _)
  rw [haround] at hcycle hframe hreport hclock
  refine ⟨((fresh.setOut u).schedule u).2, ((fresh.setOut u).schedule u).1, ?_⟩
  refine ⟨⟨fresh, hscreen, hmoments, rfl⟩, ?_, ?_, ?_, ?_, ?_, ?_, ?_, hcycle, ?_, ?_⟩
  · rw [hmachine]
    exact hpc
  · rw [hmachine]
    exact hsize
  · rw [hmachine]
    exact hbytes
  · rw [hmachine, haround]
    rfl
  · rw [hmachine, haround]
    rfl
  · rw [hmachine, haround]
    rfl
  · rw [hclock]
    exact ⟨rfl, rfl⟩
  · rw [hframe]
    exact Int.zero_add _
  · rw [hreport]
    exact Int.zero_add _

/-- The first instruction of a run is the first word of the program. -/
theorem Begun.nextWord {program : Array UInt8} {u : Setup Int}
    {s : Session (VirtualClock Int) Int} {d : Schedule Int} (h : Begun program u s d)
    (hsize : 2 ≤ program.size) :
    (s.polled u).machine.CanFetch ∧
      (s.polled u).machine.nextWord =
        0x100 * (program[0]?.getD 0).toNat + (program[1]?.getD 0).toNat := by
  have hhigh := h.bytes 0 (by omega)
  have hlow := h.bytes 1 (by omega)
  constructor
  · simp [Machine.CanFetch, polled, withAround, h.pc, h.size, Store.programStart,
      Store.standardSize]
  · simp only [Machine.nextWord, polled, withAround, h.pc, Int.toNat_natCast, ← hhigh, ← hlow,
      Nat.add_zero]

end Session

end Chip8

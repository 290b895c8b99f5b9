import Chip8.Proofs.Machine.Reach
import Chip8.Proofs.Session.Frame

/-!
# Which key-downs a key wait sees

`Session.Reached` follows a machine through any number of runs, pass after pass, and keeps what is
done to its keyboard.  At a step that waits for a key the history of the keyboard tells what the
wait may take: the key-downs since the previous step began that are later than every one taken and
among the last sixteen (`Keyboard.Chronicle.pending`).  If there are any, the wait takes the oldest
of them at once; otherwise it polls, and it takes nothing that came down before it began
(`Session.Reached.key_wait`).
-/

namespace Chip8

namespace Session

variable {κ τ : Type} [Clock κ τ] {s after : Session κ τ} {u : Setup τ}

/-! ### What a pass does to the keyboard -/

/-- What the poll at the head of a pass does to the keyboard. -/
def pollDeeds (u : Setup τ) (s : Session κ τ) : List Keyboard.Deed :=
  Keyboard.deedsOf (u.attendant.feed.atPoll (s.machine.around.polls + 1))

/-- What a pass does to the keyboard. -/
def passDeeds (u : Setup τ) (s : Session κ τ) : List Keyboard.Deed :=
  s.pollDeeds u ++
    if (s.polled u).exitRequested then [] else (s.polled u).machine.stepDeeds u.attendant

theorem polled_keyboard (u : Setup τ) (s : Session κ τ) :
    (s.polled u).machine.around.keyboard =
      (s.pollDeeds u).foldl Keyboard.perform s.machine.around.keyboard :=
  Surroundings.deliver_keyboard _ _

theorem Passes.keyboard {ending : Option Ending} (h : s.Passes u after ending) :
    after.machine.around.keyboard =
      (s.passDeeds u).foldl Keyboard.perform s.machine.around.keyboard := by
  unfold passDeeds
  rw [List.foldl_append, ← polled_keyboard]
  cases h with
  | exit leaving agrees => rw [agrees.keyboard, if_pos leaving]; rfl
  | fault staying _ agrees =>
    rw [agrees.keyboard, Machine.keyboard_step, if_neg (by simp [staying])]
  | step staying _ agrees =>
    rw [agrees.keyboard, Machine.keyboard_step, if_neg (by simp [staying])]

theorem reset_notMem_passDeeds (u : Setup τ) (s : Session κ τ) : .reset ∉ s.passDeeds u := by
  unfold passDeeds pollDeeds
  rw [List.mem_append, not_or]
  refine ⟨Surroundings.notMem_deedsOf (by simp) (by simp) _, ?_⟩
  split
  · exact List.not_mem_nil
  · exact Machine.reset_notMem_stepDeeds _ _

/-! ### Runs one after the other -/

section Pacing

variable [Add τ] [Sub τ] [Neg τ] [LT τ] [LE τ] [OfNat τ 0] [DecidableLT τ] [DecidableLE τ]

/-- The sessions that a machine goes through in the course of runs, with all that was done to its
keyboard: between runs, or at the head of a pass of a run with a setup and its deadlines.  Key waits
of a run poll the input source of the run. -/
inductive Reached : List Keyboard.Deed → Session κ τ → Option (Setup τ × Schedule τ) → Prop where
  /-- The machine is switched on. -/
  | powerOn {program : Array UInt8} {random : RandomBytes} {clock : κ} {journal : Journal}
      {s : Session κ τ}
      (boot : Machine.boot Store.standardSize program random { clock, journal } = .ok s.machine) :
      Reached [] s none
  /-- Before the next run, anything may happen around the machine but to its keys. -/
  | settle {deeds : List Keyboard.Deed} {s : Session κ τ} (around : Surroundings κ) :
      Reached deeds s none →
      Reached deeds (s.withAround fun a => { around with keyboard := a.keyboard }) none
  /-- A run begins. -/
  | begin {deeds : List Keyboard.Deed} {s : Session κ τ} (u : Setup τ)
      (polled : u.attendant.polled = true) : Reached deeds s none →
      Reached deeds ((s.setOut u).schedule u).2 (some (u, ((s.setOut u).schedule u).1))
  /-- A pass does not end the run. -/
  | pass {deeds : List Keyboard.Deed} {s : Session κ τ} {u : Setup τ} {d : Schedule τ}
      (goes_on : (s.pass u d).2.2 = none) : Reached deeds s (some (u, d)) →
      Reached (deeds ++ s.passDeeds u) (s.pass u d).1 (some (u, (s.pass u d).2.1))
  /-- A pass ends the run. -/
  | stop {deeds : List Keyboard.Deed} {s : Session κ τ} {u : Setup τ} {d : Schedule τ}
      {ending : Ending} (stops : (s.pass u d).2.2 = some ending) : Reached deeds s (some (u, d)) →
      Reached (deeds ++ s.passDeeds u) ((s.pass u d).1.finish u ending) none
  /-- The run is long enough. -/
  | limit {deeds : List Keyboard.Deed} {s : Session κ τ} {u : Setup τ} {d : Schedule τ} :
      Reached deeds s (some (u, d)) → Reached deeds (s.finish u .limit) none

variable {deeds : List Keyboard.Deed} {during : Option (Setup τ × Schedule τ)} {d : Schedule τ}

theorem Reached.passes (h : Reached deeds s (some (u, d))) (n : Nat) :
    ∃ more, Reached (deeds ++ more) ((s.passes u n d).1.finish u (s.passes u n d).2) none := by
  induction n generalizing deeds s d with
  | zero => exact ⟨[], by rw [List.append_nil]; exact h.limit⟩
  | succ n ih =>
    unfold Session.passes
    rcases hpass : s.pass u d with ⟨after, d', _ | ending⟩
    · -- the run goes on from the session and the deadlines that the pass left
      have hafter := h.pass (by rw [hpass])
      rw [hpass] at hafter
      obtain ⟨more, hmore⟩ := ih hafter
      exact ⟨s.passDeeds u ++ more, by rw [← List.append_assoc]; exact hmore⟩
    · have hending : (s.pass u d).2.2 = some ending := by rw [hpass]
      have hafter := h.stop hending
      rw [hpass] at hafter
      exact ⟨s.passDeeds u, hafter⟩

theorem Reached.run (h : Reached deeds s none) (hpolled : u.attendant.polled = true)
    (limit : Nat) : ∃ more, Reached (deeds ++ more) (s.run u limit).1 none :=
  (h.begin u hpolled).passes limit

theorem keyboard_pass (u : Setup τ) (d : Schedule τ)
    (hk : s.machine.around.keyboard = (Keyboard.Chronicle.of deeds).keyboard) :
    (s.pass u d).1.machine.around.keyboard =
      (Keyboard.Chronicle.of (deeds ++ s.passDeeds u)).keyboard := by
  rw [(pass_passes u s d).keyboard, Keyboard.Chronicle.of_append,
    Keyboard.Chronicle.foldl_perform_keyboard, hk]

theorem Reached.keyboard (h : Reached deeds s during) :
    s.machine.around.keyboard = (Keyboard.Chronicle.of deeds).keyboard := by
  induction h with
  | @powerOn _ _ _ _ s boot =>
    obtain ⟨fresh, hfresh, -⟩ := Machine.exists_fresh_store
    rw [Machine.boot_of_ofSize? hfresh] at boot
    obtain ⟨store, -, hmachine⟩ := map_eq_ok boot
    rw [← hmachine]
    rfl
  | settle _ _ ih => exact ih
  | @begin _ s u _ _ ih =>
    rw [((setOut_agrees u s).trans (schedule_agrees u _)).keyboard]
    exact ih
  | @pass _ _ u d _ _ ih => exact keyboard_pass u d ih
  | @stop _ _ u d _ _ _ ih =>
    rw [(finish_agrees _ _ _).keyboard]
    exact keyboard_pass u d ih
  | limit _ ih =>
    rw [(finish_agrees _ _ _).keyboard]
    exact ih

/-- Runs never reset the keyboard, so its history goes back to the start. -/
theorem Reached.reset_notMem (h : Reached deeds s during) : .reset ∉ deeds := by
  induction h with
  | powerOn => exact List.not_mem_nil
  | settle _ _ ih | begin _ _ _ ih | limit _ ih => exact ih
  | pass _ _ ih | stop _ _ ih =>
    rw [List.mem_append, not_or]
    exact ⟨ih, reset_notMem_passDeeds _ _⟩

theorem Reached.attendant_polled (h : Reached deeds s during) :
    ∀ u d, during = some (u, d) → u.attendant.polled = true := by
  induction h with
  | powerOn | settle | stop | limit => nofun
  | begin u hpolled _ _ =>
    rintro _ _ ⟨⟩
    exact hpolled
  | @pass _ _ u d _ _ ih =>
    rintro _ _ ⟨⟩
    exact ih u d rfl

/-- **A key wait sees exactly the key-downs since the previous step began.**  At the head of a
pass, after its poll, let `c` be the chronicle of all that was done to the keyboard since the
machine was switched on, so that `c.pending` are the key-downs since the previous step began, or
since the start if there was none, that are later than the last one taken and among the last sixteen
of all.  If the next step waits for a key and there are such key-downs, it stores the key of
the oldest at once, without a poll or a nap.  If there are none it polls, and if it stores a
key, then of a key-down that came after all those in the history of `c`. -/
theorem Reached.key_wait (h : Reached deeds s (some (u, d)))
    (hawaits : (s.polled u).machine.AwaitsKey) :
    let m := (s.polled u).machine
    let c := Keyboard.Chronicle.of (deeds ++ s.pollDeeds u)
    let after := Keyboard.Chronicle.of (deeds ++ s.pollDeeds u ++ m.stepDeeds u.attendant)
    let result := m.step u.attendant
    (m.around.keyboard = c.keyboard ∧ .reset ∉ deeds ++ s.pollDeeds u) ∧
    (∀ k rest, c.pending = k :: rest →
      result.2 = .ok m.nextInstruction ∧
      result.1.registers = m.registers.set m.nextInstruction.x k.key ∧
      result.1.around.polls = m.around.polls ∧ result.1.around.naps = m.around.naps ∧
      result.1.around.clock = m.around.clock) ∧
    (c.pending = [] →
      m.around.polls < result.1.around.polls ∧
      ((result.1.registers = m.registers ∧ after.taken = c.taken) ∨
      ∃ i k, c.begun ≤ c.history.length ∧ c.history.length ≤ i ∧ after.taken = c.taken ++ [i] ∧
        after.history[i]? = some k ∧
        result.1.registers = m.registers.set m.nextInstruction.x k.key)) := by
  intro m c after result
  have hpolled := h.attendant_polled u d rfl
  have hsound : c.Sound := Keyboard.Chronicle.sound_of _
  have hk : m.around.keyboard = c.keyboard := by
    have hc : c = (s.pollDeeds u).foldl Keyboard.Chronicle.perform (.of deeds) :=
      Keyboard.Chronicle.of_append _ _
    rw [hc, Keyboard.Chronicle.foldl_perform_keyboard, ← h.keyboard]
    exact polled_keyboard u s
  have hafter : after = (m.stepDeeds u.attendant).foldl Keyboard.Chronicle.perform c :=
    Keyboard.Chronicle.of_append _ _
  -- the step begins a cycle before the wait drops what is no longer fresh
  have hpending : m.around.keyboard.nextCycle.dropStale.downs = c.pending := by
    rw [hk]
    exact hsound.downs_dropStale
  refine ⟨⟨hk, ?_⟩, fun k rest hc => ?_, fun hc => ?_⟩
  · rw [List.mem_append, not_or]
    exact ⟨h.reset_notMem, Surroundings.notMem_deedsOf (by simp) (by simp) _⟩
  · exact Machine.step_stores_at_once u.attendant hawaits (hpending.trans hc)
  · obtain ⟨hpolls, hstored⟩ := Machine.step_stores_later u.attendant hpolled hawaits hsound hk
      (hpending.trans hc)
    rw [← hafter] at hstored
    refine ⟨hpolls, hstored.imp_right ?_⟩
    rintro ⟨i, k, hi, htaken, hk, hregisters⟩
    exact ⟨i, k, hsound.begun_le, hi, htaken, hk, hregisters⟩

end Pacing

/-- A setup whose input source presses a key at its first poll. -/
def pressingFirst (key : Int) : Setup Int where
  pace := ⟨1, 1, 1⟩
  rateText := "1"
  attendant :=
    { feed := { atPoll := fun n => if n = 1 then [.press key] else [] }
      interval := 1
      patience := 0 }

/-- A key that goes down at the first poll is stored by a key wait at the start of the program. -/
theorem first_key_stored :
    ∃ (s : Session (VirtualClock Int) Int) (d : Schedule Int),
      Reached [] s (some (pressingFirst 4, d)) ∧
      (s.polled (pressingFirst 4)).machine.AwaitsKey ∧
      ((s.polled (pressingFirst 4)).machine.step (pressingFirst 4).attendant).1.registers =
        (s.polled (pressingFirst 4)).machine.registers.set 5 4 := by
  obtain ⟨m, hboot, hpc, -, haround, hbytes⟩ := Machine.exists_boot #[0xF5, 0x0A] (by decide)
    (.cycling #[]) ({ clock := ⟨0, 0, 0⟩ } : Surroundings (VirtualClock Int))
  obtain ⟨fresh, rfl⟩ : ∃ fresh : Session (VirtualClock Int) Int, fresh.machine = m :=
    ⟨{ machine := m, ticker := { period := 1, rate := .ok 60 } }, rfl⟩
  have hrun := (Reached.powerOn hboot).begin (pressingFirst 4) rfl
  have hagrees := (setOut_agrees (pressingFirst 4) fresh).trans
    (schedule_agrees (pressingFirst 4) _)
  generalize (fresh.setOut (pressingFirst 4)).schedule (pressingFirst 4) = started at hrun hagrees
  obtain ⟨d, s⟩ := started
  obtain ⟨dirty, clock, journal, hmachine⟩ := hagrees
  dsimp only at hrun hmachine
  have hhigh : fresh.machine.store.byteAt 0x200 = 0xF5 := hbytes 0 (by decide)
  have hlow : fresh.machine.store.byteAt 0x201 = 0x0A := hbytes 1 (by decide)
  have hsize : fresh.machine.store.size = 0x1000 := (Machine.Reachable.boot hboot).sound.store
  have hword : (s.polled (pressingFirst 4)).machine.nextWord = 0xF50A := by
    simp [polled, withAround, hmachine, Machine.nextWord, hpc, Store.programStart, hhigh, hlow]
  have hinstruction : (s.polled (pressingFirst 4)).machine.nextInstruction = .decode 0xF50A := by
    rw [Machine.nextInstruction, hword]
    rfl
  have hawaits : (s.polled (pressingFirst 4)).machine.AwaitsKey := by
    refine ⟨?_, ?_⟩
    · simp [Machine.CanFetch, polled, withAround, hmachine, hpc, hsize, Store.programStart]
    · rw [hinstruction]
      decide
  have hpoll : s.pollDeeds (pressingFirst 4) = [.press 4] := by
    simp [pollDeeds, hmachine, haround, Surroundings.note, pressingFirst, Keyboard.deedsOf,
      Keyboard.deed?]
  have hpending : (Keyboard.Chronicle.of ([] ++ s.pollDeeds (pressingFirst 4))).pending =
      [⟨4, 0⟩] := by
    rw [hpoll]
    decide
  obtain ⟨-, hregisters, -⟩ := (hrun.key_wait hawaits).2.1 _ _ hpending
  simp only [hinstruction] at hregisters
  exact ⟨s, d, hrun, hawaits, hregisters⟩

end Session

end Chip8

import Chip8.Proofs.Machine.Step
import Chip8.Ticker

/-!
# Who reports errors

The journal of a machine fills with notes, and events that switch its details write to it too.
None of these messages is an error: whatever happens around a machine, whatever instruction it
executes or fails to execute (`Machine.calm_step`), and whether its timer clock is started or
stopped, the journal stays *calm* (`Journal.Calm`).
-/

namespace Chip8

/-! ### Errors in the journal -/

namespace Journal

variable {j after later : Journal}

/-- The errors that were reported, the earliest first. -/
def errors (j : Journal) : List Message := j.messages.toList.filter fun m => m.level = .error

/-- No error was reported in between, and errors are written as before. -/
structure Calm (j after : Journal) : Prop where
  /-- The same errors were reported. -/
  errors : after.errors = j.errors
  /-- If errors were not held back they still are not. -/
  threshold : j.threshold ≤ .error → after.threshold ≤ .error

theorem Calm.refl (j : Journal) : j.Calm j := ⟨rfl, id⟩

theorem Calm.trans (h : j.Calm after) (h' : after.Calm later) : j.Calm later :=
  ⟨h'.errors.trans h.errors, h'.threshold ∘ h.threshold⟩

theorem calm_write (j : Journal) {level : Level} (h : level ≠ .error) (text : String) :
    j.Calm (j.write level text) := by
  unfold write
  split
  · exact ⟨by simp [Journal.errors, h], id⟩
  · exact .refl j

theorem calm_note (j : Journal) (text : String) : j.Calm (j.note text) := by
  unfold note
  split
  · exact calm_write j (by decide) text
  · exact .refl j

theorem calm_toggle (j : Journal) : j.Calm j.toggle := by
  have hswitch : j.Calm (j.switch !j.details) := by
    refine ⟨rfl, fun _ => ?_⟩
    unfold switch
    dsimp only
    split <;> decide
  exact hswitch.trans (calm_write _ (by decide) _)

theorem errors_write_error (j : Journal) (text : String) :
    (j.write .error text).errors =
      j.errors ++ if j.threshold ≤ .error then [⟨.error, text, j.isOpen⟩] else [] := by
  have hgrave : Level.warning ≤ Level.error := by decide
  unfold write
  by_cases hwritten : j.threshold ≤ .error
  · rw [if_pos ⟨hwritten, .inr hgrave⟩, if_pos hwritten]
    simp [errors]
  · rw [if_neg (fun h => hwritten h.1), if_neg hwritten, List.append_nil]

end Journal

variable {κ τ : Type}

section Calm

variable [Clock κ τ]

theorem Surroundings.calm_occur (s : Surroundings κ) (e : Event τ) :
    s.journal.Calm (s.occur e).journal := by
  cases e with
  | toggleDetails => exact s.journal.calm_toggle
  | press | release | tick | exit | stay | advance => exact .refl s.journal

theorem Surroundings.calm_deliver (s : Surroundings κ) (events : List (Event τ)) :
    s.journal.Calm (s.deliver events).journal := by
  induction events generalizing s with
  | nil => exact .refl s.journal
  | cons e events ih => exact (s.calm_occur e).trans (ih (s.occur e))

theorem Surroundings.calm_poll (feed : Feed τ) (s : Surroundings κ) :
    s.journal.Calm (s.poll feed).journal :=
  Surroundings.calm_deliver { s with polls := s.polls + 1 } _

theorem Surroundings.calm_waitForKey (a : Attendant τ) (s : Surroundings κ) :
    s.journal.Calm (s.waitForKey a).2.journal := by
  have hevents := s.freshen.calm_deliver (s.eventsOfWait a)
  have hanswers := answers_waitForKey a s
  generalize (s.waitForKey a).1 = result at hanswers
  cases hanswers with
  | key _ alike => exact alike.journal ▸ hevents
  | cancelled _ _ alike => exact alike.journal ▸ hevents
  | exhausted _ alike => exact alike.journal ▸ hevents

omit [Clock κ τ] in
theorem Machine.calm_noted (m : Machine κ) (i : Instruction) (op : Op) :
    m.around.journal.Calm (m.noted i op).around.journal := by
  unfold noted
  split
  · split
    · exact m.around.journal.calm_note _
    · exact .refl _
  · exact .refl _

theorem Machine.calm_awaitKey (a : Attendant τ) (m : Machine κ) (i : Instruction) :
    m.around.journal.Calm (m.awaitKey a i).1.around.journal := by
  have hwait := m.around.calm_waitForKey a
  unfold awaitKey
  split
  · next key around h =>
    rw [h] at hwait
    exact hwait.trans (({ m with around }.setReg i.x key).calm_noted i .awaitKey)
  · next around h =>
    rw [h] at hwait
    exact hwait
  · next around h =>
    rw [h] at hwait
    exact hwait

/-- An instruction reports no error, not even if it fails. -/
theorem Machine.calm_step (a : Attendant τ) (m : Machine κ) :
    m.around.journal.Calm (m.step a).1.around.journal := by
  by_cases hawaits : m.AwaitsKey
  · have hwait := calm_awaitKey a m.fetched m.nextInstruction
    rw [step_of_canFetch a hawaits.1]
    simp only [perform, hawaits.2]
    rcases hresult : m.fetched.awaitKey a m.nextInstruction with ⟨after, _ | _⟩
    · rw [hresult] at hwait
      exact hwait
    · rw [hresult] at hwait
      exact hwait
  · have houtcome := m.step_outcome a
    generalize m.step a = result at houtcome
    cases houtcome with
    | unfetched | unknown | refused => exact .refl m.around.journal
    | @done op after fetch op_eq other execute =>
      obtain ⟨timers, haround⟩ := (execute_around execute).2
      have hnoted := after.calm_noted m.nextInstruction op
      rw [haround] at hnoted
      exact hnoted
    | keyed awaits => exact absurd awaits hawaits
    | cancelled awaits => exact absurd awaits hawaits
    | exhausted awaits => exact absurd awaits hawaits

end Calm

/-! ### Threads -/

namespace Ticker

/-- Behind a start there is a thread, and it was started unless one was running. -/
theorem started_start (t : Ticker τ) (j : Journal) :
    (t.start j).1.worker ≠ .absent ∧ (t.start j).1.joined = t.joined ∧
      (t.start j).1.started = t.started + if t.running then 0 else 1 := by
  unfold start
  split
  · next hrunning =>
    have halive : t.worker = .alive := by simpa [running] using hrunning
    simp [halive]
  · simp

theorem alive_start {t : Ticker τ} (h : t.worker = .absent) (j : Journal) :
    (t.start j).1.worker = .alive ∧ (t.start j).1.stopping = false := by
  have hidle : ¬ t.running = true := by simp [running, h]
  unfold start
  rw [if_neg hidle]
  exact ⟨rfl, rfl⟩

theorem calm_start (t : Ticker τ) (j : Journal) : j.Calm (t.start j).2 := by
  unfold start
  split
  · exact .refl j
  · dsimp only
    split
    · exact j.calm_note _
    · exact .refl j

theorem joined_stop {t : Ticker τ} (h : t.worker ≠ .absent) (j : Journal) :
    (t.stop j).1.worker = .absent ∧ (t.stop j).1.joined = t.joined + 1 ∧
      (t.stop j).1.started = t.started := by
  unfold stop
  rw [if_neg h]
  exact ⟨rfl, rfl, rfl⟩

theorem calm_stop (t : Ticker τ) (j : Journal) : j.Calm (t.stop j).2 := by
  unfold stop
  split
  · exact .refl j
  · exact j.calm_note _

end Ticker

end Chip8

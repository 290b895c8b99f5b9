import Chip8.Proofs.Machine.Calls
import Chip8.Proofs.Session.Frame

/-!
# A run puts its machine to uses

What a session does to its machine in the course of a run is a row of uses: events happen, the
instructions are executed with the attendant of the run, pictures are taken of the screen, and
clock, journal and counts change (`Session.run_serves`).

So what holds of a machine whatever it is used for holds in the course of a run, and over any number
of runs.
-/

namespace Chip8

variable {κ τ : Type} [Clock κ τ]

namespace Machine

variable {m after later : Machine κ} {a : Attendant τ}

/-- The machine was put to uses one after the other; its instructions had this attendant. -/
def Serves (a : Attendant τ) (m after : Machine κ) : Prop :=
  ∃ uses : List (Use κ τ), after = m.course uses ∧ ∀ b, .step b ∈ uses → b = a

theorem Serves.refl (a : Attendant τ) (m : Machine κ) : m.Serves a m := ⟨[], rfl, by simp⟩

theorem Serves.trans (h : m.Serves a after) (h' : after.Serves a later) : m.Serves a later := by
  obtain ⟨uses, rfl, hsteps⟩ := h
  obtain ⟨more, rfl, hsteps'⟩ := h'
  refine ⟨uses ++ more, (m.course_append uses more).symm, fun b hb => ?_⟩
  rcases List.mem_append.1 hb with hb | hb
  · exact hsteps b hb
  · exact hsteps' b hb

theorem Serves.reachable (h : m.Serves a after) (hm : m.Reachable) : after.Reachable := by
  obtain ⟨uses, rfl, -⟩ := h
  exact hm.course uses

theorem serves_step (a : Attendant τ) (m : Machine κ) : m.Serves a (m.step a).1 :=
  ⟨[.step a], rfl, by simp⟩

theorem serves_photographed (a : Attendant τ) (m : Machine κ) : m.Serves a m.photographed :=
  ⟨[.photograph], rfl, by simp⟩

theorem serves_of_eq (a : Attendant τ) {around : Surroundings κ}
    (hkeyboard : around.keyboard = m.around.keyboard) (htimers : around.timers = m.around.timers) :
    m.Serves a { m with around } := by
  refine ⟨[.settle around], ?_, by simp⟩
  simp only [course, List.foldl_cons, List.foldl_nil, undergo, settle, ← hkeyboard, ← htimers]

theorem Journaled.serves (h : m.Journaled after) (a : Attendant τ) : m.Serves a after := by
  obtain ⟨journal, rfl⟩ := h
  exact serves_of_eq a rfl rfl

theorem serves_deliver (a : Attendant τ) (m : Machine κ) (events : List (Event τ)) :
    m.Serves a { m with around := m.around.deliver events } := by
  refine ⟨events.map .event, ?_, by simp⟩
  induction events generalizing m with
  | nil => rfl
  | cons e events ih => exact ih (m.occur e)

end Machine

namespace Session

variable {s : Session κ τ}

theorem serves_polled (u : Setup τ) (s : Session κ τ) :
    s.machine.Serves u.attendant (s.polled u).machine := by
  have hcounted : s.machine.Serves u.attendant { s.machine with
      around := { s.machine.around with polls := s.machine.around.polls + 1 } } :=
    Machine.serves_of_eq u.attendant rfl rfl
  exact hcounted.trans (Machine.serves_deliver _ _ _)

theorem serves_stepped (u : Setup τ) (s : Session κ τ) :
    s.machine.Serves u.attendant (s.stepped u).machine :=
  (serves_polled u s).trans (Machine.serves_step _ _)

theorem follows_serves (a : Attendant τ) :
    Follows fun s after : Session κ τ => s.machine.Serves a after.machine where
  refl s := .refl a s.machine
  trans := .trans
  look _ := Machine.serves_of_eq a rfl rfl
  sleep _ _ := Machine.serves_of_eq a rfl rfl
  present s := Machine.serves_photographed a s.machine
  report u s d := (report_journaled u s d).serves a

variable [Add τ] [Sub τ] [Neg τ] [LT τ] [LE τ] [OfNat τ 0] [DecidableLT τ] [DecidableLE τ]

theorem serves_pass (u : Setup τ) (s : Session κ τ) (d : Schedule τ) :
    s.machine.Serves u.attendant (s.pass u d).1.machine := by
  cases hexit : (s.polled u).exitRequested with
  | true =>
    rw [pass_of_exit u d hexit]
    exact (serves_polled u s).trans ((note_journaled _ _).serves _)
  | false =>
    cases hresult : ((s.polled u).machine.step u.attendant).2 with
    | error fault =>
      rw [pass_of_failed u d hexit hresult]
      exact serves_stepped u s
    | ok i =>
      rw [pass_of_completed u d hexit hresult]
      exact (serves_stepped u s).trans ((follows_serves u.attendant).afterInstruction u _ d)

theorem serves_passes (u : Setup τ) (n : Nat) (s : Session κ τ) (d : Schedule τ) :
    s.machine.Serves u.attendant (s.passes u n d).1.machine := by
  induction n generalizing s d with
  | zero => exact .refl _ _
  | succ n ih =>
    have hpass := serves_pass u s d
    unfold passes
    rcases hnext : s.pass u d with ⟨after, next, _ | ending⟩
    · rw [hnext] at hpass
      exact hpass.trans (ih after next)
    · rw [hnext] at hpass
      exact hpass

/-- **A run puts its machine to uses**, and its instructions have the attendant of the run. -/
theorem run_serves (u : Setup τ) (limit : Nat) (s : Session κ τ) :
    s.machine.Serves u.attendant (s.run u limit).1.machine := by
  have hstart := (setOut_journaled u s).serves u.attendant
  have hlook := (follows_serves (κ := κ) u.attendant).look (s.setOut u)
  have hloop := serves_passes u limit ((s.setOut u).schedule u).2 ((s.setOut u).schedule u).1
  have hend := (finish_journaled u (((s.setOut u).schedule u).2.passes u limit
    ((s.setOut u).schedule u).1).1 (((s.setOut u).schedule u).2.passes u limit
      ((s.setOut u).schedule u).1).2).serves u.attendant
  exact hstart.trans (hlook.trans (hloop.trans hend))

theorem reachable_run (h : s.machine.Reachable) (u : Setup τ) (limit : Nat) :
    (s.run u limit).1.machine.Reachable :=
  (run_serves u limit s).reachable h

end Session

end Chip8

import Chip8.Proofs.Machine.Bare
import Chip8.Proofs.Machine.Reach
import Chip8.Proofs.Session.Frame

/-!
# Pacing and showing are nothing to the program

`Machine.loop` is a run without a clock, a display, a buzzer or a journal: poll the input source,
stop if the user wants to leave, execute an instruction, and so on.  A session does just that to its
machine (`Session.bare_run`), and so two runs with the same machine and the same input source come
to the same end with the same machine, whatever their paces, their clocks and their journals and
whether or not there is a buzzer (`Session.run_unaffected`).
-/

namespace Chip8

variable {κ κ' τ τ' : Type}

/-- What runs come to.  A run with a limit comes to what it returns.  A run without one comes to
what runs with a limit return that do not reach it. -/
def ComesTo {α : Type} (run : Nat → α × Ending) : Option Nat → α × Ending → Prop
  | some limit, result => run limit = result
  | none, result => result.2 ≠ .limit ∧ ∃ limit, run limit = result

section ComesTo

variable {α β : Type} {run : Nat → α × Ending} {run' : Nat → β × Ending} {limit : Option Nat}

theorem ComesTo.map {result : α × Ending} (f : α → β) (hrun : ∀ n, run' n = Prod.map f id (run n))
    (h : ComesTo run limit result) : ComesTo run' limit (f result.1, result.2) := by
  cases limit with
  | some n =>
    obtain rfl : run n = result := h
    exact hrun n
  | none =>
    obtain ⟨hending, n, rfl⟩ := h
    exact ⟨hending, n, hrun n⟩

theorem exists_comesTo_congr (hrun : ∀ n, (run n).2 = (run' n).2) (limit : Option Nat) :
    (∃ r, ComesTo run limit r) ↔ ∃ r, ComesTo run' limit r := by
  cases limit with
  | some n => exact ⟨fun _ => ⟨run' n, rfl⟩, fun _ => ⟨run n, rfl⟩⟩
  | none =>
    constructor
    · rintro ⟨_, hending, n, rfl⟩
      exact ⟨run' n, hrun n ▸ hending, n, rfl⟩
    · rintro ⟨_, hending, n, rfl⟩
      exact ⟨run n, hrun n ▸ hending, n, rfl⟩

/-- A run comes to one end only if limits that it does not reach do not matter. -/
theorem ComesTo.unique {p q : α × Ending}
    (hlimits : ∀ n k, (run n).2 ≠ .limit → n ≤ k → run k = run n)
    (hp : ComesTo run limit p) (hq : ComesTo run limit q) : p = q := by
  cases limit with
  | some n => exact hp.symm.trans hq
  | none =>
    obtain ⟨hn, n, rfl⟩ := hp
    obtain ⟨hk, k, rfl⟩ := hq
    rcases Nat.le_total n k with hle | hle
    · exact (hlimits n k hn hle).symm
    · exact hlimits k n hk hle

end ComesTo

namespace Machine

variable [Clock κ τ]

/-- The machine after the input source was polled. -/
def polled (a : Attendant τ) (m : Machine κ) : Machine κ :=
  { m with around := m.around.poll a.feed }

/-- The plain loop, with at most `n` instructions. -/
def loop (a : Attendant τ) (m : Machine κ) : (n : Nat) → Machine κ × Ending
  | 0 => (m, .limit)
  | n + 1 =>
    let m := m.polled a
    if m.around.exitRequested then (m, .exit)
    else
      match m.step a with
      | (m, .error fault) => (m, .fault fault)
      | (m, .ok _) => loop a m n

theorem loop_of_exit (a : Attendant τ) (n : Nat) {m : Machine κ}
    (h : (m.polled a).around.exitRequested = true) : m.loop a (n + 1) = (m.polled a, .exit) :=
  if_pos h

theorem loop_of_error (a : Attendant τ) (n : Nat) {m after : Machine κ} {fault : Fault}
    (h : (m.polled a).around.exitRequested = false)
    (hstep : (m.polled a).step a = (after, .error fault)) :
    m.loop a (n + 1) = (after, .fault fault) := by
  simp only [loop, h, hstep, Bool.false_eq_true, if_false]

theorem loop_of_ok (a : Attendant τ) (n : Nat) {m after : Machine κ} {i : Instruction}
    (h : (m.polled a).around.exitRequested = false)
    (hstep : (m.polled a).step a = (after, .ok i)) : m.loop a (n + 1) = after.loop a n := by
  simp only [loop, h, hstep, Bool.false_eq_true, if_false]

theorem bare_polled (a : Attendant τ) (m : Machine κ) :
    m.bare.polled a.bare = (m.polled a).bare := by
  have hpoll := Surroundings.bare_poll a.feed m.around
  simp only [polled, bare, hpoll]
  rfl

/-- **The loop does the same to the bare machine.** -/
theorem bare_loop (a : Attendant τ) (n : Nat) (m : Machine κ) :
    m.bare.loop a.bare n = Prod.map bare id (m.loop a n) := by
  induction n generalizing m with
  | zero => rfl
  | succ n ih =>
    have hstep := bare_step a (m.polled a)
    rw [← bare_polled] at hstep
    by_cases hexit : (m.polled a).around.exitRequested = true
    · have hexit' : (m.bare.polled a.bare).around.exitRequested = true := by
        rw [bare_polled]
        exact hexit
      rw [loop_of_exit a n hexit, loop_of_exit a.bare n hexit', bare_polled]
      rfl
    have hstaying : (m.polled a).around.exitRequested = false := by simpa using hexit
    have hstaying' : (m.bare.polled a.bare).around.exitRequested = false := by
      rw [bare_polled]
      exact hstaying
    rcases hresult : (m.polled a).step a with ⟨after, fault | i⟩
    · rw [hresult] at hstep
      rw [loop_of_error a n hstaying hresult, loop_of_error a.bare n hstaying' hstep]
      rfl
    · rw [hresult] at hstep
      rw [loop_of_ok a n hstaying hresult, loop_of_ok a.bare n hstaying' hstep]
      exact ih after

theorem loop_of_le (a : Attendant τ) {n k : Nat} {m : Machine κ}
    (h : (m.loop a n).2 ≠ .limit) (hle : n ≤ k) : m.loop a k = m.loop a n := by
  induction n generalizing m k with
  | zero => exact absurd rfl h
  | succ n ih =>
    obtain ⟨k, rfl⟩ := Nat.exists_eq_add_of_le' hle
    rw [← Nat.add_assoc]
    by_cases hexit : (m.polled a).around.exitRequested = true
    · rw [loop_of_exit a _ hexit, loop_of_exit a _ hexit]
    have hstaying : (m.polled a).around.exitRequested = false := by simpa using hexit
    rcases hstep : (m.polled a).step a with ⟨after, fault | i⟩
    · rw [loop_of_error a _ hstaying hstep, loop_of_error a _ hstaying hstep]
    · rw [loop_of_ok a _ hstaying hstep] at h ⊢
      rw [loop_of_ok a _ hstaying hstep]
      exact ih h (Nat.le_add_left n k)

theorem loop_unique (a : Attendant τ) {m : Machine κ} {limit : Option Nat}
    {p q : Machine κ × Ending} (hp : ComesTo (m.loop a) limit p)
    (hq : ComesTo (m.loop a) limit q) : p = q :=
  hp.unique (fun _ _ => loop_of_le a) hq

omit [Clock κ τ] in
theorem Agrees.bare {m after : Machine κ} (h : m.Agrees after) : after.bare = m.bare := by
  obtain ⟨_, _, _, rfl⟩ := h
  rfl

end Machine

namespace Session

section Pacing

variable [Clock κ τ]
variable [Add τ] [Sub τ] [Neg τ] [LT τ] [LE τ] [OfNat τ 0] [DecidableLT τ] [DecidableLE τ]

/-- **Passes are rounds of the plain loop**: what comes after an instruction, the bare machine does
not notice. -/
theorem bare_passes (u : Setup τ) (n : Nat) (s : Session κ τ) (d : Schedule τ) :
    s.machine.bare.loop u.attendant.bare n =
      ((s.passes u n d).1.machine.bare, (s.passes u n d).2) := by
  induction n generalizing s d with
  | zero => rfl
  | succ n ih =>
    have hpass := pass_passes u s d
    rw [Machine.bare_loop]
    unfold Session.passes
    rcases hresult : s.pass u d with ⟨after, next, ending⟩
    rw [hresult] at hpass
    cases hpass with
    | exit leaving agrees =>
      rw [Machine.loop_of_exit u.attendant n leaving]
      exact Prod.ext agrees.bare.symm rfl
    | fault staying failed agrees =>
      rw [Machine.loop_of_error u.attendant n staying (Prod.ext rfl failed)]
      exact Prod.ext agrees.bare.symm rfl
    | step staying completed agrees =>
      have hnext : after.machine.bare = ((s.polled u).machine.step u.attendant).1.bare :=
        agrees.bare
      have hrest := ih after next
      rw [hnext, Machine.bare_loop] at hrest
      rw [Machine.loop_of_ok u.attendant n staying (Prod.ext rfl completed)]
      exact hrest

/-- **A run is the plain loop**, as far as a program can notice. -/
theorem bare_run (u : Setup τ) (limit : Nat) (s : Session κ τ) :
    s.machine.bare.loop u.attendant.bare limit =
      Prod.map (fun s => s.machine.bare) id (s.run u limit) := by
  have hstart := ((setOut_agrees u s).trans (schedule_agrees u _)).bare
  rw [← hstart, bare_passes u limit _ ((s.setOut u).schedule u).1]
  exact Prod.ext (finish_agrees u _ _).bare.symm rfl

theorem run_same_loop (u : Setup τ) (limit : Nat) (s : Session κ τ) :
    (s.run u limit).2 = (s.machine.loop u.attendant limit).2 ∧
      (s.run u limit).1.machine.Same (s.machine.loop u.attendant limit).1 := by
  have hrun := (bare_run u limit s).symm.trans (Machine.bare_loop u.attendant limit s.machine)
  obtain ⟨hmachine, hending⟩ := Prod.mk.inj hrun
  exact ⟨hending, Machine.same_iff_bare_eq.2 hmachine⟩

end Pacing

/-- **Pacing and showing are nothing to the program.**  Let two sessions have machines that are the
same to a program, and setups with the same input source but for events that concern only the
clock or the journal.  All else may differ: the periods, the clocks and their readings, the
buzzer, the display, the journals.  With the same limit, or without one, both runs come to an end
or none does, and then to the same end, with machines that are the same to a program; and so does
the plain loop. -/
theorem run_unaffected [Clock κ τ] [Add τ] [Sub τ] [Neg τ] [LT τ] [LE τ] [OfNat τ 0]
    [DecidableLT τ] [DecidableLE τ] [Clock κ' τ'] [Add τ'] [Sub τ'] [Neg τ'] [LT τ'] [LE τ']
    [OfNat τ' 0] [DecidableLT τ'] [DecidableLE τ'] {s : Session κ τ} {s' : Session κ' τ'}
    {u : Setup τ} {u' : Setup τ'} (hmachine : s.machine.Same s'.machine)
    (hinput : u.attendant.bare = u'.attendant.bare) (limit : Option Nat) :
    ((∃ r, ComesTo (fun n => s.run u n) limit r) ↔
      ∃ r, ComesTo (fun n => s'.run u' n) limit r) ∧
    ((∃ r, ComesTo (fun n => s.run u n) limit r) ↔
      ∃ p, ComesTo (s.machine.loop u.attendant) limit p) ∧
    ∀ r r' p, ComesTo (fun n => s.run u n) limit r → ComesTo (fun n => s'.run u' n) limit r' →
      ComesTo (s.machine.loop u.attendant) limit p →
      (r.2 = r'.2 ∧ r.1.machine.Same r'.1.machine) ∧ (r.2 = p.2 ∧ r.1.machine.Same p.1) := by
  have hbare : s.machine.bare = s'.machine.bare := Machine.same_iff_bare_eq.1 hmachine
  have hrun' : ∀ n, s.machine.bare.loop u.attendant.bare n =
      Prod.map (fun s => s.machine.bare) id (s'.run u' n) := by
    rw [hbare, hinput]
    exact fun n => bare_run u' n s'
  refine ⟨exists_comesTo_congr (fun n => ?_) limit, exists_comesTo_congr (fun n => ?_) limit,
    fun r r' p hr hr' hp => ?_⟩
  · exact congrArg Prod.snd ((bare_run u n s).symm.trans (hrun' n))
  · have hloop := Machine.bare_loop u.attendant n s.machine
    exact congrArg Prod.snd ((bare_run u n s).symm.trans hloop)
  · -- all three are the one thing that the loop of the bare machine comes to
    have hr := hr.map (fun s => s.machine.bare) fun n => bare_run u n s
    have hr' := hr'.map (fun s => s.machine.bare) hrun'
    have hp := hp.map Machine.bare fun n => Machine.bare_loop u.attendant n s.machine
    have hrr' := Machine.loop_unique _ hr hr'
    have hrp := Machine.loop_unique _ hr hp
    simp only [Prod.mk.injEq, ← Machine.same_iff_bare_eq] at hrr' hrp
    exact ⟨hrr'.symm, hrp.symm⟩

/-- A setup of the given pace whose user leaves at the third poll, when some time passes too. -/
def leavingThird (pace : Pace Int) (hasSound : Bool) (pause : Int) : Setup Int where
  pace
  rateText := "700"
  hasSound
  attendant :=
    { feed := { atPoll := fun n => if n = 3 then [.advance pause, .exit] else [] }
      interval := 1
      patience := 0 }

/-- A program comes to the same with a slow clock, no buzzer and a full journal as without. -/
theorem slow_run_unaffected :
    ∃ s s' : Session (VirtualClock Int) Int,
      s.machine.Same s'.machine ∧
      (leavingThird ⟨1, 16, 1000⟩ true 0).attendant.bare =
        (leavingThird ⟨50, 3, 7⟩ false 99).attendant.bare ∧
      (s.run (leavingThird ⟨1, 16, 1000⟩ true 0) 5).2 =
        (s'.run (leavingThird ⟨50, 3, 7⟩ false 99) 5).2 ∧
      (s.run (leavingThird ⟨1, 16, 1000⟩ true 0) 5).1.machine.Same
        (s'.run (leavingThird ⟨50, 3, 7⟩ false 99) 5).1.machine := by
  obtain ⟨m, -⟩ := Machine.exists_boot #[0x60, 0x05, 0x12, 0x00] (by decide) (.cycling #[])
    ({ clock := ⟨0, 0, 0⟩ } : Surroundings (VirtualClock Int))
  let around : Surroundings (VirtualClock Int) :=
    { m.around with clock := ⟨1000, 2, 0⟩, journal := .started true }
  let ticker : Ticker Int := { period := 1, rate := .ok 60 }
  let s : Session (VirtualClock Int) Int := { machine := m, ticker }
  let s' : Session (VirtualClock Int) Int := { machine := { m with around }, ticker }
  have hmachine : s.machine.Same s'.machine := Machine.same_iff_bare_eq.2 rfl
  have hinput : (leavingThird ⟨1, 16, 1000⟩ true 0).attendant.bare =
      (leavingThird ⟨50, 3, 7⟩ false 99).attendant.bare := by
    simp only [Attendant.bare, Feed.bare, leavingThird, Attendant.mk.injEq, Feed.mk.injEq,
      and_true]
    funext n
    split <;> rfl
  have hruns := (run_unaffected hmachine hinput (some 5)).2.2 _ _ _ rfl rfl rfl
  exact ⟨s, s', hmachine, hinput, hruns.1⟩

end Session

end Chip8

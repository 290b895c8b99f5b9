import Chip8.Proofs.Session.Plain
import Mathlib.Algebra.Ring.Nat

/-!
# Runs one after the other

A run that has reached its limit can be followed by another one.  That one sets its deadlines anew
and starts the timer clock and the buzzer again, but to the program it is as if the first run had
had a greater limit: the plain loop goes on where it was stopped (`Machine.loop_add`).

So it does not matter to a program into how many runs its instructions are cut, nor where
(`Session.runs_add_up`, `Session.run_add`).
-/

namespace Chip8

variable {κ τ : Type} [Clock κ τ]

namespace Machine

/-- **A loop that its limit has stopped goes on as if it had not been stopped.** -/
theorem loop_add (a : Attendant τ) (n k : Nat) {m : Machine κ} (h : (m.loop a n).2 = .limit) :
    m.loop a (n + k) = (m.loop a n).1.loop a k := by
  induction n generalizing m with
  | zero => rw [Nat.zero_add]; rfl
  | succ n ih =>
    rw [Nat.add_right_comm]
    by_cases hexit : (m.polled a).around.exitRequested = true
    · rw [loop_of_exit a n hexit] at h
      cases h
    have hstaying : (m.polled a).around.exitRequested = false := by simpa using hexit
    rcases hstep : (m.polled a).step a with ⟨after, fault | i⟩
    · rw [loop_of_error a n hstaying hstep] at h
      cases h
    · rw [loop_of_ok a n hstaying hstep] at h
      rw [loop_of_ok a (n + k) hstaying hstep, loop_of_ok a n hstaying hstep]
      exact ih h

end Machine

namespace Session

section Pacing

variable [Add τ] [Sub τ] [Neg τ] [LT τ] [LE τ] [OfNat τ 0] [DecidableLT τ] [DecidableLE τ]

/-- Runs one after the other, with these limits.  A run that does not reach its limit is the last
one. -/
def runs (u : Setup τ) : (limits : List Nat) → Session κ τ → Session κ τ × Ending
  | [], s => (s, .limit)
  | limit :: limits, s =>
    match s.run u limit with
    | (s, .limit) => runs u limits s
    | ended => ended

theorem runs_of_limit {u : Setup τ} {limit : Nat} {s : Session κ τ}
    (h : (s.run u limit).2 = .limit) (limits : List Nat) :
    s.runs u (limit :: limits) = (s.run u limit).1.runs u limits := by
  rcases hrun : s.run u limit with ⟨after, ending⟩
  rw [hrun] at h
  obtain rfl : ending = .limit := h
  simp only [runs, hrun]

theorem runs_of_ended {u : Setup τ} {limit : Nat} {s : Session κ τ}
    (h : (s.run u limit).2 ≠ .limit) (limits : List Nat) :
    s.runs u (limit :: limits) = s.run u limit := by
  rcases hrun : s.run u limit with ⟨after, ending⟩
  rw [hrun] at h
  cases ending with
  | limit => exact absurd rfl h
  | exit | fault => simp only [runs, hrun]

theorem runs_pair {u : Setup τ} {a : Nat} {s : Session κ τ} (h : (s.run u a).2 = .limit) (b : Nat) :
    s.runs u [a, b] = (s.run u a).1.run u b := by
  rw [runs_of_limit h]
  by_cases hlimit : ((s.run u a).1.run u b).2 = .limit
  · rw [runs_of_limit hlimit]
    exact Prod.ext rfl hlimit.symm
  · exact runs_of_ended hlimit []

/-- **Runs one after the other are the plain loop**, as far as a program can notice. -/
theorem bare_runs (u : Setup τ) (limits : List Nat) (s : Session κ τ) :
    s.machine.bare.loop u.attendant.bare limits.sum =
      Prod.map (fun s => s.machine.bare) id (s.runs u limits) := by
  induction limits generalizing s with
  | nil => rfl
  | cons limit limits ih =>
    have hrun := bare_run u limit s
    have hending := congrArg Prod.snd hrun
    rw [List.sum_cons]
    by_cases hlimit : (s.run u limit).2 = .limit
    · rw [runs_of_limit hlimit, Machine.loop_add _ _ _ (hending.trans hlimit), hrun]
      exact ih (s.run u limit).1
    · have hended : (s.machine.bare.loop u.attendant.bare limit).2 ≠ .limit :=
        fun h => hlimit (hending.symm.trans h)
      rw [runs_of_ended hlimit, Machine.loop_of_le _ hended (Nat.le_add_right _ _), hrun]

/-- **A run can be cut into any number of runs**, anywhere, be it in front of a key wait or behind
one.  They come to the same end as one run of all their instructions, with a machine that is the
same to a program. -/
theorem runs_add_up (u : Setup τ) (limits : List Nat) (s : Session κ τ) :
    (s.run u limits.sum).2 = (s.runs u limits).2 ∧
      (s.run u limits.sum).1.machine.Same (s.runs u limits).1.machine := by
  have hrun := (bare_run u limits.sum s).symm.trans (bare_runs u limits s)
  obtain ⟨hmachine, hending⟩ := Prod.mk.inj hrun
  exact ⟨hending, Machine.same_iff_bare_eq.2 hmachine⟩

/-- **Runs compose.**  If a run reaches its limit, then another run after it comes to what one run
with the sum of their limits comes to: that one reaches its limit as well, or fails with the same
fault, or the user leaves it, and its machine is the same to a program, down to the key-downs that
wait, the cycles, the polls and the random bytes that were drawn.  If a run does not reach its
limit, then it comes to the same with a greater one. -/
theorem run_add (u : Setup τ) (a b : Nat) (s : Session κ τ) :
    ((s.run u a).2 = .limit →
      (s.run u (a + b)).2 = ((s.run u a).1.run u b).2 ∧
        (s.run u (a + b)).1.machine.Same ((s.run u a).1.run u b).1.machine) ∧
    ((s.run u a).2 ≠ .limit →
      (s.run u (a + b)).2 = (s.run u a).2 ∧
        (s.run u (a + b)).1.machine.Same (s.run u a).1.machine) := by
  have hsum := runs_add_up u [a, b] s
  rw [List.sum_cons, List.sum_singleton] at hsum
  constructor
  · intro hlimit
    rwa [runs_pair hlimit] at hsum
  · intro hended
    rwa [runs_of_ended hended] at hsum

end Pacing

/-- A setup whose input source presses two keys at its second poll. -/
def pressingTwo : Setup Int where
  pace := ⟨1, 1, 1⟩
  rateText := "1"
  attendant :=
    { feed := { atPoll := fun n => if n = 2 then [.press 4, .press 5] else [] }
      interval := 1
      patience := 0 }

/-- Two keys go down while a program waits for the first one.  The run is cut behind that wait, and
the next wait gets the second key all the same. -/
theorem key_down_crosses_cut :
    ∃ s : Session (VirtualClock Int) Int,
      (s.run pressingTwo 1).2 = .limit ∧
      (s.run pressingTwo 1).1.machine.around.keyboard.downs = [⟨5, 1⟩] ∧
      ((s.run pressingTwo 1).1.run pressingTwo 1).1.machine.reg 6 = 5 ∧
      (s.run pressingTwo 2).2 = ((s.run pressingTwo 1).1.run pressingTwo 1).2 ∧
      (s.run pressingTwo 2).1.machine.Same
        ((s.run pressingTwo 1).1.run pressingTwo 1).1.machine := by
  obtain ⟨m, journal, -, hholds, hpc, haround⟩ :=
    Machine.exists_holds #[0xF5, 0x0A, 0xF6, 0x0A] (by decide) (⟨0, 0, 0⟩ : VirtualClock Int)
  obtain ⟨s, rfl⟩ : ∃ s : Session (VirtualClock Int) Int, s.machine = m :=
    ⟨{ machine := m, ticker := { period := 1, rate := .ok 60 } }, rfl⟩
  let a := pressingTwo.attendant
  have hpolled : (s.machine.polled a).Holds _ := hholds.of_store_eq rfl
  have hfirst : (s.machine.polled a).AwaitsKey := by
    refine ⟨hpolled.canFetch 0 hpc (by decide), ?_⟩
    rw [hpolled.nextInstruction 0 hpc (by decide)]
    decide
  -- the first wait polls, gets the first key, and leaves the second one in the queue
  rcases hwait : (s.machine.polled a).fetched.around.waitForKey a with ⟨result, around⟩
  obtain ⟨rfl, hdowns, hcycle, hpolls, hexit⟩ : result = .key 4 ∧
      around.keyboard.downs = [⟨5, 1⟩] ∧ around.keyboard.cycle = 1 ∧ around.polls = 2 ∧
      around.exitRequested = false := by
    simp only [Machine.fetched, Machine.beginCycle, Machine.polled, haround] at hwait
    obtain ⟨rfl, rfl⟩ := Prod.mk.inj hwait.symm
    exact ⟨rfl, rfl, rfl, rfl, rfl⟩
  obtain ⟨notes, hstep⟩ := Machine.step_of_key a hfirst hwait
  have hstaying : (s.machine.polled a).around.exitRequested = false := by
    simp only [Machine.polled, haround]
    rfl
  have hone := Machine.loop_of_ok a 0 hstaying hstep
  have htwo := Machine.loop_of_ok a 1 hstaying hstep
  obtain ⟨m, hm⟩ : ∃ m, m = ({ (s.machine.polled a).fetched with
    around := { around with journal := notes } }.setReg
      (s.machine.polled a).nextInstruction.x 4).completed := ⟨_, rfl⟩
  rw [← hm] at hone htwo
  -- the next poll brings nothing, and the second key-down is still fresh
  have hquiet : (m.polled a).around = { m.around with polls := 3 } := by
    have hthird : m.around.polls = 2 := hm ▸ hpolls
    simp only [Machine.polled, Surroundings.poll, hthird]
    rfl
  have hholds' : (m.polled a).Holds _ := hholds.of_store_eq (hm ▸ rfl)
  have hpc' : (m.polled a).pc = (Store.programStart + 2 : Nat) := by
    rw [hm]
    exact congrArg Machine.nextAddress hpc
  have hsecond : (m.polled a).AwaitsKey := by
    refine ⟨hholds'.canFetch 2 hpc' (by decide), ?_⟩
    rw [hholds'.nextInstruction 2 hpc' (by decide)]
    decide
  have hfresh : (m.polled a).around.keyboard.nextCycle.dropStale.downs = [⟨5, 1⟩] := by
    rw [hquiet]
    simp only [hm, Machine.completed, Machine.setReg, Keyboard.nextCycle, Keyboard.dropStale,
      hdowns, hcycle]
    rfl
  obtain ⟨hdone, hregisters, -⟩ := Machine.step_stores_at_once a hsecond hfresh
  have hstaying' : (m.polled a).around.exitRequested = false := by
    rw [hquiet, hm]
    exact hexit
  rw [Machine.loop_of_ok a 0 hstaying' (Prod.ext rfl hdone)] at htwo
  obtain ⟨hending₁, hsame₁⟩ := run_same_loop pressingTwo 1 s
  obtain ⟨-, hsame₂⟩ := run_same_loop pressingTwo 2 s
  rw [hone] at hending₁ hsame₁
  rw [htwo] at hsame₂
  obtain ⟨hending, hsame⟩ := (run_add pressingTwo 1 1 s).1 hending₁
  refine ⟨s, hending₁, ?_, ?_, hending, hsame⟩
  · rw [hsame₁.keyboard, Machine.loop, hm]
    exact hdowns
  · have hx : (m.polled a).nextInstruction.x = 6 := by
      rw [hholds'.nextInstruction 2 hpc' (by decide)]
      decide
    rw [Machine.reg, ← hsame.registers, hsame₂.registers, Machine.loop, hregisters]
    show ((m.polled a).setReg _ 5).reg 6 = 5
    rw [Machine.reg_setReg, if_pos hx]

end Session

end Chip8

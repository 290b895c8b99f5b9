import Mathlib.Algebra.Order.Ring.Defs
import Mathlib.Tactic.Linarith

/-!
# Deadlines that move on

Something is done again and again, each time not before its *deadline*, and each time the deadline
moves on by a period at least.  To make up for lost time is allowed within limits: the new deadline
is not before the present, less some slack (`Timely`).

Then the times are not faster than their period (`Timely.due`), and they gain on it by the slack at
most, whichever of them one counts from (`Timely.apart`).
-/

namespace Chip8

variable {τ : Type} [CommRing τ] [LinearOrder τ] [IsStrictOrderedRing τ]

/-- The times, in order, at which something is done that has a deadline now. -/
inductive Timely (period slack : τ) : (deadline : τ) → (times : List τ) → Prop where
  /-- It is done no more. -/
  | nil (deadline : τ) : Timely period slack deadline []
  /-- It is done, and there is a new deadline. -/
  | cons {deadline next time : τ} {times : List τ} (kept : deadline ≤ time)
      (onward : deadline + period ≤ next) (recent : time - slack ≤ next) :
      Timely period slack next times → Timely period slack deadline (time :: times)

namespace Timely

variable {period slack deadline later a b time : τ} {times : List τ} {i j k : Nat}

theorem of_le (h : Timely period slack later times) (hle : deadline ≤ later) :
    Timely period slack deadline times := by
  cases h with
  | nil => exact .nil deadline
  | cons kept onward recent rest => exact .cons (by linarith) (by linarith) recent rest

/-- **Nothing is done before it is due.** -/
theorem due (h : Timely period slack deadline times) (hk : times[k]? = some time) :
    deadline + k * period ≤ time := by
  induction h generalizing k with
  | nil => simp at hk
  | cons kept onward recent rest ih =>
    cases k with
    | zero =>
      obtain rfl := Option.some.inj hk
      simpa using kept
    | succ k =>
      have hrest := ih hk
      push_cast
      linarith

theorem le_of_mem (h : Timely period slack deadline times) (hperiod : 0 ≤ period)
    (hmem : time ∈ times) : deadline ≤ time := by
  obtain ⟨k, hk⟩ := List.mem_iff_getElem?.1 hmem
  have hdue := h.due hk
  have hperiods : 0 ≤ k * period := mul_nonneg k.cast_nonneg hperiod
  linarith

/-- **Later times are apart**, but for the slack. -/
theorem apart (h : Timely period slack deadline times) (hij : i < j) (ha : times[i]? = some a)
    (hb : times[j]? = some b) : a + (j - i - 1) * period - slack ≤ b := by
  obtain ⟨k, rfl⟩ := Nat.exists_eq_add_of_lt hij
  clear hij
  induction h generalizing i with
  | nil => simp at ha
  | cons kept onward recent rest ih =>
    cases i with
    | zero =>
      -- the deadline that the earlier time leaves is where the later ones start from
      obtain rfl := Option.some.inj ha
      have hrest := rest.due (k := k) (by simpa using hb)
      push_cast
      linarith
    | succ i =>
      rw [Nat.succ_add, Nat.succ_add] at hb
      have hrest := ih ha hb
      push_cast at hrest ⊢
      linarith

end Timely

end Chip8

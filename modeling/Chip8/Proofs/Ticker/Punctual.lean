import Chip8.Proofs.Deadline
import Chip8.Ticker
import Mathlib.Algebra.Order.Ring.Rat
import Mathlib.Data.List.NodupEquivFin
import Mathlib.Tactic.NormNum
import Mathlib.Tactic.Ring

/-!
# The timer clock is punctual

The thread of a timer clock waits for a deadline, ticks, and moves the deadline on.  The deadline is
never further away than one period, and never further back than one period (`Ticker.timeout_bounds`,
`Ticker.nextDeadline_recent`).  So no tick is early, and however long the thread was held up, it
makes up for two periods at most (`Ticker.never_early_nor_in_bursts`).

A wait that returns late by one period or less delays its own tick only: the deadlines stay at whole
periods from the start, and none of them is ever set anew (`Ticker.lateness_never_adds_up`).

Times are exact here: they come from an ordered ring, such as that of the rational numbers.
-/

namespace Chip8

namespace Ticker

/-- A wait of the thread, and the tick behind it. -/
structure Turn (τ : Type) where
  /-- The deadline that it waits for. -/
  deadline : τ
  /-- The time at which it returns, and the timers tick. -/
  finish : τ

variable {τ : Type}

/-- The latenesses of the waits that return; none does if the thread was asked to stop before. -/
def heeded (t : Ticker τ) (late : List τ) : List τ := if t.stopping then [] else late

theorem mem_of_mem_heeded {t : Ticker τ} {late : List τ} {l : τ} (h : l ∈ t.heeded late) :
    l ∈ late := by
  unfold heeded at h
  split at h
  · cases h
  · exact h

section Work

variable [Add τ] [Sub τ] [LT τ] [OfNat τ 0] [DecidableLT τ]

/-- The turns of the thread from the time `now` on. -/
def turnsFrom (period : τ) : (late : List τ) → (deadline now : τ) → List (Turn τ)
  | [], _, _ => []
  | late :: rest, deadline, now =>
    let finish := now + (timeout deadline now + late)
    ⟨deadline, finish⟩ :: turnsFrom period rest (nextDeadline period deadline finish) finish

/-- The turns of the body of the thread, begun at the time `now`. -/
def turns (t : Ticker τ) (late : List τ) (now : τ) : List (Turn τ) :=
  turnsFrom t.period (t.heeded late) (now + t.period) now

/-- Behind its tick the deadline is set anew. -/
def Turn.Resets (period : τ) (x : Turn τ) : Prop := x.deadline + period < x.finish - period

theorem ticks_workFrom (period : τ) (late : List τ) (deadline now : τ) (timers : Countdown) :
    (workFrom period late deadline now timers).ticks =
      (turnsFrom period late deadline now).map (·.finish) := by
  induction late generalizing deadline now timers with
  | nil => rfl
  | cons l late ih => simp only [workFrom, turnsFrom, ih, List.map_cons]

theorem length_turnsFrom (period : τ) (late : List τ) (deadline now : τ) :
    (turnsFrom period late deadline now).length = late.length := by
  induction late generalizing deadline now with
  | nil => rfl
  | cons l late ih => simp only [turnsFrom, ih, List.length_cons]

/-- There is one more wait than there are turns: the one that was stopped. -/
theorem length_waits_workFrom (period : τ) (late : List τ) (deadline now : τ)
    (timers : Countdown) :
    (workFrom period late deadline now timers).waits.length = late.length + 1 := by
  induction late generalizing deadline now timers with
  | nil => rfl
  | cons l late ih => simp only [workFrom, ih, List.length_cons]

theorem timers_workFrom (period : τ) (late : List τ) (deadline now : τ) (timers : Countdown) :
    (workFrom period late deadline now timers).timers = Countdown.tick^[late.length] timers := by
  induction late generalizing deadline now timers with
  | nil => rfl
  | cons l late ih => simp only [workFrom, ih, List.length_cons, Function.iterate_succ_apply]

end Work

variable [CommRing τ] [LinearOrder τ] [IsStrictOrderedRing τ]
variable {period deadline now : τ}

/-! ### One wait -/

theorem timeout_bounds (hperiod : 0 ≤ period) (h : deadline ≤ now + period) :
    0 ≤ timeout deadline now ∧ timeout deadline now ≤ period := by
  unfold timeout
  split
  next hlater => exact ⟨hlater.le, by linarith⟩
  next => exact ⟨le_rfl, hperiod⟩

theorem add_timeout (h : now ≤ deadline) : now + timeout deadline now = deadline := by
  unfold timeout
  split
  · linarith
  · linarith

theorem le_finish {l : τ} (hl : 0 ≤ l) (deadline now : τ) :
    deadline ≤ now + (timeout deadline now + l) := by
  unfold timeout
  split
  · linarith
  · linarith

theorem nextDeadline_onward (hperiod : 0 ≤ period) (deadline now : τ) :
    deadline + period ≤ nextDeadline period deadline now := by
  unfold nextDeadline
  split
  · linarith
  · exact le_rfl

theorem nextDeadline_recent (hperiod : 0 ≤ period) (deadline now : τ) :
    now - period ≤ nextDeadline period deadline now := by
  unfold nextDeadline
  split
  · linarith
  · linarith

theorem nextDeadline_le (h : deadline ≤ now) : nextDeadline period deadline now ≤ now + period := by
  unfold nextDeadline
  split
  · exact le_rfl
  · linarith

/-! ### The work of the thread -/

/-- **The ticks are timely.** -/
theorem timely_turnsFrom (hperiod : 0 ≤ period) {late : List τ} (hlate : ∀ l ∈ late, 0 ≤ l)
    (deadline now : τ) :
    Timely period period deadline ((turnsFrom period late deadline now).map (·.finish)) := by
  induction late generalizing deadline now with
  | nil => exact .nil deadline
  | cons l late ih =>
    have hkept := le_finish (hlate l List.mem_cons_self) deadline now
    exact .cons hkept (nextDeadline_onward hperiod deadline _)
      (nextDeadline_recent hperiod deadline _)
      (ih (fun l hl => hlate l (List.mem_cons_of_mem _ hl)) _ _)

/-- **No wait is longer than a period.** -/
theorem waits_workFrom (hperiod : 0 ≤ period) {late : List τ} (hlate : ∀ l ∈ late, 0 ≤ l)
    (h : deadline ≤ now + period) (timers : Countdown) :
    ∀ wait ∈ (workFrom period late deadline now timers).waits, 0 ≤ wait ∧ wait ≤ period := by
  induction late generalizing deadline now timers with
  | nil =>
    intro wait hmem
    obtain rfl := List.mem_singleton.1 hmem
    exact timeout_bounds hperiod h
  | cons l late ih =>
    intro wait hmem
    -- the deadline of the next wait is again one period away at most
    have hfinish := le_finish (hlate l List.mem_cons_self) deadline now
    have hnext : nextDeadline period deadline _ ≤ _ + period := nextDeadline_le hfinish
    rcases List.mem_cons.1 hmem with rfl | hmem
    · exact timeout_bounds hperiod h
    · exact ih (fun l hl => hlate l (List.mem_cons_of_mem _ hl)) hnext _ wait hmem

/-- If between any two ticks lie all the periods between them but two, three at most fall on one
instant. -/
theorem count_le_of_apart {ticks : List τ} (hperiod : 0 < period)
    (h : ∀ (i j : ℕ) (a b : τ), i < j → ticks[i]? = some a → ticks[j]? = some b →
      (j - i - 2) * period ≤ b - a) (time : τ) : ticks.count time ≤ 3 := by
  by_contra hmany
  have hsub : (List.replicate 4 time).Sublist ticks := List.replicate_sublist_iff.2 (by omega)
  obtain ⟨f, hf⟩ := List.sublist_iff_exists_orderEmbedding_getElem?_eq.1 hsub
  have hfirst : ticks[f 0]? = some time := (hf 0).symm
  have hlast : ticks[f 3]? = some time := (hf 3).symm
  have h01 : f 0 < f 1 := f.strictMono (by decide)
  have h12 : f 1 < f 2 := f.strictMono (by decide)
  have h23 : f 2 < f 3 := f.strictMono (by decide)
  have hgap : ((f 0 : ℕ) : τ) + 3 ≤ (f 3 : ℕ) := by exact_mod_cast (show f 0 + 3 ≤ f 3 by omega)
  have hapart := h (f 0) (f 3) time time (by omega) hfirst hlast
  have hpositive : 0 < ((f 3 : ℕ) - (f 0 : ℕ) - 2 : τ) * period := mul_pos (by linarith) hperiod
  linarith

/-- **The timer clock never ticks early and never in bursts.**  Let the times be exact.  However
late its waits return, tick number `k` of the thread is not before `k + 1` periods after its start;
between any two ticks lie all the periods between them but two, so three ticks at most fall on one
instant; and no wait is longer than a period.  There is one tick of both timers for each wait that
returns, and one more wait, which is stopped. -/
theorem never_early_nor_in_bursts (t : Ticker τ) (hperiod : 0 < t.period) (late : List τ)
    (hlate : ∀ l ∈ late, 0 ≤ l) (now : τ) (timers : Countdown) :
    let course := t.work late now timers
    (∀ (k : ℕ) (time : τ), course.ticks[k]? = some time → now + (k + 1) * t.period ≤ time) ∧
    (∀ (i j : ℕ) (a b : τ), i < j → course.ticks[i]? = some a → course.ticks[j]? = some b →
      (j - i - 2) * t.period ≤ b - a) ∧
    (∀ time, course.ticks.count time ≤ 3) ∧
    (∀ wait ∈ course.waits, 0 ≤ wait ∧ wait ≤ t.period) ∧
    course.ticks.length = (t.heeded late).length ∧
    course.waits.length = course.ticks.length + 1 ∧
    course.timers = Countdown.tick^[course.ticks.length] timers := by
  intro course
  have hheeded : ∀ l ∈ t.heeded late, 0 ≤ l := fun l hl => hlate l (mem_of_mem_heeded hl)
  have hticks : course.ticks = (t.turns late now).map (·.finish) := ticks_workFrom _ _ _ _ _
  have htimely := timely_turnsFrom hperiod.le hheeded (now + t.period) now
  have hlength : course.ticks.length = (t.heeded late).length := by
    rw [hticks, List.length_map]
    exact length_turnsFrom _ _ _ _
  have hapart : ∀ (i j : ℕ) (a b : τ), i < j → course.ticks[i]? = some a →
      course.ticks[j]? = some b → (j - i - 2) * t.period ≤ b - a := by
    intro i j a b hij ha hb
    rw [hticks] at ha hb
    have hbetween := htimely.apart hij ha hb
    linarith
  refine ⟨fun k time hk => ?_, hapart, count_le_of_apart hperiod hapart, ?_, hlength, ?_, ?_⟩
  · rw [hticks] at hk
    have hdue := htimely.due hk
    linarith
  · exact waits_workFrom hperiod.le hheeded le_rfl timers
  · rw [hlength]
    exact length_waits_workFrom _ _ _ _ _
  · rw [hlength]
    exact timers_workFrom _ _ _ _ _

/-- A timer clock that ticks once a second. -/
def secondly : Ticker ℚ := { period := 1, rate := .ok 1 }

/-- A thread whose first wait lasts three seconds instead of one ticks three times on one instant;
one that is suspended for five seconds more ticks once and then goes on as from a start. -/
theorem suspended_ticks :
    let late : List ℚ := [2, 0, 0, 5, 0]
    let course := secondly.work late 0 {}
    0 < secondly.period ∧ (∀ l ∈ late, 0 ≤ l) ∧
    course.ticks = [3, 3, 3, 9, 10] ∧ course.ticks.count 3 ≤ 3 ∧
    course.waits.length = course.ticks.length + 1 := by
  intro late course
  have hperiod : 0 < secondly.period := by norm_num [secondly]
  have hlate : ∀ l ∈ late, 0 ≤ l := by simp [late]
  have hticks : course.ticks = [3, 3, 3, 9, 10] := by
    norm_num [course, late, secondly, work, workFrom, timeout, nextDeadline]
  obtain ⟨-, -, hcount, -, -, hwaits, -⟩ :=
    never_early_nor_in_bursts secondly hperiod late hlate 0 {}
  exact ⟨hperiod, hlate, hticks, hcount 3, hwaits⟩

/-! ### Waits that return in time -/

/-- A wait that begins before its deadline and is late by one period at most moves the deadline on
by exactly a period, and the next wait begins before the new one. -/
theorem turn_of_prompt {l : τ} (h : now ≤ deadline) (hl : 0 ≤ l ∧ l ≤ period) :
    now + (timeout deadline now + l) = deadline + l ∧
      nextDeadline period deadline (deadline + l) = deadline + period ∧
      deadline + l ≤ deadline + period := by
  obtain ⟨hlow, hhigh⟩ := hl
  refine ⟨?_, if_neg ?_, ?_⟩
  · rw [← add_assoc, add_timeout h]
  · linarith
  · linarith

/-- If no wait is late by more than a period, the deadlines are whole periods apart, and each tick
is late by the lateness of its own wait. -/
theorem turnsFrom_of_prompt {late : List τ} (hlate : ∀ l ∈ late, 0 ≤ l ∧ l ≤ period)
    (h : now ≤ deadline) :
    turnsFrom period late deadline now =
      late.mapIdx fun k l => ⟨deadline + k * period, deadline + k * period + l⟩ := by
  induction late generalizing deadline now with
  | nil => rfl
  | cons l late ih =>
    obtain ⟨hfinish, hnext, hlater⟩ := turn_of_prompt h (hlate l List.mem_cons_self)
    have hrest := ih (fun l hl => hlate l (List.mem_cons_of_mem _ hl)) hlater
    have hshift (k : ℕ) : deadline + period + k * period = deadline + (k + 1 : ℕ) * period := by
      push_cast
      ring
    simp only [turnsFrom, List.mapIdx_cons, hfinish, hnext, hrest, hshift, Nat.cast_zero, zero_mul,
      add_zero]

theorem waits_workFrom_of_prompt {late : List τ} (hlate : ∀ l ∈ late, 0 ≤ l ∧ l ≤ period)
    (h : now ≤ deadline) (timers : Countdown) :
    (workFrom period late deadline now timers).waits =
      (deadline - now) :: late.map (period - ·) := by
  induction late generalizing deadline now timers with
  | nil => simp only [workFrom, eq_sub_of_add_eq' (add_timeout h), List.map_nil]
  | cons l late ih =>
    obtain ⟨hfinish, hnext, hlater⟩ := turn_of_prompt h (hlate l List.mem_cons_self)
    have hwait := eq_sub_of_add_eq' (add_timeout h)
    have hrest := ih (fun l hl => hlate l (List.mem_cons_of_mem _ hl)) hlater timers.tick
    rw [hwait] at hfinish
    simp only [workFrom, hwait, hfinish, hnext, hrest, List.map_cons, add_sub_add_left_eq_sub]

theorem not_resets_of_prompt {late : List τ} (hlate : ∀ l ∈ late, 0 ≤ l ∧ l ≤ period)
    (h : now ≤ deadline) : ∀ x ∈ turnsFrom period late deadline now, ¬ x.Resets period := by
  intro x hx hresets
  rw [turnsFrom_of_prompt hlate h, List.mem_mapIdx] at hx
  obtain ⟨k, hk, rfl⟩ := hx
  obtain ⟨hl, hl'⟩ := hlate _ (List.getElem_mem hk)
  unfold Turn.Resets at hresets
  linarith

/-- **The timer clock does not drift.**  Let the times be exact, and let no wait return late by more
than one period.  Then tick number `k` is exactly `k + 1` periods after the start and the lateness
of its own wait, since each wait is a period less the lateness of the wait before; and behind no
tick the deadline is set anew. -/
theorem lateness_never_adds_up (t : Ticker τ) (late : List τ)
    (hlate : ∀ l ∈ late, 0 ≤ l ∧ l ≤ t.period) (hperiod : 0 < t.period) (now : τ)
    (timers : Countdown) :
    (t.work late now timers).ticks =
      (t.heeded late).mapIdx (fun k l => now + (k + 1) * t.period + l) ∧
    (t.work late now timers).waits = t.period :: (t.heeded late).map (t.period - ·) ∧
    (t.work late now timers).ticks = (t.turns late now).map (·.finish) ∧
    ∀ x ∈ t.turns late now, ¬ x.Resets t.period := by
  have hheeded : ∀ l ∈ t.heeded late, 0 ≤ l ∧ l ≤ t.period :=
    fun l hl => hlate l (mem_of_mem_heeded hl)
  have hstart : now ≤ now + t.period := by linarith
  have hticks : (t.work late now timers).ticks = (t.turns late now).map (·.finish) :=
    ticks_workFrom _ _ _ _ _
  refine ⟨?_, ?_, hticks, not_resets_of_prompt hheeded hstart⟩
  · rw [hticks, turns, turnsFrom_of_prompt hheeded hstart]
    refine List.ext_getElem (by simp) fun k _ _ => ?_
    simp only [List.getElem_map, List.getElem_mapIdx]
    ring
  · have hwaits := waits_workFrom_of_prompt hheeded hstart timers
    rwa [add_sub_cancel_left] at hwaits

/-- Waits that are late by up to a whole period, begun at ten seconds. -/
theorem late_ticks_catch_up :
    let late : List ℚ := [1, 0, 1 / 2, 1]
    0 < secondly.period ∧ (∀ l ∈ late, 0 ≤ l ∧ l ≤ secondly.period) ∧
    (secondly.work late 10 {}).ticks = [12, 12, 27 / 2, 15] ∧
    ∀ x ∈ secondly.turns late 10, ¬ x.Resets secondly.period := by
  intro late
  have hperiod : 0 < secondly.period := by norm_num [secondly]
  have hlate : ∀ l ∈ late, 0 ≤ l ∧ l ≤ secondly.period := by
    norm_num [late, secondly]
  obtain ⟨hticks, -, -, hresets⟩ := lateness_never_adds_up secondly late hlate hperiod 10 {}
  refine ⟨hperiod, hlate, ?_, hresets⟩
  rw [hticks]
  norm_num [late, heeded, secondly]

end Ticker

end Chip8

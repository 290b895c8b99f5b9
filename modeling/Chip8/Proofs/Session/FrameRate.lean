import Chip8.Proofs.Deadline
import Chip8.Proofs.Session.Moments
import Chip8.Proofs.Session.Pacing
import Mathlib.Data.List.Basic

/-!
# The frame rate is limited

Behind each instruction a run reads the time and checks whether a frame is due.  If one is, it shows
the picture, provided that this has changed, and moves the deadline of the next frame on by one
period; if that has passed as well, it sets the deadline one period from the present.

So a check at which a frame is due leaves a deadline that is not in the past, and at least one
period behind the one before (`Session.Check.Kept`).  The checks that show a frame are therefore
timely (`Session.timely_readings`), and there is no way to make up for frames that were missed
(`Session.frame_rate_limited`).
-/

namespace Chip8

/-- When and what was shown, if a frame was. -/
def Moment.showing? {τ : Type} : Moment τ → Option (τ × Frame)
  | .shown _ time frame => some (time, frame)
  | _ => none

namespace Session

variable {κ τ : Type}

/-- When and what was shown so far, the earliest first. -/
def showings (s : Session κ τ) : List (τ × Frame) := s.moments.toList.filterMap Moment.showing?

variable [Clock κ τ]

/-- What a pass that does not end its run makes of the display. -/
structure Check (τ : Type) where
  /-- When a frame was due. -/
  deadline : τ
  /-- The time that the pass read behind its instruction. -/
  reading : τ
  /-- The frames that it showed, and when. -/
  shown : List (τ × Frame)
  /-- When the next frame is due. -/
  next : τ

namespace Check

/-- The time that was read, once for each frame shown. -/
def readings (c : Check τ) : List τ := c.shown.map fun _ => c.reading

/-- A check keeps to the rate of a frame in a period. -/
structure Kept [Add τ] [LE τ] (period : τ) (c : Check τ) : Prop where
  /-- At most one frame is shown. -/
  single : c.shown.length ≤ 1
  /-- None is shown before it is due, and the deadline stays. -/
  early : ¬ c.deadline ≤ c.reading → c.shown = [] ∧ c.next = c.deadline
  /-- A deadline that has passed moves on by a period or more. -/
  onward : c.deadline ≤ c.reading → c.deadline + period ≤ c.next
  /-- It is not in the past then, and within a period. -/
  recent : c.deadline ≤ c.reading → c.reading ≤ c.next ∧ c.next ≤ c.reading + period
  /-- No frame is shown before the time that was read. -/
  later : ∀ time frame, (time, frame) ∈ c.shown → c.reading ≤ time

end Check

/-! ### The frames of a pass -/

section Pacing

variable [Add τ] [Sub τ] [Neg τ] [LT τ] [LE τ] [OfNat τ 0] [DecidableLT τ] [DecidableLE τ]
variable {u : Setup τ} {head : Session κ τ × Schedule τ}

/-- What the pass at a head makes of the display. -/
def check (u : Setup τ) (head : Session κ τ × Schedule τ) : Check τ where
  deadline := head.2.frame
  reading := (head.1.stepped u).look.1
  shown := (head.1.pass u head.2).1.showings.drop head.1.showings.length
  next := (head.1.pass u head.2).2.1.frame

/-- What the passes of a run make of the display, but for the one that ends it. -/
def checksOfRun (u : Setup τ) (limit : Nat) (s : Session κ τ) : List (Check τ) :=
  (s.headsOfRun u limit).map (check u)

omit [Add τ] [Sub τ] [Neg τ] [LT τ] [OfNat τ 0] [DecidableLT τ] in
theorem filterMap_showing (s : Session κ τ) (d : Schedule τ) (now : τ) :
    (s.showing d now).filterMap Moment.showing? =
      if d.frame ≤ now ∧ s.machine.screen.dirty = true then
        [(Clock.time s.machine.around.clock, s.machine.screen.frame)]
      else [] := by
  unfold showing
  by_cases h : d.frame ≤ now ∧ s.machine.screen.dirty = true
  · rw [if_pos h, if_pos h]
    rfl
  · rw [if_neg h, if_neg h]
    rfl

omit [Clock κ τ] [Add τ] [Sub τ] [Neg τ] [LT τ] [OfNat τ 0] [DecidableLT τ] in
theorem filterMap_reporting (s : Session κ τ) (d : Schedule τ) (now : τ) :
    (s.reporting d now).filterMap Moment.showing? = [] := by
  unfold reporting
  split <;> rfl

omit [Neg τ] [LE τ] [DecidableLE τ] in
theorem filterMap_sleeping (u : Setup τ) (s : Session κ τ) (d : Schedule τ) :
    (s.sleeping u d).filterMap Moment.showing? = [] := by
  unfold sleeping
  dsimp only
  split <;> rfl

theorem shown_check_eq (h : (head.1.pass u head.2).2.2 = none) :
    (check u head).shown = (head.1.noticed u head.2).filterMap Moment.showing? := by
  simp [check, showings, moments_of_goes_on h]

/-- A pass shows the picture if a frame is due and the picture changed, and no frame otherwise. -/
theorem shown_check (h : (head.1.pass u head.2).2.2 = none) :
    (check u head).shown =
      if (check u head).deadline ≤ (check u head).reading ∧
          (head.1.stepped u).machine.screen.dirty = true then
        [(Clock.time (Clock.read (head.1.stepped u).machine.around.clock),
          (head.1.stepped u).machine.screen.frame)]
      else [] := by
  rw [shown_check_eq h, noticed]
  dsimp only
  rw [List.filterMap_append, List.filterMap_append, filterMap_reporting, filterMap_sleeping,
    List.append_nil, List.append_nil, filterMap_showing]
  rfl

/-- The frames that a run shows are those of its checks. -/
theorem showings_run (u : Setup τ) (limit : Nat) (s : Session κ τ) :
    (s.run u limit).1.showings = s.showings ++ (s.checksOfRun u limit).flatMap Check.shown := by
  have hchecks : (s.checksOfRun u limit).flatMap Check.shown =
      (s.headsOfRun u limit).flatMap fun h => (h.1.noticed u h.2).filterMap Moment.showing? := by
    rw [checksOfRun, List.flatMap_map]
    exact List.flatMap_congr fun head hhead => shown_check_eq (goes_on_of_mem_heads hhead)
  rw [hchecks]
  exact filterMap_moments_run Moment.showing? rfl rfl u limit s

/-! ### The deadline of the next frame -/

omit [Sub τ] [Neg τ] [OfNat τ 0] in
theorem showIfDue_frame (u : Setup τ) (s : Session κ τ) (d : Schedule τ) (now : τ) :
    (s.showIfDue u d now).2.frame =
      if d.frame ≤ now then
        if d.frame + u.pace.frame < now then now + u.pace.frame else d.frame + u.pace.frame
      else d.frame := by
  unfold showIfDue
  by_cases hdue : d.frame ≤ now
  · rw [if_pos hdue, if_pos hdue]
  · rw [if_neg hdue, if_neg hdue]

omit [Clock κ τ] [Sub τ] [Neg τ] [LT τ] [OfNat τ 0] [DecidableLT τ] in
theorem reportIfDue_frame (u : Setup τ) (s : Session κ τ) (d : Schedule τ) (now : τ) :
    (s.reportIfDue u d now).2.frame = d.frame := by
  unfold reportIfDue
  split <;> rfl

omit [LE τ] [DecidableLE τ] in
theorem paceOut_frame (u : Setup τ) (s : Session κ τ) (d : Schedule τ) :
    (s.paceOut u d).2.frame = d.frame := by
  unfold paceOut
  dsimp only
  split
  · rfl
  · split <;> rfl

theorem next_check (h : (head.1.pass u head.2).2.2 = none) :
    (check u head).next =
      if (check u head).deadline ≤ (check u head).reading then
        if (check u head).deadline + u.pace.frame < (check u head).reading then
          (check u head).reading + u.pace.frame
        else (check u head).deadline + u.pace.frame
      else (check u head).deadline := by
  unfold check
  rw [pass_of_goes_on h]
  exact (paceOut_frame u _ _).trans
    ((reportIfDue_frame u _ _ _).trans (showIfDue_frame u _ head.2 _))

end Pacing

variable [CommRing τ] [LinearOrder τ] [IsStrictOrderedRing τ]
variable {u : Setup τ} {s : Session κ τ} {d : Schedule τ}

/-- **A pass that does not end its run keeps to the frame rate.** -/
theorem kept_check (hread : ∀ c : κ, Clock.time c ≤ Clock.time (Clock.read c))
    (hframe : 0 ≤ u.pace.frame) {head : Session κ τ × Schedule τ}
    (h : (head.1.pass u head.2).2.2 = none) : (check u head).Kept u.pace.frame := by
  have hshown := shown_check h
  have hnext := next_check h
  refine ⟨?_, fun hearly => ?_, fun hdue => ?_, fun hdue => ?_, fun time frame hmem => ?_⟩
  · rw [hshown]
    split <;> simp
  · rw [hshown, hnext, if_neg fun hdue => hearly hdue.1, if_neg hearly]
    exact ⟨rfl, rfl⟩
  · rw [hnext, if_pos hdue]
    split <;> linarith
  · -- a deadline that would be in the past is set anew
    rw [hnext, if_pos hdue]
    split
    · exact ⟨by linarith, le_rfl⟩
    · exact ⟨by linarith, by linarith⟩
  · rw [hshown] at hmem
    split at hmem
    · obtain ⟨rfl, -⟩ := Prod.mk.inj (List.mem_singleton.1 hmem)
      exact hread _
    · cases hmem

/-! ### Many passes -/

namespace Check

variable {period : τ} {times : List τ} {c : Check τ}

omit [IsStrictOrderedRing τ] in
theorem Kept.readings_eq (h : c.Kept period) : c.readings = [] ∨ c.readings = [c.reading] := by
  have hsingle := h.single
  unfold readings
  match hshown : c.shown with
  | [] => exact .inl rfl
  | [_] => exact .inr rfl
  | _ :: _ :: _ => simp [hshown] at hsingle

/-- A check goes before checks that are timely from the deadline on that it leaves. -/
theorem Kept.timely (h : c.Kept period) (hperiod : 0 ≤ period)
    (hrest : Timely period 0 c.next times) : Timely period 0 c.deadline (c.readings ++ times) := by
  by_cases hdue : c.deadline ≤ c.reading
  · have honward := h.onward hdue
    rcases h.readings_eq with hnone | hone
    · -- a frame is due, but the picture has not changed
      rw [hnone]
      exact hrest.of_le (by linarith)
    · rw [hone]
      exact .cons hdue honward (by linarith [(h.recent hdue).1]) hrest
  · obtain ⟨hnone, hnext⟩ := h.early hdue
    rw [readings, hnone, ← hnext]
    exact hrest

end Check

/-- **The checks that show a frame are timely.** -/
theorem timely_readings (hread : ∀ c : κ, Clock.time c ≤ Clock.time (Clock.read c))
    (hframe : 0 ≤ u.pace.frame) (n : Nat) :
    Timely u.pace.frame 0 d.frame
      (((s.heads u n d).map (check u)).flatMap Check.readings) := by
  induction n generalizing s d with
  | zero => exact .nil d.frame
  | succ n ih =>
    cases hending : (s.pass u d).2.2 with
    | some ending =>
      rw [heads_of_stops n hending]
      exact .nil d.frame
    | none =>
      have hkept : (check u (s, d)).Kept u.pace.frame := kept_check hread hframe hending
      rw [heads_of_goes_on n hending, List.map_cons, List.flatMap_cons]
      exact hkept.timely hframe ih

/-- **The frame rate is limited.**  Let the times be exact and the clock never go back.  In every
run, however it ends, the frames that are shown are those of its checks, one check for each pass,
and each check shows at most one.  None is shown before one period has passed since the start.
Between the times read for a frame and for a later one lie at least as many periods as there are
frames in between.  A check at which a frame is due leaves a deadline that is not in the past, and
at most one period ahead. -/
theorem frame_rate_limited (hread : ∀ c : κ, Clock.time c ≤ Clock.time (Clock.read c))
    (u : Setup τ) (hframe : 0 ≤ u.pace.frame) (limit : Nat) (s : Session κ τ) :
    let start := Clock.time s.machine.around.clock
    let checks := s.checksOfRun u limit
    let readings := checks.flatMap Check.readings
    (s.run u limit).1.showings = s.showings ++ checks.flatMap Check.shown ∧
    (∀ c ∈ checks, c.shown.length ≤ 1 ∧ ∀ time frame, (time, frame) ∈ c.shown →
      start + u.pace.frame ≤ c.reading ∧ c.reading ≤ time) ∧
    (∀ (i j : Nat) (a b : τ), i < j → readings[i]? = some a → readings[j]? = some b →
      (j - i - 1) * u.pace.frame ≤ b - a) ∧
    ∀ c ∈ checks, c.deadline ≤ c.reading →
      c.reading ≤ c.next ∧ c.next ≤ c.reading + u.pace.frame := by
  intro start checks readings
  obtain ⟨-, hstart, -, -⟩ := schedule_setOut u s
  have htimely : Timely u.pace.frame 0 (start + u.pace.frame) readings :=
    hstart ▸ timely_readings hread hframe limit
  have hkept : ∀ c ∈ checks, c.Kept u.pace.frame := by
    intro c hc
    obtain ⟨head, hhead, rfl⟩ := List.mem_map.1 hc
    exact kept_check hread hframe (goes_on_of_mem_heads hhead)
  refine ⟨showings_run u limit s,
    fun c hc => ⟨(hkept c hc).single, fun time frame hmem => ⟨?_, ?_⟩⟩,
    fun i j a b hij ha hb => ?_, fun c hc hdue => (hkept c hc).recent hdue⟩
  · have hreading : c.reading ∈ readings :=
      List.mem_flatMap.2 ⟨c, hc, List.mem_map.2 ⟨_, hmem, rfl⟩⟩
    exact htimely.le_of_mem hframe hreading
  · exact (hkept c hc).later time frame hmem
  · have hapart := htimely.apart hij ha hb
    linarith

end Session

/-! ### A program that clears the screen -/

namespace Machine

variable {κ τ : Type} {m after : Machine κ} {k : Nat}

/-- A program that clears the screen three times. -/
def clearings : Array UInt8 := #[0x00, 0xE0, 0x00, 0xE0, 0x00, 0xE0]

/-- The machine has cleared the screen `k` times, and the user does not want to leave. -/
structure Clears (k : Nat) (m : Machine κ) : Prop where
  /-- The memory holds the program. -/
  holds : m.Holds clearings
  /-- The machine is about to clear the screen again. -/
  pc : m.pc = (Store.programStart + 2 * k : Nat)
  /-- The user has not asked to leave. -/
  staying : m.around.exitRequested = false

theorem Clears.agrees (h : m.Clears k) (hagrees : m.Agrees after) : after.Clears k := by
  obtain ⟨_, _, _, rfl⟩ := hagrees
  exact ⟨h.holds.of_store_eq rfl, h.pc, h.staying⟩

theorem Clears.step [Clock κ τ] (h : m.Clears k) (hk : k < 3) (a : Attendant τ) :
    (m.step a).2 = .ok m.nextInstruction ∧ (m.step a).1.Clears (k + 1) ∧
      (m.step a).1.screen.dirty = true ∧ (m.step a).1.around.clock = m.around.clock := by
  have hfetch : m.CanFetch :=
    h.holds.canFetch (2 * k) h.pc (by simp only [Store.programStart, Store.standardSize]; omega)
  have hclear : m.nextInstruction = .decode 0x00E0 := by
    have hword : ∀ k < 3, 0x100 * (clearings[2 * k]?.getD 0).toNat +
        (clearings[2 * k + 1]?.getD 0).toNat = 0x00E0 := by decide
    have hsize : 2 * k + 1 < clearings.size := by
      simp only [clearings, List.size_toArray, List.length_cons, List.length_nil]
      omega
    rw [h.holds.nextInstruction (2 * k) h.pc hsize, hword k hk]
    rfl
  have hop : m.nextInstruction.op = some .clearScreen := by
    rw [hclear]
    decide
  have hpc : nextAddress m.pc = (Store.programStart + 2 * (k + 1) : Nat) := by
    rw [h.pc, nextAddress_eq]
    · omega
    · simp only [Store.programStart]
      omega
  obtain ⟨journal, hnoted⟩ :=
    noted_eq { m.fetched with screen := m.screen.clear } m.nextInstruction .clearScreen
  rw [step_of_execute_ok a hfetch hop (by decide) rfl, show m.fetched.screen = m.screen from rfl,
    hnoted]
  exact ⟨rfl, ⟨h.holds.of_store_eq rfl, hpc, h.staying⟩, rfl, rfl⟩

end Machine

namespace Session

variable {κ τ : Type} [Clock κ τ]
variable [CommRing τ] [LinearOrder τ] [IsStrictOrderedRing τ]
variable {u : Setup τ} {s : Session κ τ} {d : Schedule τ} {k : Nat}

theorem le_afterInstruction (hclock : Clock.Forward κ) (u : Setup τ) (s : Session κ τ)
    (d : Schedule τ) : Clock.time (Clock.read s.machine.around.clock) ≤
      Clock.time (s.afterInstruction u d).1.machine.around.clock := by
  have hpaced (s : Session κ τ) (d : Schedule τ) : Clock.time s.machine.around.clock ≤
      Clock.time (s.paceOut u d).1.machine.around.clock := by
    have hlook := hclock.read s.machine.around.clock
    unfold paceOut
    dsimp only [look, withAround, notice]
    split
    next hearly =>
      have hslept := hclock.pass (Clock.read s.machine.around.clock) _ hearly.le
      dsimp only
      linarith
    next hlate =>
      split
      · exact hlook.trans (hclock.read _)
      · exact hlook
  have hshown := (showIfDue_clock u s.look.2 d s.look.1).1
  have hreported := (reportIfDue_clock u (s.look.2.showIfDue u d s.look.1).1
    (s.look.2.showIfDue u d s.look.1).2 s.look.1).1
  have hsame : _ = Clock.read s.machine.around.clock := hreported.trans hshown
  rw [← hsame]
  exact hpaced _ _

omit [IsStrictOrderedRing τ] in
theorem pass_of_clears (hsilent : ∀ n, u.attendant.feed.atPoll n = []) (h : s.machine.Clears k)
    (hk : k < 3) :
    (s.pass u d).2.2 = none ∧ (s.pass u d).1.machine.Clears (k + 1) ∧
      (s.stepped u).machine.screen.dirty = true ∧
      (s.stepped u).machine.around.clock = s.machine.around.clock := by
  have hpolled : (s.polled u).machine.Clears k := by
    rw [polled, withAround, Surroundings.poll_of_nothing (hsilent _)]
    exact ⟨h.holds.of_store_eq rfl, h.pc, h.staying⟩
  have hclock : (s.polled u).machine.around.clock = s.machine.around.clock := by
    rw [polled, withAround, Surroundings.poll_of_nothing (hsilent _)]
  obtain ⟨hdone, hclears, hdirty, hsame⟩ := hpolled.step hk u.attendant
  rw [pass_of_completed u d hpolled.staying hdone]
  exact ⟨rfl, hclears.agrees (afterInstruction_agrees u (s.stepped u) d), hdirty,
    hsame.trans hclock⟩

/-- Let every look at the clock take a frame or longer.  Then each clearing is shown. -/
theorem readings_of_clears (hclock : Clock.Forward κ) (hframe : 0 ≤ u.pace.frame)
    (hslow : ∀ c : κ, Clock.time c + u.pace.frame ≤ Clock.time (Clock.read c))
    (hsilent : ∀ n, u.attendant.feed.atPoll n = []) {n : Nat} (h : s.machine.Clears k)
    (hn : k + n ≤ 3) (hdue : d.frame ≤ Clock.time s.machine.around.clock) :
    (((s.heads u n d).map (check u)).flatMap Check.readings).length = n := by
  induction n generalizing s d k with
  | zero => rfl
  | succ n ih =>
    obtain ⟨hgoes, hclears, hdirty, hsame⟩ := pass_of_clears (d := d) hsilent h (by omega)
    have hreading : (check u (s, d)).reading = Clock.time s.machine.around.clock :=
      congrArg Clock.time hsame
    have hpast : (check u (s, d)).deadline ≤ (check u (s, d)).reading := hdue.trans_eq hreading.symm
    have hshown : (check u (s, d)).readings.length = 1 := by
      rw [Check.readings, shown_check hgoes, if_pos ⟨hpast, hdirty⟩]
      rfl
    have hkept : (check u (s, d)).Kept u.pace.frame := kept_check hclock.read hframe hgoes
    -- by the next head the clock was read, so the next frame is due as well
    have hlater : (s.pass u d).2.1.frame ≤ Clock.time (s.pass u d).1.machine.around.clock := by
      have hrecent := (hkept.recent hpast).2
      have hread := hslow (s.stepped u).machine.around.clock
      have hafter := le_afterInstruction hclock u (s.stepped u) d
      rw [hreading, ← hsame] at hrecent
      exact hrecent.trans (hread.trans (hafter.trans_eq (by rw [pass_of_goes_on hgoes])))
    rw [heads_of_goes_on n hgoes, List.map_cons, List.flatMap_cons, List.length_append, hshown,
      ih hclears (by omega) hlater, Nat.add_comm]

/-- A setup in which a frame is over as soon as someone looked at the clock. -/
def flickering : Setup ℚ := { standardPace with pace := ⟨1 / 700, 1 / 10000, 1⟩ }

/-- Three clearings are shown, and between the first frame and the third one lies one period. -/
theorem clearings_shown :
    ∃ (s : Session ExactClock ℚ) (first second third : ℚ),
      (s.checksOfRun flickering 3).flatMap Check.readings = [first, second, third] ∧
      (s.run flickering 3).1.showings =
        s.showings ++ (s.checksOfRun flickering 3).flatMap Check.shown ∧
      1 / 10000 ≤ third - first := by
  obtain ⟨m, journal, -, hholds, hpc, haround⟩ :=
    Machine.exists_holds Machine.clearings (by decide) (⟨0⟩ : ExactClock)
  have hclears : m.Clears 0 := ⟨hholds, hpc, by rw [haround]⟩
  obtain ⟨s, rfl⟩ : ∃ s : Session ExactClock ℚ, s.machine = m :=
    ⟨{ machine := m, ticker := { period := 1 / 60, rate := .ok 60 } }, rfl⟩
  have hframe : 0 ≤ flickering.pace.frame := by norm_num [flickering]
  obtain ⟨-, hdeadline, -, hclock⟩ := schedule_setOut flickering s
  have hlength : ((s.checksOfRun flickering 3).flatMap Check.readings).length = 3 := by
    refine readings_of_clears (k := 0) forward_exactClock hframe (fun c => le_rfl) (fun _ => rfl)
      (hclears.agrees ((setOut_agrees flickering s).trans (schedule_agrees flickering _)))
      (by decide) ?_
    rw [hdeadline, hclock]
    exact le_rfl
  obtain ⟨first, second, third, hreadings⟩ := List.length_eq_three.1 hlength
  obtain ⟨hshowings, -, hapart, -⟩ :=
    frame_rate_limited forward_exactClock.read flickering hframe 3 s
  rw [hreadings] at hapart
  have hperiod := hapart 0 2 first third (by decide) rfl rfl
  norm_num [flickering] at hperiod
  exact ⟨s, first, second, third, hreadings, hshowings, hperiod⟩

end Session

end Chip8

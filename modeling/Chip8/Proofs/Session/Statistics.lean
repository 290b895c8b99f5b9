import Chip8.Proofs.Session.Display
import Chip8.Proofs.Session.Moments
import Chip8.Proofs.Session.Pacing
import Mathlib.Algebra.Ring.Nat
import Mathlib.Data.List.DropRight

/-!
# The reports add up

In the course of a run instructions are completed, frames are shown and speeds are reported; the
`Tally` of a run has an entry for each of them, in order (`Session.talliesOfRun`).  A schedule
remembers how many instructions and frames there were at the last report, and it is kept like a
ledger (`Session.Books`): with what was done since, it comes to the counts of the session.

So each report tells what was done since the one before, the reports and what comes behind the last
of them add up to the whole run, and no report is made before its time
(`Session.Employed.statistics_add_up`).
-/

namespace Chip8

/-- An entry in the tally of a run. -/
inductive Tally (τ : Type) where
  /-- An instruction was completed. -/
  | completed
  /-- A frame was shown. -/
  | shown
  /-- The speed was reported, by the time that was read. -/
  | reported (reading : τ) (cycles frames : Nat)
  deriving DecidableEq, Repr

namespace Tally

variable {τ : Type}

/-- It is an instruction. -/
def isCompleted : Tally τ → Bool
  | completed => true
  | _ => false

/-- It is a frame. -/
def isShown : Tally τ → Bool
  | shown => true
  | _ => false

/-- It is no report. -/
def isNoReport : Tally τ → Bool
  | reported .. => false
  | _ => true

/-- The instructions and the frames of a report. -/
def report? : Tally τ → Option (Nat × Nat)
  | reported _ cycles frames => some (cycles, frames)
  | _ => none

/-- The time that was read for a report. -/
def reading? : Tally τ → Option τ
  | reported reading _ _ => some reading
  | _ => none

/-- The number of instructions in a tally. -/
def instructions (tallies : List (Tally τ)) : Nat := tallies.countP isCompleted

/-- The number of frames in a tally. -/
def frames (tallies : List (Tally τ)) : Nat := tallies.countP isShown

/-- The reports in a tally. -/
def reports (tallies : List (Tally τ)) : List (Nat × Nat) := tallies.filterMap report?

/-- What comes behind the last report. -/
def sinceReport (tallies : List (Tally τ)) : List (Tally τ) := tallies.rtakeWhile isNoReport

/-- Each report tells the instructions and the frames since the one before. -/
def Truthful (tallies : List (Tally τ)) : Prop :=
  ∀ before reading cycles shown after,
    tallies = before ++ .reported reading cycles shown :: after →
      cycles = instructions (sinceReport before) ∧ shown = frames (sinceReport before)

variable {tallies : List (Tally τ)}

@[simp] theorem instructions_concat (tallies : List (Tally τ)) (t : Tally τ) :
    instructions (tallies ++ [t]) = instructions tallies + if t.isCompleted then 1 else 0 := by
  simp [instructions, List.countP_singleton]

@[simp] theorem frames_concat (tallies : List (Tally τ)) (t : Tally τ) :
    frames (tallies ++ [t]) = frames tallies + if t.isShown then 1 else 0 := by
  simp [frames, List.countP_singleton]

@[simp] theorem sinceReport_concat (tallies : List (Tally τ)) (t : Tally τ) :
    sinceReport (tallies ++ [t]) = if t.isNoReport then sinceReport tallies ++ [t] else [] :=
  List.rtakeWhile_concat _ _ _

@[simp] theorem reports_concat (tallies : List (Tally τ)) (t : Tally τ) :
    reports (tallies ++ [t]) = reports tallies ++ t.report?.toList := by
  cases t <;> simp [reports, List.filterMap_cons, report?]

theorem truthful_nil : Truthful ([] : List (Tally τ)) := by
  intro before reading cycles shown after h
  simp at h

/-- A tally may go on with anything but a false report. -/
theorem Truthful.concat (h : Truthful tallies) {t : Tally τ}
    (ht : ∀ reading cycles shown, t = .reported reading cycles shown →
      cycles = instructions (sinceReport tallies) ∧ shown = frames (sinceReport tallies)) :
    Truthful (tallies ++ [t]) := by
  intro before reading cycles shown after heq
  rcases List.eq_nil_or_concat after with rfl | ⟨rest, last, rfl⟩
  · obtain ⟨rfl, htail⟩ := List.append_inj' heq rfl
    exact ht reading cycles shown (List.singleton_inj.1 htail)
  · rw [List.concat_eq_append, ← List.cons_append, ← List.append_assoc] at heq
    exact h before reading cycles shown rest (List.append_inj' heq rfl).1

/-- **Nothing is lost and nothing counts twice.** -/
theorem Truthful.add_up (h : Truthful tallies) :
    ((reports tallies).map Prod.fst).sum + instructions (sinceReport tallies) =
        instructions tallies ∧
      ((reports tallies).map Prod.snd).sum + frames (sinceReport tallies) = frames tallies := by
  induction tallies using List.reverseRecOn with
  | nil => simp [instructions, frames, reports, sinceReport]
  | append_singleton tallies t ih =>
    have hbefore : Truthful tallies := fun before reading cycles shown after heq =>
      h before reading cycles shown (after ++ [t]) (by rw [heq]; simp)
    obtain ⟨hinstructions, hframes⟩ := ih hbefore
    cases t with
    | completed | shown =>
      simp only [reports_concat, sinceReport_concat, isNoReport, if_true, instructions_concat,
        frames_concat, report?, Option.toList_none, List.append_nil]
      omega
    | reported reading cycles shown =>
      obtain ⟨rfl, rfl⟩ := h tallies reading cycles shown [] rfl
      simp [isNoReport, isCompleted, isShown, report?, hinstructions, hframes]
      simp [instructions, frames]

end Tally

/-- The entry of what the outside notices, if it has one; a report is by this reading. -/
def Moment.tally? {τ : Type} (reading : τ) : Moment τ → Option (Tally τ)
  | .shown .. => some .shown
  | .reported _ cycles frames => some (.reported reading cycles frames)
  | _ => none

/-- The instructions and the frames that are reported, if that is what happens. -/
def Moment.report? {τ : Type} : Moment τ → Option (Nat × Nat)
  | .reported _ cycles frames => some (cycles, frames)
  | _ => none

namespace Session

variable {κ τ : Type}

/-- The reports made so far, the earliest first. -/
def reports (s : Session κ τ) : List (Nat × Nat) := s.moments.toList.filterMap Moment.report?

/-! ### The books of a run -/

/-- The books of a run that began with so many instructions and frames: its history, the counts of
the session, and the counts that the schedule remembers of the last report. -/
structure Books (cycles frames : Nat) (history : List (Tally τ)) (s : Session κ τ)
    (d : Schedule τ) : Prop where
  /-- The reports tell what was done. -/
  truthful : Tally.Truthful history
  /-- The instructions are counted. -/
  cycles_eq : s.machine.cycles = cycles + Tally.instructions history
  /-- So are the frames. -/
  frames_eq : s.frames = frames + Tally.frames history
  /-- The instructions at the last report and those since then. -/
  cyclesAtReport :
    d.cyclesAtReport + Tally.instructions (Tally.sinceReport history) = s.machine.cycles
  /-- The frames at the last report and those since then. -/
  framesAtReport : d.framesAtReport + Tally.frames (Tally.sinceReport history) = s.frames

namespace Books

variable {cycles frames : Nat} {history : List (Tally τ)} {s after : Session κ τ}
  {d next : Schedule τ}

theorem congr (h : Books cycles frames history s d)
    (hcycles : after.machine.cycles = s.machine.cycles) (hframes : after.frames = s.frames)
    (hcyclesAt : next.cyclesAtReport = d.cyclesAtReport)
    (hframesAt : next.framesAtReport = d.framesAtReport) :
    Books cycles frames history after next where
  truthful := h.truthful
  cycles_eq := hcycles.trans h.cycles_eq
  frames_eq := hframes.trans h.frames_eq
  cyclesAtReport := by rw [hcyclesAt, hcycles, h.cyclesAtReport]
  framesAtReport := by rw [hframesAt, hframes, h.framesAtReport]

theorem completed (h : Books cycles frames history s d)
    (hcycles : after.machine.cycles = s.machine.cycles + 1) (hframes : after.frames = s.frames) :
    Books cycles frames (history ++ [.completed]) after d where
  truthful := h.truthful.concat (by simp)
  cycles_eq := by simp [hcycles, h.cycles_eq, Tally.isCompleted, Nat.add_assoc]
  frames_eq := by simp [hframes, h.frames_eq, Tally.isShown]
  cyclesAtReport := by simp [hcycles, ← h.cyclesAtReport, Tally.isNoReport, Tally.isCompleted,
    Nat.add_assoc]
  framesAtReport := by simp [hframes, ← h.framesAtReport, Tally.isNoReport, Tally.isShown]

theorem shown (h : Books cycles frames history s d)
    (hcycles : after.machine.cycles = s.machine.cycles) (hframes : after.frames = s.frames + 1) :
    Books cycles frames (history ++ [.shown]) after d where
  truthful := h.truthful.concat (by simp)
  cycles_eq := by simp [hcycles, h.cycles_eq, Tally.isCompleted]
  frames_eq := by simp [hframes, h.frames_eq, Tally.isShown, Nat.add_assoc]
  cyclesAtReport := by simp [hcycles, ← h.cyclesAtReport, Tally.isNoReport, Tally.isCompleted]
  framesAtReport := by simp [hframes, ← h.framesAtReport, Tally.isNoReport, Tally.isShown,
    Nat.add_assoc]

/-- The speed is reported: the schedule begins a new account. -/
theorem reported (h : Books cycles frames history s d) (reading : τ)
    (hcycles : after.machine.cycles = s.machine.cycles) (hframes : after.frames = s.frames)
    (hcyclesAt : next.cyclesAtReport = s.machine.cycles)
    (hframesAt : next.framesAtReport = s.frames) :
    Books cycles frames (history ++ [.reported reading (s.machine.cycles - d.cyclesAtReport)
      (s.frames - d.framesAtReport)]) after next where
  truthful := h.truthful.concat fun reading' cycles' shown' heq => by
    obtain ⟨-, rfl, rfl⟩ := Tally.reported.inj heq
    have hcyclesAt := h.cyclesAtReport
    have hframesAt := h.framesAtReport
    omega
  cycles_eq := by simp [hcycles, h.cycles_eq, Tally.isCompleted]
  frames_eq := by simp [hframes, h.frames_eq, Tally.isShown]
  cyclesAtReport := by simp [hcycles, hcyclesAt, Tally.isNoReport, Tally.instructions]
  framesAtReport := by simp [hframes, hframesAt, Tally.isNoReport, Tally.frames]

end Books

variable [Clock κ τ]
variable [Add τ] [Sub τ] [Neg τ] [LT τ] [LE τ] [OfNat τ 0] [DecidableLT τ] [DecidableLE τ]
variable {cycles frames : Nat} {history : List (Tally τ)} {u : Setup τ} {s : Session κ τ}
  {d : Schedule τ}

/-! ### The tally of a pass and of a run -/

/-- The tally of the pass at a head: its instruction, and what is noticed behind it. -/
def tally (u : Setup τ) (head : Session κ τ × Schedule τ) : List (Tally τ) :=
  .completed :: (head.1.noticed u head.2).filterMap (Moment.tally? (head.1.stepped u).look.1)

/-- The tally of a run. -/
def talliesOfRun (u : Setup τ) (limit : Nat) (s : Session κ τ) : List (Tally τ) :=
  (s.headsOfRun u limit).flatMap (tally u)

omit [Sub τ] [Neg τ] [OfNat τ 0] in
theorem Books.showIfDue (h : Books cycles frames history s d) (u : Setup τ) (reading now : τ) :
    Books cycles frames (history ++ (s.showing d now).filterMap (Moment.tally? reading))
      (s.showIfDue u d now).1 (s.showIfDue u d now).2 := by
  -- the deadline of the next frame is not in the books
  have hsame {history : List (Tally τ)} {after : Session κ τ} (frame : τ)
      (h : Books cycles frames history after d) :
      Books cycles frames history after { d with frame } := h.congr rfl rfl rfl rfl
  unfold Session.showIfDue showing
  by_cases hdue : d.frame ≤ now
  · rw [if_pos hdue]
    cases hdirty : s.machine.screen.dirty with
    | true =>
      rw [if_pos ⟨hdue, rfl⟩]
      have hshown : Books cycles frames (history ++ [.shown]) s.present d := h.shown rfl rfl
      exact hsame _ hshown
    | false => simpa using hsame _ h
  · simpa [hdue] using h

omit [Clock κ τ] [Sub τ] [Neg τ] [LT τ] [OfNat τ 0] [DecidableLT τ] in
theorem Books.reportIfDue (h : Books cycles frames history s d) (u : Setup τ) (reading now : τ) :
    Books cycles frames (history ++ (s.reporting d now).filterMap (Moment.tally? reading))
      (s.reportIfDue u d now).1 (s.reportIfDue u d now).2 := by
  have hreport : (s.report u d).machine.cycles = s.machine.cycles ∧
      (s.report u d).frames = s.frames := by
    unfold report
    split <;> exact ⟨rfl, rfl⟩
  unfold Session.reportIfDue reporting
  by_cases hdue : d.report ≤ now
  · rw [if_pos hdue, if_pos hdue]
    exact h.reported reading hreport.1 hreport.2 rfl rfl
  · simpa [hdue] using h

omit [LE τ] [DecidableLE τ] in
theorem Books.paceOut (h : Books cycles frames history s d) (u : Setup τ) (reading : τ) :
    Books cycles frames (history ++ (s.sleeping u d).filterMap (Moment.tally? reading))
      (s.paceOut u d).1 (s.paceOut u d).2 := by
  have hnothing : (s.sleeping u d).filterMap (Moment.tally? reading) = [] := by
    unfold sleeping
    dsimp only
    split <;> rfl
  rw [hnothing, List.append_nil]
  unfold Session.paceOut
  dsimp only
  split
  · exact h.congr rfl rfl rfl rfl
  · split <;> exact h.congr rfl rfl rfl rfl

theorem frames_of_stops {ending : Ending} (h : (s.pass u d).2.2 = some ending) :
    (s.pass u d).1.frames = s.frames := by
  rcases pass_of_stops h with ⟨-, hpass⟩ | ⟨fault, -, hpass⟩
  · rw [hpass]
    rfl
  · rw [hpass]
    rfl

omit [Clock κ τ] [Add τ] [Sub τ] [Neg τ] [LT τ] [LE τ] [OfNat τ 0] [DecidableLT τ]
  [DecidableLE τ] in
theorem frames_finish (u : Setup τ) (s : Session κ τ) (ending : Ending) :
    (s.finish u ending).frames = s.frames := by
  have hclose (s : Session κ τ) : (s.close u).frames = s.frames := by
    unfold close
    split <;> rfl
  have hmourn (fault : Fault) : (s.mourn fault).frames = s.frames := by
    unfold mourn
    split <;> rfl
  unfold finish
  split
  · rw [hclose, hmourn]
  · exact hclose s

/-- **A pass that does not end its run keeps the books.** -/
theorem Books.pass (h : Books cycles frames history s d) (hpass : (s.pass u d).2.2 = none) :
    Books cycles frames (history ++ tally u (s, d)) (s.pass u d).1 (s.pass u d).2.1 := by
  have hstepped : (s.stepped u).machine.cycles = s.machine.cycles + 1 := by
    have hcycles := cycles_pass u s d
    rw [hpass, pass_of_goes_on hpass, (afterInstruction_agrees u _ d).cycles] at hcycles
    exact hcycles
  have hcompleted := h.completed hstepped (rfl : (s.stepped u).frames = s.frames)
  have hlook : Books cycles frames (history ++ [.completed]) (s.stepped u).look.2 d :=
    hcompleted.congr rfl rfl rfl rfl
  have hshown := hlook.showIfDue u (s.stepped u).look.1 (s.stepped u).look.1
  have hreported := hshown.reportIfDue u (s.stepped u).look.1 (s.stepped u).look.1
  have hpaced := hreported.paceOut u (s.stepped u).look.1
  simp only [List.append_assoc, List.singleton_append] at hpaced
  rw [pass_of_goes_on hpass]
  simp only [tally, noticed, List.filterMap_append, List.append_assoc]
  exact hpaced

/-- **Passes keep the books**, and so does the one that ends the run. -/
theorem Books.passes (h : Books cycles frames history s d) (n : Nat) :
    ∃ next, Books cycles frames (history ++ (s.heads u n d).flatMap (tally u))
      (s.passes u n d).1 next := by
  induction n generalizing history s d with
  | zero => exact ⟨d, by simpa [Session.passes, heads] using h⟩
  | succ n ih =>
    cases hending : (s.pass u d).2.2 with
    | some ending =>
      rw [passes_of_stops n hending, heads_of_stops n hending, List.flatMap_nil, List.append_nil]
      have hcycles := cycles_pass u s d
      rw [hending] at hcycles
      exact ⟨d, h.congr hcycles (frames_of_stops hending) rfl rfl⟩
    | none =>
      obtain ⟨next, hnext⟩ := ih (h.pass hending)
      rw [passes_of_goes_on n hending, heads_of_goes_on n hending, List.flatMap_cons,
        ← List.append_assoc]
      exact ⟨next, hnext⟩

theorem books_run (u : Setup τ) (limit : Nat) (s : Session κ τ) :
    ∃ next, Books s.machine.cycles s.frames (s.talliesOfRun u limit) (s.run u limit).1 next := by
  have hstart : Books s.machine.cycles s.frames [] ((s.setOut u).schedule u).2
      ((s.setOut u).schedule u).1 := by
    have hframes : (s.setOut u).frames = s.frames := by
      unfold setOut
      split <;> rfl
    exact ⟨Tally.truthful_nil, (setOut_agrees u s).cycles, hframes, rfl, rfl⟩
  obtain ⟨next, hpasses⟩ := hstart.passes limit
  exact ⟨next, hpasses.congr (finish_agrees u _ _).cycles (frames_finish u _ _) rfl rfl⟩

/-! ### When reports are made -/

omit [Sub τ] [Neg τ] [OfNat τ 0] in
theorem showIfDue_report (u : Setup τ) (s : Session κ τ) (d : Schedule τ) (now : τ) :
    (s.showIfDue u d now).2.report = d.report := by
  unfold showIfDue
  split <;> rfl

omit [LE τ] [DecidableLE τ] in
theorem paceOut_report (u : Setup τ) (s : Session κ τ) (d : Schedule τ) :
    (s.paceOut u d).2.report = d.report := by
  unfold paceOut
  dsimp only
  split
  · rfl
  · split <;> rfl

omit [Neg τ] in
theorem readings_tally (u : Setup τ) (s : Session κ τ) (d : Schedule τ) :
    (tally u (s, d)).filterMap Tally.reading? =
      if d.report ≤ (s.stepped u).look.1 then [(s.stepped u).look.1] else [] := by
  have hshowing (reading : τ) (s : Session κ τ) (d : Schedule τ) (now : τ) :
      ((s.showing d now).filterMap (Moment.tally? reading)).filterMap Tally.reading? = [] := by
    unfold showing
    split <;> rfl
  have hsleeping (reading : τ) (s : Session κ τ) (d : Schedule τ) :
      ((s.sleeping u d).filterMap (Moment.tally? reading)).filterMap Tally.reading? = [] := by
    unfold sleeping
    dsimp only
    split <;> rfl
  have hreporting (reading : τ) (s : Session κ τ) (d : Schedule τ) (now : τ) :
      ((s.reporting d now).filterMap (Moment.tally? reading)).filterMap Tally.reading? =
        if d.report ≤ now then [reading] else [] := by
    unfold reporting
    split <;> rfl
  simp only [tally, noticed, List.filterMap_cons, Tally.reading?, List.filterMap_append]
  rw [hshowing, hreporting, hsleeping, showIfDue_report, List.nil_append, List.append_nil]

theorem report_pass (h : (s.pass u d).2.2 = none) :
    (s.pass u d).2.1.report =
      if d.report ≤ (s.stepped u).look.1 then (s.stepped u).look.1 + u.pace.report
      else d.report := by
  have hreported (s : Session κ τ) (d : Schedule τ) (now : τ) :
      (s.reportIfDue u d now).2.report =
        if d.report ≤ now then now + u.pace.report else d.report := by
    unfold reportIfDue
    split <;> rfl
  have hnext := hreported ((s.stepped u).look.2.showIfDue u d (s.stepped u).look.1).1
    ((s.stepped u).look.2.showIfDue u d (s.stepped u).look.1).2 (s.stepped u).look.1
  rw [showIfDue_report] at hnext
  rw [pass_of_goes_on h]
  exact (paceOut_report u _ _).trans hnext

/-- **Between two reports a period passes**, and so it does before the first of them. -/
theorem isChain_readings (n : Nat) {start : τ} (h : d.report = start + u.pace.report) :
    (start :: ((s.heads u n d).flatMap (tally u)).filterMap Tally.reading?).IsChain
      fun a b => a + u.pace.report ≤ b := by
  induction n generalizing s d start with
  | zero => simp [heads]
  | succ n ih =>
    cases hending : (s.pass u d).2.2 with
    | some ending => simp [heads_of_stops n hending]
    | none =>
      have hnext := report_pass hending
      rw [heads_of_goes_on n hending, List.flatMap_cons, List.filterMap_append, readings_tally]
      by_cases hdue : d.report ≤ (s.stepped u).look.1
      · rw [if_pos hdue] at hnext ⊢
        exact .cons_cons (h ▸ hdue) (ih hnext)
      · rw [if_neg hdue] at hnext ⊢
        exact ih (hnext.trans h)

/-! ### What is noticed of it -/

omit [Clock κ τ] [Add τ] [Sub τ] [Neg τ] [LT τ] [LE τ] [OfNat τ 0] [DecidableLT τ]
  [DecidableLE τ] in
theorem reports_filterMap_tally (reading : τ) (moments : List (Moment τ)) :
    Tally.reports (moments.filterMap (Moment.tally? reading)) =
      moments.filterMap Moment.report? := by
  rw [Tally.reports, List.filterMap_filterMap]
  refine List.filterMap_congr fun moment _ => ?_
  cases moment <;> rfl

omit [Clock κ τ] [Add τ] [Sub τ] [Neg τ] [LT τ] [LE τ] [OfNat τ 0] [DecidableLT τ]
  [DecidableLE τ] in
theorem frames_filterMap_tally (reading : τ) (moments : List (Moment τ)) :
    Tally.frames (moments.filterMap (Moment.tally? reading)) =
      (moments.filterMap Moment.frame?).length := by
  rw [Tally.frames, List.countP_filterMap, List.length_filterMap_eq_countP]
  refine List.countP_congr fun moment _ => ?_
  cases moment <;> simp [Moment.tally?, Moment.frame?, Tally.isShown]

theorem reports_run (u : Setup τ) (limit : Nat) (s : Session κ τ) :
    (s.run u limit).1.reports = s.reports ++ Tally.reports (s.talliesOfRun u limit) := by
  have htallies (head : Session κ τ × Schedule τ) :
      Tally.reports (tally u head) = (head.1.noticed u head.2).filterMap Moment.report? :=
    reports_filterMap_tally _ _
  have hrun := filterMap_moments_run Moment.report? rfl rfl u limit s
  simp only [← htallies] at hrun
  rw [reports, hrun, talliesOfRun, Tally.reports, List.filterMap_flatMap]
  rfl

theorem length_shownFrames_run (u : Setup τ) (limit : Nat) (s : Session κ τ) :
    (s.run u limit).1.shownFrames.length =
      s.shownFrames.length + Tally.frames (s.talliesOfRun u limit) := by
  have htallies (head : Session κ τ × Schedule τ) :
      ((head.1.noticed u head.2).filterMap Moment.frame?).length = Tally.frames (tally u head) := by
    rw [← frames_filterMap_tally (head.1.stepped u).look.1]
    rfl
  have hrun := filterMap_moments_run Moment.frame? rfl rfl u limit s
  rw [shownFrames, hrun, List.length_append, List.length_flatMap, talliesOfRun, Tally.frames,
    List.countP_flatMap]
  simp only [htallies]
  rfl

theorem instructions_talliesOfRun (u : Setup τ) (limit : Nat) (s : Session κ τ) :
    Tally.instructions (s.talliesOfRun u limit) = (s.headsOfRun u limit).length := by
  have htally (head : Session κ τ × Schedule τ) :
      (tally u head).countP Tally.isCompleted = 1 := by
    rw [tally, List.countP_cons, List.countP_filterMap, List.countP_eq_zero.2]
    · rfl
    · intro moment _
      cases moment <;> simp [Moment.tally?, Tally.isCompleted]
  simp [Tally.instructions, talliesOfRun, List.countP_flatMap, htally, Function.comp_def]

/-! ### Runs one after the other -/

/-- A session that has shown nothing but in its runs. -/
inductive Employed : Session κ τ → Prop where
  /-- Nothing was shown yet. -/
  | fresh {s : Session κ τ} (frames : s.frames = 0) (shown : s.shownFrames = []) : Employed s
  /-- Before the next run, anything may happen but to the frames. -/
  | between {s after : Session κ τ} (frames : after.frames = s.frames)
      (shown : after.shownFrames = s.shownFrames) : Employed s → Employed after
  /-- There is a run. -/
  | run {s : Session κ τ} (u : Setup τ) (limit : Nat) : Employed s → Employed (s.run u limit).1

theorem Employed.frames_eq (h : s.Employed) : s.frames = s.shownFrames.length := by
  induction h with
  | fresh frames shown => rw [frames, shown, List.length_nil]
  | between frames shown _ ih => rw [frames, shown, ih]
  | @run s u limit _ ih =>
    obtain ⟨_, hbooks⟩ := books_run u limit s
    rw [hbooks.frames_eq, length_shownFrames_run, ih]

/-- **The reports add up.**  Take a session that has gone through any number of runs, and let it run
once more, with any setup, limit and clock; the run may end in any way.  Its tally has the
instructions that it completes, the frames that it shows and the reports that it makes.  Each of
these tells the instructions and the frames since the one before, or since the start; in sum, and
with those behind the last report, they are those of the run.  From the start to the first report,
and from each report to the next, the clock goes on by a period at least.  In the end the session
has counted all the frames that were ever shown. -/
theorem Employed.statistics_add_up (h : s.Employed) (u : Setup τ) (limit : Nat) :
    let after := (s.run u limit).1
    let tallies := s.talliesOfRun u limit
    let rest := Tally.sinceReport tallies
    (after.machine.cycles = s.machine.cycles + Tally.instructions tallies ∧
      after.shownFrames.length = s.shownFrames.length + Tally.frames tallies ∧
      after.reports = s.reports ++ Tally.reports tallies) ∧
    Tally.Truthful tallies ∧
    (((Tally.reports tallies).map Prod.fst).sum + Tally.instructions rest =
        Tally.instructions tallies ∧
      ((Tally.reports tallies).map Prod.snd).sum + Tally.frames rest = Tally.frames tallies) ∧
    (Clock.time s.machine.around.clock :: tallies.filterMap Tally.reading?).IsChain
      (fun a b => a + u.pace.report ≤ b) ∧
    after.frames = after.shownFrames.length := by
  intro after tallies rest
  obtain ⟨_, hbooks⟩ := books_run u limit s
  obtain ⟨-, -, hreport, -⟩ := schedule_setOut u s
  refine ⟨⟨hbooks.cycles_eq, length_shownFrames_run u limit s, reports_run u limit s⟩,
    hbooks.truthful, hbooks.truthful.add_up, isChain_readings limit hreport, ?_⟩
  exact (h.run u limit).frames_eq

/-- A setup whose reports are due at once if each reading of the clock takes a second. -/
def everySecond : Setup Int where
  pace := ⟨1, 1, 1⟩
  rateText := "1"
  attendant := { feed := { atPoll := fun _ => [] }, interval := 1, patience := 0 }

/-- A jump is reported when the clock says that a second has passed. -/
theorem jump_reported :
    ∃ s : Session (VirtualClock Int) Int,
      s.Employed ∧ (s.talliesOfRun everySecond 1).filterMap Tally.reading? = [1] ∧
        ((Tally.reports (s.talliesOfRun everySecond 1)).map Prod.fst).sum +
          Tally.instructions (Tally.sinceReport (s.talliesOfRun everySecond 1)) = 1 ∧
        (s.run everySecond 1).1.reports = Tally.reports (s.talliesOfRun everySecond 1) := by
  obtain ⟨m, journal, -, hholds, hpc, haround⟩ :=
    Machine.exists_holds #[0x12, 0x00] (by decide) (⟨0, 1, 0⟩ : VirtualClock Int)
  have hspins : m.Spins := ⟨hholds, hpc, by rw [haround]⟩
  obtain ⟨s, rfl, hframes, hmoments⟩ : ∃ s : Session (VirtualClock Int) Int,
      s.machine = m ∧ s.frames = 0 ∧ s.moments = #[] :=
    ⟨{ machine := m, ticker := { period := 1, rate := .ok 60 } }, rfl, rfl, rfl⟩
  have hemployed : s.Employed := .fresh hframes (by simp [shownFrames, hmoments])
  obtain ⟨⟨hcycles, -, hreports⟩, -, ⟨hsum, -⟩, -⟩ := hemployed.statistics_add_up everySecond 1
  obtain ⟨-, -, hdue, hclock⟩ := schedule_setOut everySecond s
  rw [haround] at hdue hclock
  have hstart : ((s.setOut everySecond).schedule everySecond).2.machine.Spins :=
    hspins.agrees ((setOut_agrees _ s).trans (schedule_agrees _ _))
  generalize hbegun : (s.setOut everySecond).schedule everySecond = begun at hdue hclock hstart
  -- the only pass jumps, and reads the clock a second after the start
  have hpolled := polled_spins (u := everySecond) (fun _ => rfl) hstart
  obtain ⟨hdone, -⟩ := hpolled.step everySecond.attendant
  have hpass := pass_of_completed everySecond begun.1 hpolled.staying hdone
  have hreading : (begun.2.stepped everySecond).look.1 = 1 := by
    have hsame := stepped_clock_of_spins (u := everySecond) (fun _ => rfl) hstart
    rw [look, hsame, hclock]
    rfl
  have hheads : s.headsOfRun everySecond 1 = [(begun.2, begun.1)] := by
    rw [headsOfRun, hbegun, heads_of_goes_on 0 (by rw [hpass])]
    rfl
  have htallies : s.talliesOfRun everySecond 1 = tally everySecond (begun.2, begun.1) := by
    rw [talliesOfRun, hheads, List.flatMap_singleton]
  have hone : Tally.instructions (s.talliesOfRun everySecond 1) = 1 := by
    rw [instructions_talliesOfRun, hheads, List.length_singleton]
  refine ⟨s, hemployed, ?_, hsum.trans hone, ?_⟩
  · rw [htallies, readings_tally, hreading, hdue]
    rfl
  · rw [hreports, reports, hmoments]
    rfl

end Session

end Chip8

import Chip8.Proofs.Session.Frame

/-!
# What the outside notices of a run

The passes of a run that do not end it begin at its *heads* (`Session.heads`).  Behind its
instruction such a pass shows a frame, reports the speed and sleeps, in this order and each of them
once at most (`Session.noticed`).  The pass that ends a run does nothing of this.

So what the outside notices of a run is what it notices of the passes at its heads, one after the
other, and in between the buzzer is on (`Session.moments_run`).
-/

namespace Chip8

namespace Session

variable {κ τ : Type}

/-! ### The start and the end of a run -/

@[simp] theorem moments_notice (s : Session κ τ) (moment : Moment τ) :
    (s.notice moment).moments.toList = s.moments.toList ++ [moment] :=
  Array.toList_push

theorem moments_setOut (u : Setup τ) (s : Session κ τ) :
    (s.setOut u).moments.toList = s.moments.toList ++ if u.hasSound then [.soundOn] else [] := by
  unfold setOut
  split
  · exact moments_notice (s.withTicker Ticker.start) .soundOn
  · exact (List.append_nil _).symm

theorem moments_finish (u : Setup τ) (s : Session κ τ) (ending : Ending) :
    (s.finish u ending).moments.toList =
      s.moments.toList ++ if u.hasSound then [.soundOff] else [] := by
  have hclose (s : Session κ τ) : (s.close u).moments.toList =
      s.moments.toList ++ if u.hasSound then [.soundOff] else [] := by
    unfold close
    split
    · exact moments_notice s .soundOff
    · exact (List.append_nil _).symm
  have hmourn (fault : Fault) : (s.mourn fault).moments = s.moments := by
    unfold mourn
    split <;> rfl
  unfold finish
  split
  · rw [hclose, hmourn]
  · exact hclose s

variable [Clock κ τ]

theorem moments_present (s : Session κ τ) :
    s.present.moments.toList = s.moments.toList ++
      [.shown s.machine.cycles (Clock.time s.machine.around.clock) s.machine.screen.frame] :=
  moments_notice _ _

section Pacing

variable [Add τ] [Sub τ] [Neg τ] [LT τ] [LE τ] [OfNat τ 0] [DecidableLT τ] [DecidableLE τ]
variable {u : Setup τ} {s : Session κ τ} {d : Schedule τ}

/-! ### What follows an instruction -/

/-- The frame that is shown if one is due by now and the picture changed. -/
def showing (s : Session κ τ) (d : Schedule τ) (now : τ) : List (Moment τ) :=
  if d.frame ≤ now ∧ s.machine.screen.dirty = true then
    [.shown s.machine.cycles (Clock.time s.machine.around.clock) s.machine.screen.frame]
  else []

/-- The report that is made if one is due by now. -/
def reporting (s : Session κ τ) (d : Schedule τ) (now : τ) : List (Moment τ) :=
  if d.report ≤ now then
    [.reported s.machine.cycles (s.machine.cycles - d.cyclesAtReport) (s.frames - d.framesAtReport)]
  else []

/-- The sleep until the next instruction is due, if that is not due yet. -/
def sleeping (u : Setup τ) (s : Session κ τ) (d : Schedule τ) : List (Moment τ) :=
  let remaining := d.cycle + u.pace.cycle - Clock.time s.machine.around.clock
  if 0 < remaining then [.slept remaining] else []

omit [Sub τ] [Neg τ] [OfNat τ 0] in
theorem moments_showIfDue (u : Setup τ) (s : Session κ τ) (d : Schedule τ) (now : τ) :
    (s.showIfDue u d now).1.moments.toList = s.moments.toList ++ s.showing d now := by
  unfold showIfDue showing
  by_cases hdue : d.frame ≤ now
  · cases hdirty : s.machine.screen.dirty <;> simp [hdue, moments_present]
  · simp [hdue]

omit [Clock κ τ] [Sub τ] [Neg τ] [LT τ] [OfNat τ 0] [DecidableLT τ] in
theorem moments_reportIfDue (u : Setup τ) (s : Session κ τ) (d : Schedule τ) (now : τ) :
    (s.reportIfDue u d now).1.moments.toList = s.moments.toList ++ s.reporting d now := by
  have hreport : (s.report u d).moments.toList = s.moments.toList ++
      [.reported s.machine.cycles (s.machine.cycles - d.cyclesAtReport)
        (s.frames - d.framesAtReport)] := by
    unfold report
    split
    all_goals exact moments_notice _ _
  unfold reportIfDue reporting
  split
  · exact hreport
  · simp

omit [LE τ] [DecidableLE τ] in
theorem moments_paceOut (u : Setup τ) (s : Session κ τ) (d : Schedule τ) :
    (s.paceOut u d).1.moments.toList = s.moments.toList ++ s.sleeping u d := by
  unfold paceOut sleeping
  dsimp only [look]
  split
  · exact moments_notice _ _
  · split
    all_goals exact (List.append_nil _).symm

/-- What the outside notices of a pass behind its instruction. -/
def noticed (u : Setup τ) (s : Session κ τ) (d : Schedule τ) : List (Moment τ) :=
  let (now, s) := (s.stepped u).look
  let (shown, d') := s.showIfDue u d now
  let (reported, d'') := shown.reportIfDue u d' now
  s.showing d now ++ shown.reporting d' now ++ reported.sleeping u d''

theorem moments_afterInstruction (u : Setup τ) (s : Session κ τ) (d : Schedule τ) :
    ((s.stepped u).afterInstruction u d).1.moments.toList =
      s.moments.toList ++ s.noticed u d := by
  unfold afterInstruction noticed
  dsimp only
  rw [moments_paceOut, moments_reportIfDue, moments_showIfDue, List.append_assoc, List.append_assoc,
    List.append_assoc]
  rfl

/-! ### A pass and many passes -/

theorem moments_of_goes_on (h : (s.pass u d).2.2 = none) :
    (s.pass u d).1.moments.toList = s.moments.toList ++ s.noticed u d := by
  rw [pass_of_goes_on h]
  exact moments_afterInstruction u s d

theorem moments_of_stops {ending : Ending} (h : (s.pass u d).2.2 = some ending) :
    (s.pass u d).1.moments = s.moments := by
  rcases pass_of_stops h with ⟨-, hpass⟩ | ⟨fault, -, hpass⟩
  · rw [hpass]
    rfl
  · rw [hpass]
    rfl

/-- The sessions and the deadlines at the heads of the passes that do not end a run, of `n` passes
at most. -/
def heads (u : Setup τ) : (n : Nat) → Session κ τ → Schedule τ → List (Session κ τ × Schedule τ)
  | 0, _, _ => []
  | n + 1, s, d =>
    match s.pass u d with
    | (_, _, some _) => []
    | (after, next, none) => (s, d) :: heads u n after next

/-- The heads of the passes of a run, but for the one that ends it. -/
def headsOfRun (u : Setup τ) (limit : Nat) (s : Session κ τ) :
    List (Session κ τ × Schedule τ) :=
  ((s.setOut u).schedule u).2.heads u limit ((s.setOut u).schedule u).1

theorem heads_of_goes_on (n : Nat) (h : (s.pass u d).2.2 = none) :
    s.heads u (n + 1) d = (s, d) :: (s.pass u d).1.heads u n (s.pass u d).2.1 := by
  rcases hpass : s.pass u d with ⟨after, next, _ | ending⟩
  · simp only [heads, hpass]
  · rw [hpass] at h
    cases h

theorem heads_of_stops (n : Nat) {ending : Ending} (h : (s.pass u d).2.2 = some ending) :
    s.heads u (n + 1) d = [] := by
  rcases hpass : s.pass u d with ⟨after, next, _ | _⟩
  · rw [hpass] at h
    cases h
  · simp only [heads, hpass]

theorem passes_of_stops (n : Nat) {ending : Ending} (h : (s.pass u d).2.2 = some ending) :
    s.passes u (n + 1) d = ((s.pass u d).1, ending) := by
  rcases hpass : s.pass u d with ⟨after, next, _ | _⟩
  · rw [hpass] at h
    cases h
  · rw [hpass] at h
    obtain rfl := Option.some.inj h
    simp only [passes, hpass]

theorem goes_on_of_mem_heads {n : Nat} {h : Session κ τ × Schedule τ} (hh : h ∈ s.heads u n d) :
    (h.1.pass u h.2).2.2 = none := by
  induction n generalizing s d with
  | zero => simp [heads] at hh
  | succ n ih =>
    cases hending : (s.pass u d).2.2 with
    | some ending => simp [heads_of_stops n hending] at hh
    | none =>
      rw [heads_of_goes_on n hending] at hh
      rcases List.mem_cons.1 hh with rfl | hrest
      · exact hending
      · exact ih hrest

theorem moments_passes (n : Nat) : (s.passes u n d).1.moments.toList =
    s.moments.toList ++ (s.heads u n d).flatMap fun h => h.1.noticed u h.2 := by
  induction n generalizing s d with
  | zero => simp [passes, heads]
  | succ n ih =>
    cases hending : (s.pass u d).2.2 with
    | some ending =>
      rw [passes_of_stops n hending, heads_of_stops n hending, moments_of_stops hending]
      simp
    | none =>
      rw [passes_of_goes_on n hending, heads_of_goes_on n hending, ih, moments_of_goes_on hending,
        List.flatMap_cons, List.append_assoc]

/-- **What the outside notices of a run** is what it notices of the passes that do not end it; in
between the buzzer is on. -/
theorem moments_run (u : Setup τ) (limit : Nat) (s : Session κ τ) :
    (s.run u limit).1.moments.toList =
      s.moments.toList ++ (if u.hasSound then [.soundOn] else []) ++
        ((s.headsOfRun u limit).flatMap fun h => h.1.noticed u h.2) ++
        if u.hasSound then [.soundOff] else [] := by
  have hpasses := moments_passes (u := u) (s := ((s.setOut u).schedule u).2)
    (d := ((s.setOut u).schedule u).1) limit
  have hstart : ((s.setOut u).schedule u).2.moments.toList = _ := moments_setOut u s
  rw [hstart] at hpasses
  rw [headsOfRun, ← hpasses]
  exact moments_finish u _ _

/-- What of the moments of a run is looked for among other things than the buzzer comes from the
passes that do not end it. -/
theorem filterMap_moments_run {β : Type} (f : Moment τ → Option β) (hon : f .soundOn = none)
    (hoff : f .soundOff = none) (u : Setup τ) (limit : Nat) (s : Session κ τ) :
    (s.run u limit).1.moments.toList.filterMap f =
      s.moments.toList.filterMap f ++
        (s.headsOfRun u limit).flatMap fun h => (h.1.noticed u h.2).filterMap f := by
  have hsound (moment : Moment τ) (h : f moment = none) :
      (if u.hasSound then [moment] else []).filterMap f = [] := by
    split <;> simp [h]
  rw [moments_run, List.filterMap_append, List.filterMap_append, List.filterMap_append,
    hsound _ hon, hsound _ hoff, List.append_nil, List.append_nil, List.filterMap_flatMap]

end Pacing

end Session

end Chip8

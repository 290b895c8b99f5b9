import Chip8.Proofs.Machine.Reach
import Chip8.Proofs.Session.Frame
import Mathlib.Data.List.Chain

/-!
# What is on the display

`Session.Watched` follows a session through any number of runs, pass after pass, and keeps a row of
*marks*: the screen was cleared or drawn on, or a frame was shown.  Most of what a session does
leaves both the screen and the frames shown alone (`Session.SameView`); a pass can draw in its step
and show one frame behind it, if a picture is due then (`Session.Views`).

So whenever no picture is due, the latest frame shown has the pixels of the screen (`Frame.Shows`);
and between two frames there was always a clearing or a drawing
(`Session.Watched.display_up_to_date`).
-/

namespace Chip8

/-- The frame that is shown, if one is. -/
def Moment.frame? {τ : Type} : Moment τ → Option Frame
  | .shown _ _ frame => some frame
  | _ => none

/-- The frame has the extents of the screen, and those pixels are lit that are not nought. -/
structure Frame.Shows (f : Frame) (s : Screen) : Prop where
  /-- The rows are as long as those of the screen. -/
  width : f.width = s.width
  /-- There are as many of them. -/
  height : f.height = s.height
  /-- There is a pixel for each one of the screen, lit unless that is nought. -/
  lit : ∀ i : Nat, f.lit[i]? = s.pixels[i]?.map fun pixel => decide (pixel ≠ 0)

theorem Screen.shows_frame (s : Screen) : s.frame.Shows s :=
  ⟨rfl, rfl, fun _ => Array.getElem?_map⟩

namespace Session

variable {κ τ : Type} {s after later : Session κ τ}

/-- The frames shown so far, the earliest first. -/
def shownFrames (s : Session κ τ) : List Frame := s.moments.toList.filterMap Moment.frame?

/-- Unless a picture is due, a frame was shown, and the latest one shows what is on the screen. -/
def UpToDate (s : Session κ τ) : Prop :=
  s.machine.screen.dirty = false →
    ∃ frame, s.shownFrames.getLast? = some frame ∧ frame.Shows s.machine.screen

/-- The screen is the same, and so are the frames shown. -/
structure SameView (s after : Session κ τ) : Prop where
  /-- The screen is the same. -/
  screen : after.machine.screen = s.machine.screen
  /-- The frames shown are the same. -/
  frames : after.shownFrames = s.shownFrames

theorem SameView.refl (s : Session κ τ) : s.SameView s := ⟨rfl, rfl⟩

theorem SameView.trans (h : s.SameView after) (h' : after.SameView later) : s.SameView later :=
  ⟨h'.screen.trans h.screen, h'.frames.trans h.frames⟩

theorem SameView.upToDate (h : s.SameView after) (hs : s.UpToDate) : after.UpToDate := by
  unfold UpToDate
  rw [h.screen, h.frames]
  exact hs

theorem withAround_sameView (s : Session κ τ) (f : Surroundings κ → Surroundings κ) :
    s.SameView (s.withAround f) := ⟨rfl, rfl⟩

theorem note_sameView (s : Session κ τ) (text : String) : s.SameView (s.note text) :=
  withAround_sameView s _

theorem shownFrames_notice (s : Session κ τ) (moment : Moment τ) :
    (s.notice moment).shownFrames = s.shownFrames ++ moment.frame?.toList := by
  simp only [shownFrames, notice, Array.toList_push, List.filterMap_append]
  cases h : moment.frame? <;> simp [h]

theorem notice_sameView (s : Session κ τ) {moment : Moment τ} (h : moment.frame? = none) :
    s.SameView (s.notice moment) :=
  ⟨rfl, by rw [shownFrames_notice, h, Option.toList_none, List.append_nil]⟩

theorem withTicker_sameView (s : Session κ τ) (act : Ticker τ → Journal → Ticker τ × Journal) :
    s.SameView (s.withTicker act) := ⟨rfl, rfl⟩

theorem setOut_sameView (u : Setup τ) (s : Session κ τ) : s.SameView (s.setOut u) := by
  have hstart := withTicker_sameView s Ticker.start
  unfold setOut
  split
  · exact (hstart.trans (notice_sameView _ rfl)).trans (note_sameView _ _)
  · exact hstart.trans (note_sameView _ _)

theorem mourn_sameView (s : Session κ τ) (fault : Fault) : s.SameView (s.mourn fault) := by
  unfold mourn
  split
  · exact withAround_sameView s _
  · exact .refl s

theorem close_sameView (u : Setup τ) (s : Session κ τ) : s.SameView (s.close u) := by
  unfold close
  split
  · exact (notice_sameView s rfl).trans (withTicker_sameView _ _)
  · exact withTicker_sameView s _

theorem finish_sameView (u : Setup τ) (s : Session κ τ) (ending : Ending) :
    s.SameView (s.finish u ending) := by
  unfold finish
  split
  · exact (mourn_sameView s _).trans (close_sameView u _)
  · exact close_sameView u s

theorem report_sameView (u : Setup τ) (s : Session κ τ) (d : Schedule τ) :
    s.SameView (s.report u d) := by
  have hcounted : s.SameView { s with
      cyclesPerSecond := s.machine.cycles - d.cyclesAtReport
      framesPerSecond := s.frames - d.framesAtReport } := ⟨rfl, rfl⟩
  unfold report
  split
  · exact (hcounted.trans (notice_sameView _ rfl)).trans (note_sameView _ _)
  · exact hcounted.trans (notice_sameView _ rfl)

theorem reportIfDue_sameView [Add τ] [LE τ] [DecidableLE τ] (u : Setup τ) (s : Session κ τ)
    (d : Schedule τ) (now : τ) : s.SameView (s.reportIfDue u d now).1 := by
  unfold reportIfDue
  split
  · exact report_sameView u s d
  · exact .refl s

variable [Clock κ τ]

theorem look_sameView (s : Session κ τ) : s.SameView s.look.2 := ⟨rfl, rfl⟩

/-! ### Showing a frame -/

/-- What the end of a pass does to the display. -/
inductive Views (s after : Session κ τ) : Prop where
  /-- Nothing. -/
  | kept (view : s.SameView after)
  /-- A picture was due, and it is shown. -/
  | shown (due : s.machine.screen.dirty = true)
      (screen : after.machine.screen = { s.machine.screen with dirty := false })
      (frames : after.shownFrames = s.shownFrames ++ [s.machine.screen.frame])

omit [Clock κ τ] in
theorem Views.trans_kept (h : s.Views after) (h' : after.SameView later) : s.Views later := by
  cases h with
  | kept view => exact .kept (view.trans h')
  | shown due screen frames => exact .shown due (h'.screen.trans screen) (h'.frames.trans frames)

omit [Clock κ τ] in
theorem SameView.views (h : s.SameView after) (h' : after.Views later) : s.Views later := by
  cases h' with
  | kept view => exact .kept (h.trans view)
  | shown due screen frames =>
    rw [h.screen] at due screen frames
    rw [h.frames] at frames
    exact .shown due screen frames

omit [Clock κ τ] in
theorem Views.frame (h : s.Views after) :
    after.machine.screen.frame = s.machine.screen.frame := by
  cases h with
  | kept view => rw [view.screen]
  | shown _ screen _ =>
    rw [screen]
    rfl

theorem present_views (h : s.machine.screen.dirty = true) : s.Views s.present :=
  .shown h rfl (shownFrames_notice _ _)

section Pacing

variable [Add τ] [LT τ] [DecidableLT τ]

theorem showIfDue_views [LE τ] [DecidableLE τ] (u : Setup τ) (s : Session κ τ) (d : Schedule τ)
    (now : τ) : s.Views (s.showIfDue u d now).1 := by
  unfold showIfDue
  split
  · dsimp only
    split
    case isTrue hdue => exact present_views hdue
    case isFalse => exact .kept (.refl s)
  · exact .kept (.refl s)

variable [Sub τ] [Neg τ] [OfNat τ 0]

theorem paceOut_sameView (u : Setup τ) (s : Session κ τ) (d : Schedule τ) :
    s.SameView (s.paceOut u d).1 := by
  have hlook := look_sameView s
  unfold paceOut
  dsimp only
  split
  · exact hlook.trans ((withAround_sameView _ _).trans (notice_sameView _ rfl))
  · split
    · exact hlook.trans (look_sameView _)
    · exact hlook

variable [LE τ] [DecidableLE τ]

theorem afterInstruction_sameView (u : Setup τ) (s : Session κ τ) (d : Schedule τ) :
    (s.look.2.showIfDue u d s.look.1).1.SameView (s.afterInstruction u d).1 :=
  (reportIfDue_sameView u _ _ _).trans (paceOut_sameView u _ _)

theorem afterInstruction_views (u : Setup τ) (s : Session κ τ) (d : Schedule τ) :
    s.Views (s.afterInstruction u d).1 :=
  (look_sameView s).views ((showIfDue_views u _ d _).trans_kept (afterInstruction_sameView u s d))

/-- A picture stays due exactly if no frame is due yet. -/
theorem due_afterInstruction_iff (u : Setup τ) (s : Session κ τ) (d : Schedule τ) :
    (s.afterInstruction u d).1.machine.screen.dirty = true ↔
      s.machine.screen.dirty = true ∧ ¬ d.frame ≤ s.look.1 := by
  rw [(afterInstruction_sameView u s d).screen, showIfDue]
  by_cases hframe : d.frame ≤ s.look.1
  · rw [if_pos hframe]
    cases hdue : s.machine.screen.dirty with
    | true => simpa [present, notice, Screen.snapshot, look, withAround, hdue] using hframe
    | false => simp [look, withAround, hdue]
  · rw [if_neg hframe]
    exact ⟨fun h => ⟨h, hframe⟩, fun h => h.1⟩

end Pacing

end Session

/-! ### Marks -/

/-- What happens to the screen and the display. -/
inductive Mark where
  /-- The screen was cleared or drawn on. -/
  | drawn
  /-- A frame was shown. -/
  | shown (frame : Frame)
  deriving DecidableEq, Repr

/-- The frame that is shown, if one is. -/
def Mark.frame? : Mark → Option Frame
  | drawn => none
  | shown frame => some frame

namespace Session

variable {κ τ : Type} {s after : Session κ τ} {marks : List Mark}

/-- What the marks of a session tell of it. -/
structure Faithful (marks : List Mark) (s : Session κ τ) : Prop where
  /-- The frames among the marks are those that were shown. -/
  frames : marks.filterMap Mark.frame? = s.shownFrames
  /-- The display is up to date. -/
  upToDate : s.UpToDate
  /-- Right after a frame no picture is due. -/
  settled : ∀ frame, marks.getLast? = some (.shown frame) → s.machine.screen.dirty = false
  /-- Frames do not follow upon each other. -/
  apart : marks.IsChain fun a b => a = .drawn ∨ b = .drawn

/-- The marks of the frames that were shown since. -/
def newMarks (s after : Session κ τ) : List Mark :=
  (after.shownFrames.drop s.shownFrames.length).map .shown

theorem Faithful.draw (h : Faithful marks s) (hdue : after.machine.screen.dirty = true)
    (hframes : after.shownFrames = s.shownFrames) : Faithful (marks ++ [.drawn]) after where
  frames := by simp [Mark.frame?, h.frames, hframes]
  upToDate := by simp [UpToDate, hdue]
  settled := by simp
  apart := h.apart.append (List.isChain_singleton _) (by simp)

theorem Faithful.sameView (h : Faithful marks s) (hview : s.SameView after) :
    Faithful marks after where
  frames := h.frames.trans hview.frames.symm
  upToDate := hview.upToDate h.upToDate
  settled frame hlast := hview.screen ▸ h.settled frame hlast
  apart := h.apart

theorem Faithful.views (h : Faithful marks s) (hviews : s.Views after) :
    Faithful (marks ++ s.newMarks after) after := by
  cases hviews with
  | kept view =>
    have hnew : s.newMarks after = [] := by simp [newMarks, view.frames]
    rw [hnew, List.append_nil]
    exact h.sameView view
  | shown due screen frames =>
    have hnew : s.newMarks after = [.shown s.machine.screen.frame] := by simp [newMarks, frames]
    rw [hnew]
    refine ⟨by simp [Mark.frame?, h.frames, frames], fun _ => ?_, by simp [screen],
      h.apart.append (List.isChain_singleton _) fun a ha b _ => ?_⟩
    · refine ⟨s.machine.screen.frame, by rw [frames, List.getLast?_concat], ?_⟩
      rw [screen]
      exact ⟨rfl, rfl, s.machine.screen.shows_frame.lit⟩
    · cases a with
      | drawn => exact .inl rfl
      | shown frame =>
        -- the latest mark cannot be a frame, since a picture is due
        have hsettled := h.settled frame ha
        rw [due] at hsettled
        cases hsettled

/-- Between two frames the screen was cleared or drawn on. -/
theorem Faithful.drawn_between (h : Faithful marks s) {before between rest : List Mark}
    {f g : Frame} (heq : marks = before ++ .shown f :: (between ++ .shown g :: rest)) :
    .drawn ∈ between := by
  have hapart := heq ▸ h.apart
  cases between with
  | nil =>
    obtain ⟨-, hnext, -⟩ := List.isChain_append_cons_cons.1 hapart
    simp at hnext
  | cons mark between =>
    obtain ⟨-, hnext, -⟩ := List.isChain_append_cons_cons.1 hapart
    simp only [reduceCtorEq, false_or] at hnext
    exact hnext ▸ List.mem_cons_self

/-! ### Polls, instructions and key waits -/

variable [Clock κ τ] {u : Setup τ}

/-- The session in the course of a key wait, when the surroundings have become these. -/
def waiting (u : Setup τ) (s : Session κ τ) (around : Surroundings κ) : Session κ τ :=
  { s.polled u with machine := { (s.polled u).machine.fetched with around } }

theorem polled_sameView (u : Setup τ) (s : Session κ τ) : s.SameView (s.polled u) :=
  withAround_sameView s _

theorem waiting_sameView (u : Setup τ) (s : Session κ τ) (around : Surroundings κ) :
    s.SameView (s.waiting u around) := ⟨rfl, rfl⟩

theorem stepped_sameView (h : (s.polled u).machine.draws u.attendant = false) :
    s.SameView (s.stepped u) :=
  ⟨Machine.screen_step_of_not_draws h, rfl⟩

theorem Faithful.stepped (h : Faithful marks s) (u : Setup τ) :
    Faithful (marks ++ if (s.polled u).machine.draws u.attendant then [.drawn] else [])
      (s.stepped u) := by
  cases hdraws : (s.polled u).machine.draws u.attendant with
  | true => exact h.draw (Machine.due_of_draws hdraws) rfl
  | false =>
    rw [if_neg Bool.false_ne_true, List.append_nil]
    exact h.sameView (stepped_sameView hdraws)

/-! ### Runs one after the other -/

section Pacing

variable [Add τ] [Sub τ] [Neg τ] [LT τ] [LE τ] [OfNat τ 0] [DecidableLT τ] [DecidableLE τ]
variable {d : Schedule τ} {during : Option (Setup τ × Schedule τ)}

/-- The marks of a pass: its instruction may draw, and then a frame may be shown. -/
def passMarks (u : Setup τ) (s : Session κ τ) (d : Schedule τ) : List Mark :=
  (if (s.polled u).exitRequested then []
    else if (s.polled u).machine.draws u.attendant then [.drawn] else []) ++
    s.newMarks (s.pass u d).1

/-- The sessions that a screen goes through in the course of runs, with its marks: between runs, or
at the head of a pass of a run with a setup and its deadlines. -/
inductive Watched : List Mark → Session κ τ → Option (Setup τ × Schedule τ) → Prop where
  /-- The screen is new, and nothing was shown yet. -/
  | fresh {s : Session κ τ} {width height : Nat} (screen : s.machine.screen = .blank width height)
      (moments : s.moments = #[]) : Watched [] s none
  /-- Before the next run, anything may happen but to the screen and the display. -/
  | between {marks : List Mark} {s after : Session κ τ} (view : s.SameView after) :
      Watched marks s none → Watched marks after none
  /-- A run begins. -/
  | begin {marks : List Mark} {s : Session κ τ} (u : Setup τ) : Watched marks s none →
      Watched marks ((s.setOut u).schedule u).2 (some (u, ((s.setOut u).schedule u).1))
  /-- A pass does not end the run. -/
  | pass {marks : List Mark} {s : Session κ τ} {u : Setup τ} {d : Schedule τ}
      (goes_on : (s.pass u d).2.2 = none) : Watched marks s (some (u, d)) →
      Watched (marks ++ s.passMarks u d) (s.pass u d).1 (some (u, (s.pass u d).2.1))
  /-- A pass ends the run. -/
  | stop {marks : List Mark} {s : Session κ τ} {u : Setup τ} {d : Schedule τ}
      {ending : Ending} (stops : (s.pass u d).2.2 = some ending) : Watched marks s (some (u, d)) →
      Watched (marks ++ s.passMarks u d) ((s.pass u d).1.finish u ending) none
  /-- The run is long enough. -/
  | limit {marks : List Mark} {s : Session κ τ} {u : Setup τ} {d : Schedule τ} :
      Watched marks s (some (u, d)) → Watched marks (s.finish u .limit) none

theorem Watched.passes (h : Watched marks s (some (u, d))) (n : Nat) :
    ∃ more, Watched (marks ++ more) ((s.passes u n d).1.finish u (s.passes u n d).2) none := by
  induction n generalizing marks s d with
  | zero => exact ⟨[], by rw [List.append_nil]; exact h.limit⟩
  | succ n ih =>
    unfold Session.passes
    rcases hpass : s.pass u d with ⟨after, d', _ | ending⟩
    · -- the run goes on from the session and the deadlines that the pass left
      have hafter := h.pass (by rw [hpass])
      rw [hpass] at hafter
      obtain ⟨more, hmore⟩ := ih hafter
      exact ⟨s.passMarks u d ++ more, by rw [← List.append_assoc]; exact hmore⟩
    · have hending : (s.pass u d).2.2 = some ending := by rw [hpass]
      have hafter := h.stop hending
      rw [hpass] at hafter
      exact ⟨s.passMarks u d, hafter⟩

theorem Watched.run (h : Watched marks s none) (u : Setup τ) (limit : Nat) :
    ∃ more, Watched (marks ++ more) (s.run u limit).1 none :=
  (h.begin u).passes limit

theorem Faithful.pass (h : Faithful marks s) (u : Setup τ) (d : Schedule τ) :
    Faithful (marks ++ s.passMarks u d) (s.pass u d).1 := by
  have hstepped := h.stepped u
  unfold passMarks
  rw [← List.append_assoc]
  cases hexit : (s.polled u).exitRequested with
  | true =>
    rw [pass_of_exit u d hexit, if_pos rfl, List.append_nil]
    exact h.views (.kept ((polled_sameView u s).trans (note_sameView _ _)))
  | false =>
    rw [if_neg Bool.false_ne_true]
    cases hresult : ((s.polled u).machine.step u.attendant).2 with
    | error fault =>
      rw [pass_of_failed u d hexit hresult]
      exact hstepped.views (.kept (.refl _))
    | ok i =>
      rw [pass_of_completed u d hexit hresult]
      exact hstepped.views (afterInstruction_views u (s.stepped u) d)

theorem Watched.faithful (h : Watched marks s during) : Faithful marks s := by
  induction h with
  | fresh screen moments =>
    exact ⟨by simp [shownFrames, moments], by simp [UpToDate, screen, Screen.blank], by simp,
      .nil⟩
  | between view _ ih => exact ih.sameView view
  | @begin _ s u _ ih => exact ih.sameView ((setOut_sameView u s).trans (look_sameView _))
  | @pass _ _ u d _ _ ih => exact ih.pass u d
  | @stop _ _ u d _ _ _ ih => exact (ih.pass u d).sameView (finish_sameView u _ _)
  | limit _ ih => exact ih.sameView (finish_sameView _ _ _)

/-- **The display is never silently out of date.**  Whatever programs, events, paces and clocks
there are: whenever no picture is due, a frame was shown, and the latest frame shown has the extents
and the pixels of the screen.  This holds between runs and at the head of each pass, after its poll,
during its instruction with whatever surroundings a key wait may have by then, after its
instruction, and after a frame was shown.  The marks hold all frames that were shown, and between
two of them the screen was cleared or drawn on. -/
theorem Watched.display_up_to_date (h : Watched marks s during) :
    (s.UpToDate ∧ ∀ u d, during = some (u, d) →
      (s.polled u).UpToDate ∧
      (∀ around, (s.waiting u around).UpToDate) ∧
      (s.stepped u).UpToDate ∧
      ((s.stepped u).look.2.showIfDue u d (s.stepped u).look.1).1.UpToDate) ∧
    marks.filterMap Mark.frame? = s.shownFrames ∧
    ∀ before f between g rest,
      marks = before ++ .shown f :: (between ++ .shown g :: rest) → .drawn ∈ between := by
  have hfaithful := h.faithful
  refine ⟨⟨hfaithful.upToDate, ?_⟩, hfaithful.frames, ?_⟩
  · intro u d _
    have hstepped := hfaithful.stepped u
    refine ⟨?_, ?_, hstepped.upToDate, ?_⟩
    · exact (polled_sameView u s).upToDate hfaithful.upToDate
    · intro around
      exact (waiting_sameView u s around).upToDate hfaithful.upToDate
    · exact ((hstepped.sameView (look_sameView _)).views (showIfDue_views u _ d _)).upToDate
  · intro before f between g rest heq
    exact hfaithful.drawn_between heq

end Pacing

/-- A setup that shows a picture as soon as it is due. -/
def showingAtOnce : Setup Int where
  pace := ⟨1, 0, 1000⟩
  rateText := "1"
  attendant := { feed := { atPoll := fun _ => [] }, interval := 1, patience := 0 }

/-- A session whose machine has this memory and points its index register at the program. -/
def pointing (store : Store) : Session (VirtualClock Int) Int where
  machine :=
    { store, index := Store.programStart, random := .cycling #[], around := { clock := ⟨0, 0, 0⟩ } }
  ticker := { period := 1, rate := .ok 60 }

/-- A program of one instruction draws its own first byte. -/
theorem stepped_pointing {m : Machine (VirtualClock Int)} (hm : m.Holds #[0xD0, 0x01])
    {s : Session (VirtualClock Int) Int}
    (hs : s = (((pointing m.store).setOut showingAtOnce).schedule showingAtOnce).2) :
    (∃ i, ((s.polled showingAtOnce).machine.step showingAtOnce.attendant).2 = .ok i) ∧
      (s.stepped showingAtOnce).machine.screen =
        ((Screen.blank 64 32).drawRows 0 0 [0xD0]).1 ∧
      (s.stepped showingAtOnce).look.1 = 0 := by
  obtain ⟨next, hnext⟩ : ∃ next, next = (s.polled showingAtOnce).machine.fetched := ⟨_, rfl⟩
  have hmachine : (s.polled showingAtOnce).machine =
      { (pointing m.store).machine with around := (s.polled showingAtOnce).machine.around } := by
    rw [hs]
    rfl
  have hholds : (s.polled showingAtOnce).machine.Holds _ := hm.of_store_eq (by rw [hmachine]; rfl)
  have hpc : (s.polled showingAtOnce).machine.pc = (Store.programStart + 0 : Nat) := by
    rw [hmachine]
    rfl
  have hword : (s.polled showingAtOnce).machine.nextInstruction = .decode 0xD001 :=
    hholds.nextInstruction 0 hpc (by decide)
  have hop : (s.polled showingAtOnce).machine.nextInstruction.op = some .draw := by
    rw [hword]
    decide
  have hexecute : next.execute (.decode 0xD001) .draw =
      .ok ({ next with screen := ((Screen.blank 64 32).drawRows 0 0 [0xD0]).1 }.setReg Machine.flag
        ((Screen.blank 64 32).drawRows 0 0 [0xD0]).2.toNat) := by
    have hscreen : next.screen = .blank 64 32 := by rw [hnext, hmachine]; rfl
    have hstore : next.store = m.store := by rw [hnext, hmachine]; rfl
    have hindex : next.index = Store.programStart := by rw [hnext, hmachine]; rfl
    have hreg : next.reg 0 = 0 := by rw [hnext, hmachine]; rfl
    have hx : (Instruction.decode 0xD001).x = 0 := by decide
    have hy : (Instruction.decode 0xD001).y = 0 := by decide
    have hn : (Instruction.decode 0xD001).n = 1 := by decide
    rw [Machine.execute, Machine.drawSprite, Screen.draw_eq (by rw [hscreen]; rfl), hx, hy, hn,
      hreg, hindex, hstore, hm.readBlock (by decide), hscreen]
    rfl
  rw [hnext] at hexecute
  have hstep := Machine.step_of_execute_ok showingAtOnce.attendant
    (hholds.canFetch 0 hpc (by decide)) hop (by decide) (hword ▸ hexecute)
  refine ⟨⟨_, congrArg Prod.snd hstep⟩, ?_, ?_⟩
  · rw [stepped, hstep]
    simp only [Machine.completed, Machine.screen_noted]
    rfl
  · have hnotWaiting : ¬ (s.polled showingAtOnce).machine.AwaitsKey := by
      rintro ⟨-, hawait⟩
      rw [hop] at hawait
      cases hawait
    obtain ⟨timers, notes, hstepped⟩ :=
      Machine.around_step_of_not_awaitsKey showingAtOnce.attendant hnotWaiting
    have htime : (s.stepped showingAtOnce).look.1 = Clock.time s.machine.around.clock := by
      simp only [look, stepped, hstepped]
      rfl
    rw [htime, hs]
    rfl

/-- Behind the first pass of that program its first byte is on the display: the first pixel is lit
and the third one is not. -/
theorem first_picture_shown :
    ∃ (marks : List Mark) (s : Session (VirtualClock Int) Int) (d : Schedule Int) (frame : Frame),
      Watched marks s (some (showingAtOnce, d)) ∧ s.machine.screen.dirty = false ∧
        s.shownFrames.getLast? = some frame ∧ frame.width = 64 ∧ frame.height = 32 ∧
        frame.lit[0]? = some true ∧ frame.lit[2]? = some false := by
  obtain ⟨m, -, -, hm, -, -⟩ :=
    Machine.exists_holds #[0xD0, 0x01] (by decide) (⟨0, 0, 0⟩ : VirtualClock Int)
  obtain ⟨d, hd⟩ : ∃ d, d = (((pointing m.store).setOut showingAtOnce).schedule showingAtOnce).1 :=
    ⟨_, rfl⟩
  obtain ⟨s, hs⟩ : ∃ s, s = (((pointing m.store).setOut showingAtOnce).schedule showingAtOnce).2 :=
    ⟨_, rfl⟩
  have hbegun := (Watched.fresh (s := pointing m.store) rfl rfl).begin showingAtOnce
  rw [← hs, ← hd] at hbegun
  obtain ⟨⟨i, hresult⟩, hscreen, htime⟩ := stepped_pointing hm hs
  have hstaying : (s.polled showingAtOnce).exitRequested = false := by
    rw [hs]
    rfl
  have hpass := pass_of_completed showingAtOnce d hstaying hresult
  -- the first frame is due at once, so the picture is shown
  have hdue : d.frame ≤ (s.stepped showingAtOnce).look.1 := by
    rw [htime, hd]
    exact Int.le_refl 0
  have hsettled : (s.pass showingAtOnce d).1.machine.screen.dirty = false := by
    rw [Bool.eq_false_iff, hpass, Ne, due_afterInstruction_iff]
    exact fun h => h.2 hdue
  have hafter := hbegun.pass (by rw [hpass])
  obtain ⟨frame, hlast, hshows⟩ := hafter.display_up_to_date.1.1 hsettled
  obtain ⟨dirty, clock, journal, hagrees⟩ :=
    afterInstruction_agrees showingAtOnce (s.stepped showingAtOnce) d
  rw [hpass, hagrees, hscreen] at hshows
  have hextents := (Screen.blank 64 32).drawRows_extents 0 0 [0xD0]
  have hlit : ((Screen.blank 64 32).drawRows 0 0 [0xD0]).1.pixels[0]? = some 1 := by decide +kernel
  have hdark : ((Screen.blank 64 32).drawRows 0 0 [0xD0]).1.pixels[2]? = some 0 := by decide +kernel
  refine ⟨_, _, _, frame, hafter, hsettled, hlast, hshows.width.trans hextents.1,
    hshows.height.trans hextents.2, (hshows.lit 0).trans ?_, (hshows.lit 2).trans ?_⟩
  · rw [hlit]
    rfl
  · rw [hdark]
    rfl

end Session

end Chip8

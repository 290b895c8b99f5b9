import Chip8.Proofs.Session.Frame
import Mathlib.Algebra.Order.Field.Rat
import Mathlib.Tactic.Linarith

/-!
# The instruction rate is limited

A run keeps a deadline for its next instruction.  Behind every instruction it moves the deadline on
by one period and sleeps until then; if it is late it goes on at once; and if it is later than one
frame it sets the deadline anew from the present, so that lost time is not made up for in a burst.

Whichever of these it does, the deadline moves on by a period at least, it is not before the time
that decided what to do, less one frame, and it has passed when the pass ends (`Session.Paced`).
Hence the passes of a run are not faster than their period (`Session.due_of_beats`), and they gain
on it by one frame at most after whatever has held them up (`Session.apart_of_beats`).

Times are exact here: they come from an ordered ring, such as that of the rational numbers.
-/

namespace Chip8

/-- A clock that never goes back when it is read, and on which no sleep is too short. -/
structure Clock.Forward (κ : Type) {τ : Type} [Clock κ τ] [LE τ] [Add τ] [OfNat τ 0] : Prop where
  /-- Reading it takes no time or some. -/
  read : ∀ c : κ, Clock.time c ≤ Clock.time (Clock.read c)
  /-- A sleep is as long as it should be or longer. -/
  pass : ∀ (c : κ) (t : τ), 0 ≤ t → Clock.time c + t ≤ Clock.time (Clock.pass t c)

namespace Session

variable {κ τ : Type}

theorem finish_clock (u : Setup τ) (s : Session κ τ) (ending : Ending) :
    (s.finish u ending).machine.around.clock = s.machine.around.clock := by
  have hclose : ∀ s : Session κ τ, (s.close u).machine.around.clock = s.machine.around.clock := by
    intro s
    unfold close
    split <;> rfl
  unfold finish
  rw [hclose]
  split
  · unfold mourn
    split <;> rfl
  · rfl

variable [Clock κ τ]

/-- The times of a pass. -/
structure Beat (τ : Type) where
  /-- The time that decided how it was paced. -/
  reading : τ
  /-- The time at its end. -/
  finish : τ

section Pacing

variable [Add τ] [Sub τ] [Neg τ] [LT τ] [LE τ] [OfNat τ 0] [DecidableLT τ] [DecidableLE τ]
variable {u : Setup τ} {s : Session κ τ} {d : Schedule τ}

/-- The session and its deadlines when a pass is about to be paced. -/
def beforePacing (u : Setup τ) (s : Session κ τ) (d : Schedule τ) : Session κ τ × Schedule τ :=
  let (now, s) := (s.stepped u).look
  let (s, d) := s.showIfDue u d now
  s.reportIfDue u d now

/-- The times of the passes that do not end a run, of `n` passes at most. -/
def beats (u : Setup τ) : (n : Nat) → Session κ τ → Schedule τ → List (Beat τ)
  | 0, _, _ => []
  | n + 1, s, d =>
    match s.pass u d with
    | (_, _, some _) => []
    | (after, next, none) =>
      ⟨(s.beforePacing u d).1.look.1, Clock.time after.machine.around.clock⟩ ::
        beats u n after next

/-- The times of the passes of a run, but for the one that ends it. -/
def beatsOfRun (u : Setup τ) (limit : Nat) (s : Session κ τ) : List (Beat τ) :=
  ((s.setOut u).schedule u).2.beats u limit ((s.setOut u).schedule u).1

theorem pass_eq_paceOut (h : (s.pass u d).2.2 = none) :
    s.pass u d =
      (((s.beforePacing u d).1.paceOut u (s.beforePacing u d).2).1,
        ((s.beforePacing u d).1.paceOut u (s.beforePacing u d).2).2, none) :=
  pass_of_goes_on h

omit [Sub τ] [Neg τ] [OfNat τ 0] in
theorem beforePacing_cycle (u : Setup τ) (s : Session κ τ) (d : Schedule τ) :
    (s.beforePacing u d).2.cycle = d.cycle :=
  (reportIfDue_clock u _ _ _).2.trans (showIfDue_clock u _ d _).2

theorem beats_of_goes_on (n : Nat) (h : (s.pass u d).2.2 = none) :
    s.beats u (n + 1) d =
      ⟨(s.beforePacing u d).1.look.1, Clock.time (s.pass u d).1.machine.around.clock⟩ ::
        (s.pass u d).1.beats u n (s.pass u d).2.1 := by
  rcases hpass : s.pass u d with ⟨after, next, _ | ending⟩
  · simp only [beats, hpass]
  · rw [hpass] at h
    cases h

theorem beats_of_stops (n : Nat) {ending : Ending} (h : (s.pass u d).2.2 = some ending) :
    s.beats u (n + 1) d = [] := by
  rcases hpass : s.pass u d with ⟨after, next, _ | _⟩
  · rw [hpass] at h
    cases h
  · simp only [beats, hpass]

end Pacing

variable [CommRing τ] [LinearOrder τ] [IsStrictOrderedRing τ]
variable {u : Setup τ} {s : Session κ τ} {d : Schedule τ}

/-! ### One pass -/

/-- What a pass makes of the deadline of the next instruction. -/
structure Paced (u : Setup τ) (d next : Schedule τ) (b : Beat τ) : Prop where
  /-- It moves on by a period or more. -/
  onward : d.cycle + u.pace.cycle ≤ next.cycle
  /-- It has passed at the end of the pass. -/
  kept : next.cycle ≤ b.finish
  /-- It is one frame in the past at most. -/
  recent : b.reading - u.pace.frame ≤ next.cycle

/-- A session that is on time sleeps until the deadline, one that is somewhat late goes on, and one
that is more than a frame late sets the deadline anew. -/
theorem paced_of_paceOut (hclock : Clock.Forward κ) (hframe : 0 ≤ u.pace.frame)
    (s : Session κ τ) (d : Schedule τ) :
    Paced u d (s.paceOut u d).2
      ⟨s.look.1, Clock.time (s.paceOut u d).1.machine.around.clock⟩ := by
  have hlook := hclock.read s.machine.around.clock
  unfold paceOut
  dsimp only [look, withAround, notice]
  split
  next hearly =>
    have hslept := hclock.pass (Clock.read s.machine.around.clock) _ hearly.le
    exact ⟨le_rfl, by dsimp only; linarith, by dsimp only; linarith⟩
  next hlate =>
    split
    next hstalled =>
      have hagain := hclock.read (Clock.read s.machine.around.clock)
      exact ⟨by dsimp only; linarith, hagain, by dsimp only; linarith⟩
    next hclose =>
      exact ⟨le_rfl, by dsimp only; linarith, by dsimp only; linarith⟩

/-- **A pass that does not end its run is paced.** -/
theorem paced_of_pass (hclock : Clock.Forward κ) (hframe : 0 ≤ u.pace.frame)
    (h : (s.pass u d).2.2 = none) :
    Paced u d (s.pass u d).2.1
      ⟨(s.beforePacing u d).1.look.1, Clock.time (s.pass u d).1.machine.around.clock⟩ := by
  have hpaced := paced_of_paceOut hclock hframe (s.beforePacing u d).1 (s.beforePacing u d).2
  rw [pass_eq_paceOut h]
  exact { hpaced with onward := beforePacing_cycle u s d ▸ hpaced.onward }

/-! ### Many passes -/

/-- **Passes are not faster than their period.** -/
theorem due_of_beats (hclock : Clock.Forward κ) (hframe : 0 ≤ u.pace.frame) {n k : Nat}
    {b : Beat τ} (hb : (s.beats u n d)[k]? = some b) :
    d.cycle + (k + 1) * u.pace.cycle ≤ b.finish := by
  induction n generalizing s d k with
  | zero => simp [beats] at hb
  | succ n ih =>
    cases hending : (s.pass u d).2.2 with
    | some ending => simp [beats_of_stops n hending] at hb
    | none =>
      have hpaced := paced_of_pass hclock hframe hending
      rw [beats_of_goes_on n hending] at hb
      cases k with
      | zero =>
        obtain rfl := Option.some.inj hb
        have hfinish := hpaced.onward.trans hpaced.kept
        simpa using hfinish
      | succ k =>
        have hrest := ih hb
        have honward := hpaced.onward
        push_cast
        linarith

/-- **Passes gain on their period by one frame at most**, whichever pass one counts from. -/
theorem apart_of_beats (hclock : Clock.Forward κ) (hframe : 0 ≤ u.pace.frame) {n i k : Nat}
    {a b : Beat τ} (ha : (s.beats u n d)[i]? = some a)
    (hb : (s.beats u n d)[i + (k + 1)]? = some b) :
    a.reading + (k + 1) * u.pace.cycle - u.pace.frame ≤ b.finish := by
  induction n generalizing s d i with
  | zero => simp [beats] at ha
  | succ n ih =>
    cases hending : (s.pass u d).2.2 with
    | some ending => simp [beats_of_stops n hending] at ha
    | none =>
      rw [beats_of_goes_on n hending] at ha hb
      cases i with
      | zero =>
        -- the deadline that this pass leaves is where the later ones start from
        obtain rfl := Option.some.inj ha
        have hrecent := (paced_of_pass hclock hframe hending).recent
        rw [Nat.zero_add, List.getElem?_cons_succ] at hb
        have hrest := due_of_beats hclock hframe hb
        dsimp only at hrecent ⊢
        linarith
      | succ i =>
        rw [Nat.succ_add, List.getElem?_cons_succ] at hb
        exact ih ha hb

theorem due_of_limit (hclock : Clock.Forward κ) (hframe : 0 ≤ u.pace.frame) {n : Nat}
    (h : (s.passes u n d).2 = .limit) (hstart : d.cycle ≤ Clock.time s.machine.around.clock) :
    (s.beats u n d).length = n ∧
      d.cycle + n * u.pace.cycle ≤ Clock.time (s.passes u n d).1.machine.around.clock := by
  induction n generalizing s d with
  | zero =>
    refine ⟨rfl, ?_⟩
    simpa [passes] using hstart
  | succ n ih =>
    have hgoes := goes_on_of_limit h
    have hpaced := paced_of_pass hclock hframe hgoes
    rw [passes_of_goes_on n hgoes] at h ⊢
    obtain ⟨hlength, hend⟩ := ih h hpaced.kept
    have honward := hpaced.onward
    refine ⟨by rw [beats_of_goes_on n hgoes, List.length_cons, hlength], ?_⟩
    push_cast
    linarith

/-- **The instruction rate is limited.**  Let the times be exact, the clock never go back, and no
sleep be too short.  In every run the end of pass number `k` is not before `k` periods after its
start; and the end of a later pass is not before as many periods as there are between the two after
the time that decided how the earlier one was paced, less one frame.  So after a stall or a long key
wait a run makes up for a single frame at most.  A run that gets as far as its limit has as many
passes, and takes as many periods. -/
theorem rate_limited (hclock : Clock.Forward κ) (u : Setup τ) (hframe : 0 ≤ u.pace.frame)
    (limit : Nat) (s : Session κ τ) :
    let start := Clock.time s.machine.around.clock
    let beats := s.beatsOfRun u limit
    (∀ (k : Nat) (b : Beat τ), beats[k]? = some b → start + (k + 1) * u.pace.cycle ≤ b.finish) ∧
    (∀ (i j : Nat) (a b : Beat τ), i < j → beats[i]? = some a → beats[j]? = some b →
      a.reading + (j - i) * u.pace.cycle - u.pace.frame ≤ b.finish) ∧
    ((s.run u limit).2 = .limit → beats.length = limit ∧
      start + limit * u.pace.cycle ≤ Clock.time (s.run u limit).1.machine.around.clock) := by
  obtain ⟨hcycle, -, -, hread⟩ := schedule_setOut u s
  refine ⟨fun k b hb => ?_, fun i j a b hij ha hb => ?_, fun hlimit => ?_⟩
  · rw [← hcycle]
    exact due_of_beats hclock hframe hb
  · obtain ⟨k, rfl⟩ := Nat.exists_eq_add_of_lt hij
    have hapart := apart_of_beats hclock hframe ha hb
    push_cast
    linarith
  · have hstart : ((s.setOut u).schedule u).1.cycle ≤
        Clock.time ((s.setOut u).schedule u).2.machine.around.clock := by
      rw [hcycle, hread]
      exact hclock.read _
    obtain ⟨hlength, hend⟩ := due_of_limit hclock hframe hlimit hstart
    refine ⟨hlength, ?_⟩
    rw [← hcycle]
    exact hend.trans_eq (congrArg Clock.time (finish_clock u _ _)).symm

end Session

/-! ### A program that only lets time pass -/

namespace Machine

variable {κ τ : Type} {m after : Machine κ}

/-- The program is a jump on the spot, and the user does not want to leave. -/
structure Spins (m : Machine κ) : Prop where
  /-- The memory holds the jump. -/
  holds : m.Holds #[0x12, 0x00]
  /-- The machine is about to jump. -/
  pc : m.pc = Store.programStart
  /-- The user has not asked to leave. -/
  staying : m.around.exitRequested = false

theorem Spins.agrees (h : m.Spins) (hagrees : m.Agrees after) : after.Spins := by
  obtain ⟨_, _, _, rfl⟩ := hagrees
  exact { h with holds := h.holds.of_store_eq rfl, staying := h.staying }

theorem Spins.op_eq (h : m.Spins) : m.nextInstruction.op = some .jump := by
  rw [h.holds.nextInstruction 0 h.pc (by decide)]
  decide

theorem Spins.step [Clock κ τ] (h : m.Spins) (a : Attendant τ) :
    (m.step a).2 = .ok m.nextInstruction ∧ (m.step a).1.Spins := by
  have hjump : m.nextInstruction = .decode 0x1200 := h.holds.nextInstruction 0 h.pc (by decide)
  have hfetch : m.CanFetch := h.holds.canFetch 0 h.pc (by decide)
  obtain ⟨journal, hnoted⟩ :=
    noted_eq { m.fetched with pc := m.nextInstruction.nnn } m.nextInstruction .jump
  rw [step_of_execute_ok a hfetch h.op_eq (by decide) rfl, hnoted]
  refine ⟨rfl, h.holds.of_store_eq rfl, ?_, h.staying⟩
  show (m.nextInstruction.nnn : Int) = _
  rw [hjump]
  decide

theorem Spins.clock_step [Clock κ τ] (h : m.Spins) (a : Attendant τ) :
    (m.step a).1.around.clock = m.around.clock := by
  have hnotWaiting : ¬ m.AwaitsKey := by
    rintro ⟨-, hawait⟩
    rw [h.op_eq] at hawait
    cases hawait
  obtain ⟨timers, journal, haround⟩ := around_step_of_not_awaitsKey a hnotWaiting
  rw [haround]
  rfl

end Machine

namespace Session

section Spinning

variable {κ τ : Type} [Clock κ τ] {u : Setup τ} {s : Session κ τ}

theorem polled_spins (hsilent : ∀ n, u.attendant.feed.atPoll n = []) (h : s.machine.Spins) :
    (s.polled u).machine.Spins := by
  rw [polled, withAround, Surroundings.poll_of_nothing (hsilent _)]
  exact ⟨h.holds.of_store_eq rfl, h.pc, h.staying⟩

theorem stepped_clock_of_spins (hsilent : ∀ n, u.attendant.feed.atPoll n = [])
    (h : s.machine.Spins) :
    (s.stepped u).machine.around.clock = s.machine.around.clock := by
  have hpolled : (s.polled u).machine.around.clock = s.machine.around.clock := by
    rw [polled, withAround, Surroundings.poll_of_nothing (hsilent _)]
  exact ((polled_spins hsilent h).clock_step u.attendant).trans hpolled

variable [Add τ] [Sub τ] [Neg τ] [LT τ] [LE τ] [OfNat τ 0] [DecidableLT τ] [DecidableLE τ]

theorem passes_of_spins (hsilent : ∀ n, u.attendant.feed.atPoll n = []) (h : s.machine.Spins)
    (n : Nat) (d : Schedule τ) : (s.passes u n d).2 = .limit := by
  induction n generalizing s d with
  | zero => rfl
  | succ n ih =>
    have hpolled := polled_spins hsilent h
    obtain ⟨hdone, hspins⟩ := hpolled.step u.attendant
    have hpass := pass_of_completed u d hpolled.staying hdone
    rw [passes_of_goes_on n (by rw [hpass]), hpass]
    exact ih (hspins.agrees (afterInstruction_agrees u (s.stepped u) d)) _

theorem run_of_spins (hsilent : ∀ n, u.attendant.feed.atPoll n = []) (h : s.machine.Spins)
    (limit : Nat) : (s.run u limit).2 = .limit :=
  passes_of_spins hsilent (h.agrees ((setOut_agrees u s).trans (schedule_agrees u _))) limit _

end Spinning

/-- A clock of exact times; every reading takes a while, and sleeps are too long. -/
structure ExactClock where
  /-- The time it shows. -/
  now : ℚ

instance : Clock ExactClock ℚ where
  time c := c.now
  read c := ⟨c.now + 1 / 10000⟩
  pass t c := ⟨c.now + t + 1 / 1000⟩

theorem forward_exactClock : Clock.Forward ExactClock where
  read c := by
    show c.now ≤ c.now + 1 / 10000
    linarith
  pass c t _ := by
    show c.now + t ≤ c.now + t + 1 / 1000
    linarith

/-- A setup with 700 instructions and 60 frames in a second. -/
def standardPace : Setup ℚ where
  pace := ⟨1 / 700, 1 / 60, 1⟩
  rateText := "700"
  attendant := { feed := { atPoll := fun _ => [] }, interval := 1 / 1000, patience := 0 }

/-- It takes a second to jump on the spot 700 times, and between the first jump and the last one
lie 699 periods, less one frame. -/
theorem jumps_take_a_second :
    ∃ (s : Session ExactClock ℚ) (first last : Beat ℚ),
      (s.run standardPace 700).2 = .limit ∧
      Clock.time s.machine.around.clock + 1 ≤
        Clock.time (s.run standardPace 700).1.machine.around.clock ∧
      (s.beatsOfRun standardPace 700)[0]? = some first ∧
      (s.beatsOfRun standardPace 700)[699]? = some last ∧
      first.reading + 699 / 700 - 1 / 60 ≤ last.finish := by
  obtain ⟨m, journal, -, hholds, hpc, haround⟩ :=
    Machine.exists_holds #[0x12, 0x00] (by decide) (⟨0⟩ : ExactClock)
  have hspins : m.Spins := ⟨hholds, hpc, by rw [haround]⟩
  obtain ⟨s, rfl⟩ : ∃ s : Session ExactClock ℚ, s.machine = m :=
    ⟨{ machine := m, ticker := { period := 1 / 60, rate := .ok 60 } }, rfl⟩
  have hlimit : (s.run standardPace 700).2 = .limit := run_of_spins (fun _ => rfl) hspins 700
  have hframe : 0 ≤ standardPace.pace.frame := by norm_num [standardPace]
  obtain ⟨-, hapart, hrun⟩ := rate_limited forward_exactClock standardPace hframe 700 s
  obtain ⟨hlength, hend⟩ := hrun hlimit
  have hcycle : (700 : ℕ) * standardPace.pace.cycle = 1 := by norm_num [standardPace]
  rw [hcycle] at hend
  have hfirst := List.getElem?_eq_getElem (l := s.beatsOfRun standardPace 700) (i := 0) (by omega)
  have hlast := List.getElem?_eq_getElem (l := s.beatsOfRun standardPace 700) (i := 699) (by omega)
  have hbetween := hapart 0 699 _ _ (by decide) hfirst hlast
  refine ⟨s, _, _, hlimit, hend, hfirst, hlast, ?_⟩
  norm_num [standardPace] at hbetween ⊢
  exact hbetween

end Session

end Chip8

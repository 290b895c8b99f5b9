import Chip8.Proofs.Session.Display

/-!
# What a key wait hides

A frame is shown only behind an instruction, and a key wait is a single instruction, however often
it polls and naps.  So what it finds due to be shown stays due until it ends: a picture is due at
its naps exactly if it was due behind the instruction before, and no frame was
(`Session.hidden_iff`).

As long as nobody touches a key the naps of a wait follow upon each other without end
(`Surroundings.exists_nap`), and so does the time for which a picture is hidden.
-/

namespace Chip8

/-! ### The naps of a key wait -/

/-- Nothing happens at polls and naps. -/
structure Attendant.Silent {τ : Type} (a : Attendant τ) : Prop where
  /-- Polls bring no events. -/
  polls : ∀ n, a.feed.atPoll n = []
  /-- Naps bring no events. -/
  naps : ∀ n, a.feed.atNap n = []

namespace Surroundings

variable {κ τ : Type} [Clock κ τ] {s : Surroundings κ}

/-- The surroundings whenever a key wait with `room` naps left is about to nap. -/
def napsFrom (a : Attendant τ) : (room : Nat) → Surroundings κ → List (Surroundings κ)
  | 0, s =>
    match s.waitRound a with
    | (some _, _) => []
    | (none, s) => [s]
  | room + 1, s =>
    match s.waitRound a with
    | (some _, _) => []
    | (none, s) => s :: napsFrom a room (s.nap a.feed a.interval)

/-- The surroundings whenever a key wait that begins here is about to nap. -/
def napsOf (a : Attendant τ) (s : Surroundings κ) : List (Surroundings κ) :=
  napsFrom a (a.patience - s.naps) s.freshen

theorem poll_of_silent {a : Attendant τ} (ha : a.Silent) (s : Surroundings κ) :
    s.poll a.feed = { s with polls := s.polls + 1 } :=
  poll_of_nothing (ha.polls _)

/-- A round in which nothing happens ends in a nap and leaves the clock alone. -/
theorem waitRound_of_nothing {a : Attendant τ} (ha : a.Silent) (hs : s.keyboard.downs = [])
    (hstaying : s.exitRequested = false) :
    ∃ after, s.waitRound a = (none, after) ∧ after.keyboard = s.keyboard ∧
      after.exitRequested = false ∧ after.clock = s.clock := by
  have hpoll : ∃ polls, s.pollFor a = { s with polls } := by
    unfold pollFor
    split
    · exact ⟨s.polls + 1, poll_of_silent ha s⟩
    · exact ⟨s.polls, rfl⟩
  obtain ⟨polls, hpoll⟩ := hpoll
  have hp : (s.pollFor a).keyboard.downs = [] := by
    rw [hpoll]
    exact hs
  have hask : ((s.pollFor a).askFor a).1 = false := by
    rw [hpoll]
    unfold askFor
    split
    · exact hstaying
    · rfl
  refine ⟨((s.pollFor a).askFor a).2, ?_, ?_⟩
  · rw [waitRound_of_silent a hs hp, hask]
    rfl
  · rw [hpoll]
    unfold askFor
    split
    · exact ⟨rfl, hstaying, rfl⟩
    · exact ⟨rfl, hstaying, rfl⟩

/-- **If nothing happens, nap follows upon nap** until there is no room for more. -/
theorem exists_nap {a : Attendant τ} (ha : a.Silent) (hs : s.keyboard.downs = [])
    (hstaying : s.exitRequested = false) {k room : Nat} (hk : k ≤ room) :
    ∃ around ∈ s.napsFrom a room, around.clock = (Clock.pass a.interval)^[k] s.clock := by
  induction k generalizing s room with
  | zero =>
    obtain ⟨after, hround, -, -, hclock⟩ := waitRound_of_nothing ha hs hstaying
    refine ⟨after, ?_, hclock⟩
    cases room <;> simp [napsFrom, hround]
  | succ k ih =>
    obtain ⟨room, rfl⟩ := Nat.exists_eq_add_of_le' (Nat.le_of_add_left_le hk)
    obtain ⟨after, hround, hkeyboard, hafter, hclock⟩ := waitRound_of_nothing ha hs hstaying
    have hnap : after.nap a.feed a.interval = after.sleep a.interval := by
      rw [nap, ha.naps]
      rfl
    obtain ⟨around, hmem, htime⟩ := ih (s := after.sleep a.interval) (hkeyboard ▸ hs) hafter
      (Nat.le_of_succ_le_succ hk)
    refine ⟨around, ?_, ?_⟩
    · simp only [napsFrom, hround, hnap]
      exact List.mem_cons_of_mem _ hmem
    · rw [htime, Function.iterate_succ_apply, ← hclock]
      rfl

end Surroundings

namespace Session

variable {κ τ : Type} [Clock κ τ]
variable [Add τ] [Sub τ] [Neg τ] [LT τ] [LE τ] [OfNat τ 0] [DecidableLT τ] [DecidableLE τ]
variable {s : Session κ τ} {u : Setup τ} {d : Schedule τ}

/-! ### What is due during a key wait -/

/-- The sessions at the heads of the passes of a run, with the time at which the screen was last
cleared or drawn on in the run. -/
inductive Running (u : Setup τ) : Option τ → Session κ τ → Schedule τ → Prop where
  /-- The run begins. -/
  | begin (s : Session κ τ) : Running u none ((s.setOut u).schedule u).2 ((s.setOut u).schedule u).1
  /-- A pass does not end the run. -/
  | pass {drawn : Option τ} {s : Session κ τ} {d : Schedule τ} (goes_on : (s.pass u d).2.2 = none) :
      Running u drawn s d →
      Running u
        (if (s.polled u).machine.draws u.attendant then
          some (Clock.time (s.stepped u).machine.around.clock) else drawn)
        (s.pass u d).1 (s.pass u d).2.1

theorem due_pass_iff (goes_on : (s.pass u d).2.2 = none) :
    (s.pass u d).1.machine.screen.dirty = true ↔
      (s.stepped u).machine.screen.dirty = true ∧ ¬ d.frame ≤ (s.stepped u).look.1 := by
  rw [pass_of_goes_on goes_on]
  exact due_afterInstruction_iff u _ d

/-- **What a key wait hides.**  Take a pass that does not end its run, and the instruction of the
next pass.  If this is a key wait, then at each of its naps, and generally as long as it takes, a
picture is due exactly if it was due behind the instruction of the pass before and no frame was; the
picture is what it was then, and no frame is shown meanwhile. -/
theorem hidden_iff (goes_on : (s.pass u d).2.2 = none) (around : Surroundings κ) :
    (((s.pass u d).1.waiting u around).machine.screen.dirty = true ↔
      (s.stepped u).machine.screen.dirty = true ∧ ¬ d.frame ≤ (s.stepped u).look.1) ∧
    ((s.pass u d).1.waiting u around).machine.screen.frame = (s.stepped u).machine.screen.frame ∧
    ((s.pass u d).1.waiting u around).shownFrames = (s.pass u d).1.shownFrames := by
  have hsame := waiting_sameView u (s.pass u d).1 around
  refine ⟨?_, ?_, hsame.frames⟩
  · rw [hsame.screen]
    exact due_pass_iff goes_on
  · rw [hsame.screen, pass_of_goes_on goes_on]
    exact (afterInstruction_views u _ d).frame

/-! ### A prompt that nobody sees -/

theorem iterate_pass (interval : Int) (k : Nat) (c : VirtualClock Int) :
    ((Clock.pass interval)^[k] c).now = c.now + k * interval := by
  induction k generalizing c with
  | zero => simp
  | succ k ih =>
    have hpass : (Clock.pass interval c).now = c.now + interval := rfl
    rw [Function.iterate_succ_apply, ih, hpass, Int.natCast_succ, Int.add_mul, Int.one_mul,
      Int.add_assoc, Int.add_comm interval]

/-- If nobody is there, a session naps at regular times until there is no room for more. -/
theorem exists_nap_of_silent {u : Setup Int} (hsilent : u.attendant.Silent)
    {s : Session (VirtualClock Int) Int}
    (hs : s.machine.around.keyboard.nextCycle.dropStale.downs = [])
    (hstaying : s.machine.around.exitRequested = false) (hnaps : s.machine.around.naps = 0)
    {k : Nat} (hk : k ≤ u.attendant.patience) :
    ∃ around ∈ Surroundings.napsOf u.attendant (s.polled u).machine.fetched.around,
      Clock.time around.clock = s.machine.around.clock.now + k * u.attendant.interval := by
  have haround : (s.polled u).machine.fetched.around =
      { s.machine.around with
        polls := s.machine.around.polls + 1
        keyboard := s.machine.around.keyboard.nextCycle } := by
    simp only [polled, withAround, Machine.fetched, Machine.beginCycle,
      Surroundings.poll_of_silent hsilent]
  obtain ⟨around, hmem, htime⟩ := Surroundings.exists_nap
    (s := (s.polled u).machine.fetched.around.freshen) hsilent (by rw [haround]; exact hs)
    (by rw [haround]; exact hstaying) hk
  refine ⟨around, ?_, ?_⟩
  · rw [Surroundings.napsOf, haround, hnaps, ← haround]
    exact hmem
  · rw [htime, haround]
    exact iterate_pass _ _ _

theorem Begun.pass_of_clear {program : Array UInt8} {u : Setup Int}
    {s : Session (VirtualClock Int) Int} {d : Schedule Int} (h : Begun program u s d)
    (hsilent : u.attendant.Silent) (hfetch : (s.polled u).machine.CanFetch)
    (hword : (s.polled u).machine.nextWord = 0x00E0) :
    (s.pass u d).2.2 = none ∧ (s.polled u).machine.draws u.attendant = true ∧
      (s.stepped u).machine.around.clock = s.machine.around.clock ∧
      ∃ dirty clock journal, (s.pass u d).1.machine =
        { s.machine with
          pc := 0x202
          cycles := s.machine.cycles + 1
          screen := { s.machine.screen.clear with dirty }
          around := { s.machine.around with
            polls := s.machine.around.polls + 1
            keyboard := s.machine.around.keyboard.nextCycle
            clock
            journal } } := by
  have hpolled : (s.polled u).machine =
      { s.machine with
        around := { s.machine.around with polls := s.machine.around.polls + 1 } } := by
    simp only [polled, withAround, Surroundings.poll_of_silent hsilent]
  have hstaying : (s.polled u).exitRequested = false := by
    rw [exitRequested, hpolled]
    exact h.staying
  have hop : (s.polled u).machine.nextInstruction.op = some .clearScreen := by
    rw [Machine.nextInstruction, hword]
    decide
  have hstep := Machine.step_of_execute_ok u.attendant hfetch hop (by decide) rfl
  have hpass := pass_of_completed u d hstaying (congrArg Prod.snd hstep)
  obtain ⟨journal, hnoted⟩ := Machine.noted_eq
    { (s.polled u).machine.fetched with screen := s.machine.screen.clear }
    (s.polled u).machine.nextInstruction .clearScreen
  have hstepped : (s.stepped u).machine =
      ({ (s.polled u).machine.fetched with
        screen := s.machine.screen.clear
        around := { (s.polled u).machine.fetched.around with journal } }).completed := by
    rw [stepped, hstep]
    exact congrArg Machine.completed hnoted
  refine ⟨by rw [hpass], ?_, ?_, ?_⟩
  · rw [Machine.draws, hstep]
    simp [hop]
  · rw [hstepped, hpolled]
    rfl
  · obtain ⟨dirty, clock, notes, hagrees⟩ := afterInstruction_agrees u (s.stepped u) d
    refine ⟨dirty, clock, notes, ?_⟩
    have hpc : Machine.nextAddress s.machine.pc = 0x202 := by
      rw [h.pc]
      rfl
    rw [hpass, hagrees, hstepped, hpolled]
    simp only [Machine.completed, Machine.fetched, Machine.beginCycle, hpc]

/-- Let a program clear the screen and wait for a key, and let nobody be there.  Behind the clearing
a picture is due and no frame is, and then naps follow upon each other. -/
theorem exists_prompt {u : Setup Int} (hcycle : 0 < u.pace.cycle) (hframe : 0 < u.pace.frame)
    (hsilent : u.attendant.Silent) :
    ∃ (s : Session (VirtualClock Int) Int) (d : Schedule Int),
      (s.pass u d).2.2 = none ∧
      (s.stepped u).machine.screen.dirty = true ∧ ¬ d.frame ≤ (s.stepped u).look.1 ∧
      Running u (some 0) (s.pass u d).1 (s.pass u d).2.1 ∧
      ((s.pass u d).1.polled u).machine.AwaitsKey ∧
      ∀ k ≤ u.attendant.patience, ∃ around ∈ Surroundings.napsOf u.attendant
        ((s.pass u d).1.polled u).machine.fetched.around,
        Clock.time around.clock = u.pace.cycle + k * u.attendant.interval := by
  obtain ⟨s, d, hbegun⟩ := exists_begun #[0x00, 0xE0, 0xF0, 0x0A] (by decide) u
  obtain ⟨hfetch, hword⟩ := hbegun.nextWord (by decide)
  obtain ⟨hgoes_on, hdraws, hclock, dirty, clock, journal, hafter⟩ :=
    hbegun.pass_of_clear hsilent hfetch hword
  have hdrawn : (s.stepped u).machine.screen.dirty = true := Machine.due_of_draws hdraws
  have htime : Clock.time (s.stepped u).machine.around.clock = 0 := by
    rw [hclock]
    exact hbegun.clock.1
  have hnotDue : ¬ d.frame ≤ (s.stepped u).look.1 := by
    have hlook : (s.stepped u).look.1 = 0 := htime
    rw [hlook, hbegun.frame]
    omega
  have hrunning : Running u (some 0) (s.pass u d).1 (s.pass u d).2.1 := by
    obtain ⟨fresh, -, -, hstart⟩ := hbegun.start
    have hbegin := Running.begin (u := u) fresh
    rw [hstart] at hbegin
    have hnext := hbegin.pass hgoes_on
    rw [if_pos hdraws, htime] at hnext
    exact hnext
  have hlater : (s.pass u d).1.machine.around.clock.now = u.pace.cycle := by
    have hlook : Clock.time (Clock.read (s.stepped u).machine.around.clock) = 0 := by
      rw [hclock]
      simp [Clock.time, Clock.read, hbegun.clock]
    have hrest := clock_afterInstruction u (s.stepped u) d
    rw [hlook, hbegun.cycle] at hrest
    rw [pass_of_goes_on hgoes_on, hrest (by omega), hclock]
    simp [Clock.pass, Clock.read, hbegun.clock]
  refine ⟨s, d, hgoes_on, hdrawn, hnotDue, hrunning, ⟨?_, ?_⟩, fun k hk => ?_⟩
  · simp [Machine.CanFetch, polled, withAround, hafter, hbegun.size, Store.standardSize]
  · have hhigh : s.machine.store.byteAt 0x202 = 0xF0 := hbegun.bytes 2 (by decide)
    have hlow : s.machine.store.byteAt 0x203 = 0x0A := hbegun.bytes 3 (by decide)
    have hwaits : ((s.pass u d).1.polled u).machine.nextWord = 0xF00A := by
      simp [Machine.nextWord, polled, withAround, hafter, hhigh, hlow]
    rw [Machine.nextInstruction, hwaits]
    decide
  · rw [← hlater]
    refine exists_nap_of_silent hsilent ?_ ?_ ?_ hk
    · rw [hafter, hbegun.keyboard]
      rfl
    · rw [hafter]
      exact hbegun.staying
    · rw [hafter]
      exact hbegun.naps

/-- A setup with a frame every ten units of time whose user does nothing. -/
def idle : Setup Int where
  pace := ⟨1, 10, 1000⟩
  rateText := "1"
  attendant := { feed := { atPoll := fun _ => [] }, interval := 1, patience := 30 }

/-- A picture is hidden for longer than two frames. -/
theorem prompt_hidden :
    ∃ (s : Session (VirtualClock Int) Int) (d : Schedule Int)
      (around : Surroundings (VirtualClock Int)),
      Running idle (some 0) (s.pass idle d).1 (s.pass idle d).2.1 ∧
      around ∈ Surroundings.napsOf idle.attendant
        ((s.pass idle d).1.polled idle).machine.fetched.around ∧
      0 + 2 * idle.pace.frame < Clock.time around.clock ∧
      ((s.pass idle d).1.waiting idle around).machine.screen.dirty = true := by
  obtain ⟨s, d, hgoes_on, hdrawn, hnotDue, hrunning, -, hnaps⟩ :=
    exists_prompt (u := idle) (by decide) (by decide) ⟨fun _ => rfl, fun _ => rfl⟩
  obtain ⟨around, hmem, htime⟩ := hnaps 20 (by decide)
  have hlate : 0 + 2 * idle.pace.frame < Clock.time around.clock := by
    rw [htime]
    decide
  have hdue := (hidden_iff hgoes_on around).1.2 ⟨hdrawn, hnotDue⟩
  exact ⟨s, d, around, hrunning, hmem, hlate, hdue⟩

/-- Two frames after a drawing a key wait may well nap with the picture still due. -/
theorem not_shown_within_two_frames :
    ¬ ∀ (u : Setup Int) (drawn : Int) (s : Session (VirtualClock Int) Int) (d : Schedule Int),
      Running u (some drawn) s d → (s.polled u).machine.AwaitsKey →
      ∀ around ∈ Surroundings.napsOf u.attendant (s.polled u).machine.fetched.around,
        drawn + 2 * u.pace.frame < Clock.time around.clock →
        (s.waiting u around).machine.screen.dirty = false := by
  intro hshown
  obtain ⟨s, d, hgoes_on, hdrawn, hnotDue, hrunning, hawaits, hnaps⟩ :=
    exists_prompt (u := idle) (by decide) (by decide) ⟨fun _ => rfl, fun _ => rfl⟩
  obtain ⟨around, hmem, htime⟩ := hnaps 20 (by decide)
  have hlate : 0 + 2 * idle.pace.frame < Clock.time around.clock := by
    rw [htime]
    decide
  have hwaiting : ((s.pass idle d).1.waiting idle around).machine.screen.dirty = true := by
    rw [(waiting_sameView idle _ around).screen]
    exact (due_pass_iff hgoes_on).2 ⟨hdrawn, hnotDue⟩
  rw [hshown idle 0 _ _ hrunning hawaits around hmem hlate] at hwaiting
  cases hwaiting

end Session

end Chip8

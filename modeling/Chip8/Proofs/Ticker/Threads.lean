import Chip8.Ticker

/-!
# The threads of a timer clock

A timer clock holds one thread at a time and knows how many it has started and joined.  Here a
record is kept of every thread that it ever made (`Ticker.Life`): whether it runs, has died, was
joined, or was replaced by another one after it had died.

The thread that is held is the latest one, and all others are over, however the clock is started,
stopped, entered and left (`Ticker.Life.Sound`).  So no two threads run at a time, the numbers of
threads add up, and a clock that was stopped does not tick before it is started again
(`Ticker.Life.one_thread_at_a_time`).
-/

namespace Chip8

namespace Ticker

/-- What has become of a thread. -/
inductive Fate where
  /-- It runs. -/
  | alive
  /-- It has ended unasked. -/
  | dead
  /-- It was joined. -/
  | joined
  /-- It had ended unasked, and another one was started in its place. -/
  | replaced
  deriving DecidableEq, Repr

namespace Fate

/-- A thread that runs ends unasked. -/
def die : Fate → Fate
  | alive => dead
  | fate => fate

/-- Another thread is started in the place of a dead one. -/
def replace : Fate → Fate
  | dead => replaced
  | fate => fate

/-- Nobody will hear of the thread again. -/
def Over (fate : Fate) : Prop := fate = joined ∨ fate = replaced

end Fate

/-- Something that is done to a timer clock, or happens to it. -/
inductive Deed (τ : Type) where
  /-- It is started. -/
  | start
  /-- It is stopped. -/
  | stop
  /-- It is entered, as the guard of a block. -/
  | enter
  /-- The block is left. -/
  | leave
  /-- Its thread ends unasked. -/
  | die
  /-- The timers tick. -/
  | tick
  /-- The body of its thread is executed; its waits return with these latenesses. -/
  | work (late : List τ)
  deriving DecidableEq, Repr

/-- The deed may create a thread. -/
def Deed.Starts {τ : Type} (deed : Deed τ) : Prop := deed = start ∨ deed = enter

/-- The deed may join a thread. -/
def Deed.Stops {τ : Type} (deed : Deed τ) : Prop := deed = stop ∨ deed = leave

/-- A timer clock in its surroundings, and the threads that it has made. -/
structure Life (τ : Type) where
  /-- The timer clock. -/
  ticker : Ticker τ
  /-- The timers. -/
  timers : Countdown
  /-- The time. -/
  time : τ
  /-- The journal. -/
  journal : Journal
  /-- What has become of the threads that it has made, of the latest one first. -/
  threads : List Fate := []

namespace Life

/-- The life of a timer clock begins. -/
def fresh {τ : Type} (period : τ) (rate : Except Fault Int) (timers : Countdown) (time : τ)
    (journal : Journal) : Life τ :=
  { ticker := { period, rate }, timers, time, journal }

variable {τ : Type}

/-- Starts the timer clock. -/
def start (l : Life τ) : Life τ :=
  let (ticker, journal) := l.ticker.start l.journal
  let threads :=
    if l.ticker.running then l.threads else .alive :: l.threads.modifyHead Fate.replace
  { l with ticker, journal, threads }

/-- Stops the timer clock. -/
def stop (l : Life τ) : Life τ :=
  let (ticker, journal) := l.ticker.stop l.journal
  let threads :=
    if l.ticker.worker = .absent then l.threads else l.threads.modifyHead fun _ => .joined
  { l with ticker, journal, threads }

/-- The thread of the timer clock ends unasked. -/
def die (l : Life τ) : Life τ :=
  { l with ticker := l.ticker.die, threads := l.threads.modifyHead Fate.die }

section Work

variable [Add τ] [Sub τ] [LT τ] [OfNat τ 0] [DecidableLT τ]

/-- Executes the body of the thread. -/
def work (l : Life τ) (late : List τ) : Life τ :=
  let course := l.ticker.work late l.time l.timers
  { l with timers := course.timers, time := course.time }

/-- Does something to the timer clock. -/
def perform (l : Life τ) : Deed τ → Life τ
  | .start | .enter => l.start
  | .stop | .leave => l.stop
  | .die => l.die
  | .tick => { l with timers := l.timers.tick }
  | .work late => l.work late

/-- Does one thing after the other. -/
def after (l : Life τ) (deeds : List (Deed τ)) : Life τ := deeds.foldl perform l

end Work

variable {l : Life τ}

/-! ### The thread that is held -/

/-- What has become of the thread that is held, if one is. -/
def held : Worker → List Fate
  | .absent => []
  | .alive => [.alive]
  | .dead => [.dead]

/-- What is true of every life. -/
structure Sound (l : Life τ) : Prop where
  /-- The thread that is held is the latest one, and all others are over. -/
  held : ∃ earlier, l.threads = held l.ticker.worker ++ earlier ∧ ∀ fate ∈ earlier, fate.Over
  /-- The clock has started all of its threads. -/
  started : l.ticker.started = l.threads.length
  /-- It has joined those that were joined. -/
  joined : l.ticker.joined = l.threads.count .joined
  /-- A thread that runs has not been asked to stop. -/
  heeded : l.ticker.worker = .alive → l.ticker.stopping = false

theorem running_iff : l.ticker.running = true ↔ l.ticker.worker = .alive := by simp [running]

theorem Sound.alive_mem_iff (h : l.Sound) : .alive ∈ l.threads ↔ l.ticker.worker = .alive := by
  obtain ⟨earlier, hthreads, hover⟩ := h.held
  have hnot : .alive ∉ earlier := fun hmem => by simpa [Fate.Over] using hover _ hmem
  rw [hthreads]
  cases l.ticker.worker <;> simp [Life.held, hnot]

theorem Sound.count_alive_le (h : l.Sound) : l.threads.count .alive ≤ 1 := by
  obtain ⟨earlier, hthreads, hover⟩ := h.held
  have hnone : earlier.count .alive = 0 :=
    List.count_eq_zero.2 fun hmem => by simpa [Fate.Over] using hover _ hmem
  rw [hthreads, List.count_append, hnone]
  cases l.ticker.worker <;> simp [Life.held]

theorem length_of_over {earlier : List Fate} (h : ∀ fate ∈ earlier, fate.Over) :
    earlier.length = earlier.count .joined + earlier.count .replaced := by
  induction earlier with
  | nil => rfl
  | cons fate earlier ih =>
    have hrest := ih fun fate hmem => h fate (List.mem_cons_of_mem _ hmem)
    rw [List.length_cons, List.count_cons, List.count_cons, hrest]
    rcases h fate List.mem_cons_self with rfl | rfl
    · simp
      omega
    · simp
      omega

/-- **Every thread was joined, was replaced, or is held.** -/
theorem Sound.started_eq (h : l.Sound) :
    l.ticker.started = l.ticker.joined + l.threads.count .replaced +
      if l.ticker.worker = .absent then 0 else 1 := by
  obtain ⟨earlier, hthreads, hover⟩ := h.held
  have hlength := length_of_over hover
  rw [h.started, h.joined, hthreads, List.length_append, List.count_append, List.count_append,
    hlength]
  cases l.ticker.worker with
  | absent => simp [Life.held]
  | alive | dead =>
    simp [Life.held]
    omega

/-! ### Starts, stops and deaths -/

theorem start_of_running (h : l.ticker.worker = .alive) : l.start = l := by
  have hrunning := running_iff.2 h
  simp only [start, Ticker.start, hrunning, if_true]

theorem start_of_not_running (h : l.ticker.worker ≠ .alive) :
    (l.start).ticker =
      { l.ticker with stopping := false, worker := .alive, started := l.ticker.started + 1 } ∧
    (l.start).threads = .alive :: l.threads.modifyHead Fate.replace := by
  have hidle : ¬ l.ticker.running = true := mt running_iff.1 h
  simp only [start, Ticker.start, if_neg hidle, and_self]

theorem stop_of_absent (h : l.ticker.worker = .absent) : l.stop = l := by
  simp only [stop, Ticker.stop, h, if_true]

theorem stop_of_held (h : l.ticker.worker ≠ .absent) :
    (l.stop).ticker =
      { l.ticker with stopping := true, worker := .absent, joined := l.ticker.joined + 1 } ∧
    (l.stop).threads = l.threads.modifyHead fun _ => .joined := by
  simp only [stop, Ticker.stop, if_neg h, and_self]

theorem modifyHead_of_over {earlier : List Fate} (h : ∀ fate ∈ earlier, fate.Over) {f : Fate → Fate}
    (hf : ∀ fate, fate.Over → f fate = fate) : earlier.modifyHead f = earlier := by
  cases earlier with
  | nil => rfl
  | cons fate earlier => rw [List.modifyHead_cons, hf fate (h fate List.mem_cons_self)]

theorem replace_of_over {fate : Fate} (h : fate.Over) : fate.replace = fate := by
  rcases h with rfl | rfl <;> rfl

theorem die_of_over {fate : Fate} (h : fate.Over) : fate.die = fate := by
  rcases h with rfl | rfl <;> rfl

theorem sound_fresh (period : τ) (rate : Except Fault Int) (timers : Countdown) (time : τ)
    (journal : Journal) : (fresh period rate timers time journal).Sound where
  held := ⟨[], rfl, by simp⟩
  started := rfl
  joined := rfl
  heeded := nofun

theorem Sound.start (h : l.Sound) : (l.start).Sound := by
  by_cases hrunning : l.ticker.worker = .alive
  · rwa [start_of_running hrunning]
  obtain ⟨hticker, hthreads⟩ := start_of_not_running hrunning
  obtain ⟨earlier, hheld, hover⟩ := h.held
  -- behind the new thread there is one more that is over, if a dead one was held
  obtain ⟨earlier', hreplaced, hover', hjoined⟩ : ∃ earlier',
      l.threads.modifyHead Fate.replace = earlier' ∧ (∀ fate ∈ earlier', fate.Over) ∧
        earlier'.count .joined = l.threads.count .joined := by
    cases hworker : l.ticker.worker with
    | absent =>
      rw [hworker] at hheld
      exact ⟨earlier, hheld ▸ modifyHead_of_over hover fun _ => replace_of_over, hover, hheld ▸ rfl⟩
    | alive => exact absurd hworker hrunning
    | dead =>
      rw [hworker] at hheld
      refine ⟨.replaced :: earlier, hheld ▸ rfl, ?_, ?_⟩
      · simpa [Fate.Over] using hover
      · simp [hheld, Life.held]
  have hlength : earlier'.length = l.threads.length := by rw [← hreplaced, List.length_modifyHead]
  rw [hreplaced] at hthreads
  exact {
    held := ⟨earlier', by rw [hthreads, hticker]; rfl, hover'⟩
    started := by rw [hticker, hthreads, List.length_cons, hlength, ← h.started]
    joined := by
      rw [hticker, hthreads, List.count_cons_of_ne (by decide), hjoined, ← h.joined]
    heeded := fun _ => by rw [hticker] }

theorem Sound.stop (h : l.Sound) : (l.stop).Sound := by
  by_cases habsent : l.ticker.worker = .absent
  · rwa [stop_of_absent habsent]
  obtain ⟨hticker, hthreads⟩ := stop_of_held habsent
  obtain ⟨earlier, hheld, hover⟩ := h.held
  have hover' : ∀ fate ∈ Fate.joined :: earlier, fate.Over := by simpa [Fate.Over] using hover
  obtain ⟨fate, hfate, hlatest⟩ : ∃ fate, fate ≠ .joined ∧ l.threads = fate :: earlier := by
    cases hworker : l.ticker.worker with
    | absent => exact absurd hworker habsent
    | alive => exact ⟨.alive, by decide, by rw [hheld, hworker]; rfl⟩
    | dead => exact ⟨.dead, by decide, by rw [hheld, hworker]; rfl⟩
  have hstarted := h.started
  have hjoined := h.joined
  rw [hlatest] at hthreads hstarted hjoined
  rw [List.count_cons_of_ne hfate] at hjoined
  exact {
    held := ⟨.joined :: earlier, by rw [hthreads, hticker]; rfl, hover'⟩
    started := by rw [hticker, hthreads]; exact hstarted
    joined := by
      rw [hticker, hthreads, List.modifyHead_cons, List.count_cons_self, ← hjoined]
    heeded := by rw [hticker]; nofun }

theorem Sound.die_of_not_running (h : l.Sound) (hidle : l.ticker.worker ≠ .alive) : l.die = l := by
  obtain ⟨earlier, hheld, hover⟩ := h.held
  have hticker : l.ticker.die = l.ticker := if_neg hidle
  have hthreads : l.threads.modifyHead Fate.die = l.threads := by
    cases hworker : l.ticker.worker with
    | absent =>
      rw [hworker] at hheld
      exact hheld ▸ modifyHead_of_over hover fun _ => die_of_over
    | alive => exact absurd hworker hidle
    | dead =>
      rw [hworker] at hheld
      rw [hheld]
      rfl
  rw [die, hticker, hthreads]

theorem Sound.die (h : l.Sound) : (l.die).Sound := by
  by_cases hrunning : l.ticker.worker = .alive
  · obtain ⟨earlier, hheld, hover⟩ := h.held
    rw [hrunning] at hheld
    have hticker : (l.die).ticker = { l.ticker with worker := .dead } := if_pos hrunning
    have hthreads : (l.die).threads = .dead :: earlier := by
      rw [Life.die, hheld]
      rfl
    have hstarted := h.started
    have hjoined := h.joined
    rw [hheld] at hstarted hjoined
    exact {
      held := ⟨earlier, by rw [hthreads, hticker]; rfl, hover⟩
      started := by rw [hticker, hthreads]; exact hstarted
      joined := by
        rw [hticker, hthreads, List.count_cons_of_ne (by decide)]
        simpa [Life.held] using hjoined
      heeded := by rw [hticker]; nofun }
  · rwa [h.die_of_not_running hrunning]

section Work

variable [Add τ] [Sub τ] [LT τ] [OfNat τ 0] [DecidableLT τ]

theorem Sound.perform (h : l.Sound) (deed : Deed τ) : (l.perform deed).Sound := by
  cases deed with
  | start | enter => exact h.start
  | stop | leave => exact h.stop
  | die => exact h.die
  | tick | work => exact ⟨h.held, h.started, h.joined, h.heeded⟩

/-- **Every life is sound**, whatever was done to the timer clock. -/
theorem Sound.after (h : l.Sound) (deeds : List (Deed τ)) : (l.after deeds).Sound := by
  induction deeds generalizing l with
  | nil => exact h
  | cons deed deeds ih => exact ih (h.perform deed)

theorem perform_of_starts (l : Life τ) {deed : Deed τ} (h : deed.Starts) :
    l.perform deed = l.start := by
  rcases h with rfl | rfl <;> rfl

theorem perform_of_stops (l : Life τ) {deed : Deed τ} (h : deed.Stops) :
    l.perform deed = l.stop := by
  rcases h with rfl | rfl <;> rfl

/-! ### Clocks that were stopped -/

theorem stopping_perform {deed : Deed τ} (h : ¬ deed.Starts)
    (hstopping : l.ticker.stopping = true) : (l.perform deed).ticker.stopping = true := by
  cases deed with
  | start => exact absurd (.inl rfl) h
  | enter => exact absurd (.inr rfl) h
  | stop | leave =>
    by_cases habsent : l.ticker.worker = .absent
    · exact (congrArg (·.ticker.stopping) (stop_of_absent habsent)).trans hstopping
    · exact congrArg Ticker.stopping (stop_of_held habsent).1
  | die =>
    refine Eq.trans ?_ hstopping
    unfold perform Life.die Ticker.die
    dsimp only
    split <;> rfl
  | tick | work => exact hstopping

theorem stopping_after {deeds : List (Deed τ)} (h : ∀ deed ∈ deeds, ¬ deed.Starts)
    (hstopping : l.ticker.stopping = true) : (l.after deeds).ticker.stopping = true := by
  induction deeds generalizing l with
  | nil => exact hstopping
  | cons deed deeds ih =>
    exact ih (fun deed hmem => h deed (List.mem_cons_of_mem _ hmem))
      (stopping_perform (h deed List.mem_cons_self) hstopping)

theorem work_of_stopping (h : l.ticker.stopping = true) (late : List τ) :
    (l.ticker.work late l.time l.timers).ticks = [] ∧ l.work late = l := by
  simp [work, Ticker.work, h, workFrom]

/-- **One thread at a time.**  Whatever was done to a timer clock, in whatever order: no two of its
threads run at a time, and while one runs the clock has not been asked to stop.  A start creates one
thread if none runs, and does nothing otherwise; a stop joins the thread that is held, whether it
runs or is dead, after which none is held, and does nothing if none is held.  Every thread that was
started was joined, once, or died and was replaced, or is held.  And a clock whose thread was joined
does not tick, if the body of its thread is executed, before it is started again. -/
theorem one_thread_at_a_time (period : τ) (rate : Except Fault Int) (timers : Countdown) (time : τ)
    (journal : Journal) (deeds : List (Deed τ)) :
    let l := (fresh period rate timers time journal).after deeds
    l.threads.count .alive ≤ 1 ∧
    (l.ticker.running = true ↔ .alive ∈ l.threads) ∧
    (l.ticker.running = true → l.ticker.stopping = false) ∧
    (∀ deed : Deed τ, deed.Starts →
      (.alive ∈ l.threads → l.perform deed = l) ∧
      (.alive ∉ l.threads →
        (l.perform deed).ticker.started = l.ticker.started + 1 ∧
        (l.perform deed).threads.length = l.threads.length + 1 ∧
        (l.perform deed).ticker.running = true)) ∧
    (∀ deed : Deed τ, deed.Stops →
      (l.ticker.worker = .absent → l.perform deed = l) ∧
      (l.ticker.worker ≠ .absent →
        (l.perform deed).ticker.joined = l.ticker.joined + 1 ∧
        (l.perform deed).ticker.started = l.ticker.started ∧
        (l.perform deed).ticker.running = false ∧
        ∀ more : List (Deed τ), (∀ deed ∈ more, ¬ deed.Starts) →
          let later := (l.perform deed).after more
          ∀ late, (later.ticker.work late later.time later.timers).ticks = [] ∧
            later.perform (.work late) = later)) ∧
    l.ticker.started = l.threads.length ∧
    l.ticker.joined = l.threads.count .joined ∧
    l.ticker.started = l.ticker.joined + l.threads.count .replaced +
      if l.ticker.worker = .absent then 0 else 1 := by
  intro l
  have hsound : l.Sound := (sound_fresh period rate timers time journal).after deeds
  have hrunning : l.ticker.running = true ↔ .alive ∈ l.threads :=
    running_iff.trans hsound.alive_mem_iff.symm
  refine ⟨hsound.count_alive_le, hrunning, fun h => hsound.heeded (running_iff.1 h),
    fun deed hdeed => ?_, fun deed hdeed => ?_, hsound.started, hsound.joined, hsound.started_eq⟩
  · rw [perform_of_starts l hdeed]
    refine ⟨fun halive => start_of_running (hsound.alive_mem_iff.1 halive), fun hidle => ?_⟩
    obtain ⟨hticker, hthreads⟩ := start_of_not_running (mt hsound.alive_mem_iff.2 hidle)
    refine ⟨by rw [hticker], ?_, by rw [hticker]; rfl⟩
    rw [hthreads, List.length_cons, List.length_modifyHead]
  · rw [perform_of_stops l hdeed]
    refine ⟨stop_of_absent, fun hheld => ?_⟩
    obtain ⟨hticker, -⟩ := stop_of_held hheld
    refine ⟨by rw [hticker], by rw [hticker], by rw [hticker]; rfl, fun more hmore => ?_⟩
    exact work_of_stopping (stopping_after hmore (by rw [hticker]))

end Work

/-- A clock is started twice, its thread dies, and then it is entered, stopped and entered again. -/
def restarts : List (Deed Int) :=
  [.start, .start, .work [0], .die, .enter, .stop, .work [0, 0], .enter]

/-- That makes three threads: one was replaced, one was joined, and one runs.  Another start makes
none, and when the block is left the clock does not tick any more. -/
theorem three_threads_add_up :
    let l := (fresh 1 (.ok 1) {} 0 {}).after restarts
    l.threads = [.alive, .joined, .replaced] ∧ l.threads.count .alive ≤ 1 ∧
    l.ticker.stopping = false ∧ l.perform .start = l ∧
    3 = l.ticker.joined + l.threads.count .replaced + 1 ∧
    (l.perform .leave).ticker.joined = 2 ∧
    ((l.perform .leave).perform .tick).perform (.work [0, 0]) =
      (l.perform .leave).perform .tick := by
  intro l
  have halive : .alive ∈ l.threads := by decide
  have hheld : l.ticker.worker ≠ .absent := by decide
  obtain ⟨hcount, hrunning, hheeded, hstart, hstop, -, -, hsum⟩ :=
    one_thread_at_a_time 1 (.ok 1) {} 0 {} restarts
  obtain ⟨hjoined, -, -, hquiet⟩ := (hstop .leave (.inr rfl)).2 hheld
  have htick : ∀ deed ∈ [Deed.tick (τ := Int)], ¬ deed.Starts := by simp [Deed.Starts]
  exact ⟨rfl, hcount, hheeded (hrunning.2 halive), (hstart .start (.inl rfl)).1 halive, hsum,
    hjoined, (hquiet [.tick] htick [0, 0]).2⟩

end Life

end Ticker

end Chip8

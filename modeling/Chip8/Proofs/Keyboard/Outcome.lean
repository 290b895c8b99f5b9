import Chip8.Proofs.Keyboard.Delivery

/-!
# How a key wait ends, and what it costs

A key wait that finds a fresh key-down takes it and does nothing else.  Otherwise events arrive in
*batches*: those of its first poll, those after its first nap, those of its second poll, and so on
(`Surroundings.batch`).  The wait ends with the first batch that brings a key-down, or at the first
question that is answered by a wish to leave if that comes before, and until then each round polls,
asks and naps once.

`Surroundings.afterBatches` is what the batches bring about, told without the wait, and
`Surroundings.wait_outcome` says in these terms how a wait ends and how often it has polled, asked
and napped.
-/

namespace Chip8

namespace Keyboard

variable {τ : Type} {k : Keyboard}

/-- The key-downs that events bring: the presses of keys that are up at the time. -/
def keyDowns (k : Keyboard) : List (Event τ) → List KeyDown
  | [] => []
  | e :: events =>
    match deed? e with
    | none => k.keyDowns events
    | some deed => k.arrivals deed ++ (k.perform deed).keyDowns events

/-- The key-downs that are still fresh. -/
def freshDowns (k : Keyboard) : List KeyDown := k.downs.filter fun d => k.cycle ≤ d.cycle + 1

/-! ### The queue after a batch -/

theorem latest_of_length_le {downs : List KeyDown} (h : downs.length ≤ capacity) :
    latest downs = downs := by
  rw [latest, Nat.sub_eq_zero_of_le h, List.drop_zero]

theorem latest_eq_nil {downs : List KeyDown} : latest downs = [] ↔ downs = [] := by
  rw [← List.length_eq_zero_iff, length_latest, ← List.length_eq_zero_iff]
  simp [capacity]

theorem latest_latest_append (downs more : List KeyDown) :
    latest (latest downs ++ more) = latest (downs ++ more) := by
  have hle : downs.length - capacity ≤ downs.length := Nat.sub_le _ _
  simp only [latest]
  rw [← List.drop_append_of_le_length hle, List.drop_drop, List.length_drop, List.length_append]
  congr 1
  omega

theorem press_downs (h : k.downs.length ≤ capacity) (key : Int) :
    (k.press key).downs = latest (k.downs ++ k.arrivals (.press key)) := by
  by_cases hnew : IsKey key ∧ k.isPressed key = false
  · rw [press_downs_of_new hnew.1 hnew.2, arrivals, if_pos hnew]
  · rw [press_downs_of_not_new hnew, arrivals, if_neg hnew, List.append_nil, latest_of_length_le h]

/-- The queue after a batch ends with the key-downs that the batch has brought. -/
theorem downs_foldl_deedsOf (h : k.downs.length ≤ capacity) (events : List (Event τ)) :
    ((deedsOf events).foldl perform k).downs = latest (k.downs ++ k.keyDowns events) := by
  induction events generalizing k with
  | nil => simp [deedsOf, keyDowns, latest_of_length_le h]
  | cons e events ih =>
    cases e with
    | press key =>
      have hdowns := press_downs h key
      have hshort : (k.press key).downs.length ≤ capacity := by
        rw [hdowns, length_latest]
        exact Nat.min_le_right _ _
      refine (ih hshort).trans ?_
      rw [hdowns, latest_latest_append, List.append_assoc]
      rfl
    | release key =>
      refine (ih (k := k.release key) (by rwa [release_downs])).trans ?_
      rw [release_downs]
      rfl
    | tick | exit | stay | advance | toggleDetails => exact ih h

/-- The stale key-downs of a queue stand at its front, for stamps never go back. -/
theorem Chronicled.downs_dropStale (h : k.Chronicled) : k.dropStale.downs = k.freshDowns := by
  obtain ⟨deeds, rfl⟩ := h
  have hsound := Chronicle.sound_of deeds
  generalize Chronicle.of deeds = c at hsound
  have hsorted := hsound.sorted.sublist hsound.suffix.sublist
  simp only [dropStale, freshDowns]
  generalize c.keyboard.cycle = cycle
  generalize c.keyboard.downs = downs at hsorted
  induction hsorted with
  | nil => rfl
  | @cons d downs hle _ ih =>
    by_cases hstale : d.cycle + 1 < cycle
    · rw [List.dropWhile_cons_of_pos (by simpa using hstale),
        List.filter_cons_of_neg (by simpa using hstale)]
      exact ih
    · rw [List.dropWhile_cons_of_neg (by simpa using hstale), List.filter_eq_self.2]
      intro e he
      rcases List.mem_cons.1 he with rfl | he
      · simpa using hstale
      · have := hle e he
        simp only [decide_eq_true_eq]
        omega

end Keyboard

namespace Surroundings

variable {κ τ : Type} [Clock κ τ] {a : Attendant τ} {s t after : Surroundings κ} {result : Waited}
  {n room : Nat}

/-! ### Batches -/

/-- The batches of events of a key wait that begins here, counted from nought: those with even
numbers arrive at its polls, those with odd numbers after its naps. -/
def batch (a : Attendant τ) (s : Surroundings κ) (i : Nat) : List (Event τ) :=
  if i % 2 = 0 then if a.polled then a.feed.atPoll (s.polls + i / 2 + 1) else []
  else a.feed.atNap (s.naps + i / 2 + 1)

/-- What the first so many batches bring about, stale key-downs having been dropped. -/
def afterBatches (a : Attendant τ) (s : Surroundings κ) : Nat → Surroundings κ
  | 0 => s.freshen
  | i + 1 => (afterBatches a s i).deliver (s.batch a i)

/-- The key-downs that a batch brings. -/
def downsIn (a : Attendant τ) (s : Surroundings κ) (i : Nat) : List KeyDown :=
  (s.afterBatches a i).keyboard.keyDowns (s.batch a i)

/-- The wait asks whether to leave, and the answer behind its poll number `n`, counted from nought,
is yes. -/
def LeavesAt (a : Attendant τ) (s : Surroundings κ) (n : Nat) : Prop :=
  a.heeded = true ∧ (s.afterBatches a (2 * n + 1)).exitRequested = true

/-- In the first batches no key goes down. -/
def SilentFor (a : Attendant τ) (s : Surroundings κ) (i : Nat) : Prop :=
  ∀ j < i, s.downsIn a j = []

theorem SilentFor.mono {i j : Nat} (h : s.SilentFor a i) (hj : j ≤ i) :
    s.SilentFor a j :=
  fun k hk => h k (Nat.lt_of_lt_of_le hk hj)

theorem SilentFor.succ (h : s.SilentFor a n) (hn : s.downsIn a n = []) :
    s.SilentFor a (n + 1) := by
  intro i hi
  rcases Nat.lt_succ_iff_lt_or_eq.1 hi with hlt | rfl
  · exact h i hlt
  · exact hn

theorem downs_afterBatches_succ {i : Nat} (h : (s.afterBatches a i).keyboard.downs = []) :
    (s.afterBatches a (i + 1)).keyboard.downs = Keyboard.latest (s.downsIn a i) := by
  rw [afterBatches, deliver_keyboard, Keyboard.downs_foldl_deedsOf (by simp [h]), h]
  rfl

theorem SilentFor.downs_eq_nil {i : Nat} (h : s.SilentFor a i)
    (hs : s.freshen.keyboard.downs = []) : (s.afterBatches a i).keyboard.downs = [] := by
  induction i with
  | zero => exact hs
  | succ i ih =>
    rw [downs_afterBatches_succ (ih (h.mono (Nat.le_succ i))), h i (Nat.lt_succ_self i)]
    rfl

theorem afterBatches_patient (patience i : Nat) :
    s.afterBatches { a with patience } i = s.afterBatches a i := by
  induction i with
  | zero => rfl
  | succ i ih => rw [afterBatches, ih]; rfl

/-! ### Rounds without a result -/

/-- A round without a result, and the nap behind it. -/
def idle (a : Attendant τ) (s : Surroundings κ) : Surroundings κ :=
  ((s.pollFor a).askFor a).2.nap a.feed a.interval

/-- What so many rounds without a result, and the naps behind them, leave of a key wait that began
here. -/
structure Idled (a : Attendant τ) (s : Surroundings κ) (n : Nat) (t : Surroundings κ) : Prop where
  /-- Two batches have arrived in each. -/
  alike : t.Alike (s.afterBatches a (2 * n))
  /-- Each has polled. -/
  polls : t.polls = s.polls + if a.polled then n else 0
  /-- Each has asked. -/
  checks : t.checks = s.checks + if a.heeded then n else 0
  /-- Each has napped. -/
  naps : t.naps = s.naps + n

theorem idled_freshen (a : Attendant τ) (s : Surroundings κ) : Idled a s 0 s.freshen where
  alike := Alike.refl _
  polls := by simp [freshen]
  checks := by simp [freshen]
  naps := rfl

theorem Idled.polled (h : Idled a s n t) :
    (t.pollFor a).Alike (s.afterBatches a (2 * n + 1)) := by
  have hevents : t.pollEvents a = s.batch a (2 * n) := by
    have heven : 2 * n % 2 = 0 := by omega
    have hhalf : 2 * n / 2 = n := by omega
    rw [batch, if_pos heven, pollEvents, h.polls, hhalf]
    split <;> rfl
  rw [afterBatches, ← hevents]
  exact (pollFor_alike a t).trans (h.alike.deliver _)

theorem Idled.idle (h : Idled a s n t) : Idled a s (n + 1) (t.idle a) where
  alike := by
    have hasked := (askFor_alike a (t.pollFor a)).trans h.polled
    have hevents : a.feed.atNap (((t.pollFor a).askFor a).2.naps + 1) = s.batch a (2 * n + 1) := by
      rw [batch, if_neg (by omega), askFor_naps, pollFor_naps, h.naps]
      congr 2
      omega
    have hnap := nap_alike a ((t.pollFor a).askFor a).2
    rw [hevents] at hnap
    exact hnap.trans (hasked.deliver _)
  polls := by
    rw [Surroundings.idle, nap_polls, askFor_polls, pollFor_polls, h.polls]
    split <;> omega
  checks := by
    rw [Surroundings.idle, nap_checks, askFor_checks, pollFor_checks, h.checks]
    split <;> omega
  naps := by
    rw [Surroundings.idle, nap_naps, askFor_naps, pollFor_naps, h.naps]
    omega

omit [Clock κ τ] in
theorem askFor_eq_true_iff :
    (s.askFor a).1 = true ↔ a.heeded = true ∧ s.exitRequested = true := by
  unfold askFor
  split
  · next h => simp [h]
  · next h => simp [h]

theorem Idled.leaves_iff (h : Idled a s n t) :
    ((t.pollFor a).askFor a).1 = true ↔ s.LeavesAt a n := by
  rw [askFor_eq_true_iff, h.polled.exitRequested]
  rfl

theorem Idled.downs_polled (h : Idled a s n t) (hsilent : s.SilentFor a (2 * n))
    (hs : s.freshen.keyboard.downs = []) :
    (t.pollFor a).keyboard.downs = Keyboard.latest (s.downsIn a (2 * n)) := by
  rw [h.polled.keyboard, downs_afterBatches_succ (hsilent.downs_eq_nil hs)]

/-- A key-down in a poll ends the wait, whether or not the user wants to leave. -/
theorem Idled.waitRound_of_key (h : Idled a s n t) (hsilent : s.SilentFor a (2 * n))
    (hs : s.freshen.keyboard.downs = []) {d : KeyDown} {rest : List KeyDown}
    (hd : Keyboard.latest (s.downsIn a (2 * n)) = d :: rest) :
    t.waitRound a =
      (some (.key d.key),
        { t.pollFor a with keyboard := { (t.pollFor a).keyboard with downs := rest } }) := by
  refine waitRound_of_polled a ?_ ?_
  · rw [h.alike.keyboard, hsilent.downs_eq_nil hs]
  · rw [h.downs_polled hsilent hs, hd]

theorem Idled.waitRound_of_silent (h : Idled a s n t) (hsilent : s.SilentFor a (2 * n + 1))
    (hs : s.freshen.keyboard.downs = []) :
    t.waitRound a =
      (if ((t.pollFor a).askFor a).1 then some .cancelled else none,
        ((t.pollFor a).askFor a).2) := by
  have hearlier : s.SilentFor a (2 * n) := hsilent.mono (Nat.le_succ _)
  refine Surroundings.waitRound_of_silent a ?_ ?_
  · rw [h.alike.keyboard, hearlier.downs_eq_nil hs]
  · rw [h.downs_polled hearlier hs, hsilent (2 * n) (Nat.lt_succ_self _)]
    rfl

/-! ### The whole wait -/

theorem waitRounds_of_result (h : s.waitRound a = (some result, after)) (room : Nat) :
    s.waitRounds a room = (result, after) := by
  cases room <;> simp only [waitRounds, h]

/-- **As long as no key goes down and the user does not want to leave, round follows upon round.**
What the last nap brings does not matter yet. -/
theorem exists_idled (hs : s.freshen.keyboard.downs = []) (hsilent : s.SilentFor a (2 * n - 1))
    (hstays : ∀ m < n, ¬ s.LeavesAt a m) :
    ∃ t, Idled a s n t ∧ ∀ room, s.freshen.waitRounds a (room + n) = t.waitRounds a room := by
  induction n with
  | zero => exact ⟨s.freshen, idled_freshen a s, fun _ => rfl⟩
  | succ n ih =>
    obtain ⟨t, hidled, hrounds⟩ := ih (hsilent.mono (by omega))
      fun m hm => hstays m (Nat.lt_succ_of_lt hm)
    refine ⟨t.idle a, hidled.idle, fun room => ?_⟩
    have hasked : ((t.pollFor a).askFor a).1 = false :=
      Bool.eq_false_iff.2 fun h => hstays n (Nat.lt_succ_self n) (hidled.leaves_iff.1 h)
    have hround := hidled.waitRound_of_silent (hsilent.mono (by omega)) hs
    rw [hasked] at hround
    have hcount : room + (n + 1) = room + 1 + n := by omega
    rw [hcount, hrounds, waitRounds, hround]
    rfl

/-- The wait ends in this way and leaves these key-downs in the queue, having polled, asked and
napped so often; a wait that does not poll or does not ask at all has not done so. -/
structure Ends (a : Attendant τ) (s : Surroundings κ) (result : Waited) (queue : List KeyDown)
    (polls checks naps : Nat) : Prop where
  /-- The result. -/
  result : (s.waitForKey a).1 = result
  /-- The key-downs that still wait. -/
  queue : (s.waitForKey a).2.keyboard.downs = queue
  /-- The polls. -/
  polls : (s.waitForKey a).2.polls = s.polls + if a.polled then polls else 0
  /-- The questions whether to leave. -/
  checks : (s.waitForKey a).2.checks = s.checks + if a.heeded then checks else 0
  /-- The naps. -/
  naps : (s.waitForKey a).2.naps = s.naps + naps

/-- The wait has gone through so many rounds and their naps, and the rest of it is still to come. -/
theorem exists_rest (hs : s.freshen.keyboard.downs = []) (hroom : n ≤ a.patience - s.naps)
    (hsilent : s.SilentFor a (2 * n - 1)) (hstays : ∀ m < n, ¬ s.LeavesAt a m) :
    ∃ t, Idled a s n t ∧ s.waitForKey a = t.waitRounds a (a.patience - s.naps - n) := by
  obtain ⟨t, hidled, hrounds⟩ := exists_idled hs hsilent hstays
  refine ⟨t, hidled, ?_⟩
  rw [← hrounds, Nat.sub_add_cancel hroom]
  rfl

theorem exists_wait_of_poll (hs : s.freshen.keyboard.downs = []) (hroom : n ≤ a.patience - s.naps)
    (hsilent : s.SilentFor a (2 * n)) (hstays : ∀ m < n, ¬ s.LeavesAt a m) {d : KeyDown}
    {rest : List KeyDown} (hd : Keyboard.latest (s.downsIn a (2 * n)) = d :: rest) :
    ∃ t, Idled a s n t ∧ s.waitForKey a =
      (.key d.key,
        { t.pollFor a with keyboard := { (t.pollFor a).keyboard with downs := rest } }) := by
  obtain ⟨t, hidled, hwait⟩ := exists_rest hs hroom (hsilent.mono (Nat.sub_le _ 1)) hstays
  exact ⟨t, hidled,
    hwait.trans (waitRounds_of_result (hidled.waitRound_of_key hsilent hs hd) _)⟩

theorem ends_of_poll (hs : s.freshen.keyboard.downs = []) (hroom : n ≤ a.patience - s.naps)
    (hsilent : s.SilentFor a (2 * n)) (hstays : ∀ m < n, ¬ s.LeavesAt a m) {d : KeyDown}
    {rest : List KeyDown} (hd : Keyboard.latest (s.downsIn a (2 * n)) = d :: rest) :
    Ends a s (.key d.key) rest (n + 1) n n := by
  obtain ⟨t, hidled, hwait⟩ := exists_wait_of_poll hs hroom hsilent hstays hd
  constructor <;> simp only [hwait]
  · rw [pollFor_polls, hidled.polls]
    split <;> omega
  · rw [pollFor_checks, hidled.checks]
  · rw [pollFor_naps, hidled.naps]

theorem ends_of_nap (hs : s.freshen.keyboard.downs = []) (hroom : n + 1 ≤ a.patience - s.naps)
    (hsilent : s.SilentFor a (2 * n + 1)) (hstays : ∀ m < n + 1, ¬ s.LeavesAt a m) {d : KeyDown}
    {rest : List KeyDown} (hd : Keyboard.latest (s.downsIn a (2 * n + 1)) = d :: rest) :
    Ends a s (.key d.key) rest (n + 1) (n + 1) (n + 1) := by
  obtain ⟨t, hidled, hwait⟩ := exists_rest hs hroom (hsilent.mono (by omega)) hstays
  -- what the nap has brought is in the queue when the next round begins
  have hqueue : t.keyboard.downs = d :: rest := by
    rw [hidled.alike.keyboard, ← hd]
    exact downs_afterBatches_succ (hsilent.downs_eq_nil hs)
  rw [waitRounds_of_result (waitRound_of_cons a hqueue)] at hwait
  constructor <;> simp only [hwait]
  · exact hidled.polls
  · exact hidled.checks
  · exact hidled.naps

theorem exists_wait_of_leaving (hs : s.freshen.keyboard.downs = [])
    (hroom : n ≤ a.patience - s.naps) (hsilent : s.SilentFor a (2 * n + 1))
    (hstays : ∀ m < n, ¬ s.LeavesAt a m) (hleaves : s.LeavesAt a n) :
    ∃ t, Idled a s n t ∧ s.waitForKey a = (.cancelled, ((t.pollFor a).askFor a).2) := by
  obtain ⟨t, hidled, hwait⟩ := exists_rest hs hroom (hsilent.mono (by omega)) hstays
  have hround := hidled.waitRound_of_silent hsilent hs
  rw [if_pos (hidled.leaves_iff.2 hleaves)] at hround
  exact ⟨t, hidled, hwait.trans (waitRounds_of_result hround _)⟩

theorem ends_of_leaving (hs : s.freshen.keyboard.downs = []) (hroom : n ≤ a.patience - s.naps)
    (hsilent : s.SilentFor a (2 * n + 1)) (hstays : ∀ m < n, ¬ s.LeavesAt a m)
    (hleaves : s.LeavesAt a n) : Ends a s .cancelled [] (n + 1) (n + 1) n := by
  obtain ⟨t, hidled, hwait⟩ := exists_wait_of_leaving hs hroom hsilent hstays hleaves
  have hqueue : (t.pollFor a).keyboard.downs = [] := by
    rw [hidled.polled.keyboard, hsilent.downs_eq_nil hs]
  constructor <;> simp only [hwait]
  · rw [(askFor_alike a _).keyboard, hqueue]
  · rw [askFor_polls, pollFor_polls, hidled.polls]
    split <;> omega
  · rw [askFor_checks, pollFor_checks, hidled.checks]
    split <;> omega
  · rw [askFor_naps, pollFor_naps, hidled.naps]

/-- A wait in which nothing comes to pass ends only when its attendant loses patience. -/
theorem waitForKey_of_nothing (hs : s.freshen.keyboard.downs = [])
    (hsilent : ∀ i, s.downsIn a i = []) (hstays : ∀ m, ¬ s.LeavesAt a m) :
    (s.waitForKey a).1 = .exhausted := by
  obtain ⟨t, hidled, hwait⟩ :=
    exists_rest hs (Nat.le_refl _) (fun i _ => hsilent i) fun m _ => hstays m
  have hround := hidled.waitRound_of_silent (fun i _ => hsilent i) hs
  rw [if_neg fun h => hstays _ (hidled.leaves_iff.1 h)] at hround
  rw [hwait, Nat.sub_self, waitRounds, hround]

/-- **How a key wait ends, and what it costs.**  The fresh key-downs of a keyboard with a history
are what is left of its queue when the stale ones at the front are dropped.  If there are any, a key
wait takes the oldest at once, and nothing else happens.

Otherwise let the rounds of the wait be counted from nought, and let the attendant have patience for
the naps in question.  If the first key-down comes with the poll of round `n`, and the user has not
asked to leave in an earlier round, the wait takes the oldest of the last 16 key-downs that this
poll brings, whether or not the user now asks to leave; it has polled `n + 1` times, and asked and
napped `n` times.  If the first key-down comes with the nap of round `n`, and the user has not asked
to leave up to then, the wait takes the oldest of the last 16 key-downs that this nap brings, after
`n + 1` polls, questions and naps.  If the user asks to leave in round `n`, and no key-down came
before, the wait is cancelled after `n + 1` polls and questions and `n` naps.  And if none of this
ever happens, the wait does not end, however patient its attendant is. -/
theorem wait_outcome (a : Attendant τ) (s : Surroundings κ) (hs : s.keyboard.Chronicled) :
    s.keyboard.dropStale.downs = s.keyboard.freshDowns ∧
    (∀ d rest, s.keyboard.freshDowns = d :: rest →
      s.waitForKey a = (.key d.key, { s with keyboard := { s.keyboard with downs := rest } })) ∧
    (s.keyboard.freshDowns = [] →
      (∀ n d rest, n ≤ a.patience - s.naps → s.SilentFor a (2 * n) →
        (∀ m < n, ¬ s.LeavesAt a m) → Keyboard.latest (s.downsIn a (2 * n)) = d :: rest →
        Ends a s (.key d.key) rest (n + 1) n n) ∧
      (∀ n d rest, n + 1 ≤ a.patience - s.naps → s.SilentFor a (2 * n + 1) →
        (∀ m < n + 1, ¬ s.LeavesAt a m) → Keyboard.latest (s.downsIn a (2 * n + 1)) = d :: rest →
        Ends a s (.key d.key) rest (n + 1) (n + 1) (n + 1)) ∧
      (∀ n, n ≤ a.patience - s.naps → s.SilentFor a (2 * n + 1) →
        (∀ m < n, ¬ s.LeavesAt a m) → s.LeavesAt a n →
        Ends a s .cancelled [] (n + 1) (n + 1) n) ∧
      ((∀ i, s.downsIn a i = []) → (∀ n, ¬ s.LeavesAt a n) →
        ∀ patience, (s.waitForKey { a with patience }).1 = .exhausted)) := by
  have hfresh := hs.downs_dropStale
  refine ⟨hfresh, fun d rest h => ?_, fun h => ?_⟩
  · exact waitForKey_of_cons a (hfresh.trans h)
  · have hnone : s.freshen.keyboard.downs = [] := hfresh.trans h
    refine ⟨fun n d rest hroom hsilent hstays hd => ends_of_poll hnone hroom hsilent hstays hd,
      fun n d rest hroom hsilent hstays hd => ends_of_nap hnone hroom hsilent hstays hd,
      fun n hroom hsilent hstays hleaves => ends_of_leaving hnone hroom hsilent hstays hleaves,
      fun hsilent hstays patience => ?_⟩
    have hbatches := fun i => s.afterBatches_patient (a := a) patience i
    refine waitForKey_of_nothing hnone (fun i => ?_) fun m hleaves => hstays m ⟨hleaves.1, ?_⟩
    · rw [downsIn, hbatches]
      exact hsilent i
    · rw [← hbatches]
      exact hleaves.2

/-- The second poll brings a key-down and the wish to leave. -/
def hurried : Attendant Nat where
  feed := { atPoll := fun n => if n = 2 then [.press 5, .exit] else [] }
  interval := 1
  patience := 3

/-- Surroundings in which nothing has happened yet. -/
def untouched : Surroundings (VirtualClock Nat) := { clock := ⟨0, 0, 0⟩ }

/-- A key-down that comes together with the wish to leave is taken. -/
theorem key_before_leaving :
    untouched.keyboard.Chronicled ∧ untouched.keyboard.freshDowns = [] ∧
      untouched.SilentFor hurried 2 ∧ ¬ untouched.LeavesAt hurried 0 ∧
      untouched.LeavesAt hurried 1 ∧ Ends hurried untouched (.key 5) [] 2 1 1 := by
  have hsilent : untouched.SilentFor hurried 2 := by
    intro i hi
    have hcases : i = 0 ∨ i = 1 := by omega
    rcases hcases with rfl | rfl <;> rfl
  have hstays : ¬ untouched.LeavesAt hurried 0 := by
    rintro ⟨-, hexit⟩
    exact Bool.false_ne_true hexit
  refine ⟨Keyboard.chronicled_empty, rfl, hsilent, hstays, ⟨rfl, rfl⟩, ?_⟩
  refine ((wait_outcome hurried untouched Keyboard.chronicled_empty).2.2 rfl).1 1 ⟨5, 0⟩ []
    (by decide) hsilent (fun m hm => ?_) rfl
  rwa [Nat.lt_one_iff.1 hm]

end Surroundings

end Chip8

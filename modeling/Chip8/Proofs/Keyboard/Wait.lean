import Chip8.KeyWait
import Chip8.Proofs.Keyboard.Chronicle

/-!
# What a key wait comes to

A key wait polls and naps, and events arrive while it does so.  `Surroundings.waitEvents` lists
these events in order.  Apart from the clock and the counts, the wait leaves the surroundings as if
all of them had simply happened and the wait had then looked at the queue once
(`Surroundings.answers_waitRounds`).

For the keyboard this means that a key wait is a row of deeds: drop what is stale, let the events
happen, take the oldest key-down (`Surroundings.keyboard_waitForKey`).
-/

namespace Chip8

/-- The key that a wait brought. -/
def Waited.key? : Waited → Option Nat
  | .key k => some k
  | .cancelled | .exhausted => none

namespace Surroundings

variable {κ τ : Type} [Clock κ τ] {s t u : Surroundings κ}

/-- The surroundings differ at most in their clocks and in what they count. -/
structure Alike (s t : Surroundings κ) : Prop where
  /-- The keyboards are the same. -/
  keyboard : s.keyboard = t.keyboard
  /-- The timers are the same. -/
  timers : s.timers = t.timers
  /-- Both or neither have been asked to leave. -/
  exitRequested : s.exitRequested = t.exitRequested
  /-- The journals are the same. -/
  journal : s.journal = t.journal

theorem Alike.refl (s : Surroundings κ) : s.Alike s := ⟨rfl, rfl, rfl, rfl⟩

theorem Alike.trans (h : s.Alike t) (h' : t.Alike u) : s.Alike u :=
  ⟨h.keyboard.trans h'.keyboard, h.timers.trans h'.timers,
    h.exitRequested.trans h'.exitRequested, h.journal.trans h'.journal⟩

theorem Alike.occur (h : s.Alike t) (e : Event τ) : (s.occur e).Alike (t.occur e) := by
  obtain ⟨hk, ht, he, hj⟩ := h
  cases e <;> constructor <;> simp [Surroundings.occur, hk, ht, he, hj]

theorem Alike.deliver (h : s.Alike t) (events : List (Event τ)) :
    (s.deliver events).Alike (t.deliver events) := by
  induction events generalizing s t with
  | nil => exact h
  | cons e events ih => exact ih (h.occur e)

theorem deliver_append (s : Surroundings κ) (events more : List (Event τ)) :
    s.deliver (events ++ more) = (s.deliver events).deliver more :=
  List.foldl_append

/-! ### What events leave alone -/

@[simp] theorem occur_polls (s : Surroundings κ) (e : Event τ) : (s.occur e).polls = s.polls := by
  cases e <;> rfl

@[simp] theorem deliver_polls (s : Surroundings κ) (events : List (Event τ)) :
    (s.deliver events).polls = s.polls := by
  induction events generalizing s with
  | nil => rfl
  | cons e events ih => exact (ih (s.occur e)).trans (occur_polls s e)

@[simp] theorem occur_naps (s : Surroundings κ) (e : Event τ) : (s.occur e).naps = s.naps := by
  cases e <;> rfl

@[simp] theorem deliver_naps (s : Surroundings κ) (events : List (Event τ)) :
    (s.deliver events).naps = s.naps := by
  induction events generalizing s with
  | nil => rfl
  | cons e events ih => exact (ih (s.occur e)).trans (occur_naps s e)

@[simp] theorem occur_checks (s : Surroundings κ) (e : Event τ) :
    (s.occur e).checks = s.checks := by
  cases e <;> rfl

@[simp] theorem deliver_checks (s : Surroundings κ) (events : List (Event τ)) :
    (s.deliver events).checks = s.checks := by
  induction events generalizing s with
  | nil => rfl
  | cons e events ih => exact (ih (s.occur e)).trans (occur_checks s e)

theorem occur_keyboard (s : Surroundings κ) (e : Event τ) :
    (s.occur e).keyboard = ((Keyboard.deed? e).elim s.keyboard s.keyboard.perform) := by
  cases e <;> rfl

theorem deliver_keyboard (s : Surroundings κ) (events : List (Event τ)) :
    (s.deliver events).keyboard =
      (Keyboard.deedsOf events).foldl Keyboard.perform s.keyboard := by
  induction events generalizing s with
  | nil => rfl
  | cons e events ih =>
    refine (ih (s.occur e)).trans ?_
    rw [occur_keyboard, Keyboard.deedsOf, Keyboard.deedsOf, List.filterMap_cons]
    cases Keyboard.deed? e <;> rfl

/-! ### Polls and naps of a key wait -/

/-- The events of the next poll of a key wait, if the wait polls at all. -/
def pollEvents (a : Attendant τ) (s : Surroundings κ) : List (Event τ) :=
  if a.polled then a.feed.atPoll (s.polls + 1) else []

theorem poll_alike (feed : Feed τ) (s : Surroundings κ) :
    (s.poll feed).Alike (s.deliver (feed.atPoll (s.polls + 1))) :=
  Alike.deliver (s := { s with polls := s.polls + 1 }) (t := s) ⟨rfl, rfl, rfl, rfl⟩ _

theorem poll_of_nothing {feed : Feed τ} (h : feed.atPoll (s.polls + 1) = []) :
    s.poll feed = { s with polls := s.polls + 1 } := by
  rw [poll, h]
  rfl

theorem pollFor_alike (a : Attendant τ) (s : Surroundings κ) :
    (s.pollFor a).Alike (s.deliver (s.pollEvents a)) := by
  unfold pollFor pollEvents
  split
  · exact poll_alike a.feed s
  · exact Alike.refl s

omit [Clock κ τ] in
theorem askFor_alike (a : Attendant τ) (s : Surroundings κ) : (s.askFor a).2.Alike s := by
  unfold askFor
  split <;> exact ⟨rfl, rfl, rfl, rfl⟩

theorem sleep_alike (interval : τ) (s : Surroundings κ) : (s.sleep interval).Alike s :=
  ⟨rfl, rfl, rfl, rfl⟩

theorem nap_alike (a : Attendant τ) (s : Surroundings κ) :
    (s.nap a.feed a.interval).Alike (s.deliver (a.feed.atNap (s.naps + 1))) :=
  (sleep_alike a.interval s).deliver _

/-! ### What polls, questions and naps count -/

theorem pollFor_polls (a : Attendant τ) (s : Surroundings κ) :
    (s.pollFor a).polls = s.polls + if a.polled then 1 else 0 := by
  unfold pollFor
  split <;> simp [poll]

theorem pollFor_naps (a : Attendant τ) (s : Surroundings κ) : (s.pollFor a).naps = s.naps := by
  unfold pollFor
  split <;> simp [poll]

theorem pollFor_checks (a : Attendant τ) (s : Surroundings κ) :
    (s.pollFor a).checks = s.checks := by
  unfold pollFor
  split <;> simp [poll]

omit [Clock κ τ] in
theorem askFor_polls (a : Attendant τ) (s : Surroundings κ) : (s.askFor a).2.polls = s.polls := by
  unfold askFor
  split <;> rfl

omit [Clock κ τ] in
theorem askFor_naps (a : Attendant τ) (s : Surroundings κ) : (s.askFor a).2.naps = s.naps := by
  unfold askFor
  split <;> rfl

omit [Clock κ τ] in
theorem askFor_checks (a : Attendant τ) (s : Surroundings κ) :
    (s.askFor a).2.checks = s.checks + if a.heeded then 1 else 0 := by
  unfold askFor
  split <;> rfl

theorem nap_polls (a : Attendant τ) (s : Surroundings κ) :
    (s.nap a.feed a.interval).polls = s.polls :=
  deliver_polls _ _

theorem nap_naps (a : Attendant τ) (s : Surroundings κ) :
    (s.nap a.feed a.interval).naps = s.naps + 1 :=
  deliver_naps _ _

theorem nap_checks (a : Attendant τ) (s : Surroundings κ) :
    (s.nap a.feed a.interval).checks = s.checks :=
  deliver_checks _ _

/-! ### One round -/

theorem takeKey?_of_nil (h : s.keyboard.downs = []) : s.takeKey? = none := by
  simp [takeKey?, Keyboard.take?, h]

theorem takeKey?_of_cons {d : KeyDown} {rest : List KeyDown} (h : s.keyboard.downs = d :: rest) :
    s.takeKey? = some (d.key, { s with keyboard := { s.keyboard with downs := rest } }) := by
  simp [takeKey?, Keyboard.take?, h]

/-- The events of a round up to its nap: a key-down that waits is taken without a poll. -/
def roundEvents (a : Attendant τ) (s : Surroundings κ) : List (Event τ) :=
  if s.keyboard.downs = [] then s.pollEvents a else []

/-- How a key wait ends, given the surroundings in which it looks at the queue for the last time. -/
inductive Answers (s : Surroundings κ) : Waited → Surroundings κ → Prop where
  /-- It takes the oldest key-down. -/
  | key {d : KeyDown} {rest : List KeyDown} {after : Surroundings κ}
      (waiting : s.keyboard.downs = d :: rest)
      (alike : after.Alike { s with keyboard := { s.keyboard with downs := rest } }) :
      Answers s (.key d.key) after
  /-- There is no key-down, and the user wants to leave. -/
  | cancelled {after : Surroundings κ} (silent : s.keyboard.downs = [])
      (leaving : s.exitRequested = true) (alike : after.Alike s) : Answers s .cancelled after
  /-- There is no key-down, and there were too many naps. -/
  | exhausted {after : Surroundings κ} (silent : s.keyboard.downs = [])
      (alike : after.Alike s) : Answers s .exhausted after

theorem Answers.congr {w : Waited} {after : Surroundings κ} (h : Answers s w after)
    (hst : s.Alike t) : Answers t w after := by
  cases h with
  | key waiting alike =>
    rw [hst.keyboard] at waiting
    refine .key waiting (alike.trans ⟨?_, hst.timers, hst.exitRequested, hst.journal⟩)
    simp only [hst.keyboard]
  | cancelled silent leaving alike =>
    exact .cancelled (hst.keyboard ▸ silent) (hst.exitRequested ▸ leaving) (alike.trans hst)
  | exhausted silent alike => exact .exhausted (hst.keyboard ▸ silent) (alike.trans hst)

theorem waitRound_of_cons (a : Attendant τ) {d : KeyDown} {rest : List KeyDown}
    (h : s.keyboard.downs = d :: rest) :
    s.waitRound a =
      (some (.key d.key), { s with keyboard := { s.keyboard with downs := rest } }) := by
  simp only [waitRound, takeKey?_of_cons h]

theorem waitRound_of_polled (a : Attendant τ) (h : s.keyboard.downs = []) {d : KeyDown}
    {rest : List KeyDown} (hp : (s.pollFor a).keyboard.downs = d :: rest) :
    s.waitRound a =
      (some (.key d.key),
        { s.pollFor a with keyboard := { (s.pollFor a).keyboard with downs := rest } }) := by
  simp only [waitRound, takeKey?_of_nil h, takeKey?_of_cons hp]

theorem waitRound_of_silent (a : Attendant τ) (h : s.keyboard.downs = [])
    (hp : (s.pollFor a).keyboard.downs = []) :
    s.waitRound a =
      (if ((s.pollFor a).askFor a).1 then some .cancelled else none,
        ((s.pollFor a).askFor a).2) := by
  simp only [waitRound, takeKey?_of_nil h, takeKey?_of_nil hp]

theorem waitRound_polls (a : Attendant τ) (s : Surroundings κ) :
    (s.waitRound a).2.polls = if s.keyboard.downs = [] then (s.pollFor a).polls else s.polls := by
  cases hs : s.keyboard.downs with
  | cons d rest => rw [waitRound_of_cons a hs, if_neg (List.cons_ne_nil d rest)]
  | nil =>
    rw [if_pos rfl]
    cases hp : (s.pollFor a).keyboard.downs with
    | cons d rest => rw [waitRound_of_polled a hs hp]
    | nil => rw [waitRound_of_silent a hs hp, askFor_polls]

/-- A round ends the wait in the surroundings that its poll has brought about, or it leaves them
with an empty queue. -/
theorem waitRound_answers (a : Attendant τ) (s : Surroundings κ) :
    match s.waitRound a with
    | (some result, after) => Answers (s.deliver (s.roundEvents a)) result after
    | (none, after) =>
      after.keyboard.downs = [] ∧ after.Alike (s.deliver (s.roundEvents a)) := by
  cases hs : s.keyboard.downs with
  | cons d rest =>
    rw [waitRound_of_cons a hs, roundEvents, if_neg (by simp [hs])]
    exact .key hs (Alike.refl _)
  | nil =>
    have hpoll := pollFor_alike a s
    rw [roundEvents, if_pos hs]
    cases hp : (s.pollFor a).keyboard.downs with
    | cons d rest =>
      rw [waitRound_of_polled a hs hp]
      exact (Answers.key hp (Alike.refl _)).congr hpoll
    | nil =>
      rw [waitRound_of_silent a hs hp]
      have hask := askFor_alike a (s.pollFor a)
      by_cases hleaving : ((s.pollFor a).askFor a).1 = true
      · have hexit : (s.pollFor a).exitRequested = true := by
          unfold askFor at hleaving
          split at hleaving
          · exact hleaving
          · cases hleaving
        simp only [if_pos hleaving]
        exact (Answers.cancelled hp hexit hask).congr hpoll
      · simp only [if_neg hleaving]
        exact ⟨hask.keyboard ▸ hp, hask.trans hpoll⟩

/-! ### The whole wait -/

/-- The events that arrive in the course of a key wait with `room` naps left. -/
def waitEvents (a : Attendant τ) : (room : Nat) → Surroundings κ → List (Event τ)
  | 0, s => s.roundEvents a
  | room + 1, s =>
    match s.waitRound a with
    | (some _, _) => s.roundEvents a
    | (none, after) =>
      s.roundEvents a ++ (a.feed.atNap (after.naps + 1) ++
        waitEvents a room (after.nap a.feed a.interval))

/-- **A key wait answers in the surroundings that its events have brought about.** -/
theorem answers_waitRounds (a : Attendant τ) (room : Nat) (s : Surroundings κ) :
    Answers (s.deliver (s.waitEvents a room)) (s.waitRounds a room).1 (s.waitRounds a room).2 := by
  induction room generalizing s with
  | zero =>
    have hround := waitRound_answers a s
    unfold waitEvents waitRounds
    rcases hr : s.waitRound a with ⟨_ | result, after⟩
    · rw [hr] at hround
      obtain ⟨hsilent, halike⟩ := hround
      exact (Answers.exhausted hsilent (sleep_alike a.interval after)).congr halike
    · rw [hr] at hround
      exact hround
  | succ room ih =>
    have hround := waitRound_answers a s
    unfold waitEvents waitRounds
    rcases hr : s.waitRound a with ⟨_ | result, after⟩
    · -- without a result the events of the nap follow those of the round, and the rest of the wait
      -- answers in what all of them have brought about
      rw [hr] at hround
      have hnap := (nap_alike a after).trans (hround.2.deliver _)
      simp only [deliver_append]
      exact (ih (after.nap a.feed a.interval)).congr (hnap.deliver _)
    · rw [hr] at hround
      exact hround

/-- The surroundings after key-downs that are no longer fresh were dropped. -/
def freshen (s : Surroundings κ) : Surroundings κ := { s with keyboard := s.keyboard.dropStale }

/-- The events of a key wait that begins here. -/
def eventsOfWait (a : Attendant τ) (s : Surroundings κ) : List (Event τ) :=
  waitEvents a (a.patience - s.naps) s.freshen

theorem answers_waitForKey (a : Attendant τ) (s : Surroundings κ) :
    Answers (s.freshen.deliver (s.eventsOfWait a)) (s.waitForKey a).1 (s.waitForKey a).2 :=
  answers_waitRounds a _ _

/-- What a key wait does to the keyboard before it takes a key-down. -/
def deedsBeforeTake (a : Attendant τ) (s : Surroundings κ) : List Keyboard.Deed :=
  .dropStale :: Keyboard.deedsOf (s.eventsOfWait a)

/-- What a key wait does to the keyboard. -/
def waitDeeds (a : Attendant τ) (s : Surroundings κ) : List Keyboard.Deed :=
  s.deedsBeforeTake a ++ [.take]

theorem keyboard_deedsBeforeTake (a : Attendant τ) (s : Surroundings κ) :
    (s.freshen.deliver (s.eventsOfWait a)).keyboard =
      (s.deedsBeforeTake a).foldl Keyboard.perform s.keyboard :=
  deliver_keyboard _ _

/-- **What a key wait does to the keyboard.** -/
theorem keyboard_waitForKey (a : Attendant τ) (s : Surroundings κ) :
    (s.waitForKey a).2.keyboard = (s.waitDeeds a).foldl Keyboard.perform s.keyboard := by
  unfold waitDeeds
  rw [List.foldl_append, ← keyboard_deedsBeforeTake]
  have hanswers := answers_waitForKey a s
  generalize s.freshen.deliver (s.eventsOfWait a) = t at *
  generalize (s.waitForKey a).1 = result at *
  -- without a key-down in the queue there is nothing to take
  have hsilent : t.keyboard.downs = [] → t.keyboard.perform .take = t.keyboard := by
    intro h
    rcases hk : t.keyboard with ⟨held, cycle, downs⟩
    simp_all [Keyboard.perform]
  cases hanswers with
  | key waiting alike =>
    rw [alike.keyboard]
    simp [Keyboard.perform, waiting]
  | cancelled silent _ alike => exact alike.keyboard.trans (hsilent silent).symm
  | exhausted silent alike => exact alike.keyboard.trans (hsilent silent).symm

/-- **A key wait brings the oldest key-down of the queue it last looks at**, if there is one. -/
theorem key?_waitForKey (a : Attendant τ) (s : Surroundings κ) :
    (s.waitForKey a).1.key? =
      (((s.deedsBeforeTake a).foldl Keyboard.perform s.keyboard).downs.head?).map KeyDown.key := by
  rw [← keyboard_deedsBeforeTake]
  have hanswers := answers_waitForKey a s
  generalize (s.waitForKey a).1 = result at *
  cases hanswers with
  | key waiting _ => rw [waiting]; rfl
  | cancelled silent _ _ => rw [silent]; rfl
  | exhausted silent _ => rw [silent]; rfl

theorem Answers.timers {w : Waited} {after : Surroundings κ} (h : Answers s w after) :
    after.timers = s.timers := by
  cases h with
  | key _ alike => exact alike.timers
  | cancelled _ _ alike => exact alike.timers
  | exhausted _ alike => exact alike.timers

theorem key_lt_of_waitForKey {a : Attendant τ} (hk : s.keyboard.Chronicled) {key : Nat}
    (h : (s.waitForKey a).1 = .key key) : key < 16 := by
  have hkey := key?_waitForKey a s
  rw [h, eq_comm, Waited.key?, Option.map_eq_some_iff] at hkey
  obtain ⟨d, hd, rfl⟩ := hkey
  exact (hk.foldl _).key_lt (List.mem_of_head? hd)

/-! ### What a key wait records -/

omit [Clock κ τ] in
theorem notMem_deedsOf {deed : Keyboard.Deed} (hp : ∀ key, deed ≠ .press key)
    (hr : ∀ key, deed ≠ .release key) (events : List (Event τ)) :
    deed ∉ Keyboard.deedsOf events := by
  intro h
  obtain ⟨e, -, he⟩ := List.mem_filterMap.1 h
  cases e with
  | press key => exact hp key (Option.some.inj he).symm
  | release key => exact hr key (Option.some.inj he).symm
  | tick | exit | stay | advance | toggleDetails => cases he

section Record

variable (a : Attendant τ) (s : Surroundings κ) (c : Keyboard.Chronicle)

/-- The chronicle at the last look of a key wait at the queue. -/
def beforeTake : Keyboard.Chronicle := (s.deedsBeforeTake a).foldl Keyboard.Chronicle.perform c

/-- The chronicle after a key wait. -/
def afterWait : Keyboard.Chronicle := (s.waitDeeds a).foldl Keyboard.Chronicle.perform c

theorem afterWait_eq : afterWait a s c = (beforeTake a s c).perform .take := by
  simp [afterWait, waitDeeds, beforeTake]

theorem nextCycle_notMem_waitDeeds : .nextCycle ∉ s.waitDeeds a := by
  simp [waitDeeds, deedsBeforeTake, notMem_deedsOf]

theorem reset_notMem_deedsBeforeTake : .reset ∉ s.deedsBeforeTake a := by
  simp [deedsBeforeTake, notMem_deedsOf]

theorem reset_notMem_waitDeeds : .reset ∉ s.waitDeeds a := by
  simp [waitDeeds, reset_notMem_deedsBeforeTake]

theorem beforeTake_grows : c.Grows (beforeTake a s c) :=
  Keyboard.Chronicle.foldl_grows c (reset_notMem_deedsBeforeTake a s)

theorem afterWait_grows : c.Grows (afterWait a s c) := by
  rw [afterWait_eq]
  exact (beforeTake_grows a s c).trans (Keyboard.Chronicle.perform_grows _ (by simp))

theorem beforeTake_taken : (beforeTake a s c).taken = c.taken :=
  Keyboard.Chronicle.foldl_taken c (reset_notMem_deedsBeforeTake a s)
    (by simp [deedsBeforeTake, notMem_deedsOf])

/-- What a key wait takes came down in its course, unless there was a fresh key-down before. -/
theorem length_le_front_beforeTake (h : c.keyboard.dropStale.downs = []) :
    c.history.length ≤ (beforeTake a s c).front := by
  have hgrows : (c.perform .dropStale).Grows (beforeTake a s c) :=
    Keyboard.Chronicle.foldl_grows _ (notMem_deedsOf (by simp) (by simp) _)
  refine Nat.le_trans (Nat.le_of_eq ?_) hgrows.front
  have hdowns : (c.perform .dropStale).keyboard.downs = [] := h
  simp only [Keyboard.Chronicle.front, hdowns, List.length_nil, Nat.sub_zero]
  rfl

variable {a s c}

theorem key?_eq_head? (hk : s.keyboard = c.keyboard) :
    (s.waitForKey a).1.key? = ((beforeTake a s c).keyboard.downs.head?).map KeyDown.key := by
  rw [key?_waitForKey, beforeTake, Keyboard.Chronicle.foldl_perform_keyboard, hk]

theorem afterWait_taken_of_none (hk : s.keyboard = c.keyboard)
    (hkey : (s.waitForKey a).1.key? = none) : (afterWait a s c).taken = c.taken := by
  rw [key?_eq_head? hk, Option.map_eq_none_iff, List.head?_eq_none_iff] at hkey
  rw [afterWait_eq, ← beforeTake_taken a s c]
  simp [Keyboard.Chronicle.perform, hkey]

/-- A key wait takes the key-down that it answers with. -/
theorem afterWait_taken_of_some (hc : c.Sound) (hk : s.keyboard = c.keyboard) {key : Nat}
    (hkey : (s.waitForKey a).1.key? = some key) :
    ∃ i d, (afterWait a s c).taken = c.taken ++ [i] ∧ (beforeTake a s c).front = i ∧
      (afterWait a s c).history[i]? = some d ∧ d.key = key := by
  rw [key?_eq_head? hk, Option.map_eq_some_iff] at hkey
  obtain ⟨d, hd, rfl⟩ := hkey
  have hsound : (beforeTake a s c).Sound := hc.foldl _
  obtain ⟨rest, hrest⟩ := List.head?_eq_some_iff.1 hd
  refine ⟨_, d, ?_, rfl, ?_, rfl⟩
  · rw [afterWait_eq, Keyboard.Chronicle.perform_take_of_cons hrest, ← beforeTake_taken a s c]
  · rw [afterWait_eq, Keyboard.Chronicle.perform_take_of_cons hrest, ← hd, hsound.head?_downs]

end Record

/-! ### What a key wait costs -/

/-- A key-down that waits is taken at once: there are no polls, questions or naps. -/
theorem waitForKey_of_cons (a : Attendant τ) {d : KeyDown} {rest : List KeyDown}
    (h : s.keyboard.dropStale.downs = d :: rest) :
    s.waitForKey a =
      (.key d.key, { s with keyboard := { s.keyboard.dropStale with downs := rest } }) := by
  unfold waitForKey
  generalize a.patience - s.naps = room
  have hround := waitRound_of_cons (s := { s with keyboard := s.keyboard.dropStale }) a h
  cases room <;> simp only [waitRounds, hround]

theorem polls_le_waitRound (a : Attendant τ) (s : Surroundings κ) :
    s.polls + (if s.keyboard.downs = [] ∧ a.polled then 1 else 0) ≤ (s.waitRound a).2.polls := by
  rw [waitRound_polls, pollFor_polls]
  split <;> simp_all

theorem polls_le_waitRounds (a : Attendant τ) (room : Nat) (s : Surroundings κ) :
    s.polls + (if s.keyboard.downs = [] ∧ a.polled then 1 else 0) ≤
      (s.waitRounds a room).2.polls := by
  induction room generalizing s with
  | zero =>
    have hround := polls_le_waitRound a s
    unfold waitRounds
    rcases hr : s.waitRound a with ⟨_ | result, after⟩ <;> rw [hr] at hround <;> exact hround
  | succ room ih =>
    have hround := polls_le_waitRound a s
    unfold waitRounds
    rcases hr : s.waitRound a with ⟨_ | result, after⟩ <;> rw [hr] at hround
    · have hrest := ih (after.nap a.feed a.interval)
      have hnap : (after.nap a.feed a.interval).polls = after.polls := deliver_polls _ _
      simp only at hround ⊢
      omega
    · exact hround

theorem polls_le_waitForKey (a : Attendant τ) (s : Surroundings κ) :
    s.polls ≤ (s.waitForKey a).2.polls :=
  Nat.le_of_add_right_le (polls_le_waitRounds a _ s.freshen)

theorem polls_lt_waitForKey (a : Attendant τ) (hpolled : a.polled = true)
    (h : s.keyboard.dropStale.downs = []) : s.polls < (s.waitForKey a).2.polls := by
  have := polls_le_waitRounds a (a.patience - s.naps)
    { s with keyboard := s.keyboard.dropStale }
  rw [if_pos ⟨h, hpolled⟩] at this
  exact this

end Surroundings

end Chip8

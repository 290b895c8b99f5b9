import Chip8.Proofs.Machine.Bare
import Chip8.Proofs.Machine.Reach

/-!
# Resuming a key wait

A key wait that is cancelled leaves the program counter on its instruction, so the program waits
again when it is resumed.  Nothing is lost in between: cancellations cut what the polls bring into
pieces, but the key that the last execution gets is the one that a single execution would have got
(`Machine.Reachable.key_wait_resumes`).

For a key wait only the held keys, the keys that wait and the timers matter, and of the events only
those of keys and the ticks (`Surroundings.console`, `Event.inputs`).  The cycles in which keys went
down do not matter, for a cancelled wait leaves the queue empty, and what comes down before the next
one begins is still fresh then.

`Surroundings.await` is the wait as a function of the batches that its polls bring.  An execution
that gets a key follows it (`Surroundings.gets_waitForKey`), one that does not goes as far
(`Surroundings.idles_waitForKey`), and so a row of executions follows it as well
(`Machine.Resumed.gotten`).
-/

namespace Chip8

variable {κ τ : Type}

/-! ### Batches of events -/

namespace Event

/-- An event as a key wait sees it. -/
def input? : Event τ → Option (Event Unit)
  | .press key => some (.press key)
  | .release key => some (.release key)
  | .tick => some .tick
  | .exit | .stay | .advance _ | .toggleDetails => none

/-- The key events and the ticks of a batch. -/
def inputs (events : List (Event τ)) : List (Event Unit) := events.filterMap input?

end Event

namespace Feed

/-- The batches of the polls after the first so many, up to another number of polls. -/
def batches (f : Feed τ) (first last : Nat) : List (List (Event Unit)) :=
  (List.range' (first + 1) (last - first)).map fun n => Event.inputs (f.atPoll n)

theorem batches_self (f : Feed τ) (n : Nat) : f.batches n n = [] := by
  simp [batches]

theorem batches_succ (f : Feed τ) (n : Nat) :
    f.batches n (n + 1) = [Event.inputs (f.atPoll (n + 1))] := by
  simp [batches]

theorem batches_append (f : Feed τ) {first middle last : Nat} (h : first ≤ middle)
    (h' : middle ≤ last) :
    f.batches first middle ++ f.batches middle last = f.batches first last := by
  have hlength : last - first = (middle - first) + (last - middle) := by omega
  have hmiddle : middle + 1 = first + 1 + 1 * (middle - first) := by omega
  rw [batches, batches, batches, ← List.map_append, hlength, hmiddle, List.range'_append]

theorem batches_mono (f : Feed τ) {first middle last : Nat} (h : first ≤ middle)
    (h' : middle ≤ last) : f.batches first middle <+: f.batches first last :=
  ⟨_, f.batches_append h h'⟩

end Feed

/-- Naps bring neither keys nor ticks. -/
def Attendant.Quiet (a : Attendant τ) : Prop := ∀ n, Event.inputs (a.feed.atNap n) = []

/-! ### What matters for a key wait -/

namespace Keyboard

/-- The keyboard without the cycles. -/
def unstamped (k : Keyboard) : Keyboard :=
  { held := k.held, downs := k.downs.map fun d => ⟨d.key, 0⟩ }

theorem unstamped_press (k : Keyboard) (key : Int) :
    (k.press key).unstamped = k.unstamped.press key := by
  by_cases hkey : IsKey key
  · have hheld : k.unstamped.isPressed key = k.isPressed key := rfl
    unfold press
    rw [dif_pos hkey, dif_pos hkey, hheld]
    by_cases hpressed : k.isPressed key = true
    · simp [unstamped, hpressed]
    · simp [unstamped, hpressed, latest, List.map_drop]
  · unfold press
    rw [dif_neg hkey, dif_neg hkey]

theorem unstamped_release (k : Keyboard) (key : Int) :
    (k.release key).unstamped = k.unstamped.release key := by
  unfold release
  split <;> rfl

/-- All key-downs that wait belong to the present cycle. -/
def Recent (k : Keyboard) : Prop := ∀ d ∈ k.downs, d.cycle = k.cycle

theorem Recent.press {k : Keyboard} (h : k.Recent) (key : Int) : (k.press key).Recent := by
  have hcycle := k.press_cycle key
  intro d hd
  rw [hcycle]
  by_cases hnew : IsKey key ∧ k.isPressed key = false
  · rw [press_downs_of_new hnew.1 hnew.2] at hd
    have hmem : d ∈ k.downs ++ [⟨key.toNat, k.cycle⟩] := List.mem_of_mem_drop hd
    rcases List.mem_append.1 hmem with hold | hlast
    · exact h d hold
    · rw [List.mem_singleton.1 hlast]
  · rw [press_downs_of_not_new hnew] at hd
    exact h d hd

theorem Recent.release {k : Keyboard} (h : k.Recent) (key : Int) : (k.release key).Recent := by
  intro d hd
  rw [release_cycle]
  rw [release_downs] at hd
  exact h d hd

/-- Key-downs of the present cycle are still fresh in the next one. -/
theorem Recent.downs_dropStale {k : Keyboard} (h : k.Recent) :
    k.nextCycle.dropStale.downs = k.downs := by
  cases hdowns : k.downs with
  | nil => simp [dropStale, nextCycle, hdowns]
  | cons d rest =>
    have hcycle : d.cycle = k.cycle := h d (by simp [hdowns])
    simp [dropStale, nextCycle, hdowns, hcycle]

theorem Recent.unstamped_dropStale {k : Keyboard} (h : k.Recent) :
    k.nextCycle.dropStale.unstamped = k.unstamped := by
  rw [unstamped, unstamped, h.downs_dropStale]
  rfl

end Keyboard

namespace Surroundings

/-- What matters for a key wait: the held keys, the keys that wait, and the timers. -/
def console (s : Surroundings κ) : Surroundings Unit :=
  { keyboard := s.keyboard.unstamped, timers := s.timers, clock := () }

theorem console_takeKey? (s : Surroundings κ) :
    s.console.takeKey? = s.takeKey?.map (Prod.map id console) := by
  cases hdowns : s.keyboard.downs <;>
    simp [takeKey?, Keyboard.take?, console, Keyboard.unstamped, hdowns]

theorem takeKey?_console_of_nil {s : Surroundings κ} (h : s.keyboard.downs = []) :
    s.console.takeKey? = none := by
  rw [console_takeKey?, takeKey?_of_nil h]
  rfl

theorem takeKey?_console_of_cons {s : Surroundings κ} {d : KeyDown} {rest : List KeyDown}
    (h : s.keyboard.downs = d :: rest) :
    s.console.takeKey? =
      some (d.key, console { s with keyboard := { s.keyboard with downs := rest } }) := by
  rw [console_takeKey?, takeKey?_of_cons h]
  rfl

theorem Alike.console_eq {s t : Surroundings κ} (h : s.Alike t) : s.console = t.console := by
  rw [console, console, h.keyboard, h.timers]

variable [Clock κ τ]

theorem console_occur (s : Surroundings κ) (e : Event τ) :
    (s.occur e).console = e.input?.elim s.console s.console.occur := by
  cases e with
  | press key =>
    have hpress := Keyboard.unstamped_press s.keyboard key
    simp only [occur, console, Event.input?, Option.elim, hpress]
  | release key =>
    have hrelease := Keyboard.unstamped_release s.keyboard key
    simp only [occur, console, Event.input?, Option.elim, hrelease]
  | tick | exit | stay | advance | toggleDetails => rfl

/-- **Only the inputs of a batch matter.** -/
theorem console_deliver (s : Surroundings κ) (events : List (Event τ)) :
    (s.deliver events).console = s.console.deliver (Event.inputs events) := by
  induction events generalizing s with
  | nil => rfl
  | cons e events ih =>
    have hrest := ih (s.occur e)
    rw [console_occur] at hrest
    rw [Event.inputs, List.filterMap_cons]
    cases he : e.input? with
    | none => rwa [he] at hrest
    | some event => rwa [he] at hrest

theorem deliver_recent {s : Surroundings κ} (h : s.keyboard.Recent) (events : List (Event τ)) :
    (s.deliver events).keyboard.Recent := by
  induction events generalizing s with
  | nil => exact h
  | cons e events ih =>
    refine ih (s := s.occur e) ?_
    cases e with
    | press key => exact h.press key
    | release key => exact h.release key
    | tick | exit | stay | advance | toggleDetails => exact h

/-! ### A key wait by its batches -/

/-- A key wait that is left alone: it takes a key that waits, and otherwise the next batch arrives.
The result is the key, what the wait leaves, and the batches that are left. -/
def await : List (List (Event τ)) → Surroundings κ →
    Option (Nat × Surroundings κ × List (List (Event τ)))
  | [], s => s.takeKey?.map fun (key, after) => (key, after, [])
  | batch :: later, s =>
    match s.takeKey? with
    | some (key, after) => some (key, after, batch :: later)
    | none => await later (s.deliver batch)

/-- The wait gets a key, and with it the last of these batches. -/
def Gets (s : Surroundings Unit) (batches : List (List (Event Unit))) (key : Nat)
    (after : Surroundings Unit) : Prop :=
  ∀ later, await (batches ++ later) s = some (key, after, later)

/-- The wait goes on from what these batches have brought about. -/
def Idles (s : Surroundings Unit) (batches : List (List (Event Unit)))
    (after : Surroundings Unit) : Prop :=
  ∀ later, await (batches ++ later) s = await later after

section Await

variable {s t r : Surroundings Unit} {batches more : List (List (Event Unit))} {key key' : Nat}

theorem Idles.refl (s : Surroundings Unit) : s.Idles [] s := fun _ => rfl

theorem Idles.trans (h : s.Idles batches t) (h' : t.Idles more r) :
    s.Idles (batches ++ more) r := by
  intro later
  rw [List.append_assoc, h, h']

theorem Idles.gets (h : s.Idles batches t) (h' : t.Gets more key r) :
    s.Gets (batches ++ more) key r := by
  intro later
  rw [List.append_assoc, h, h']

theorem idles_of_silent (h : s.takeKey? = none) (batch : List (Event Unit)) :
    s.Idles [batch] (s.deliver batch) := by
  intro later
  rw [List.singleton_append, await, h]

theorem gets_of_takeKey? (h : s.takeKey? = some (key, t)) : s.Gets [] key t := by
  intro later
  cases later with
  | nil => rw [List.append_nil, await, h]; rfl
  | cons batch later => rw [List.nil_append, await, h]

theorem Idles.not_gets (h : s.Idles batches t) (ht : t.takeKey? = none)
    (hagree : more <+: batches) : ¬ s.Gets more key r := by
  intro hgets
  obtain ⟨rest, rfl⟩ := hagree
  have hgot := hgets rest
  rw [← List.append_nil (more ++ rest), h, await, ht] at hgot
  cases hgot

/-- From batches that agree as far as both go, waits get the same key with the same batch. -/
theorem Gets.unique (h : s.Gets batches key t) (h' : s.Gets more key' r)
    (hagree : batches <+: more ∨ more <+: batches) :
    batches = more ∧ key = key' ∧ t = r := by
  rcases hagree with ⟨rest, rfl⟩ | ⟨rest, rfl⟩
  · have hgot := (h rest).symm.trans (by simpa using h' [])
    obtain ⟨rfl, rfl, rfl⟩ : key = key' ∧ t = r ∧ rest = [] := by simpa using hgot
    exact ⟨(List.append_nil _).symm, rfl, rfl⟩
  · have hgot := (h' rest).symm.trans (by simpa using h [])
    obtain ⟨rfl, rfl, rfl⟩ : key' = key ∧ r = t ∧ rest = [] := by simpa using hgot
    exact ⟨List.append_nil _, rfl, rfl⟩

end Await

/-! ### The batches of a key wait -/

theorem idles_round (a : Attendant τ) (s : Surroundings κ) :
    s.console.Idles (a.feed.batches s.polls (s.waitRound a).2.polls)
      (s.deliver (s.roundEvents a)).console := by
  rw [waitRound_polls, roundEvents]
  by_cases hs : s.keyboard.downs = []
  · rw [if_pos hs, if_pos hs, pollFor_polls, pollEvents]
    split
    · rw [Feed.batches_succ, console_deliver]
      exact idles_of_silent (takeKey?_console_of_nil hs) _
    · rw [Nat.add_zero, Feed.batches_self]
      exact .refl _
  · rw [if_neg hs, if_neg hs, Feed.batches_self]
    exact .refl _

/-- **A key wait goes on from what its events have brought about**, and one batch arrives at each of
its polls. -/
theorem idles_waitRounds {a : Attendant τ} (ha : a.Quiet) (room : Nat) (s : Surroundings κ) :
    s.console.Idles (a.feed.batches s.polls (s.waitRounds a room).2.polls)
      (s.deliver (s.waitEvents a room)).console := by
  induction room generalizing s with
  | zero =>
    have hround := idles_round a s
    unfold waitEvents waitRounds
    rcases hr : s.waitRound a with ⟨_ | result, after⟩
    · rw [hr] at hround
      exact hround
    · rw [hr] at hround
      exact hround
  | succ room ih =>
    have hround := idles_round a s
    have hanswers := waitRound_answers a s
    have hpolls := polls_le_waitRound a s
    unfold waitEvents waitRounds
    rcases hr : s.waitRound a with ⟨_ | result, after⟩
    · -- the nap brings nothing, so that the rest of the wait goes on from this round
      rw [hr] at hround hanswers hpolls
      have hnap : (after.nap a.feed a.interval).console =
          (s.deliver (s.roundEvents a)).console := by
        rw [(nap_alike a after).console_eq, console_deliver, ha, hanswers.2.console_eq]
        rfl
      have hnapPolls : (after.nap a.feed a.interval).polls = after.polls := deliver_polls _ _
      have hrest := ih (after.nap a.feed a.interval)
      have hmore := polls_le_waitRounds a room (after.nap a.feed a.interval)
      rw [console_deliver, hnap, hnapPolls] at hrest
      have hfirst : s.polls ≤ after.polls := Nat.le_of_add_right_le hpolls
      have hlast : after.polls ≤ ((after.nap a.feed a.interval).waitRounds a room).2.polls := by
        rw [hnapPolls] at hmore
        exact Nat.le_of_add_right_le hmore
      rw [deliver_append, deliver_append, console_deliver, console_deliver _ (a.feed.atNap _), ha,
        ← Feed.batches_append _ hfirst hlast]
      exact hround.trans hrest
    · rw [hr] at hround
      exact hround

theorem waitRound_ne_exhausted (a : Attendant τ) (s : Surroundings κ) :
    (s.waitRound a).1 ≠ some .exhausted := by
  cases hs : s.keyboard.downs with
  | cons d rest =>
    rw [waitRound_of_cons a hs]
    nofun
  | nil =>
    cases hp : (s.pollFor a).keyboard.downs with
    | cons d rest =>
      rw [waitRound_of_polled a hs hp]
      nofun
    | nil =>
      rw [waitRound_of_silent a hs hp]
      dsimp only
      split <;> nofun

theorem polls_of_no_result {a : Attendant τ} (hpolled : a.polled = true) {s : Surroundings κ}
    (h : (s.waitRound a).1 = none) : s.polls + 1 ≤ (s.waitRound a).2.polls := by
  have hpolls := polls_le_waitRound a s
  cases hs : s.keyboard.downs with
  | cons d rest =>
    rw [waitRound_of_cons a hs] at h
    cases h
  | nil => rwa [if_pos ⟨hs, hpolled⟩] at hpolls

/-- A wait that gives up has polled more often than it had room for naps. -/
theorem polls_of_exhausted {a : Attendant τ} (hpolled : a.polled = true) (room : Nat)
    (s : Surroundings κ) (h : (s.waitRounds a room).1 = .exhausted) :
    s.polls + (room + 1) ≤ (s.waitRounds a room).2.polls := by
  induction room generalizing s with
  | zero =>
    have hresult := waitRound_ne_exhausted a s
    have hpolls := polls_of_no_result hpolled (s := s)
    unfold waitRounds at h ⊢
    rcases hr : s.waitRound a with ⟨_ | result, after⟩ <;> rw [hr] at hpolls hresult h
    · exact hpolls rfl
    · exact absurd (congrArg some h) hresult
  | succ room ih =>
    have hresult := waitRound_ne_exhausted a s
    have hpolls := polls_of_no_result hpolled (s := s)
    unfold waitRounds at h ⊢
    rcases hr : s.waitRound a with ⟨_ | result, after⟩ <;> rw [hr] at hpolls hresult h
    · have hrest := ih (after.nap a.feed a.interval) h
      have hnap : (after.nap a.feed a.interval).polls = after.polls := deliver_polls _ _
      have hfirst : s.polls + 1 ≤ after.polls := hpolls rfl
      dsimp only
      omega
    · exact absurd (congrArg some h) hresult

theorem idles_eventsOfWait {a : Attendant τ} (ha : a.Quiet) (s : Surroundings κ) :
    s.freshen.console.Idles (a.feed.batches s.polls (s.waitForKey a).2.polls)
      (s.freshen.deliver (s.eventsOfWait a)).console :=
  idles_waitRounds ha _ _

theorem gets_waitForKey {a : Attendant τ} (ha : a.Quiet) {s : Surroundings κ} {key : Nat}
    (h : (s.waitForKey a).1 = .key key) :
    s.freshen.console.Gets (a.feed.batches s.polls (s.waitForKey a).2.polls) key
      (s.waitForKey a).2.console := by
  have hidles := idles_eventsOfWait ha s
  have hanswers := answers_waitForKey a s
  rw [h] at hanswers
  cases hanswers with
  | key waiting alike =>
    have hgets := hidles.gets (gets_of_takeKey? (takeKey?_console_of_cons waiting))
    rw [List.append_nil] at hgets
    rw [alike.console_eq]
    exact hgets

theorem downs_waitForKey {a : Attendant τ} {s : Surroundings κ}
    (h : (s.waitForKey a).1.key? = none) : (s.waitForKey a).2.keyboard.downs = [] := by
  have hanswers := answers_waitForKey a s
  generalize (s.waitForKey a).1 = result at hanswers h
  cases hanswers with
  | key => cases h
  | cancelled silent _ alike => rw [alike.keyboard, silent]
  | exhausted silent alike => rw [alike.keyboard, silent]

theorem idles_waitForKey {a : Attendant τ} (ha : a.Quiet) {s : Surroundings κ}
    (h : (s.waitForKey a).1.key? = none) :
    s.freshen.console.Idles (a.feed.batches s.polls (s.waitForKey a).2.polls)
      (s.waitForKey a).2.console := by
  have hidles := idles_eventsOfWait ha s
  have hanswers := answers_waitForKey a s
  generalize (s.waitForKey a).1 = result at hanswers h
  cases hanswers with
  | key => cases h
  | cancelled _ _ alike =>
    rw [alike.console_eq]
    exact hidles
  | exhausted _ alike =>
    rw [alike.console_eq]
    exact hidles

end Surroundings

namespace Machine

variable [Clock κ τ] {m after : Machine κ} {a : Attendant τ}

/-! ### One execution of a key wait -/

/-- How the key wait at the program counter ends. -/
def waited (a : Attendant τ) (m : Machine κ) : Waited := (m.fetched.around.waitForKey a).1

/-- The batches that arrive at the polls of a step. -/
def stepBatches (a : Attendant τ) (m : Machine κ) : List (List (Event Unit)) :=
  a.feed.batches m.around.polls (m.step a).1.around.polls

/-- What the key wait at the program counter begins with: stale key-downs do not count. -/
def consoleOfWait (m : Machine κ) : Surroundings Unit := m.fetched.around.freshen.console

/-- A machine has got a key with the last of these batches and has done nothing else. -/
structure Gotten (m : Machine κ) (batches : List (List (Event Unit))) (key : Nat)
    (after : Machine κ) : Prop where
  /-- The keys, the timers and the queue are what a key wait leaves. -/
  gets : m.consoleOfWait.Gets batches key after.around.console
  /-- The key is in the register. -/
  registers : after.registers = (m.setReg m.nextInstruction.x key).registers
  /-- The index register is untouched. -/
  index : after.index = m.index
  /-- The program goes on behind the key wait. -/
  pc : after.pc = nextAddress m.pc
  /-- The stack is untouched. -/
  stack : after.stack = m.stack
  /-- The memory is untouched. -/
  store : after.store = m.store
  /-- The pixels are untouched. -/
  pixels : after.screen.pixels = m.screen.pixels

theorem console_step (hawaits : m.AwaitsKey) :
    (m.step a).1.around.polls = (m.fetched.around.waitForKey a).2.polls ∧
      (m.step a).1.around.keyboard = (m.fetched.around.waitForKey a).2.keyboard ∧
      (m.step a).1.around.console = (m.fetched.around.waitForKey a).2.console := by
  obtain ⟨journal, haround⟩ := around_step_of_awaitsKey a hawaits
  rw [haround]
  exact ⟨rfl, rfl, rfl⟩

theorem polls_le_step (hawaits : m.AwaitsKey) : m.around.polls ≤ (m.step a).1.around.polls := by
  rw [(console_step hawaits).1]
  exact Surroundings.polls_le_waitForKey a m.fetched.around

theorem gotten_of_key (ha : a.Quiet) (hawaits : m.AwaitsKey) {key : Nat}
    (h : m.waited a = .key key) :
    (m.step a).2 = .ok m.nextInstruction ∧ Gotten m (m.stepBatches a) key (m.step a).1 := by
  obtain ⟨hpolls, -, hconsole⟩ := console_step (a := a) hawaits
  have hgets : m.consoleOfWait.Gets (m.stepBatches a) key (m.step a).1.around.console := by
    rw [stepBatches, hpolls, hconsole]
    exact Surroundings.gets_waitForKey ha h
  obtain ⟨journal, hstep⟩ := step_of_key a hawaits (Prod.ext h rfl)
  refine ⟨by rw [hstep], hgets, ?_, ?_, ?_, ?_, ?_, ?_⟩ <;> rw [hstep] <;> rfl

theorem Gotten.reg {batches : List (List (Event Unit))} {key : Nat}
    (h : Gotten m batches key after) : after.reg m.nextInstruction.x = key := by
  rw [Machine.reg, h.registers]
  exact (reg_setReg _ _ _).trans (if_pos rfl)

/-- **A cancelled execution changes nothing but the surroundings and the number of completed
instructions.** -/
theorem step_of_waited_cancelled (hawaits : m.AwaitsKey)
    (hback : previousAddress (nextAddress m.pc) = m.pc) (h : m.waited a = .cancelled) :
    m.step a =
      ({ m with around := (m.fetched.around.waitForKey a).2, cycles := m.cycles + 1 },
        .ok m.nextInstruction) := by
  rw [step_of_cancelled a hawaits (Prod.ext h rfl)]
  simp only [fetched, hback]
  rfl

theorem downs_of_cancelled (hawaits : m.AwaitsKey) (h : m.waited a = .cancelled) :
    (m.step a).1.around.keyboard.downs = [] := by
  rw [(console_step hawaits).2.1]
  exact Surroundings.downs_waitForKey (congrArg Waited.key? h)

theorem idles_of_cancelled (ha : a.Quiet) (hawaits : m.AwaitsKey) (h : m.waited a = .cancelled) :
    m.consoleOfWait.Idles (m.stepBatches a) (m.step a).1.around.console := by
  obtain ⟨hpolls, -, hconsole⟩ := console_step (a := a) hawaits
  rw [stepBatches, hpolls, hconsole]
  exact Surroundings.idles_waitForKey ha (congrArg Waited.key? h)

/-! ### Several executions of a key wait -/

/-- The machine when a key wait that was cancelled is executed again.  At most one batch was
delivered since then, and nothing else happened to the keys and the timers; the picture may have
been shown, and whatever else surrounds the processor may be different. -/
def paused (m : Machine κ) (batch? : Option (List (Event τ))) (dirty : Bool)
    (around : Surroundings κ) : Machine κ :=
  let s := m.around.deliver (batch?.getD [])
  { m with
    screen := { m.screen with dirty }
    around := { around with keyboard := s.keyboard, timers := s.timers } }

/-- Any number of executions of a key wait that are cancelled and then one that gets a key, with the
batches that were delivered meanwhile, at the polls of the executions and between them. -/
inductive Resumed : Machine κ → List (List (Event Unit)) → Machine κ → Prop where
  /-- An execution gets a key. -/
  | last {m : Machine κ} {a : Attendant τ} {key : Nat} (quiet : a.Quiet)
      (wait : m.waited a = .key key) : Resumed m (m.stepBatches a) (m.step a).1
  /-- An execution is cancelled, and others follow. -/
  | again {m after : Machine κ} {a : Attendant τ} {later : List (List (Event Unit))}
      (quiet : a.Quiet) (wait : m.waited a = .cancelled) (batch? : Option (List (Event τ)))
      (dirty : Bool) (around : Surroundings κ) :
      Resumed ((m.step a).1.paused batch? dirty around) later after →
      Resumed m (m.stepBatches a ++ (batch?.map Event.inputs).toList ++ later) after

/-- Key-downs that came between two executions are fresh for the second one. -/
theorem consoleOfWait_paused (hdowns : m.around.keyboard.downs = [])
    (batch? : Option (List (Event τ))) (dirty : Bool) (around : Surroundings κ) :
    (m.paused batch? dirty around).consoleOfWait =
      m.around.console.deliver (Event.inputs (batch?.getD [])) := by
  have hrecent : m.around.keyboard.Recent := by
    intro d hd
    rw [hdowns] at hd
    cases hd
  have hfresh := (Surroundings.deliver_recent hrecent (batch?.getD [])).unstamped_dropStale
  rw [← Surroundings.console_deliver]
  simp only [Surroundings.console, ← hfresh]
  rfl

/-- What a cancelled execution leaves goes on with the batch that comes before the next one. -/
theorem idles_paused (ha : a.Quiet) (hawaits : m.AwaitsKey) (h : m.waited a = .cancelled)
    (batch? : Option (List (Event τ))) (dirty : Bool) (around : Surroundings κ) :
    m.consoleOfWait.Idles (m.stepBatches a ++ (batch?.map Event.inputs).toList)
      ((m.step a).1.paused batch? dirty around).consoleOfWait := by
  have hidles := idles_of_cancelled ha hawaits h
  have hdowns := downs_of_cancelled hawaits h
  have hsilent := Surroundings.takeKey?_console_of_nil hdowns
  rw [consoleOfWait_paused hdowns]
  cases batch? with
  | none => exact hidles.trans (.refl _)
  | some events => exact hidles.trans (Surroundings.idles_of_silent hsilent _)

/-- **Resuming a key wait comes to the same as a single wait for all the batches.** -/
theorem Resumed.gotten {batches : List (List (Event Unit))} (h : Resumed m batches after)
    (hawaits : m.AwaitsKey) (hback : previousAddress (nextAddress m.pc) = m.pc) :
    ∃ key, Gotten m batches key after := by
  induction h with
  | @last m a key quiet wait => exact ⟨key, (gotten_of_key quiet hawaits wait).2⟩
  | @again m after a later quiet wait batch? dirty around _ ih =>
    have hidles := idles_paused quiet hawaits wait batch? dirty around
    have hstep := step_of_waited_cancelled hawaits hback wait
    -- the next execution is one of the same instruction
    rw [hstep] at ih hidles
    obtain ⟨key, hgotten⟩ := ih hawaits hback
    exact ⟨key, { hgotten with gets := hidles.gets hgotten.gets }⟩

/-- A single execution of a key wait, at whose polls these batches arrive, which nobody interrupts,
and whose attendant has the patience to see them. -/
structure Uninterrupted (a : Attendant τ) (m : Machine κ) (batches : List (List (Event Unit))) :
    Prop where
  /-- The wait polls. -/
  polled : a.polled = true
  /-- The batches arrive at its polls, one at each, -/
  feed : a.feed.batches m.around.polls (m.around.polls + batches.length) = batches
  /-- and nothing arrives at its naps. -/
  quiet : a.Quiet
  /-- It is not cancelled. -/
  staying : m.waited a ≠ .cancelled
  /-- There are as many polls as batches before it would give up. -/
  patient : batches.length ≤ a.patience - m.around.naps + 1

/-- **A single execution gets the key** with which the batches end. -/
theorem Uninterrupted.gotten {batches : List (List (Event Unit))} {key : Nat}
    (h : Uninterrupted a m batches) (hawaits : m.AwaitsKey) (hgotten : Gotten m batches key after) :
    (m.step a).2 = .ok m.nextInstruction ∧ Gotten m batches key (m.step a).1 ∧
      m.stepBatches a = batches ∧ (m.step a).1.around.console = after.around.console := by
  cases hwaited : m.waited a with
  | key got =>
    obtain ⟨hdone, hsingle⟩ := gotten_of_key h.quiet hawaits hwaited
    have hfirst := polls_le_step (a := a) hawaits
    have hagree : m.stepBatches a <+: batches ∨ batches <+: m.stepBatches a := by
      rw [← h.feed]
      rcases Nat.le_total (m.step a).1.around.polls (m.around.polls + batches.length) with hle | hle
      · exact .inl (a.feed.batches_mono hfirst hle)
      · exact .inr (a.feed.batches_mono (Nat.le_add_right _ _) hle)
    obtain ⟨hbatches, rfl, hconsole⟩ := hsingle.gets.unique hgotten.gets hagree
    exact ⟨hdone, hbatches ▸ hsingle, hbatches, hconsole⟩
  | cancelled => exact absurd hwaited h.staying
  | exhausted =>
    -- it would have seen all the batches, and the last one of them brings a key
    exfalso
    have hnone : (m.fetched.around.waitForKey a).1.key? = none := congrArg Waited.key? hwaited
    have hidles := Surroundings.idles_waitForKey h.quiet hnone
    have hsilent := Surroundings.takeKey?_console_of_nil (Surroundings.downs_waitForKey hnone)
    have hpolls : m.around.polls + (a.patience - m.around.naps + 1) ≤
        (m.fetched.around.waitForKey a).2.polls :=
      Surroundings.polls_of_exhausted h.polled _ m.fetched.around.freshen hwaited
    have hpatient := h.patient
    refine hidles.not_gets hsilent ?_ hgotten.gets
    rw [← h.feed]
    exact a.feed.batches_mono (Nat.le_add_right _ _) (by omega)

/-- **A cancelled key wait is transparent.**  A machine is about to wait for a key.

If the wait is cancelled, the step is completed with the registers, the stack, the memory, the
screen and the program counter as they were, and with an empty queue.

Now let any number of executions be cancelled and then one get a key, at most one batch being
delivered between two of them.  Let the same batches arrive at the polls of a single execution that
nobody interrupts.  It gets a key as well, with the same batch, and both leave the same registers,
stack, memory, pixels and timers, the same keys held, and the same keys waiting. -/
theorem Reachable.key_wait_resumes (h : m.Reachable) (hawaits : m.AwaitsKey) :
    (∀ a : Attendant τ, m.waited a = .cancelled →
      (m.step a).2 = .ok m.nextInstruction ∧ (m.step a).1.pc = m.pc ∧
      (m.step a).1.registers = m.registers ∧ (m.step a).1.index = m.index ∧
      (m.step a).1.stack = m.stack ∧ (m.step a).1.store = m.store ∧
      (m.step a).1.screen = m.screen ∧ (m.step a).1.cycles = m.cycles + 1 ∧
      (m.step a).1.around.keyboard.downs = []) ∧
    ∀ (batches : List (List (Event Unit))) (after : Machine κ), Resumed m batches after →
      ∀ a : Attendant τ, Uninterrupted a m batches →
        (m.step a).2 = .ok m.nextInstruction ∧ m.stepBatches a = batches ∧
        (m.step a).1.registers = after.registers ∧ (m.step a).1.index = after.index ∧
        (m.step a).1.pc = after.pc ∧ (m.step a).1.stack = after.stack ∧
        (m.step a).1.store = after.store ∧ (m.step a).1.screen.pixels = after.screen.pixels ∧
        (m.step a).1.around.timers = after.around.timers ∧
        (m.step a).1.around.keyboard.held = after.around.keyboard.held ∧
        (m.step a).1.around.keyboard.downs.map KeyDown.key =
          after.around.keyboard.downs.map KeyDown.key := by
  have hpc := h.sound.toTidy.fetched_pc hawaits.1
  have hback : previousAddress (nextAddress m.pc) = m.pc := by
    have hrewound := previousAddress_eq hpc.2
    have hfetched : nextAddress m.pc = m.pc + 2 := hpc.1
    change previousAddress (nextAddress m.pc) = nextAddress m.pc - 2 at hrewound
    omega
  refine ⟨fun a hcancelled => ?_, fun batches after hresumed a huninterrupted => ?_⟩
  · have hdowns := downs_of_cancelled hawaits hcancelled
    rw [step_of_waited_cancelled hawaits hback hcancelled] at hdowns ⊢
    exact ⟨rfl, rfl, rfl, rfl, rfl, rfl, rfl, rfl, hdowns⟩
  · obtain ⟨key, hgotten⟩ := hresumed.gotten hawaits hback
    obtain ⟨hdone, hsingle, hbatches, hconsole⟩ := huninterrupted.gotten hawaits hgotten
    have htimers : (m.step a).1.around.timers = after.around.timers :=
      congrArg (fun s => s.timers) hconsole
    have hheld : (m.step a).1.around.keyboard.held = after.around.keyboard.held :=
      congrArg (fun s => s.keyboard.held) hconsole
    have hdowns := congrArg (fun s => s.keyboard.downs.map KeyDown.key) hconsole
    simp only [Surroundings.console, Keyboard.unstamped, List.map_map] at hdowns
    exact ⟨hdone, hbatches, hsingle.registers.trans hgotten.registers.symm,
      hsingle.index.trans hgotten.index.symm, hsingle.pc.trans hgotten.pc.symm,
      hsingle.stack.trans hgotten.stack.symm, hsingle.store.trans hgotten.store.symm,
      hsingle.pixels.trans hgotten.pixels.symm, htimers, hheld, hdowns⟩

theorem exists_waiting :
    ∃ (m : Machine (VirtualClock Int)) (journal : Journal), m.Reachable ∧ m.AwaitsKey ∧
      m.nextInstruction.x = 0 ∧ m.around = { clock := ⟨0, 0, 0⟩, journal } := by
  obtain ⟨m, journal, hboot, hholds, hpc, haround⟩ :=
    exists_holds #[0xF0, 0x0A] (by decide) (⟨0, 0, 0⟩ : VirtualClock Int)
  have hwait : m.nextInstruction = .decode 0xF00A := hholds.nextInstruction 0 hpc (by decide)
  refine ⟨m, journal, .boot hboot, ⟨hholds.canFetch 0 hpc (by decide), ?_⟩, ?_, haround⟩
  · rw [hwait]
    decide
  · rw [hwait]
    decide

/-- The user asks to leave at the first poll of a key wait, and the key comes down before the
program is resumed.  If the user had stayed, the key would have come at the second poll. -/
theorem key_after_cancellation :
    ∃ (m after : Machine (VirtualClock Int)) (leaving staying : Attendant Int),
      m.Reachable ∧ m.waited leaving = .cancelled ∧ (m.step leaving).1.pc = m.pc ∧
      Resumed m [[], [.press 5]] after ∧ after.reg 0 = 5 ∧ (m.step staying).1.reg 0 = 5 := by
  obtain ⟨m, journal, hreachable, hawaits, hx, hstart⟩ := exists_waiting
  let leaving : Attendant Int :=
    { feed := { atPoll := fun _ => [.exit] }, interval := 1, patience := 3 }
  let staying : Attendant Int :=
    { feed := { atPoll := fun n => if n = 2 then [.press 5] else [] }, interval := 1,
      patience := 3 }
  let silent : Attendant Int := { feed := { atPoll := fun _ => [] }, interval := 1, patience := 3 }
  have hquiet : leaving.Quiet ∧ staying.Quiet ∧ silent.Quiet :=
    ⟨fun _ => rfl, fun _ => rfl, fun _ => rfl⟩
  have hfetched : m.fetched.around =
      { clock := ⟨0, 0, 0⟩, journal, keyboard := Keyboard.nextCycle {} } := by
    show { m.around with keyboard := m.around.keyboard.nextCycle } = _
    rw [hstart]
  obtain ⟨htransparent, hresumes⟩ := hreachable.key_wait_resumes hawaits
  -- the first execution is cancelled after one poll
  have hleaving : m.waited leaving = .cancelled := by
    rw [waited, hfetched]
    rfl
  obtain ⟨-, hpc, -, -, -, hstore, -⟩ := htransparent leaving hleaving
  obtain ⟨hpolls, hkeyboard, -⟩ := console_step (a := leaving) hawaits
  have hbatches : m.stepBatches leaving = [[]] := by
    rw [stepBatches, hpolls, hfetched, hstart]
    rfl
  -- the second one finds the key and does not poll
  let resumed : Machine (VirtualClock Int) :=
    (m.step leaving).1.paused (some [.press 5]) false { clock := ⟨0, 0, 0⟩ }
  have hdowns : resumed.around.keyboard.nextCycle.dropStale.downs = [⟨5, 1⟩] := by
    show (((m.step leaving).1.around.keyboard).press 5).nextCycle.dropStale.downs = _
    rw [hkeyboard, hfetched]
    rfl
  have hwaited : resumed.waited silent = .key 5 :=
    congrArg Prod.fst (Surroundings.waitForKey_of_cons (s := resumed.fetched.around) silent hdowns)
  have hawaits' : resumed.AwaitsKey := by
    have hpc' : resumed.pc = m.pc := hpc
    have hstore' : resumed.store = m.store := hstore
    unfold AwaitsKey CanFetch nextInstruction nextWord at hawaits ⊢
    rw [hpc', hstore']
    exact hawaits
  have hbatches' : resumed.stepBatches silent = [] := by
    rw [stepBatches, (step_stores_at_once silent hawaits' hdowns).2.2.1]
    exact silent.feed.batches_self _
  have hresumed : Resumed m [[], [.press 5]] (resumed.step silent).1 := by
    have hchain := Resumed.again hquiet.1 hleaving (some [.press 5]) false { clock := ⟨0, 0, 0⟩ }
      (.last hquiet.2.2 hwaited)
    rw [hbatches, hbatches'] at hchain
    exact hchain
  -- a single one gets it at its second poll
  have hstaying : m.waited staying = .key 5 := by
    rw [waited, hfetched]
    rfl
  have huninterrupted : Uninterrupted staying m [[], [.press 5]] := by
    refine ⟨rfl, ?_, hquiet.2.1, by rw [hstaying]; nofun, ?_⟩
    · rw [hstart]
      rfl
    · show 2 ≤ 3 - m.around.naps + 1
      rw [hstart]
      exact Nat.le_add_left 2 2
  have hkey : (m.step staying).1.reg 0 = 5 := hx ▸ (gotten_of_key hquiet.2.1 hawaits hstaying).2.reg
  have hregisters := (hresumes _ _ hresumed staying huninterrupted).2.2.1
  refine ⟨m, _, leaving, staying, hreachable, hleaving, hpc, hresumed, ?_, hkey⟩
  rw [reg, ← hregisters]
  exact hkey

end Machine

end Chip8

import Chip8.Proofs.Keyboard.Outcome
import Chip8.Proofs.Session.Course
import Chip8.Proofs.Session.Moments
import Chip8.Proofs.Session.Plain

/-!
# Nothing is executed once the user wants to leave

A run learns at its polls that the user wants to leave: at those that its passes begin with, where
it ends at once, and at those of its key waits.  A wait that learns of it ends with the same poll,
with a key-down that this poll has brought or cancelled (`Machine.LeavesIn.step`).  The run then
polls once more, unless it has reached its limit, and ends (`Session.AtHead.runsTo_of_leavesIn`).

Hence the polls of a run can be counted: there is one for each instruction, there are those of the
key waits, and there is one more if the user leaves (`Session.polls_run`).
-/

namespace Chip8

/-! ### The wish to leave -/

/-- Whether the user wants to leave from now on, if the event tells. -/
def Event.wish? {τ : Type} : Event τ → Option Bool
  | .exit => some true
  | .stay => some false
  | _ => none

namespace Feed

variable {τ : Type}

/-- Whether the user wants to leave after a poll, if its events tell. -/
def wishAt? (f : Feed τ) (n : Nat) : Option Bool := ((f.atPoll n).filterMap Event.wish?).getLast?

/-- Once a poll has brought the wish to leave, no later poll takes it back. -/
def Insists (f : Feed τ) : Prop :=
  ∀ n m, n < m → f.wishAt? n = some true → f.wishAt? m ≠ some false

end Feed

namespace Surroundings

variable {κ τ : Type} [Clock κ τ] {a : Attendant τ} {s : Surroundings κ} {n : Nat}

/-- The last wish counts. -/
theorem exitRequested_deliver (s : Surroundings κ) (events : List (Event τ)) :
    (s.deliver events).exitRequested =
      (events.filterMap Event.wish?).getLast?.getD s.exitRequested := by
  induction events generalizing s with
  | nil => rfl
  | cons e events ih =>
    refine (ih (s.occur e)).trans ?_
    cases e <;> simp [Event.wish?, occur, List.getLast?_cons]

theorem wishAt?_of_deliver {feed : Feed τ} (hbefore : s.exitRequested = false)
    (hbehind : (s.deliver (feed.atPoll n)).exitRequested = true) :
    feed.wishAt? n = some true := by
  rw [exitRequested_deliver, hbefore] at hbehind
  unfold Feed.wishAt?
  cases hwish : ((feed.atPoll n).filterMap Event.wish?).getLast? with
  | none => simp [hwish] at hbehind
  | some wish => simpa [hwish] using hbehind

theorem exitRequested_poll {feed : Feed τ} (h : s.exitRequested = true)
    (hwish : feed.wishAt? (s.polls + 1) ≠ some false) : (s.poll feed).exitRequested = true := by
  refine (exitRequested_deliver _ _).trans ?_
  unfold Feed.wishAt? at hwish
  cases hbrought : ((feed.atPoll (s.polls + 1)).filterMap Event.wish?).getLast? with
  | none => exact h
  | some wish => simpa [hbrought] using hwish

/-! ### Key waits -/

/-- The key wait makes its poll number `n`, counted from nought. -/
def Makes (a : Attendant τ) (s : Surroundings κ) (n : Nat) : Prop :=
  s.polls + n < (s.waitForKey a).2.polls

theorem Makes.queue_eq_nil (h : s.Makes a n) : s.freshen.keyboard.downs = [] := by
  cases hqueue : s.freshen.keyboard.downs with
  | nil => rfl
  | cons d rest =>
    have hpolls : s.polls + n < s.polls := by
      have hmade : s.polls + n < (s.waitForKey a).2.polls := h
      rw [waitForKey_of_cons a hqueue] at hmade
      exact hmade
    omega

/-- A wait that makes poll number `n` has gone through `n` rounds without a result. -/
theorem Makes.rounds (h : s.Makes a n) :
    n ≤ a.patience - s.naps ∧ s.SilentFor a (2 * n) ∧ ∀ m < n, ¬ s.LeavesAt a m := by
  have hqueue := h.queue_eq_nil
  induction n with
  | zero => exact ⟨Nat.zero_le _, nofun, nofun⟩
  | succ n ih =>
    have hmade : s.polls + (n + 1) < (s.waitForKey a).2.polls := h
    obtain ⟨hroom, hsilent, hstays⟩ := ih (Nat.lt_of_succ_lt hmade)
    -- a wait that ends in round `n` polls no more
    have hends {polls : Nat} (hpolls : (s.waitForKey a).2.polls = s.polls + polls)
        (hle : polls ≤ n + 1) : False := by omega
    have hsilent' : s.SilentFor a (2 * n + 1) := by
      refine hsilent.succ (Keyboard.latest_eq_nil.1 ?_)
      cases hd : Keyboard.latest (s.downsIn a (2 * n)) with
      | nil => rfl
      | cons d rest =>
        have hpolls := (ends_of_poll hqueue hroom hsilent hstays hd).polls
        exact (hends hpolls (by split <;> omega)).elim
    have hstays' : ∀ m < n + 1, ¬ s.LeavesAt a m := by
      intro m hm hleaves
      rcases Nat.lt_succ_iff_lt_or_eq.1 hm with hlt | rfl
      · exact hstays m hlt hleaves
      · have hpolls := (ends_of_leaving hqueue hroom hsilent' hstays hleaves).polls
        exact hends hpolls (by split <;> omega)
    have hroom' : n + 1 ≤ a.patience - s.naps := by
      by_contra hfull
      obtain ⟨t, hidled, hwait⟩ :=
        exists_rest hqueue hroom (hsilent.mono (Nat.sub_le _ 1)) hstays
      have hround := hidled.waitRound_of_silent hsilent' hqueue
      rw [if_neg fun h => hstays' n (Nat.lt_succ_self n) (hidled.leaves_iff.1 h)] at hround
      have hlast : a.patience - s.naps - n = 0 := by omega
      rw [hlast, waitRounds, hround] at hwait
      have hpolls : (s.waitForKey a).2.polls = s.polls + if a.polled then n + 1 else 0 := by
        rw [hwait]
        show ((t.pollFor a).askFor a).2.polls = _
        rw [askFor_polls, pollFor_polls, hidled.polls]
        split <;> omega
      exact hends hpolls (by split <;> omega)
    refine ⟨hroom', hsilent'.succ (Keyboard.latest_eq_nil.1 ?_), hstays'⟩
    cases hd : Keyboard.latest (s.downsIn a (2 * n + 1)) with
    | nil => rfl
    | cons d rest =>
      have hpolls := (ends_of_nap hqueue hroom' hsilent' hstays' hd).polls
      exact (hends hpolls (by split <;> omega)).elim

/-- A key wait that makes poll number `n` and finds behind it that the user wants to leave. -/
theorem Makes.ends_of_leaving (h : s.Makes a n) (hleaves : s.LeavesAt a n) :
    a.polled = true ∧ (s.waitForKey a).2.polls = s.polls + (n + 1) ∧
      (s.waitForKey a).2.naps = s.naps + n ∧ (s.waitForKey a).2.exitRequested = true ∧
      ((∃ d ∈ s.downsIn a (2 * n), (s.waitForKey a).1 = .key d.key) ∨
        (s.waitForKey a).1 = .cancelled) := by
  have hqueue := h.queue_eq_nil
  obtain ⟨hroom, hsilent, hstays⟩ := h.rounds
  obtain ⟨result, queue, checks, hends, hexit, hresult⟩ : ∃ result queue checks,
      Ends a s result queue (n + 1) checks n ∧ (s.waitForKey a).2.exitRequested = true ∧
        ((∃ d ∈ s.downsIn a (2 * n), result = .key d.key) ∨ result = .cancelled) := by
    cases hd : Keyboard.latest (s.downsIn a (2 * n)) with
    | nil =>
      have hsilent' := hsilent.succ (Keyboard.latest_eq_nil.1 hd)
      obtain ⟨t, hidled, hwait⟩ := exists_wait_of_leaving hqueue hroom hsilent' hstays hleaves
      refine ⟨_, _, _, Surroundings.ends_of_leaving hqueue hroom hsilent' hstays hleaves, ?_,
        .inr rfl⟩
      rw [hwait, (askFor_alike a _).exitRequested, hidled.polled.exitRequested]
      exact hleaves.2
    | cons d rest =>
      obtain ⟨t, hidled, hwait⟩ := exists_wait_of_poll hqueue hroom hsilent hstays hd
      refine ⟨_, _, _, ends_of_poll hqueue hroom hsilent hstays hd, ?_, .inl ⟨d, ?_, rfl⟩⟩
      · rw [hwait]
        exact hidled.polled.exitRequested.trans hleaves.2
      · have hmem : d ∈ Keyboard.latest (s.downsIn a (2 * n)) := by simp [hd]
        exact List.mem_of_mem_drop hmem
  have hpolls := hends.polls
  have hmade : s.polls + n < (s.waitForKey a).2.polls := h
  have hpolled : a.polled = true := by
    by_contra hnever
    rw [if_neg hnever] at hpolls
    omega
  rw [if_pos hpolled] at hpolls
  exact ⟨hpolled, hpolls, hends.naps, hexit, hends.result ▸ hresult⟩

end Surroundings

namespace Machine

variable {κ τ : Type} [Clock κ τ] {a : Attendant τ} {m : Machine κ} {n : Nat}

/-- The next instruction waits for a key, makes poll number `n` of its wait, and the user first
wants to leave behind this poll. -/
structure LeavesIn (a : Attendant τ) (n : Nat) (m : Machine κ) : Prop where
  /-- It waits for a key. -/
  awaits : m.AwaitsKey
  /-- It makes the poll. -/
  makes : m.fetched.around.Makes a n
  /-- Before the poll the user does not want to leave. -/
  before : (m.fetched.around.afterBatches a (2 * n)).exitRequested = false
  /-- Behind it the user does. -/
  behind : (m.fetched.around.afterBatches a (2 * n + 1)).exitRequested = true

/-- The key wait ends with this poll: with a key-down that it brought, or cancelled. -/
theorem LeavesIn.step (h : m.LeavesIn a n) (hheeded : a.heeded = true)
    (hback : previousAddress (nextAddress m.pc) = m.pc) :
    (m.step a).2 = .ok m.nextInstruction ∧
      (m.step a).1.around.polls = m.around.polls + (n + 1) ∧
      (m.step a).1.around.naps = m.around.naps + n ∧
      (m.step a).1.around.exitRequested = true ∧
      ((∃ d ∈ m.fetched.around.downsIn a (2 * n),
        (m.step a).1.registers = (m.setReg m.nextInstruction.x d.key).registers ∧
          (m.step a).1.pc = nextAddress m.pc) ∨
        ((m.step a).1.registers = m.registers ∧ (m.step a).1.pc = m.pc)) := by
  obtain ⟨-, hpolls, hnaps, hexit, hresult⟩ := h.makes.ends_of_leaving ⟨hheeded, h.behind⟩
  rcases hwait : m.fetched.around.waitForKey a with ⟨result, around⟩
  rw [hwait] at hpolls hnaps hexit hresult
  rcases hresult with ⟨d, hd, rfl⟩ | rfl
  · obtain ⟨journal, hstep⟩ := step_of_key a h.awaits hwait
    rw [hstep]
    exact ⟨rfl, hpolls, hnaps, hexit, .inl ⟨d, hd, rfl, rfl⟩⟩
  · rw [step_of_cancelled a h.awaits hwait]
    exact ⟨rfl, hpolls, hnaps, hexit, .inr ⟨rfl, hback⟩⟩

theorem LeavesIn.polled (h : m.LeavesIn a n) (hheeded : a.heeded = true)
    (hinsists : a.feed.Insists) {after : Machine κ}
    (hpolls : after.around.polls = m.around.polls + (n + 1))
    (hexit : after.around.exitRequested = true) :
    (after.polled a).around.exitRequested = true := by
  obtain ⟨hpolled, -⟩ := h.makes.ends_of_leaving ⟨hheeded, h.behind⟩
  have hbatch : m.fetched.around.batch a (2 * n) = a.feed.atPoll (m.around.polls + n + 1) := by
    have heven : 2 * n % 2 = 0 := by omega
    have hhalf : 2 * n / 2 = n := by omega
    rw [Surroundings.batch, if_pos heven, if_pos hpolled, hhalf]
    rfl
  have hbehind := h.behind
  rw [Surroundings.afterBatches, hbatch] at hbehind
  have hwish := Surroundings.wishAt?_of_deliver h.before hbehind
  exact Surroundings.exitRequested_poll hexit (hinsists _ _ (by omega) hwish)

end Machine

namespace Session

variable {κ τ : Type} [Clock κ τ]
variable [Add τ] [Sub τ] [Neg τ] [LT τ] [LE τ] [OfNat τ 0] [DecidableLT τ] [DecidableLE τ]
variable {u : Setup τ} {s head : Session κ τ} {d : Schedule τ} {k : Nat} {bound : Option Int}
  {r : Session κ τ × Ending}

/-! ### The head of a pass -/

/-- Unless its limit ends it before, the run gets to the head of pass number `k`, counted from
nought, and this is the session there. -/
def AtHead (u : Setup τ) (s : Session κ τ) (k : Nat) (head : Session κ τ) : Prop :=
  ((s.setOut u).schedule u).2.passes u k ((s.setOut u).schedule u).1 = (head, .limit)

theorem exists_passes_add (h : s.passes u k d = (head, .limit)) :
    ∃ next, ∀ n, s.passes u (k + n) d = head.passes u n next := by
  induction k generalizing s d with
  | zero =>
    obtain ⟨rfl, -⟩ := Prod.mk.inj h
    exact ⟨d, fun n => by rw [Nat.zero_add]⟩
  | succ k ih =>
    have hgoes : (s.pass u d).2.2 = none := goes_on_of_limit (congrArg Prod.snd h)
    rw [passes_of_goes_on k hgoes] at h
    obtain ⟨next, hnext⟩ := ih h
    refine ⟨next, fun n => ?_⟩
    rw [Nat.add_right_comm, passes_of_goes_on _ hgoes]
    exact hnext n

theorem passes_of_le {n : Nat} (h : (s.passes u n d).2 ≠ .limit) (hle : n ≤ k) :
    s.passes u k d = s.passes u n d := by
  induction n generalizing s d k with
  | zero => exact absurd rfl h
  | succ n ih =>
    obtain ⟨k, rfl⟩ := Nat.exists_eq_add_of_le' hle
    rw [← Nat.add_assoc]
    cases hending : (s.pass u d).2.2 with
    | some ending => rw [passes_of_stops _ hending, passes_of_stops _ hending]
    | none =>
      rw [passes_of_goes_on _ hending] at h ⊢
      rw [passes_of_goes_on _ hending]
      exact ih h (Nat.le_add_left n k)

theorem run_of_passes {n : Nat} {after : Session κ τ} {ending : Ending}
    (h : ((s.setOut u).schedule u).2.passes u n ((s.setOut u).schedule u).1 = (after, ending)) :
    s.run u n = (after.finish u ending, ending) := by
  obtain ⟨rfl, rfl⟩ := Prod.mk.inj h.symm
  rfl

theorem run_of_le {n : Nat} (h : (s.run u n).2 ≠ .limit) (hle : n ≤ k) : s.run u k = s.run u n :=
  run_of_passes (passes_of_le h hle)

/-- What a run comes to that may execute so many instructions, and none if the number is negative; a
run without a bound may execute any number. -/
def RunsTo (u : Setup τ) (s : Session κ τ) (bound : Option Int) (r : Session κ τ × Ending) : Prop :=
  ComesTo (fun n => s.run u n) (bound.map Int.toNat) r

theorem RunsTo.unique {r' : Session κ τ × Ending} (h : s.RunsTo u bound r)
    (h' : s.RunsTo u bound r') : r = r' :=
  ComesTo.unique (fun _ _ hending hle => run_of_le hending hle) h h'

theorem RunsTo.exists_limit (h : s.RunsTo u bound r) :
    ∃ limit, s.run u limit = r ∧ ∀ b ∈ bound, limit = b.toNat := by
  cases bound with
  | none =>
    obtain ⟨-, limit, hrun⟩ := h
    exact ⟨limit, hrun, nofun⟩
  | some b => exact ⟨b.toNat, h, fun b' hb' => by rw [Option.mem_some_iff.1 hb']⟩

/-- If a run comes to the same end with all limits from some on, it comes to it with all bounds that
admit as many instructions. -/
theorem runsTo_of_run (hending : r.2 ≠ .limit) (h : ∀ n, k < n → s.run u n = r)
    (hbound : ∀ b ∈ bound, (k : Int) < b) : s.RunsTo u bound r := by
  cases bound with
  | none => exact ⟨hending, k + 1, h _ (Nat.lt_succ_self k)⟩
  | some b =>
    have hb : (k : Int) < b := hbound b rfl
    exact h b.toNat (by omega)

/-- **A user who wants to leave at the poll of a pass leaves.** -/
theorem AtHead.runsTo_of_exit (h : s.AtHead u k head) (hexit : (head.polled u).exitRequested = true)
    (hbound : ∀ b ∈ bound, (k : Int) < b) :
    s.RunsTo u bound (((head.polled u).note "Exit requested").finish u .exit, .exit) := by
  obtain ⟨next, hpasses⟩ := exists_passes_add h
  refine runsTo_of_run (by nofun) (fun n hn => ?_) hbound
  obtain ⟨j, rfl⟩ := Nat.exists_eq_add_of_lt hn
  have hpass := pass_of_exit u next hexit
  have hrest := hpasses (j + 1)
  rw [passes_of_stops j (by rw [hpass]), hpass] at hrest
  exact run_of_passes hrest

theorem AtHead.next (h : s.AtHead u k head) (hstaying : (head.polled u).exitRequested = false)
    {i : Instruction} (hdone : ((head.polled u).machine.step u.attendant).2 = .ok i) :
    ∃ after, s.AtHead u (k + 1) after ∧ (head.stepped u).machine.Agrees after.machine := by
  obtain ⟨next, hpasses⟩ := exists_passes_add h
  have hpass := pass_of_completed u next hstaying hdone
  refine ⟨((head.stepped u).afterInstruction u next).1, ?_, afterInstruction_agrees u _ _⟩
  rw [AtHead, hpasses 1, passes_of_goes_on 0 (by rw [hpass]), hpass]
  rfl

theorem AtHead.run_eq (h : s.AtHead u k head) : s.run u k = (head.finish u .limit, .limit) :=
  run_of_passes h

/-- **A user who wants to leave in a key wait leaves behind its instruction.** -/
theorem AtHead.runsTo_of_leavesIn (h : s.AtHead u k head)
    (hstaying : (head.polled u).exitRequested = false) {n : Nat}
    (hleaves : (head.polled u).machine.LeavesIn u.attendant n) (hheeded : u.attendant.heeded = true)
    (hinsists : u.attendant.feed.Insists)
    (hback : Machine.previousAddress (Machine.nextAddress (head.polled u).machine.pc) =
      (head.polled u).machine.pc) (hbound : ∀ b ∈ bound, (k : Int) < b) :
    let after := ((head.polled u).machine.step u.attendant).1
    ∃ r, s.RunsTo u bound r ∧
      if bound = some (k + 1 : Int) then r.2 = .limit ∧ r.1.machine.Same after
      else r.2 = .exit ∧ r.1.machine.Same (after.polled u.attendant) := by
  intro after
  obtain ⟨hdone, hpolls, -, hexit, -⟩ := hleaves.step hheeded hback
  obtain ⟨next, hnext, hagrees⟩ := h.next hstaying hdone
  have hsame : next.machine.bare = after.bare := hagrees.bare
  by_cases hlast : bound = some (k + 1 : Int)
  · refine ⟨(next.finish u .limit, .limit), ?_, ?_⟩
    · rw [hlast]
      exact hnext.run_eq
    · rw [if_pos hlast]
      exact ⟨rfl, Machine.same_iff_bare_eq.2 ((finish_agrees u next .limit).bare.trans hsame)⟩
  · have hbound' : ∀ b ∈ bound, ((k + 1 : Nat) : Int) < b := by
      intro b hb
      have hk := hbound b hb
      have hne : b ≠ k + 1 := fun heq => hlast (heq ▸ hb)
      omega
    have hpolled : (next.polled u).machine.bare = (after.polled u.attendant).bare := by
      rw [← Machine.bare_polled, ← hsame, Machine.bare_polled]
      rfl
    have hleaving : (next.polled u).exitRequested = true := by
      have hafter := hleaves.polled hheeded hinsists hpolls hexit
      exact (congrArg (fun m => m.around.exitRequested) hpolled).trans hafter
    refine ⟨_, hnext.runsTo_of_exit hleaving hbound', ?_⟩
    rw [if_neg hlast]
    refine ⟨rfl, Machine.same_iff_bare_eq.2 ?_⟩
    exact (finish_agrees u ((next.polled u).note _) .exit).bare.trans hpolled

/-! ### Instructions and polls -/

/-- The polls of the key wait at a head; there are none if the instruction is another one. -/
def waitPolls (u : Setup τ) (head : Session κ τ) : Nat :=
  let m := (head.polled u).machine
  if m.AwaitsKey then (m.fetched.around.waitForKey u.attendant).2.polls - m.around.polls else 0

omit [Add τ] [Sub τ] [Neg τ] [LT τ] [LE τ] [OfNat τ 0] [DecidableLT τ] [DecidableLE τ] in
theorem polls_stepped (u : Setup τ) (s : Session κ τ) :
    (s.stepped u).machine.around.polls = s.machine.around.polls + 1 + s.waitPolls u := by
  have hpolled : (s.polled u).machine.around.polls = s.machine.around.polls + 1 :=
    Surroundings.deliver_polls _ _
  unfold waitPolls stepped
  dsimp only
  by_cases hawaits : (s.polled u).machine.AwaitsKey
  · obtain ⟨journal, haround⟩ := Machine.around_step_of_awaitsKey u.attendant hawaits
    have hle : (s.polled u).machine.around.polls ≤
        ((s.polled u).machine.fetched.around.waitForKey u.attendant).2.polls :=
      Surroundings.polls_le_waitForKey u.attendant (s.polled u).machine.fetched.around
    rw [haround, if_pos hawaits]
    dsimp only
    omega
  · obtain ⟨timers, journal, haround⟩ := Machine.around_step_of_not_awaitsKey u.attendant hawaits
    rw [haround, if_neg hawaits]
    exact hpolled

theorem length_heads_le (u : Setup τ) (n : Nat) (s : Session κ τ) (d : Schedule τ) :
    (s.heads u n d).length ≤ n := by
  induction n generalizing s d with
  | zero => exact Nat.le_refl 0
  | succ n ih =>
    cases hending : (s.pass u d).2.2 with
    | some ending => simp [heads_of_stops n hending]
    | none =>
      rw [heads_of_goes_on n hending]
      exact Nat.succ_le_succ (ih _ _)

theorem cycles_passes (u : Setup τ) (n : Nat) (s : Session κ τ) (d : Schedule τ) :
    (s.passes u n d).1.machine.cycles = s.machine.cycles + (s.heads u n d).length := by
  induction n generalizing s d with
  | zero => rfl
  | succ n ih =>
    have hpass := cycles_pass u s d
    cases hending : (s.pass u d).2.2 with
    | some ending =>
      rw [hending] at hpass
      rw [passes_of_stops n hending, heads_of_stops n hending]
      exact hpass
    | none =>
      rw [hending] at hpass
      rw [passes_of_goes_on n hending, heads_of_goes_on n hending, ih, hpass, List.length_cons,
        Option.isNone_none, if_pos rfl]
      omega

/-- **A run polls** once for each instruction, as often as its key waits do, and once more if the
user leaves. -/
theorem polls_passes (u : Setup τ) (n : Nat) (s : Session κ τ) (d : Schedule τ)
    (h : ∀ fault, (s.passes u n d).2 ≠ .fault fault) :
    (s.passes u n d).1.machine.around.polls =
      s.machine.around.polls + (s.heads u n d).length +
        ((s.heads u n d).map fun head => head.1.waitPolls u).sum +
        if (s.passes u n d).2 = .exit then 1 else 0 := by
  induction n generalizing s d with
  | zero => rfl
  | succ n ih =>
    cases hending : (s.pass u d).2.2 with
    | some ending =>
      rw [passes_of_stops n hending] at h ⊢
      rw [heads_of_stops n hending]
      rcases pass_of_stops hending with ⟨rfl, hpass⟩ | ⟨fault, rfl, -⟩
      · rw [hpass]
        exact Surroundings.deliver_polls _ _
      · exact absurd rfl (h fault)
    | none =>
      have hpass : (s.pass u d).1.machine.around.polls =
          s.machine.around.polls + 1 + s.waitPolls u := by
        rw [pass_of_goes_on hending]
        exact (afterInstruction_agrees u (s.stepped u) d).polls.trans (polls_stepped u s)
      rw [passes_of_goes_on n hending] at h ⊢
      rw [heads_of_goes_on n hending, ih _ _ h, hpass, List.length_cons, List.map_cons,
        List.sum_cons]
      dsimp only
      omega

theorem cycles_run (u : Setup τ) (limit : Nat) (s : Session κ τ) :
    (s.run u limit).1.machine.cycles = s.machine.cycles + (s.headsOfRun u limit).length := by
  have hstart := (setOut_agrees u s).trans (schedule_agrees u _)
  have hpasses := cycles_passes u limit ((s.setOut u).schedule u).2 ((s.setOut u).schedule u).1
  rw [hstart.cycles] at hpasses
  exact (finish_agrees u _ _).cycles.trans hpasses

theorem polls_run (u : Setup τ) (limit : Nat) (s : Session κ τ)
    (h : ∀ fault, (s.run u limit).2 ≠ .fault fault) :
    (s.run u limit).1.machine.around.polls =
      s.machine.around.polls + (s.headsOfRun u limit).length +
        ((s.headsOfRun u limit).map fun head => head.1.waitPolls u).sum +
        if (s.run u limit).2 = .exit then 1 else 0 := by
  have hstart := (setOut_agrees u s).trans (schedule_agrees u _)
  have hpasses := polls_passes u limit ((s.setOut u).schedule u).2 ((s.setOut u).schedule u).1 h
  rw [hstart.polls] at hpasses
  exact (finish_agrees u _ _).polls.trans hpasses

theorem AtHead.reachable (h : s.AtHead u k head) (hs : s.machine.Reachable) :
    (head.polled u).machine.Reachable := by
  have hstart := (setOut_journaled u s).serves u.attendant
  have hlook := (follows_serves (κ := κ) u.attendant).look (s.setOut u)
  have hpasses := serves_passes u k ((s.setOut u).schedule u).2 ((s.setOut u).schedule u).1
  rw [h] at hpasses
  exact (hstart.trans (hlook.trans (hpasses.trans (serves_polled u head)))).reachable hs

/-- **Nothing is executed once the user wants to leave.**  Let the key waits of a run ask whether
the user wants to leave, and let no poll take this wish back once another one has brought it.  The
run may have any bound, or none, and it comes to one end only.

If the user wants to leave behind the poll at a head, the run ends there, and the machine is what
this poll has left.

If the user first wants to leave behind a poll of a key wait, the wait has made no poll and no nap
behind this one, and either it has stored a key-down that this poll has brought, or it is cancelled
and the program counter stands on its instruction again.  Then the run ends, with the machine that
the instruction has left, if its bound is reached; if not, it polls once more and ends then.

A run that does not fail completes as many instructions as its bound admits or fewer, and none with
a negative bound.  It polls once for each of them, as often as its key waits do, and once more if it
ends because the user leaves. -/
theorem nothing_after_leaving (hs : s.machine.Reachable) (hheeded : u.attendant.heeded = true)
    (hinsists : u.attendant.feed.Insists) (bound : Option Int) :
    (∀ r r', s.RunsTo u bound r → s.RunsTo u bound r' → r = r') ∧
    (∀ k head, s.AtHead u k head → (∀ b ∈ bound, (k : Int) < b) →
      (head.polled u).exitRequested = true →
      ∃ r, s.RunsTo u bound r ∧ r.2 = .exit ∧ r.1.machine.Same (head.polled u).machine) ∧
    (∀ k head n, s.AtHead u k head → (∀ b ∈ bound, (k : Int) < b) →
      (head.polled u).exitRequested = false →
      (head.polled u).machine.LeavesIn u.attendant n →
      let m := (head.polled u).machine
      let after := m.step u.attendant
      (after.2 = .ok m.nextInstruction ∧ after.1.around.polls = m.around.polls + (n + 1) ∧
        after.1.around.naps = m.around.naps + n) ∧
      ((∃ d ∈ m.fetched.around.downsIn u.attendant (2 * n),
        after.1.registers = (m.setReg m.nextInstruction.x d.key).registers ∧
          after.1.pc = m.pc + 2) ∨
        (after.1.registers = m.registers ∧ after.1.pc = m.pc)) ∧
      ∃ r, s.RunsTo u bound r ∧
        if bound = some (k + 1 : Int) then r.2 = .limit ∧ r.1.machine.Same after.1
        else r.2 = .exit ∧ r.1.machine.Same (after.1.polled u.attendant)) ∧
    ∀ r, s.RunsTo u bound r → (∀ fault, r.2 ≠ .fault fault) →
      ∃ limit, s.run u limit = r ∧
        let heads := s.headsOfRun u limit
        (∀ b ∈ bound, (heads.length : Int) ≤ max 0 b) ∧
        r.1.machine.cycles = s.machine.cycles + heads.length ∧
        r.1.machine.around.polls = s.machine.around.polls + heads.length +
          (heads.map fun head => head.1.waitPolls u).sum + if r.2 = .exit then 1 else 0 := by
  refine ⟨fun r r' h h' => h.unique h', fun k head hhead hbound hexit => ?_,
    fun k head n hhead hbound hstaying hleaves => ?_, fun r hr hfault => ?_⟩
  · exact ⟨_, hhead.runsTo_of_exit hexit hbound, rfl,
      Machine.same_iff_bare_eq.2 (finish_agrees u ((head.polled u).note _) .exit).bare⟩
  · intro m after
    obtain ⟨-, -, -, -, -, -, -, -, -, hforth, -, hback⟩ := (hhead.reachable hs).in_bounds
    obtain ⟨hdone, hpolls, hnaps, -, hresult⟩ := hleaves.step hheeded hback
    rw [hforth] at hresult
    exact ⟨⟨hdone, hpolls, hnaps⟩, hresult,
      hhead.runsTo_of_leavesIn hstaying hleaves hheeded hinsists hback hbound⟩
  · obtain ⟨limit, rfl, hlimit⟩ := hr.exists_limit
    refine ⟨limit, rfl, fun b hb => ?_, ?_, ?_⟩
    · have hle := length_heads_le u limit ((s.setOut u).schedule u).2 ((s.setOut u).schedule u).1
      have hb' := hlimit b hb
      rw [headsOfRun]
      omega
    · exact cycles_run u limit s
    · exact polls_run u limit s hfault

/-- A setup whose user asks to leave at the third poll. -/
def leavingAtThird : Setup Int where
  pace := ⟨1, 1, 1⟩
  rateText := "1"
  attendant :=
    { feed := { atPoll := fun n => if n = 3 then [.exit] else [] }
      interval := 1
      patience := 3 }

/-- A key wait that makes the second and the third poll of a run is cancelled, and the run makes one
more poll and no other instruction. -/
theorem cancelled_wait_is_last :
    ∃ s : Session (VirtualClock Int) Int,
      s.machine.Reachable ∧ leavingAtThird.attendant.heeded = true ∧
      leavingAtThird.attendant.feed.Insists ∧ s.machine.around.polls = 0 ∧
      ∃ r, s.RunsTo leavingAtThird none r ∧ r.2 = .exit ∧
        r.1.machine.cycles = s.machine.cycles + 1 ∧ r.1.machine.around.polls = 4 := by
  obtain ⟨m, journal, hboot, hholds, hpc, haround⟩ :=
    Machine.exists_holds #[0xF0, 0x0A] (by decide) (⟨0, 0, 0⟩ : VirtualClock Int)
  obtain ⟨s, rfl⟩ : ∃ s : Session (VirtualClock Int) Int, s.machine = m :=
    ⟨{ machine := m, ticker := { period := 1, rate := .ok 60 } }, rfl⟩
  let u := leavingAtThird
  have hreachable : s.machine.Reachable := .boot hboot
  have hinsists : u.attendant.feed.Insists := by
    intro n m _ _
    show ((if m = 3 then [Event.exit] else []).filterMap Event.wish?).getLast? ≠ some false
    split <;> simp [Event.wish?]
  obtain ⟨-, -, hwaits, -⟩ := nothing_after_leaving (u := u) hreachable rfl hinsists none
  have hhead : s.AtHead u 0 ((s.setOut u).schedule u).2 := rfl
  have hagrees := (setOut_agrees u s).trans (schedule_agrees u _)
  generalize ((s.setOut u).schedule u).2 = head at hhead hagrees
  obtain ⟨dirty, clock, notes, hmachine⟩ := hagrees
  -- the poll of the pass brings nothing, and then the program waits for a key
  have hpolled : (head.polled u).machine.around = { clock, journal := notes, polls := 1 } := by
    show head.machine.around.poll u.attendant.feed = _
    rw [hmachine, haround]
    rfl
  obtain ⟨hstore, hpc', hcycles⟩ : (head.polled u).machine.store = s.machine.store ∧
      (head.polled u).machine.pc = s.machine.pc ∧
      (head.polled u).machine.cycles = s.machine.cycles := by
    simp only [Session.polled, withAround, hmachine, and_self]
  have hholds' := hholds.of_store_eq hstore
  rw [hpc] at hpc'
  have hfetched : (head.polled u).machine.fetched.around =
      { clock, journal := notes, polls := 1, keyboard := Keyboard.nextCycle {} } := by
    show { (head.polled u).machine.around with
      keyboard := (head.polled u).machine.around.keyboard.nextCycle } = _
    rw [hpolled]
  have hleaves : (head.polled u).machine.LeavesIn u.attendant 1 := by
    refine ⟨⟨hholds'.canFetch 0 hpc' (by decide), ?_⟩, ?_, ?_, ?_⟩
    · rw [hholds'.nextInstruction 0 hpc' (by decide)]
      decide
    · rw [hfetched]
      exact Nat.lt_succ_self 2
    · rw [hfetched]
      rfl
    · rw [hfetched]
      rfl
  have hstaying : (head.polled u).exitRequested = false := by
    rw [exitRequested, hpolled]
  obtain ⟨⟨hdone, hpolls, -⟩, -, r, hr, hend⟩ := hwaits 0 head 1 hhead (by simp) hstaying hleaves
  rw [if_neg (by simp)] at hend
  obtain ⟨hexit, hsame⟩ := hend
  refine ⟨s, hreachable, rfl, hinsists, by rw [haround], r, hr, hexit, ?_, ?_⟩
  · have hstep := Machine.step_cycles u.attendant (head.polled u).machine
    rw [hdone, hcycles] at hstep
    exact hsame.cycles.trans hstep
  · rw [hpolled] at hpolls
    rw [hsame.polls]
    refine (Surroundings.deliver_polls _ _).trans ?_
    rw [hpolls]

end Session

end Chip8

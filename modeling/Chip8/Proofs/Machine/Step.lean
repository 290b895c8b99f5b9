import Chip8.Machine.Step
import Chip8.Proofs.Keyboard.Wait
import Chip8.Proofs.Machine.Execute

/-!
# What a step can do

`Machine.step` has seven ways to go, and `Machine.Outcome` lists them together with what leads to
each: the fetch fails; the word is no instruction; the operation fails; it is done; or it is a key
wait, which gets a key, is cancelled, or gives up.  Whoever asks what a step does to a part of the
machine takes these cases from `Machine.step_outcome` and does not open the definition again.

For the keyboard the cases come together in one row of deeds: the cycle begins, and a key wait does
what key waits do (`Machine.keyboard_step`).
-/

namespace Chip8

namespace Machine

variable {κ τ : Type} [Clock κ τ] {m : Machine κ}

/-! ### The next instruction -/

/-- The word at the program counter. -/
def nextWord (m : Machine κ) : Nat :=
  0x100 * (m.store.byteAt m.pc.toNat).toNat + (m.store.byteAt (m.pc.toNat + 1)).toNat

/-- The instruction at the program counter. -/
def nextInstruction (m : Machine κ) : Instruction := .decode m.nextWord

/-- The machine after the next instruction was fetched. -/
def fetched (m : Machine κ) : Machine κ := { m.beginCycle with pc := nextAddress m.pc }

/-- The memory holds the word at the program counter. -/
def CanFetch (m : Machine κ) : Prop := 0 ≤ m.pc ∧ m.pc + 2 ≤ m.store.size

instance (m : Machine κ) : Decidable m.CanFetch := inferInstanceAs (Decidable (_ ∧ _))

/-- The next instruction can be fetched, and it is a key wait. -/
def AwaitsKey (m : Machine κ) : Prop := m.CanFetch ∧ m.nextInstruction.op = some .awaitKey

instance (m : Machine κ) : Decidable m.AwaitsKey := inferInstanceAs (Decidable (_ ∧ _))

theorem nextWord_lt (m : Machine κ) : m.nextWord < 0x10000 := by
  unfold nextWord
  have hhigh := (m.store.byteAt m.pc.toNat).toNat_lt
  have hlow := (m.store.byteAt (m.pc.toNat + 1)).toNat_lt
  omega

theorem nextInstruction_word (m : Machine κ) : m.nextInstruction.word = m.nextWord := by
  have hlt := m.nextWord_lt
  simp only [nextInstruction, Instruction.decode, Instruction.decodeWith]
  omega

theorem fetch_of_canFetch (h : m.CanFetch) :
    m.beginCycle.fetch = .ok (m.nextWord, m.fetched) := by
  simp only [fetch, Store.readWord, beginCycle, Store.check_eq_ok_iff.2 h, Except.map]
  rfl

theorem fetch_of_check_error {fault : Fault} (h : m.store.check m.pc 2 = .error fault) :
    m.beginCycle.fetch = .error fault := by
  simp only [fetch, Store.readWord, beginCycle, h, Except.map]

/-! ### Notes and counts -/

/-- The machine with one more completed instruction. -/
def completed (m : Machine κ) : Machine κ := { m with cycles := m.cycles + 1 }

theorem noted_eq (m : Machine κ) (i : Instruction) (op : Op) :
    ∃ journal, m.noted i op = { m with around := { m.around with journal } } := by
  unfold noted
  split
  · split
    · exact ⟨_, rfl⟩
    · exact ⟨m.around.journal, rfl⟩
  · exact ⟨m.around.journal, rfl⟩

/-! ### The seven ways -/

/-- What a step can come to. -/
inductive Outcome (a : Attendant τ) (m : Machine κ) :
    Machine κ × Except Fault Instruction → Prop where
  /-- The memory does not hold the word. -/
  | unfetched {fault : Fault} (check : m.store.check m.pc 2 = .error fault) :
      Outcome a m (m.beginCycle, .error fault)
  /-- The word is no instruction. -/
  | unknown (fetch : m.CanFetch) (op : m.nextInstruction.op = none) :
      Outcome a m (m.fetched, .error (.unknownInstruction m.nextWord m.pc))
  /-- The operation fails. -/
  | refused {op : Op} {fault : Fault} (fetch : m.CanFetch)
      (op_eq : m.nextInstruction.op = some op) (other : op ≠ .awaitKey)
      (execute : m.fetched.execute m.nextInstruction op = .error fault) :
      Outcome a m (m.fetched, .error fault)
  /-- The operation is done. -/
  | done {op : Op} {after : Machine κ} (fetch : m.CanFetch)
      (op_eq : m.nextInstruction.op = some op) (other : op ≠ .awaitKey)
      (execute : m.fetched.execute m.nextInstruction op = .ok after) :
      Outcome a m ((after.noted m.nextInstruction op).completed, .ok m.nextInstruction)
  /-- A key wait gets a key. -/
  | keyed {key : Nat} {around : Surroundings κ} (awaits : m.AwaitsKey)
      (wait : m.fetched.around.waitForKey a = (.key key, around)) (journal : Journal) :
      Outcome a m
        (({ m.fetched with around := { around with journal } }.setReg m.nextInstruction.x
          key).completed, .ok m.nextInstruction)
  /-- A key wait is cancelled. -/
  | cancelled {around : Surroundings κ} (awaits : m.AwaitsKey)
      (wait : m.fetched.around.waitForKey a = (.cancelled, around)) :
      Outcome a m
        ({ m.fetched with around, pc := previousAddress m.fetched.pc }.completed,
          .ok m.nextInstruction)
  /-- A key wait gives up. -/
  | exhausted {around : Surroundings κ} (awaits : m.AwaitsKey)
      (wait : m.fetched.around.waitForKey a = (.exhausted, around)) :
      Outcome a m ({ m.fetched with around }, .error .waitedTooLong)

theorem step_of_canFetch (a : Attendant τ) (h : m.CanFetch) :
    m.step a =
      match m.fetched.perform a m.pc m.nextInstruction with
      | (after, .error fault) => (after, .error fault)
      | (after, .ok ()) => (after.completed, .ok m.nextInstruction) := by
  have hfetch := fetch_of_canFetch h
  unfold step
  dsimp only
  rw [hfetch]
  rfl

theorem perform_of_ne_awaitKey (a : Attendant τ) (address : Int) {i : Instruction} {op : Op}
    (hop : i.op = some op) (h : op ≠ .awaitKey) :
    m.perform a address i =
      match m.execute i op with
      | .ok after => (after.noted i op, .ok ())
      | .error fault => (m, .error fault) := by
  unfold perform
  rw [hop]
  cases op <;> first | rfl | exact absurd rfl h

theorem step_of_execute_ok (a : Attendant τ) (h : m.CanFetch) {op : Op} {after : Machine κ}
    (hop : m.nextInstruction.op = some op) (hother : op ≠ .awaitKey)
    (hexecute : m.fetched.execute m.nextInstruction op = .ok after) :
    m.step a = ((after.noted m.nextInstruction op).completed, .ok m.nextInstruction) := by
  rw [step_of_canFetch a h, perform_of_ne_awaitKey a m.pc hop hother, hexecute]

theorem step_of_key (a : Attendant τ) (h : m.AwaitsKey) {key : Nat} {around : Surroundings κ}
    (hwait : m.fetched.around.waitForKey a = (.key key, around)) :
    ∃ journal, m.step a =
      (({ m.fetched with around := { around with journal } }.setReg m.nextInstruction.x
        key).completed, .ok m.nextInstruction) := by
  obtain ⟨journal, hnoted⟩ :=
    ({ m.fetched with around }.setReg m.nextInstruction.x key).noted_eq m.nextInstruction .awaitKey
  refine ⟨journal, ?_⟩
  rw [step_of_canFetch a h.1]
  simp only [perform, h.2, awaitKey, hwait, hnoted]
  rfl

theorem step_of_cancelled (a : Attendant τ) (h : m.AwaitsKey) {around : Surroundings κ}
    (hwait : m.fetched.around.waitForKey a = (.cancelled, around)) :
    m.step a =
      ({ m.fetched with around, pc := previousAddress m.fetched.pc }.completed,
        .ok m.nextInstruction) := by
  rw [step_of_canFetch a h.1]
  simp only [perform, h.2, awaitKey, hwait]

theorem step_of_exhausted (a : Attendant τ) (h : m.AwaitsKey) {around : Surroundings κ}
    (hwait : m.fetched.around.waitForKey a = (.exhausted, around)) :
    m.step a = ({ m.fetched with around }, .error .waitedTooLong) := by
  rw [step_of_canFetch a h.1]
  simp only [perform, h.2, awaitKey, hwait]

theorem step_of_unknown (a : Attendant τ) (h : m.CanFetch) (hop : m.nextInstruction.op = none) :
    m.step a = (m.fetched, .error (.unknownInstruction m.nextWord m.pc)) := by
  rw [step_of_canFetch a h]
  simp only [perform, hop, nextInstruction_word]

/-- **What a step can come to**: one of seven ways. -/
theorem step_outcome (a : Attendant τ) (m : Machine κ) : m.Outcome a (m.step a) := by
  cases hcheck : m.store.check m.pc 2 with
  | error fault =>
    have hstep : m.step a = (m.beginCycle, .error fault) := by
      simp only [step, fetch_of_check_error hcheck]
    exact hstep ▸ .unfetched hcheck
  | ok _ =>
    have hfetch : m.CanFetch := Store.check_eq_ok_iff.1 hcheck
    cases hop : m.nextInstruction.op with
    | none =>
      exact step_of_unknown a hfetch hop ▸ .unknown hfetch hop
    | some op =>
      by_cases hawait : op = .awaitKey
      · have hawaits : m.AwaitsKey := ⟨hfetch, hawait ▸ hop⟩
        rcases hwait : m.fetched.around.waitForKey a with ⟨key | _ | _, around⟩
        · obtain ⟨journal, hstep⟩ := step_of_key a hawaits hwait
          exact hstep ▸ .keyed hawaits hwait journal
        · exact step_of_cancelled a hawaits hwait ▸ .cancelled hawaits hwait
        · exact step_of_exhausted a hawaits hwait ▸ .exhausted hawaits hwait
      · rw [step_of_canFetch a hfetch, perform_of_ne_awaitKey a m.pc hop hawait]
        cases hexecute : m.fetched.execute m.nextInstruction op with
        | error fault => exact .refused hfetch hop hawait hexecute
        | ok after => exact .done hfetch hop hawait hexecute

/-! ### What a step does to the keyboard -/

/-- What a step does to the keyboard. -/
def stepDeeds (a : Attendant τ) (m : Machine κ) : List Keyboard.Deed :=
  .nextCycle :: if m.AwaitsKey then m.fetched.around.waitDeeds a else []

theorem stepDeeds_of_awaitsKey (a : Attendant τ) (h : m.AwaitsKey) :
    m.stepDeeds a = .nextCycle :: m.fetched.around.waitDeeds a := by
  rw [stepDeeds, if_pos h]

theorem stepDeeds_of_not_awaitsKey (a : Attendant τ) (h : ¬ m.AwaitsKey) :
    m.stepDeeds a = [.nextCycle] := by
  rw [stepDeeds, if_neg h]

theorem reset_notMem_stepDeeds (a : Attendant τ) (m : Machine κ) : .reset ∉ m.stepDeeds a := by
  unfold stepDeeds
  split
  · simp [Surroundings.reset_notMem_waitDeeds]
  · simp

/-- A step that waits for a key leaves the surroundings as the wait does, but for a note. -/
theorem around_step_of_awaitsKey (a : Attendant τ) (h : m.AwaitsKey) :
    ∃ journal,
      (m.step a).1.around = { (m.fetched.around.waitForKey a).2 with journal } := by
  rcases hwait : m.fetched.around.waitForKey a with ⟨key | _ | _, around⟩
  · obtain ⟨journal, hstep⟩ := step_of_key a h hwait
    exact ⟨journal, by rw [hstep]; rfl⟩
  · exact ⟨around.journal, by rw [step_of_cancelled a h hwait]; rfl⟩
  · exact ⟨around.journal, by rw [step_of_exhausted a h hwait]⟩

/-- Any other step begins a cycle, and may change the timers and make a note. -/
theorem around_step_of_not_awaitsKey (a : Attendant τ) (h : ¬ m.AwaitsKey) :
    ∃ timers journal,
      (m.step a).1.around = { m.beginCycle.around with timers, journal } := by
  have houtcome := m.step_outcome a
  generalize m.step a = result at houtcome
  cases houtcome with
  | unfetched | unknown | refused => exact ⟨m.around.timers, m.around.journal, rfl⟩
  | @done op after fetch op_eq other execute =>
    obtain ⟨timers, haround⟩ := (execute_around execute).2
    obtain ⟨journal, hnoted⟩ := after.noted_eq m.nextInstruction op
    refine ⟨timers, journal, ?_⟩
    rw [hnoted]
    simp only [completed, haround]
    rfl
  | keyed awaits => exact absurd awaits h
  | cancelled awaits => exact absurd awaits h
  | exhausted awaits => exact absurd awaits h

/-- **What a step does to the keyboard**: the cycle begins, and a key wait waits. -/
theorem keyboard_step (a : Attendant τ) (m : Machine κ) :
    (m.step a).1.around.keyboard =
      (m.stepDeeds a).foldl Keyboard.perform m.around.keyboard := by
  by_cases hawaits : m.AwaitsKey
  · obtain ⟨journal, haround⟩ := around_step_of_awaitsKey a hawaits
    rw [haround, stepDeeds_of_awaitsKey a hawaits]
    exact Surroundings.keyboard_waitForKey a m.fetched.around
  · obtain ⟨timers, journal, haround⟩ := around_step_of_not_awaitsKey a hawaits
    rw [haround, stepDeeds_of_not_awaitsKey a hawaits]
    rfl

theorem step_cycle (a : Attendant τ) (m : Machine κ) :
    (m.step a).1.around.keyboard.cycle = m.around.keyboard.cycle + 1 := by
  -- the wait itself begins no cycle
  rw [keyboard_step, stepDeeds, List.foldl_cons]
  refine Keyboard.foldl_perform_cycle ?_ _
  split
  · exact Surroundings.nextCycle_notMem_waitDeeds a _
  · simp

theorem step_cycles (a : Attendant τ) (m : Machine κ) :
    (m.step a).1.cycles = m.cycles + if (m.step a).2.isOk then 1 else 0 := by
  have houtcome := m.step_outcome a
  generalize m.step a = result at houtcome
  cases houtcome with
  | unfetched | unknown | refused | exhausted | keyed | cancelled => rfl
  | @done op after fetch op_eq other execute =>
    obtain ⟨journal, hnoted⟩ := after.noted_eq m.nextInstruction op
    have hcycles : after.cycles = m.cycles := (execute_around execute).1
    rw [hnoted]
    exact congrArg (· + 1) hcycles

theorem step_cycles_le (a : Attendant τ) (m : Machine κ) : (m.step a).1.cycles ≤ m.cycles + 1 := by
  rw [step_cycles]
  split
  · exact Nat.le_refl _
  · exact Nat.le_succ _

/-! ### What a step does to the screen -/

/-- The step completes the clearing of the screen or a drawing. -/
def draws (a : Attendant τ) (m : Machine κ) : Bool :=
  match (m.step a).2 with
  | .ok i => i.op = some .clearScreen ∨ i.op = some .draw
  | .error _ => false

theorem screen_noted (m : Machine κ) (i : Instruction) (op : Op) :
    (m.noted i op).screen = m.screen := by
  obtain ⟨journal, hnoted⟩ := m.noted_eq i op
  rw [hnoted]

theorem due_of_draws {a : Attendant τ} (h : m.draws a = true) :
    (m.step a).1.screen.dirty = true := by
  have houtcome := m.step_outcome a
  unfold draws at h
  generalize m.step a = result at houtcome h
  cases houtcome with
  | unfetched | unknown | refused | exhausted => cases h
  | @done op after fetch op_eq other execute =>
    simp only [op_eq, Option.some.injEq, decide_eq_true_eq] at h
    simp only [completed, screen_noted]
    exact due_of_execute execute h
  | keyed awaits | cancelled awaits => simp [awaits.2] at h

theorem screen_step_of_not_draws {a : Attendant τ} (h : m.draws a = false) :
    (m.step a).1.screen = m.screen := by
  have houtcome := m.step_outcome a
  unfold draws at h
  generalize m.step a = result at houtcome h
  cases houtcome with
  | unfetched | unknown | refused | keyed | cancelled | exhausted => rfl
  | @done op after fetch op_eq other execute =>
    simp only [op_eq, Option.some.injEq, decide_eq_false_iff_not, not_or] at h
    simp only [completed, screen_noted]
    exact (execute_spares execute).screen h.1 h.2

/-! ### What a key wait stores -/

/-- A key wait that finds a fresh key-down stores its key at once: there are no polls or naps. -/
theorem step_stores_at_once (a : Attendant τ) (h : m.AwaitsKey) {d : KeyDown}
    {rest : List KeyDown} (hd : m.around.keyboard.nextCycle.dropStale.downs = d :: rest) :
    (m.step a).2 = .ok m.nextInstruction ∧
      (m.step a).1.registers = m.registers.set m.nextInstruction.x d.key ∧
      (m.step a).1.around.polls = m.around.polls ∧ (m.step a).1.around.naps = m.around.naps ∧
      (m.step a).1.around.clock = m.around.clock := by
  have hwait := Surroundings.waitForKey_of_cons (s := m.fetched.around) a hd
  obtain ⟨journal, hstep⟩ := step_of_key a h hwait
  rw [hstep]
  exact ⟨rfl, rfl, rfl, rfl, rfl⟩

/-- A key wait that finds no fresh key-down polls, and what it stores came down in its course. -/
theorem step_stores_later (a : Attendant τ) (hpolled : a.polled = true) (h : m.AwaitsKey)
    {c : Keyboard.Chronicle} (hc : c.Sound) (hk : m.around.keyboard = c.keyboard)
    (hd : m.around.keyboard.nextCycle.dropStale.downs = []) :
    m.around.polls < (m.step a).1.around.polls ∧
      (((m.step a).1.registers = m.registers ∧
        ((m.stepDeeds a).foldl Keyboard.Chronicle.perform c).taken = c.taken) ∨
      ∃ i d, c.history.length ≤ i ∧
        ((m.stepDeeds a).foldl Keyboard.Chronicle.perform c).taken = c.taken ++ [i] ∧
        ((m.stepDeeds a).foldl Keyboard.Chronicle.perform c).history[i]? = some d ∧
        (m.step a).1.registers = m.registers.set m.nextInstruction.x d.key) := by
  have hpolls := Surroundings.polls_lt_waitForKey (s := m.fetched.around) a hpolled hd
  have hk' : m.fetched.around.keyboard = (c.perform .nextCycle).keyboard :=
    congrArg Keyboard.nextCycle hk
  have hempty : (c.perform .nextCycle).keyboard.dropStale.downs = [] := hk' ▸ hd
  have hlate := Surroundings.length_le_front_beforeTake a m.fetched.around _ hempty
  have hdeeds : (m.stepDeeds a).foldl Keyboard.Chronicle.perform c =
      Surroundings.afterWait a m.fetched.around (c.perform .nextCycle) := by
    rw [stepDeeds_of_awaitsKey a h]
    rfl
  rw [hdeeds]
  rcases hwait : m.fetched.around.waitForKey a with ⟨result, around⟩
  have hresult : (m.fetched.around.waitForKey a).1 = result := congrArg Prod.fst hwait
  rw [hwait] at hpolls
  cases result with
  | key key =>
    obtain ⟨journal, hstep⟩ := step_of_key a h hwait
    have hkey : (m.fetched.around.waitForKey a).1.key? = some key := by rw [hresult]; rfl
    obtain ⟨i, d, htaken, rfl, hi, rfl⟩ :=
      Surroundings.afterWait_taken_of_some hc.nextCycle hk' hkey
    rw [hstep]
    exact ⟨hpolls, .inr ⟨_, d, hlate, htaken, hi, rfl⟩⟩
  | cancelled =>
    have htaken := Surroundings.afterWait_taken_of_none hk' (by rw [hresult]; rfl)
    rw [step_of_cancelled a h hwait]
    exact ⟨hpolls, .inl ⟨rfl, htaken⟩⟩
  | exhausted =>
    have htaken := Surroundings.afterWait_taken_of_none hk' (by rw [hresult]; rfl)
    rw [step_of_exhausted a h hwait]
    exact ⟨hpolls, .inl ⟨rfl, htaken⟩⟩

end Machine

end Chip8

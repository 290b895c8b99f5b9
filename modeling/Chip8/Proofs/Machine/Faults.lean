import Chip8.Proofs.Instruction.Template
import Chip8.Proofs.Machine.Reach

/-!
# How a step fails, and what is left of it

`Machine.FailsWith` lists the ways in which the next instruction of a machine can fail, each with
the fault that is reported.  A step fails in these ways and in no other, unless it is a key wait
that gives up; and a failed step leaves everything as it was but for the cycle of the keyboard and,
if an instruction was fetched, the program counter (`Machine.Reachable.step_fails`).
-/

namespace Chip8

/-! ### The word of a return -/

theorem Op.find?_eq_leave_iff {word : Nat} (hw : word < 0x10000) :
    Op.find? Encoding.table word = some .leave ↔ word = 0x00EE := by
  constructor
  · intro h
    obtain ⟨e, he, hop, haccepts⟩ := Op.find?_eq_some h
    -- of all rows only one is a return, and its mask leaves no bit of the word free
    have hrow : ∀ e ∈ Encoding.table, e.op = .leave → e.mask = 2 ^ 16 - 1 ∧ e.pattern = 0x00EE := by
      decide
    obtain ⟨hmask, hpattern⟩ := hrow e he hop
    simp only [Encoding.accepts, hmask, hpattern, Nat.and_two_pow_sub_one_eq_mod,
      decide_eq_true_eq] at haccepts
    omega
  · rintro rfl
    decide

namespace Machine

variable {κ τ : Type} [Clock κ τ] {m : Machine κ}

theorem nextInstruction_op_eq_leave_iff :
    m.nextInstruction.op = some .leave ↔ m.nextWord = 0x00EE := by
  have hword := nextInstruction_word m
  have hop : m.nextInstruction.op = Op.find? Encoding.table m.nextInstruction.word := rfl
  rw [hop, hword]
  exact Op.find?_eq_leave_iff m.nextWord_lt

/-! ### The ways to fail -/

/-- The next instruction of a machine with the usual memory fails with this fault. -/
inductive FailsWith (m : Machine κ) : Fault → Prop where
  /-- The memory ends before the word does. -/
  | unfetched (beyond : 4096 < m.pc + 2) : FailsWith m (.outOfBounds (max m.pc 4096))
  /-- The memory ends before the block does that the instruction reads or writes. -/
  | overreach {op : Op} {length : Nat} (fetch : m.pc + 2 ≤ 4096)
      (op_eq : m.nextInstruction.op = some op)
      (reach : m.nextInstruction.reach? op = some length) (beyond : 4096 < m.index + length) :
      FailsWith m (.outOfBounds 4096)
  /-- The instruction returns, and no call is open. -/
  | emptyStack (fetch : m.pc + 2 ≤ 4096) (word : m.nextWord = 0x00EE) (stack : m.stack = []) :
      FailsWith m (.emptyStack m.pc)
  /-- The word is no instruction. -/
  | unknown (fetch : m.pc + 2 ≤ 4096) (op : m.nextInstruction.op = none) :
      FailsWith m (.unknownInstruction m.nextWord m.pc)

/-- What a failed step leaves: a cycle has begun, and a word may have been fetched. -/
def halted (m : Machine κ) : Machine κ :=
  { m with
    pc := if m.pc + 2 ≤ 4096 then m.pc + 2 else m.pc
    around := { m.around with
      keyboard := { m.around.keyboard with cycle := m.around.keyboard.cycle + 1 } } }

theorem Tidy.canFetch_iff (h : m.Tidy) : m.CanFetch ↔ m.pc + 2 ≤ 4096 := by
  unfold CanFetch
  rw [h.size_eq]
  exact ⟨And.right, fun hle => ⟨h.pc.1, hle⟩⟩

theorem Tidy.halted_of_canFetch (h : m.Tidy) (hfetch : m.CanFetch) : m.halted = m.fetched := by
  have hpc : nextAddress m.pc = m.pc + 2 := (h.fetched_pc hfetch).1
  unfold halted Machine.fetched
  rw [hpc, if_pos (h.canFetch_iff.1 hfetch)]
  rfl

theorem Tidy.halted_of_not_canFetch (h : m.Tidy) (hfetch : ¬ m.CanFetch) :
    m.halted = m.beginCycle := by
  simp only [halted, if_neg (mt h.canFetch_iff.2 hfetch)]
  rfl

/-- Within the memory, or at its end at the latest, a block that is too long is reported with the
first address behind the memory. -/
theorem Tidy.check_index_error_iff (h : m.Tidy) {length : Nat} {fault : Fault} :
    m.store.check m.index length = .error fault ↔
      4096 < m.index + length ∧ fault = .outOfBounds 4096 := by
  have hindex := h.index
  have hsize := h.size_eq
  by_cases hle : m.index + length ≤ m.store.size
  · rw [Store.check_of_le hindex.1 hle]
    simp
    omega
  · rw [Store.check_of_lt hindex.1 (by omega), hsize, show max m.index 0x1000 = 4096 by omega,
      Except.error.injEq, eq_comm]
    exact ⟨fun h => ⟨by omega, h⟩, And.right⟩

/-! ### The steps that fail -/

theorem step_of_check_error (a : Attendant τ) {fault : Fault}
    (h : m.store.check m.pc 2 = .error fault) : m.step a = (m.beginCycle, .error fault) := by
  simp only [step, fetch_of_check_error h]

theorem step_of_execute_error (a : Attendant τ) {op : Op} {fault : Fault} (hfetch : m.CanFetch)
    (hop : m.nextInstruction.op = some op) (hother : op ≠ .awaitKey)
    (h : m.fetched.execute m.nextInstruction op = .error fault) :
    m.step a = (m.fetched, .error fault) := by
  rw [step_of_canFetch a hfetch, perform_of_ne_awaitKey a m.pc hop hother, h]

theorem FailsWith.step_eq (hm : m.Tidy) (a : Attendant τ) {fault : Fault} (h : m.FailsWith fault) :
    m.step a = (m.halted, .error fault) := by
  cases h with
  | unfetched beyond =>
    have hsize := hm.size_eq
    have hcheck : m.store.check m.pc 2 = .error (.outOfBounds (max m.pc 4096)) := by
      rw [Store.check_of_lt hm.pc.1 (by omega), hsize]
    have hfetch : ¬ m.CanFetch := fun hfetch => by
      have := hm.canFetch_iff.1 hfetch
      omega
    rw [step_of_check_error a hcheck, hm.halted_of_not_canFetch hfetch]
  | @overreach op length fetch op_eq reach beyond =>
    have hfetch := hm.canFetch_iff.2 fetch
    have hother : op ≠ .awaitKey := by
      rintro rfl
      cases reach
    have hexecute : m.fetched.execute m.nextInstruction op = .error (.outOfBounds 4096) :=
      (execute_error_iff (hm.fetched hfetch).not_isEmpty).2
        (.inl ⟨length, reach, hm.check_index_error_iff.2 ⟨beyond, rfl⟩⟩)
    rw [step_of_execute_error a hfetch op_eq hother hexecute, hm.halted_of_canFetch hfetch]
  | emptyStack fetch word stack =>
    have hfetch := hm.canFetch_iff.2 fetch
    have hback : previousAddress m.fetched.pc = m.pc := by
      have hpc := hm.fetched_pc hfetch
      rw [previousAddress_eq hpc.2]
      omega
    have hexecute : m.fetched.execute m.nextInstruction .leave = .error (.emptyStack m.pc) :=
      (execute_error_iff (hm.fetched hfetch).not_isEmpty).2 (.inr ⟨rfl, stack, by rw [hback]⟩)
    rw [step_of_execute_error a hfetch (nextInstruction_op_eq_leave_iff.2 word) (by decide)
      hexecute, hm.halted_of_canFetch hfetch]
  | unknown fetch op =>
    have hfetch := hm.canFetch_iff.2 fetch
    rw [step_of_unknown a hfetch op, hm.halted_of_canFetch hfetch]

/-- A step that fails does so in one of the ways to fail, or it is a key wait that gives up. -/
theorem Tidy.failsWith_of_step (hm : m.Tidy) (a : Attendant τ) {fault : Fault}
    (h : (m.step a).2 = .error fault) :
    m.FailsWith fault ∨ (fault = .waitedTooLong ∧ m.AwaitsKey) := by
  have houtcome := m.step_outcome a
  generalize m.step a = result at houtcome h
  cases houtcome with
  | unfetched check =>
    cases h
    refine .inl ?_
    by_cases hle : m.pc + 2 ≤ 4096
    · rw [Store.check_eq_ok_iff.2 (hm.canFetch_iff.2 hle)] at check
      cases check
    · have hsize := hm.size_eq
      rw [Store.check_of_lt hm.pc.1 (by omega), hsize] at check
      cases check
      exact .unfetched (by omega)
  | unknown fetch op =>
    cases h
    exact .inl (.unknown (hm.canFetch_iff.1 fetch) op)
  | @refused op _ fetch op_eq other execute =>
    cases h
    refine .inl ?_
    rcases (execute_error_iff (hm.fetched fetch).not_isEmpty).1 execute with
      ⟨length, hreach, hcheck⟩ | ⟨rfl, hstack, rfl⟩
    · obtain ⟨hover, rfl⟩ := hm.check_index_error_iff.1 hcheck
      exact .overreach (hm.canFetch_iff.1 fetch) op_eq hreach hover
    · have hpc := hm.fetched_pc fetch
      rw [previousAddress_eq hpc.2, hpc.1, Int.add_sub_cancel]
      exact .emptyStack (hm.canFetch_iff.1 fetch) (nextInstruction_op_eq_leave_iff.1 op_eq) hstack
  | exhausted awaits =>
    cases h
    exact .inr ⟨rfl, awaits⟩
  | done | keyed | cancelled => cases h

/-- **A step fails in the ways to fail and in no other**, unless it is a key wait that gives up;
**and a failed step changes nothing**: registers, index register, stack, memory, screen, timers,
counts, held keys and waiting key-downs are what they were.  Only a cycle has begun, and the
program counter has moved on if there was a word to fetch. -/
theorem Reachable.step_fails (h : m.Reachable) (a : Attendant τ) :
    (∀ fault, fault ≠ .waitedTooLong → ((m.step a).2 = .error fault ↔ m.FailsWith fault)) ∧
    (∀ fault, m.FailsWith fault →
      (m.step a).1 =
        { m with
          pc := if m.pc + 2 ≤ 4096 then m.pc + 2 else m.pc
          around := { m.around with
            keyboard := { m.around.keyboard with cycle := m.around.keyboard.cycle + 1 } } }) ∧
    ((m.step a).2 = .error .waitedTooLong → m.AwaitsKey) := by
  have hm : m.Tidy := h.sound.toTidy
  refine ⟨fun fault hfault => ⟨fun hstep => ?_, fun hfails => ?_⟩, fun fault hfails => ?_,
    fun hstep => ?_⟩
  · exact (hm.failsWith_of_step a hstep).resolve_right fun hwait => hfault hwait.1
  · rw [hfails.step_eq hm]
  · rw [hfails.step_eq hm]
    rfl
  · rcases hm.failsWith_of_step a hstep with hfails | ⟨-, hawaits⟩
    · cases hfails
    · exact hawaits

/-- A program that begins with a return fails at once. -/
theorem first_return_fails :
    ∃ m : Machine (VirtualClock Int),
      boot Store.standardSize #[0x00, 0xEE] (.cycling #[]) { clock := ⟨0, 0, 0⟩ } = .ok m ∧
      (m.step ⟨⟨fun _ => [], fun _ => []⟩, true, true, 1, 0⟩).2 = .error (.emptyStack 0x200) := by
  obtain ⟨m, hboot, hpc, hstack, -, hbytes⟩ :=
    exists_boot #[0x00, 0xEE] (by decide) (.cycling #[])
      ({ clock := ⟨0, 0, 0⟩ } : Surroundings (VirtualClock Int))
  have hhigh : m.store.byteAt 0x200 = 0x00 := hbytes 0 (by decide)
  have hlow : m.store.byteAt 0x201 = 0xEE := hbytes 1 (by decide)
  have hword : m.nextWord = 0x00EE := by
    simp [nextWord, hpc, Store.programStart, hhigh, hlow]
  have hfails : m.FailsWith (.emptyStack m.pc) :=
    .emptyStack (by simp [hpc, Store.programStart]) hword hstack
  rw [hpc] at hfails
  exact ⟨m, hboot, (((Reachable.boot hboot).step_fails _).1 _ (by simp)).2 hfails⟩

end Machine

end Chip8

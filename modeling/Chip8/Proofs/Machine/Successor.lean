import Chip8.Proofs.Machine.Saving

/-!
# Where the program goes on

A completed instruction is the word at the program counter, whatever has been written there, and the
program goes on behind it.  The exceptions are four operations that leave the course of the program,
a key wait that is cancelled, and six operations that skip the next instruction on a condition
(`Machine.Skips`); these come in three pairs of opposite conditions.

The program counter of a machine that is being used is so small that it is never wrapped around
(`Machine.Reachable.goes_on`).
-/

namespace Chip8

/-- The number is that of a key, and the key is held down. -/
def Keyboard.HoldsDown (k : Keyboard) (key : Nat) : Prop := ∃ h : key < 16, k.held[key] = true

theorem Keyboard.isPressed_eq_true_iff (k : Keyboard) (key : Nat) :
    k.isPressed key = true ↔ k.HoldsDown key := by
  unfold isPressed
  split
  · next hkey =>
    obtain ⟨-, hlt⟩ := hkey
    exact ⟨fun hheld => ⟨by omega, hheld⟩, fun ⟨_, hheld⟩ => hheld⟩
  · next hkey =>
    refine ⟨nofun, fun ⟨hlt, _⟩ => absurd ?_ hkey⟩
    exact ⟨by omega, by omega⟩

/-- Two instructions test the same operands for opposite conditions. -/
inductive Instruction.Opposes (i j : Instruction) : Op → Op → Prop where
  /-- A register and a byte. -/
  | byte (x : i.x = j.x) (kk : i.kk = j.kk) : Opposes i j .skipIfByte .skipUnlessByte
  /-- Two registers. -/
  | equal (x : i.x = j.x) (y : i.y = j.y) : Opposes i j .skipIfEqual .skipUnlessEqual
  /-- The key whose number is in a register. -/
  | pressed (x : i.x = j.x) : Opposes i j .skipIfPressed .skipUnlessPressed

namespace Machine

variable {κ τ : Type} {m n after : Machine κ} {i j : Instruction} {op p q : Op}

/-- The condition on which an operation skips the next instruction. -/
def Skips (m : Machine κ) (i : Instruction) : Op → Prop
  | .skipIfByte => m.reg i.x = i.kk
  | .skipUnlessByte => m.reg i.x ≠ i.kk
  | .skipIfEqual => m.reg i.x = m.reg i.y
  | .skipUnlessEqual => m.reg i.x ≠ m.reg i.y
  | .skipIfPressed => m.around.keyboard.HoldsDown (m.reg i.x)
  | .skipUnlessPressed => ¬ m.around.keyboard.HoldsDown (m.reg i.x)
  | _ => False

/-- The operations that go on neither behind their instruction nor behind the next one. -/
def departing : List Op := [.jump, .call, .leave, .jumpOffset]

theorem skips_opposes (hregisters : m.registers = n.registers)
    (hheld : m.around.keyboard.held = n.around.keyboard.held) (h : i.Opposes j p q) :
    m.Skips i p ↔ ¬ n.Skips j q := by
  cases h with
  | byte x kk => simp [Skips, reg, hregisters, x, kk]
  | equal x y => simp [Skips, reg, hregisters, x, y]
  | pressed x => simp [Skips, reg, hregisters, Keyboard.HoldsDown, hheld, x]

/-! ### Operations -/

theorem pc_skipIf (m : Machine κ) {c : Bool} {skips : Prop} (hc : c = true ↔ skips) :
    (skips → (m.skipIf c).pc = nextAddress m.pc) ∧ (¬ skips → (m.skipIf c).pc = m.pc) := by
  rw [skipIf_eq, ← hc]
  exact ⟨fun h => if_pos h, fun h => if_neg h⟩

/-- **Where an operation that does not depart goes on**: it skips on its condition, else stays. -/
theorem execute_pc (h : m.execute i op = .ok after) (hop : op ∉ departing) :
    (m.Skips i op → after.pc = nextAddress m.pc) ∧ (¬ m.Skips i op → after.pc = m.pc) := by
  cases op
  case skipIfByte | skipUnlessByte | skipIfEqual | skipUnlessEqual =>
    cases h
    exact m.pc_skipIf decide_eq_true_iff
  case skipIfPressed =>
    cases h
    exact m.pc_skipIf (Keyboard.isPressed_eq_true_iff _ _)
  case skipUnlessPressed =>
    cases h
    refine m.pc_skipIf ?_
    rw [Bool.not_eq_true', ← Bool.not_eq_true, Keyboard.isPressed_eq_true_iff]
    rfl
  case draw | storeDecimal | dump | load =>
    obtain ⟨_, -, rfl⟩ := map_eq_ok h
    exact ⟨False.elim, fun _ => rfl⟩
  case jump | call | leave | jumpOffset => exact absurd (by decide) hop
  all_goals
    cases h
    exact ⟨False.elim, fun _ => rfl⟩

/-! ### Steps -/

variable [Clock κ τ]

theorem exitRequested_of_cancelled {a : Attendant τ} {s around : Surroundings κ}
    (h : s.waitForKey a = (.cancelled, around)) : around.exitRequested = true := by
  have hanswers := Surroundings.answers_waitForKey a s
  rw [h] at hanswers
  cases hanswers with
  | cancelled _ leaving alike => exact alike.exitRequested.trans leaving

/-- Where the program goes on after a completed step. -/
structure GoesOn (a : Attendant τ) (i : Instruction) (op : Op) (m after : Machine κ) : Prop where
  /-- Jumps and calls go to their address. -/
  jump : op ∈ [.jump, .call] → after.pc = i.nnn
  /-- A return goes to the latest return address. -/
  leave : op = .leave → m.stack.head? = some after.pc
  /-- A jump with an offset goes as far as the sum. -/
  offset : op = .jumpOffset → after.pc = i.nnn + m.reg first
  /-- A key wait stays if the user asked to leave, and else goes on with a key. -/
  wait : op = .awaitKey →
    ((m.fetched.around.waitForKey a).1 = .cancelled ∧ after.around.exitRequested = true ∧
      after.pc = m.pc) ∨
    ∃ key, (m.fetched.around.waitForKey a).1 = .key key ∧ after.pc = m.pc + 2
  /-- All others skip on their condition. -/
  skip : op ∉ departing → op ≠ .awaitKey →
    (after.pc = m.pc + 4 ↔ m.Skips i op) ∧ (after.pc = m.pc + 2 ↔ ¬ m.Skips i op)

/-- A step goes on where its operation does, unless it waits for a key. -/
theorem goesOn_of_execute (a : Attendant τ) (hm : m.Tidy) (hfetch : m.CanFetch)
    (hother : op ≠ .awaitKey) (h : m.fetched.execute i op = .ok after) :
    GoesOn a i op m (after.noted i op).completed := by
  obtain ⟨hpc, hlow, hhigh⟩ := hm.fetched_pc hfetch
  obtain ⟨journal, hnoted⟩ := after.noted_eq i op
  rw [hnoted]
  refine ⟨fun hop => ?_, ?_, ?_, fun hop => absurd hop hother, fun hop _ => ?_⟩
  · simp only [List.mem_cons, List.not_mem_nil, or_false] at hop
    rcases hop with rfl | rfl <;> cases h <;> rfl
  · rintro rfl
    have hstack : m.stack = after.pc :: after.stack := leave_eq_ok (m := m.fetched) h
    rw [hstack]
    rfl
  · rintro rfl
    cases h
    rfl
  · -- the counter is behind the instruction, and one more word takes it to the end at most
    obtain ⟨hskips, hstays⟩ := execute_pc h hop
    have hsame : m.fetched.Skips i op ↔ m.Skips i op := by cases op <;> exact Iff.rfl
    rw [nextAddress_eq (by omega), hpc, hsame] at hskips
    rw [hpc, hsame] at hstays
    change (after.pc = m.pc + 4 ↔ _) ∧ (after.pc = m.pc + 2 ↔ _)
    by_cases hcond : m.Skips i op
    · have hskipped := hskips hcond
      exact ⟨iff_of_true (by omega) hcond, iff_of_false (by omega) (not_not_intro hcond)⟩
    · have hstayed := hstays hcond
      exact ⟨iff_of_false (by omega) hcond, iff_of_true hstayed hcond⟩

theorem Completes.goesOn (hm : m.Tidy) {a : Attendant τ} (h : m.Completes a i op) :
    GoesOn a i op m (m.step a).1 := by
  by_cases hother : op ≠ .awaitKey
  · obtain ⟨hfetch, -, after, hexecute, hstep⟩ := h.executes hother
    rw [hstep]
    exact goesOn_of_execute a hm hfetch hother hexecute
  · obtain rfl : op = .awaitKey := not_not.1 hother
    refine ⟨fun hop => absurd hop (by decide), nofun, nofun, fun _ => ?_,
      fun _ hop => absurd rfl hop⟩
    obtain ⟨hstep, hop⟩ := h
    have houtcome := m.step_outcome a
    generalize m.step a = result at houtcome hstep
    cases houtcome with
    | unfetched | unknown | refused | exhausted => cases hstep
    | done _ op_eq other =>
      cases hstep
      exact absurd (Option.some.inj (op_eq.symm.trans hop)) other
    | keyed awaits wait =>
      exact .inr ⟨_, congrArg Prod.fst wait, (hm.fetched_pc awaits.1).1⟩
    | cancelled awaits wait =>
      obtain ⟨hpc, hbounds⟩ := hm.fetched_pc awaits.1
      have hback := previousAddress_eq hbounds
      refine .inl ⟨congrArg Prod.fst wait, exitRequested_of_cancelled wait, ?_⟩
      simp only [completed]
      omega

/-- The bytes of the next word are those that the memory has received. -/
theorem nextWord_of_receives {before : Store} {start : Int} {values : List Nat}
    (h : before.Receives start values m.store) {k v : Nat} (hv : values[k]? = some v) :
    (start + k = m.pc → m.nextWord / 0x100 = v) ∧ (start + k = m.pc + 1 → 0 ≤ m.pc →
      m.nextWord % 0x100 = v) := by
  have hstart := h.inside.1
  have hbyte := h.received k v hv
  have hhigh := (m.store.byteAt m.pc.toNat).toNat_lt
  have hlow := (m.store.byteAt (m.pc.toNat + 1)).toNat_lt
  refine ⟨fun hpc => ?_, fun hpc hpos => ?_⟩
  · rw [show start.toNat + k = m.pc.toNat by omega] at hbyte
    unfold nextWord
    omega
  · rw [show start.toNat + k = m.pc.toNat + 1 by omega] at hbyte
    unfold nextWord
    omega

/-- A word that is an operation is completed, or its operation fails, or it gives up waiting. -/
theorem completes_or_fails (a : Attendant τ) (hfetch : m.CanFetch)
    (hop : m.nextInstruction.op = some op) :
    m.Completes a m.nextInstruction op ∨ ∃ fault, (m.step a).2 = .error fault ∧
      (m.fetched.execute m.nextInstruction op = .error fault ∨
        op = .awaitKey ∧ fault = .waitedTooLong) := by
  have houtcome := m.step_outcome a
  unfold Completes
  generalize m.step a = result at houtcome
  cases houtcome with
  | unfetched check =>
    rw [Store.check_eq_ok_iff.2 hfetch] at check
    cases check
  | unknown _ op_eq => cases hop.symm.trans op_eq
  | refused _ op_eq _ execute =>
    obtain rfl := Option.some.inj (hop.symm.trans op_eq)
    exact .inr ⟨_, rfl, .inl execute⟩
  | done | keyed | cancelled => exact .inl ⟨rfl, hop⟩
  | exhausted awaits =>
    obtain rfl := Option.some.inj (hop.symm.trans awaits.2)
    exact .inr ⟨_, rfl, .inr ⟨rfl, rfl⟩⟩

theorem completes_jump (a : Attendant τ) (hfetch : m.CanFetch) (hi : m.nextInstruction = i)
    (hop : i.op = some .jump) : m.Completes a i .jump := by
  subst hi
  exact ⟨congrArg Prod.snd (step_of_execute_ok a hfetch hop (by decide) rfl), hop⟩

/-- **Where the program goes on.**  A completed step goes on where its instruction says, and nowhere
is an address wrapped around.  Instructions that test the same operands for opposite conditions
never skip both and never stay both.  What is executed is the word at the program counter, high byte
first, as the memory holds it now: if it is an operation then this is what is completed or fails,
and a byte of it that was written is executed as it was written. -/
theorem Reachable.goes_on (h : m.Reachable) (a : Attendant τ) :
    (∀ i op, m.Completes a i op → GoesOn a i op m (m.step a).1) ∧
    (∀ i p, m.Completes a i p → ∀ (n : Machine κ) (b : Attendant τ) (j : Instruction) (q : Op),
      n.Reachable → n.Completes b j q → m.registers = n.registers →
      m.around.keyboard.held = n.around.keyboard.held → i.Opposes j p q →
        ((m.step a).1.pc = m.pc + 4 ↔ (n.step b).1.pc = n.pc + 2)) ∧
    (m.pc + 2 ≤ 4096 → ∀ i op,
      i = .decode (0x100 * (m.store.byteAt m.pc.toNat).toNat +
        (m.store.byteAt (m.pc.toNat + 1)).toNat : Nat) → i.op = some op →
      m.Completes a i op ∨ ∃ fault, (m.step a).2 = .error fault ∧
        (m.fetched.execute i op = .error fault ∨ op = .awaitKey ∧ fault = .waitedTooLong)) ∧
    (∀ i op, m.Completes a i op → ∀ (before : Store) (start : Int) (values : List Nat),
      before.Receives start values m.store → ∀ k v : Nat, values[k]? = some v →
        (start + k = m.pc → i.word / 0x100 = v) ∧
        (start + k = m.pc + 1 → i.word % 0x100 = v)) := by
  have hm : m.Tidy := h.sound.toTidy
  refine ⟨fun i op hdone => hdone.goesOn hm, ?_, ?_, ?_⟩
  · intro i p hdone n b j q hn hdone' hregisters hheld hopposes
    have hgoes := hdone.goesOn hm
    have hgoes' := hdone'.goesOn hn.sound.toTidy
    have hskips : m.Skips i p ↔ ¬ n.Skips j q := skips_opposes hregisters hheld hopposes
    cases hopposes with
    | byte | equal | pressed =>
      rw [(hgoes.skip (by decide) (by decide)).1, (hgoes'.skip (by decide) (by decide)).2, hskips]
  · rintro hpc i op rfl hop
    exact completes_or_fails a (hm.canFetch_iff.2 hpc) hop
  · intro i op hdone before start values hreceives k v hv
    have hword : i.word = m.nextWord := (h.step_touches a hdone.1).2.1
    obtain ⟨hhigh, hlow⟩ := nextWord_of_receives hreceives hv
    rw [hword]
    exact ⟨hhigh, fun hpc => hlow hpc hm.pc.1⟩

/-- A program that stores two registers at the start of the memory and jumps there executes what it
has stored. -/
theorem stored_word_executed :
    ∃ m : Machine (VirtualClock Int), m.Reachable ∧ m.reg 0 = 0x13 ∧ m.reg 1 = 0x45 ∧
      ∀ a : Attendant Int, m.Completes a (.decode 0xF155) .dump ∧
        (m.step a).1.Completes a (.decode 0x1000) .jump ∧
        ((m.step a).1.step a).1.Completes a (.decode 0x1345) .jump ∧
        (((m.step a).1.step a).1.step a).1.pc = 0x345 := by
  let program : Array UInt8 := #[0x60, 0x13, 0x61, 0x45, 0xF1, 0x55, 0x10, 0x00]
  obtain ⟨start, hstart⟩ := exists_poised program (by decide) (⟨0, 0, 0⟩ : VirtualClock Int)
  let idle : Attendant Int := { feed := { atPoll := fun _ => [] }, interval := 1, patience := 0 }
  -- two registers get their bytes
  obtain ⟨hfirst, hregisters⟩ := hstart.sets idle (by decide) (by decide) (i := .decode 0x6013) rfl
    (by decide)
  have hreg₀ : (start.step idle).1.reg 0 = 0x13 := hregisters 0
  generalize (start.step idle).1 = first at hfirst hreg₀
  obtain ⟨hm, hregisters⟩ := hfirst.sets idle (by decide) (by decide) (i := .decode 0x6145) rfl
    (by decide)
  have hreg₁ : (first.step idle).1.reg 1 = 0x45 := hregisters 1
  have hreg₀ : (first.step idle).1.reg 0 = 0x13 := (hregisters 0).trans hreg₀
  generalize (first.step idle).1 = m at hm hreg₀ hreg₁
  refine ⟨m, hm.reachable, hreg₀, hreg₁, fun a => ?_⟩
  -- they are stored
  obtain ⟨hfetch, hword⟩ := hm.next (by decide) (by decide)
  have hword : m.nextInstruction = .decode 0xF155 := hword
  obtain ⟨hdump, hd⟩ := hm.dump a hfetch (by rw [hword]; decide)
  rw [hword] at hdump
  have hbytes := (hm.reachable.dumped hdump).bytes
  rw [hm.index] at hbytes
  have hbyte₀ : ((m.step a).1.store.byteAt 0).toNat = 0x13 := (hbytes 0 (by decide)).trans hreg₀
  have hbyte₁ : ((m.step a).1.store.byteAt 1).toNat = 0x45 := (hbytes 1 (by decide)).trans hreg₁
  refine ⟨hdump, ?_⟩
  generalize (m.step a).1 = stored at hd hbyte₀ hbyte₁
  -- the program jumps to them
  have hjump : stored.Completes a (.decode 0x1000) .jump := by
    obtain ⟨hfetch, hword⟩ := hd.next (by decide) (by decide)
    exact completes_jump a hfetch hword (by decide)
  have htouches := hd.reachable.touches_of_completes hjump
  have hpc : (stored.step a).1.pc = 0 := ((hd.reachable.goes_on a).1 _ _ hjump).jump (by decide)
  rw [← htouches.store (by decide)] at hbyte₀ hbyte₁
  have hsize : (stored.step a).1.store.size = Store.standardSize :=
    (congrArg Store.size (htouches.store (by decide))).trans hd.holds.size
  have hreachable := hd.reachable.step a
  refine ⟨hjump, ?_⟩
  generalize (stored.step a).1 = m at hpc hbyte₀ hbyte₁ hsize hreachable
  -- what was stored is executed
  have hword : m.nextInstruction = .decode 0x1345 := by
    rw [nextInstruction, nextWord, hpc, Int.toNat_zero, Nat.zero_add, hbyte₀, hbyte₁]
    rfl
  have hfetch : m.CanFetch := by
    rw [CanFetch, hpc, hsize]
    decide
  have hdone := completes_jump a hfetch hword (by decide)
  exact ⟨hdone, ((hreachable.goes_on a).1 _ _ hdone).jump (by decide)⟩

end Machine

end Chip8

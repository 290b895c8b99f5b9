import Chip8.Proofs.Machine.Calls
import Chip8.Proofs.Machine.Footprint

/-!
# Registers kept in the memory

A dump writes registers to the memory, and a load fills registers from it.  What happens to a
machine between the two writes only where completed instructions write (`Machine.Writes`), so a byte
that none of them writes stays what it is (`Machine.Reachable.byteAt_course`), failed steps and key
waits among them or not.

So a load finds what a dump left, and a dump right behind a load leaves the memory as it is
(`Machine.Reachable.registers_restored`).
-/

namespace Chip8

/-- The operation writes to this address if the index register holds `index`. -/
def Instruction.Stores (i : Instruction) (op : Op) (index address : Int) : Prop :=
  op ∈ [Op.storeDecimal, .dump] ∧
    ∃ length, i.reach? op = some length ∧ index ≤ address ∧ address < index + length

/-- The use executes an instruction. -/
def Use.isStep {κ τ : Type} : Use κ τ → Bool
  | .step _ => true
  | _ => false

namespace Machine

variable {κ τ : Type} [Clock κ τ] {m after : Machine κ} {i : Instruction} {op : Op}

/-! ### What is written -/

/-- The step completes this operation. -/
def Completes (a : Attendant τ) (m : Machine κ) (i : Instruction) (op : Op) : Prop :=
  (m.step a).2 = .ok i ∧ i.op = some op

/-- The use is a completed step whose instruction writes to this address. -/
def Writes (m : Machine κ) (use : Use κ τ) (address : Int) : Prop :=
  ∃ a i op, use = .step a ∧ m.Completes a i op ∧ i.Stores op m.index address

/-- None of these uses, one after the other, writes to this address. -/
def NeverWrites (m : Machine κ) (address : Int) : List (Use κ τ) → Prop
  | [] => True
  | use :: uses => ¬ m.Writes use address ∧ (m.undergo use).NeverWrites address uses

theorem store_step_of_error (a : Attendant τ) {fault : Fault}
    (h : (m.step a).2 = .error fault) : (m.step a).1.store = m.store := by
  have houtcome := m.step_outcome a
  generalize m.step a = result at houtcome h
  cases houtcome with
  | unfetched | unknown | refused | exhausted => rfl
  | done | keyed | cancelled => cases h

omit [Clock κ τ] in
theorem length_take_registers (m : Machine κ) (x : Fin 16) :
    (m.registers.toList.take (x + 1)).length = x + 1 := by
  rw [List.length_take, Vector.length_toList]
  omega

/-- **A step keeps a byte that it does not write.** -/
theorem Reachable.byteAt_step (h : m.Reachable) (a : Attendant τ) {address : Nat}
    (hkept : ¬ m.Writes (.step a) address) :
    (m.step a).1.store.byteAt address = m.store.byteAt address := by
  cases hresult : (m.step a).2 with
  | error fault => rw [store_step_of_error a hresult]
  | ok i =>
    obtain ⟨-, -, op, hop, -, htouches⟩ := h.step_touches a hresult
    have hoff : ¬ i.Stores op m.index address :=
      fun hstores => hkept ⟨a, i, op, rfl, ⟨hresult, hop⟩, hstores⟩
    -- two operations write blocks, and the address is in neither
    by_cases hdecimal : op = .storeDecimal
    · subst hdecimal
      obtain ⟨d₂, d₁, d₀, -, -, hreceives⟩ := htouches.decimal rfl
      refine hreceives.elsewhere address ?_
      by_contra hin
      simp only [List.length_cons, List.length_nil] at hin
      exact hoff ⟨by simp, 3, rfl, by omega, by omega⟩
    by_cases hdump : op = .dump
    · subst hdump
      refine (htouches.dump rfl).elsewhere address ?_
      by_contra hin
      rw [length_take_registers] at hin
      exact hoff ⟨by simp, i.x + 1, rfl, by omega, by omega⟩
    · rw [htouches.store (by simp [hdecimal, hdump])]

theorem Reachable.byteAt_undergo (h : m.Reachable) {use : Use κ τ} {address : Nat}
    (hkept : ¬ m.Writes use address) :
    (m.undergo use).store.byteAt address = m.store.byteAt address := by
  cases use with
  | step a => exact h.byteAt_step a hkept
  | event | settle | photograph | resetKeys => rfl

/-- **A byte that is never written stays what it is.** -/
theorem Reachable.byteAt_course (h : m.Reachable) {uses : List (Use κ τ)} {address : Nat}
    (hkept : m.NeverWrites address uses) :
    (m.course uses).store.byteAt address = m.store.byteAt address := by
  induction uses generalizing m with
  | nil => rfl
  | cons use uses ih =>
    have hrest := ih (h.undergo use) hkept.2
    exact hrest.trans (h.byteAt_undergo hkept.1)

theorem course_of_no_step {uses : List (Use κ τ)} (h : ∀ use ∈ uses, use.isStep = false) :
    (m.course uses).registers = m.registers ∧ (m.course uses).index = m.index ∧
      (m.course uses).store = m.store := by
  induction uses generalizing m with
  | nil => exact ⟨rfl, rfl, rfl⟩
  | cons use uses ih =>
    rw [List.forall_mem_cons] at h
    obtain ⟨hregisters, hindex, hstore⟩ := ih (m := m.undergo use) h.2
    cases use with
    | step a => cases h.1
    | event | settle | photograph | resetKeys => exact ⟨hregisters, hindex, hstore⟩

/-! ### Dumps and loads -/

theorem Reachable.touches_of_completes (h : m.Reachable) {a : Attendant τ}
    (hdone : m.Completes a i op) : Touches i op (m.stepEvents a) m (m.step a).1 := by
  obtain ⟨-, -, op', hop', -, htouches⟩ := h.step_touches a hdone.1
  obtain rfl : op = op' := Option.some.inj (hdone.2.symm.trans hop')
  exact htouches

theorem Completes.executes {a : Attendant τ} (h : m.Completes a i op) (hother : op ≠ .awaitKey) :
    m.CanFetch ∧ i = m.nextInstruction ∧ ∃ after, m.fetched.execute i op = .ok after ∧
      (m.step a).1 = (after.noted i op).completed := by
  obtain ⟨hstep, hop⟩ := h
  have houtcome := m.step_outcome a
  generalize m.step a = result at houtcome hstep
  cases houtcome with
  | unfetched | unknown | refused | exhausted => cases hstep
  | keyed awaits | cancelled awaits =>
    cases hstep
    exact absurd (Option.some.inj (hop.symm.trans awaits.2)) hother
  | done fetch op_eq _ execute =>
    cases hstep
    obtain rfl := Option.some.inj (hop.symm.trans op_eq)
    exact ⟨fetch, rfl, _, execute, rfl⟩

/-- A dump leaves the registers up to `Vx` in the memory, and nothing else in it changes. -/
structure Dumped (x : Fin 16) (m after : Machine κ) : Prop where
  /-- The registers keep what they hold. -/
  registers : ∀ r, after.reg r = m.reg r
  /-- The bytes lie in the memory. -/
  inside : 0 ≤ m.index
  /-- The memory keeps its size. -/
  size : after.store.size = m.store.size
  /-- The bytes are those of the registers. -/
  bytes : ∀ r ≤ x, (after.store.byteAt (m.index.toNat + r)).toNat = m.reg r
  /-- The other bytes stay. -/
  elsewhere : ∀ address : Nat, address < m.index ∨ m.index + (x + 1 : Nat) ≤ address →
    after.store.byteAt address = m.store.byteAt address

/-- A load fills the registers up to `Vx` from the memory, and nothing else changes. -/
structure Loaded (x : Fin 16) (m after : Machine κ) : Prop where
  /-- The bytes lie in the memory. -/
  inside : 0 ≤ m.index
  /-- The registers hold the bytes. -/
  bytes : ∀ r ≤ x, after.reg r = (m.store.byteAt (m.index.toNat + r)).toNat
  /-- The other registers keep what they hold. -/
  registers : ∀ r, x < r → after.reg r = m.reg r
  /-- The index register keeps what it holds. -/
  index : after.index = m.index
  /-- The memory stays. -/
  store : after.store = m.store

theorem Reachable.dumped (h : m.Reachable) {a : Attendant τ} (hdone : m.Completes a i .dump) :
    Dumped i.x m (m.step a).1 := by
  have htouches := h.touches_of_completes hdone
  have hreceives := htouches.dump rfl
  have hlength := m.length_take_registers i.x
  refine ⟨fun r => htouches.registers r rfl, hreceives.inside.1, hreceives.size, ?_, ?_⟩
  · intro r hr
    refine hreceives.received r (m.reg r) ?_
    have hin : (r : Nat) < i.x + 1 := Nat.lt_succ_of_le hr
    rw [List.getElem?_take_of_lt hin, Vector.getElem?_toList]
    exact Vector.getElem?_eq_getElem r.isLt
  · intro address hout
    exact hreceives.elsewhere address (by rwa [hlength])

/-- A block takes the place of just as many registers, so there are sixteen still. -/
theorem registers_of_loadRegisters {x : Fin 16} (h : m.loadRegisters x = .ok after) :
    ∃ block, m.store.readBlock m.index (x + 1 : Nat) = .ok block ∧ block.size = x + 1 ∧
      after.registers.toList = block.toList.map UInt8.toNat ++ m.registers.toList.drop (x + 1) := by
  obtain ⟨block, hread, rfl⟩ := map_eq_ok h
  have hsize := Store.size_of_readBlock hread
  refine ⟨block, hread, hsize, List.ext_getElem ?_ fun r hr hr' => ?_⟩
  · simp only [Vector.length_toList, List.length_append, List.length_map, Array.length_toList,
      List.length_drop, hsize]
    omega
  · have hlength : (block.toList.map UInt8.toNat).length = x + 1 := by simp [hsize]
    rw [Vector.getElem_toList, Vector.getElem_mapFinIdx]
    by_cases hin : r ≤ x
    · rw [if_pos hin, List.getElem_append_left (by omega), List.getElem_map, Array.getElem_toList,
        Array.getD_eq_getD_getElem?, Array.getElem?_eq_getElem (by omega), Option.getD_some]
    · rw [if_neg hin, List.getElem_append_right (by omega), List.getElem_drop,
        Vector.getElem_toList]
      congr 1
      omega

theorem reg_of_loadRegisters {x : Fin 16} (h : m.loadRegisters x = .ok after) :
    0 ≤ m.index ∧ ∀ r ≤ x, after.reg r = (m.store.byteAt (m.index.toNat + r)).toNat := by
  obtain ⟨block, hread, rfl⟩ := map_eq_ok h
  obtain ⟨hlow, hbytes⟩ := Store.getD_of_readBlock hread
  refine ⟨hlow, fun r hr => ?_⟩
  rw [← hbytes r (Nat.lt_succ_of_le hr)]
  simp only [reg, Fin.getElem_fin, Vector.getElem_mapFinIdx]
  exact if_pos hr

theorem Reachable.loaded (h : m.Reachable) {a : Attendant τ} (hdone : m.Completes a i .load) :
    Loaded i.x m (m.step a).1 := by
  have htouches := h.touches_of_completes hdone
  have hloaded : 0 ≤ m.index ∧
      ∀ r ≤ i.x, (m.step a).1.reg r = (m.store.byteAt (m.index.toNat + r)).toNat := by
    obtain ⟨-, -, after, hexecute, hstep⟩ := hdone.executes (by decide)
    obtain ⟨journal, hnoted⟩ := after.noted_eq i .load
    have hread := reg_of_loadRegisters (m := m.fetched) hexecute
    rw [hstep, hnoted]
    exact hread
  refine ⟨hloaded.1, hloaded.2, fun r hr => ?_, htouches.index (by decide),
    htouches.store (by decide)⟩
  exact htouches.registers r (by simpa [Instruction.writes] using hr)

/-- An instruction whose bytes lie in the memory is completed, and the program goes on behind it. -/
theorem Tidy.completes (hm : m.Tidy) (a : Attendant τ) (hfetch : m.CanFetch)
    (hop : m.nextInstruction.op = some op) {length : Nat}
    (hreach : m.nextInstruction.reach? op = some length)
    (hinside : m.index + length ≤ m.store.size) :
    m.Completes a m.nextInstruction op ∧ (m.step a).1.pc = nextAddress m.pc := by
  have hother : op ≠ .awaitKey := by
    rintro rfl
    cases hreach
  have hcheck : m.fetched.store.check m.fetched.index length = .ok () :=
    Store.check_of_le hm.index.1 hinside
  obtain ⟨after, hexecute⟩ := exists_execute (hm.fetched hfetch).not_isEmpty hreach hcheck
  have hstep := step_of_execute_ok a hfetch hop hother hexecute
  have hpc : after.pc = nextAddress m.pc := by
    cases op
    case draw | storeDecimal | dump | load =>
      obtain ⟨_, -, rfl⟩ := map_eq_ok hexecute
      rfl
    all_goals cases hreach
  rw [Completes, hstep]
  exact ⟨⟨rfl, hop⟩, (stack_noted after _ op).2.trans hpc⟩

/-- **Registers are restored from the memory.**  Let a dump be completed, then let anything happen
to the machine, and let a load of no more registers be completed while the index register holds
what it held.  If no completed instruction between the two wrote to the bytes that are loaded, then
the registers loaded are what they were when they were dumped, and the load changed neither the
other registers nor the index register nor the memory.

Conversely let a load be completed, and as the next instruction a dump of the same registers.  Then
the memory is what it was. -/
theorem Reachable.registers_restored (h : m.Reachable) (a b : Attendant τ) (i j : Instruction)
    (between : List (Use κ τ)) (later : Machine κ)
    (hlater : later = (m.step a).1.course between) :
    (m.Completes a i .dump → later.Completes b j .load → j.x ≤ i.x → later.index = m.index →
      (∀ address : Int, m.index ≤ address → address ≤ m.index + (j.x : Nat) →
        (m.step a).1.NeverWrites address between) →
      (∀ r ≤ j.x, (later.step b).1.reg r = m.reg r ∧ m.reg r = (m.step a).1.reg r) ∧
      (∀ r, j.x < r → (later.step b).1.reg r = later.reg r) ∧
      (later.step b).1.index = later.index ∧ (later.step b).1.store = later.store) ∧
    (m.Completes a i .load → later.Completes b j .dump → j.x = i.x →
      (∀ use ∈ between, use.isStep = false) →
      (later.step b).1.store = m.store) := by
  have hreachable : later.Reachable := hlater ▸ (h.step a).course between
  refine ⟨fun hdump hload hle hindex hkept => ?_, fun hload hdump hsame hnext => ?_⟩
  · have hdumped := h.dumped hdump
    have hloaded := hreachable.loaded hload
    refine ⟨fun r hr => ⟨?_, (hdumped.registers r).symm⟩, hloaded.registers, hloaded.index,
      hloaded.store⟩
    have hr' : (r : Nat) ≤ j.x := hr
    have hlow := hdumped.inside
    have hbyte : later.store.byteAt (m.index.toNat + r) =
        (m.step a).1.store.byteAt (m.index.toNat + r) := by
      rw [hlater]
      exact (h.step a).byteAt_course (hkept _ (by omega) (by omega))
    calc (later.step b).1.reg r
        = (later.store.byteAt (m.index.toNat + r)).toNat := by
          rw [hloaded.bytes r hr, hindex]
      _ = ((m.step a).1.store.byteAt (m.index.toNat + r)).toNat := by rw [hbyte]
      _ = m.reg r := hdumped.bytes r (Fin.le_trans hr hle)
  · have hloaded := h.loaded hload
    have hdumped := hreachable.dumped hdump
    obtain ⟨hregisters, hindex, hstore⟩ := course_of_no_step (m := (m.step a).1) hnext
    rw [← hlater] at hregisters hindex hstore
    rw [hloaded.index] at hindex
    rw [hloaded.store] at hstore
    refine Store.eq_of_byteAt_eq (hdumped.size.trans (congrArg Store.size hstore)) fun n => ?_
    by_cases hout : (n : Int) < later.index ∨ later.index + (j.x + 1 : Nat) ≤ n
    · rw [hdumped.elsewhere n hout, hstore]
    · -- the byte of a register goes where it came from
      have hlow := hdumped.inside
      obtain ⟨r, hr⟩ : ∃ r : Nat, n = later.index.toNat + r := ⟨n - later.index.toNat, by omega⟩
      have hle : r ≤ j.x := by omega
      obtain ⟨r, rfl⟩ : ∃ register : Fin 16, register = r :=
        ⟨⟨r, by omega⟩, rfl⟩
      rw [← UInt8.toNat_inj, hr, hdumped.bytes r hle, reg, hregisters, hindex]
      exact hloaded.bytes r (hsame ▸ hle)

/-! ### A program that saves a register -/

/-- The machine is about to execute the word of a program at an offset; its index register holds
nought. -/
structure Poised (program : Array UInt8) (offset : Nat) (m : Machine κ) : Prop where
  /-- The machine is being used. -/
  reachable : m.Reachable
  /-- The program is in the memory. -/
  holds : m.Holds program
  /-- The word at the offset is next. -/
  pc : m.pc = (Store.programStart + offset : Nat)
  /-- The index register holds nought. -/
  index : m.index = 0

section Poised

variable {program : Array UInt8} {offset : Nat}

theorem Poised.nextAddress_pc (h : Poised program offset m) (hfetch : m.CanFetch) :
    nextAddress m.pc = (Store.programStart + (offset + 2) : Nat) := by
  have hsize : m.store.size < 0x10000 := by simp [h.holds.size, Store.standardSize]
  rw [nextAddress_of_canFetch hsize hfetch, h.pc]
  omega

theorem exists_poised (program : Array UInt8)
    (hfits : Store.programStart + program.size ≤ Store.standardSize) (clock : κ) :
    ∃ m : Machine κ, Poised program 0 m := by
  obtain ⟨m, journal, hboot, hholds, hpc, -⟩ := exists_holds program hfits clock
  have hindex : m.index = 0 := by
    obtain ⟨store, rfl⟩ := exists_store_of_boot hboot
    rfl
  exact ⟨m, .boot hboot, hholds, hpc, hindex⟩

theorem Poised.next (h : Poised program offset m)
    (hfits : Store.programStart + program.size ≤ Store.standardSize)
    (hin : offset + 1 < program.size) :
    m.CanFetch ∧ m.nextInstruction =
      .decode (0x100 * (program[offset]?.getD 0).toNat +
        (program[offset + 1]?.getD 0).toNat : Nat) :=
  ⟨h.holds.canFetch offset h.pc (by omega), h.holds.nextInstruction offset h.pc hin⟩

theorem Poised.setByte (h : Poised program offset m) (a : Attendant τ) (hfetch : m.CanFetch)
    (hop : m.nextInstruction.op = some .setByte) :
    Poised program (offset + 2) (m.step a).1 := by
  obtain ⟨-, hpc, hindex, hstore⟩ := step_setByte a hfetch hop
  exact ⟨h.reachable.step a, h.holds.of_store_eq hstore, hpc.trans (h.nextAddress_pc hfetch),
    hindex.trans h.index⟩

theorem Poised.sets (h : Poised program offset m) (a : Attendant τ)
    (hfits : Store.programStart + program.size ≤ Store.standardSize)
    (hin : offset + 1 < program.size) {i : Instruction}
    (hword : i = .decode (0x100 * (program[offset]?.getD 0).toNat +
      (program[offset + 1]?.getD 0).toNat : Nat)) (hop : i.op = some .setByte) :
    Poised program (offset + 2) (m.step a).1 ∧
      ∀ r, (m.step a).1.reg r = if i.x = r then i.kk else m.reg r := by
  obtain ⟨hfetch, hnext⟩ := h.next hfits hin
  rw [← hword] at hnext
  have hop' : m.nextInstruction.op = some .setByte := hnext ▸ hop
  have hregisters := (step_setByte a hfetch hop').1
  rw [hnext] at hregisters
  exact ⟨h.setByte a hfetch hop', hregisters⟩

theorem Poised.completes (h : Poised program offset m) (a : Attendant τ) (hfetch : m.CanFetch)
    (hop : m.nextInstruction.op = some op)
    (hreach : m.nextInstruction.reach? op = some ((m.nextInstruction.x : Nat) + 1)) :
    m.Completes a m.nextInstruction op ∧
      (m.step a).1.pc = (Store.programStart + (offset + 2) : Nat) := by
  have hinside : m.index + (m.nextInstruction.x + 1 : Nat) ≤ m.store.size := by
    rw [h.index, h.holds.size, Store.standardSize]
    omega
  obtain ⟨hdone, hpc⟩ := h.reachable.sound.toTidy.completes a hfetch hop hreach hinside
  exact ⟨hdone, hpc.trans (h.nextAddress_pc hfetch)⟩

theorem Poised.dump (h : Poised program offset m) (a : Attendant τ) (hfetch : m.CanFetch)
    (hop : m.nextInstruction.op = some .dump) :
    m.Completes a m.nextInstruction .dump ∧ Poised program (offset + 2) (m.step a).1 := by
  obtain ⟨hdone, hpc⟩ := h.completes a hfetch hop rfl
  have hdumped := h.reachable.dumped hdone
  have hindex := (h.reachable.touches_of_completes hdone).index (by decide)
  refine ⟨hdone, h.reachable.step a, ⟨hdumped.size.trans h.holds.size, fun n hn => ?_⟩, hpc,
    hindex.trans h.index⟩
  -- the program lies behind the block
  rw [hdumped.elsewhere _ (.inr _), h.holds.bytes n hn]
  rw [h.index, Store.programStart]
  omega

theorem Poised.load (h : Poised program offset m) (a : Attendant τ) (hfetch : m.CanFetch)
    (hop : m.nextInstruction.op = some .load) :
    m.Completes a m.nextInstruction .load ∧ Poised program (offset + 2) (m.step a).1 := by
  obtain ⟨hdone, hpc⟩ := h.completes a hfetch hop rfl
  have hloaded := h.reachable.loaded hdone
  exact ⟨hdone, h.reachable.step a, h.holds.of_store_eq hloaded.store, hpc,
    hloaded.index.trans h.index⟩

end Poised

/-- A program stores 42, clears the register and loads 42 back; that it stores it again changes
nothing in the memory. -/
theorem stored_byte_restored :
    ∃ m : Machine (VirtualClock Int), m.Reachable ∧ m.reg 0 = 42 ∧ ∀ a : Attendant Int,
      ((m.step a).1.step a).1.reg 0 = 0 ∧
      (((m.step a).1.step a).1.step a).1.reg 0 = 42 ∧
      ((((m.step a).1.step a).1.step a).1.step a).1.store = ((m.step a).1.step a).1.store := by
  let program : Array UInt8 := #[0x60, 0x2A, 0xF0, 0x55, 0x60, 0x00, 0xF0, 0x65, 0xF0, 0x55]
  obtain ⟨start, journal, hboot, hholds, hpc, -⟩ :=
    exists_holds program (by decide) (⟨0, 0, 0⟩ : VirtualClock Int)
  have hindex : start.index = 0 := by
    obtain ⟨store, rfl⟩ := exists_store_of_boot hboot
    rfl
  have hstart : Poised program 0 start := ⟨.boot hboot, hholds, hpc, hindex⟩
  have hnext : ∀ {n : Nat} {m : Machine (VirtualClock Int)}, Poised program n m →
      n + 1 < program.size → m.CanFetch ∧ m.nextInstruction =
        .decode (0x100 * (program[n]?.getD 0).toNat + (program[n + 1]?.getD 0).toNat : Nat) := by
    intro n m h hn
    have hsize : n + 1 < 10 := hn
    refine ⟨h.holds.canFetch n h.pc ?_, h.holds.nextInstruction n h.pc hn⟩
    simp only [Store.programStart, Store.standardSize]
    omega
  -- the register gets 42
  obtain ⟨hfetch, hset⟩ := hnext hstart (by decide)
  have hop : start.nextInstruction.op = some .setByte := by rw [hset]; decide
  let idle : Attendant Int := { feed := { atPoll := fun _ => [] }, interval := 1, patience := 0 }
  have hm := hstart.setByte idle hfetch hop
  have hreg : (start.step idle).1.reg 0 = 42 := by
    rw [(step_setByte idle hfetch hop).1, hset, if_pos (by decide)]
    decide
  generalize (start.step idle).1 = m at hm hreg
  refine ⟨m, hm.reachable, hreg, fun a => ?_⟩
  -- it is stored
  obtain ⟨hfetch₁, hword₁⟩ := hnext hm (by decide)
  obtain ⟨hdump, hd⟩ := hm.dump a hfetch₁ (by rw [hword₁]; decide)
  -- it is cleared
  obtain ⟨hfetch₂, hword₂⟩ := hnext hd (by decide)
  have hop₂ : (m.step a).1.nextInstruction.op = some .setByte := by rw [hword₂]; decide
  have hz := hd.setByte a hfetch₂ hop₂
  have hcleared : ((m.step a).1.step a).1.reg 0 = 0 := by
    rw [(step_setByte a hfetch₂ hop₂).1, hword₂, if_pos (by decide)]
    decide
  have hkept : ∀ address, (m.step a).1.NeverWrites address [.step a] := by
    refine fun address => ⟨?_, trivial⟩
    rintro ⟨b, i, op, hb, ⟨hstep, hop'⟩, hmem, -⟩
    cases hb
    obtain ⟨rfl, -⟩ := hd.reachable.step_touches a hstep
    obtain rfl : .setByte = op := Option.some.inj (hop₂.symm.trans hop')
    simp at hmem
  -- it is loaded and stored again
  obtain ⟨hfetch₃, hword₃⟩ := hnext hz (by decide)
  obtain ⟨hload, hl⟩ := hz.load a hfetch₃ (by rw [hword₃]; decide)
  obtain ⟨hfetch₄, hword₄⟩ := hnext hl (by decide)
  obtain ⟨hdump', -⟩ := hl.dump a hfetch₄ (by rw [hword₄]; decide)
  have hrestored := (hm.reachable.registers_restored a a _ _ [.step a] _ rfl).1 hdump hload
    (by rw [hword₁, hword₃]; decide) (hz.index.trans hm.index.symm) fun address _ _ => hkept address
  have hunchanged := (hz.reachable.registers_restored a a _ _ [] _ rfl).2 hload hdump'
    (by rw [hword₄, hword₃]; decide) (by simp)
  exact ⟨hcleared, (hrestored.1 0 (Fin.zero_le _)).1.trans hreg, hunchanged⟩

end Machine

end Chip8

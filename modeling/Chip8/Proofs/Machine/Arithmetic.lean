import Chip8.Proofs.Machine.Saving

/-!
# Arithmetic and its flag

An operation of arithmetic with a flag leaves a byte in `Vx` and a bit in the flag register.  One
equation ties the two to what the operands held before (`Op.Balances`): a sum is split into a carry
and a byte, a difference lacks what was borrowed, a shift loses one bit to the flag.  The operands
are read before anything is written, and the flag is written last, so the equation holds whichever
of the two operands and the flag are the same register (`Machine.Reachable.step_computes`).
-/

namespace Chip8

namespace Op

/-- The operations that leave a byte in `Vx` and a bit in the flag register. -/
def flagged : List Op := [.add, .subtract, .shiftRight, .subtractFrom, .shiftLeft]

/-- The operations that leave a byte in `Vx` and nothing elsewhere. -/
def unflagged : List Op := [.addByte, .or, .and, .xor]

/-- What an operation with a flag makes of the values `a` and `b` of its operands: a result `r` and
a flag `f`. -/
def Balances (a b r f : Int) : Op → Prop
  | .add => 0x100 * f + r = a + b
  | .subtract => r = a - b + 0x100 * (1 - f)
  | .subtractFrom => r = b - a + 0x100 * (1 - f)
  | .shiftRight => 2 * r + f = a
  | .shiftLeft => 0x100 * f + r = 2 * a
  | _ => False

/-- What a bitwise operation makes of two bits. -/
def gate? : Op → Option (Bool → Bool → Bool)
  | .or => some Bool.or
  | .and => some Bool.and
  | .xor => some Bool.xor
  | _ => none

end Op

/-! ### Carries and borrows -/

theorem toNat_decide (p : Prop) [Decidable p] : (decide p).toNat = if p then 1 else 0 :=
  apply_ite Bool.toNat p true false

section Balances

variable {a b : Nat}

theorem balances_add (ha : a ≤ 0xFF) (hb : b ≤ 0xFF) :
    Op.Balances a b ((a + b) % 0x100 : Nat) (decide (0xFF < a + b)).toNat .add := by
  rw [toNat_decide, Op.Balances]
  split <;> omega

/-- What is missing from a difference is what was borrowed. -/
theorem byte_sub (ha : a ≤ 0xFF) (hb : b ≤ 0xFF) :
    (Machine.byte (a - b) : Int) = a - b + 0x100 * (1 - (decide (b ≤ a)).toNat) := by
  rw [toNat_decide, Machine.byte]
  split <;> omega

theorem balances_shiftRight (a b : Nat) :
    Op.Balances a b (a / 2 : Nat) (decide (a % 2 = 1)).toNat .shiftRight := by
  rw [toNat_decide, Op.Balances]
  split <;> omega

theorem balances_shiftLeft (ha : a ≤ 0xFF) :
    Op.Balances a b (a * 2 % 0x100 : Nat) (decide (a / 0x80 % 2 = 1)).toNat .shiftLeft := by
  rw [toNat_decide, Op.Balances]
  split <;> omega

end Balances

namespace Machine

variable {κ τ : Type} {m after : Machine κ} {i : Instruction} {op : Op}

/-! ### Operations -/

/-- A byte was left in `Vx` and a bit in the flag register.  If both are one register it holds the
bit. -/
structure Flagged (x : Fin 16) (r f : Nat) (before after : Fin 16 → Nat) : Prop where
  /-- The result is a byte. -/
  byte : r ≤ 0xFF
  /-- The flag is a bit. -/
  bit : f ≤ 1
  /-- The flag register holds the flag. -/
  flag : after flag = f
  /-- Any other register `Vx` holds the result. -/
  result : x ≠ Machine.flag → after x = r
  /-- All other registers hold what they held. -/
  others : ∀ z, z ≠ x → z ≠ Machine.flag → after z = before z

theorem flagged_setWithFlag (m : Machine κ) (x : Fin 16) {r : Nat} (hr : r ≤ 0xFF) (f : Bool) :
    Flagged x r f.toNat m.reg (m.setWithFlag x r f).reg where
  byte := hr
  bit := Bool.toNat_le f
  flag := by rw [setWithFlag, reg_setReg, if_pos rfl]
  result hx := by rw [setWithFlag, reg_setReg_of_ne hx, reg_setReg, if_pos rfl]
  others z hx hf := reg_setWithFlag_of_ne hx hf r f

/-- What an operation of arithmetic or logic leaves in the registers. -/
structure Computes (i : Instruction) (op : Op) (m after : Machine κ) : Prop where
  /-- An operation with a flag leaves the result and the flag of its equation. -/
  flagged : op ∈ Op.flagged →
    ∃ r f, Flagged i.x r f m.reg after.reg ∧ op.Balances (m.reg i.x) (m.reg i.y) r f
  /-- The sum with the index register is split into a carry and twelve bits. -/
  addIndex : op = .addIndex → ∃ f : Nat, f ≤ 1 ∧
    0x1000 * f + after.index = m.index + m.reg i.x ∧ (0 ≤ after.index ∧ after.index ≤ 0xFFF) ∧
      after.reg flag = f ∧ ∀ z, z ≠ flag → after.reg z = m.reg z
  /-- The sum with a byte loses its carry. -/
  addByte : op = .addByte → after.reg i.x = (m.reg i.x + i.kk) % 0x100
  /-- A bitwise operation is done bit by bit. -/
  bitwise : ∀ gate, op.gate? = some gate → ∀ k,
    (after.reg i.x).testBit k = gate ((m.reg i.x).testBit k) ((m.reg i.y).testBit k)
  /-- Without a flag only `Vx` changes. -/
  others : op ∈ Op.unflagged → ∀ z, z ≠ i.x → after.reg z = m.reg z

theorem execute_flagged (hm : m.Tidy) (hop : op ∈ Op.flagged) (h : m.execute i op = .ok after) :
    ∃ r f, Flagged i.x r f m.reg after.reg ∧ op.Balances (m.reg i.x) (m.reg i.y) r f := by
  have hx := hm.registers i.x
  have hy := hm.registers i.y
  cases op
  case add =>
    cases h
    exact ⟨_, _, flagged_setWithFlag m i.x (by omega) _, balances_add hx hy⟩
  case subtract =>
    cases h
    exact ⟨_, _, flagged_setWithFlag m i.x (byte_le _) _, byte_sub hx hy⟩
  case shiftRight =>
    cases h
    exact ⟨_, _, flagged_setWithFlag m i.x (by omega) _, balances_shiftRight _ _⟩
  case subtractFrom =>
    cases h
    exact ⟨_, _, flagged_setWithFlag m i.x (byte_le _) _, byte_sub hy hx⟩
  case shiftLeft =>
    cases h
    exact ⟨_, _, flagged_setWithFlag m i.x (by omega) _, balances_shiftLeft hx⟩
  all_goals exact absurd hop (by decide)

/-- The sum of the index register and a byte is split into a carry and twelve bits. -/
theorem execute_addIndex (hm : m.Tidy) (h : m.execute i .addIndex = .ok after) :
    ∃ f : Nat, f ≤ 1 ∧ 0x1000 * f + after.index = m.index + m.reg i.x ∧
      (0 ≤ after.index ∧ after.index ≤ 0xFFF) ∧
      after.reg flag = f ∧ ∀ z, z ≠ flag → after.reg z = m.reg z := by
  have hx := hm.registers i.x
  have hindex := hm.index
  cases h
  refine ⟨(decide (0x1000 ≤ m.index + m.reg i.x)).toNat, Bool.toNat_le _, ?_, ?_, ?_, ?_⟩
  · rw [toNat_decide, addIndex, setReg]
    simp only [decide_eq_true_eq]
    split <;> omega
  · rw [addIndex, setReg]
    simp only [decide_eq_true_eq]
    split <;> omega
  · rw [addIndex, reg_setReg, if_pos rfl]
  · intro z hz
    rw [addIndex, reg_setReg_of_ne hz]
    rfl

/-- **What an operation of arithmetic or logic leaves in the registers.** -/
theorem execute_computes (hm : m.Tidy) (h : m.execute i op = .ok after) :
    Computes i op m after := by
  refine ⟨fun hop => execute_flagged hm hop h, ?_, ?_, fun gate hgate => ?_, fun hop z hz => ?_⟩
  · rintro rfl
    exact execute_addIndex hm h
  · rintro rfl
    cases h
    rw [reg_setReg, if_pos rfl]
  · intro k
    cases op
    case or | and | xor =>
      cases hgate
      cases h
      simp
    all_goals cases hgate
  · refine (execute_confined h).registers z ?_
    simp only [Op.unflagged, List.mem_cons, List.not_mem_nil, or_false] at hop
    rcases hop with rfl | rfl | rfl | rfl <;> exact decide_eq_false hz

theorem exists_execute_of_computes (m : Machine κ) (i : Instruction)
    (hop : op ∈ .addIndex :: (Op.flagged ++ Op.unflagged)) :
    ∃ after, m.execute i op = .ok after := by
  simp only [Op.flagged, Op.unflagged, List.mem_cons, List.mem_append, List.not_mem_nil,
    or_false] at hop
  rcases hop with rfl | (rfl | rfl | rfl | rfl | rfl) | rfl | rfl | rfl | rfl <;> exact ⟨_, rfl⟩

theorem computes_awaitKey (i : Instruction) (m after : Machine κ) : Computes i .awaitKey m after :=
  ⟨fun hop => absurd hop (by decide), nofun, nofun, nofun, fun hop => absurd hop (by decide)⟩

/-! ### Steps -/

variable [Clock κ τ]

/-- **Arithmetic obeys its equations, whichever registers are its operands.**  Whatever operation of
arithmetic or logic a step completes, it leaves in the registers what the operation computes from
the values that they held before: a result and a flag that balance, where the flag wins if the
result was to go to the flag register; a sum of twelve bits and its carry; a sum without a carry; or
the bits of a bitwise operation.  And such a step is completed whenever its word can be fetched. -/
theorem Reachable.step_computes (h : m.Reachable) (a : Attendant τ) :
    (∀ i op, m.Completes a i op → Computes i op m (m.step a).1) ∧
    (m.pc + 2 ≤ 4096 → ∀ op ∈ .addIndex :: (Op.flagged ++ Op.unflagged),
      m.nextInstruction.op = some op → m.Completes a m.nextInstruction op) := by
  have hm : m.Tidy := h.sound.toTidy
  refine ⟨fun i op hdone => ?_, fun hpc op hmem hop => ?_⟩
  · by_cases hother : op = .awaitKey
    · exact hother ▸ computes_awaitKey i m _
    obtain ⟨hfetch, rfl, after, hexecute, hstep⟩ := hdone.executes hother
    obtain ⟨journal, hnoted⟩ := after.noted_eq m.nextInstruction op
    rw [hstep, hnoted]
    exact { execute_computes (hm.fetched hfetch) hexecute with }
  · have hfetch : m.CanFetch := ⟨hm.pc.1, by rw [hm.size_eq]; exact hpc⟩
    have hother : op ≠ .awaitKey := by
      rintro rfl
      exact absurd hmem (by decide)
    obtain ⟨after, hexecute⟩ := exists_execute_of_computes m.fetched m.nextInstruction hmem
    exact ⟨congrArg Prod.snd (step_of_execute_ok a hfetch hop hother hexecute), hop⟩

/-- The flag register is added to itself: of 200 + 200 it keeps the carry. -/
theorem carry_of_flag_register :
    ∃ m : Machine (VirtualClock Int), m.Reachable ∧ m.reg flag = 200 ∧ ∀ a : Attendant Int,
      m.Completes a (.decode 0x8FF4) .add ∧ (m.step a).1.reg flag = 1 := by
  let program : Array UInt8 := #[0x6F, 0xC8, 0x8F, 0xF4]
  obtain ⟨start, hstart⟩ := exists_poised program (by decide) (⟨0, 0, 0⟩ : VirtualClock Int)
  let idle : Attendant Int := { feed := { atPoll := fun _ => [] }, interval := 1, patience := 0 }
  -- the flag register gets 200
  obtain ⟨hm, hregisters⟩ := hstart.sets idle (by decide) (by decide) (i := .decode 0x6FC8) rfl
    (by decide)
  have hreg : (start.step idle).1.reg flag = 200 := hregisters flag
  generalize (start.step idle).1 = m at hm hreg
  -- it is added to itself
  obtain ⟨-, hadd⟩ := hm.next (by decide) (by decide)
  have hadd : m.nextInstruction = .decode 0x8FF4 := hadd
  refine ⟨m, hm.reachable, hreg, fun a => ?_⟩
  obtain ⟨hcomputes, hcompletes⟩ := hm.reachable.step_computes a
  have hdone := hcompletes (by rw [hm.pc]; decide) .add (by decide) (by rw [hadd]; decide)
  rw [hadd] at hdone
  obtain ⟨r, f, hflagged, hbalance⟩ := (hcomputes _ _ hdone).flagged (by decide)
  have hsum : 0x100 * (f : Int) + r = m.reg flag + m.reg flag := hbalance
  have hbyte := hflagged.byte
  refine ⟨hdone, ?_⟩
  rw [hflagged.flag]
  omega

end Machine

end Chip8

import Chip8.Instruction.Decode
import Chip8.Proofs.Instruction.Digits
import Mathlib.Data.List.Forall2
import Mathlib.Data.List.Pairwise

/-!
# Templates and bit patterns

The templates of the operations and the decoder's table of bit patterns describe the same words.
A template fixes a digit of the word with a digit of its own and leaves it free with the letter of
an operand (`Template.Fits`); the bit pattern that it spells in this way (`Encoding.ofOp`) is the
row of the table (`Encoding.table_eq`).  So a row accepts the words that match the template of its
operation, and since the templates exclude each other, the order of the rows does not matter.

In the other direction a template tells how to put a word together from operands
(`Op.assemble`).  The main result is `Instruction.decode_by_template`.
-/

namespace Chip8

/-- The letters of the template. -/
def Op.letters (op : Op) : List Char := op.template.toList

namespace Template

/-! ### Letters -/

/-- The letters that stand for a digit, in the order of the digits. -/
def digitLetters : List Char :=
  ['0', '1', '2', '3', '4', '5', '6', '7', '8', '9', 'A', 'B', 'C', 'D', 'E', 'F']

/-- The digit that a letter of a template stands for; the letter of an operand stands for none in
particular. -/
def digit? (letter : Char) : Option Nat := digitLetters.idxOf? letter

/-- The digit may stand where the letter does. -/
def Fits (letter : Char) (digit : Nat) : Prop := ∀ d ∈ digit? letter, digit = d

/-- The bits of a digit that a letter fixes. -/
def mask (letter : Char) : Nat := if (digit? letter).isSome then 0xF else 0

/-- The values of these bits. -/
def pattern (letter : Char) : Nat := (digit? letter).getD 0

theorem lt_of_digit? {letter : Char} {d : Nat} (h : d ∈ digit? letter) : d < 16 :=
  (List.findIdx?_eq_some_iff_findIdx_eq.1 h).1

theorem proper_mask (letters : List Char) : Digits.Proper (letters.map mask) := by
  rintro _ hd
  obtain ⟨letter, -, rfl⟩ := List.mem_map.1 hd
  unfold mask
  split <;> decide

theorem proper_pattern (letters : List Char) : Digits.Proper (letters.map pattern) := by
  rintro _ hd
  obtain ⟨letter, -, rfl⟩ := List.mem_map.1 hd
  cases hl : digit? letter with
  | none => simp [pattern, hl]
  | some d => simpa [pattern, hl] using lt_of_digit? hl

theorem land_mask_eq_iff {letter : Char} {d : Nat} (hd : d < 16) :
    d &&& mask letter = pattern letter ↔ Fits letter d := by
  cases hl : digit? letter with
  | none => simp [mask, pattern, Fits, hl]
  | some v =>
    have hall : d &&& 0xF = d := by
      rw [show 0xF = 2 ^ 4 - 1 from rfl, Nat.and_two_pow_sub_one_eq_mod, Nat.mod_eq_of_lt hd]
    simp [mask, pattern, Fits, hl, hall]

/-- Under the mask of a row of letters, digits that fit show the pattern. -/
theorem zipWith_mask_eq_iff {letters : List Char} {ds : List Nat}
    (hlength : letters.length = ds.length) (hd : Digits.Proper ds) :
    List.zipWith (· &&& ·) ds (letters.map mask) = letters.map pattern ↔
      List.Forall₂ Fits letters ds := by
  induction letters generalizing ds with
  | nil =>
    obtain rfl : ds = [] := List.length_eq_zero_iff.1 hlength.symm
    simp
  | cons letter letters ih =>
    obtain _ | ⟨d, ds⟩ := ds
    · cases hlength
    · have hrest : Digits.Proper ds := fun e he => hd e (List.mem_cons_of_mem d he)
      simp only [List.map_cons, List.zipWith_cons_cons, List.cons.injEq, List.forall₂_cons,
        land_mask_eq_iff (hd d List.mem_cons_self), ih (Nat.succ.inj hlength) hrest]

end Template

/-! ### Rows of the table -/

/-- The digits of the word fit the template of the operation, one by one. -/
def Op.Matches (op : Op) (word : Nat) : Prop :=
  List.Forall₂ Template.Fits op.letters (Digits.of 4 word)

/-- The bit pattern that the template of an operation spells. -/
def Encoding.ofOp (op : Op) : Encoding :=
  ⟨Digits.value (op.letters.map Template.mask), Digits.value (op.letters.map Template.pattern), op⟩

/-- **The rows of the table are the templates of the operations.** -/
theorem Encoding.table_eq : Encoding.table = Op.all.map Encoding.ofOp := by decide

namespace Op

theorem mem_all (op : Op) : op ∈ all := by cases op <;> decide

theorem length_letters (op : Op) : op.letters.length = 4 := by cases op <;> rfl

end Op

theorem Encoding.accepts_ofOp {op : Op} {word : Nat} :
    (ofOp op).accepts word = true ↔ op.Matches word := by
  have hmask := Digits.value_lt (Template.proper_mask op.letters)
  have hpattern := Digits.value_lt (Template.proper_pattern op.letters)
  have hmasked := Digits.of_value (Template.proper_mask op.letters)
  have hbits := Digits.of_value (Template.proper_pattern op.letters)
  rw [List.length_map, op.length_letters] at hmask hpattern hmasked hbits
  have hand : word &&& (ofOp op).mask < 16 ^ 4 := Nat.lt_of_le_of_lt Nat.and_le_right hmask
  calc (ofOp op).accepts word = true
      ↔ word &&& (ofOp op).mask = (ofOp op).pattern := by simp [accepts]
    _ ↔ Digits.of 4 (word &&& (ofOp op).mask) = Digits.of 4 (ofOp op).pattern :=
      ⟨fun h => by rw [h], Digits.eq_of_digits_eq hand hpattern⟩
    _ ↔ op.Matches word := by
      rw [Digits.of_land]
      simp only [ofOp, hmasked, hbits]
      exact Template.zipWith_mask_eq_iff (by simp [op.length_letters]) (Digits.of_proper 4 word)

/-! ### Rows exclude each other -/

/-- Two rows of the table differ in a bit that both of them fix. -/
theorem Encoding.table_apart :
    Encoding.table.Pairwise fun e f => e.pattern &&& f.mask ≠ f.pattern &&& e.mask := by decide

theorem Encoding.agree_of_accepts {e f : Encoding} {word : Nat} (he : e.accepts word = true)
    (hf : f.accepts word = true) : e.pattern &&& f.mask = f.pattern &&& e.mask := by
  simp only [accepts, decide_eq_true_eq] at he hf
  rw [← he, ← hf, Nat.and_assoc, Nat.and_assoc, Nat.and_comm e.mask]

/-- One row of the table at most accepts a word. -/
theorem Encoding.table_pairwise (word : Nat) :
    Encoding.table.Pairwise fun e f => ¬ (e.accepts word = true ∧ f.accepts word = true) :=
  table_apart.imp fun hapart haccepts => hapart (agree_of_accepts haccepts.1 haccepts.2)

theorem Op.Matches.unique {op other : Op} {word : Nat} (h : op.Matches word)
    (h' : other.Matches word) : op = other := by
  by_contra hne
  have hsymm : Std.Symm fun e f : Encoding => ¬ (e.accepts word = true ∧ f.accepts word = true) :=
    ⟨fun _ _ hef hfe => hef hfe.symm⟩
  have hmem : ∀ op, Encoding.ofOp op ∈ Encoding.table := fun op =>
    Encoding.table_eq ▸ List.mem_map_of_mem op.mem_all
  exact (Encoding.table_pairwise word).forall (hmem op) (hmem other)
    (fun heq => hne (congrArg Encoding.op heq))
    ⟨Encoding.accepts_ofOp.2 h, Encoding.accepts_ofOp.2 h'⟩

/-! ### Looking a word up -/

theorem Op.find?_eq_some {rows : List Encoding} {word : Nat} {op : Op}
    (h : Op.find? rows word = some op) : ∃ e ∈ rows, e.op = op ∧ e.accepts word = true := by
  obtain ⟨e, he, rfl⟩ := Option.map_eq_some_iff.1 h
  have haccepts := List.find?_some he
  exact ⟨e, List.mem_of_find?_eq_some he, rfl, haccepts⟩

/-- Whatever the order of the rows, a word has the operation whose template it matches. -/
theorem Op.find?_eq_some_iff {rows : List Encoding} (hrows : rows.Perm Encoding.table) {word : Nat}
    {op : Op} : Op.find? rows word = some op ↔ op.Matches word := by
  have hmatches : ∀ e ∈ rows, e.accepts word = true → e.op.Matches word := by
    intro e he haccepts
    rw [hrows.mem_iff, Encoding.table_eq] at he
    obtain ⟨other, -, rfl⟩ := List.mem_map.1 he
    exact Encoding.accepts_ofOp.1 haccepts
  constructor
  · intro h
    obtain ⟨e, he, rfl, haccepts⟩ := Op.find?_eq_some h
    exact hmatches e he haccepts
  · intro h
    have hrow : Encoding.ofOp op ∈ rows := by
      rw [hrows.mem_iff, Encoding.table_eq]
      exact List.mem_map_of_mem op.mem_all
    -- some row accepts the word, and the first that does has the operation of the template
    have hsome : (rows.find? (·.accepts word)).isSome = true :=
      List.find?_isSome.2 ⟨_, hrow, Encoding.accepts_ofOp.2 h⟩
    obtain ⟨e, he⟩ := Option.isSome_iff_exists.1 hsome
    have haccepts := List.find?_some he
    have hop := (hmatches e (List.mem_of_find?_eq_some he) haccepts).unique h
    rw [Op.find?, he, Option.map_some, hop]

/-! ### Operands -/

/-- An operand of an instruction. -/
inductive Operand where
  /-- The first register. -/
  | x
  /-- The second register. -/
  | y
  /-- A single digit. -/
  | n
  /-- A byte. -/
  | kk
  /-- An address. -/
  | nnn
  deriving DecidableEq, Repr

namespace Operand

/-- The letter that stands in a template for each digit of the operand. -/
def letter : Operand → Char
  | x => 'x'
  | y => 'y'
  | n => 'n'
  | kk => 'k'
  | nnn => 'n'

/-- The number of its digits. -/
def width : Operand → Nat
  | x => 1
  | y => 1
  | n => 1
  | kk => 2
  | nnn => 3

/-- The number of digits to the right of it. -/
def place : Operand → Nat
  | x => 2
  | y => 1
  | n => 0
  | kk => 0
  | nnn => 0

/-- The operand in an instruction. -/
def of (i : Instruction) : Operand → Nat
  | x => i.x
  | y => i.y
  | n => i.n
  | kk => i.kk
  | nnn => i.nnn

theorem of_eq (i : Instruction) (o : Operand) :
    o.of i = i.word / 16 ^ o.place % 16 ^ o.width := by
  cases o <;> simp [of, place, width, Instruction.x, Instruction.y, Instruction.n, Instruction.kk,
    Instruction.nnn]

end Operand

namespace Template

/-- A part of a template. -/
inductive Part where
  /-- A digit. -/
  | fixed (digit : Fin 16)
  /-- An operand. -/
  | operand (o : Operand)
  deriving DecidableEq, Repr

namespace Part

/-- The letters of the part. -/
def letters : Part → List Char
  | fixed digit => [digitLetters[digit]]
  | operand o => List.replicate o.width o.letter

/-- The number of its digits. -/
def width : Part → Nat
  | fixed _ => 1
  | operand o => o.width

/-- Its digits in a word with these operands. -/
def digits (values : Operand → Nat) : Part → List Nat
  | fixed digit => [digit]
  | operand o => Digits.of o.width (values o)

/-- The operand, if it is one. -/
def operand? : Part → Option Operand
  | fixed _ => none
  | operand o => some o

end Part

/-- The parts that a row of letters falls into. -/
def parts : List Char → List Part
  | 'n' :: 'n' :: 'n' :: rest => .operand .nnn :: parts rest
  | 'k' :: 'k' :: rest => .operand .kk :: parts rest
  | 'n' :: rest => .operand .n :: parts rest
  | 'x' :: rest => .operand .x :: parts rest
  | 'y' :: rest => .operand .y :: parts rest
  | letter :: rest => .fixed ⟨pattern letter % 16, Nat.mod_lt _ (by decide)⟩ :: parts rest
  | [] => []

end Template

namespace Op

/-- The parts of the template. -/
def parts (op : Op) : List Template.Part := Template.parts op.letters

/-- The operands of the operation. -/
def operands (op : Op) : List Operand := op.parts.filterMap Template.Part.operand?

/-- The word that the template becomes when each operand takes the place of its letters. -/
def assemble (op : Op) (values : Operand → Nat) : Nat :=
  Digits.value (op.parts.flatMap (Template.Part.digits values))

theorem flatMap_letters (op : Op) : op.parts.flatMap Template.Part.letters = op.letters := by
  cases op <;> rfl

/-- An operand stands at its place in every template that names it. -/
theorem exists_part : ∀ op ∈ all, ∀ o ∈ op.operands, ∃ k < op.parts.length,
    op.parts[k]? = some (.operand o) ∧
      ((op.parts.drop (k + 1)).map Template.Part.width).sum = o.place := by decide

end Op

namespace Template

variable (values : Operand → Nat)

theorem Part.length_digits (p : Part) : (p.digits values).length = p.width := by
  cases p <;> simp [digits, width]

theorem Part.proper_digits (p : Part) : Digits.Proper (p.digits values) := by
  cases p with
  | fixed digit => simp [digits, Digits.Proper]
  | operand o => exact Digits.of_proper _ _

theorem Part.fits_digits (p : Part) : List.Forall₂ Fits p.letters (p.digits values) := by
  cases p with
  | fixed digit =>
    have hdigit : ∀ digit : Fin 16, digit? digitLetters[digit] = some digit.val := by decide
    refine .cons (fun d hd => ?_) .nil
    rw [hdigit, Option.mem_some_iff] at hd
    exact hd
  | operand o =>
    have hletter : digit? o.letter = none := by cases o <;> decide
    rw [letters, digits, List.forall₂_iff_zip]
    refine ⟨by simp, fun {letter d} hp v hv => ?_⟩
    rw [List.eq_of_mem_replicate (List.of_mem_zip hp).1, hletter] at hv
    cases hv

variable (ps : List Part)

theorem length_flatMap_digits :
    (ps.flatMap (Part.digits values)).length = (ps.map Part.width).sum := by
  simp [List.length_flatMap, Part.length_digits]

theorem proper_flatMap_digits : Digits.Proper (ps.flatMap (Part.digits values)) := by
  intro d hd
  obtain ⟨p, -, hd⟩ := List.mem_flatMap.1 hd
  exact p.proper_digits values d hd

theorem fits_flatMap_digits :
    List.Forall₂ Fits (ps.flatMap Part.letters) (ps.flatMap (Part.digits values)) := by
  induction ps with
  | nil => exact .nil
  | cons p ps ih =>
    rw [List.flatMap_cons, List.flatMap_cons]
    exact List.rel_append (p.fits_digits values) ih

end Template

namespace Op

variable (op : Op) (values : Operand → Nat)

theorem fits_assembled :
    List.Forall₂ Template.Fits op.letters (op.parts.flatMap (Template.Part.digits values)) :=
  op.flatMap_letters ▸ Template.fits_flatMap_digits values op.parts

theorem length_assembled : (op.parts.flatMap (Template.Part.digits values)).length = 4 :=
  (op.fits_assembled values).length_eq.symm.trans op.length_letters

theorem assemble_lt : op.assemble values < 0x10000 := by
  have hlt := Digits.value_lt (Template.proper_flatMap_digits values op.parts)
  rw [op.length_assembled values] at hlt
  exact hlt

theorem matches_assemble : op.Matches (op.assemble values) := by
  have hdigits := Digits.of_value (Template.proper_flatMap_digits values op.parts)
  rw [op.length_assembled values] at hdigits
  rw [Matches, assemble, hdigits]
  exact op.fits_assembled values

variable {op values}

theorem operand_assemble {o : Operand} (ho : o ∈ op.operands) (hv : values o < 16 ^ o.width) :
    op.assemble values / 16 ^ o.place % 16 ^ o.width = values o := by
  obtain ⟨k, hk, hpart, hplace⟩ := exists_part op op.mem_all o ho
  have hsplit : op.parts = op.parts.take k ++ .operand o :: op.parts.drop (k + 1) := by
    rw [List.getElem?_eq_getElem hk, Option.some.injEq] at hpart
    rw [← hpart, ← List.drop_eq_getElem_cons hk, List.take_append_drop]
  have hvalue := Digits.value_middle ((op.parts.take k).flatMap (Template.Part.digits values))
    (Digits.of_proper o.width (values o))
    (Template.proper_flatMap_digits values (op.parts.drop (k + 1)))
  rw [Template.length_flatMap_digits, hplace, Digits.length_of, Digits.value_of,
    Nat.mod_eq_of_lt hv] at hvalue
  rw [assemble, hsplit, List.flatMap_append, List.flatMap_cons, ← List.append_assoc]
  exact hvalue

end Op

/-! ### Decoding -/

namespace Instruction

theorem decode_of_lt {word : Nat} (h : word < 0x10000) :
    decode word = ⟨Op.find? Encoding.table word, word⟩ := by
  have hword : ((word : Int) % 0x10000).toNat = word := by omega
  simp only [decode, decodeWith, hword]

/-- **Decoding follows the templates.**  A number is decoded by its low sixteen bits, and the
operation is the one whose template matches their four digits; there is none if no template does.
One row of the table at most accepts a word, so the rows may be tried in any order.  A word that is
put together by a template from operands means that operation with these operands.  And the operands
of a word are its digits. -/
theorem decode_by_template :
    (∀ number : Int, decode number = decode (number % 0x10000) ∧
      (decode number).word = number % 0x10000) ∧
    (∀ (number : Int) (op : Op),
      (decode number).op = some op ↔ op.Matches (number % 0x10000).toNat) ∧
    (∀ number : Int, (decode number).op = none ↔
      ∀ op : Op, ¬ op.Matches (number % 0x10000).toNat) ∧
    (∀ word : Nat,
      Encoding.table.Pairwise fun e f => ¬ (e.accepts word = true ∧ f.accepts word = true)) ∧
    (∀ rows : List Encoding, rows.Perm Encoding.table →
      ∀ number : Int, decodeWith rows number = decode number) ∧
    (∀ (op : Op) (values : Operand → Nat), (∀ o ∈ op.operands, values o < 16 ^ o.width) →
      let i := decode (op.assemble values)
      i.op = some op ∧ ∀ o ∈ op.operands, o.of i = values o) ∧
    ∀ number : Int,
      let i := decode number
      ∃ top second third last, Digits.of 4 i.word = [top, second, third, last] ∧
        i.word = 0x1000 * top + i.nnn ∧ i.nnn = 0x100 * i.x + i.kk ∧ i.kk = 0x10 * i.y + i.n := by
  have hop : ∀ (number : Int) (op : Op),
      (decode number).op = some op ↔ op.Matches (number % 0x10000).toNat := fun number op =>
    Op.find?_eq_some_iff (List.Perm.refl _)
  refine ⟨fun number => ⟨?_, ?_⟩, hop, fun number => ?_, Encoding.table_pairwise,
    fun rows hrows number => ?_, fun op values hvalues => ⟨?_, fun o ho => ?_⟩, fun number => ?_⟩
  · simp only [decode, decodeWith, Int.emod_emod_of_dvd number (Int.dvd_refl 0x10000)]
  · exact Int.toNat_of_nonneg (Int.emod_nonneg number (by decide))
  · simp only [← hop, Option.eq_none_iff_forall_ne_some]
  · -- both orders of the rows find the operation whose template the word matches
    have hfind : Op.find? rows (number % 0x10000).toNat = (decode number).op :=
      Option.ext fun op => (Op.find?_eq_some_iff hrows).trans (hop number op).symm
    simp only [decodeWith, hfind]
    rfl
  · rw [decode_of_lt (op.assemble_lt values)]
    exact (Op.find?_eq_some_iff (List.Perm.refl _)).2 (op.matches_assemble values)
  · rw [decode_of_lt (op.assemble_lt values), Operand.of_eq]
    exact Op.operand_assemble ho (hvalues o ho)
  · have hlt : (decode number).word < 0x10000 := by
      simp only [decode, decodeWith]
      omega
    generalize decode number = i at hlt
    refine ⟨_, _, _, _, rfl, ?_⟩
    simp only [nnn, kk, x, y, n]
    omega

/-- The operands of a sprite of seven rows at the registers `V3` and `VA`. -/
def spriteOperands : Operand → Nat
  | .x => 0x3
  | .y => 0xA
  | .n => 0x7
  | .kk | .nnn => 0

/-- A sprite is drawn by the word that its template makes, also if the rows are tried from the
last to the first. -/
theorem sprite_decoded :
    Encoding.table.reverse.Perm Encoding.table ∧
      (∀ o ∈ Op.draw.operands, spriteOperands o < 16 ^ o.width) ∧
      Op.draw.assemble spriteOperands = 0xD3A7 ∧
      (decodeWith Encoding.table.reverse 0xD3A7).op = some .draw ∧ (decode 0xD3A7).y = 0xA := by
  have hperm : Encoding.table.reverse.Perm Encoding.table := List.reverse_perm _
  have hbounds : ∀ o ∈ Op.draw.operands, spriteOperands o < 16 ^ o.width := by decide
  have hword : Op.draw.assemble spriteOperands = 0xD3A7 := by decide
  obtain ⟨-, -, -, -, horder, hassembled, -⟩ := decode_by_template
  obtain ⟨hop, hoperands⟩ := hassembled .draw spriteOperands hbounds
  rw [hword] at hop hoperands
  refine ⟨hperm, hbounds, hword, ?_, Fin.ext (hoperands .y (by decide))⟩
  rw [horder _ hperm]
  exact hop

end Instruction

end Chip8

import Mathlib.Algebra.Ring.Nat
import Mathlib.Data.List.Induction

/-!
# Rows of hexadecimal digits

`Digits.of width n` is the row of the lowest `width` digits of `n`, and `Digits.value` the number
that a row stands for.  The two undo each other (`value_of`, `of_value`), rows that are joined join
their values (`value_append`, `of_append`), and a bitwise `and` of two numbers is taken digit by
digit (`of_land`).
-/

namespace Chip8

namespace Digits

/-- The lowest `width` digits of a number, most significant first. -/
def of : (width : Nat) → Nat → List Nat
  | 0, _ => []
  | width + 1, n => of width (n / 16) ++ [n % 16]

/-- The number that a row of digits stands for. -/
def value (ds : List Nat) : Nat := ds.foldl (fun n d => 16 * n + d) 0

/-- Every entry of the row is a digit. -/
def Proper (ds : List Nat) : Prop := ∀ d ∈ ds, d < 16

@[simp] theorem length_of (width n : Nat) : (of width n).length = width := by
  induction width generalizing n with
  | zero => rfl
  | succ width ih => simp [of, ih]

theorem of_proper (width n : Nat) : Proper (of width n) := by
  induction width generalizing n with
  | zero => simp [of, Proper]
  | succ width ih =>
    intro d hd
    rcases List.mem_append.1 hd with hd | hd
    · exact ih (n / 16) d hd
    · rw [List.mem_singleton.1 hd]
      exact Nat.mod_lt n (by decide)

/-! ### Values -/

theorem value_concat (ds : List Nat) (d : Nat) : value (ds ++ [d]) = 16 * value ds + d := by
  simp [value, List.foldl_append]

theorem value_append (ds es : List Nat) :
    value (ds ++ es) = value ds * 16 ^ es.length + value es := by
  induction es using List.reverseRecOn with
  | nil => simp [value]
  | append_singleton es e ih =>
    rw [← List.append_assoc, value_concat, value_concat, ih, List.length_append,
      List.length_singleton, Nat.pow_succ, Nat.mul_add, Nat.add_assoc]
    congr 1
    ac_rfl

theorem value_lt {ds : List Nat} (h : Proper ds) : value ds < 16 ^ ds.length := by
  induction ds using List.reverseRecOn with
  | nil => simp [value]
  | append_singleton ds d ih =>
    have hds : value ds < 16 ^ ds.length := ih fun e he => h e (by simp [he])
    have hd : d < 16 := h d (by simp)
    rw [value_concat, List.length_append, List.length_singleton, Nat.pow_succ]
    omega

theorem value_of (width n : Nat) : value (of width n) = n % 16 ^ width := by
  induction width generalizing n with
  | zero => simp [of, value, Nat.mod_one]
  | succ width ih =>
    rw [of, value_concat, ih, Nat.pow_succ', Nat.mod_mul, Nat.add_comm]

theorem of_value {ds : List Nat} (h : Proper ds) : of ds.length (value ds) = ds := by
  induction ds using List.reverseRecOn with
  | nil => rfl
  | append_singleton ds d ih =>
    have hd : d < 16 := h d (by simp)
    have hhigh : (16 * value ds + d) / 16 = value ds := by omega
    have hlow : (16 * value ds + d) % 16 = d := by omega
    rw [List.length_append, List.length_singleton, value_concat, of, hhigh, hlow,
      ih fun e he => h e (by simp [he])]

/-- The digits of a stretch in the middle of a row can be read off its value. -/
theorem value_middle (before : List Nat) {middle after : List Nat} (hm : Proper middle)
    (ha : Proper after) :
    value (before ++ middle ++ after) / 16 ^ after.length % 16 ^ middle.length = value middle := by
  rw [value_append, Nat.mul_comm, Nat.mul_add_div (Nat.pow_pos (by decide)),
    Nat.div_eq_of_lt (value_lt ha), Nat.add_zero, value_append, Nat.mul_add_mod_self_right,
    Nat.mod_eq_of_lt (value_lt hm)]

/-! ### Digit by digit -/

theorem of_land (width n m : Nat) :
    of width (n &&& m) = List.zipWith (· &&& ·) (of width n) (of width m) := by
  induction width generalizing n m with
  | zero => rfl
  | succ width ih =>
    have hhigh : (n &&& m) / 16 = n / 16 &&& m / 16 := Nat.and_div_two_pow (n := 4)
    have hlow : (n &&& m) % 16 = n % 16 &&& m % 16 := Nat.and_mod_two_pow (n := 4)
    rw [of, hhigh, hlow, ih, of, of, List.zipWith_append (by simp)]
    rfl

theorem eq_of_digits_eq {width n m : Nat} (hn : n < 16 ^ width) (hm : m < 16 ^ width)
    (h : of width n = of width m) : n = m := by
  have hvalue := congrArg value h
  rwa [value_of, value_of, Nat.mod_eq_of_lt hn, Nat.mod_eq_of_lt hm] at hvalue

end Digits

end Chip8

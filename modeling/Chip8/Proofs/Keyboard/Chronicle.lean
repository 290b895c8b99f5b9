import Chip8.Surroundings

/-!
# The history of a keyboard

Everything that is ever done to a keyboard is one of a few *deeds* (`Keyboard.Deed`).  A
`Chronicle` is a keyboard together with what the keyboard itself forgets: all the key-downs since
the last reset, the places among them of those that a key wait has taken, and how many of them
there were when the latest instruction began.

The queue of the keyboard is the end of that history (`Chronicle.Sound`), and whatever is missing
from its front was taken, is too long ago in number or has gone stale.  So the key-downs that the
next key wait may still take can be told from the history alone: `Chronicle.Sound.downs_dropStale`.
-/

namespace Chip8

namespace Keyboard

/-- Something that is done to a keyboard. -/
inductive Deed where
  /-- A key goes down. -/
  | press (key : Int)
  /-- A key comes up. -/
  | release (key : Int)
  /-- The next instruction begins. -/
  | nextCycle
  /-- All keys come up and the queue is emptied. -/
  | reset
  /-- A key wait begins: key-downs that are not fresh are dropped. -/
  | dropStale
  /-- A key wait takes the oldest key-down, if there is one. -/
  | take
  deriving DecidableEq, Repr

/-- Does something to the keyboard. -/
def perform (k : Keyboard) : Deed → Keyboard
  | .press key => k.press key
  | .release key => k.release key
  | .nextCycle => k.nextCycle
  | .reset => k.reset
  | .dropStale => k.dropStale
  | .take => { k with downs := k.downs.tail }

/-- What an event does to the keyboard, if it concerns the keyboard. -/
def deed? {τ : Type} : Event τ → Option Deed
  | .press key => some (.press key)
  | .release key => some (.release key)
  | _ => none

/-- What a list of events does to the keyboard. -/
def deedsOf {τ : Type} (events : List (Event τ)) : List Deed := events.filterMap deed?

/-- A keyboard and what it forgets. -/
structure Chronicle where
  /-- The keyboard. -/
  keyboard : Keyboard := {}
  /-- The key-downs since the last reset, oldest first. -/
  history : List KeyDown := []
  /-- The places in the history of the key-downs that key waits took, in the order of the waits. -/
  taken : List Nat := []
  /-- How many key-downs there were when the latest instruction began. -/
  begun : Nat := 0
  deriving DecidableEq, Repr

namespace Chronicle

/-- The place in the history of the oldest key-down in the queue. -/
def front (c : Chronicle) : Nat := c.history.length - c.keyboard.downs.length

/-- Does something to the keyboard and records it. -/
def perform (c : Chronicle) (deed : Deed) : Chronicle :=
  let after := { c with keyboard := c.keyboard.perform deed }
  match deed with
  | .press key =>
    if IsKey key ∧ c.keyboard.isPressed key = false then
      { after with history := c.history ++ [⟨key.toNat, c.keyboard.cycle⟩] }
    else after
  | .nextCycle => { after with begun := c.history.length }
  | .reset => { after with history := [], taken := [], begun := 0 }
  | .take => if c.keyboard.downs = [] then after else { after with taken := c.taken ++ [c.front] }
  | .release _ | .dropStale => after

/-- The chronicle of a fresh keyboard to which all this was done. -/
def of (deeds : List Deed) : Chronicle := deeds.foldl perform {}

/-- How many key-downs there were up to the last one that a key wait took. -/
def settled (c : Chronicle) : Nat := c.taken.getLast?.elim 0 (· + 1)

/-- The key-downs since the latest instruction began that are later than every one that a key wait
took and among the last `capacity` of all. -/
def pending (c : Chronicle) : List KeyDown :=
  c.history.drop (max c.begun (max c.settled (c.history.length - capacity)))

theorem of_append (deeds more : List Deed) : of (deeds ++ more) = more.foldl perform (of deeds) :=
  List.foldl_append

@[simp] theorem perform_keyboard (c : Chronicle) (deed : Deed) :
    (c.perform deed).keyboard = c.keyboard.perform deed := by
  cases deed <;> simp only [perform] <;> (try split) <;> rfl

theorem foldl_perform_keyboard (deeds : List Deed) (c : Chronicle) :
    (deeds.foldl perform c).keyboard = deeds.foldl Keyboard.perform c.keyboard := by
  induction deeds generalizing c with
  | nil => rfl
  | cons deed deeds ih => simp [ih]

end Chronicle

/-! ### The queue after each deed -/

variable {k : Keyboard}

@[simp] theorem press_cycle (key : Int) : (k.press key).cycle = k.cycle := by
  unfold press; split <;> rfl

@[simp] theorem release_cycle (key : Int) : (k.release key).cycle = k.cycle := by
  unfold release; split <;> rfl

@[simp] theorem release_downs (key : Int) : (k.release key).downs = k.downs := by
  unfold release; split <;> rfl

theorem press_downs_of_new {key : Int} (h : IsKey key) (hp : k.isPressed key = false) :
    (k.press key).downs = latest (k.downs ++ [⟨key.toNat, k.cycle⟩]) := by
  simp [press, h, hp]

theorem press_downs_of_not_new {key : Int} (h : ¬ (IsKey key ∧ k.isPressed key = false)) :
    (k.press key).downs = k.downs := by
  unfold press
  split
  · next hk => simp_all
  · rfl

theorem foldl_perform_cycle {deeds : List Deed} (h : .nextCycle ∉ deeds) (k : Keyboard) :
    (deeds.foldl perform k).cycle = k.cycle := by
  induction deeds generalizing k with
  | nil => rfl
  | cons deed deeds ih =>
    rw [List.mem_cons, not_or] at h
    refine (ih h.2 (k.perform deed)).trans ?_
    cases deed with
    | press key => exact press_cycle key
    | release key => exact release_cycle key
    | nextCycle => exact absurd rfl h.1
    | reset | dropStale | take => rfl

theorem length_latest (downs : List KeyDown) :
    (latest downs).length = min downs.length capacity := by
  simp only [latest, List.length_drop]
  omega

namespace Chronicle

/-- What is true of every chronicle. -/
structure Sound (c : Chronicle) : Prop where
  /-- The queue is the end of the history. -/
  suffix : c.keyboard.downs <:+ c.history
  /-- The queue is bounded. -/
  short : c.keyboard.downs.length ≤ capacity
  /-- The stamps never go back. -/
  sorted : c.history.Pairwise fun d e => d.cycle ≤ e.cycle
  /-- A key-down is of a key. -/
  keys : ∀ d ∈ c.history, d.key < 16
  /-- No stamp lies ahead. -/
  stamped : ∀ d ∈ c.history, d.cycle ≤ c.keyboard.cycle
  /-- No key-down was taken twice, or after a later one. -/
  increasing : c.taken.Pairwise (· < ·)
  /-- A key-down that was taken has left the queue. -/
  left : ∀ i ∈ c.taken, i < c.front
  /-- A key-down that has left the queue, though none so late was taken and few came after it, is
  stale. -/
  stale : ∀ i d, c.history[i]? = some d → i < c.front → c.history.length ≤ i + capacity →
    (∀ j ∈ c.taken, j < i) → d.cycle + 1 < c.keyboard.cycle
  /-- The latest instruction began in the course of the history. -/
  begun_le : c.begun ≤ c.history.length
  /-- What went down before the latest instruction began has an older stamp. -/
  before : ∀ d ∈ c.history.take c.begun, d.cycle < c.keyboard.cycle
  /-- What went down since then has its stamp. -/
  since : ∀ d ∈ c.history.drop c.begun, d.cycle = c.keyboard.cycle

variable {c : Chronicle}

theorem Sound.length_le (h : c.Sound) : c.keyboard.downs.length ≤ c.history.length :=
  h.suffix.length_le

theorem Sound.downs_eq (h : c.Sound) : c.keyboard.downs = c.history.drop c.front :=
  List.suffix_iff_eq_drop.1 h.suffix

theorem Sound.key_lt (h : c.Sound) {d : KeyDown} (hd : d ∈ c.keyboard.downs) : d.key < 16 :=
  h.keys d (h.suffix.subset hd)

theorem Sound.empty : Sound {} where
  suffix := List.suffix_refl []
  short := Nat.zero_le _
  sorted := .nil
  keys := by simp
  stamped := by simp
  increasing := .nil
  left := by simp
  stale := by simp
  begun_le := Nat.le_refl 0
  before := by simp
  since := by simp

/-! ### Every deed keeps a chronicle sound -/

theorem perform_press_of_new {key : Int} (hk : IsKey key) (hp : c.keyboard.isPressed key = false) :
    c.perform (.press key) =
      { c with
        keyboard := c.keyboard.press key
        history := c.history ++ [⟨key.toNat, c.keyboard.cycle⟩] } := by
  simp [perform, Keyboard.perform, hk, hp]

theorem perform_press_of_not_new {key : Int}
    (h : ¬ (IsKey key ∧ c.keyboard.isPressed key = false)) :
    c.perform (.press key) = { c with keyboard := c.keyboard.press key } := by
  simp only [perform, if_neg h]
  rfl

theorem holds_of_dropWhile {p : KeyDown → Bool} {downs : List KeyDown} {i : Nat} {d : KeyDown}
    (hd : downs[i]? = some d) (hi : i + (downs.dropWhile p).length < downs.length) :
    p d = true := by
  have hsplit : downs.takeWhile p ++ downs.dropWhile p = downs := List.takeWhile_append_dropWhile
  have hlt : i < (downs.takeWhile p).length := by
    have := congrArg List.length hsplit
    rw [List.length_append] at this
    omega
  rw [← hsplit, List.getElem?_append_left hlt] at hd
  exact List.all_eq_true.1 List.all_takeWhile d (List.mem_of_getElem? hd)

theorem Sound.of_same_queue (h : c.Sound) {k : Keyboard} (hd : k.downs = c.keyboard.downs)
    (hc : k.cycle = c.keyboard.cycle) : Sound { c with keyboard := k } := by
  obtain ⟨h1, h2, h3, h4, h5, h6, h7, h8, h9, h10, h11⟩ := h
  constructor <;> simp only [front, hd, hc] <;> assumption

theorem Sound.press_new (h : c.Sound) {key : Int} (hk : IsKey key)
    (hp : c.keyboard.isPressed key = false) : (c.perform (.press key)).Sound := by
  have hdowns := press_downs_of_new hk hp
  have hlen : (c.keyboard.press key).downs.length = min (c.keyboard.downs.length + 1) capacity := by
    rw [hdowns, length_latest, List.length_append, List.length_singleton]
  have hle := h.length_le
  have hshort := h.short
  rw [perform_press_of_new hk hp]
  constructor
  case suffix =>
    obtain ⟨gone, hgone⟩ := h.suffix
    rw [hdowns]
    refine (List.drop_suffix _ _).trans ⟨gone, ?_⟩
    rw [← List.append_assoc, hgone]
  case short =>
    rw [hlen]
    exact Nat.min_le_right _ _
  case sorted =>
    rw [List.pairwise_append]
    refine ⟨h.sorted, List.pairwise_singleton _ _, fun d hd e he => ?_⟩
    rw [List.mem_singleton.1 he]
    exact h.stamped d hd
  case keys =>
    intro d hd
    rcases List.mem_append.1 hd with hd | hd
    · exact h.keys d hd
    · rw [List.mem_singleton.1 hd]
      unfold IsKey at hk
      simp only
      omega
  case stamped =>
    intro d hd
    simp only [List.mem_append, List.mem_singleton, press_cycle] at hd ⊢
    rcases hd with hd | rfl
    · exact h.stamped d hd
    · exact Nat.le_refl _
  case increasing => exact h.increasing
  case left =>
    intro i hi
    have := h.left i hi
    simp only [front, List.length_append, List.length_singleton, hlen] at this ⊢
    omega
  case stale =>
    intro i d hd hi hlast htaken
    simp only [front, List.length_append, List.length_singleton, hlen, press_cycle] at hi hlast ⊢
    -- a full queue loses an entry only when as many key-downs came after it
    have hi' : i < c.front := by unfold front; omega
    rw [List.getElem?_append_left (by omega)] at hd
    exact h.stale i d hd hi' (by omega) htaken
  case begun_le =>
    have := h.begun_le
    simp only [List.length_append]
    omega
  case before =>
    rw [List.take_append_of_le_length h.begun_le]
    simpa using h.before
  case since =>
    intro d hd
    rw [List.drop_append_of_le_length h.begun_le] at hd
    simp only [List.mem_append, List.mem_singleton, press_cycle] at hd ⊢
    rcases hd with hd | rfl
    · exact h.since d hd
    · rfl

theorem Sound.nextCycle (h : c.Sound) : (c.perform .nextCycle).Sound := by
  have hle : ∀ d ∈ c.history, d.cycle < c.keyboard.cycle + 1 := fun d hd =>
    Nat.lt_succ_of_le (h.stamped d hd)
  exact { h with
    stamped := fun d hd => Nat.le_succ_of_le (h.stamped d hd)
    stale := fun i d hd hi hlast htaken => Nat.lt_succ_of_lt (h.stale i d hd hi hlast htaken)
    begun_le := Nat.le_refl _
    before := fun d hd => hle d (List.mem_of_mem_take hd)
    since := by simp [perform] }

theorem sound_reset (c : Chronicle) : (c.perform .reset).Sound where
  suffix := List.suffix_refl []
  short := Nat.zero_le _
  sorted := .nil
  keys := by simp [perform]
  stamped := by simp [perform]
  increasing := .nil
  left := by simp [perform]
  stale := by simp [perform]
  begun_le := Nat.le_refl 0
  before := by simp [perform]
  since := by simp [perform]

theorem Sound.dropStale (h : c.Sound) : (c.perform .dropStale).Sound := by
  have hsuffix : (c.perform .dropStale).keyboard.downs <:+ c.keyboard.downs :=
    List.dropWhile_suffix _
  have hfront : c.front ≤ (c.perform .dropStale).front :=
    Nat.sub_le_sub_left hsuffix.length_le _
  exact { h with
    suffix := hsuffix.trans h.suffix
    short := Nat.le_trans hsuffix.length_le h.short
    left := fun i hi => Nat.lt_of_lt_of_le (h.left i hi) hfront
    stale := by
      intro i d hd hi hlast htaken
      by_cases hold : i < c.front
      · exact h.stale i d hd hold hlast htaken
      -- the key-down is one of those that the deed has dropped
      have hlen := h.length_le
      have hd' : c.keyboard.downs[i - c.front]? = some d := by
        rw [h.downs_eq, List.getElem?_drop, Nat.add_sub_cancel' (by omega)]
        exact hd
      have hi' : i < c.history.length - c.keyboard.dropStale.downs.length := hi
      have hgone := holds_of_dropWhile (p := fun d => d.cycle + 1 < c.keyboard.cycle) hd' (by
        unfold front at hold ⊢
        simp only [Keyboard.dropStale] at hi'
        omega)
      exact of_decide_eq_true hgone }

theorem perform_take_of_cons {d : KeyDown} {rest : List KeyDown}
    (h : c.keyboard.downs = d :: rest) :
    c.perform .take =
      { c with keyboard := { c.keyboard with downs := rest }, taken := c.taken ++ [c.front] } := by
  simp [perform, Keyboard.perform, h]

theorem Sound.take (h : c.Sound) : (c.perform .take).Sound := by
  cases hd : c.keyboard.downs with
  | nil =>
    have hk : c.keyboard.perform .take = c.keyboard := by
      rcases hc : c.keyboard with ⟨held, cycle, downs⟩
      simp_all [Keyboard.perform]
    have : c.perform .take = c := by simp [perform, hd, hk]
    rwa [this]
  | cons d rest =>
    have hfront : c.history.length - rest.length = c.front + 1 := by
      have := h.length_le
      simp only [front, hd, List.length_cons] at this ⊢
      omega
    rw [perform_take_of_cons hd]
    exact { h with
      suffix := (List.suffix_cons d rest).trans (hd ▸ h.suffix)
      short := Nat.le_trans (Nat.le_succ _) (by simpa [hd] using h.short)
      increasing := by
        rw [List.pairwise_append]
        refine ⟨h.increasing, List.pairwise_singleton _ _, fun i hi j hj => ?_⟩
        rw [List.mem_singleton.1 hj]
        exact h.left i hi
      left := by
        intro i hi
        simp only [front, hfront]
        rcases List.mem_append.1 hi with hi | hi
        · exact Nat.lt_succ_of_lt (h.left i hi)
        · rw [List.mem_singleton.1 hi]
          exact Nat.lt_succ_self _
      stale := by
        intro i d hd hi hlast htaken
        -- nothing lies between the key-down just taken and the rest of the queue
        have := htaken c.front (by simp)
        simp only [front, hfront] at hi this
        omega }

theorem Sound.perform (h : c.Sound) (deed : Deed) : (c.perform deed).Sound := by
  cases deed with
  | press key =>
    by_cases hnew : IsKey key ∧ c.keyboard.isPressed key = false
    · exact h.press_new hnew.1 hnew.2
    · rw [perform_press_of_not_new hnew]
      exact h.of_same_queue (press_downs_of_not_new hnew) (press_cycle key)
  | release key => exact h.of_same_queue (release_downs key) (release_cycle key)
  | nextCycle => exact h.nextCycle
  | reset => exact sound_reset c
  | dropStale => exact h.dropStale
  | take => exact h.take

theorem Sound.foldl (h : c.Sound) (deeds : List Deed) :
    (deeds.foldl Chronicle.perform c).Sound := by
  induction deeds generalizing c with
  | nil => exact h
  | cons deed deeds ih => exact ih (h.perform deed)

/-- **Every chronicle is sound**, whatever was done to the keyboard. -/
theorem sound_of (deeds : List Deed) : (of deeds).Sound := Sound.empty.foldl deeds

/-! ### What only grows -/

/-- Nothing recorded so far was lost. -/
structure Grows (c after : Chronicle) : Prop where
  /-- The history went on. -/
  history : c.history <+: after.history
  /-- More key-downs were taken, if any. -/
  taken : c.taken <+: after.taken
  /-- What has left the queue has not come back. -/
  front : c.front ≤ after.front

theorem Grows.refl (c : Chronicle) : c.Grows c :=
  ⟨List.prefix_refl _, List.prefix_refl _, Nat.le_refl _⟩

theorem Grows.trans {before after : Chronicle} (h : before.Grows c) (h' : c.Grows after) :
    before.Grows after :=
  ⟨h.history.trans h'.history, h.taken.trans h'.taken, Nat.le_trans h.front h'.front⟩

theorem perform_grows (c : Chronicle) {deed : Deed} (h : deed ≠ .reset) :
    c.Grows (c.perform deed) := by
  cases deed with
  | press key =>
    by_cases hnew : IsKey key ∧ c.keyboard.isPressed key = false
    · rw [perform_press_of_new hnew.1 hnew.2]
      refine ⟨List.prefix_append _ _, List.prefix_refl _, ?_⟩
      simp only [front, press_downs_of_new hnew.1 hnew.2, length_latest, List.length_append,
        List.length_singleton]
      omega
    · rw [perform_press_of_not_new hnew]
      refine ⟨List.prefix_refl _, List.prefix_refl _, ?_⟩
      simp only [front, press_downs_of_not_new hnew]
      exact Nat.le_refl _
  | release key =>
    refine ⟨List.prefix_refl _, List.prefix_refl _, ?_⟩
    simp only [perform, front, Keyboard.perform, release_downs]
    exact Nat.le_refl _
  | nextCycle => exact ⟨List.prefix_refl _, List.prefix_refl _, Nat.le_refl _⟩
  | reset => exact absurd rfl h
  | dropStale =>
    refine ⟨List.prefix_refl _, List.prefix_refl _, Nat.sub_le_sub_left ?_ _⟩
    exact (List.dropWhile_suffix _).length_le
  | take =>
    cases hd : c.keyboard.downs with
    | nil =>
      refine ⟨?_, ?_, ?_⟩ <;> simp [perform, front, Keyboard.perform, hd]
    | cons d rest =>
      rw [perform_take_of_cons hd]
      refine ⟨List.prefix_refl _, List.prefix_append _ _, ?_⟩
      simp only [front, hd, List.length_cons]
      omega

theorem foldl_grows (c : Chronicle) {deeds : List Deed} (h : .reset ∉ deeds) :
    c.Grows (deeds.foldl perform c) := by
  induction deeds generalizing c with
  | nil => exact Grows.refl c
  | cons deed deeds ih =>
    rw [List.mem_cons, not_or] at h
    exact (perform_grows c (Ne.symm h.1)).trans (ih (c.perform deed) h.2)

theorem foldl_taken (c : Chronicle) {deeds : List Deed} (hr : .reset ∉ deeds)
    (ht : .take ∉ deeds) : (deeds.foldl perform c).taken = c.taken := by
  induction deeds generalizing c with
  | nil => rfl
  | cons deed deeds ih =>
    rw [List.mem_cons, not_or] at hr ht
    refine (ih (c.perform deed) hr.2 ht.2).trans ?_
    cases deed with
    | press key => simp only [perform]; split <;> rfl
    | reset => exact absurd rfl hr.1
    | take => exact absurd rfl ht.1
    | release | nextCycle | dropStale => rfl

/-- The oldest key-down of the queue stands in the history where the queue begins. -/
theorem Sound.head?_downs (h : c.Sound) : c.keyboard.downs.head? = c.history[c.front]? := by
  rw [h.downs_eq, List.head?_drop]

/-! ### What a key wait may take -/

theorem dropWhile_drop {p : KeyDown → Bool} {history : List KeyDown} {m n : Nat}
    (hn : n ≤ history.length) (hbefore : ∀ d ∈ history.take n, p d = true)
    (hsince : ∀ d ∈ history.drop n, p d = false) :
    (history.drop m).dropWhile p = history.drop (max m n) := by
  have hkeep : ∀ k, (history.drop (n + k)).dropWhile p = history.drop (n + k) := by
    intro k
    cases hd : history.drop (n + k) with
    | nil => rfl
    | cons d rest =>
      have hmem : d ∈ history.drop n := by
        rw [← List.drop_drop] at hd
        exact List.mem_of_mem_drop (hd ▸ List.mem_cons_self)
      exact List.dropWhile_cons_of_neg (by simp [hsince d hmem])
  rcases Nat.le_total n m with h | h
  · obtain ⟨k, rfl⟩ := Nat.exists_eq_add_of_le h
    rw [hkeep, Nat.max_eq_left (by omega)]
  · have hsplit : history.drop m = (history.take n).drop m ++ history.drop n := by
      rw [← List.drop_append_of_le_length (by rw [List.length_take]; omega),
        List.take_append_drop]
    rw [hsplit, List.dropWhile_append_of_pos fun d hd => hbefore d (List.mem_of_mem_drop hd),
      Nat.max_eq_right h]
    exact hkeep 0

theorem settled_le {n : Nat} (h : ∀ i ∈ c.taken, i < n) : c.settled ≤ n := by
  unfold settled
  cases hl : c.taken.getLast? with
  | none => exact Nat.zero_le _
  | some i => exact h i (List.mem_of_getLast? hl)

theorem Sound.lt_settled (h : c.Sound) {i : Nat} (hi : i ∈ c.taken) : i < c.settled := by
  unfold settled
  cases hl : c.taken.getLast? with
  | none => simp_all
  | some last =>
    obtain ⟨earlier, hearlier⟩ := List.getLast?_eq_some_iff.1 hl
    have hincreasing := h.increasing
    rw [hearlier, List.pairwise_append] at hincreasing
    rw [hearlier, List.mem_append, List.mem_singleton] at hi
    rcases hi with hi | rfl
    · exact Nat.lt_succ_of_lt (hincreasing.2.2 i hi last (List.mem_singleton_self last))
    · exact Nat.lt_succ_self i

/-- **What a key wait that begins now finds in the queue is what the history says it may take.** -/
theorem Sound.downs_dropStale (h : c.Sound) :
    (c.keyboard.nextCycle.dropStale).downs = c.pending := by
  have hdrop : c.keyboard.nextCycle.dropStale.downs = c.history.drop (max c.front c.begun) := by
    simp only [Keyboard.dropStale, Keyboard.nextCycle, h.downs_eq]
    refine dropWhile_drop h.begun_le (fun d hd => ?_) fun d hd => ?_
    · have := h.before d hd
      simp only [decide_eq_true_eq]
      omega
    · have := h.since d hd
      simp only [decide_eq_false_iff_not]
      omega
  have hsettled : c.settled ≤ c.front := settled_le h.left
  have hlen := h.length_le
  have hfront : c.history.length - capacity ≤ c.front := Nat.sub_le_sub_left h.short _
  rw [hdrop, pending]
  congr 1
  by_cases hle : max c.front c.begun ≤ max c.begun (max c.settled (c.history.length - capacity))
  · omega
  -- otherwise a fresh key-down would have left the queue without a reason
  exfalso
  generalize hi : max c.begun (max c.settled (c.history.length - capacity)) = i at hle
  have hlt : i < c.history.length := by unfold front at hle; omega
  have hstale := h.stale i _ (List.getElem?_eq_getElem hlt) (by omega) (by omega)
    fun j hj => Nat.lt_of_lt_of_le (h.lt_settled hj) (by omega)
  have hsince := h.since c.history[i] (by
    rw [List.mem_drop_iff_getElem]
    exact ⟨i - c.begun, by omega, by congr 1; omega⟩)
  omega

-- the first key went down before the previous instruction began
example : (of [.press 4, .nextCycle, .press 7, .nextCycle, .press 9]).keyboard.downs.length = 3 ∧
    (of [.press 4, .nextCycle, .press 7, .release 7]).pending = [⟨7, 1⟩] := by decide

end Chronicle

/-! ### Keyboards with a history -/

/-- The keyboard is a fresh one to which something was done. -/
def Chronicled (k : Keyboard) : Prop := ∃ deeds, k = (Chronicle.of deeds).keyboard

theorem chronicled_empty : Chronicled {} := ⟨[], rfl⟩

theorem Chronicled.foldl (h : k.Chronicled) (deeds : List Deed) :
    (deeds.foldl perform k).Chronicled := by
  obtain ⟨before, rfl⟩ := h
  refine ⟨before ++ deeds, ?_⟩
  rw [Chronicle.of_append, Chronicle.foldl_perform_keyboard]

theorem Chronicled.perform (h : k.Chronicled) (deed : Deed) : (k.perform deed).Chronicled :=
  h.foldl [deed]

theorem Chronicled.length_le (h : k.Chronicled) : k.downs.length ≤ capacity := by
  obtain ⟨deeds, rfl⟩ := h
  exact (Chronicle.sound_of deeds).short

theorem Chronicled.key_lt (h : k.Chronicled) {d : KeyDown} (hd : d ∈ k.downs) : d.key < 16 := by
  obtain ⟨deeds, rfl⟩ := h
  exact (Chronicle.sound_of deeds).key_lt hd

end Keyboard

end Chip8

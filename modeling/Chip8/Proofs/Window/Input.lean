import Chip8.Proofs.Keyboard.Outcome
import Chip8.Window
import Mathlib.Algebra.Ring.Parity
import Mathlib.Data.List.Induction

/-!
# What the user does at the window

Each of the sixteen machine keys has one key of the typewriter, and neither Escape nor F1 is among
them.  So an event at the window means one of five things (`WindowEvent.Means`), and it concerns one
part of the surroundings only.

What is left of a row of events can therefore be told from the row (`Surroundings.input_of_events`):
the wish to leave from whether it was uttered, the journal's details from how often F1 went down,
and whether a machine key is held from the last event of its typewriter key.
-/

namespace Chip8

/-! ### Keys of the typewriter -/

namespace WindowEvent

/-- The symbol of the key that goes down or comes up. -/
def symbol? : WindowEvent → Option Int
  | down symbol | up symbol => some symbol
  | close => none

/-- The user wants to leave. -/
def Leaves (e : WindowEvent) : Prop := e = down escape ∨ e = close

instance : DecidablePred Leaves := fun e => inferInstanceAs (Decidable (e = _ ∨ e = _))

/-- The key that goes down or comes up is none that the window knows. -/
def Foreign (e : WindowEvent) : Prop :=
  ∃ symbol, e.symbol? = some symbol ∧ symbol ≠ escape ∧ symbol ≠ f1 ∧
    ∀ entry ∈ keymap, symbol ≠ (entry.1.toNat : Int)

/-- The machine key that goes down, if one does. -/
def pressed? : WindowEvent → Option Nat
  | down symbol => keyOf? symbol
  | _ => none

/-- The last event of a key of the typewriter. -/
def lastOf? (symbol : Int) (events : List WindowEvent) : Option WindowEvent :=
  (events.filter fun e => e.symbol? = some symbol).getLast?

/-- What events at the window mean to the machine. -/
def effects {τ : Type} (events : List WindowEvent) : List (Event τ) := events.filterMap effect

variable {symbol other : Int} {key : Nat} {e : WindowEvent}

theorem lastOf?_append_singleton (symbol : Int) (events : List WindowEvent) (e : WindowEvent) :
    lastOf? symbol (events ++ [e]) =
      if e.symbol? = some symbol then some e else lastOf? symbol events := by
  unfold lastOf?
  split
  next h => simp [h]
  next h => simp [h]

theorem keyOf?_eq_some_iff :
    keyOf? symbol = some key ↔ ∃ c, (c, key) ∈ keymap ∧ (c.toNat : Int) = symbol := by
  -- no two entries have the same character, so the first one that is found is the only one
  have hapart : ∀ a ∈ keymap, ∀ b ∈ keymap, a.1.toNat = b.1.toNat → a = b := by decide
  constructor
  · intro h
    obtain ⟨⟨c, k⟩, hfound, rfl⟩ := Option.map_eq_some_iff.1 h
    exact ⟨c, List.mem_of_find?_eq_some hfound, by simpa using List.find?_some hfound⟩
  · rintro ⟨c, hmem, rfl⟩
    refine Option.map_eq_some_iff.2 ⟨(c, key), ?_, rfl⟩
    cases hfound : keymap.find? fun entry => (entry.1.toNat : Int) = c.toNat with
    | none => simpa using List.find?_eq_none.1 hfound (c, key) hmem
    | some entry =>
      have hsame : (entry.1.toNat : Int) = c.toNat := by simpa using List.find?_some hfound
      have hentry := List.mem_of_find?_eq_some hfound
      rw [hapart entry hentry (c, key) hmem (by exact_mod_cast hsame)]

theorem keyOf?_escape : keyOf? escape = none := by decide

theorem keyOf?_f1 : keyOf? f1 = none := by decide

theorem keyOf?_of_not_mem (h : ∀ entry ∈ keymap, symbol ≠ (entry.1.toNat : Int)) :
    keyOf? symbol = none := by
  cases hkey : keyOf? symbol with
  | none => rfl
  | some key =>
    obtain ⟨c, hmem, hsymbol⟩ := keyOf?_eq_some_iff.1 hkey
    exact absurd hsymbol.symm (h (c, key) hmem)

theorem lt_of_keyOf? (h : keyOf? symbol = some key) : key < 16 := by
  have hkeys : ∀ entry ∈ keymap, entry.2 < 16 := by decide
  obtain ⟨c, hmem, -⟩ := keyOf?_eq_some_iff.1 h
  exact hkeys (c, key) hmem

/-- **Each machine key has one key of the typewriter.** -/
theorem existsUnique_symbol (h : key < 16) : ∃! symbol, keyOf? symbol = some key := by
  have hkeys : ∀ key < 16, ∃ entry ∈ keymap, entry.2 = key := by decide
  have hapart : ∀ a ∈ keymap, ∀ b ∈ keymap, a.2 = b.2 → a = b := by decide
  obtain ⟨⟨c, _⟩, hmem, rfl⟩ := hkeys key h
  refine ⟨c.toNat, keyOf?_eq_some_iff.2 ⟨c, hmem, rfl⟩, fun symbol hsymbol => ?_⟩
  obtain ⟨d, hmem', rfl⟩ := keyOf?_eq_some_iff.1 hsymbol
  rw [(Prod.mk.inj (hapart _ hmem' _ hmem rfl)).1]

theorem symbol_eq_iff (h : keyOf? symbol = some key) {key' : Nat} (h' : keyOf? other = some key') :
    other = symbol ↔ key' = key := by
  constructor
  · rintro rfl
    exact Option.some.inj (h'.symm.trans h)
  · rintro rfl
    exact (existsUnique_symbol (lt_of_keyOf? h)).unique h' h

theorem ne_escape (h : keyOf? symbol = some key) : symbol ≠ escape := by
  rintro rfl
  rw [keyOf?_escape] at h
  cases h

theorem ne_f1 (h : keyOf? symbol = some key) : symbol ≠ f1 := by
  rintro rfl
  rw [keyOf?_f1] at h
  cases h

/-! ### What an event means -/

theorem effects_down {τ : Type} (h : keyOf? symbol = some key) :
    effects (τ := τ) [down symbol] = [.press key] := by
  simp [effects, effect, h, ne_escape h, ne_f1 h]

theorem effects_up {τ : Type} (h : keyOf? symbol = some key) :
    effects (τ := τ) [up symbol] = [.release key] := by
  simp [effects, effect, h]

theorem effects_of_foreign {τ : Type} (h : e.Foreign) : effects (τ := τ) [e] = [] := by
  obtain ⟨symbol, hsymbol, hescape, hf1, hmapped⟩ := h
  have hnone := keyOf?_of_not_mem hmapped
  cases e with
  | down pressed =>
    obtain rfl : pressed = symbol := Option.some.inj hsymbol
    simp [effects, effect, hescape, hf1, hnone]
  | up released =>
    obtain rfl : released = symbol := Option.some.inj hsymbol
    simp [effects, effect, hnone]
  | close => cases hsymbol

/-- What a single event at the window means to the machine. -/
inductive Means {τ : Type} : WindowEvent → List (Event τ) → Prop where
  /-- The user wants to leave. -/
  | leave {e : WindowEvent} (leaves : e.Leaves) : Means e [.exit]
  /-- The user switches the journal's details. -/
  | toggle : Means (down f1) [.toggleDetails]
  /-- A machine key goes down. -/
  | press {symbol : Int} {key : Nat} (stands : keyOf? symbol = some key) :
      Means (down symbol) [.press key]
  /-- A machine key comes up. -/
  | release {symbol : Int} {key : Nat} (stands : keyOf? symbol = some key) :
      Means (up symbol) [.release key]
  /-- Nothing. -/
  | idle {e : WindowEvent} (stays : ¬ e.Leaves) (keeps : e ≠ down f1) : Means e []

/-- **An event at the window means one of five things.** -/
theorem means {τ : Type} (e : WindowEvent) : Means (τ := τ) e (effects [e]) := by
  cases e with
  | down symbol =>
    by_cases hescape : symbol = escape
    · rw [hescape]
      exact .leave (.inl rfl)
    by_cases hf1 : symbol = f1
    · rw [hf1]
      exact .toggle
    cases hkey : keyOf? symbol with
    | none =>
      have hnone : effects (τ := τ) [down symbol] = [] := by
        simp [effects, effect, hescape, hf1, hkey]
      rw [hnone]
      exact .idle (by simp [Leaves, hescape]) (by simp [hf1])
    | some key =>
      rw [effects_down hkey]
      exact .press hkey
  | up symbol =>
    cases hkey : keyOf? symbol with
    | none =>
      have hnone : effects (τ := τ) [up symbol] = [] := by simp [effects, effect, hkey]
      rw [hnone]
      exact .idle (by simp [Leaves]) nofun
    | some key =>
      rw [effects_up hkey]
      exact .release hkey
  | close => exact .leave (.inr rfl)

end WindowEvent

/-! ### The journal and the keyboard -/

@[simp] theorem Journal.details_write (j : Journal) (level : Level) (text : String) :
    (j.write level text).details = j.details := by
  unfold write
  split <;> rfl

theorem Journal.details_toggle (j : Journal) : j.toggle.details = !j.details := by
  rw [toggle, details_write, switch]

namespace Keyboard

variable {k : Keyboard} {key other : Nat}

theorem isPressed_eq (k : Keyboard) (key : Nat) : k.isPressed key = k.held[key]?.getD false := by
  unfold isPressed
  split
  next h =>
    obtain ⟨-, hlt⟩ := h
    rw [Vector.getElem?_eq_getElem (by omega)]
    rfl
  next h =>
    have hout : 16 ≤ key := by
      unfold IsKey at h
      omega
    rw [Vector.getElem?_eq_none hout]
    rfl

theorem isPressed_press (h : key < 16) (other : Nat) :
    (k.press key).isPressed other = (decide (other = key) || k.isPressed other) := by
  have hkey : IsKey key := ⟨by omega, by omega⟩
  rw [isPressed_eq, isPressed_eq, press, dif_pos hkey]
  simp only [Int.toNat_natCast, Vector.getElem?_set]
  by_cases heq : key = other
  · simp [heq]
  · simp [heq, Ne.symm heq]

theorem isPressed_release (h : key < 16) (other : Nat) :
    (k.release key).isPressed other = (decide (other ≠ key) && k.isPressed other) := by
  have hkey : IsKey key := ⟨by omega, by omega⟩
  rw [isPressed_eq, isPressed_eq, release, dif_pos hkey]
  simp only [Int.toNat_natCast, Vector.getElem?_set]
  by_cases heq : key = other
  · simp [heq]
  · simp [heq, Ne.symm heq]

theorem latest_append_singleton {downs : List KeyDown} (h : downs.length ≤ capacity) (d : KeyDown) :
    latest (downs ++ [d]) = (if downs.length = capacity then downs.tail else downs) ++ [d] := by
  split
  next hfull =>
    have hsome : downs ≠ [] := by
      rintro rfl
      cases hfull
    rw [latest, List.length_append, List.length_singleton, hfull, Nat.add_sub_cancel_left,
      List.drop_one, List.tail_append_of_ne_nil hsome]
  next hroom =>
    refine latest_of_length_le ?_
    rw [List.length_append, List.length_singleton]
    omega

end Keyboard

/-! ### One event -/

namespace Surroundings

open WindowEvent

variable {κ τ : Type} [Clock κ τ] {s : Surroundings κ} {symbol : Int} {key : Nat}

theorem exitRequested_effects (s : Surroundings κ) (e : WindowEvent) :
    (s.deliver (effects [e])).exitRequested = (s.exitRequested || decide e.Leaves) := by
  have hmeans := means (τ := τ) e
  generalize effects [e] = events at hmeans
  cases hmeans with
  | leave leaves => simp [deliver, occur, leaves]
  | toggle =>
    have hstays : ¬ (down f1).Leaves := by decide
    simp [deliver, occur, hstays]
  | press stands => simp [deliver, occur, Leaves, ne_escape stands]
  | release => simp [deliver, occur, Leaves]
  | idle stays => simp [deliver, stays]

theorem details_effects (s : Surroundings κ) (e : WindowEvent) :
    (s.deliver (effects [e])).journal.details =
      (s.journal.details ^^ decide (e = down f1)) := by
  have hmeans := means (τ := τ) e
  generalize effects [e] = events at hmeans
  cases hmeans with
  | @leave e leaves =>
    have hother : e ≠ down f1 := by
      rintro rfl
      exact absurd leaves (by decide)
    simp [deliver, occur, hother]
  | toggle => simp [deliver, occur, Journal.details_toggle]
  | press stands => simp [deliver, occur, ne_f1 stands]
  | release => simp [deliver, occur]
  | idle _ keeps => simp [deliver, keeps]

theorem isPressed_effects_of_ne (h : keyOf? symbol = some key) (s : Surroundings κ)
    {e : WindowEvent} (hother : e.symbol? ≠ some symbol) :
    (s.deliver (effects [e])).keyboard.isPressed key = s.keyboard.isPressed key := by
  have hmeans := means (τ := τ) e
  generalize effects [e] = events at hmeans
  cases hmeans with
  | leave | toggle | idle => rfl
  | press stands =>
    have hne := fun hkey => hother (congrArg some ((symbol_eq_iff h stands).2 hkey))
    refine (Keyboard.isPressed_press (lt_of_keyOf? stands) key).trans ?_
    rw [decide_eq_false (Ne.symm hne), Bool.false_or]
  | release stands =>
    have hne := fun hkey => hother (congrArg some ((symbol_eq_iff h stands).2 hkey))
    refine (Keyboard.isPressed_release (lt_of_keyOf? stands) key).trans ?_
    rw [decide_eq_true (Ne.symm hne), Bool.true_and]

/-- A key of the typewriter decides over its own machine key only. -/
theorem isPressed_effects (h : keyOf? symbol = some key) (s : Surroundings κ) (e : WindowEvent) :
    (s.deliver (effects [e])).keyboard.isPressed key =
      if e.symbol? = some symbol then decide (e = down symbol)
      else s.keyboard.isPressed key := by
  split
  next hsymbol =>
    cases e with
    | down pressed =>
      obtain rfl : pressed = symbol := Option.some.inj hsymbol
      rw [effects_down h]
      refine (Keyboard.isPressed_press (lt_of_keyOf? h) key).trans ?_
      simp
    | up released =>
      obtain rfl : released = symbol := Option.some.inj hsymbol
      rw [effects_up h]
      refine (Keyboard.isPressed_release (lt_of_keyOf? h) key).trans ?_
      simp
    | close => cases hsymbol
  next hother => exact isPressed_effects_of_ne h s hother

theorem downs_effects_of_new {e : WindowEvent} (hkey : e.pressed? = some key)
    (hnew : s.keyboard.isPressed key = false)
    (hqueue : s.keyboard.downs.length ≤ Keyboard.capacity) :
    (s.deliver (effects [e])).keyboard.downs =
      (if s.keyboard.downs.length = Keyboard.capacity then s.keyboard.downs.tail
        else s.keyboard.downs) ++ [⟨key, s.keyboard.cycle⟩] := by
  cases e with
  | down symbol =>
    have hlt := lt_of_keyOf? hkey
    rw [effects_down hkey, ← Keyboard.latest_append_singleton hqueue]
    exact Keyboard.press_downs_of_new ⟨by omega, by omega⟩ hnew
  | up | close => cases hkey

theorem downs_effects_of_not_new {e : WindowEvent}
    (h : ∀ key, e.pressed? = some key → s.keyboard.isPressed key = true) :
    (s.deliver (effects [e])).keyboard.downs = s.keyboard.downs := by
  have hmeans := means (τ := τ) e
  generalize effects [e] = events at hmeans
  cases hmeans with
  | leave | toggle | idle => rfl
  | press stands =>
    refine Keyboard.press_downs_of_not_new fun hnew => ?_
    rw [h _ stands] at hnew
    cases hnew.2
  | release => exact Keyboard.release_downs _

/-! ### Rows of events -/

theorem deliver_effects_append (s : Surroundings κ) (events more : List WindowEvent) :
    s.deliver (effects (events ++ more)) = (s.deliver (effects events)).deliver (effects more) := by
  rw [effects, List.filterMap_append, deliver_append]
  rfl

theorem exitRequested_deliver_effects (s : Surroundings κ) (events : List WindowEvent) :
    (s.deliver (effects events)).exitRequested =
      (s.exitRequested || decide (∃ e ∈ events, e.Leaves)) := by
  induction events using List.reverseRecOn with
  | nil => simp [effects, deliver]
  | append_singleton events e ih =>
    rw [deliver_effects_append, exitRequested_effects, ih, Bool.or_assoc, ← Bool.decide_or]
    simp [or_and_right, exists_or]

theorem details_deliver_effects (s : Surroundings κ) (events : List WindowEvent) :
    (s.deliver (effects events)).journal.details =
      (s.journal.details ^^ decide (Odd (events.count (.down f1)))) := by
  induction events using List.reverseRecOn with
  | nil => simp [effects, deliver]
  | append_singleton events e ih =>
    rw [deliver_effects_append, details_effects, ih, List.count_append, List.count_singleton,
      Bool.xor_assoc]
    by_cases h : e = down f1
    · have hodd : decide (Odd (events.count (down f1) + 1)) =
          !decide (Odd (events.count (down f1))) := by
        rw [← decide_not]
        exact decide_eq_decide.2 Nat.odd_add_one
      simp only [h, beq_self_eq_true, if_true, hodd, decide_true, Bool.xor_true]
    · simp [h]

theorem isPressed_deliver_effects (h : keyOf? symbol = some key) (s : Surroundings κ)
    (events : List WindowEvent) :
    (s.deliver (effects events)).keyboard.isPressed key =
      (lastOf? symbol events).elim (s.keyboard.isPressed key) fun e => e = down symbol := by
  induction events using List.reverseRecOn with
  | nil => rfl
  | append_singleton events e ih =>
    rw [deliver_effects_append, isPressed_effects h, ih, lastOf?_append_singleton]
    split <;> rfl

theorem length_downs_deliver_effects (h : s.keyboard.downs.length ≤ Keyboard.capacity)
    (events : List WindowEvent) :
    (s.deliver (effects events)).keyboard.downs.length ≤ Keyboard.capacity := by
  rw [deliver_keyboard, Keyboard.downs_foldl_deedsOf h, Keyboard.length_latest]
  exact Nat.min_le_right _ _

/-- **What the user has done at the window can be told from the events.**  After any row of events,
with any symbols:

* the user wants to leave exactly if a press of Escape or a closing of the window was among them, or
  if that was so before; and whatever comes next does not take this back;
* the journal's details are on exactly if they were at first or F1 went down an odd number of times,
  but not both;
* each machine key has one key of the typewriter, which is neither Escape nor F1, and it is held
  exactly if the last event of that key is a press, or if there is none and it was held at first;
* the next event puts one key-down at the end of the queue if it is the press of a machine key that
  is not held, whereupon a full queue loses its oldest entry, and no other event changes the queue;
* the next event changes nothing at all if its symbol is none of those. -/
theorem input_of_events (s : Surroundings κ)
    (hqueue : s.keyboard.downs.length ≤ Keyboard.capacity) (events : List WindowEvent) :
    let after := s.deliver (effects events)
    (after.exitRequested = true ↔ s.exitRequested = true ∨ ∃ e ∈ events, e.Leaves) ∧
    (∀ more, after.exitRequested = true →
      (s.deliver (effects (events ++ more))).exitRequested = true) ∧
    after.journal.details =
      (s.journal.details ^^ decide (Odd (events.count (.down f1)))) ∧
    (∀ key < 16, ∃! symbol, keyOf? symbol = some key) ∧
    (∀ symbol key, keyOf? symbol = some key → symbol ≠ escape ∧ symbol ≠ f1 ∧
      (after.keyboard.isPressed key = true ↔ lastOf? symbol events = some (.down symbol) ∨
        lastOf? symbol events = none ∧ s.keyboard.isPressed key = true)) ∧
    (∀ e, let next := after.deliver (effects [e])
      (∀ key, e.pressed? = some key → after.keyboard.isPressed key = false →
        next.keyboard.downs =
          (if after.keyboard.downs.length = 16 then after.keyboard.downs.tail
            else after.keyboard.downs) ++ [⟨key, after.keyboard.cycle⟩]) ∧
      ((∀ key, e.pressed? = some key → after.keyboard.isPressed key = true) →
        next.keyboard.downs = after.keyboard.downs) ∧
      (e.Foreign → next = after)) := by
  intro after
  have hexit := exitRequested_deliver_effects s events
  refine ⟨?_, fun more h => ?_, details_deliver_effects s events,
    fun key => existsUnique_symbol, fun symbol key hkey => ⟨ne_escape hkey, ne_f1 hkey, ?_⟩,
    fun e => ⟨?_, downs_effects_of_not_new, fun hforeign => ?_⟩⟩
  · rw [hexit, Bool.or_eq_true, decide_eq_true_iff]
  · rw [deliver_effects_append, exitRequested_deliver_effects, h, Bool.true_or]
  · rw [isPressed_deliver_effects hkey]
    cases lastOf? symbol events <;> simp
  · exact fun key hpressed hnew =>
      downs_effects_of_new hpressed hnew (length_downs_deliver_effects hqueue events)
  · rw [effects_of_foreign hforeign]
    rfl

/-- The keys `1` and `q` go down, and `1` comes up again; in between the details are switched, the
key `5` is tried, and at last the window is closed. -/
def typed : List WindowEvent :=
  [.down 0x31, .down f1, .down 0x31, .up 0x71, .down 0x71, .up 0x31, .down 0x35, .close]

/-- Then the user wants to leave, the details are on, the machine key 4 is held and the key 1 is
not.  Key 2 would join the queue behind these two, and another `5` would change nothing. -/
theorem typing_leaves_one_key_held :
    untouched.keyboard.downs.length ≤ Keyboard.capacity ∧
    let after := untouched.deliver (effects typed)
    after.exitRequested = true ∧ after.journal.details = true ∧
    after.keyboard.isPressed 4 = true ∧ ¬ after.keyboard.isPressed 1 = true ∧
    (after.deliver (effects [.down 0x32])).keyboard.downs = [⟨1, 0⟩, ⟨4, 0⟩, ⟨2, 0⟩] ∧
    after.deliver (effects [.down 0x35]) = after := by
  have hqueue : untouched.keyboard.downs.length ≤ Keyboard.capacity := by decide
  obtain ⟨hexit, -, hdetails, -, hheld, hnext⟩ := input_of_events untouched hqueue typed
  have hforeign : (WindowEvent.down 0x35).Foreign := ⟨0x35, rfl, by decide, by decide, by decide⟩
  refine ⟨hqueue, hexit.2 (.inr ⟨.close, by decide, by decide⟩), ?_, ?_, ?_, ?_,
    (hnext (.down 0x35)).2.2 hforeign⟩
  · rw [hdetails]
    decide
  · exact (hheld 0x71 4 (by decide)).2.2.2 (.inl (by decide))
  · intro hone
    exact absurd ((hheld 0x31 1 (by decide)).2.2.1 hone) (by decide)
  · exact (hnext (.down 0x32)).1 2 (by decide) (by decide)

end Surroundings

end Chip8

import Chip8.Proofs.Keyboard.Wait

/-!
# Key-downs are delivered in order and at most once

A `Ledger` is kept while the operations of a keyboard are called in any order, key waits with
whatever events happen in their course among them.  It shows that the queue of the keyboard is at
every moment the end of the history of key-downs, that key-downs leave it at the front only, and
for one of four reasons (`Keyboard.Departure`), and that the key waits bring keys of the history in
its order, none of them twice (`Keyboard.Ledger.delivered_in_order`).
-/

namespace Chip8

namespace Keyboard

/-! ### Arrivals and departures -/

/-- The key-downs that join the queue of a keyboard when something is done to it. -/
def arrivals (k : Keyboard) : Deed → List KeyDown
  | .press key => if IsKey key ∧ k.isPressed key = false then [⟨key.toNat, k.cycle⟩] else []
  | _ => []

/-- Why key-downs leave the queue of a keyboard when something is done to it. -/
inductive Departure (k : Keyboard) : Deed → List KeyDown → Prop where
  /-- None leaves. -/
  | none (deed : Deed) : Departure k deed []
  /-- A key wait takes the oldest one. -/
  | taken {d : KeyDown} (oldest : k.downs.head? = some d) : Departure k .take [d]
  /-- Those that are no longer fresh are dropped. -/
  | stale {gone : List KeyDown} (old : ∀ d ∈ gone, d.cycle + 1 < k.cycle) :
      Departure k .dropStale gone
  /-- The oldest one leaves a full queue that another one joins. -/
  | pushedOut {key : Int} {d : KeyDown} (full : k.downs.length = capacity)
      (new : k.arrivals (.press key) ≠ []) : Departure k (.press key) [d]
  /-- All are cleared away. -/
  | cleared : Departure k .reset k.downs

/-- Key-downs join the queue at its end and leave it at its front. -/
theorem exists_departure {k : Keyboard} (hshort : k.downs.length ≤ capacity) (deed : Deed) :
    ∃ gone, k.Departure deed gone ∧
      k.downs ++ k.arrivals deed = gone ++ (k.perform deed).downs := by
  cases deed with
  | press key =>
    -- a key-down that joins a full queue pushes out one, and there is never more than one too many
    by_cases hnew : IsKey key ∧ k.isPressed key = false
    · have hjoin : k.arrivals (.press key) = [⟨key.toNat, k.cycle⟩] := if_pos hnew
      simp only [perform, press_downs_of_new hnew.1 hnew.2, hjoin]
      by_cases hfull : k.downs.length = capacity
      · cases hd : k.downs with
        | nil => simp [hd, capacity] at hfull
        | cons d rest =>
          refine ⟨[d], .pushedOut hfull (by simp [hjoin]), ?_⟩
          rw [hd, List.length_cons] at hfull
          simp [latest, hfull]
      · refine ⟨[], .none _, ?_⟩
        have hroom : k.downs.length + 1 - capacity = 0 := by omega
        simp [latest, hroom]
    · have hjoin : k.arrivals (.press key) = [] := if_neg hnew
      refine ⟨[], .none _, ?_⟩
      simp only [perform, press_downs_of_not_new hnew, hjoin]
      simp
  | release key => exact ⟨[], .none _, by simp [perform, arrivals]⟩
  | nextCycle => exact ⟨[], .none _, by simp [perform, arrivals, nextCycle]⟩
  | reset => exact ⟨k.downs, .cleared, by simp [perform, arrivals, reset]⟩
  | dropStale =>
    refine ⟨k.downs.takeWhile fun d => d.cycle + 1 < k.cycle, .stale fun d hd => ?_, ?_⟩
    · exact of_decide_eq_true (List.all_eq_true.1 List.all_takeWhile d hd)
    · simp [perform, arrivals, dropStale, List.takeWhile_append_dropWhile]
  | take =>
    cases hd : k.downs with
    | nil => exact ⟨[], .none _, by simp [perform, arrivals, hd]⟩
    | cons d rest => exact ⟨[d], .taken (by simp [hd]), by simp [perform, arrivals, hd]⟩

theorem Chronicle.perform_history (c : Chronicle) {deed : Deed} (h : deed ≠ .reset) :
    (c.perform deed).history = c.history ++ c.keyboard.arrivals deed := by
  cases deed with
  | press key => simp only [perform, arrivals]; split <;> simp
  | reset => exact absurd rfl h
  | take => simp only [perform, arrivals]; split <;> simp
  | release | nextCycle | dropStale => simp [perform, arrivals]

/-- The keys of the key-downs that were taken. -/
def Chronicle.takenKeys (c : Chronicle) : List (Option Nat) :=
  c.taken.map fun i => c.history[i]?.map KeyDown.key

theorem Chronicle.Grows.takenKeys_eq {c after : Chronicle} (hg : c.Grows after) (hc : c.Sound) :
    c.takenKeys = c.taken.map fun i => after.history[i]?.map KeyDown.key := by
  refine List.map_congr_left fun i hi => ?_
  obtain ⟨more, hmore⟩ := hg.history
  have hlt : i < c.history.length := Nat.lt_of_lt_of_le (hc.left i hi) (Nat.sub_le _ _)
  rw [← hmore, List.getElem?_append_left hlt]

/-! ### Calls -/

/-- A call of an operation of the keyboard. -/
inductive Call (κ τ : Type) where
  /-- A key goes down. -/
  | press (key : Int)
  /-- A key comes up. -/
  | release (key : Int)
  /-- Someone asks whether a key is held. -/
  | isPressed (key : Int)
  /-- Someone asks which keys are held. -/
  | pressedKeys
  /-- The next instruction begins. -/
  | nextCycle
  /-- All keys come up and the queue is emptied. -/
  | reset
  /-- Someone waits for a key, with this attendant and in these surroundings. -/
  | wait (attendant : Attendant τ) (around : Surroundings κ)

variable {κ τ : Type} [Clock κ τ]

namespace Call

/-- The surroundings of a wait for a key of this keyboard. -/
def place (k : Keyboard) (around : Surroundings κ) : Surroundings κ :=
  { around with keyboard := k }

/-- The keyboard after a call. -/
def act (k : Keyboard) : Call κ τ → Keyboard
  | press key => k.press key
  | release key => k.release key
  | isPressed _ | pressedKeys => k
  | nextCycle => k.nextCycle
  | reset => k.reset
  | wait attendant around => ((place k around).waitForKey attendant).2.keyboard

/-- The key that a call brings. -/
def key? (k : Keyboard) : Call κ τ → Option Nat
  | wait attendant around => ((place k around).waitForKey attendant).1.key?
  | _ => none

/-- What a call does to the keyboard. -/
def deeds (k : Keyboard) : Call κ τ → List Deed
  | press key => [.press key]
  | release key => [.release key]
  | isPressed _ | pressedKeys => []
  | nextCycle => [.nextCycle]
  | reset => [.reset]
  | wait attendant around => (place k around).waitDeeds attendant

theorem act_eq (k : Keyboard) (call : Call κ τ) :
    call.act k = (call.deeds k).foldl perform k := by
  cases call with
  | wait attendant around => exact Surroundings.keyboard_waitForKey attendant (place k around)
  | press | release | isPressed | pressedKeys | nextCycle | reset => rfl

end Call

/-! ### The ledger -/

/-- What is kept of the calls of a keyboard. -/
structure Ledger where
  /-- The keyboard. -/
  keyboard : Keyboard := {}
  /-- All that was done to it. -/
  deeds : List Deed := []
  /-- The keys that waits have brought since the last reset. -/
  delivered : List Nat := []

namespace Ledger

/-- A call is made and entered. -/
def enter (l : Ledger) (call : Call κ τ) : Ledger where
  keyboard := call.act l.keyboard
  deeds := l.deeds ++ call.deeds l.keyboard
  delivered :=
    match call with
    | .reset => []
    | _ => l.delivered ++ (call.key? l.keyboard).toList

/-- The ledger of a fresh keyboard after these calls. -/
def of (calls : List (Call κ τ)) : Ledger := calls.foldl enter {}

/-- The chronicle of the ledger. -/
def chronicle (l : Ledger) : Chronicle := .of l.deeds

/-- The ledger agrees with its chronicle. -/
structure Kept (l : Ledger) : Prop where
  /-- The keyboard is that of the chronicle. -/
  keyboard : l.keyboard = l.chronicle.keyboard
  /-- The keys that waits brought are those of the key-downs that were taken. -/
  delivered : l.delivered.map some = l.chronicle.takenKeys

variable {l : Ledger}

theorem chronicle_enter (l : Ledger) (call : Call κ τ) :
    (l.enter call).chronicle = (call.deeds l.keyboard).foldl Chronicle.perform l.chronicle :=
  Chronicle.of_append _ _

/-- A call keeps the ledger if it brings the keys that it takes. -/
theorem Kept.enter_of_taken (h : l.Kept) (call : Call κ τ) (new : List Nat)
    (hg : l.chronicle.Grows (l.enter call).chronicle)
    (ht : (l.enter call).chronicle.taken = l.chronicle.taken ++ new)
    (hd : (l.enter call).delivered.map some = l.delivered.map some ++
      new.map fun i => (l.enter call).chronicle.history[i]?.map KeyDown.key) :
    (l.enter call).Kept where
  keyboard := by
    rw [chronicle_enter, Chronicle.foldl_perform_keyboard, ← h.keyboard]
    exact Call.act_eq l.keyboard call
  delivered := by
    rw [hd, h.delivered, hg.takenKeys_eq (Chronicle.sound_of _), ← List.map_append, ← ht]
    rfl

theorem Kept.enter_of_deed (h : l.Kept) (call : Call κ τ) {deed : Deed}
    (hdeeds : call.deeds l.keyboard = [deed]) (hd : (l.enter call).delivered = l.delivered)
    (hr : deed ≠ .reset) (ht : deed ≠ .take) : (l.enter call).Kept := by
  have hchronicle := chronicle_enter l call
  rw [hdeeds] at hchronicle
  refine h.enter_of_taken call [] ?_ ?_ ?_
  · rw [hchronicle]
    exact Chronicle.perform_grows _ hr
  · rw [hchronicle, List.append_nil]
    exact Chronicle.foldl_taken _ (by simpa using hr.symm) (by simpa using ht.symm)
  · rw [hd, List.map_nil, List.append_nil]

theorem Kept.wait (h : l.Kept) (attendant : Attendant τ) (around : Surroundings κ) :
    (l.enter (.wait attendant around)).Kept := by
  have hchronicle := chronicle_enter l (.wait attendant around)
  have hk : (Call.place l.keyboard around).keyboard = l.chronicle.keyboard := h.keyboard
  have hgrows := Surroundings.afterWait_grows attendant (Call.place l.keyboard around) l.chronicle
  cases hkey : ((Call.place l.keyboard around).waitForKey attendant).1.key? with
  | none =>
    have htaken := Surroundings.afterWait_taken_of_none hk hkey
    refine h.enter_of_taken (.wait attendant around) [] (hchronicle ▸ hgrows) ?_ ?_
    · rw [hchronicle, List.append_nil]
      exact htaken
    · simp [enter, Call.key?, hkey]
  | some key =>
    obtain ⟨i, d, htaken, -, hd, rfl⟩ :=
      Surroundings.afterWait_taken_of_some (Chronicle.sound_of _) hk hkey
    refine h.enter_of_taken (.wait attendant around) [i] (hchronicle ▸ hgrows) ?_ ?_
    · rw [hchronicle]
      exact htaken
    · have hd' : (l.enter (.wait attendant around)).chronicle.history[i]? = some d :=
        hchronicle ▸ hd
      rw [List.map_singleton, hd']
      simp [enter, Call.key?, hkey]

theorem Kept.reset (h : l.Kept) : (l.enter (.reset : Call κ τ)).Kept := by
  have hchronicle := chronicle_enter l (.reset : Call κ τ)
  refine ⟨?_, ?_⟩
  · rw [hchronicle, Chronicle.foldl_perform_keyboard, ← h.keyboard]
    rfl
  · rw [hchronicle]
    rfl

theorem Kept.enter (h : l.Kept) (call : Call κ τ) : (l.enter call).Kept := by
  have hsilent : (l.delivered ++ (none : Option Nat).toList) = l.delivered := List.append_nil _
  cases call with
  | press key => exact h.enter_of_deed _ rfl hsilent (by simp) (by simp)
  | release key => exact h.enter_of_deed _ rfl hsilent (by simp) (by simp)
  | isPressed | pressedKeys =>
    -- a question changes nothing
    simpa [Ledger.enter, Call.act, Call.deeds, Call.key?] using h
  | nextCycle => exact h.enter_of_deed _ rfl hsilent (by simp) (by simp)
  | reset => exact h.reset
  | wait attendant around => exact h.wait attendant around

theorem Kept.foldl (h : l.Kept) (calls : List (Call κ τ)) : (calls.foldl Ledger.enter l).Kept := by
  induction calls generalizing l with
  | nil => exact h
  | cons call calls ih => exact ih (h.enter call)

theorem kept_of (calls : List (Call κ τ)) : (of calls).Kept :=
  Kept.foldl ⟨rfl, rfl⟩ calls

/-- **Key-downs are delivered in order and at most once.**  Let the operations of a fresh keyboard
be called in any order, with any events in the course of the key waits.  The waits since the last
reset have brought the keys at places `taken` of the history since then, and these places ascend.
At every moment in the course of the calls the queue is the end of the history up to that moment,
with at most 16 key-downs, whose stamps ascend and are not ahead of the cycle; and with every deed,
key-downs join the queue at its end as they join the history, and leave it at its front for one of
the reasons that there are, a take being entered among the places. -/
theorem delivered_in_order (calls : List (Call κ τ)) :
    let l := of calls
    (l.keyboard = l.chronicle.keyboard ∧
      l.chronicle.taken.Pairwise (· < ·) ∧
      l.delivered.map some =
        l.chronicle.taken.map fun i => l.chronicle.history[i]?.map KeyDown.key) ∧
    (∀ deeds, deeds <+: l.deeds →
      let c := Chronicle.of deeds
      c.keyboard.downs <:+ c.history ∧ c.keyboard.downs.length ≤ 16 ∧
      c.keyboard.downs.Pairwise (fun d e => d.cycle ≤ e.cycle) ∧
      ∀ d ∈ c.keyboard.downs, d.cycle ≤ c.keyboard.cycle) ∧
    ∀ deeds deed, deeds ++ [deed] <+: l.deeds →
      let c := Chronicle.of deeds
      let after := Chronicle.of (deeds ++ [deed])
      (deed ≠ .reset → after.history = c.history ++ c.keyboard.arrivals deed) ∧
      (∃ gone, c.keyboard.Departure deed gone ∧
        c.keyboard.downs ++ c.keyboard.arrivals deed = gone ++ after.keyboard.downs) ∧
      ∀ d, deed = .take → c.keyboard.downs.head? = some d →
        after.taken = c.taken ++ [c.front] ∧ after.history[c.front]? = some d := by
  have hkept : (of calls).Kept := kept_of calls
  have hsound : (of calls).chronicle.Sound := Chronicle.sound_of _
  refine ⟨⟨hkept.keyboard, hsound.increasing, hkept.delivered⟩, fun deeds _ => ?_,
    fun deeds deed _ => ?_⟩
  · have h : (Chronicle.of deeds).Sound := Chronicle.sound_of deeds
    refine ⟨h.suffix, h.short, h.sorted.sublist h.suffix.sublist, fun d hd => ?_⟩
    exact h.stamped d (h.suffix.subset hd)
  · have h : (Chronicle.of deeds).Sound := Chronicle.sound_of deeds
    simp only [Chronicle.of_append, List.foldl_cons, List.foldl_nil]
    refine ⟨fun hr => Chronicle.perform_history _ hr, ?_, ?_⟩
    · rw [Chronicle.perform_keyboard]
      exact exists_departure h.short deed
    · rintro d rfl hd
      obtain ⟨rest, hrest⟩ := List.head?_eq_some_iff.1 hd
      rw [Chronicle.perform_take_of_cons hrest]
      exact ⟨rfl, h.head?_downs ▸ hd⟩

end Ledger

end Keyboard

end Chip8

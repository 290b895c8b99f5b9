import Chip8.Proofs.Machine.Faults
import Mathlib.Data.List.Infix

/-!
# Calls and returns

The completed calls and returns of a machine are a row of *detours*.  In such a row a call is
answered by the first return behind it that is one too many for the calls in between; the calls
that are not answered are open (`Detour.openCalls`).

Whatever else a machine does, its stack holds the addresses behind its open calls, and a return
goes to the latest of them.  So a call that is returned from leaves the stack as it found it, and
the program goes on behind the call (`Machine.Fresh.calls_nest`).
-/

namespace Chip8

/-- A completed instruction that leaves the course of the program. -/
inductive Detour where
  /-- A call at an address. -/
  | out (address : Int)
  /-- A return. -/
  | back
  deriving DecidableEq, Repr

namespace Detour

/-- The detour is a call. -/
def isOut : Detour → Bool
  | out _ => true
  | back => false

/-- No call before these detours is answered by them: in no stretch from their beginning are there
more returns than calls. -/
def KeepsOpen (later : List Detour) : Prop :=
  ∀ stretch ∈ later.inits, stretch.count back ≤ stretch.countP isOut

instance (later : List Detour) : Decidable (KeepsOpen later) :=
  inferInstanceAs (Decidable (∀ _ ∈ _, _))

/-- The addresses of the calls that no return answers, the earliest first. -/
def openCalls : List Detour → List Int
  | [] => []
  | out address :: later =>
    if KeepsOpen later then address :: openCalls later else openCalls later
  | back :: later => openCalls later

/-- How many calls before these detours are answered by them. -/
def answers : List Detour → Nat
  | [] => 0
  | out _ :: later => answers later - 1
  | back :: later => answers later + 1

theorem answers_le_iff (later : List Detour) (n : Nat) :
    answers later ≤ n ↔
      ∀ stretch ∈ later.inits, stretch.count back ≤ stretch.countP isOut + n := by
  induction later generalizing n with
  | nil => simp [answers]
  | cons detour later ih =>
    cases detour with
    | out address =>
      have hrest := ih (n + 1)
      simp only [List.inits_cons, List.mem_cons, List.mem_map, forall_eq_or_imp,
        forall_exists_index, and_imp, forall_apply_eq_imp_iff₂, List.count_cons, List.countP_cons]
      simp only [answers, isOut, List.count_nil, List.countP_nil, reduceCtorEq, beq_iff_eq,
        if_true, if_false, Nat.zero_le, true_and, Nat.add_zero]
      rw [Nat.sub_le_iff_le_add, hrest]
      simp only [Nat.add_assoc, Nat.add_comm 1 n]
    | back =>
      simp only [List.inits_cons, List.mem_cons, List.mem_map, forall_eq_or_imp,
        forall_exists_index, and_imp, forall_apply_eq_imp_iff₂, List.count_cons, List.countP_cons]
      simp only [answers, isOut, List.count_nil, List.countP_nil, beq_self_eq_true,
        if_true, Bool.false_eq_true, if_false, Nat.zero_le, true_and, Nat.add_zero]
      cases n with
      | zero =>
        -- the return alone is one too many
        constructor
        · intro h
          omega
        · intro h
          have hempty := h [] ((List.mem_inits _ _).2 List.nil_prefix)
          simp at hempty
      | succ n =>
        rw [Nat.add_le_add_iff_right, ih n]
        simp only [← Nat.add_assoc, Nat.add_le_add_iff_right]

theorem keepsOpen_iff {later : List Detour} : KeepsOpen later ↔ answers later = 0 := by
  rw [← Nat.le_zero, answers_le_iff]
  rfl

theorem answers_append_out (detours : List Detour) (address : Int) :
    answers (detours ++ [out address]) = answers detours := by
  induction detours with
  | nil => rfl
  | cons detour detours ih => cases detour <;> simp only [List.cons_append, answers, ih]

theorem answers_append_back (detours : List Detour) :
    answers (detours ++ [back]) =
      if openCalls detours = [] then answers detours + 1 else answers detours := by
  induction detours with
  | nil => rfl
  | cons detour detours ih =>
    cases detour with
    | out address =>
      simp only [List.cons_append, answers, openCalls, keepsOpen_iff, ih]
      by_cases hopen : answers detours = 0
      · simp only [hopen, if_true, reduceCtorEq, if_false]
        split <;> rfl
      · simp only [hopen, if_false]
        split <;> omega
    | back =>
      simp only [List.cons_append, answers, openCalls, ih]
      by_cases hnone : openCalls detours = []
      · simp only [hnone, if_true]
      · simp only [hnone, if_false]

theorem openCalls_append_out (detours : List Detour) (address : Int) :
    openCalls (detours ++ [out address]) = openCalls detours ++ [address] := by
  induction detours with
  | nil => simp [openCalls, keepsOpen_iff, answers]
  | cons detour detours ih =>
    cases detour with
    | out earlier =>
      simp only [List.cons_append, openCalls, keepsOpen_iff, answers_append_out, ih]
      split <;> rfl
    | back => exact ih

/-- **A further return answers the latest open call.** -/
theorem openCalls_append_back (detours : List Detour) :
    openCalls (detours ++ [back]) = (openCalls detours).dropLast := by
  induction detours with
  | nil => rfl
  | cons detour detours ih =>
    cases detour with
    | out address =>
      simp only [List.cons_append, openCalls, keepsOpen_iff, answers_append_back, ih]
      by_cases hopen : answers detours = 0
      · by_cases hnone : openCalls detours = []
        · simp [hopen, hnone]
        · simp [hopen, hnone, List.dropLast_cons_of_ne_nil]
      · have hanswers : ¬ (if openCalls detours = [] then answers detours + 1
            else answers detours) = 0 := by
          split <;> omega
        simp only [hopen, hanswers, if_false]
    | back => exact ih

end Detour

namespace Machine

variable {κ τ : Type} [Clock κ τ] {m start : Machine κ}

/-! ### Detours of a step -/

/-- The detour that a step makes, if it is the completed step of a call or of a return. -/
def detour? (a : Attendant τ) (m : Machine κ) : Option Detour :=
  match (m.step a).2 with
  | .error _ => none
  | .ok i =>
    match i.op with
    | some .call => some (.out m.pc)
    | some .leave => some .back
    | _ => none

/-- What a use does to the stack, according to the detour that it makes. -/
inductive Turns (m after : Machine κ) : Option Detour → Prop where
  /-- A call puts the address behind it onto the stack. -/
  | out (fetch : m.CanFetch) (stack : after.stack = nextAddress m.pc :: m.stack) :
      Turns m after (some (.out m.pc))
  /-- A return takes its target off the stack. -/
  | back (fetch : m.CanFetch) (word : m.nextWord = 0x00EE)
      (stack : m.stack = after.pc :: after.stack) : Turns m after (some .back)
  /-- Nothing else touches the stack. -/
  | straight (stack : after.stack = m.stack) : Turns m after none

theorem stack_noted (m : Machine κ) (i : Instruction) (op : Op) :
    (m.noted i op).stack = m.stack ∧ (m.noted i op).pc = m.pc := by
  obtain ⟨journal, hnoted⟩ := m.noted_eq i op
  rw [hnoted]
  exact ⟨rfl, rfl⟩

theorem leave_eq_ok {after : Machine κ} (h : m.leave = .ok after) :
    m.stack = after.pc :: after.stack := by
  unfold leave at h
  split at h
  case h_1 => cases h
  case h_2 address rest hstack =>
    cases h
    exact hstack

/-- **What a step does to the stack**: it keeps it, unless it calls or returns. -/
theorem step_turns (a : Attendant τ) (m : Machine κ) : m.Turns (m.step a).1 (m.detour? a) := by
  have houtcome := m.step_outcome a
  unfold detour?
  generalize m.step a = result at houtcome
  cases houtcome with
  | unfetched | unknown | refused | exhausted => exact .straight rfl
  | @done op after fetch op_eq other execute =>
    obtain ⟨hstack, hpc⟩ := after.stack_noted m.nextInstruction op
    simp only [op_eq]
    by_cases hcall : op = .call
    · subst hcall
      cases execute
      exact .out fetch hstack
    by_cases hleave : op = .leave
    · subst hleave
      refine .back fetch (nextInstruction_op_eq_leave_iff.1 op_eq) ?_
      have htaken := leave_eq_ok (m := m.fetched) execute
      rw [← hstack, ← hpc] at htaken
      exact htaken
    · have hsame : after.stack = m.stack := (execute_spares execute).stack hcall hleave
      split
      · exact absurd (Option.some.inj ‹_›) hcall
      · exact absurd (Option.some.inj ‹_›) hleave
      · exact .straight (hstack.trans hsame)
  | keyed awaits =>
    simp only [awaits.2]
    exact .straight rfl
  | cancelled awaits =>
    simp only [awaits.2]
    exact .straight rfl

theorem size_step (a : Attendant τ) (m : Machine κ) :
    (m.step a).1.store.size = m.store.size := by
  have houtcome := m.step_outcome a
  generalize m.step a = result at houtcome
  cases houtcome with
  | unfetched | unknown | refused | keyed | cancelled | exhausted => rfl
  | @done op after fetch op_eq other execute =>
    obtain ⟨journal, hnoted⟩ := after.noted_eq m.nextInstruction op
    rw [hnoted]
    exact (execute_spares execute).size

end Machine

/-! ### Uses of a machine -/

/-- What can happen to a machine that is not switched off. -/
inductive Use (κ τ : Type) where
  /-- An instruction is executed. -/
  | step (a : Attendant τ)
  /-- An event happens. -/
  | event (e : Event τ)
  /-- Something else changes around the machine: the clock, the journal, the counts. -/
  | settle (s : Surroundings κ)
  /-- A picture is taken of the screen. -/
  | photograph
  /-- The keyboard is reset. -/
  | resetKeys

namespace Machine

variable {κ τ : Type} [Clock κ τ] {m start : Machine κ}

/-- The machine after a use. -/
def undergo (m : Machine κ) : Use κ τ → Machine κ
  | .step a => (m.step a).1
  | .event e => m.occur e
  | .settle s => m.settle s
  | .photograph => m.photographed
  | .resetKeys => m.resetKeys

/-- The detour that a use makes, if any. -/
def detourOf? (m : Machine κ) : Use κ τ → Option Detour
  | .step a => m.detour? a
  | _ => none

/-- The machine after uses one after the other. -/
def course (m : Machine κ) (uses : List (Use κ τ)) : Machine κ := uses.foldl undergo m

theorem course_append (m : Machine κ) (uses more : List (Use κ τ)) :
    m.course (uses ++ more) = (m.course uses).course more :=
  List.foldl_append

/-- The detours of uses one after the other. -/
def detours (m : Machine κ) : List (Use κ τ) → List Detour
  | [] => []
  | use :: uses => (m.detourOf? use).toList ++ (m.undergo use).detours uses

/-- The machine was just switched on, or reset; its memory has less than 2¹⁶ bytes. -/
inductive Fresh : Machine κ → Prop where
  | boot {size : Int} {program : Array UInt8} {random : RandomBytes} {around : Surroundings κ}
      {m : Machine κ} (h : boot size program random around = .ok m)
      (hsize : m.store.size < 0x10000) : Fresh m
  | reset {m : Machine κ} (hsize : m.store.size < 0x10000) : Fresh m.reset

theorem undergo_turns (m : Machine κ) (use : Use κ τ) :
    m.Turns (m.undergo use) (m.detourOf? use) := by
  cases use with
  | step a => exact m.step_turns a
  | event | settle | photograph | resetKeys => exact .straight rfl

theorem size_undergo (m : Machine κ) (use : Use κ τ) :
    (m.undergo use).store.size = m.store.size := by
  cases use with
  | step a => exact m.size_step a
  | event | settle | photograph | resetKeys => rfl

theorem size_course (m : Machine κ) (uses : List (Use κ τ)) :
    (m.course uses).store.size = m.store.size := by
  induction uses generalizing m with
  | nil => rfl
  | cons use uses ih => exact (ih _).trans (m.size_undergo use)

theorem Reachable.undergo (h : m.Reachable) (use : Use κ τ) : (m.undergo use).Reachable := by
  cases use with
  | step a => exact h.step a
  | event e => exact h.occur e
  | settle s => exact h.settle s
  | photograph => exact h.photographed
  | resetKeys => exact h.resetKeys

theorem Reachable.course (h : m.Reachable) (uses : List (Use κ τ)) :
    (m.course uses).Reachable := by
  induction uses generalizing m with
  | nil => exact h
  | cons use uses ih => exact ih (h.undergo use)

theorem Fresh.stack (h : m.Fresh) : m.stack = [] := by
  cases h with
  | boot h =>
    obtain ⟨store, rfl⟩ := exists_store_of_boot h
    rfl
  | reset => rfl

theorem Fresh.size_lt (h : m.Fresh) : m.store.size < 0x10000 := by
  cases h with
  | boot _ hsize => exact hsize
  | reset hsize => exact hsize

theorem nextAddress_of_canFetch (hsize : m.store.size < 0x10000) (h : m.CanFetch) :
    nextAddress m.pc = m.pc + 2 := by
  obtain ⟨hlow, hhigh⟩ := h
  unfold nextAddress
  omega

/-! ### The stack and the open calls -/

/-- The stack holds the addresses behind the open calls of these detours. -/
def Recalls (m : Machine κ) (detours : List Detour) : Prop :=
  m.stack.reverse = (Detour.openCalls detours).map (· + 2)

theorem Turns.recalls {after : Machine κ} {detour : Option Detour} (h : m.Turns after detour)
    (hsize : m.store.size < 0x10000) {detours : List Detour} (hm : m.Recalls detours) :
    after.Recalls (detours ++ detour.toList) := by
  unfold Recalls at hm ⊢
  cases h with
  | out fetch stack =>
    rw [stack, List.reverse_cons, hm, nextAddress_of_canFetch hsize fetch, Option.toList_some,
      Detour.openCalls_append_out, List.map_append]
    rfl
  | back _ _ stack =>
    rw [stack, List.reverse_cons] at hm
    rw [Option.toList_some, Detour.openCalls_append_back, List.map_dropLast, ← hm,
      List.dropLast_concat]
  | straight stack => rw [stack, hm, Option.toList_none, List.append_nil]

/-- **The stack holds the addresses behind the open calls**, whatever happens to the machine. -/
theorem Recalls.course {detours : List Detour} (h : m.Recalls detours)
    (hsize : m.store.size < 0x10000) (uses : List (Use κ τ)) :
    (m.course uses).Recalls (detours ++ m.detours uses) := by
  induction uses generalizing m detours with
  | nil => simpa [Machine.course, Machine.detours] using h
  | cons use uses ih =>
    have hnext := (m.undergo_turns use).recalls hsize h
    have hrest := ih hnext ((m.size_undergo use).symm ▸ hsize)
    rw [List.append_assoc] at hrest
    exact hrest

/-- As long as the depth of the stack is not what it was before a call, the stack ends in what it
was after the call. -/
theorem suffix_course {address : Int} {below : List Int} (h : address :: below <:+ m.stack)
    (uses : List (Use κ τ))
    (hdeep : ∀ part, part <+: uses → (m.course part).stack.length ≠ below.length) :
    address :: below <:+ (m.course uses).stack := by
  induction uses generalizing m with
  | nil => exact h
  | cons use uses ih =>
    have hnext : (m.undergo use).stack.length ≠ below.length :=
      hdeep [use] ⟨uses, rfl⟩
    refine ih ?_ fun part hpart => hdeep (use :: part) (List.prefix_cons_inj use |>.2 hpart)
    have hturns := m.undergo_turns use
    generalize m.detourOf? use = detour at hturns
    cases hturns with
    | out _ stack => exact stack ▸ h.trans (List.suffix_cons _ _)
    | back _ _ stack =>
      rw [stack, List.suffix_cons_iff] at h
      rcases h with heq | hsuffix
      · obtain ⟨-, rfl⟩ := List.cons.inj heq
        exact absurd rfl hnext
      · exact hsuffix
    | straight stack => exact stack ▸ h

/-- A use that takes the depth of the stack below that of a suffix returns to its head. -/
theorem Turns.returns {after : Machine κ} {detour : Option Detour} (h : m.Turns after detour)
    {address : Int} {below : List Int} (hsuffix : address :: below <:+ m.stack)
    (hdepth : after.stack.length = below.length) : after.pc = address ∧ after.stack = below := by
  have hle := hsuffix.length_le
  cases h with
  | out _ stack =>
    rw [stack, List.length_cons] at hdepth
    rw [List.length_cons] at hle
    omega
  | back _ _ stack =>
    rw [stack] at hsuffix
    have heq := hsuffix.eq_of_length (by simp [hdepth])
    obtain ⟨hpc, hstack⟩ := List.cons.inj heq
    exact ⟨hpc.symm, hstack.symm⟩
  | straight stack =>
    rw [stack] at hdepth
    rw [List.length_cons] at hle
    omega

theorem detour?_eq_back_iff (a : Attendant τ) :
    m.detour? a = some .back ↔ m.CanFetch ∧ m.nextWord = 0x00EE ∧ m.stack ≠ [] := by
  constructor
  · intro hback
    have hturns := m.step_turns a
    rw [hback] at hturns
    cases hturns with
    | back fetch word stack => exact ⟨fetch, word, stack ▸ List.cons_ne_nil _ _⟩
  · rintro ⟨hfetch, hword, hstack⟩
    have hop := nextInstruction_op_eq_leave_iff.2 hword
    obtain ⟨address, rest, hcons⟩ := List.exists_cons_of_ne_nil hstack
    have hexecute : m.fetched.execute m.nextInstruction .leave =
        .ok { m.fetched with pc := address, stack := rest } := by
      have hfetched : m.fetched.stack = address :: rest := hcons
      simp only [execute, leave, hfetched]
    simp only [detour?, step_of_execute_ok a hfetch hop (by decide) hexecute, hop]

theorem step_call (a : Attendant τ) (hfetch : m.CanFetch)
    (hop : m.nextInstruction.op = some .call) :
    m.detour? a = some (.out m.pc) ∧
      (m.step a).1.pc = m.nextInstruction.nnn ∧ (m.step a).1.store = m.store ∧
      (m.step a).1.stack = nextAddress m.pc :: m.stack := by
  have hexecute : m.fetched.execute m.nextInstruction .call =
      .ok { m.fetched with
        pc := m.nextInstruction.nnn, stack := nextAddress m.pc :: m.stack } := rfl
  obtain ⟨journal, hnoted⟩ := noted_eq { m.fetched with
    pc := (m.nextInstruction.nnn : Int), stack := nextAddress m.pc :: m.stack }
    m.nextInstruction .call
  simp only [detour?, step_of_execute_ok a hfetch hop (by decide) hexecute, hop, hnoted]
  exact ⟨trivial, rfl, rfl, rfl⟩

/-- **Calls and returns nest.**  Take a machine that was just switched on or reset, and let
anything happen to it: steps, failed ones and cancelled key waits among them, events, changes of
its surroundings.  Then its stack holds the addresses behind the open calls, the earliest at its
bottom.  A return is completed exactly if there is an open call, and goes behind the latest.  And if
a call is completed, then the first step after which the stack is as deep as before the call goes
behind the call and leaves the stack as it was. -/
theorem Fresh.calls_nest (h : start.Fresh) (uses : List (Use κ τ)) (hm : m = start.course uses)
    (a : Attendant τ) :
    m.stack.reverse = (Detour.openCalls (start.detours uses)).map (· + 2) ∧
    (m.detour? a = some .back ↔
      m.CanFetch ∧ m.nextWord = 0x00EE ∧ Detour.openCalls (start.detours uses) ≠ []) ∧
    (m.detour? a = some .back →
      (Detour.openCalls (start.detours uses)).getLast?.map (· + 2) = some (m.step a).1.pc) ∧
    (m.detour? a = some (.out m.pc) → ∀ (later : List (Use κ τ)) (b : Attendant τ),
      (∀ part, part <+: later → ((m.step a).1.course part).stack.length ≠ m.stack.length) →
      (((m.step a).1.course later).step b).1.stack.length = m.stack.length →
      (((m.step a).1.course later).step b).1.pc = m.pc + 2 ∧
        (((m.step a).1.course later).step b).1.stack = m.stack) := by
  subst hm
  have hstart : start.Recalls [] := by simp [Recalls, h.stack, Detour.openCalls]
  have hrecalls : (start.course uses).Recalls (start.detours uses) := hstart.course h.size_lt uses
  have hsize : (start.course uses).store.size < 0x10000 := size_course start uses ▸ h.size_lt
  have hturns := (start.course uses).step_turns a
  refine ⟨hrecalls, ?_, ?_, ?_⟩
  · rw [detour?_eq_back_iff, ← List.reverse_ne_nil_iff, hrecalls, Ne, List.map_eq_nil_iff]
  · intro hback
    rw [hback] at hturns
    cases hturns with
    | back _ _ stack =>
      rw [← List.getLast?_map, ← hrecalls, stack, List.reverse_cons, List.getLast?_concat]
  · intro hout later b hdeep hdepth
    rw [hout] at hturns
    cases hturns with
    | out fetch stack =>
      -- from the call on the stack ends in what it was after the call
      have hcalled : nextAddress (start.course uses).pc :: (start.course uses).stack <:+
          ((start.course uses).step a).1.stack := by rw [stack]
      have hsuffix := suffix_course hcalled later hdeep
      have hreturns := (step_turns b _).returns hsuffix hdepth
      rwa [nextAddress_of_canFetch hsize fetch] at hreturns

/-- A call of a routine that returns at once. -/
theorem first_call_returns :
    ∃ m : Machine (VirtualClock Int),
      boot Store.standardSize #[0x22, 0x04, 0x00, 0x00, 0x00, 0xEE] (.cycling #[])
        { clock := ⟨0, 0, 0⟩ } = .ok m ∧
      ∀ a : Attendant Int, m.detour? a = some (.out m.pc) ∧
        ((m.step a).1.step a).1.pc = 0x202 ∧ ((m.step a).1.step a).1.stack = [] := by
  obtain ⟨m, hboot, hpc, hstack, -, hbytes⟩ :=
    exists_boot #[0x22, 0x04, 0x00, 0x00, 0x00, 0xEE] (by decide) (.cycling #[])
      ({ clock := ⟨0, 0, 0⟩ } : Surroundings (VirtualClock Int))
  refine ⟨m, hboot, fun a => ?_⟩
  have hsize : m.store.size = Store.standardSize := (sound_of_boot hboot).store
  have hword : m.nextWord = 0x2204 := by
    have hhigh : m.store.byteAt 0x200 = 0x22 := hbytes 0 (by decide)
    have hlow : m.store.byteAt 0x201 = 0x04 := hbytes 1 (by decide)
    simp [nextWord, hpc, Store.programStart, hhigh, hlow]
  have hfetch : m.CanFetch := by simp [CanFetch, hpc, hsize, Store.programStart, Store.standardSize]
  have hop : m.nextInstruction.op = some .call := by rw [nextInstruction, hword]; decide
  obtain ⟨hcall, hpc', hstore', hstack'⟩ := step_call a hfetch hop
  have hnnn : m.nextInstruction.nnn = 0x204 := by rw [nextInstruction, hword]; decide
  rw [hnnn] at hpc'
  have hword' : (m.step a).1.nextWord = 0x00EE := by
    have hhigh : m.store.byteAt 0x204 = 0x00 := hbytes 4 (by decide)
    have hlow : m.store.byteAt 0x205 = 0xEE := hbytes 5 (by decide)
    simp [nextWord, hpc', hstore', hhigh, hlow]
  have hreturn : (m.step a).1.detour? a = some .back := by
    refine (detour?_eq_back_iff a).2 ⟨?_, hword', by simp [hstack']⟩
    simp [CanFetch, hpc', hstore', hsize, Store.standardSize]
  have hfresh : m.Fresh := .boot hboot (by simp [hsize, Store.standardSize])
  have hdepth : ((m.step a).1.step a).1.stack.length = m.stack.length := by
    have hturns := step_turns a (m.step a).1
    rw [hreturn] at hturns
    cases hturns with
    | back _ _ stack =>
      rw [hstack'] at stack
      rw [(List.cons.inj stack).2]
  have hdeep : ∀ part : List (Use (VirtualClock Int) Int), part <+: [] →
      ((m.step a).1.course part).stack.length ≠ m.stack.length := by
    intro part hpart
    rw [List.prefix_nil.1 hpart]
    simp [course, hstack']
  have hnest := (hfresh.calls_nest (m := m) [] rfl a).2.2.2 hcall [] a hdeep hdepth
  rw [hpc, hstack] at hnest
  exact ⟨hcall, hnest⟩

end Machine

end Chip8

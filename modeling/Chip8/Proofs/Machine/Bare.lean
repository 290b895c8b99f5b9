import Chip8.Proofs.Machine.Veil

/-!
# What a program can notice

A program notices neither the time nor the journal, and whether its picture was shown is nothing
to it either.  `Machine.bare` is a machine without all that: it has a clock that shows nothing, an
empty journal, and a picture that is always due.  Whatever happens to a machine happens to its bare
form in the same way, without the events that concern only the clock or the journal; for a step
this is `Machine.bare_step`.

Two machines are the same to a program (`Machine.Same`) if their bare forms are equal.
-/

namespace Chip8

/-- A clock that shows nothing. -/
instance : Clock Unit Unit where
  time := id
  read := id
  pass _ := id

variable {κ κ' τ : Type}

/-- An event as a program may notice it. -/
def Event.bare? : Event τ → Option (Event Unit)
  | .press key => some (.press key)
  | .release key => some (.release key)
  | .tick => some .tick
  | .exit => some .exit
  | .stay => some .stay
  | .advance _ | .toggleDetails => none

/-- The events that a program may notice. -/
def Feed.bare (f : Feed τ) : Feed Unit where
  atPoll n := (f.atPoll n).filterMap Event.bare?
  atNap n := (f.atNap n).filterMap Event.bare?

/-- The attendant without times. -/
def Attendant.bare (a : Attendant τ) : Attendant Unit where
  feed := a.feed.bare
  polled := a.polled
  heeded := a.heeded
  interval := ()
  patience := a.patience

namespace Surroundings

/-- The surroundings without the time and the journal. -/
def bare (s : Surroundings κ) : Surroundings Unit where
  keyboard := s.keyboard
  timers := s.timers
  clock := ()
  exitRequested := s.exitRequested
  polls := s.polls
  checks := s.checks
  naps := s.naps

theorem bare_occur [Clock κ τ] (s : Surroundings κ) (e : Event τ) :
    (s.occur e).bare = e.bare?.elim s.bare s.bare.occur := by
  cases e <;> rfl

end Surroundings

namespace Machine

/-- The machine without the time, the journal and what became of its picture. -/
def bare (m : Machine κ) : Machine Unit where
  registers := m.registers
  index := m.index
  pc := m.pc
  stack := m.stack
  cycles := m.cycles
  store := m.store
  screen := { m.screen with dirty := true }
  random := m.random
  around := m.around.bare

theorem bare_drawSprite (m : Machine κ) (x y : Fin 16) (n : Nat) :
    m.bare.drawSprite x y n = (m.drawSprite x y n).map bare := by
  have hdraw := Screen.draw_due m.screen true (m.reg x) (m.reg y) n m.index m.store
  simp only [drawSprite, bare, reg] at hdraw ⊢
  rw [hdraw]
  cases h : m.screen.draw m.registers[x] m.registers[y] n m.index m.store with
  | error fault => rfl
  | ok drawn =>
    obtain ⟨⟨width, height, pixels, dirty⟩, off⟩ := drawn
    obtain rfl : dirty = true := Screen.due_of_draw h
    rfl

theorem bare_noted (m : Machine κ) (i : Instruction) (op : Op) : (m.noted i op).bare = m.bare := by
  obtain ⟨journal, hnoted⟩ := m.noted_eq i op
  rw [hnoted]
  rfl

end Machine

variable [Clock κ τ]

/-- The veil through which a program sees its machine. -/
def Veil.bare (κ τ : Type) : Veil κ Unit τ Unit where
  timers := id
  clock _ := ()
  duration _ := ()
  journal _ := {}
  screen s := { s with dirty := true }
  event := Event.bare?

/-- Behind the veil the journal is empty, and the empty journal wants no notes. -/
theorem Veil.thin_bare : (Veil.bare κ τ).Thin where
  occur := Surroundings.bare_occur
  pass _ _ := rfl
  clear _ := rfl
  draw := Machine.bare_drawSprite
  noted := Machine.bare_noted

theorem Surroundings.bare_poll (feed : Feed τ) (s : Surroundings κ) :
    (s.poll feed).bare = s.bare.poll feed.bare :=
  veiled_poll Veil.thin_bare feed s

namespace Machine

/-- **A step does the same to the bare machine**, and it fails in the same way. -/
theorem bare_step (a : Attendant τ) (m : Machine κ) :
    m.bare.step a.bare = Prod.map bare id (m.step a) :=
  veiled_step Veil.thin_bare a m (.inl rfl)

/-! ### The same to a program -/

/-- Two machines are the same to a program: at most their clocks differ, their journals, and
whether their pictures are due to be shown. -/
structure Same (m : Machine κ) (m' : Machine κ') : Prop where
  /-- The registers hold the same. -/
  registers : m.registers = m'.registers
  /-- The index registers hold the same. -/
  index : m.index = m'.index
  /-- The next instructions are at the same address. -/
  pc : m.pc = m'.pc
  /-- The same calls are open. -/
  stack : m.stack = m'.stack
  /-- As many instructions were completed. -/
  cycles : m.cycles = m'.cycles
  /-- The memories hold the same. -/
  store : m.store = m'.store
  /-- The screens have the same extents. -/
  extents : m.screen.width = m'.screen.width ∧ m.screen.height = m'.screen.height
  /-- The same pixels are lit. -/
  pixels : m.screen.pixels = m'.screen.pixels
  /-- The random bytes are the same, and as many were drawn. -/
  random : m.random = m'.random
  /-- The timers are the same. -/
  timers : m.around.timers = m'.around.timers
  /-- The same keys are held, the same key-downs wait, and as many instructions were begun. -/
  keyboard : m.around.keyboard = m'.around.keyboard
  /-- Both users want to leave, or none. -/
  exitRequested : m.around.exitRequested = m'.around.exitRequested
  /-- The input sources were polled as often. -/
  polls : m.around.polls = m'.around.polls
  /-- Key waits have asked as often whether to leave. -/
  checks : m.around.checks = m'.around.checks
  /-- Key waits have slept as often. -/
  naps : m.around.naps = m'.around.naps

omit [Clock κ τ] in
theorem same_iff_bare_eq {m : Machine κ} {m' : Machine κ'} : m.Same m' ↔ m.bare = m'.bare := by
  simp only [bare, Surroundings.bare, mk.injEq, Surroundings.mk.injEq, Screen.mk.injEq]
  constructor
  · rintro ⟨⟩
    simp_all
  · intro h
    constructor <;> simp_all

end Machine

end Chip8

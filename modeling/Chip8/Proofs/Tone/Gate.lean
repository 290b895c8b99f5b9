import Chip8.Proofs.Store
import Chip8.Proofs.Tone.Stream
import Chip8.Tone.Level

/-!
# The sound timer opens and shuts the tone

A tone is asked for samples again and again, as levels or as sixteen-bit values (`Tone.Request`).
However many samples a request asks for, the phases do not hear of the sound timer: they are those
of `Tone.phaseAt`, and the tone that a request leaves behind is the same whatever the timer reads
(`Tone.respond_eq`).  A sample takes one reading, its own.  It stands at the volume if that is not
nought and its phase is in the first half of a turn, and at minus the volume otherwise
(`Tone.Call.Gated`); what a sample is that stands at a value, `Tone.Stands` says.

So two timers make the same tone wherever both are running or both have run out
(`Tone.timer_gates_tone`).
-/

namespace Chip8

namespace Tone

/-! ### Requests -/

/-- A request for the next samples. -/
inductive Request where
  /-- So many levels. -/
  | samples (count : Int)
  /-- So many sixteen-bit values. -/
  | pcm16 (count : Int)
  /-- Sixteen-bit values for so many bytes. -/
  | block (bytes : Int)
  deriving DecidableEq, Repr

/-- A sample that was asked for. -/
inductive Sample where
  /-- A level in single precision. -/
  | level (value : Float32)
  /-- A sixteen-bit value. -/
  | word (value : Int)

namespace Request

/-- A high or a low sample in the answer to a request. -/
def sample (volume : Float) (request : Request) (high : Bool) : Sample :=
  match request with
  | samples _ => .level (Tone.level volume high)
  | pcm16 _ | block _ => .word (Tone.pcm16 volume high)

/-- The number of samples that a request asks for. -/
def count {τ : Type} (t : Tone τ) : Request → Int
  | samples count | pcm16 count => count
  | block bytes => t.blockLength bytes

end Request

/-! ### Samples that stand at a value -/

/-- What becomes of a single as a word of sixteen bits with a sign. -/
inductive IsWord (x : Float32) : Int → Prop where
  /-- It is cut towards zero. -/
  | cut {p : Binary64.Parts} (parts : Binary32.parts? x = some p)
      (low : -0x8000 ≤ Binary64.towardsZero p.value)
      (high : Binary64.towardsZero p.value < 0x8000) : IsWord x (Binary64.towardsZero p.value)
  /-- If that is too wide for a word its low sixteen bits are taken. -/
  | wrapped {p : Binary64.Parts} (parts : Binary32.parts? x = some p)
      (wide : Binary64.towardsZero p.value < -0x8000 ∨ 0x8000 ≤ Binary64.towardsZero p.value)
      (low : -0x80000000 ≤ Binary64.towardsZero p.value)
      (high : Binary64.towardsZero p.value < 0x80000000) :
      IsWord x ((Binary64.towardsZero p.value).bmod 0x10000)
  /-- A number beyond thirty-two bits, or none at all, gives nought. -/
  | beyond (out : ∀ p, Binary32.parts? x = some p →
      Binary64.towardsZero p.value < -0x80000000 ∨ 0x80000000 ≤ Binary64.towardsZero p.value) :
      IsWord x 0

/-- The sample that stands at a value, in the answer to a request. -/
inductive Stands (value : Float) : Request → Sample → Prop where
  /-- A level is the value in single precision. -/
  | samples {count : Int} : Stands value (.samples count) (.level (Binary32.nearest value))
  /-- A word is the value in single precision, scaled to sixteen bits and cut. -/
  | pcm16 {count word : Int} (cut : IsWord (Binary32.nearest value * 32767) word) :
      Stands value (.pcm16 count) (.word word)
  /-- So is a word that was asked for in bytes. -/
  | block {bytes word : Int} (cut : IsWord (Binary32.nearest value * 32767) word) :
      Stands value (.block bytes) (.word word)

theorem isWord_truncate (x : Float32) : IsWord x (lowSigned16 ((Binary32.truncate? x).getD 0)) := by
  rw [Binary32.truncate?]
  cases hparts : Binary32.parts? x with
  | none => exact .beyond (by simp [hparts])
  | some p =>
    rw [Option.map_some, Option.getD_some, Binary64.Parts.truncate_eq, lowSigned16]
    split
    next hfits =>
      by_cases hword : -0x8000 ≤ Binary64.towardsZero p.value ∧
          Binary64.towardsZero p.value < 0x8000
      · rw [Int.bmod_eq_of_le (by omega) (by omega)]
        exact .cut hparts hword.1 hword.2
      · exact .wrapped hparts (by omega) hfits.1 hfits.2
    next hout =>
      apply IsWord.beyond
      intro q hq
      obtain rfl : p = q := Option.some.inj (hparts.symm.trans hq)
      omega

/-- A high sample stands at the volume, and a low one at minus the volume. -/
theorem stands_sample (volume : Float) (high : Bool) (request : Request) :
    Stands (if high then volume else -volume) request (request.sample volume high) := by
  cases request with
  | samples => exact .samples
  | pcm16 => exact .pcm16 (isWord_truncate _)
  | block => exact .block (isWord_truncate _)

section Calls

variable {τ : Type} [Add τ] [Mul τ] [LE τ] [DecidableLE τ] [Turns τ]

/-- The answer to a request, if there is room for it. -/
def respond (t : Tone τ) (volume : Float) (reading : Nat → Nat) (request : Request) :
    Except Fault (List Sample) × Tone τ :=
  let (answer, t) := match request with
    | .samples count | .pcm16 count => t.samples? reading count
    | .block bytes => t.block? reading bytes
  (answer.map (List.map (request.sample volume)), t)

/-- A request that was made of a tone. -/
structure Call (τ : Type) where
  /-- The tone before it. -/
  before : Tone τ
  /-- The request. -/
  request : Request
  /-- The answer. -/
  answer : Except Fault (List Sample)
  /-- The tone after it. -/
  after : Tone τ

/-- Requests, one after the other. -/
def calls (t : Tone τ) (volume : Float) (reading : Nat → Nat) : List Request → List (Call τ)
  | [] => []
  | request :: requests =>
    let (answer, next) := t.respond volume reading request
    ⟨t, request, answer, next⟩ :: next.calls volume reading requests

/-! ### One request -/

/-- The sound timer lets sample `k` of the next ones be high, and so does its phase. -/
def opens (t : Tone τ) (reading : Nat → Nat) (k : Nat) : Bool :=
  reading (t.reads + k) ≠ 0 ∧ t.phaseAt k ≤ Turns.half

/-- The answer to a request that is not refused. -/
def played (t : Tone τ) (volume : Float) (reading : Nat → Nat) (request : Request) : List Sample :=
  (List.range (request.count t).toNat).map fun k => request.sample volume (t.opens reading k)

omit [LE τ] [DecidableLE τ] in
/-- The tone behind the next samples. -/
def advanced (t : Tone τ) (count : Int) : Tone τ :=
  { t with phase := t.phaseAt count, reads := t.reads + count.toNat }

theorem respond_eq (t : Tone τ) (volume : Float) (reading : Nat → Nat) (request : Request) :
    t.respond volume reading request =
      match t.refusal? (request.count t) with
      | some (fault, after) => (.error fault, after)
      | none => (.ok (t.played volume reading request), t.advanced (request.count t)) := by
  cases request <;>
  · simp only [respond, block?, samples?, Request.count, played]
    cases t.refusal? _ with
    | some refusal => rfl
    | none =>
      simp only [Except.map, samples, List.map_map]
      rfl

theorem respond_of_refused {t after : Tone τ} {request : Request} {fault : Fault}
    (h : t.refusal? (request.count t) = some (fault, after)) (volume : Float)
    (reading : Nat → Nat) : t.respond volume reading request = (.error fault, after) := by
  rw [respond_eq, h]

/-- **Of the sound timer only the samples know**, and the tone that they leave does not. -/
theorem respond_of_room {t : Tone τ} {request : Request}
    (h : t.refusal? (request.count t) = none) (volume : Float) (reading : Nat → Nat) :
    t.respond volume reading request =
      (.ok (t.played volume reading request), t.advanced (request.count t)) := by
  rw [respond_eq, h]

theorem length_played (t : Tone τ) (volume : Float) (reading : Nat → Nat) (request : Request) :
    (t.played volume reading request).length = (request.count t).toNat := by
  simp [played]

theorem getElem?_played {t : Tone τ} {volume : Float} {reading : Nat → Nat} {request : Request}
    {k : Nat} (hk : k < (t.played volume reading request).length) :
    (t.played volume reading request)[k]? = some (request.sample volume (t.opens reading k)) := by
  rw [length_played] at hk
  simp only [played, List.getElem?_map, List.getElem?_range hk, Option.map_some]

omit [LE τ] [DecidableLE τ] in
theorem reads_of_refusal {t after : Tone τ} {count : Int} {fault : Fault}
    (h : t.refusal? count = some (fault, after)) : after.reads = t.reads := by
  unfold refusal? at h
  split at h
  · obtain ⟨-, rfl⟩ := Prod.mk.inj (Option.some.inj h)
    rfl
  · obtain ⟨-, rfl⟩ := Prod.mk.inj (Option.some.inj h)
    rfl
  · cases h

namespace Call

/-- The sound timer opens and shuts the tone of a call, sample by sample. -/
structure Gated (volume : Float) (reading : Nat → Nat) (c : Call τ) : Prop where
  /-- A call is answered if there is room for the phases of its samples. -/
  answered : 0 ≤ c.request.count c.before → 8 * c.request.count c.before ≤ Extent.byteLimit →
    ∃ samples, c.answer = .ok samples
  /-- A call that is refused takes no reading. -/
  refused : ∀ fault, c.answer = .error fault → c.after.reads = c.before.reads
  /-- There are as many samples as were asked for. -/
  length : ∀ samples, c.answer = .ok samples →
    samples.length = (c.request.count c.before).toNat
  /-- Each sample takes one reading. -/
  reads : ∀ samples, c.answer = .ok samples → c.after.reads = c.before.reads + samples.length
  /-- A sample stands at the volume if its reading is not nought and its phase is in the first half
  of a turn. -/
  high : ∀ samples k, c.answer = .ok samples → k < samples.length →
    reading (c.before.reads + k) ≠ 0 → c.before.phaseAt k ≤ Turns.half →
    ∃ sample, samples[k]? = some sample ∧ Stands volume c.request sample
  /-- It stands at minus the volume otherwise. -/
  low : ∀ samples k, c.answer = .ok samples → k < samples.length →
    ¬ (reading (c.before.reads + k) ≠ 0 ∧ c.before.phaseAt k ≤ Turns.half) →
    ∃ sample, samples[k]? = some sample ∧ Stands (-volume) c.request sample

/-- Two sound timers make the same of a call, but for samples at which one of them is running and
the other one is not. -/
structure Alike (reading reading' : Nat → Nat) (c c' : Call τ) : Prop where
  /-- The tones are the same before the call, so all phases are. -/
  before : c'.before = c.before
  /-- They are the same after it. -/
  after : c'.after = c.after
  /-- So is the request. -/
  request : c'.request = c.request
  /-- It is refused for the same reason, or there are as many samples. -/
  length : c'.answer.map List.length = c.answer.map List.length
  /-- The samples are the same where both timers are running or both are not. -/
  samples : ∀ samples samples' k, c.answer = .ok samples → c'.answer = .ok samples' →
    (reading (c.before.reads + k) = 0 ↔ reading' (c.before.reads + k) = 0) →
    samples'[k]? = samples[k]?

/-- A request, with its answer. -/
def of (t : Tone τ) (volume : Float) (reading : Nat → Nat) (request : Request) : Call τ :=
  ⟨t, request, (t.respond volume reading request).1, (t.respond volume reading request).2⟩

theorem answer_of_room {t : Tone τ} {request : Request}
    (h : t.refusal? (request.count t) = none) (volume : Float) {reading : Nat → Nat}
    {highs : List Bool}
    (hopens : (List.range (request.count t).toNat).map (t.opens reading) = highs) :
    (of t volume reading request).answer = .ok (highs.map (request.sample volume)) := by
  rw [of, respond_of_room h, ← hopens, List.map_map]
  rfl

theorem gated_of (t : Tone τ) (volume : Float) (reading : Nat → Nat) (request : Request) :
    (of t volume reading request).Gated volume reading := by
  cases hrefusal : t.refusal? (request.count t) with
  | some refusal =>
    obtain ⟨fault, after⟩ := refusal
    rw [of, respond_of_refused hrefusal]
    refine ⟨?_, fun _ _ => reads_of_refusal hrefusal, nofun, nofun, nofun, nofun⟩
    intro hlow hroom
    rw [t.refusal?_eq_none hlow hroom] at hrefusal
    cases hrefusal
  | none =>
    rw [of, respond_of_room hrefusal]
    refine ⟨fun _ _ => ⟨_, rfl⟩, nofun, ?_, ?_, ?_, ?_⟩
    · rintro samples ⟨⟩
      exact length_played t volume reading request
    · rintro samples ⟨⟩
      rw [length_played]
      rfl
    · rintro samples k ⟨⟩ hk hreading hphase
      have hopen : t.opens reading k = true := decide_eq_true ⟨hreading, hphase⟩
      rw [getElem?_played hk, hopen]
      exact ⟨_, rfl, stands_sample volume true request⟩
    · rintro samples k ⟨⟩ hk hshut
      have hclosed : t.opens reading k = false := decide_eq_false hshut
      rw [getElem?_played hk, hclosed]
      exact ⟨_, rfl, stands_sample volume false request⟩

theorem alike_of (t : Tone τ) (volume : Float) (reading reading' : Nat → Nat)
    (request : Request) :
    Alike reading reading' (of t volume reading request) (of t volume reading' request) := by
  cases hrefusal : t.refusal? (request.count t) with
  | some refusal =>
    obtain ⟨fault, after⟩ := refusal
    rw [of, of, respond_of_refused hrefusal, respond_of_refused hrefusal]
    exact ⟨rfl, rfl, rfl, rfl, nofun⟩
  | none =>
    rw [of, of, respond_of_room hrefusal, respond_of_room hrefusal]
    refine ⟨rfl, rfl, rfl, by simp only [Except.map, length_played], ?_⟩
    rintro samples samples' k ⟨⟩ ⟨⟩ hsame
    have hopens : t.opens reading' k = t.opens reading k := by
      simp only [opens, ne_eq, ← hsame]
    by_cases hk : k < (request.count t).toNat
    · rw [getElem?_played (by rwa [length_played]), getElem?_played (by rwa [length_played]),
        hopens]
    · rw [List.getElem?_eq_none (by rw [length_played]; omega),
        List.getElem?_eq_none (by rw [length_played]; omega)]

end Call

/-! ### Requests one after the other -/

theorem calls_cons (t : Tone τ) (volume : Float) (reading : Nat → Nat) (request : Request)
    (requests : List Request) :
    t.calls volume reading (request :: requests) =
      Call.of t volume reading request ::
        (Call.of t volume reading request).after.calls volume reading requests :=
  rfl

theorem gated_calls {t : Tone τ} {volume : Float} {reading : Nat → Nat} {requests : List Request}
    {c : Call τ} (hc : c ∈ t.calls volume reading requests) : c.Gated volume reading := by
  induction requests generalizing t with
  | nil => cases hc
  | cons request requests ih =>
    rw [calls_cons] at hc
    rcases List.mem_cons.1 hc with rfl | hc
    · exact Call.gated_of t volume reading request
    · exact ih hc

theorem alike_calls (t : Tone τ) (volume : Float) (reading reading' : Nat → Nat)
    (requests : List Request) :
    List.Forall₂ (Call.Alike reading reading') (t.calls volume reading requests)
      (t.calls volume reading' requests) := by
  induction requests generalizing t with
  | nil => exact .nil
  | cons request requests ih =>
    have halike := Call.alike_of t volume reading reading' request
    rw [calls_cons, calls_cons, halike.after]
    exact .cons halike (ih _)

/-- **The sound timer gates the tone sample by sample, and its phase never notices.**  Let any
requests be made of a tone, one after the other.  A request that is refused takes no reading of the
sound timer, and one that is answered takes as many as it has samples, in order.  A sample stands at
the volume if its own reading is not nought and its phase is in the first half of a turn, and at
minus the volume otherwise.

Let the same requests be made under another sound timer.  Then the tones before and after every
request are the same, and so are all phases, the lengths of the answers and the numbers of readings;
and a sample is the same if both timers read nought there or neither does. -/
theorem timer_gates_tone (t : Tone τ) (volume : Float) (reading reading' : Nat → Nat)
    (requests : List Request) :
    (∀ c ∈ t.calls volume reading requests, c.Gated volume reading) ∧
    List.Forall₂ (Call.Alike reading reading') (t.calls volume reading requests)
      (t.calls volume reading' requests) :=
  ⟨fun _ hc => gated_calls hc, alike_calls t volume reading reading' requests⟩

end Calls

/-- A tone whose turn is three samples long. -/
def thirds : Tone ℚ := { step := 1 / 3, phase := 0, samplesPerTick := 4 }

/-- Two sound timers differ at the first reading, and both have run out at the fifth.  The first
request is for levels.  The second one is for words, begins a turn, and is answered alike. -/
theorem second_answer_alike :
    let reading := fun n => if n = 4 then 0 else 7
    let reading' := fun n => if n = 0 ∨ n = 4 then 0 else 9
    let requests : List Request := [.samples 3, .block 7]
    let volume := Float32.ofBits 0x3DF5C28F
    let minusVolume := Float32.ofBits 0xBDF5C28F
    ∃ first c c', thirds.calls 0.12 reading requests = [first, c] ∧
      c' ∈ thirds.calls 0.12 reading' requests ∧
      first.answer = .ok [.level volume, .level volume, .level minusVolume] ∧
      c.answer = .ok [.word 3932, .word (-3932), .word (-3932)] ∧ c.after.reads = 6 ∧
      c'.after = c.after ∧ ∃ samples, c'.answer = .ok samples ∧ samples.length = 3 ∧
        samples[0]? = some (.word 3932) ∧ samples[1]? = some (.word (-3932)) := by
  intro reading reading' requests volume minusVolume
  have hroom (count : Int) (h : 0 ≤ count ∧ 8 * count ≤ Extent.byteLimit) (t : Tone ℚ) :
      t.refusal? count = none := t.refusal?_eq_none h.1 h.2
  have hcalls (reading : Nat → Nat) : thirds.calls 0.12 reading requests =
      [.of thirds 0.12 reading (.samples 3), .of (thirds.advanced 3) 0.12 reading (.block 7)] := by
    rw [calls_cons, calls_cons, Call.of, respond_of_room (hroom 3 (by decide) thirds)]
    rfl
  have hfirst : (Call.of thirds 0.12 reading (.samples 3)).answer =
      .ok [.level volume, .level volume, .level minusVolume] := by
    have hopens : (List.range 3).map (thirds.opens reading) = [true, true, false] := by
      decide +kernel
    have hhigh : level 0.12 true = volume := by decide +kernel
    have hlow : level 0.12 false = minusVolume := by decide +kernel
    rw [Call.answer_of_room (hroom 3 (by decide) thirds) 0.12 hopens, ← hhigh, ← hlow]
    rfl
  have hanswer : (Call.of (thirds.advanced 3) 0.12 reading (.block 7)).answer =
      .ok [.word 3932, .word (-3932), .word (-3932)] := by
    have hopens :
        (List.range 3).map ((thirds.advanced 3).opens reading) = [true, false, false] := by
      decide +kernel
    have hhigh : pcm16 0.12 true = 3932 := by decide +kernel
    have hlow : pcm16 0.12 false = -3932 := by decide +kernel
    rw [Call.answer_of_room (hroom 3 (by decide) (thirds.advanced 3)) 0.12 hopens, ← hlow, ← hhigh]
    rfl
  obtain ⟨hgated, halike⟩ := timer_gates_tone thirds 0.12 reading reading' requests
  rw [hcalls] at hgated
  rw [hcalls, hcalls] at halike
  obtain _ | ⟨-, _ | ⟨hsecond, -⟩⟩ := halike
  have hreads := (hgated _ (by simp)).reads _ hanswer
  have hlength := hsecond.length
  rw [hanswer] at hlength
  obtain ⟨samples, hsamples, hthree⟩ := map_eq_ok hlength
  refine ⟨_, _, _, hcalls reading, by rw [hcalls]; simp, hfirst, hanswer, hreads, hsecond.after,
    samples, hsamples, hthree, ?_, ?_⟩
  · exact hsecond.samples _ samples 0 hanswer hsamples (by decide)
  · exact hsecond.samples _ samples 1 hanswer hsamples (by decide)

end Tone

end Chip8

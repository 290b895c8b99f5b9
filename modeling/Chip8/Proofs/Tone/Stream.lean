import Chip8.Buzzer
import Chip8.Proofs.Decimal.Whole

/-!
# Streams without seams

The player asks for the tone in pieces of its own choosing.  With exact phases the pieces fit: so
many samples and then so many more are the samples of one request for all of them
(`Tone.samples_add`), since a phase that is brought back into its turn goes on as if it had not
been (`Tone.phaseAt_samples`).

A run of requests (`Buzzer.packets`) is therefore one stretch of the tone, cut up
(`Buzzer.Regular.samples_packets`).  While there is room for a tick's worth of phases, no request is
refused (`Buzzer.Regular.answers_eq`).  `Buzzer.stream_seamless` puts this together.

The times need not be exact.  A packet's timestamp adds up the durations of those before it
(`Buzzer.timestamp_packets`), which is the number of samples before it divided by the sample rate
if the sum is exact (`Buzzer.timeAfter_exact`).  A sum of doubles is rounded at every packet and
may be off (`Buzzer.timestamps_drift`).
-/

namespace Chip8

/-- Exact turns. -/
instance : Turns ℚ where
  wrap := Int.fract
  half := 1 / 2
  ofInt n := n

/-- Exact times. -/
instance : Seconds ℚ := ⟨fun n d => n / d⟩

namespace Tone

/-! ### Samples, continued -/

section Generic

variable {τ : Type} [Add τ] [Mul τ] [LE τ] [DecidableLE τ] [Turns τ] (t : Tone τ)

theorem samples_fst (reading : Nat → Nat) (n : Nat) :
    (t.samples reading n).1 = (List.range n).map fun k =>
      decide (reading (t.reads + k) ≠ 0 ∧ t.phaseAt k ≤ Turns.half) :=
  rfl

theorem samples_snd (reading : Nat → Nat) (n : Nat) :
    (t.samples reading n).2 = { t with phase := t.phaseAt n, reads := t.reads + n } :=
  rfl

@[simp] theorem length_samples (reading : Nat → Nat) (count : Int) :
    (t.samples reading count).1.length = count.toNat := by
  simp [samples]

end Generic

section Exact

variable (t : Tone ℚ) (reading : Nat → Nat)

theorem phaseAt_eq (k : Int) : t.phaseAt k = Int.fract (t.phase + t.step * k) := rfl

/-- The phases of a tone that has made some samples are those that it would have come to. -/
theorem phaseAt_samples (n k : Int) :
    (t.samples reading n).2.phaseAt k = t.phaseAt (n + k) := by
  change Int.fract (Int.fract (t.phase + t.step * n) + t.step * k) =
    Int.fract (t.phase + t.step * (n + k : Int))
  rw [Int.fract_eq_fract]
  refine ⟨-⌊t.phase + t.step * n⌋, ?_⟩
  rw [Int.fract]
  push_cast
  ring

theorem phaseAt_zero (hlow : 0 ≤ t.phase) (hhigh : t.phase < 1) : t.phaseAt 0 = t.phase := by
  rw [phaseAt_eq, Int.cast_zero, mul_zero, add_zero]
  exact Int.fract_eq_self.2 ⟨hlow, hhigh⟩

theorem samples_zero (hlow : 0 ≤ t.phase) (hhigh : t.phase < 1) :
    t.samples reading 0 = ([], t) := by
  simp [samples, t.phaseAt_zero hlow hhigh]

theorem samples_add (n m : Nat) :
    t.samples reading (n + m : Nat) =
      ((t.samples reading n).1 ++ ((t.samples reading n).2.samples reading m).1,
        ((t.samples reading n).2.samples reading m).2) := by
  refine Prod.ext ?_ ?_
  · rw [samples_fst, samples_fst, samples_fst, List.range_add, List.map_append, List.map_map]
    congr 1
    refine List.map_congr_left fun k _ => ?_
    rw [Function.comp_apply, phaseAt_samples, samples_snd, Nat.cast_add, Nat.add_assoc]
  · rw [samples_snd, samples_snd, phaseAt_samples, samples_snd, Nat.cast_add, Nat.add_assoc]

end Exact

/-! ### Lengths and room -/

theorem blockLength_bounds {τ : Type} (t : Tone τ) (h : 1 ≤ t.samplesPerTick) (bytes : Int) :
    1 ≤ t.blockLength bytes ∧ t.blockLength bytes ≤ t.samplesPerTick ∧
      (2 ≤ bytes → 2 * t.blockLength bytes ≤ bytes) := by
  rw [blockLength]
  omega

theorem refusal?_eq_none {τ : Type} [Add τ] [Mul τ] [Turns τ] (t : Tone τ) {count : Int}
    (hlow : 0 ≤ count) (hroom : 8 * count ≤ Extent.byteLimit) : t.refusal? count = none := by
  have hphases : roomForPhases count = .ok () := by
    have hlimit : Extent.byteLimit < Extent.wordLimit := by decide
    have hwhole : count.natAbs < 2 ^ 53 := by
      rw [Extent.byteLimit] at hroom
      omega
    rw [roomForPhases, Binary64.truncate?_ofInt hwhole]
    simp only
    rw [if_neg (by omega), if_neg (by omega), max_eq_left hlow]
    exact Extent.claim_eq_ok (by omega) hroom
  have hcount : Extent.count? count = .ok count.toNat :=
    Extent.count?_eq_ok hlow (by omega)
  rw [refusal?, hphases, hcount]

end Tone

namespace Buzzer

/-! ### Runs of requests -/

section Runs

variable {φ τ : Type} [Add φ] [Mul φ] [LE φ] [DecidableLE φ] [Turns φ] [Add τ] [Seconds τ]

/-- The packets that answer requests for so many bytes each. -/
def packets (b : Buzzer φ τ) (reading : Nat → Nat) : List Int → List (Packet τ) × Buzzer φ τ
  | [] => ([], b)
  | bytes :: requests =>
    let (packet, next) := b.packet reading bytes
    let (later, last) := next.packets reading requests
    (packet :: later, last)

/-- The answers to requests for so many bytes each, some of which may be refused. -/
def answers (b : Buzzer φ τ) (reading : Nat → Nat) :
    List Int → List (Except Fault (Packet τ)) × Buzzer φ τ
  | [] => ([], b)
  | bytes :: requests =>
    let (answer, next) := b.packet? reading bytes
    let (later, last) := next.answers reading requests
    (answer :: later, last)

end Runs

/-- A buzzer as it is made, with an exact step of the phase. -/
def ofStep {τ : Type} [OfNat τ 0] (step : ℚ) (sampleRate : Int) : Buzzer ℚ τ where
  tone := { step, phase := 0, samplesPerTick := sampleRate / Tone.ticksPerSecond }
  sampleRate := sampleRate
  timestamp := 0

/-- A buzzer with a sample for each tick at least, whose phase is within a turn. -/
structure Regular {τ : Type} (b : Buzzer ℚ τ) : Prop where
  /-- There are enough samples in a second. -/
  rate : 60 ≤ b.sampleRate
  /-- A packet is a tick long at most. -/
  cap : b.tone.samplesPerTick = b.sampleRate / Tone.ticksPerSecond
  /-- The phase is not negative. -/
  phase_nonneg : 0 ≤ b.tone.phase
  /-- The phase is less than a turn. -/
  phase_lt_one : b.tone.phase < 1

variable {τ : Type} {b : Buzzer ℚ τ} (reading : Nat → Nat)

theorem regular_ofStep [OfNat τ 0] (step : ℚ) {sampleRate : Int} (h : 60 ≤ sampleRate) :
    (ofStep step sampleRate : Buzzer ℚ τ).Regular :=
  ⟨h, rfl, le_rfl, one_pos⟩

theorem Regular.one_le_samplesPerTick (h : b.Regular) : 1 ≤ b.tone.samplesPerTick := by
  have := h.rate
  rw [h.cap, Tone.ticksPerSecond]
  omega

variable [Add τ] [Seconds τ]

theorem Regular.packet (h : b.Regular) (bytes : Int) : (b.packet reading bytes).2.Regular :=
  ⟨h.rate, h.cap, Int.fract_nonneg _, Int.fract_lt_one _⟩

theorem Regular.length_packet (h : b.Regular) (bytes : Int) :
    ((b.packet reading bytes).1.samples.length : Int) = b.tone.blockLength bytes := by
  have := (b.tone.blockLength_bounds h.one_le_samplesPerTick bytes).1
  change ((b.tone.samples reading (b.tone.blockLength bytes)).1.length : Int) = _
  rw [Tone.length_samples]
  omega

theorem Regular.samples_packet (h : b.Regular) (bytes : Int) :
    b.tone.samples reading (b.packet reading bytes).1.samples.length =
      ((b.packet reading bytes).1.samples, (b.packet reading bytes).2.tone) := by
  rw [h.length_packet]
  rfl

/-- A run of requests cuts up one stretch of the tone. -/
theorem Regular.samples_packets (h : b.Regular) (requests : List Int) :
    b.tone.samples reading ((b.packets reading requests).1.flatMap Packet.samples).length =
      ((b.packets reading requests).1.flatMap Packet.samples,
        (b.packets reading requests).2.tone) := by
  induction requests generalizing b with
  | nil => exact b.tone.samples_zero reading h.phase_nonneg h.phase_lt_one
  | cons bytes requests ih =>
    have hlater := ih (h.packet reading bytes)
    rw [packets, List.flatMap_cons, List.length_append, Tone.samples_add,
      h.samples_packet reading bytes, hlater]

theorem Regular.length_packets (h : b.Regular) (requests : List Int) :
    List.Forall₂
      (fun bytes packet => 1 ≤ packet.samples.length ∧
        (packet.samples.length : Int) ≤ b.sampleRate / 60 ∧
        (2 ≤ bytes → 2 * (packet.samples.length : Int) ≤ bytes))
      requests (b.packets reading requests).1 := by
  induction requests generalizing b with
  | nil => exact .nil
  | cons bytes requests ih =>
    refine .cons ?_ (ih (h.packet reading bytes))
    have hbounds := b.tone.blockLength_bounds h.one_le_samplesPerTick bytes
    have hlength := h.length_packet reading bytes
    rw [← hlength, h.cap, Tone.ticksPerSecond] at hbounds
    exact ⟨Int.ofNat_le.1 hbounds.1, hbounds.2⟩

/-- The time after packets of these lengths: their durations are added to the time one by one. -/
def timeAfter (sampleRate : Int) (time : τ) (lengths : List Nat) : τ :=
  lengths.foldl (fun time length => time + Seconds.ratio length sampleRate) time

/-- A timestamp adds up the durations of the packets before it. -/
theorem timestamp_packets (b : Buzzer ℚ τ) (requests : List Int) (m : Nat)
    (hm : m < (b.packets reading requests).1.length) :
    (b.packets reading requests).1[m].timestamp =
      timeAfter b.sampleRate b.timestamp
        (((b.packets reading requests).1.take m).map (·.samples.length)) := by
  induction requests generalizing b m with
  | nil => simp [packets] at hm
  | cons bytes requests ih =>
    cases m with
    | zero => rfl
    | succ m => exact ih (b.packet reading bytes).2 m (by simpa [packets] using hm)

theorem duration_packets (b : Buzzer ℚ τ) (requests : List Int) :
    ∀ packet ∈ (b.packets reading requests).1,
      packet.duration = Seconds.ratio packet.samples.length b.sampleRate := by
  induction requests generalizing b with
  | nil => simp [packets]
  | cons bytes requests ih =>
    intro packet hpacket
    rcases List.mem_cons.1 hpacket with rfl | hlater
    · rfl
    · exact ih (b.packet reading bytes).2 packet hlater

omit [Add τ] [Seconds τ] in
/-- Exact times count samples. -/
theorem timeAfter_exact (sampleRate : Int) (time : ℚ) (lengths : List Nat) :
    timeAfter sampleRate time lengths = time + lengths.sum / sampleRate := by
  induction lengths generalizing time with
  | nil => simp [timeAfter]
  | cons length lengths ih =>
    have hlater := ih (time + length / sampleRate)
    rw [List.sum_cons, Nat.cast_add, add_div, ← add_assoc]
    exact hlater

theorem Regular.answers_eq (h : b.Regular)
    (hroom : 8 * (b.sampleRate / 60) ≤ Extent.byteLimit) (requests : List Int) :
    b.answers reading requests =
      ((b.packets reading requests).1.map .ok, (b.packets reading requests).2) := by
  induction requests generalizing b with
  | nil => rfl
  | cons bytes requests ih =>
    have hbounds := b.tone.blockLength_bounds h.one_le_samplesPerTick bytes
    rw [h.cap, Tone.ticksPerSecond] at hbounds
    have hnone : b.tone.refusal? (b.tone.blockLength bytes) = none :=
      b.tone.refusal?_eq_none (by omega) (le_trans (by omega) hroom)
    have hanswer : b.packet? reading bytes =
        (.ok (b.packet reading bytes).1, (b.packet reading bytes).2) := by
      rw [packet?, hnone]
    rw [answers, packets, hanswer]
    simp only [ih (h.packet reading bytes) hroom, List.map_cons]

/-- **The stream does not depend on how the player asks for it.**  Each answer to a run of requests
has between one sample and a tick's worth, and no more than was asked for.  Put together, the
answers are the samples that the tone makes in one go, and they leave it where that leaves it, with
as many readings taken.  A packet lasts as long as its samples, and its timestamp is the sum of the
durations before it; if that sum is exact, it is the time of the samples before.  While there is
room for a tick's worth of phases, no request is refused.  Two counts of samples, one after the
other, are one count of them all. -/
theorem stream_seamless [OfNat τ 0] (h : b.Regular) (hstart : b.timestamp = 0)
    (reading : Nat → Nat) (requests : List Int) :
    let packets := (b.packets reading requests).1
    let last := (b.packets reading requests).2
    let stream := packets.flatMap Packet.samples
    List.Forall₂
      (fun bytes packet => 1 ≤ packet.samples.length ∧
        (packet.samples.length : Int) ≤ b.sampleRate / 60 ∧
        (2 ≤ bytes → 2 * (packet.samples.length : Int) ≤ bytes))
      requests packets ∧
    b.tone.samples reading stream.length = (stream, last.tone) ∧
    (∀ volume, (packets.flatMap fun packet => packet.samples.map (Tone.pcm16 volume)) =
      (b.tone.samples reading stream.length).1.map (Tone.pcm16 volume)) ∧
    (∀ m (hm : m < packets.length),
      let lengths := (packets.take m).map (·.samples.length)
      packets[m].duration = Seconds.ratio packets[m].samples.length b.sampleRate ∧
      packets[m].timestamp = timeAfter b.sampleRate 0 lengths ∧
      timeAfter b.sampleRate (0 : ℚ) lengths =
        ((packets.take m).flatMap Packet.samples).length / b.sampleRate) ∧
    (8 * (b.sampleRate / 60) ≤ Extent.byteLimit →
      b.answers reading requests = (packets.map .ok, last)) ∧
    ∀ (t : Tone ℚ) (n m : Nat), t.samples reading (n + m : Nat) =
      ((t.samples reading n).1 ++ ((t.samples reading n).2.samples reading m).1,
        ((t.samples reading n).2.samples reading m).2) := by
  intro packets last stream
  have hstream : b.tone.samples reading stream.length = (stream, last.tone) :=
    h.samples_packets reading requests
  refine ⟨h.length_packets reading requests, hstream, ?_, ?_, ?_, ?_⟩
  · intro volume
    rw [hstream, List.map_flatMap]
  · intro m hm lengths
    refine ⟨duration_packets reading b requests _ (List.getElem_mem hm), ?_, ?_⟩
    · rw [timestamp_packets reading b requests m hm, hstart]
    · rw [timeAfter_exact, zero_add, List.length_flatMap]
  · intro hroom
    exact h.answers_eq reading hroom requests
  · intro t n m
    exact t.samples_add reading n m

/-- Three samples make a turn, and the sound timer reads nought at the fifth: the answers to four
requests go through turn and reading as one stretch does. -/
theorem thirds_continue :
    let b : Buzzer ℚ := ofStep (1 / 3) 240
    let reading := fun n => if n = 4 then 0 else 7
    let packets := (b.packets reading [100, 5, 0, -3]).1
    b.Regular ∧ b.timestamp = 0 ∧
    packets.map Packet.samples = [[true, true, false, true], [false, false], [true], [true]] ∧
    packets.map Packet.timestamp = [0, 4 / 240, 6 / 240, 7 / 240] ∧
    b.tone.samples reading 8 =
      (packets.flatMap Packet.samples, (b.packets reading [100, 5, 0, -3]).2.tone) := by
  intro b reading packets
  have hregular : b.Regular := regular_ofStep (1 / 3) (by decide)
  obtain ⟨-, hstream, -, -, -, -⟩ := stream_seamless hregular rfl reading [100, 5, 0, -3]
  exact ⟨hregular, rfl, by decide +kernel, by decide +kernel, hstream⟩

/-- Timestamps in doubles do not count samples: of seven full packets at the usual rate, the last
one begins a little early. -/
theorem timestamps_drift :
    ¬ ∀ (b : Buzzer ℚ Float) (reading : Nat → Nat) (requests : List Int), b.Regular →
      b.timestamp = 0 → ∀ m (hm : m < (b.packets reading requests).1.length),
        (b.packets reading requests).1[m].timestamp =
          Seconds.ratio (((b.packets reading requests).1.take m).flatMap Packet.samples).length
            b.sampleRate := by
  intro hexact
  have hlast := hexact (ofStep (440 / 44100) 44100) (fun _ => 0) (List.replicate 7 1470)
    (regular_ofStep _ (by decide)) rfl 6 (by decide +kernel)
  revert hlast
  decide +kernel

end Buzzer

end Chip8

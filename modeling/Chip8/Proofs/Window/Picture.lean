import Chip8.CommandLine
import Chip8.Proofs.Session.Display
import Mathlib.Tactic.Ring

/-!
# The picture in the window

A frame is shown as a picture: its rows in reverse, every pixel a square of dots, every dot four
bytes.  All its rows are of one length, so there is a formula for the place of each byte
(`Picture.getElem?_bytes`).

The window may as well keep one image and paint one frame after another on it (`Canvas`): a frame
covers what was painted before, and the opacity that it leaves alone is the same everywhere
(`Canvas.paint_eq`).  In the course of a session the window hands over one picture for each frame
(`CommandLine.updates_calls`), and `CommandLine.pictures_exact` says what its bytes are.
-/

namespace Chip8

/-! ### Rows of one length -/

namespace Picture

section Rows

variable {α β : Type} {f : α → List β} {l : List α} {w n : Nat}

theorem length_flatMap_of_length (h : ∀ a ∈ l, (f a).length = w) :
    (l.flatMap f).length = l.length * w := by
  induction l with
  | nil => simp
  | cons a l ih =>
    rw [List.flatMap_cons, List.length_append, h a List.mem_cons_self,
      ih fun b hb => h b (List.mem_cons_of_mem a hb), List.length_cons, Nat.succ_mul, Nat.add_comm]

theorem getElem?_flatMap_of_length (h : ∀ a ∈ l, (f a).length = w) {i j : Nat} (hj : j < w) :
    (l.flatMap f)[i * w + j]? = l[i]?.bind fun a => (f a)[j]? := by
  induction l generalizing i with
  | nil => simp
  | cons a l ih =>
    have hfirst : (f a).length = w := h a List.mem_cons_self
    rw [List.flatMap_cons]
    cases i with
    | zero =>
      rw [Nat.zero_mul, Nat.zero_add, List.getElem?_append_left (hfirst ▸ hj)]
      rfl
    | succ i =>
      have hplace : (i + 1) * w + j = w + (i * w + j) := by rw [Nat.succ_mul]; omega
      rw [hplace, List.getElem?_append_right (by omega), hfirst, Nat.add_sub_cancel_left,
        ih fun b hb => h b (List.mem_cons_of_mem a hb), List.getElem?_cons_succ]

theorem length_stretch (n : Nat) (l : List α) : (stretch n l).length = l.length * n :=
  length_flatMap_of_length fun _ _ => List.length_replicate

theorem getElem?_stretch (hn : 0 < n) (l : List α) (k : Nat) : (stretch n l)[k]? = l[k / n]? := by
  have hrest : k % n < n := Nat.mod_lt k hn
  have hplace : k = k / n * n + k % n := (Nat.div_add_mod' k n).symm
  rw [hplace, stretch, getElem?_flatMap_of_length (fun _ _ => List.length_replicate) hrest,
    ← hplace]
  cases l[k / n]? with
  | none => rfl
  | some a => simp [hrest]

theorem stretch_one (l : List α) : stretch 1 l = l := List.flatMap_singleton' l

theorem map_stretch (g : α → β) (n : Nat) (l : List α) :
    (stretch n l).map g = stretch n (l.map g) := by
  simp [stretch, List.map_flatMap, List.flatMap_map]

end Rows

end Picture

/-! ### Dots and bytes -/

namespace Frame

theorem length_rows (f : Frame) : f.rows.length = f.height := by simp [rows]

theorem getElem?_rows (f : Frame) {y : Nat} (h : y < f.height) :
    f.rows[y]? = some ((List.range f.width).map fun x => f.isLit x y) := by
  simp [rows, h]

theorem length_of_mem_rows {f : Frame} {row : List Bool} (h : row ∈ f.rows) :
    row.length = f.width := by
  obtain ⟨y, -, rfl⟩ := List.mem_map.1 h
  simp

end Frame

namespace Picture

theorem length_rows (p : Picture) : p.rows.length = p.height := by
  rw [rows, length_stretch, List.length_map, List.length_reverse, Frame.length_rows, height]

theorem length_of_mem_rows {p : Picture} {row : List Rgba} (h : row ∈ p.rows) :
    row.length = p.width := by
  obtain ⟨_, hrow, hmem⟩ := List.mem_flatMap.1 h
  obtain ⟨pixels, hpixels, rfl⟩ := List.mem_map.1 hrow
  rw [List.eq_of_mem_replicate hmem, length_stretch, List.length_map,
    Frame.length_of_mem_rows (List.mem_reverse.1 hpixels), width]

theorem getElem?_rows (p : Picture) {row : Nat} (h : row < p.height) :
    p.rows[row]? = some (stretch p.scale (((List.range p.frame.width).map fun x =>
      p.frame.isLit x (p.frame.height - 1 - row / p.scale)).map Rgba.ofPixel)) := by
  have hscale : 0 < p.scale := Nat.pos_of_mul_pos_left (Nat.zero_lt_of_lt h)
  have hrow : row / p.scale < p.frame.height := Nat.div_lt_of_lt_mul (by rwa [Nat.mul_comm])
  rw [rows, getElem?_stretch hscale, List.getElem?_map,
    List.getElem?_reverse (by rwa [Frame.length_rows]), Frame.length_rows,
    Frame.getElem?_rows _ (Nat.lt_of_le_of_lt (Nat.sub_le _ _) (Nat.sub_one_lt_of_lt hrow))]
  rfl

theorem getElem?_bytes_ofPixel (lit : Bool) {channel : Nat} (h : channel < 4) :
    (Rgba.ofPixel lit).bytes[channel]? =
      some (if channel = 3 then 255 else if lit then 255 else 0) := by
  have hcases : channel = 0 ∨ channel = 1 ∨ channel = 2 ∨ channel = 3 := by omega
  rcases hcases with rfl | rfl | rfl | rfl <;> rfl

theorem length_row_bytes {p : Picture} {row : List Rgba} (h : row ∈ p.rows) :
    (row.flatMap Rgba.bytes).length = p.width * 4 := by
  rw [length_flatMap_of_length (w := 4) fun _ _ => rfl, length_of_mem_rows h]

theorem length_bytes (p : Picture) : p.bytes.length = p.height * (p.width * 4) := by
  rw [bytes, length_flatMap_of_length fun _ => length_row_bytes, length_rows]

/-- **The bytes of a picture.**  The dot in a column and a row, counted from the bottom, shows the
pixel that its square stands for. -/
theorem getElem?_bytes (p : Picture) {row column channel : Nat} (hrow : row < p.height)
    (hcolumn : column < p.width) (hchannel : channel < 4) :
    p.bytes[(row * p.width + column) * 4 + channel]? =
      some (if channel = 3 then 255
        else if p.frame.isLit (column / p.scale) (p.frame.height - 1 - row / p.scale) then 255
        else 0) := by
  have hscale : 0 < p.scale := Nat.pos_of_mul_pos_left (Nat.zero_lt_of_lt hcolumn)
  have hpixel : column / p.scale < p.frame.width := Nat.div_lt_of_lt_mul (by rwa [Nat.mul_comm])
  have hplace : (row * p.width + column) * 4 + channel =
      row * (p.width * 4) + (column * 4 + channel) := by ring
  rw [hplace, bytes, getElem?_flatMap_of_length (fun _ => length_row_bytes) (by omega),
    getElem?_rows p hrow, Option.bind_some,
    getElem?_flatMap_of_length (f := Rgba.bytes) (fun _ _ => rfl) hchannel,
    getElem?_stretch hscale]
  simp only [List.getElem?_map, List.getElem?_range hpixel, Option.map_some, Option.bind_some]
  exact getElem?_bytes_ofPixel _ hchannel

end Picture

/-! ### Painting over -/

/-- An image of dots that frames are painted on, row by row from the bottom. -/
structure Canvas where
  /-- The rows. -/
  rows : List (List Rgba)
  deriving DecidableEq, Repr

namespace Canvas

/-- Black dots. -/
def blank (width height : Nat) : Canvas :=
  ⟨List.replicate height (List.replicate width (.ofPixel false))⟩

/-- A dot takes on the light of a pixel and keeps its opacity. -/
def light (dot : Rgba) (lit : Bool) : Rgba :=
  let v : UInt8 := if lit then 255 else 0
  { dot with red := v, green := v, blue := v }

/-- A frame is painted over what is there. -/
def paint (c : Canvas) (f : Frame) : Canvas :=
  ⟨List.zipWith (List.zipWith light) c.rows f.rows.reverse⟩

/-- The rows, enlarged up and down and then to the side.  At one to one they are left as they
are. -/
def enlarged (c : Canvas) (scale : Nat) : List (List Rgba) :=
  if scale ≠ 1 then (Picture.stretch scale c.rows).map (Picture.stretch scale) else c.rows

/-- The enlarged image as a row of bytes. -/
def bytes (c : Canvas) (scale : Nat) : List UInt8 :=
  (c.enlarged scale).flatMap fun row => row.flatMap Rgba.bytes

/-- The image has these extents, and its dots are opaque. -/
structure Opaque (width height : Nat) (c : Canvas) : Prop where
  /-- The number of rows. -/
  height : c.rows.length = height
  /-- The dots in a row. -/
  width : ∀ row ∈ c.rows, row.length = width
  /-- No dot lets anything through. -/
  alpha : ∀ row ∈ c.rows, ∀ dot ∈ row, dot.alpha = 255

/-- The image of a frame. -/
def ofFrame (f : Frame) : Canvas := ⟨f.rows.reverse.map fun row => row.map Rgba.ofPixel⟩

variable {c : Canvas} {f : Frame} {width height : Nat}

theorem opaque_blank (width height : Nat) : (blank width height).Opaque width height where
  height := List.length_replicate
  width row hrow := by rw [List.eq_of_mem_replicate hrow, List.length_replicate]
  alpha row hrow dot hdot := by
    rw [List.eq_of_mem_replicate hrow] at hdot
    rw [List.eq_of_mem_replicate hdot]
    rfl

theorem opaque_ofFrame (f : Frame) : (ofFrame f).Opaque f.width f.height where
  height := by rw [ofFrame, List.length_map, List.length_reverse, Frame.length_rows]
  width row hrow := by
    obtain ⟨pixels, hpixels, rfl⟩ := List.mem_map.1 hrow
    rw [List.length_map, Frame.length_of_mem_rows (List.mem_reverse.1 hpixels)]
  alpha row hrow dot hdot := by
    obtain ⟨pixels, -, rfl⟩ := List.mem_map.1 hrow
    obtain ⟨lit, -, rfl⟩ := List.mem_map.1 hdot
    rfl

theorem light_of_opaque {dot : Rgba} (h : dot.alpha = 255) (lit : Bool) :
    light dot lit = .ofPixel lit := by
  simp only [light, Rgba.ofPixel, h]

theorem zipWith_eq_map {α β γ : Type} {g : α → β → γ} {h : β → γ} {l : List α} {m : List β}
    (hlength : l.length = m.length) (hg : ∀ a ∈ l, ∀ b ∈ m, g a b = h b) :
    List.zipWith g l m = m.map h := by
  refine List.ext_getElem (by simp [hlength]) fun i _ _ => ?_
  rw [List.getElem_zipWith, List.getElem_map]
  exact hg _ (List.getElem_mem _) _ (List.getElem_mem _)

/-- **A frame covers what was painted before.** -/
theorem paint_eq (hc : c.Opaque width height) (hwidth : f.width = width)
    (hheight : f.height = height) : c.paint f = ofFrame f := by
  refine congrArg Canvas.mk (zipWith_eq_map ?_ fun row hrow pixels hpixels => ?_)
  · rw [List.length_reverse, Frame.length_rows, hc.height, hheight]
  · refine zipWith_eq_map ?_ fun dot hdot lit _ => light_of_opaque (hc.alpha row hrow dot hdot) lit
    rw [hc.width row hrow, Frame.length_of_mem_rows (List.mem_reverse.1 hpixels), hwidth]

theorem Opaque.foldl_paint (hc : c.Opaque width height) {frames : List Frame}
    (h : ∀ f ∈ frames, f.width = width ∧ f.height = height) :
    (frames.foldl paint c).Opaque width height := by
  induction frames generalizing c with
  | nil => exact hc
  | cons f frames ih =>
    obtain ⟨hwidth, hheight⟩ := h f List.mem_cons_self
    have hpainted : (c.paint f).Opaque width height := by
      rw [paint_eq hc hwidth hheight, ← hwidth, ← hheight]
      exact opaque_ofFrame f
    exact ih hpainted fun g hg => h g (List.mem_cons_of_mem f hg)

theorem enlarged_ofFrame (f : Frame) (scale : Nat) :
    (ofFrame f).enlarged scale = (Picture.mk scale f).rows := by
  unfold enlarged ofFrame Picture.rows
  split
  · rw [Picture.map_stretch, List.map_map]
    rfl
  next hone =>
    obtain rfl : scale = 1 := by simpa using hone
    simp only [Picture.stretch_one]

/-- **Frames that are painted one over the other leave the picture of the last one.** -/
theorem bytes_foldl_paint {frames : List Frame}
    (h : ∀ f ∈ frames, f.width = width ∧ f.height = height) {i : Nat} (hf : frames[i]? = some f)
    (scale : Nat) :
    ((frames.take (i + 1)).foldl paint (blank width height)).bytes scale =
      (Picture.mk scale f).bytes := by
  have hbefore : ((frames.take i).foldl paint (blank width height)).Opaque width height :=
    (opaque_blank width height).foldl_paint fun g hg => h g (List.mem_of_mem_take hg)
  obtain ⟨hwidth, hheight⟩ := h f (List.mem_of_getElem? hf)
  rw [List.take_add_one, hf, Option.toList_some, List.foldl_append, List.foldl_cons, List.foldl_nil,
    paint_eq hbefore hwidth hheight, bytes, enlarged_ofFrame, Picture.bytes]

end Canvas

/-! ### The course of a session -/

/-- The picture that the image takes, if it takes one. -/
def GraphicsCall.update? : GraphicsCall → Option Picture
  | .updateImage picture => some picture
  | _ => none

namespace CommandLine

variable {τ : Type}

/-- What moments of a session bring to a window that is open. -/
def calls (w : Window) : List (Moment τ) → List GraphicsCall
  | [] => []
  | moment :: moments => (watch w moment).2 ++ calls (watch w moment).1 moments

theorem scale_watch (w : Window) (moment : Moment τ) : (watch w moment).1.scale = w.scale := by
  cases moment <;> rfl

theorem updates_watch (w : Window) (moment : Moment τ) :
    (watch w moment).2.filterMap GraphicsCall.update? =
      (moment.frame?.map (Picture.mk w.scale)).toList := by
  cases moment <;> rfl

/-- **The image takes one picture for each frame**, in order, and none at other moments. -/
theorem updates_calls (w : Window) (moments : List (Moment τ)) :
    (calls w moments).filterMap GraphicsCall.update? =
      (moments.filterMap Moment.frame?).map (Picture.mk w.scale) := by
  induction moments generalizing w with
  | nil => rfl
  | cons moment moments ih =>
    rw [calls, List.filterMap_append, updates_watch, ih, scale_watch]
    cases hframe : moment.frame? <;> simp [hframe]

/-- **The picture in the window is the frame, turned upside down and enlarged.**  Let a window show
frames of 64 by 32 pixels in the course of a session, between whatever else happens.  The image
takes one picture for each frame.  It has `64 * 32 * 4 * s * s` bytes, where `s` is the enlargement;
and of the dot in a column and a row, counted from the bottom, the fourth byte is 255, and the other
three are 255 if the square of the dot stands for a lit pixel and 0 if it does not.  A window that
keeps one image, paints frame upon frame on it, and enlarges it only if the enlargement is not one
to one, takes the same bytes: whatever frames were shown before do not matter. -/
theorem pictures_exact (w : Window) (moments : List (Moment τ))
    (hframes : ∀ f ∈ moments.filterMap Moment.frame?, f.width = 64 ∧ f.height = 32) :
    let s := w.scale
    let frames := moments.filterMap Moment.frame?
    let pictures := (calls w moments).filterMap GraphicsCall.update?
    pictures.length = frames.length ∧
    ∀ (i : Nat) (f : Frame), frames[i]? = some f → ∃ p, pictures[i]? = some p ∧
      p.bytes.length = 64 * 32 * 4 * s * s ∧
      (∀ row column channel, row < 32 * s → column < 64 * s → channel < 4 →
        p.bytes[(row * (64 * s) + column) * 4 + channel]? =
          some (if channel = 3 then 255
            else if f.isLit (column / s) (31 - row / s) then 255 else 0)) ∧
      ((frames.take (i + 1)).foldl Canvas.paint (Canvas.blank 64 32)).bytes s = p.bytes := by
  intro s frames pictures
  have hpictures : pictures = frames.map (Picture.mk s) := updates_calls w moments
  refine ⟨by rw [hpictures, List.length_map], fun i f hf => ⟨⟨s, f⟩, ?_, ?_, ?_, ?_⟩⟩
  · rw [hpictures, List.getElem?_map, hf]
    rfl
  all_goals obtain ⟨hwidth, hheight⟩ := hframes f (List.mem_of_getElem? hf)
  · rw [Picture.length_bytes, Picture.height, Picture.width, hwidth, hheight]
    ring
  · intro row column channel hrow hcolumn hchannel
    have hrow' : row < (Picture.mk s f).height := by rwa [Picture.height, hheight]
    have hcolumn' : column < (Picture.mk s f).width := by rwa [Picture.width, hwidth]
    have hbyte := Picture.getElem?_bytes ⟨s, f⟩ hrow' hcolumn' hchannel
    simp only [Picture.width, hwidth, hheight] at hbyte
    exact hbyte
  · exact Canvas.bytes_foldl_paint hframes hf s

/-- A frame with a single lit pixel in its top row. -/
def speck (x : Nat) : Frame := ⟨64, 32, (Array.replicate 2048 false).setIfInBounds x true⟩

theorem isLit_speck {x column : Nat} (h : column < 64) :
    (speck x).isLit column 0 = decide (x = column) := by
  have hplace : column < 2048 := by omega
  simp [speck, Frame.isLit, Array.getD, hplace, Array.getElem_setIfInBounds]

/-- Two frames are shown at twice their size, with a report in between.  In the second picture the
pixel of the second frame is white, and that of the first one is black again. -/
theorem second_frame_replaces_first :
    let w : Window := (Window.create 2).1
    let moments : List (Moment Nat) :=
      [.shown 1 10 (speck 3), .reported 2 2 1, .shown 3 30 (speck 5)]
    (∀ f ∈ moments.filterMap Moment.frame?, f.width = 64 ∧ f.height = 32) ∧
    ∃ p, ((calls w moments).filterMap GraphicsCall.update?)[1]? = some p ∧
      p.bytes.length = 32768 ∧
      p.bytes[(63 * 128 + 10) * 4 + 2]? = some 255 ∧
      p.bytes[(63 * 128 + 6) * 4 + 2]? = some 0 ∧
      p.bytes[(63 * 128 + 6) * 4 + 3]? = some 255 := by
  intro w moments
  have hframes : ∀ f ∈ moments.filterMap Moment.frame?, f.width = 64 ∧ f.height = 32 := by
    intro f hf
    have hspeck : f = speck 3 ∨ f = speck 5 := by simpa [moments, Moment.frame?, eq_comm] using hf
    rcases hspeck with rfl | rfl <;> exact ⟨rfl, rfl⟩
  have hscale : w.scale = 2 := rfl
  obtain ⟨p, hp, hlength, hbytes, -⟩ := (pictures_exact w moments hframes).2 1 (speck 5) rfl
  simp only [hscale] at hlength hbytes
  have hdot (column : Nat) (hcolumn : column < 128) (channel : Nat) (hchannel : channel < 4) :
      p.bytes[(63 * 128 + column) * 4 + channel]? =
        some (if channel = 3 then 255 else if 5 = column / 2 then 255 else 0) := by
    have hlit : (speck 5).isLit (column / 2) (31 - 63 / 2) = decide (5 = column / 2) :=
      isLit_speck (by omega)
    rw [hbytes 63 column channel (by decide) (by omega) hchannel, hlit]
    simp only [decide_eq_true_eq]
  exact ⟨hframes, p, hp, hlength, hdot 10 (by decide) 2 (by decide),
    hdot 6 (by decide) 2 (by decide), hdot 6 (by decide) 3 (by decide)⟩

end CommandLine

end Chip8

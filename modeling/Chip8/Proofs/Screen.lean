import Chip8.Screen

/-!
# What a screen holds

Clearing and drawing keep the extents of a screen, and they keep it *binary*: there is one pixel
for each place, and a pixel is nought or one.  Drawing flips pixels one after the other, so both
facts are carried through the flips (`flip_binary`, `foldl_flip_binary`).

Drawing does not look at the flag `dirty`, and it leaves the picture due to be shown (`draw_due`,
`due_of_draw`).
-/

namespace Chip8

namespace Screen

variable {s : Screen}

/-- There is one pixel for each place, and it is nought or one. -/
structure Binary (s : Screen) : Prop where
  /-- There is one pixel for each place. -/
  size : s.pixels.size = s.width * s.height
  /-- A pixel is nought or one. -/
  bit : ∀ v ∈ s.pixels, v = 0 ∨ v = 1

theorem blank_binary (width height : Nat) : (blank width height).Binary where
  size := by simp [blank]
  bit v hv := by
    simp only [blank, Array.mem_replicate] at hv
    exact .inl hv.2

theorem clear_binary (s : Screen) : s.clear.Binary where
  size := by simp [clear, fill]
  bit v hv := by
    simp only [clear, fill, Array.mem_replicate] at hv
    exact .inl hv.2

theorem snapshot_binary (h : s.Binary) : s.snapshot.2.Binary := ⟨h.size, h.bit⟩

/-! ### Flips -/

theorem flip_binary {state : Screen × Bool} (h : state.1.Binary) (place : Int × Int) :
    (flip state place).1.Binary where
  size := by simp [flip, h.size]
  bit v hv := by
    obtain ⟨i, hi, rfl⟩ := Array.mem_iff_getElem.1 hv
    simp only [flip, Array.getElem_modify]
    simp only [flip, Array.size_modify] at hi
    have hold := h.bit _ (Array.getElem_mem hi)
    -- the exclusive or with one exchanges nought and one
    split
    · rcases hold with hz | ho
      · exact .inr (by rw [hz]; rfl)
      · exact .inl (by rw [ho]; rfl)
    · exact hold

theorem foldl_flip_binary (places : List (Int × Int)) {state : Screen × Bool}
    (h : state.1.Binary) : (places.foldl flip state).1.Binary := by
  induction places generalizing state with
  | nil => exact h
  | cons place places ih => exact ih (flip_binary h place)

theorem foldl_flip_extents (places : List (Int × Int)) (state : Screen × Bool) :
    (places.foldl flip state).1.width = state.1.width ∧
      (places.foldl flip state).1.height = state.1.height := by
  induction places generalizing state with
  | nil => exact ⟨rfl, rfl⟩
  | cons place places ih => exact ih (flip state place)

/-! ### Drawing -/

theorem drawRows_binary (h : s.Binary) (x y : Int) (sprite : List UInt8) :
    (s.drawRows x y sprite).1.Binary := by
  have hb : ((Sprite.hits x y sprite).foldl flip (s, false)).1.Binary :=
    foldl_flip_binary _ h
  exact ⟨hb.size, hb.bit⟩

theorem drawRows_extents (s : Screen) (x y : Int) (sprite : List UInt8) :
    (s.drawRows x y sprite).1.width = s.width ∧ (s.drawRows x y sprite).1.height = s.height :=
  foldl_flip_extents (Sprite.hits x y sprite) (s, false)

theorem not_isEmpty (hw : 1 ≤ s.width) (hh : 1 ≤ s.height) : s.isEmpty = false := by
  simp [isEmpty]
  omega

/-- A sprite can be drawn on a screen that has pixels exactly if the memory holds it. -/
theorem draw_eq (hs : s.isEmpty = false) (x y height address : Int) (store : Store) :
    s.draw x y height address store =
      (store.readBlock address height).map fun sprite => s.drawRows x y sprite.toList := by
  unfold draw
  cases store.readBlock address height with
  | error fault => rfl
  | ok sprite => simp [bind, Except.bind, Except.map, hs]

/-! ### Whether the picture is due to be shown -/

theorem foldl_flip_due (places : List (Int × Int)) (s : Screen) (off due : Bool) :
    places.foldl flip ({ s with dirty := due }, off) =
      ({ (places.foldl flip (s, off)).1 with dirty := due }, (places.foldl flip (s, off)).2) := by
  induction places generalizing s off with
  | nil => rfl
  | cons place places ih => exact ih (flip (s, off) place).1 (flip (s, off) place).2

theorem draw_due (s : Screen) (due : Bool) (x y height address : Int) (store : Store) :
    ({ s with dirty := due } : Screen).draw x y height address store =
      s.draw x y height address store := by
  unfold draw drawRows
  simp only [foldl_flip_due]
  rfl

theorem due_of_draw {x y height address : Int} {store : Store} {t : Screen} {off : Bool}
    (h : s.draw x y height address store = .ok (t, off)) : t.dirty = true := by
  unfold draw at h
  cases hread : store.readBlock address height with
  | error fault => simp [hread, bind, Except.bind] at h
  | ok sprite =>
    simp only [hread, bind, Except.bind] at h
    split at h
    · cases h
    · cases h
      rfl

end Screen

end Chip8

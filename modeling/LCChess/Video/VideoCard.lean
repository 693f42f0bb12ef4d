import LCChess.Library.Loop
import LCChess.Library.Raster
import LCChess.Video.Geometry

/-!
# Drawing into a frame buffer

The drawing primitives of `videocard.c` on the bytes of a frame buffer. `draw_rectangle` is
gated: it draws only when its top-left pixel lies in one of the 64 squares of the board.

## Main definitions

* `drawHline`, `drawRectangle`, `drawImage`, `copyBuffers`, `vgClear`: the primitives
* `pixelAddr g px py`: the address of a pixel

## Main results

* `drawHline_pixel`, `drawRectangle_pixel`: the bytes of every pixel afterwards
* `drawRectangle_outside`: drawing writes to the frame buffer only
* `drawImage_left`: an image leaves the pixels left of it alone
* `drawImage_congr`: a byte behind an image depends on that byte before it only
-/

namespace LCChess

open Loop (forLoop forLoop_of_le forLoop_invariant forLoop_related)
open Memory (memcpy sameBytes cellAddr cellAddr_add_le memcpy_cell memcpy_of_not_mem memcpy_congr)

/-- `xpm_image_t`. -/
structure XpmImage where
  width : ℕ
  height : ℕ
  bytes : Memory

/-- `vram_size`. -/
def vramSize (g : Geometry) : ℕ := g.xResolution * g.yResolution * g.bytesPerPixel

/-- `copy_buffers`. -/
def copyBuffers (g : Geometry) (vm1 vm2 : Memory) : Memory := memcpy vm1 0 vm2 (vramSize g)

/-- `vg_clear`. -/
def vgClear (g : Geometry) (buffer : Memory) : Memory := memcpy buffer 0 (fun _ => 0) (vramSize g)

/-- The bytes of a 32-bit color in memory, lowest first. -/
def colorBytes (color : ℕ) : Memory := fun k => UInt8.ofNat (color / 256 ^ k)

/-- `draw_hline`. -/
def drawHline (g : Geometry) (boardMem : Memory) (x y len color : ℕ) : Memory :=
  -- clipped at the right edge; the row is the caller's business
  forLoop x (min (x + len) g.xResolution)
    (fun i m =>
      memcpy m ((y * g.xResolution + i) * g.bytesPerPixel % 4294967296) (colorBytes color)
        g.bytesPerPixel)
    boardMem

/-- `draw_rectangle`. -/
def drawRectangle (g : Geometry) (boardMem : Memory) (x y width height color : ℕ) : Memory :=
  -- only the corner of the rectangle is tested against the board
  if 0 ≤ getBoardX g x ∧ getBoardX g x ≤ 7 ∧ 0 ≤ getBoardY g y ∧ getBoardY g y ≤ 7 then
    forLoop y (min (y + height) g.yResolution)
      (fun i m => drawHline g m x (i % 65536) width color) boardMem
  else boardMem

/-- The color `draw_image` does not draw. -/
def colorTransparent : ℕ := 0x000069

/-- The body of the loops of `draw_image`: image pixel `(xImg, yImg)`, unless transparent. -/
def drawImagePixel (g : Geometry) (img : XpmImage) (x y yImg xImg : ℕ) (boardMem : Memory) :
    Memory :=
  -- the offsets are `unsigned`
  let position := ((y + yImg) * g.xResolution + x + xImg) * g.bytesPerPixel % 4294967296
  let colorPosition := (yImg * img.width + xImg) * g.bytesPerPixel % 4294967296
  if sameBytes img.bytes colorPosition (colorBytes colorTransparent) g.bytesPerPixel then boardMem
  else memcpy boardMem position (fun k => img.bytes (colorPosition + k)) g.bytesPerPixel

/-- `draw_image`. -/
def drawImage (g : Geometry) (boardMem : Memory) (img : XpmImage) (x y : ℕ) : Memory :=
  -- clipped at the lower and at the right edge
  forLoop 0 (min img.height (g.yResolution - y))
    (fun yImg => forLoop 0 (min img.width (g.xResolution - x)) (drawImagePixel g img x y yImg))
    boardMem

/-- A byte behind an image depends on that byte before it only. -/
theorem drawImage_congr (g : Geometry) (img : XpmImage) (x y : ℕ) {m m' : Memory} {a : ℕ}
    (h : m a = m' a) : drawImage g m img x y a = drawImage g m' img x y a := by
  -- the two runs write the same bytes at the same places, and read the image only
  refine forLoop_related (fun m m' : Memory => m a = m' a) (fun yImg m m' _ _ h => ?_) h
  refine forLoop_related (fun m m' : Memory => m a = m' a) (fun xImg m m' _ _ h => ?_) h
  unfold drawImagePixel
  split
  · exact h
  · exact memcpy_congr _ _ _ h

/-- A copied buffer is the source, up to its size. -/
theorem copyBuffers_of_lt (g : Geometry) (vm1 vm2 : Memory) {a : ℕ} (ha : a < vramSize g) :
    copyBuffers g vm1 vm2 a = vm2 a := by
  unfold copyBuffers memcpy
  rw [Nat.zero_add, if_pos ⟨Nat.zero_le a, ha⟩, Nat.sub_zero]

/-! ## The bytes of every pixel -/

/-- The address of pixel `(px, py)`. -/
def pixelAddr (g : Geometry) (px py : ℕ) : ℕ := cellAddr g.xResolution g.bytesPerPixel px py

/-- Writing one pixel changes the bytes of that pixel and no others. -/
theorem memcpy_pixel {g : Geometry} (m src : Memory) {x y px py k : ℕ} (hx : x < g.xResolution)
    (hpx : px < g.xResolution) (hk : k < g.bytesPerPixel) :
    memcpy m (pixelAddr g x y) src g.bytesPerPixel (pixelAddr g px py + k) =
      if px = x ∧ py = y then src k else m (pixelAddr g px py + k) :=
  memcpy_cell m src hx hpx hk

section Pixels

variable {g : Geometry} (hfit : vramSize g < 4294967296)
include hfit

omit hfit in
/-- The bytes of a pixel on the screen lie in the frame buffer. -/
theorem pixelAddr_add_le {x y : ℕ} (hx : x < g.xResolution) (hy : y < g.yResolution) :
    pixelAddr g x y + g.bytesPerPixel ≤ vramSize g := cellAddr_add_le hx hy

/-- The address of a pixel on the screen does not wrap around 32 bits. -/
theorem pixelAddr_mod {x y : ℕ} (hx : x < g.xResolution) (hy : y < g.yResolution) :
    (y * g.xResolution + x) * g.bytesPerPixel % 4294967296 = pixelAddr g x y := by
  apply Nat.mod_eq_of_lt
  calc pixelAddr g x y ≤ pixelAddr g x y + g.bytesPerPixel := Nat.le_add_right _ _
    _ ≤ vramSize g := pixelAddr_add_le hx hy
    _ < 4294967296 := hfit

/-- Drawing a line writes to the frame buffer only. -/
theorem drawHline_outside (m : Memory) (x : ℕ) {y : ℕ} (len color : ℕ) (hy : y < g.yResolution)
    {a : ℕ} (ha : vramSize g ≤ a) : drawHline g m x y len color a = m a := by
  rcases Nat.le_total (min (x + len) g.xResolution) x with hle | hle
  · rw [drawHline, forLoop_of_le hle]
  -- each pixel of the line lies below the size of the frame buffer
  · refine forLoop_invariant (fun _ (m' : Memory) => m' a = m a) hle (fun i m' _ hi ih => ?_) rfl
    have hi : i < g.xResolution := by omega
    have hin := pixelAddr_add_le hi hy
    rw [pixelAddr_mod hfit hi hy, memcpy_of_not_mem _ _ (by omega), ih]

/-- Drawing a rectangle writes to the frame buffer only. -/
theorem drawRectangle_outside (hres : g.yResolution ≤ 65536) (m : Memory)
    (x y width height color : ℕ) {a : ℕ} (ha : vramSize g ≤ a) :
    drawRectangle g m x y width height color a = m a := by
  unfold drawRectangle
  split_ifs
  · rcases Nat.le_total (min (y + height) g.yResolution) y with hle | hle
    · rw [forLoop_of_le hle]
    · refine forLoop_invariant (fun _ (m' : Memory) => m' a = m a) hle
        (fun i m' _ hi ih => ?_) rfl
      have hi : i < g.yResolution := by omega
      -- the row goes to `draw_hline` as a `uint16_t`, and fits
      rw [Nat.mod_eq_of_lt (show i < 65536 by omega), drawHline_outside hfit _ _ _ _ hi ha, ih]
  · rfl

/-- A horizontal line changes the pixels it covers and no others. -/
theorem drawHline_pixel (m : Memory) {x y : ℕ} (len color : ℕ) (hy : y < g.yResolution)
    {px py k : ℕ} (hpx : px < g.xResolution) (hk : k < g.bytesPerPixel) :
    drawHline g m x y len color (pixelAddr g px py + k) =
      if py = y ∧ x ≤ px ∧ px < x + len then colorBytes color k
      else m (pixelAddr g px py + k) := by
  rcases Nat.le_total (min (x + len) g.xResolution) x with hle | hle
  · rw [drawHline, forLoop_of_le hle, if_neg (by omega)]
  · have hinv : drawHline g m x y len color (pixelAddr g px py + k) =
        if py = y ∧ x ≤ px ∧ px < min (x + len) g.xResolution then colorBytes color k
        else m (pixelAddr g px py + k) := by
      refine forLoop_invariant
        (fun i (m' : Memory) => m' (pixelAddr g px py + k) =
          if py = y ∧ x ≤ px ∧ px < i then colorBytes color k else m (pixelAddr g px py + k))
        hle (fun i m' hi hi' ih => ?_) (by rw [if_neg (by omega)])
      have hix : i < g.xResolution := by omega
      simp only [pixelAddr_mod hfit hix hy]
      rw [memcpy_pixel _ _ hix hpx hk, ih]
      split_ifs <;> first | rfl | omega
    -- the clipping at the edge does not matter to a pixel on the screen
    rw [hinv]
    exact if_congr (by omega) rfl rfl

/-- A rectangle on the board changes the pixels it covers and no others. -/
theorem drawRectangle_pixel (hres : g.yResolution ≤ 65536) (m : Memory) {x y : ℕ}
    (width height color : ℕ)
    (hgate : 0 ≤ getBoardX g x ∧ getBoardX g x ≤ 7 ∧ 0 ≤ getBoardY g y ∧ getBoardY g y ≤ 7)
    {px py k : ℕ} (hpx : px < g.xResolution) (hpy : py < g.yResolution)
    (hk : k < g.bytesPerPixel) :
    drawRectangle g m x y width height color (pixelAddr g px py + k) =
      if x ≤ px ∧ px < x + width ∧ y ≤ py ∧ py < y + height then colorBytes color k
      else m (pixelAddr g px py + k) := by
  rw [drawRectangle, if_pos hgate]
  rcases Nat.le_total (min (y + height) g.yResolution) y with hle | hle
  · rw [forLoop_of_le hle, if_neg (by omega)]
  -- the invariant: the rows drawn so far are colored, the others as they were
  · refine Eq.trans (forLoop_invariant
      (fun i (m' : Memory) => m' (pixelAddr g px py + k) =
        if x ≤ px ∧ px < x + width ∧ y ≤ py ∧ py < i then colorBytes color k
        else m (pixelAddr g px py + k))
      hle (fun i m' hi hi' ih => ?_) (by rw [if_neg (by omega)])) ?_
    · have hiy : i < g.yResolution := by omega
      have hmod : i % 65536 = i := Nat.mod_eq_of_lt (by omega)
      simp only [hmod]
      rw [drawHline_pixel hfit m' width color hiy hpx hk, ih]
      split_ifs <;> first | rfl | omega
    · exact if_congr (by omega) rfl rfl

theorem drawImagePixel_left (m : Memory) (img : XpmImage) {x y yImg xImg px py k : ℕ}
    (hpx : px < x) (hx : x + xImg < g.xResolution) (hy : y + yImg < g.yResolution)
    (hk : k < g.bytesPerPixel) :
    drawImagePixel g img x y yImg xImg m (pixelAddr g px py + k) = m (pixelAddr g px py + k) := by
  unfold drawImagePixel
  split
  · rfl
  · rw [Nat.add_assoc ((y + yImg) * g.xResolution), pixelAddr_mod hfit hx hy]
    rw [memcpy_pixel _ _ hx (by omega) hk, if_neg (by omega)]

/-- An image leaves the pixels left of it alone. -/
theorem drawImage_left (m : Memory) (img : XpmImage) {x y px py k : ℕ} (hpx : px < x)
    (hk : k < g.bytesPerPixel) :
    drawImage g m img x y (pixelAddr g px py + k) = m (pixelAddr g px py + k) := by
  refine forLoop_invariant
    (fun _ (m' : Memory) => m' (pixelAddr g px py + k) = m (pixelAddr g px py + k))
    (Nat.zero_le _) (fun yImg m' _ hyImg ih => ?_) rfl
  refine forLoop_invariant
    (fun _ (m' : Memory) => m' (pixelAddr g px py + k) = m (pixelAddr g px py + k))
    (Nat.zero_le _) (fun xImg m'' _ hxImg ih' => ?_) ih
  rw [drawImagePixel_left hfit m'' img hpx (by omega) (by omega) hk]
  exact ih'

end Pixels

end LCChess

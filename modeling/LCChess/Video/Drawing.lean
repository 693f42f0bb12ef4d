import LCChess.Library.AccessLog
import LCChess.Video.VideoCard

/-!
# Images and rectangles, exactly

`draw_image` and `draw_rectangle` with a log of their accesses: they read within the image and
write within the frame buffer, and they change exactly the pixels of the image that are not
transparent, or of the rectangle when its corner lies on the board.

## Main definitions

* `drawHlineLogged`, `drawRectangleLogged`, `drawImageLogged`: the primitives with their log
* `ImageDrawn`, `RectangleDrawn`: a buffer before and after a call

## Main results

* `drawImage_pixel`: the bytes of every pixel after an image
* `drawImage_exact`, `drawRectangle_exact`: exact and clipped drawing
-/

namespace LCChess

open Loop (forLoop forLoop_of_le forLoop_invariant forLoop_keeps forLoop_related)
open Memory (memcpy sameBytes cellAddr cellAddr_add_le AccessLog)
open Memory.AccessLog (within_start explains_start)

/-! ## The primitives with their log -/

/-- `draw_hline`, with its log. -/
def drawHlineLogged (g : Geometry) (boardMem : AccessLog) (x y len color : ℕ) : AccessLog :=
  forLoop x (min (x + len) g.xResolution)
    (fun i s =>
      s.memcpy ((y * g.xResolution + i) * g.bytesPerPixel % 4294967296) (colorBytes color)
        g.bytesPerPixel)
    boardMem

/-- `draw_rectangle`, with its log. -/
def drawRectangleLogged (g : Geometry) (boardMem : AccessLog) (x y width height color : ℕ) :
    AccessLog :=
  if 0 ≤ getBoardX g x ∧ getBoardX g x ≤ 7 ∧ 0 ≤ getBoardY g y ∧ getBoardY g y ≤ 7 then
    forLoop y (min (y + height) g.yResolution)
      (fun i s => drawHlineLogged g s x (i % 65536) width color) boardMem
  else boardMem

/-- The body of the loops of `draw_image`, with its log: the `memcmp` reads the image pixel, and
so does the `memcpy`. -/
def drawImagePixelLogged (g : Geometry) (img : XpmImage) (x y yImg xImg : ℕ)
    (boardMem : AccessLog) : AccessLog :=
  let position := ((y + yImg) * g.xResolution + x + xImg) * g.bytesPerPixel % 4294967296
  let colorPosition := (yImg * img.width + xImg) * g.bytesPerPixel % 4294967296
  let compared := boardMem.read colorPosition g.bytesPerPixel
  if sameBytes img.bytes colorPosition (colorBytes colorTransparent) g.bytesPerPixel then compared
  else (compared.read colorPosition g.bytesPerPixel).memcpy position
    (fun k => img.bytes (colorPosition + k)) g.bytesPerPixel

/-- `draw_image`, with its log. -/
def drawImageLogged (g : Geometry) (boardMem : AccessLog) (img : XpmImage) (x y : ℕ) :
    AccessLog :=
  forLoop 0 (min img.height (g.yResolution - y))
    (fun yImg =>
      forLoop 0 (min img.width (g.xResolution - x)) (drawImagePixelLogged g img x y yImg))
    boardMem

theorem mem_drawHlineLogged (g : Geometry) {s : AccessLog} {m : Memory} (h : s.mem = m)
    (x y len color : ℕ) :
    (drawHlineLogged g s x y len color).mem = drawHline g m x y len color := by
  refine forLoop_related (fun (s : AccessLog) m => s.mem = m) (fun i s m _ _ h => ?_) h
  rw [AccessLog.mem_memcpy, h]

/-- The log does not change what `draw_rectangle` draws. -/
theorem mem_drawRectangleLogged (g : Geometry) {s : AccessLog} {m : Memory} (h : s.mem = m)
    (x y width height color : ℕ) :
    (drawRectangleLogged g s x y width height color).mem =
      drawRectangle g m x y width height color := by
  unfold drawRectangleLogged drawRectangle
  split
  · refine forLoop_related (fun (s : AccessLog) m => s.mem = m) (fun i s m _ _ h => ?_) h
    exact mem_drawHlineLogged g h x (i % 65536) width color
  · exact h

/-- The log does not change what `draw_image` draws. -/
theorem mem_drawImageLogged (g : Geometry) {s : AccessLog} {m : Memory} (h : s.mem = m)
    (img : XpmImage) (x y : ℕ) : (drawImageLogged g s img x y).mem = drawImage g m img x y := by
  refine forLoop_related (fun (s : AccessLog) m => s.mem = m) (fun yImg s m _ _ h => ?_) h
  refine forLoop_related (fun (s : AccessLog) m => s.mem = m) (fun xImg s m _ _ h => ?_) h
  simp only [drawImagePixelLogged, drawImagePixel]
  split
  · exact h
  -- the two reads log, and change nothing
  · rw [AccessLog.mem_memcpy, AccessLog.mem_read, AccessLog.mem_read, h]

/-! ## Accesses -/

/-- `draw_hline` changes the bytes it records as written only. -/
theorem explains_drawHlineLogged (g : Geometry) {m : Memory} {s : AccessLog} (h : s.Explains m)
    (x y len color : ℕ) : (drawHlineLogged g s x y len color).Explains m :=
  forLoop_keeps (fun s : AccessLog => s.Explains m) (fun _ _ hs => hs.memcpy _ _ _) h

theorem explains_drawRectangleLogged (g : Geometry) {m : Memory} {s : AccessLog}
    (h : s.Explains m) (x y width height color : ℕ) :
    (drawRectangleLogged g s x y width height color).Explains m := by
  unfold drawRectangleLogged
  split
  · refine forLoop_keeps (fun s : AccessLog => s.Explains m) (fun i s hs => ?_) h
    exact explains_drawHlineLogged g hs x (i % 65536) width color
  · exact h

theorem explains_drawImageLogged (g : Geometry) {m : Memory} {s : AccessLog} (h : s.Explains m)
    (img : XpmImage) (x y : ℕ) : (drawImageLogged g s img x y).Explains m := by
  refine forLoop_keeps (fun s : AccessLog => s.Explains m) (fun yImg s hs => ?_) h
  refine forLoop_keeps (fun s : AccessLog => s.Explains m) (fun xImg s hs => ?_) hs
  simp only [drawImagePixelLogged]
  split
  · exact hs.read _ _
  · exact ((hs.read _ _).read _ _).memcpy _ _ _

/-- The address of an image pixel does not wrap around 32 bits. -/
theorem imageAddr_mod {width height size xImg yImg : ℕ}
    (hsource : width * height * size < 4294967296) (hx : xImg < width) (hy : yImg < height) :
    (yImg * width + xImg) * size % 4294967296 = cellAddr width size xImg yImg := by
  have hle : cellAddr width size xImg yImg + size ≤ width * height * size := cellAddr_add_le hx hy
  exact Nat.mod_eq_of_lt (lt_of_le_of_lt ((Nat.le_add_right _ size).trans hle) hsource)

section Accesses

variable {g : Geometry} (hfit : vramSize g < 4294967296) {source : ℕ}
include hfit

/-- A line on the screen is written to the frame buffer. -/
theorem within_drawHlineLogged {s : AccessLog} (h : s.Within source (vramSize g)) (x : ℕ) {y : ℕ}
    (hy : y < g.yResolution) (len color : ℕ) :
    (drawHlineLogged g s x y len color).Within source (vramSize g) := by
  rcases Nat.le_total (min (x + len) g.xResolution) x with hle | hle
  · rw [drawHlineLogged, forLoop_of_le hle]
    exact h
  · refine forLoop_invariant (fun _ (s : AccessLog) => s.Within source (vramSize g)) hle
      (fun i s _ hi hs => ?_) h
    have hx : i < g.xResolution := by omega
    -- each pixel of the line is on the screen
    apply hs.memcpy
    rw [pixelAddr_mod hfit hx hy]
    exact pixelAddr_add_le hx hy

/-- A rectangle is written to the frame buffer, also where it leaves the screen. -/
theorem within_drawRectangleLogged {s : AccessLog} (h : s.Within source (vramSize g))
    (x y width height color : ℕ) :
    (drawRectangleLogged g s x y width height color).Within source (vramSize g) := by
  unfold drawRectangleLogged
  split
  · rcases Nat.le_total (min (y + height) g.yResolution) y with hle | hle
    · rw [forLoop_of_le hle]
      exact h
    · refine forLoop_invariant (fun _ (s : AccessLog) => s.Within source (vramSize g)) hle
        (fun i s _ hi hs => ?_) h
      -- the row is below the screen height, so the conversion to `uint16_t` keeps it
      have hy : i % 65536 < g.yResolution := lt_of_le_of_lt (Nat.mod_le i 65536) (by omega)
      exact within_drawHlineLogged hfit hs x hy width color
  · exact h

/-- An image is read from its own bytes and written to the frame buffer. -/
theorem within_drawImageLogged {img : XpmImage} {x y : ℕ}
    (hsource : img.width * img.height * g.bytesPerPixel < 4294967296) {s : AccessLog}
    (h : s.Within (img.width * img.height * g.bytesPerPixel) (vramSize g)) :
    (drawImageLogged g s img x y).Within (img.width * img.height * g.bytesPerPixel)
      (vramSize g) := by
  refine forLoop_invariant (fun _ (s : AccessLog) => s.Within _ (vramSize g)) (Nat.zero_le _)
    (fun yImg s _ hyImg hs => ?_) h
  refine forLoop_invariant (fun _ (s : AccessLog) => s.Within _ (vramSize g)) (Nat.zero_le _)
    (fun xImg s _ hxImg hs => ?_) hs
  -- the loops stop at the edges of the image, so that the pixel is one of its own
  have hread : (yImg * img.width + xImg) * g.bytesPerPixel % 4294967296 + g.bytesPerPixel ≤
      img.width * img.height * g.bytesPerPixel := by
    rw [imageAddr_mod hsource (by omega) (by omega)]
    exact cellAddr_add_le (by omega) (by omega)
  -- and they stop at the edges of the screen
  have hwrite : ((y + yImg) * g.xResolution + x + xImg) * g.bytesPerPixel % 4294967296 +
      g.bytesPerPixel ≤ vramSize g := by
    rw [Nat.add_assoc ((y + yImg) * g.xResolution), pixelAddr_mod hfit (by omega) (by omega)]
    exact pixelAddr_add_le (by omega) (by omega)
  have hcompared := hs.read hread
  simp only [drawImagePixelLogged]
  split
  · exact hcompared
  · exact (hcompared.read hread).memcpy _ hwrite

end Accesses

/-! ## The pixels of an image -/

/-- The `memcmp` of `draw_image`: pixel `(xImg, yImg)` has the color that is not drawn. -/
def transparent (g : Geometry) (img : XpmImage) (xImg yImg : ℕ) : Bool :=
  sameBytes img.bytes (cellAddr img.width g.bytesPerPixel xImg yImg)
    (colorBytes colorTransparent) g.bytesPerPixel

section Image

variable {g : Geometry} (hfit : vramSize g < 4294967296) {img : XpmImage}
  (hsource : img.width * img.height * g.bytesPerPixel < 4294967296) {x y px py k : ℕ}
include hfit hsource

/-- One iteration copies one image pixel, unless it is transparent. -/
theorem drawImagePixel_pixel (m : Memory) {yImg xImg : ℕ} (hxImg : xImg < img.width)
    (hyImg : yImg < img.height) (hx : x + xImg < g.xResolution) (hy : y + yImg < g.yResolution)
    (hpx : px < g.xResolution) (hk : k < g.bytesPerPixel) :
    drawImagePixel g img x y yImg xImg m (pixelAddr g px py + k) =
      if (px = x + xImg ∧ py = y + yImg) ∧ transparent g img xImg yImg = false then
        img.bytes (cellAddr img.width g.bytesPerPixel xImg yImg + k)
      else m (pixelAddr g px py + k) := by
  simp only [drawImagePixel]
  rw [Nat.add_assoc ((y + yImg) * g.xResolution), pixelAddr_mod hfit hx hy,
    imageAddr_mod hsource hxImg hyImg]
  show (if transparent g img xImg yImg = true then m else _) _ = _
  cases htransparent : transparent g img xImg yImg with
  | true => simp
  | false =>
    rw [if_neg Bool.false_ne_true, memcpy_pixel _ _ hx hpx hk]
    exact if_congr (by simp) rfl rfl

/-- The inner loop copies the pixels of row `yImg`. -/
theorem drawImageRow_pixel (m : Memory) {yImg : ℕ} (hyImg : yImg < img.height)
    (hy : y + yImg < g.yResolution) (hpx : px < g.xResolution) (hk : k < g.bytesPerPixel) :
    forLoop 0 (min img.width (g.xResolution - x)) (drawImagePixel g img x y yImg) m
        (pixelAddr g px py + k) =
      if (py = y + yImg ∧ x ≤ px ∧ px < x + img.width) ∧
          transparent g img (px - x) yImg = false then
        img.bytes (cellAddr img.width g.bytesPerPixel (px - x) yImg + k)
      else m (pixelAddr g px py + k) := by
  refine Eq.trans (forLoop_invariant
    (fun xImg (m' : Memory) => m' (pixelAddr g px py + k) =
      if (py = y + yImg ∧ x ≤ px ∧ px < x + xImg) ∧
          transparent g img (px - x) yImg = false then
        img.bytes (cellAddr img.width g.bytesPerPixel (px - x) yImg + k)
      else m (pixelAddr g px py + k))
    (Nat.zero_le _) (fun xImg m' _ hxImg ih => ?_) (by rw [if_neg (by omega)])) ?_
  · rw [drawImagePixel_pixel hfit hsource m' (by omega) hyImg (by omega) hy hpx hk, ih]
    -- pixel `xImg` of the row, the pixels before it, and the others
    rcases Nat.lt_trichotomy px (x + xImg) with hlt | rfl | hgt
    · rw [if_neg (by omega)]
      exact if_congr (and_congr_left' (by omega)) rfl rfl
    · rw [Nat.add_sub_cancel_left]
      exact if_congr (and_congr_left' (by omega)) rfl (if_neg (by omega))
    · rw [if_neg (by omega)]
      exact if_congr (and_congr_left' (by omega)) rfl rfl
  · exact if_congr (and_congr_left' (by omega)) rfl rfl

/-- An image changes the pixels that it covers where it is not transparent, and no others. -/
theorem drawImage_pixel (m : Memory) (hpx : px < g.xResolution) (hpy : py < g.yResolution)
    (hk : k < g.bytesPerPixel) :
    drawImage g m img x y (pixelAddr g px py + k) =
      if (x ≤ px ∧ px < x + img.width ∧ y ≤ py ∧ py < y + img.height) ∧
          transparent g img (px - x) (py - y) = false then
        img.bytes (cellAddr img.width g.bytesPerPixel (px - x) (py - y) + k)
      else m (pixelAddr g px py + k) := by
  refine Eq.trans (forLoop_invariant
    (fun yImg (m' : Memory) => m' (pixelAddr g px py + k) =
      if (x ≤ px ∧ px < x + img.width ∧ y ≤ py ∧ py < y + yImg) ∧
          transparent g img (px - x) (py - y) = false then
        img.bytes (cellAddr img.width g.bytesPerPixel (px - x) (py - y) + k)
      else m (pixelAddr g px py + k))
    (Nat.zero_le _) (fun yImg m' _ hyImg ih => ?_) (by rw [if_neg (by omega)])) ?_
  · rw [drawImageRow_pixel hfit hsource m' (by omega) (by omega) hpx hk, ih]
    -- row `yImg`, the rows before it, and the others
    rcases Nat.lt_trichotomy py (y + yImg) with hlt | rfl | hgt
    · rw [if_neg (by omega)]
      exact if_congr (and_congr_left' (by omega)) rfl rfl
    · rw [Nat.add_sub_cancel_left]
      exact if_congr (and_congr_left' (by omega)) rfl (if_neg (by omega))
    · rw [if_neg (by omega)]
      exact if_congr (and_congr_left' (by omega)) rfl rfl
  · exact if_congr (and_congr_left' (by omega)) rfl rfl

end Image

/-! ## Exact drawing -/

/-- What `draw_image` does to the buffer `m` with an image of `size` bytes at `(x, y)`: it reads
within the image and writes within the frame buffer, and every pixel of the screen holds the
image pixel over it, unless there is none or it is transparent. -/
structure ImageDrawn (g : Geometry) (m : Memory) (img : XpmImage) (size x y : ℕ) : Prop where
  drawn : (drawImageLogged g (AccessLog.start m) img x y).mem = drawImage g m img x y
  explained : (drawImageLogged g (AccessLog.start m) img x y).Explains m
  within : (drawImageLogged g (AccessLog.start m) img x y).Within size (vramSize g)
  pixel : ∀ px < g.xResolution, ∀ py < g.yResolution, ∀ k < g.bytesPerPixel,
    drawImage g m img x y (pixelAddr g px py + k) =
      if (x ≤ px ∧ px < x + img.width ∧ y ≤ py ∧ py < y + img.height) ∧
          transparent g img (px - x) (py - y) = false then
        img.bytes (cellAddr img.width g.bytesPerPixel (px - x) (py - y) + k)
      else m (pixelAddr g px py + k)

/-- An image leaves the memory behind the frame buffer alone. -/
theorem ImageDrawn.outside {g : Geometry} {m : Memory} {img : XpmImage} {size x y a : ℕ}
    (h : ImageDrawn g m img size x y) (ha : vramSize g ≤ a) : drawImage g m img x y a = m a := by
  rw [← h.drawn]
  exact h.explained.outside h.within ha

/-- What `draw_rectangle` does to the buffer `m`: it writes within the frame buffer, every pixel
of the screen in the rectangle holds the color and the others are unchanged if the corner lies in
a square of the board, and the buffer is unchanged otherwise. -/
structure RectangleDrawn (g : Geometry) (m : Memory) (x y width height color : ℕ) : Prop where
  drawn : (drawRectangleLogged g (AccessLog.start m) x y width height color).mem =
    drawRectangle g m x y width height color
  explained : (drawRectangleLogged g (AccessLog.start m) x y width height color).Explains m
  within : (drawRectangleLogged g (AccessLog.start m) x y width height color).Within 0 (vramSize g)
  pixel : 0 ≤ getBoardX g x ∧ getBoardX g x ≤ 7 ∧ 0 ≤ getBoardY g y ∧ getBoardY g y ≤ 7 →
    ∀ px < g.xResolution, ∀ py < g.yResolution, ∀ k < g.bytesPerPixel,
      drawRectangle g m x y width height color (pixelAddr g px py + k) =
        if x ≤ px ∧ px < x + width ∧ y ≤ py ∧ py < y + height then colorBytes color k
        else m (pixelAddr g px py + k)
  gated : ¬ (0 ≤ getBoardX g x ∧ getBoardX g x ≤ 7 ∧ 0 ≤ getBoardY g y ∧ getBoardY g y ≤ 7) →
    drawRectangle g m x y width height color = m

/-- **Images are drawn exactly and clipped**: for every frame buffer below 2 GiB and every image
whose `size` bytes are those of its pixels. -/
theorem drawImage_exact {g : Geometry}
    (hfit : g.xResolution * g.yResolution * g.bytesPerPixel < 2147483648) (m : Memory)
    (img : XpmImage) (size : UInt32)
    (hsize : size.toNat = img.width * img.height * g.bytesPerPixel) (x y : UInt16) :
    ImageDrawn g m img size.toNat x.toNat y.toNat := by
  have hvram : vramSize g < 4294967296 := lt_trans hfit (by decide)
  have hsource : img.width * img.height * g.bytesPerPixel < 4294967296 := by
    rw [← hsize]
    exact size.toNat_lt
  refine ⟨mem_drawImageLogged g rfl img _ _,
    explains_drawImageLogged g (explains_start m) img _ _, ?_, fun px hpx py hpy k hk => ?_⟩
  · rw [hsize]
    exact within_drawImageLogged hvram hsource (within_start m)
  · exact drawImage_pixel hvram hsource m hpx hpy hk

/-- A dot on an otherwise transparent image, at the lower right corner of mode `0x115`. -/
theorem drawImage_exact_corner :
    (mode115.xResolution * mode115.yResolution * mode115.bytesPerPixel < 2147483648 ∧
      (12 : UInt32).toNat = 2 * 2 * mode115.bytesPerPixel) ∧
      ImageDrawn mode115 (fun _ => 0)
        ⟨2, 2, fun a => if a < 3 then 0xff else colorBytes colorTransparent (a % 3)⟩ 12 799 599 :=
  ⟨⟨by decide, by decide⟩, drawImage_exact (by decide) _ ⟨2, 2, _⟩ 12 (by decide) 799 599⟩

/-- **Rectangles are drawn exactly, clipped, and on the board only**: for every frame buffer below
2 GiB and every board geometry. -/
theorem drawRectangle_exact {g : Geometry}
    (hfit : g.xResolution * g.yResolution * g.bytesPerPixel < 2147483648)
    (hres : g.yResolution < 65536) (m : Memory) (x y width height : UInt16) (color : UInt32) :
    RectangleDrawn g m x.toNat y.toNat width.toNat height.toNat color.toNat := by
  have hvram : vramSize g < 4294967296 := lt_trans hfit (by decide)
  refine ⟨mem_drawRectangleLogged g rfl _ _ _ _ _,
    explains_drawRectangleLogged g (explains_start m) _ _ _ _ _,
    within_drawRectangleLogged hvram (within_start m) _ _ _ _ _, ?_, fun hgate => ?_⟩
  · intro hgate px hpx py hpy k hk
    exact drawRectangle_pixel hvram hres.le m _ _ _ hgate hpx hpy hk
  · rw [drawRectangle, if_neg hgate]

/-- A square that starts in the last square of the board of mode `0x115`. -/
theorem drawRectangle_exact_corner :
    (mode115.xResolution * mode115.yResolution * mode115.bytesPerPixel < 2147483648 ∧
      mode115.yResolution < 65536) ∧
      RectangleDrawn mode115 (fun _ => 0) 500 500 400 400 0xff00 :=
  ⟨⟨by decide, by decide⟩,
    drawRectangle_exact (by decide) (by decide) _ 500 500 400 400 0xff00⟩

end LCChess

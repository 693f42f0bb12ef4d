import LCChess.Play.Drag
import LCChess.Video.Drawing

/-!
# The dragged piece and the cursor

The position of a dragged piece is the cursor less 29 pixels, cut to sixteen bits. So its picture
is centred on the cursor and clipped at the right and at the lower edge; nearer than 29 pixels to
one of the other two edges the position wraps around, and the picture is not drawn at all.

## Main definitions

* `Piece.Covers d piece px py`: the pixels that `drawPieces` draws for a piece
* `nextFrame d vm`: what `drawBoardPieces` of the next frame draws
* `Centred`: the picture of a piece around a pixel, clipped at the edges of the screen
* `StaysUnderCursor d type cx cy`: the picture is centred on the cursor, in every drag

## Main results

* `drawPriority_last`: the last piece over a pixel shows there
* `staysUnderCursor_iff`: the cursor positions under which the picture stays
-/

namespace LCChess

open Loop (forLoop)
open Memory (cellAddr)
open Transition (run run_cons run_nil run_invariant_along)

/-! ## The pixels of the pieces -/

/-- `drawPieces` draws pixel `(px, py)` for the piece. -/
def Piece.Covers (d : Display) (piece : Piece) (px py : ℕ) : Prop :=
  (piece.absoluteX.toNat ≤ px ∧ px < piece.absoluteX.toNat + (d.pieceImage piece.type).width ∧
    piece.absoluteY.toNat ≤ py ∧ py < piece.absoluteY.toNat + (d.pieceImage piece.type).height) ∧
  transparent d.toGeometry (d.pieceImage piece.type) (px - piece.absoluteX.toNat)
    (py - piece.absoluteY.toNat) = false

section Pixels

variable {d : Display} (hfit : vramSize d.toGeometry < 4294967296)
  (hsize : ∀ t, (d.pieceImage t).width * (d.pieceImage t).height * d.bytesPerPixel < 4294967296)
  {cells : ℤ → Option PieceRef} {heap : Heap} {piece : Piece} {px py k : ℕ}
  (hpx : px < d.xResolution) (hpy : py < d.yResolution) (hk : k < d.bytesPerPixel)
include hfit hsize hpx hpy hk

/-- A piece shows its picture on the pixels that it covers. -/
theorem drawPieces_of_covers (h : piece.Covers d px py) (mem : Memory) :
    drawPieces d mem piece (pixelAddr d.toGeometry px py + k) =
      (d.pieceImage piece.type).bytes (cellAddr (d.pieceImage piece.type).width d.bytesPerPixel
        (px - piece.absoluteX.toNat) (py - piece.absoluteY.toNat) + k) := by
  rw [drawPieces, drawImage_pixel hfit (hsize _) mem hpx hpy hk]
  exact if_pos h

theorem drawPieces_of_not_covers (h : ¬ piece.Covers d px py) (mem : Memory) :
    drawPieces d mem piece (pixelAddr d.toGeometry px py + k) =
      mem (pixelAddr d.toGeometry px py + k) := by
  rw [drawPieces, drawImage_pixel hfit (hsize _) mem hpx hpy hk]
  exact if_neg h

/-- A pixel that no piece covers is left alone. -/
theorem drawPriority_of_not_covers
    (h : ∀ i p, IsCell i → cells i = some p → ¬ (heap p).Covers d px py) (priority : Bool)
    (mem : Memory) : drawPriority d cells heap priority mem (pixelAddr d.toGeometry px py + k) =
      mem (pixelAddr d.toGeometry px py + k) := by
  rw [drawPriority_eq]
  refine eachPiece_keeps (fun m : Memory => m (pixelAddr d.toGeometry px py + k) =
    mem (pixelAddr d.toGeometry px py + k)) (fun i p m hi hi' hp hm => ?_) rfl
  split
  · rw [drawPieces_of_not_covers hfit hsize hpx hpy hk (h i p ⟨hi, hi'⟩ hp), hm]
  · exact hm

/-- **The last piece over a pixel shows there.** -/
theorem drawPriority_last {i : ℤ} (hi : IsCell i) {p : PieceRef} (hp : cells i = some p)
    {priority : Bool} (hpriority : (heap p).priorityDraw = priority)
    (hcovers : (heap p).Covers d px py)
    (hlast : ∀ j q, IsCell j → i < j → cells j = some q → (heap q).priorityDraw = priority →
      ¬ (heap q).Covers d px py) (mem : Memory) :
    drawPriority d cells heap priority mem (pixelAddr d.toGeometry px py + k) =
      (d.pieceImage (heap p).type).bytes (cellAddr (d.pieceImage (heap p).type).width
        d.bytesPerPixel (px - (heap p).absoluteX.toNat) (py - (heap p).absoluteY.toNat) + k) := by
  rw [drawPriority_eq]
  refine eachPiece_reaches (fun _ => True) (fun m : Memory =>
    m (pixelAddr d.toGeometry px py + k) = _) hi hp (fun _ _ _ _ _ _ _ => trivial)
    (fun m _ => ?_) (fun j q m hj hj' hq hm => ?_) trivial
  · rw [if_pos hpriority]
    exact drawPieces_of_covers hfit hsize hpx hpy hk hcovers m
  -- the pieces drawn later miss the pixel
  · split
    · rename_i hq'
      have hmiss := hlast j q ⟨by have := hi.1; omega, hj'⟩ hj hq hq'
      rw [drawPieces_of_not_covers hfit hsize hpx hpy hk hmiss, hm]
    · exact hm

end Pixels

/-! ## The next frame -/

/-- The heap and the `video_mem_buffer` behind `drawBoardPieces` of the next frame. -/
def nextFrame (d : Display) (vm : Vm) : Heap × Memory :=
  let (heap, redrawPieces) := updateBoard vm.board.board vm.animation (vm.heap, vm.redrawPieces)
  (heap, (drawBoardPieces d vm.board heap redrawPieces vm.videoMemBuffer).2)

/-- A piece that is drawn with priority and is not in motion is at the point `(x, y)`. -/
def Piece.HeldAt (piece : Piece) (x y : UInt16) : Prop :=
  piece.priorityDraw = true → piece.isMoving = false → piece.absoluteX = x ∧ piece.absoluteY = y

theorem Piece.HeldAt.updated {piece : Piece} {x y : UInt16} (h : piece.HeldAt x y)
    (animation : Bool) : (piece.updated animation).HeldAt x y := by
  intro hpriority hrest
  rcases piece.updated_cases animation with ⟨-, heq, -⟩ | ⟨-, -, heq, -⟩ | ⟨hmoving, -, -, heq, -⟩
  · rw [heq] at hpriority hrest ⊢
    exact h hpriority hrest
  -- the end of a motion takes the priority away
  · rw [heq] at hpriority
    exact absurd hpriority Bool.false_ne_true
  · rw [heq] at hrest
    exact absurd (hmoving.symm.trans hrest) (by decide)

/-- A frame does not move a held piece. -/
theorem heldAt_nextFrame (d : Display) {vm : Vm} {p : PieceRef} {x y : UInt16}
    (h : (vm.heap p).HeldAt x y) : ((nextFrame d vm).1 p).HeldAt x y := by
  refine eachPiece_keeps (fun s : Heap × Bool => (s.1 p).HeldAt x y)
    (fun i q s _ _ _ hs => ?_) h
  rcases eq_or_ne p q with rfl | hne
  · rw [(updateCell_self vm.animation p s).1]
    exact hs.updated vm.animation
  · rwa [updateCell_of_ne vm.animation hne]

/-- Where no piece is drawn, a frame shows `mem_board` or `mem_pieces`. -/
theorem nextFrame_of_not_covers {d : Display} (hfit : vramSize d.toGeometry < 4294967296)
    (hsize : ∀ t, (d.pieceImage t).width * (d.pieceImage t).height * d.bytesPerPixel < 4294967296)
    {vm : Vm} {px py k : ℕ} (hpx : px < d.xResolution) (hpy : py < d.yResolution)
    (hk : k < d.bytesPerPixel)
    (h : ∀ i p, IsCell i → vm.board.board i = some p → ¬ ((nextFrame d vm).1 p).Covers d px py) :
    (nextFrame d vm).2 (pixelAddr d.toGeometry px py + k) =
        vm.board.memBoard (pixelAddr d.toGeometry px py + k) ∨
      (nextFrame d vm).2 (pixelAddr d.toGeometry px py + k) =
        vm.board.memPieces (pixelAddr d.toGeometry px py + k) := by
  have hin := pixelAddr_add_le (g := d.toGeometry) hpx hpy
  have hlt : pixelAddr d.toGeometry px py + k < vramSize d.toGeometry := by omega
  unfold nextFrame drawBoardPieces at h ⊢
  dsimp only at h ⊢
  rw [drawPriority_of_not_covers hfit hsize hpx hpy hk h, copyBuffers_of_lt _ _ _ hlt]
  split
  · left
    rw [drawPriority_of_not_covers hfit hsize hpx hpy hk h, copyBuffers_of_lt _ _ _ hlt]
  · exact .inr rfl

/-! ## The drag -/

section Drag

variable {d : Display} {vm : Vm} {p : PieceRef} {x y : UInt16}

/-- A `MOUSE` event of a drag leaves the piece at the cursor, less 29 pixels; a release takes its
priority away, or sends it off. -/
theorem heldAt_playingMouse (hdrag : vm.draggingPiece = some p) :
    (playingMouse d vm).boardCreated = vm.boardCreated ∧
      ((playingMouse d vm).heap p).HeldAt (UInt16.ofInt (vm.cursor.x.toNat - 29))
        (UInt16.ofInt (vm.cursor.y.toNat - 29)) := by
  cases hreleased : vm.cursor.released with
  | false =>
    have hpiece : (follow vm p).heap p = setPiecePosition (vm.heap p) (vm.cursor.x.toNat - 29)
      (vm.cursor.y.toNat - 29) := Function.update_self ..
    rw [playingMouse_follow hdrag hreleased, hpiece]
    exact ⟨rfl, fun _ _ => ⟨rfl, rfl⟩⟩
  | true =>
    rw [playingMouse_release hdrag hreleased]
    refine ⟨(release_repaints d (follow vm p) p).2.1, fun hpriority hrest => ?_⟩
    by_cases hdrops : ∃ x y, Drops d (follow vm p) p x y
    · obtain ⟨x, y, hdrops⟩ := hdrops
      rw [release_move hdrops] at hrest
      dsimp only at hrest
      rw [Function.update_self] at hrest
      exact absurd hrest (by simp [movePiece])
    · rw [release_putBack fun x y hxy => hdrops ⟨x, y, hxy⟩] at hpriority
      dsimp only at hpriority
      rw [Function.update_self] at hpriority
      exact absurd hpriority Bool.false_ne_true

/-- The piece `p` of a game that has begun is held at `(x, y)`. -/
structure Held (vm : Vm) (p : PieceRef) (x y : UInt16) : Prop where
  begun : Begun vm
  created : vm.boardCreated = true
  heldAt : (vm.heap p).HeldAt x y

/-- An input that neither moves the mouse nor draws a frame. -/
def Passes : Action ⊕ UInt8 → Prop
  | .inl (.event _ (.keyboard _)) => True
  | .inl (.event _ _) => False
  | _ => True

/-- Such an input leaves the pieces alone. -/
theorem Held.stepInput {s : Instance} (h : Held s.vm p x y) {i : Action ⊕ UInt8} (hi : Passes i) :
    Held (s.stepInput d i).vm p x y := by
  rcases s.stepInput_cases d i with ⟨arrivals, event, vm', rfl, -, hev, hstep⟩ |
    ⟨transmit, receive, line, hstep, -, -⟩
  · have hbegun := begun_event h.begun hev
    rw [hstep]
    cases event with
    | newFrame => exact hi.elim
    | mouse packet => exact hi.elim
    | keyboard scanCode =>
      rcases h.begun with hplay | hexit
      · obtain rfl := Option.some.inj ((handleEvent_keyboard hplay scanCode).symm.trans hev)
        obtain ⟨gameState, won, hleave⟩ := leaveGame_frame s.vm
        rw [ensureBoard_of_created h.created] at hbegun ⊢
        refine ⟨hbegun, ?_, ?_⟩
        · unfold playingKeyboard
          rw [hleave]
          split_ifs <;> exact h.created
        · unfold playingKeyboard
          rw [hleave]
          split_ifs <;> exact h.heldAt
      · obtain rfl := Option.some.inj ((handleEvent_over hexit).symm.trans hev)
        exact h
  · rw [hstep]
    exact ⟨h.begun, h.created, h.heldAt⟩

/-- The `MOUSE` event with `packet` brings the cursor to `(cx, cy)` while the piece `p` is being
dragged. -/
structure DragsTo (d : Display) (s : Instance) (packet : Packet) (p : PieceRef)
    (cx cy : UInt16) : Prop where
  alive : s.crashed = false
  playing : s.vm.gameState = .playing
  dragging : s.vm.draggingPiece = some p
  column : (updateCursor d.toGeometry packet s.vm.cursor).x = cx
  row : (updateCursor d.toGeometry packet s.vm.cursor).y = cy

/-- The instance behind a `MOUSE` event and inputs that pass, before the next frame. -/
def dragged (d : Display) (s : Instance) (arrivals : ℕ) (packet : Packet)
    (between : List (Action ⊕ UInt8)) : Instance :=
  run (Instance.stepInput d) s (.inl (.event arrivals (.mouse packet)) :: between)

/-- **From the `MOUSE` event to the next frame**, the piece is held at the cursor. -/
theorem DragsTo.held {s : Instance} {packet : Packet} {cx cy : UInt16}
    (h : DragsTo d s packet p cx cy) (arrivals : ℕ) {between : List (Action ⊕ UInt8)}
    (hbetween : ∀ i ∈ between, Passes i) :
    Held (dragged d s arrivals packet between).vm p (UInt16.ofInt (cx.toNat - 29))
      (UInt16.ofInt (cy.toNat - 29)) := by
  obtain ⟨hdrag, -, hcursor⟩ := entered_frame d s.vm packet
  have hevent : handleEvent d arrivals (.mouse packet) s.vm =
      some (playingMouse d (entered d s.vm packet)) := handleEvent_mouse h.playing packet
  have hstart : Held (playingMouse d (entered d s.vm packet)) p (UInt16.ofInt (cx.toNat - 29))
      (UInt16.ofInt (cy.toNat - 29)) := by
    obtain ⟨hcreated, hheld⟩ := heldAt_playingMouse (d := d) (hdrag.trans h.dragging)
    rw [hcursor, h.column, h.row] at hheld
    exact ⟨begun_event (.inl h.playing) hevent, hcreated.trans (boardCreated_entered packet), hheld⟩
  have hmouse : s.stepInput d (.inl (.event arrivals (.mouse packet))) =
      { s with vm := playingMouse d (entered d s.vm packet) } := Instance.step_event h.alive hevent
  rw [dragged, run_cons, hmouse]
  exact run_invariant_along (fun s : Instance => Held s.vm p _ _) (fun _ i => Passes i)
    (fun _ _ hs hi => hs.stepInput hi) hstart (.of_mem hbetween)

end Drag

/-! ## The picture under the cursor -/

/-- Pixel `(i, j)` of the image, centred on `(cx, cy)`, lies over pixel `(px, py)` of the screen,
and is not transparent. -/
structure Over (g : Geometry) (img : XpmImage) (cx cy px py i j : ℕ) : Prop where
  onScreen : px < g.xResolution ∧ py < g.yResolution
  inImage : i < img.width ∧ j < img.height
  solid : transparent g img i j = false
  column : (i : ℤ) = px - cx + 29
  row : (j : ℤ) = py - cy + 29

/-- A pixel of the image, centred on `(cx, cy)`, is on the screen. -/
def Visible (g : Geometry) (img : XpmImage) (cx cy : ℕ) : Prop :=
  ∃ px py i j, Over g img cx cy px py i j

/-- The buffer shows the image, centred on `(cx, cy)`, on the screen, but for the pixels that are
`covered`. -/
def Centred (g : Geometry) (mem : Memory) (img : XpmImage) (cx cy : ℕ)
    (covered : ℕ → ℕ → Prop) : Prop :=
  ∀ px py i j, Over g img cx cy px py i j → ¬ covered px py → ∀ k < g.bytesPerPixel,
    mem (pixelAddr g px py + k) = img.bytes (cellAddr img.width g.bytesPerPixel i j + k)

/-- A piece in a later cell than `i` is drawn with priority over the pixel. -/
def CoveredBehind (d : Display) (cells : ℤ → Option PieceRef) (heap : Heap) (i : ℤ)
    (px py : ℕ) : Prop :=
  ∃ j q, IsCell j ∧ i < j ∧ cells j = some q ∧ (heap q).priorityDraw = true ∧
    (heap q).Covers d px py

/-- In the next frame, if it draws the piece `p` with priority and not in motion, its picture is
centred on `(cx, cy)`. -/
def ShowsDragged (d : Display) (vm : Vm) (p : PieceRef) (cx cy : UInt16) : Prop :=
  ∀ i, IsCell i → vm.board.board i = some p → ((nextFrame d vm).1 p).priorityDraw = true →
    ((nextFrame d vm).1 p).isMoving = false →
    Centred d.toGeometry (nextFrame d vm).2 (d.pieceImage ((nextFrame d vm).1 p).type) cx.toNat
      cy.toNat (CoveredBehind d vm.board.board (nextFrame d vm).1 i)

/-- In every drag, the `MOUSE` event that brings the cursor to `(cx, cy)` brings the picture of a
piece of the type `type` there, in the next frame. -/
def StaysUnderCursor (d : Display) (type : PieceType) (cx cy : UInt16) : Prop :=
  ∀ (s : Instance) (arrivals : ℕ) (packet : Packet) (p : PieceRef)
    (between : List (Action ⊕ UInt8)), DragsTo d s packet p cx cy → (∀ i ∈ between, Passes i) →
    let vm := ensureBoard d (dragged d s arrivals packet between).vm
    ((nextFrame d vm).1 p).type = type → ShowsDragged d vm p cx cy

/-- The position of a dragged piece: it wraps around 16 bits within 29 pixels of the edge. -/
theorem toNat_ofInt_sub (c : UInt16) : ((UInt16.ofInt (c.toNat - 29)).toNat : ℤ) =
    if 29 ≤ c.toNat then (c.toNat : ℤ) - 29 else c.toNat + 65507 := by
  have hc := c.toNat_lt
  simp only [UInt16.ofInt, UInt16.toNat_ofNat']
  split <;> omega

section Shows

variable {d : Display} (hfit : vramSize d.toGeometry < 4294967296)
  (hsize : ∀ t, (d.pieceImage t).width * (d.pieceImage t).height * d.bytesPerPixel < 4294967296)
  {vm : Vm} {p : PieceRef} {cx cy : UInt16}
include hfit hsize

/-- **A piece held at the cursor is shown there**, if the cursor is not near the left or the
upper edge. -/
theorem showsDragged_of_heldAt (hcx : 29 ≤ cx.toNat) (hcy : 29 ≤ cy.toNat)
    (h : (vm.heap p).HeldAt (UInt16.ofInt (cx.toNat - 29)) (UInt16.ofInt (cy.toNat - 29))) :
    ShowsDragged d vm p cx cy := by
  intro i hi hp hpriority hrest px py ix iy hover hclear k hk
  obtain ⟨⟨hpx, hpy⟩, ⟨hix, hiy⟩, hsolid, hcolumn, hrow⟩ := hover
  obtain ⟨hx, hy⟩ := heldAt_nextFrame d h hpriority hrest
  have habsX := toNat_ofInt_sub cx
  have habsY := toNat_ofInt_sub cy
  rw [← hx, if_pos hcx] at habsX
  rw [← hy, if_pos hcy] at habsY
  -- the pixel of the image is the one that the piece draws here
  obtain rfl : px - ((nextFrame d vm).1 p).absoluteX.toNat = ix := by omega
  obtain rfl : py - ((nextFrame d vm).1 p).absoluteY.toNat = iy := by omega
  have hcovers : ((nextFrame d vm).1 p).Covers d px py :=
    ⟨⟨by omega, by omega, by omega, by omega⟩, hsolid⟩
  refine drawPriority_last hfit hsize hpx hpy hk hi hp hpriority hcovers
    (fun j q hj hlt hq hq' hcovers' => ?_) _
  exact hclear ⟨j, q, hj, hlt, hq, hq', hcovers'⟩

end Shows

/-! ## Near the edges -/

/-- A piece behind a pixel, in a row or in a column, does not cover it. -/
theorem Piece.not_covers {d : Display} {piece : Piece} {px py : ℕ}
    (h : px < piece.absoluteX.toNat ∨ py < piece.absoluteY.toNat) : ¬ piece.Covers d px py := by
  rintro ⟨⟨hx, -, hy, -⟩, -⟩
  omega

/-- Within 29 pixels of the left or of the upper edge, the position of the piece is off the
screen. -/
theorem wraps_of_near {cx cy : UInt16} (h : ¬ (29 ≤ cx.toNat ∧ 29 ≤ cy.toNat)) :
    65507 ≤ (UInt16.ofInt (cx.toNat - 29)).toNat ∨
      65507 ≤ (UInt16.ofInt (cy.toNat - 29)).toNat := by
  have hx := toNat_ofInt_sub cx
  have hy := toNat_ofInt_sub cy
  split_ifs at hx hy <;> omega

section Misses

variable {d : Display} (hfit : vramSize d.toGeometry < 4294967296)
  (hsize : ∀ t, (d.pieceImage t).width * (d.pieceImage t).height * d.bytesPerPixel < 4294967296)
  {vm : Vm} {p : PieceRef} {cx cy : UInt16}

/-- A frame does not move a piece at rest. -/
theorem nextFrame_of_rest (d : Display) {q : PieceRef} (h : (vm.heap q).isMoving = false) :
    ∃ change, (nextFrame d vm).1 q = { vm.heap q with change := change } := by
  refine eachPiece_keeps (fun s : Heap × Bool => ∃ change, s.1 q = { vm.heap q with
    change := change }) (fun i r s _ _ _ hs => ?_) ⟨_, rfl⟩
  rcases eq_or_ne q r with rfl | hne
  · obtain ⟨change, hq⟩ := hs
    refine ⟨false, ?_⟩
    rw [(updateCell_self vm.animation q s).1, hq]
    simp only [Piece.updated, h, Bool.false_eq_true, if_false]
  · rwa [updateCell_of_ne vm.animation hne]

include hfit hsize

/-- A frame in which no piece covers a pixel of the picture does not show it, unless the buffers
do. -/
theorem not_showsDragged {i : ℤ} (hi : IsCell i) (hp : vm.board.board i = some p)
    (hpriority : (vm.heap p).priorityDraw = true) {px py ix iy k : ℕ}
    (hmiss : ∀ j q, IsCell j → vm.board.board j = some q → (vm.heap q).isMoving = false ∧
      ¬ (vm.heap q).Covers d px py)
    (hover : Over d.toGeometry (d.pieceImage (vm.heap p).type) cx.toNat cy.toNat px py ix iy)
    (hk : k < d.bytesPerPixel)
    (hboard : vm.board.memBoard (pixelAddr d.toGeometry px py + k) ≠
      (d.pieceImage (vm.heap p).type).bytes
        (cellAddr (d.pieceImage (vm.heap p).type).width d.bytesPerPixel ix iy + k))
    (hpieces : vm.board.memPieces (pixelAddr d.toGeometry px py + k) ≠
      (d.pieceImage (vm.heap p).type).bytes
        (cellAddr (d.pieceImage (vm.heap p).type).width d.bytesPerPixel ix iy + k)) :
    ¬ ShowsDragged d vm p cx cy := by
  intro hshows
  have hmiss' : ∀ j q, IsCell j → vm.board.board j = some q →
      ¬ ((nextFrame d vm).1 q).Covers d px py := by
    intro j q hj hq
    obtain ⟨hrest, hclear⟩ := hmiss j q hj hq
    obtain ⟨change, heq⟩ := nextFrame_of_rest d hrest
    rw [heq]
    exact hclear
  obtain ⟨change, heq⟩ := nextFrame_of_rest d (hmiss i p hi hp).1
  have hshown := hshows i hi hp (by rw [heq]; exact hpriority)
    (by rw [heq]; exact (hmiss i p hi hp).1)
  rw [heq] at hshown
  have hpixel := hshown px py ix iy hover
    (fun ⟨j, q, hj, _, hq, _, hcovers⟩ => hmiss' j q hj hq hcovers) k hk
  rcases nextFrame_of_not_covers hfit hsize hover.onScreen.1 hover.onScreen.2 hk hmiss' with h | h
  · exact hboard (h.symm.trans hpixel)
  · exact hpieces (h.symm.trans hpixel)

end Misses

/-- A `MOUSE` event of a drag with the button down, in a game that goes on. -/
theorem DragsTo.dragged_nil {d : Display} {s : Instance} {packet : Packet} {p : PieceRef}
    {cx cy : UInt16} (h : DragsTo d s packet p cx cy) (hcreated : s.vm.boardCreated = true)
    (hgoing : s.vm.endGame = false) (hheld : packet.lb = true) (arrivals : ℕ) :
    let vm := (dragged d s arrivals packet []).vm
    vm.boardCreated = true ∧ vm.board = s.vm.board ∧ vm.heap = Function.update s.vm.heap p
      (setPiecePosition (s.vm.heap p) (cx.toNat - 29) (cy.toNat - 29)) := by
  have hevent : handleEvent d arrivals (.mouse packet) s.vm = some _ :=
    handleEvent_follow h.playing hcreated hgoing h.dragging hheld
  have hstep : dragged d s arrivals packet [] = { s with vm := follow { s.vm with
      cursor := updateCursor d.toGeometry packet s.vm.cursor } p } :=
    Instance.step_event h.alive hevent
  rw [hstep]
  refine ⟨hcreated, rfl, ?_⟩
  rw [← h.column, ← h.row]
  rfl

/-! ## Mode `0x115` -/

/-- A packet with the left button down that does not move the mouse. -/
def holdStill : Packet := ⟨true, false, false, false, false, 0, 0⟩

/-- A packet that does not move the mouse leaves a cursor on the screen where it is. -/
theorem updateCursor_holdStill (packet : Packet) (cursor : Cursor) {cx cy : UInt16}
    (hx : (updateCursor mode115 packet cursor).x = cx)
    (hy : (updateCursor mode115 packet cursor).y = cy) :
    (updateCursor mode115 holdStill ⟨cx, cy, true, false⟩).x = cx ∧
      (updateCursor mode115 holdStill ⟨cx, cy, true, false⟩).y = cy := by
  have hclampX := x_updateCursor (g := mode115) packet cursor (by decide) (by decide)
  have hclampY := y_updateCursor (g := mode115) packet cursor (by decide) (by decide)
  have hcx : (cx.toNat : ℤ) ≤ mode115.xResolution - 12 := by
    rw [← hx, hclampX]
    exact (clampTo_mem (by decide) _).2
  have hcy : (cy.toNat : ℤ) ≤ mode115.yResolution - 20 := by
    rw [← hy, hclampY]
    exact (clampTo_mem (by decide) _).2
  have hstillX := x_updateCursor (g := mode115) holdStill ⟨cx, cy, true, false⟩ (by decide)
    (by decide)
  have hstillY := y_updateCursor (g := mode115) holdStill ⟨cx, cy, true, false⟩ (by decide)
    (by decide)
  have hdelta : holdStill.deltaX.toInt = 0 ∧ holdStill.deltaY.toInt = 0 := ⟨rfl, rfl⟩
  rw [hdelta.1, add_zero, clampTo_of_mem (Int.natCast_nonneg _) hcx] at hstillX
  rw [hdelta.2, sub_zero, clampTo_of_mem (Int.natCast_nonneg _) hcy] at hstillY
  exact ⟨UInt16.toNat_inj.mp (Int.natCast_inj.mp hstillX),
    UInt16.toNat_inj.mp (Int.natCast_inj.mp hstillY)⟩

/-- A drag at `(cx, cy)` of a piece that stands alone on a board all of whose bytes are `fill`. -/
def loneDrag (type : PieceType) (fill : UInt8) (cx cy : UInt16) : Instance where
  vm := { Vm.initialGame .white with
    cursor := ⟨cx, cy, true, false⟩
    boardCreated := true
    board := ⟨fun _ => fill, fun _ => fill, fun i => if i = 0 then some 0 else none⟩
    heap := fun _ => ⟨0, 0, 0, 0, type, false, true, true, false⟩
    draggingPiece := some 0 }
  crashed := false

/-- A piece image of 58 by 58 pixels, all of them orange. -/
def solidImage : XpmImage := ⟨58, 58, fun a => colorBytes orange (a % 3)⟩

/-- Mode `0x115`, with that image for every piece. -/
def solidDisplay : Display :=
  Display.mode115 { Images.blank with pieceImage := fun _ => solidImage }

theorem solidDisplay_size (t : PieceType) : (solidDisplay.pieceImage t).width *
    (solidDisplay.pieceImage t).height * 3 < 4294967296 := by
  show solidImage.width * solidImage.height * 3 < 4294967296
  decide

section Mode

variable {images : Images}
  (hsize : ∀ t, (images.pieceImage t).width * (images.pieceImage t).height * 3 < 4294967296)
include hsize

/-- Near the left or the upper edge, a picture that is visible is not always shown. -/
theorem not_staysUnderCursor {type : PieceType} {cx cy : UInt16}
    (hx : (updateCursor mode115 holdStill ⟨cx, cy, true, false⟩).x = cx)
    (hy : (updateCursor mode115 holdStill ⟨cx, cy, true, false⟩).y = cy)
    (hnear : ¬ (29 ≤ cx.toNat ∧ 29 ≤ cy.toNat))
    (hvisible : Visible mode115 (images.pieceImage type) cx.toNat cy.toNat) :
    ¬ StaysUnderCursor (Display.mode115 images) type cx cy := by
  intro hstays
  obtain ⟨px, py, ix, iy, hover⟩ := hvisible
  -- a background that differs from the picture in the pixel
  obtain ⟨fill, hfill⟩ : ∃ fill : UInt8, fill ≠ (images.pieceImage type).bytes
      (cellAddr (images.pieceImage type).width 3 ix iy + 0) :=
    have : Nontrivial UInt8 := ⟨0, 1, by decide⟩
    exists_ne _
  have hdrags : DragsTo (Display.mode115 images) (loneDrag type fill cx cy) holdStill 0 cx cy :=
    ⟨rfl, rfl, rfl, hx, hy⟩
  have hshows := hstays (loneDrag type fill cx cy) 0 holdStill 0 [] hdrags
    (fun i hi => absurd hi List.not_mem_nil)
  obtain ⟨hcreated, hboard, hheap⟩ := hdrags.dragged_nil rfl rfl rfl 0
  dsimp only at hshows
  generalize (dragged (Display.mode115 images) (loneDrag type fill cx cy) 0 holdStill []).vm = vm
    at hshows hcreated hboard hheap
  rw [ensureBoard_of_created hcreated] at hshows
  have hpiece : vm.heap 0 = ⟨UInt16.ofInt (cx.toNat - 29), UInt16.ofInt (cy.toNat - 29), 0, 0,
      type, false, true, true, false⟩ := by
    rw [hheap, Function.update_self]
    rfl
  -- the piece is at rest, and its position is off the screen
  have hrest : (vm.heap 0).isMoving = false := by rw [hpiece]
  obtain ⟨change, hnext⟩ := nextFrame_of_rest (Display.mode115 images) hrest
  rw [hpiece] at hnext
  have hmiss : ∀ j q, IsCell j → vm.board.board j = some q → (vm.heap q).isMoving = false ∧
      ¬ (vm.heap q).Covers (Display.mode115 images) px py := by
    intro j q _ hq
    obtain rfl : q = 0 := by
      rw [hboard] at hq
      simp only [loneDrag, Option.ite_none_right_eq_some] at hq
      exact (Option.some.inj hq.2).symm
    refine ⟨hrest, Piece.not_covers ?_⟩
    obtain ⟨hpx, hpy⟩ := hover.onScreen
    have hpx' : px < 800 := hpx
    have hpy' : py < 600 := hpy
    rw [hpiece]
    rcases wraps_of_near hnear with hwrap | hwrap
    · left
      dsimp only
      omega
    · right
      dsimp only
      omega
  have hover' : Over (Display.mode115 images).toGeometry
      ((Display.mode115 images).pieceImage (vm.heap 0).type) cx.toNat cy.toNat px py ix iy := by
    rw [hpiece]
    exact hover
  have hfill' : fill ≠ ((Display.mode115 images).pieceImage (vm.heap 0).type).bytes
      (cellAddr ((Display.mode115 images).pieceImage (vm.heap 0).type).width 3 ix iy + 0) := by
    rw [hpiece]
    exact hfill
  refine not_showsDragged fits_mode115 hsize (show IsCell 0 by decide) ?_ ?_ hmiss hover'
    (show 0 < mode115.bytesPerPixel by decide) ?_ ?_ (hshows ?_)
  · rw [hboard]
    rfl
  · rw [hpiece]
  · rw [hboard]
    exact hfill'
  · rw [hboard]
    exact hfill'
  · rw [hnext]

/-- **The dragged piece stays under the cursor** exactly where the cursor is not within 29 pixels
of the left or of the upper edge, unless nothing of the picture is on the screen. -/
theorem staysUnderCursor_iff (type : PieceType) (packet : Packet) (cursor : Cursor) :
    let c := updateCursor mode115 packet cursor
    StaysUnderCursor (Display.mode115 images) type c.x c.y ↔
      (29 ≤ c.x.toNat ∧ 29 ≤ c.y.toNat) ∨
        ¬ Visible mode115 (images.pieceImage type) c.x.toNat c.y.toNat := by
  intro c
  obtain ⟨hx, hy⟩ := updateCursor_holdStill packet cursor rfl rfl
  constructor
  · intro hstays
    by_contra hnot
    obtain ⟨hnear, hvisible⟩ := not_or.mp hnot
    exact not_staysUnderCursor hsize hx hy hnear (not_not.mp hvisible) hstays
  · intro hfar s arrivals packet p between hdrags hbetween vm htype
    obtain ⟨-, hcreated, hheld⟩ := hdrags.held arrivals hbetween
    have hvm : vm = (dragged (Display.mode115 images) s arrivals packet between).vm :=
      ensureBoard_of_created hcreated
    rw [← hvm] at hheld
    rcases hfar with ⟨hcx, hcy⟩ | hhidden
    · exact showsDragged_of_heldAt fits_mode115 hsize hcx hcy hheld
    -- there is no pixel to be shown
    · intro i hi hp hpriority hrest px py ix iy hover
      rw [htype] at hover
      exact absurd ⟨px, py, ix, iy, hover⟩ hhidden

end Mode

/-- In the middle of the screen the piece stays under the cursor. -/
theorem staysUnderCursor_middle :
    let c := updateCursor mode115 holdStill ⟨400, 300, true, false⟩
    StaysUnderCursor solidDisplay .wKnight c.x c.y :=
  (staysUnderCursor_iff solidDisplay_size .wKnight holdStill ⟨400, 300, true, false⟩).mpr
    (.inl ⟨by decide, by decide⟩)

/-! ## A drag of a new game -/

section Margin

variable {px py k : ℕ} (hpx : px < 65) (hpy : py < 600) (hk : k < 3)
include hpx hpy hk

/-- Rectangles leave the columns on the left of the board alone. -/
theorem drawRectangle_margin (m : Memory) (x y width height color : ℕ) :
    drawRectangle mode115 m x y width height color (pixelAddr mode115 px py + k) =
      m (pixelAddr mode115 px py + k) := by
  by_cases hgate : 0 ≤ getBoardX mode115 x ∧ getBoardX mode115 x ≤ 7 ∧ 0 ≤ getBoardY mode115 y ∧
    getBoardY mode115 y ≤ 7
  · have hpx' : px < mode115.xResolution := lt_trans hpx (by decide)
    rw [drawRectangle_pixel fits_mode115 (by decide) m width height color hgate hpx' hpy hk]
    refine if_neg fun hin => ?_
    -- a rectangle that begins there is not on the board
    obtain ⟨hcol, hcol', -⟩ := hgate
    refine squareOf_of_lt (show 1 ≤ 59 by decide) (show 65 + 15 * 59 ≤ 65536 by decide)
      (Int.natCast_nonneg x) ?_ ⟨hcol, hcol'⟩
    omega
  · rw [drawRectangle, if_neg hgate]

/-- A new board is black on the left of the squares. -/
theorem ensureBoard_margin (images : Images) {vm : Vm} (h : vm.boardCreated = false) :
    (ensureBoard (Display.mode115 images) vm).board.memBoard (pixelAddr mode115 px py + k) = 0 ∧
      (ensureBoard (Display.mode115 images) vm).board.memPieces (pixelAddr mode115 px py + k) =
        0 := by
  have hin := pixelAddr_add_le (g := mode115) (x := px) (y := py) (lt_trans hpx (by decide)) hpy
  have hsize : mode115.bytesPerPixel = 3 := rfl
  have hclear : ∀ m, vgClear mode115 m (pixelAddr mode115 px py + k) = 0 := by
    intro m
    exact if_pos ⟨Nat.zero_le _, by omega⟩
  simp only [ensureBoard, h, Bool.false_eq_true, if_false]
  refine ⟨?_, hclear _⟩
  refine (drawImage_left fits_mode115 _ _ (lt_trans hpx (by decide)) hk).trans ?_
  exact drawBoard_keeps (fun m => m (pixelAddr mode115 px py + k) = 0)
    (fun m x y width height color hm =>
      (drawRectangle_margin hpx hpy hk m x y width height color).trans hm) (hclear _)

end Margin

/-- A packet that takes the cursor to the left edge. -/
def dragLeft : Packet := ⟨true, false, false, false, false, -150, 0⟩

/-- The knight of a new game, pressed. -/
theorem knight_pressed :
    let s := knightGesture.pressed solidDisplay knightGame
    (DragsTo solidDisplay s dragLeft 17 0 500 ∧ s.vm.boardCreated = true ∧
      s.vm.endGame = false) ∧ s.vm.board.board 57 = some 17 ∧
    ((s.vm.heap 17).priorityDraw = true ∧
      ∀ j q, IsCell j → s.vm.board.board j = some q → (s.vm.heap q).isMoving = false ∧
        0 < (s.vm.heap q).absoluteX.toNat) ∧
    ∀ k < 3, s.vm.board.memBoard (pixelAddr mode115 0 500 + k) = 0 ∧
      s.vm.board.memPieces (pixelAddr mode115 0 500 + k) = 0 := by
  intro s
  have hlifts : knightGesture.Lifts solidDisplay knightGame 17 1 7 := knightGesture_lifts _
  have hfresh : Fresh solidDisplay knightGame.vm :=
    { newGame_initialGame solidDisplay .white with board := .inl rfl }
  obtain ⟨hcells, hpieces⟩ := hfresh.pieces
  obtain ⟨halive, -, hdrag⟩ := (hlifts.pressed rfl).1
  have heq : s.vm = press solidDisplay { ensureBoard solidDisplay knightGame.vm with
      cursor := updateCursor mode115 knightGesture.press knightGame.vm.cursor } 17 1 7 :=
    congrArg Instance.vm (hlifts.pressed_eq rfl)
  have hcursor : s.vm.cursor = updateCursor mode115 knightGesture.press knightGame.vm.cursor := by
    rw [heq]
    rfl
  have hheap : s.vm.heap = Function.update (ensureBoard solidDisplay knightGame.vm).heap 17
      (changePiecePriority ((ensureBoard solidDisplay knightGame.vm).heap 17) true) := by
    rw [heq, heap_press]
  refine ⟨⟨⟨halive, hdrag.playing, hdrag.dragging, ?_, ?_⟩, hdrag.created, hdrag.endGame⟩, ?_,
    ⟨?_, fun j q hj hq => ?_⟩, fun k hk => ?_⟩
  · rw [hcursor]
    decide
  · rw [hcursor]
    decide
  · rw [hdrag.cells]
    exact (hcells 57 (by decide)).trans (by decide)
  · rw [hheap, Function.update_self]
    rfl
  · have hinit : initialCells j = some q := by
      rw [hdrag.cells] at hq
      exact (hcells j hj).symm.trans hq
    obtain ⟨piece, hpiece⟩ := hpieces q (lt_of_initialCells hinit)
    have hrest :
        (s.vm.heap q).isMoving = ((ensureBoard solidDisplay knightGame.vm).heap q).isMoving ∧
        (s.vm.heap q).absoluteX = ((ensureBoard solidDisplay knightGame.vm).heap q).absoluteX := by
      rw [hheap]
      rcases eq_or_ne q 17 with rfl | hne
      · rw [Function.update_self]
        exact ⟨rfl, rfl⟩
      · rw [Function.update_of_ne hne]
        exact ⟨rfl, rfl⟩
    rw [hrest.1, hrest.2, hpiece]
    refine ⟨rfl, ?_⟩
    -- the columns of the board begin at pixel 65
    obtain ⟨hcol, -⟩ := home_of_initialCells hj hinit
    have hscreen : getScreenX solidDisplay.toGeometry (home q).1 = 59 * (home q).1 + 65 :=
      getScreenX_mode115 (by omega) (by omega)
    have hplace : (initPiece piece (kind q) (getScreenX solidDisplay.toGeometry (home q).1)
        (getScreenY solidDisplay.toGeometry (home q).2)).absoluteX =
        UInt16.ofInt (59 * (home q).1 + 65) := by
      rw [← hscreen]
      rfl
    rw [hplace]
    simp only [UInt16.ofInt, UInt16.toNat_ofNat']
    omega
  · obtain ⟨hboard, hcache⟩ := ensureBoard_margin (show 0 < 65 by decide) (show 500 < 600 by decide)
      hk { Images.blank with pieceImage := fun _ => solidImage }
      (show knightGame.vm.boardCreated = false from rfl)
    refine ⟨?_, ?_⟩
    · rw [hdrag.marks]
      exact possiblePosition_keeps (fun m => m (pixelAddr mode115 0 500 + k) = 0)
        (fun m col row hm => (drawRectangle_margin (by decide) (by decide) hk m _ _ _ _ _).trans hm)
        _ _ _ _ _ hboard
    · rw [heq]
      exact hcache

/-- **The dragged piece does not stay under the cursor in every drag.** -/
theorem staysUnderCursor_fails :
    ¬ ∀ (images : Images) (before between : List (Action ⊕ UInt8)) (arrivals : ℕ) (packet : Packet)
      (p : PieceRef) (cx cy : UInt16),
      (∀ t, (images.pieceImage t).width * (images.pieceImage t).height * 3 < 4294967296) →
      let d := Display.mode115 images
      let s := run (Instance.stepInput d) knightGame before
      DragsTo d s packet p cx cy → (∀ i ∈ between, Passes i) →
        ShowsDragged d (ensureBoard d (dragged d s arrivals packet between).vm) p cx cy := by
  intro hclaim
  obtain ⟨⟨hdrags, hcreated, hgoing⟩, hcell, ⟨hpriority, hpieces⟩, hmargin⟩ := knight_pressed
  have hshows := hclaim { Images.blank with pieceImage := fun _ => solidImage }
    [.inl (.event 0 (.mouse knightGesture.press))] [] 0 dragLeft 17 0 500 solidDisplay_size hdrags
    (fun i hi => absurd hi List.not_mem_nil)
  obtain ⟨hcreated', hboard', hheap'⟩ := hdrags.dragged_nil hcreated hgoing rfl 0
  have hrun : run (Instance.stepInput solidDisplay) knightGame
      [.inl (.event 0 (.mouse knightGesture.press))] =
      knightGesture.pressed solidDisplay knightGame := rfl
  rw [show Display.mode115 { Images.blank with pieceImage := fun _ => solidImage } = solidDisplay
    from rfl, hrun] at hshows
  generalize knightGesture.pressed solidDisplay knightGame = s at *
  generalize (dragged solidDisplay s 0 dragLeft []).vm = vm at hcreated' hboard' hheap' hshows
  rw [ensureBoard_of_created hcreated'] at hshows
  have hover : Over solidDisplay.toGeometry (solidDisplay.pieceImage (vm.heap 17).type)
      (0 : UInt16).toNat (500 : UInt16).toNat 0 500 29 29 := by
    show Over mode115 solidImage 0 500 0 500 29 29
    exact ⟨by decide, by decide, by decide, by decide, by decide⟩
  -- the margin is black, and the piece is not
  have hcolor : (0 : UInt8) ≠ (solidDisplay.pieceImage (vm.heap 17).type).bytes
      (cellAddr (solidDisplay.pieceImage (vm.heap 17).type).width solidDisplay.bytesPerPixel 29 29 +
        0) := by
    show (0 : UInt8) ≠ solidImage.bytes (cellAddr 58 3 29 29 + 0)
    decide
  have hpiece : (vm.heap 17).isMoving = (s.vm.heap 17).isMoving ∧
      (vm.heap 17).priorityDraw = (s.vm.heap 17).priorityDraw ∧
      (vm.heap 17).absoluteX = UInt16.ofInt (-29) := by
    rw [hheap', Function.update_self]
    exact ⟨rfl, rfl, rfl⟩
  refine not_showsDragged fits_mode115 solidDisplay_size (show IsCell 57 by decide)
    (by rw [hboard']; exact hcell) (hpiece.2.1.trans hpriority) (fun j q hj hq => ?_)
    hover (show 0 < solidDisplay.bytesPerPixel by decide) ?_ ?_ hshows
  · rw [hboard'] at hq
    obtain ⟨hrest, hcolumn⟩ := hpieces j q hj hq
    rcases eq_or_ne q 17 with rfl | hne
    · refine ⟨hpiece.1.trans hrest, Piece.not_covers (.inl ?_)⟩
      rw [hpiece.2.2]
      decide
    · rw [hheap', Function.update_of_ne hne]
      exact ⟨hrest, Piece.not_covers (.inl hcolumn)⟩
  · rw [hboard']
    exact fun h => hcolor ((hmargin 0 (by decide)).1.symm.trans h)
  · rw [hboard']
    exact fun h => hcolor ((hmargin 0 (by decide)).2.symm.trans h)

end LCChess

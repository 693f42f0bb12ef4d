import LCChess.Play.Screen
import LCChess.Protocol.Parser

/-!
# The cached pieces

`mem_pieces` caches the squares of the board with the pieces that have no priority, and a frame
composes the screen from it. The cache is filled anew when `redrawPieces` is set or a piece on the
board has changed; a piece that moves or is dragged is drawn with priority, over the cache.

## Main definitions

* `Piece.SameLook`: two pieces that are drawn into the cache alike
* `Vm.Cached d vm`: the cache is valid, or will be filled anew

## Main results

* `composed_frame`: a frame over a valid cache composes the screen from scratch
* `Vm.Cached.playingMouse`, `Vm.Cached.frame`: what keeps the cache
-/

namespace LCChess

/-! ## What the cache shows of a piece -/

/-- A piece in motion has priority, or has reached its target. -/
def Piece.OnWay (piece : Piece) : Prop :=
  piece.isMoving = true → piece.priorityDraw = true ∨ piece.Arrived

/-- The two pieces are drawn into the cache alike: at one place, or not at all. -/
structure Piece.SameLook (piece piece' : Piece) : Prop where
  type : piece.type = piece'.type
  priority : piece.priorityDraw = piece'.priorityDraw
  place : piece.priorityDraw = false →
    piece.absoluteX = piece'.absoluteX ∧ piece.absoluteY = piece'.absoluteY

namespace Piece

variable {piece : Piece} {animation : Bool}

/-- A piece that is not redrawn looks as before. -/
theorem look_updated (hway : piece.OnWay) (h : piece.redraws animation = false) :
    piece.change = false ∧ (piece.updated animation).SameLook piece := by
  rcases piece.updated_cases animation with ⟨-, heq, hredraws⟩ | ⟨-, -, -, hredraws⟩ |
    ⟨hmoving, -, harrived, heq, hredraws⟩
  · rw [heq]
    exact ⟨hredraws.symm.trans h, rfl, rfl, fun _ => ⟨rfl, rfl⟩⟩
  · exact absurd (hredraws.symm.trans h) (by decide)
  · -- a piece on its way has priority
    have hpriority : piece.priorityDraw = true := (hway hmoving).resolve_right harrived
    rw [heq]
    refine ⟨hredraws.symm.trans h, rfl, rfl, fun hnone => ?_⟩
    exact absurd (hpriority.symm.trans hnone) (by decide)

/-- A piece in motion keeps its priority until it arrives. -/
theorem onWay_updated (hway : piece.OnWay) : (piece.updated animation).OnWay := by
  intro hmoving
  rcases piece.updated_cases animation with ⟨hrest, heq, -⟩ | ⟨-, -, heq, -⟩ |
    ⟨hmoved, -, harrived, heq, -⟩
  · rw [heq] at hmoving
    exact absurd (hrest.symm.trans hmoving) (by decide)
  · rw [heq] at hmoving
    exact absurd hmoving (by simp)
  · rw [heq]
    exact .inl ((hway hmoved).resolve_right harrived)

/-- A piece whose motion does not end keeps its priority. -/
theorem priority_updated
    (hmotion : piece.isMoving = true → animation = true ∧ ¬ piece.Arrived) :
    (piece.updated animation).priorityDraw = piece.priorityDraw := by
  rcases piece.updated_cases animation with ⟨-, heq, -⟩ | ⟨hmoving, hend, -, -⟩ |
    ⟨-, -, -, heq, -⟩
  · rw [heq]
  · obtain ⟨hanimation, harrived⟩ := hmotion hmoving
    exact absurd (hend hanimation) harrived
  · rw [heq]

theorem isMoving_setPiecePosition (piece : Piece) (priority : Bool) (x y : ℤ) :
    (setPiecePosition (changePiecePriority piece priority) x y).isMoving = piece.isMoving := rfl

/-- A piece that is put on the square it moves to has arrived. -/
theorem arrived_setPiecePosition (piece : Piece) {x y : ℤ}
    (hx : piece.targetX = UInt16.ofInt x) (hy : piece.targetY = UInt16.ofInt y) :
    (setPiecePosition (changePiecePriority piece false) x y).Arrived :=
  ⟨hx.symm, hy.symm⟩

end Piece

/-- Drawing the pieces without priority depends on their looks, and byte by byte on the buffer
they are drawn into. -/
theorem drawPriority_congr (d : Display) {cells : ℤ → Option PieceRef} {heap heap' : Heap}
    (hlook : ∀ i p, IsCell i → cells i = some p → (heap p).SameLook (heap' p)) {m m' : Memory}
    {a : ℕ} (h : m a = m' a) :
    drawPriority d cells heap false m a = drawPriority d cells heap' false m' a := by
  refine eachPiece_related (fun m m' : Memory => m a = m' a) (fun i p m m' hi hi' hp h => ?_) h
  obtain ⟨htype, hpriority, hplace⟩ := hlook i p ⟨hi, hi'⟩ hp
  -- only the pieces without priority are drawn into the cache
  rw [hpriority] at hplace
  simp only [hpriority]
  split
  · rename_i hnone
    obtain ⟨hx, hy⟩ := hplace hnone
    unfold drawPieces
    rw [htype, hx, hy]
    exact drawImage_congr _ _ _ _ h
  · exact h

/-- Drawing the pieces depends byte by byte on the buffer they are drawn into. -/
theorem drawPriority_congr_mem (d : Display) (cells : ℤ → Option PieceRef) (heap : Heap)
    (priority : Bool) {m m' : Memory} {a : ℕ} (h : m a = m' a) :
    drawPriority d cells heap priority m a = drawPriority d cells heap priority m' a := by
  refine eachPiece_related (fun m m' : Memory => m a = m' a) (fun i p m m' _ _ _ h => ?_) h
  split
  · exact drawImage_congr _ _ _ _ h
  · exact h

/-! ## The cache -/

/-- The cache is valid, or will be filled anew. -/
structure Vm.Cached (d : Display) (vm : Vm) : Prop where
  onWay : ∀ i p, IsCell i → vm.board.board i = some p → (vm.heap p).OnWay
  /-- The dragged piece is drawn over the cache. -/
  lifted : ∀ i p, IsCell i → vm.board.board i = some p → vm.draggingPiece = some p →
    (vm.heap p).priorityDraw = true
  fresh : vm.redrawPieces = false →
    (∀ i p, IsCell i → vm.board.board i = some p → (vm.heap p).change = false) →
    ∀ a < vramSize d.toGeometry, vm.board.memPieces a =
      drawPriority d vm.board.board vm.heap false vm.board.memBoard a

section Frame

variable {d : Display} {vm : Vm}

/-- A piece on the board stands in one cell. -/
theorem Vm.Unique.one (h : vm.Unique) {i : ℤ} (hi : IsCell i) {p : PieceRef}
    (hp : vm.board.board i = some p) :
    ∀ j, 0 ≤ j → j < 64 → vm.board.board j = some p → j = i :=
  fun _ hj hj' hjp => h.cell_eq ⟨hj, hj'⟩ hi hjp hp

/-- A frame that does not redraw finds the cache valid. -/
theorem Vm.Cached.cache_of_updateBoard (h : vm.Cached d) (hu : vm.Unique)
    (hredraw : (updateBoard vm.board.board vm.animation (vm.heap, vm.redrawPieces)).2 = false)
    {a : ℕ} (ha : a < vramSize d.toGeometry) :
    vm.board.memPieces a = drawPriority d vm.board.board
      (updateBoard vm.board.board vm.animation (vm.heap, vm.redrawPieces)).1 false
      vm.board.memBoard a := by
  -- without the flag to redraw, no piece has changed since the cache was filled
  obtain ⟨hflag, hpieces⟩ := updateBoard_redraw hredraw
  have hlook : ∀ i p, IsCell i → vm.board.board i = some p →
      (vm.heap p).change = false ∧ ((vm.heap p).updated vm.animation).SameLook (vm.heap p) :=
    fun i p hi hp => Piece.look_updated (h.onWay i p hi hp)
      (hpieces i p hi.1 hi.2 hp (hu.one hi hp))
  rw [h.fresh hflag (fun i p hi hp => (hlook i p hi hp).1) a ha]
  refine (drawPriority_congr d (fun i p hi hp => ?_) rfl).symm
  rw [updateBoard_piece vm.animation hi hp (hu.one hi hp)]
  exact (hlook i p hi hp).2

/-- The cache behind a frame. -/
theorem Vm.Cached.memPieces_frame (h : vm.Cached d) (hu : vm.Unique) {a : ℕ}
    (ha : a < vramSize d.toGeometry) :
    let s := updateBoard vm.board.board vm.animation (vm.heap, vm.redrawPieces)
    (drawBoardPieces d vm.board s.1 s.2 vm.videoMemBuffer).1 a =
      drawPriority d vm.board.board s.1 false vm.board.memBoard a := by
  intro s
  unfold drawBoardPieces
  dsimp only
  split
  · exact drawPriority_congr_mem d _ _ _ (copyBuffers_of_lt _ _ _ ha)
  -- the frame does not fill the cache, so it has to be valid before
  · rename_i hredraw
    exact h.cache_of_updateBoard hu (Bool.not_eq_true _ ▸ hredraw) ha

/-- **A frame composes the screen from scratch**, if it finds a valid cache. -/
theorem composed_frame (h : vm.Cached d) (hu : vm.Unique) {a : ℕ}
    (ha : a < vramSize d.toGeometry) :
    let s := updateBoard vm.board.board vm.animation (vm.heap, vm.redrawPieces)
    (drawBoardPieces d vm.board s.1 s.2 vm.videoMemBuffer).2 a =
      drawPriority d vm.board.board s.1 true
        (drawPriority d vm.board.board s.1 false vm.board.memBoard) a := by
  intro s
  have hcache := h.memPieces_frame hu ha
  unfold drawBoardPieces at hcache ⊢
  dsimp only at hcache ⊢
  apply drawPriority_congr_mem d _ _ _
  rw [copyBuffers_of_lt _ _ _ ha]
  exact hcache

end Frame

/-! ## One piece, one cell -/

section Unique

variable {d : Display} {vm vm' : Vm} {p : PieceRef}

/-- Moving a piece from its only cell keeps the pieces in one cell each. -/
theorem Vm.Unique.move (h : vm.Unique) {o n : ℤ}
    (hone : ∀ i, IsCell i → vm.board.board i = some p → i = o)
    (hcases : ∀ {i q}, vm'.board.board i = some q →
      (i = n ∧ q = p) ∨ (i ≠ o ∧ vm.board.board i = some q))
    {i j : ℤ} {q : PieceRef} (hi : IsCell i) (hj : IsCell j)
    (hiq : vm'.board.board i = some q) (hjq : vm'.board.board j = some q) : i = j := by
  rcases hcases hiq with ⟨rfl, rfl⟩ | ⟨hio, hiq⟩ <;> rcases hcases hjq with ⟨rfl, hq⟩ | ⟨hjo, hjq⟩
  · rfl
  · exact absurd (hone j hj hjq) hjo
  · exact absurd (hone i hi (hq ▸ hiq)) hio
  · exact h.cell_eq hi hj hiq hjq

/-- The pressed piece stands in the cell it was pressed on. -/
theorem Vm.Unique.press (h : vm.Unique) (hs : vm.Sound) {x y : ℤ} (hpress : Presses d vm p x y) :
    (press d vm p x y).Unique where
  cell_eq := h.cell_eq
  dragged {i q} hq hi hip := by
    obtain rfl : p = q := Option.some.inj hq
    have hcell := isCell_of_onBoard hpress.onBoard
    have hp := hs.piece_lt _ p hcell hpress.cell
    have hinicial : inicialCell (LCChess.press d vm p x y) = y * 8 + x :=
      congrArg Seat.inicial (sound_press hs hp hpress.onBoard).2
    rw [hinicial]
    exact h.cell_eq hi hcell hip hpress.cell

/-- A release leaves no drag. -/
theorem Vm.Unique.release (h : vm.Unique) (hdrag : vm.draggingPiece = some p) :
    (release d vm p).Unique where
  cell_eq {i j q} hi hj hiq hjq := by
    by_cases hdrops : ∃ x y, Drops d vm p x y
    · obtain ⟨x, y, hdrops⟩ := hdrops
      refine h.move (n := y * 8 + x) (fun i hi hip => h.dragged hdrag hi hip) ?_ hi hj hiq hjq
      simp only [release_move hdrops]
      exact moveFrom_cases
    · simp only [release_putBack fun x y hxy => hdrops ⟨x, y, hxy⟩] at hiq hjq
      exact h.cell_eq hi hj hiq hjq
  dragged hq := absurd ((release_repaints d vm p).1.symm.trans hq) (by simp)

/-- A received byte, unless it moves the dragged piece. -/
theorem Vm.Unique.parseByte (h : vm.Unique) (hs : vm.Sound) {b : UInt8}
    (hread : vm.Completes b → ∀ q, vm.draggingPiece = some q →
      vm.board.board (originCell vm) ≠ some q)
    (hbyte : parseByte d b vm = some vm') : vm'.Unique := by
  obtain rfl | rfl | rfl | ⟨move, byteOfMove, rfl⟩ | ⟨p, gameState, won, hcomplete, hp, -, rfl⟩ :=
    parseByte_cases hbyte
  · exact ⟨h.cell_eq, h.dragged⟩
  · exact ⟨h.cell_eq, h.dragged⟩
  · exact h
  · exact ⟨h.cell_eq, h.dragged⟩
  · have hone : ∀ i, IsCell i → vm.board.board i = some p → i = originCell vm :=
      fun i hi hip => h.cell_eq hi hs.origin hip hp
    constructor
    · exact fun hi hj => h.move hone moveTo_cases hi hj
    · intro i q hq hi hip
      -- the dragged piece stays, unless the byte moves it
      rcases moveTo_cases hip with ⟨-, rfl⟩ | ⟨-, hip⟩
      · exact absurd hp (hread hcomplete q hq)
      · exact h.dragged hq hi hip

end Unique

/-! ## The events that keep the cache -/

section Events

variable {d : Display} {vm vm' : Vm} {p : PieceRef}

/-- A press gives its piece priority, and marks it as changed. -/
theorem Vm.Cached.press (h : vm.Cached d) {x y : ℤ} (hpress : Presses d vm p x y) :
    (press d vm p x y).Cached d := by
  have hcell := isCell_of_onBoard hpress.onBoard
  have hcells : (LCChess.press d vm p x y).board.board = vm.board.board := rfl
  have hheap := heap_press d vm p x y
  constructor
  · intro i q hi hq
    rw [hheap]
    rcases eq_or_ne q p with rfl | hne
    · rw [Function.update_self]
      exact fun _ => .inl rfl
    · rw [Function.update_of_ne hne]
      exact h.onWay i q hi hq
  · intro i q hi hq hdrag
    obtain rfl : p = q := Option.some.inj hdrag
    rw [hheap, Function.update_self]
    rfl
  · intro _ hchange
    have hp := hchange _ p hcell (hcells ▸ hpress.cell)
    rw [hheap, Function.update_self] at hp
    exact absurd hp (by simp [changePiecePriority])

/-- The dragged piece follows the cursor over the cache. -/
theorem Vm.Cached.follow (h : vm.Cached d) (hdrag : vm.draggingPiece = some p) :
    (follow vm p).Cached d := by
  have hheap : ∀ q, ((LCChess.follow vm p).heap q).isMoving = (vm.heap q).isMoving ∧
      ((LCChess.follow vm p).heap q).priorityDraw = (vm.heap q).priorityDraw ∧
      ((LCChess.follow vm p).heap q).change = (vm.heap q).change ∧
      ((LCChess.follow vm p).heap q).type = (vm.heap q).type ∧
      (q ≠ p → (LCChess.follow vm p).heap q = vm.heap q) := by
    intro q
    rcases eq_or_ne q p with rfl | hne
    · simp [LCChess.follow, Vm.setPiece, setPiecePosition]
    · simp [LCChess.follow, Vm.setPiece, Function.update_of_ne hne]
  constructor
  · intro i q hi hq hmoving
    obtain ⟨hmoved, hpriority, -, -, hother⟩ := hheap q
    rcases eq_or_ne q p with rfl | hne
    · exact .inl (hpriority.trans (h.lifted i q hi hq hdrag))
    · rw [hother hne]
      exact h.onWay i q hi hq (hmoved.symm.trans hmoving)
  · intro i q hi hq hq'
    exact (hheap q).2.1.trans (h.lifted i q hi hq hq')
  · intro hredraw hchange a ha
    have hold := h.fresh hredraw
      (fun i q hi hq => (hheap q).2.2.1.symm.trans (hchange i q hi hq)) a ha
    refine hold.trans (drawPriority_congr d (fun i q hi hq => ?_) rfl)
    obtain ⟨-, hpriority, -, htype, hother⟩ := hheap q
    refine ⟨htype.symm, hpriority.symm, fun hnone => ?_⟩
    -- the dragged piece is not in the cache
    have hne : q ≠ p := by
      rintro rfl
      exact absurd ((h.lifted i q hi hq hdrag).symm.trans hnone) (by decide)
    rw [hother hne]
    exact ⟨rfl, rfl⟩

/-- A release redraws everything; a piece that is put back in the middle of a motion stands at
its target. -/
theorem Vm.Cached.release (h : vm.Cached d) (hs : vm.Sound) (hu : vm.Unique) (hshown : vm.Shown d)
    (hdrag : vm.draggingPiece = some p) : (release d vm p).Cached d := by
  obtain ⟨hnone, -, -⟩ := release_repaints d vm p
  have hredraw : (LCChess.release d vm p).redrawPieces = true := by
    obtain ⟨heap, board, transmitQueue, endGame, myTurn, hframe⟩ := release_frame d vm p
    rw [hframe]
  refine ⟨?_, fun i q _ _ hq => absurd (hnone.symm.trans hq) (by simp),
    fun hfalse => absurd (hredraw.symm.trans hfalse) (by decide)⟩
  intro i q hi hq
  by_cases hdrops : ∃ x y, Drops d vm p x y
  · obtain ⟨x, y, hdrops⟩ := hdrops
    simp only [release_move hdrops] at hq ⊢
    rcases eq_or_ne q p with rfl | hne
    · rw [Function.update_self]
      exact fun _ => .inl rfl
    · rw [Function.update_of_ne hne]
      rcases moveFrom_cases hq with ⟨-, rfl⟩ | ⟨-, hq⟩
      · exact absurd rfl hne
      · exact h.onWay i q hi hq
  · simp only [release_putBack fun x y hxy => hdrops ⟨x, y, hxy⟩] at hq ⊢
    rcases eq_or_ne q p with rfl | hne
    · rw [Function.update_self]
      intro hmoving
      rw [putBackPiece, Piece.isMoving_setPiecePosition] at hmoving
      obtain ⟨hcol, hrow⟩ := hs.inicial_eq hdrag
      obtain rfl : i = inicialCell vm := hu.dragged hdrag hi hq
      -- a piece that was lifted in motion is put back on its target, and has arrived
      obtain ⟨hx, hy⟩ := (hshown _ q hi hq).moving hmoving
      rw [← hcol] at hx
      rw [← hrow] at hy
      exact .inr (Piece.arrived_setPiecePosition (vm.heap q) hx hy)
    · rw [Function.update_of_ne hne]
      exact h.onWay i q hi hq

/-- A `MOUSE` event. -/
theorem Vm.Cached.playingMouse (h : vm.Cached d) (hs : vm.Sound) (hu : vm.Unique)
    (hshown : vm.Shown d) (hbuttons : vm.cursor.pressed = true → vm.cursor.released = false) :
    (playingMouse d vm).Cached d ∧ (playingMouse d vm).Unique := by
  rcases playingMouse_cases d hbuttons with ⟨-, heq⟩ | ⟨hidle, p, x, y, hpress, heq⟩ |
    ⟨p, hdrag, -, heq⟩ | ⟨p, hdrag, -, heq⟩
  · rw [heq]
    exact ⟨h, hu⟩
  · rw [heq]
    exact ⟨h.press hpress, hu.press hs hpress⟩
  · rw [heq]
    exact ⟨h.follow hdrag, hu.cell_eq, hu.dragged⟩
  · have hfollow : (LCChess.follow vm p).Unique := ⟨hu.cell_eq, hu.dragged⟩
    have hsound : (LCChess.follow vm p).Sound := hs.setPiece (type_setPiecePosition _ _ _)
    rw [heq]
    exact ⟨(h.follow hdrag).release hsound hfollow (hshown.follow hdrag) hdrag,
      hfollow.release hdrag⟩

/-- A frame, unless it ends the motion of the dragged piece. -/
theorem Vm.Cached.playingFrame (h : vm.Cached d) (hu : vm.Unique)
    (hmotion : ∀ i p, IsCell i → vm.board.board i = some p → vm.draggingPiece = some p →
      (vm.heap p).isMoving = true → vm.animation = true ∧ ¬ (vm.heap p).Arrived) :
    (playingFrame d vm).Cached d := by
  have hheap : ∀ i p, IsCell i → vm.board.board i = some p →
      (LCChess.playingFrame d vm).heap p = (vm.heap p).updated vm.animation :=
    fun i p hi hp => updateBoard_piece vm.animation hi hp (hu.one hi hp) _
  constructor
  · intro i q hi hq
    rw [hheap i q hi hq]
    exact Piece.onWay_updated (h.onWay i q hi hq)
  · intro i q hi hq hdrag
    rw [hheap i q hi hq, Piece.priority_updated (hmotion i q hi hq hdrag)]
    exact h.lifted i q hi hq hdrag
  · exact fun _ _ a ha => h.memPieces_frame hu ha

/-- A received byte; a piece that is sent to another cell is marked as changed. -/
theorem Vm.Cached.parseByte (h : vm.Cached d) {b : UInt8}
    (hread : vm.Completes b → originCell vm ≠ byteCell b)
    (hbyte : parseByte d b vm = some vm') : vm'.Cached d := by
  obtain rfl | rfl | rfl | ⟨move, byteOfMove, rfl⟩ | ⟨p, gameState, won, hcomplete, hp, -, rfl⟩ :=
    parseByte_cases hbyte
  · exact ⟨h.onWay, h.lifted, h.fresh⟩
  · exact ⟨h.onWay, h.lifted, h.fresh⟩
  · exact h
  · exact ⟨h.onWay, h.lifted, h.fresh⟩
  · constructor
    · intro i q hi hq
      rcases eq_or_ne q p with rfl | hne
      · simp only [moveReceived, Vm.setPiece, Function.update_self]
        exact fun _ => .inl rfl
      · simp only [moveReceived, Vm.setPiece, Function.update_of_ne hne]
        rcases moveTo_cases hq with ⟨-, rfl⟩ | ⟨-, hq⟩
        · exact absurd rfl hne
        · exact h.onWay i q hi hq
    · intro i q hi hq hdrag
      rcases eq_or_ne q p with rfl | hne
      · simp [moveReceived, Vm.setPiece, movePiece]
      · simp only [moveReceived, Vm.setPiece, Function.update_of_ne hne]
        rcases moveTo_cases hq with ⟨-, rfl⟩ | ⟨-, hq⟩
        · exact absurd rfl hne
        · exact h.lifted i q hi hq hdrag
    · -- the piece stands in the cell of the byte, where the next frame finds it
      -- the pressed piece is marked as changed, so the next frame redraws
      intro _ hchange
      have hne : byteCell b ≠ originCell vm := (hread hcomplete).symm
      have hstands : (moveReceived d { vm with
          move := vm.move.arrive b, gameState := gameState, won := won } p
          (moveCell vm.move.oldRow vm.move.oldCol)
          (moveCell (positionRow b) (positionCol b))).board.board (byteCell b) = some p := by
        show Function.update (Function.update vm.board.board (byteCell b) (some p))
          (originCell vm) none (byteCell b) = some p
        rw [Function.update_of_ne hne]
        exact Function.update_self ..
      have hp := hchange _ p (isCell_byteCell b) hstands
      simp [moveReceived, Vm.setPiece, movePiece] at hp

/-- A frame is drawn, then a received byte may send a piece to another cell. -/
theorem Vm.Cached.frame (h : vm.Cached d) (hs : vm.Sound) (hu : vm.Unique)
    (hmotion : ∀ i p, IsCell i → vm.board.board i = some p → vm.draggingPiece = some p →
      (vm.heap p).isMoving = true → vm.animation = true ∧ ¬ (vm.heap p).Arrived)
    (hread : vm.Completes (readFromQueue vm.receiveQueue).1 →
      originCell vm ≠ byteCell (readFromQueue vm.receiveQueue).1 ∧
      ∀ q, vm.draggingPiece = some q → vm.board.board (originCell vm) ≠ some q)
    (hbyte : receiveByte d (LCChess.playingFrame d vm) = some vm') :
    vm'.Cached d ∧ vm'.Unique := by
  obtain ⟨honWay, hlifted, hfresh⟩ := h.playingFrame hu hmotion
  obtain ⟨hsound, -⟩ := sound_playingFrame (d := d) hs
  set w : Vm := { LCChess.playingFrame d vm with
    receiveQueue := (readFromQueue vm.receiveQueue).2 } with hw
  have hwcached : w.Cached d := ⟨honWay, hlifted, hfresh⟩
  have hwunique : w.Unique := ⟨hu.cell_eq, hu.dragged⟩
  have hwsound : w.Sound := ⟨hsound.1, hsound.2,
    ⟨wellFormed_readFromQueue hs.receive.1, by simpa [hw] using hs.receive.2⟩, hsound.4, hsound.5,
    hsound.6, hsound.7⟩
  have hparse : LCChess.parseByte d (readFromQueue vm.receiveQueue).1 w = some vm' := hbyte
  exact ⟨hwcached.parseByte (fun hcomplete => (hread hcomplete).1) hparse,
    hwunique.parseByte hwsound (fun hcomplete => (hread hcomplete).2) hparse⟩

/-- The end of the game leaves the cache alone. -/
theorem Vm.Cached.leaveGame (h : vm.Cached d) : (leaveGame vm).Cached d := by
  obtain ⟨gameState, won, hleave⟩ := leaveGame_frame vm
  rw [hleave]
  exact ⟨h.onWay, h.lifted, h.fresh⟩

end Events

end LCChess

import LCChess.Game.Motion
import LCChess.Play.Cache
import LCChess.Play.Moves

/-!
# Cached rendering

In a game the cached pieces stand for a full redraw, as long as no motion ends while its piece is
being dragged. The end of a motion takes the priority of its piece away: from then on the piece
follows the cursor, and its picture in the cache does not.

## Main definitions

* `KeepsCache d s i`: the condition on an input under which the cache stays valid
* `CacheOk d s`: an instance in a game, over a valid cache
* `Gliding vm p i n`: the piece `p` is on its way to cell `i`, for more than `n` frames

## Main results

* `cached_event`: the events that keep the cache
* `cached_rendering`: the frames of every run whose inputs meet the condition
* `cached_rendering_fails`: a piece whose motion ends while it is being dragged
-/

namespace LCChess

open Loop (forLoop_of_le forLoop_succ forLoop_keeps)
open Transition (run run_append run_invariant_along Along)

/-- The condition under which an input keeps the cache: a frame does not end the motion of the
piece that is being dragged, and a received move takes another piece, to another cell. -/
structure KeepsCache (d : Display) (s : Instance) (i : Action ⊕ UInt8) : Prop where
  motion : ∀ arrivals, i = .inl (.event arrivals .newFrame) → ∀ j p, IsCell j →
    (ensureBoard d s.vm).board.board j = some p → s.vm.draggingPiece = some p →
    ((ensureBoard d s.vm).heap p).isMoving = true →
    s.vm.animation = true ∧ ¬ ((ensureBoard d s.vm).heap p).Arrived
  received : ∀ o n, appliedMove s i = some (o, n) → o ≠ n ∧
    ∀ p, s.vm.draggingPiece = some p → (ensureBoard d s.vm).board.board o ≠ some p

section Step

variable {d : Display}

/-- The move that a completed message applies. -/
theorem appliedMove_of_completes {s : Instance} (halive : s.crashed = false)
    (hplay : s.vm.gameState = .playing) (arrivals : ℕ)
    (h : s.vm.Completes (readFromQueue s.vm.receiveQueue).1) :
    appliedMove s (.inl (.event arrivals .newFrame)) =
      some (originCell s.vm, byteCell (readFromQueue s.vm.receiveQueue).1) := by
  obtain ⟨hbegin, hturn, hzero, hmoves⟩ := h
  have hposition : IsPosition (readFromQueue s.vm.receiveQueue).1 := ⟨hbegin, hturn, hzero⟩
  simp only [appliedMove, polledByte, halive, hplay, and_self, if_true, hposition, hmoves,
    ne_eq, not_false_eq_true]

/-- **The events that keep the cache.** -/
theorem cached_event {vm vm' : Vm} (hready : Ready d vm) (hplay : vm.gameState = .playing)
    (hunique : (ensureBoard d vm).Unique) (hshown : (ensureBoard d vm).Shown d)
    (h : (ensureBoard d vm).Cached d) {arrivals : ℕ} {event : Event}
    (hok : KeepsCache d ⟨vm, false⟩ (.inl (.event arrivals event)))
    (hev : handleEvent d arrivals event vm = some vm') : vm'.Cached d ∧ vm'.Unique := by
  have hsound : (ensureBoard d vm).Sound := hready
  cases event with
  | newFrame =>
    rw [handleEvent_frame hplay] at hev
    obtain ⟨w, hbyte, rfl⟩ := Option.map_eq_some_iff.mp hev
    have hmotion := hok.motion arrivals rfl
    have hread := fun hcomplete => hok.received _ _
      (appliedMove_of_completes (s := ⟨vm, false⟩) rfl hplay arrivals hcomplete)
    -- the condition on the state is one behind the first lines of the handler
    obtain ⟨board, heap, redraw, hframe⟩ := ensureBoard_frame d vm
    obtain ⟨gameState, won, hleave⟩ := leaveGame_frame (ensureBoard d vm)
    have hframe' : w.Cached d ∧ w.Unique := by
      refine h.leaveGame.frame (sound_leaveGame hsound).1 hunique.leaveGame ?_ ?_ hbyte
      · rw [hleave]
        rw [hframe] at hmotion ⊢
        exact hmotion
      · rw [hleave]
        rw [hframe] at hread ⊢
        exact hread
    obtain ⟨hcached, hunique'⟩ := hframe'
    exact ⟨⟨hcached.onWay, hcached.lifted, hcached.fresh⟩, hunique'.cell_eq, hunique'.dragged⟩
  | keyboard scanCode =>
    obtain rfl := Option.some.inj ((handleEvent_keyboard hplay scanCode).symm.trans hev)
    have hcached := h.leaveGame
    have hunique' := hunique.leaveGame
    unfold playingKeyboard
    split_ifs
    · exact ⟨⟨hcached.onWay, hcached.lifted, hcached.fresh⟩, hunique'.cell_eq, hunique'.dragged⟩
    · exact ⟨hcached, hunique'⟩
    · exact ⟨hcached, hunique'⟩
  | mouse packet =>
    obtain rfl := Option.some.inj ((handleEvent_mouse hplay packet).symm.trans hev)
    set w : Vm := { ensureBoard d vm with
      cursor := updateCursor d.toGeometry packet vm.cursor } with hw
    have hwsound : w.Sound :=
      ⟨hsound.1, hsound.2, hsound.3, hsound.4, hsound.5, hsound.6, hsound.7⟩
    have hwshown : w.Shown d := hshown
    have hwunique : w.Unique := ⟨hunique.cell_eq, hunique.dragged⟩
    have hwcached : w.Cached d := ⟨h.onWay, h.lifted, h.fresh⟩
    refine hwcached.leaveGame.playingMouse (sound_leaveGame hwsound).1 hwunique.leaveGame
      hwshown.leaveGame ?_
    rw [cursor_leaveGame]
    simp +contextual [hw]

/-- What a frame finds of an instance depends on its game, and on whether it is to be redrawn. -/
theorem Vm.Cached.congr {vm vm' : Vm} (h : (ensureBoard d vm).Cached d)
    (hu : (ensureBoard d vm).Unique) (hgame : SameGame vm vm')
    (hredraw : vm'.redrawPieces = vm.redrawPieces) :
    (ensureBoard d vm').Cached d ∧ (ensureBoard d vm').Unique := by
  obtain ⟨hboard, hheap⟩ := hgame.ensureBoard (d := d)
  have hdragging : (ensureBoard d vm').draggingPiece = (ensureBoard d vm).draggingPiece ∧
      inicialCell (ensureBoard d vm') = inicialCell (ensureBoard d vm) := by
    rw [inicialCell_ensureBoard, inicialCell_ensureBoard]
    obtain ⟨board, heap, redraw, hframe⟩ := ensureBoard_frame d vm
    obtain ⟨board', heap', redraw', hframe'⟩ := ensureBoard_frame d vm'
    rw [hframe, hframe']
    unfold inicialCell
    rw [hgame.inicialRow, hgame.inicialCol]
    exact ⟨hgame.dragging, rfl⟩
  have hredraw' : (ensureBoard d vm').redrawPieces = (ensureBoard d vm).redrawPieces := by
    unfold ensureBoard
    rw [hgame.created]
    split
    · exact hredraw
    · rfl
  constructor
  · constructor
    · rw [hboard, hheap]
      exact h.onWay
    · rw [hboard, hheap, hdragging.1]
      exact h.lifted
    · rw [hboard, hheap, hredraw']
      exact h.fresh
  · constructor
    · rw [hboard]
      exact hu.cell_eq
    · rw [hboard, hdragging.1, hdragging.2]
      exact hu.dragged

end Step

/-- An instance in a game whose screen follows the board over a valid cache. -/
structure CacheOk (d : Display) (s : Instance) : Prop where
  inGame : InGame d s.vm
  unique : (ensureBoard d s.vm).Unique
  shown : (ensureBoard d s.vm).Shown d
  cached : (ensureBoard d s.vm).Cached d

namespace CacheOk

variable {d : Display} {s : Instance}

/-- A change of the buffers. -/
theorem congr (h : CacheOk d s) {s' : Instance} (hgame : InGame d s'.vm)
    (hsame : SameGame s.vm s'.vm) (hredraw : s'.vm.redrawPieces = s.vm.redrawPieces) :
    CacheOk d s' := by
  obtain ⟨hcached, hunique⟩ := h.cached.congr h.unique hsame hredraw
  exact ⟨hgame, hunique, h.shown.congr hsame, hcached⟩

/-- **An input that meets the condition keeps the cache.** -/
theorem stepInput (h : CacheOk d s) {i : Action ⊕ UInt8} (hok : KeepsCache d s i) :
    CacheOk d (s.stepInput d i) := by
  have hgame := inGame_stepInput h.inGame i
  rcases s.stepInput_cases d i with ⟨arrivals, event, vm', rfl, halive, hev, hstep⟩ |
    ⟨transmit, receive, line, hstep, -, -⟩
  · rcases h.inGame.state with hplay | hexit
    · have hs : s = ⟨s.vm, false⟩ := by rw [← halive]
      rw [hs] at hok
      have hcreated := (handleEvent_refines h.inGame.sound hplay hev).1.created
      obtain ⟨hcached, hunique⟩ := cached_event h.inGame.sound hplay h.unique h.shown h.cached
        hok hev
      have hshown := shown_event h.inGame.sound h.unique hplay h.shown hev
      rw [hstep] at hgame ⊢
      refine ⟨hgame, ?_, ?_, ?_⟩
      · rwa [ensureBoard_of_created hcreated]
      · rwa [ensureBoard_of_created hcreated]
      · rwa [ensureBoard_of_created hcreated]
    · rw [hstep] at hgame ⊢
      rw [handleEvent_over hexit] at hev
      obtain rfl := Option.some.inj hev
      apply h.congr hgame
      · cases event <;> exact ⟨rfl, rfl, rfl, rfl, rfl, rfl, rfl, rfl, rfl, rfl⟩
      · cases event <;> rfl
  · apply h.congr hgame
    · rw [hstep]
      exact ⟨rfl, rfl, rfl, rfl, rfl, rfl, rfl, rfl, rfl, rfl⟩
    · rw [hstep]

end CacheOk

/-- The cache of a new game will be filled at its first frame. -/
theorem NewGame.cacheOk {d : Display} {s : Instance} (h : NewGame d s.vm) : CacheOk d s := by
  have hredraw : (ensureBoard d s.vm).redrawPieces = true := by
    have hnew : ∀ vm₀ : Vm, vm₀.boardCreated = false →
        (ensureBoard d vm₀).redrawPieces = true := by
      intro vm₀ h₀
      simp only [ensureBoard, h₀, Bool.false_eq_true, if_false]
    rcases h.board with h₀ | ⟨vm₀, h₀, heq⟩
    · exact hnew _ h₀
    · rw [heq, ensureBoard_of_created (boardCreated_ensureBoard d vm₀)]
      exact hnew vm₀ h₀
  obtain ⟨hcells, hpieces⟩ := h.pieces
  refine ⟨⟨h.sound, .inl h.playing⟩, Tidy.unique_vm h.tidy, h.shown, ?_, ?_, ?_⟩
  · intro i p hi hp hmoving
    obtain ⟨piece, hpiece⟩ := hpieces p (lt_of_initialCells ((hcells i hi).symm.trans hp))
    rw [hpiece] at hmoving
    exact absurd hmoving (by simp [initPiece])
  · intro i p hi hp hdrag
    obtain ⟨board, heap, redraw, hframe⟩ := ensureBoard_frame d s.vm
    rw [hframe] at hdrag
    exact absurd (h.dragging.symm.trans hdrag) (by simp)
  · exact fun hfalse => absurd (hredraw.symm.trans hfalse) (by decide)

/-- An input other than a frame keeps the cache. -/
theorem keepsCache_of_ne {d : Display} {s : Instance} {i : Action ⊕ UInt8}
    (h : ∀ arrivals, i ≠ .inl (.event arrivals .newFrame)) : KeepsCache d s i where
  motion arrivals hi := absurd hi (h arrivals)
  received o n hmove := by
    have hnone : polledByte s i = none := by
      unfold polledByte
      split
      · exact absurd rfl (h _)
      · rfl
    simp [appliedMove, hnone] at hmove

/-! ## Pieces on their way -/

/-- The piece in cell `i` is on its way there, for more than `n` frames with the animation on. -/
structure Gliding (vm : Vm) (p : PieceRef) (i : ℤ) (n : ℕ) : Prop where
  created : vm.boardCreated = true
  animation : vm.animation = true
  cell : vm.board.board i = some p
  moving : (vm.heap p).isMoving = true
  togo : n < (vm.heap p).togo

/-- A frame takes one of the calls that a piece has to go. -/
theorem Piece.updated_gliding {piece : Piece} {n : ℕ} (hmoving : piece.isMoving = true)
    (htogo : n + 1 < piece.togo) :
    (piece.updated true).isMoving = true ∧ n < (piece.updated true).togo := by
  obtain ⟨hstop, -⟩ | ⟨-, harrived, -⟩ | ⟨hm, -, -, heq, -⟩ := piece.updated_cases true
  · exact absurd (hmoving.symm.trans hstop) (by decide)
  · have hzero := Piece.togo_eq_zero_iff.mpr (harrived rfl)
    omega
  · have hx := (nears_approach piece.absoluteX piece.targetX).distance
    have hy := (nears_approach piece.absoluteY piece.targetY).distance
    rw [heq]
    refine ⟨hm, ?_⟩
    unfold Piece.togo at htogo ⊢
    dsimp only
    rw [hx, hy]
    omega

namespace Gliding

variable {d : Display} {vm : Vm} {p : PieceRef} {i : ℤ} {n : ℕ}

theorem mono (h : Gliding vm p i n) {m : ℕ} (hle : m ≤ n) : Gliding vm p i m :=
  ⟨h.created, h.animation, h.cell, h.moving, hle.trans_lt h.togo⟩

theorem not_arrived (h : Gliding vm p i n) : ¬ (vm.heap p).Arrived := by
  have htogo := h.togo
  rw [← Piece.togo_eq_zero_iff]
  omega

/-- **A frame brings the piece nearer**, whatever byte it polls, if no received move takes the
piece away. -/
theorem frame (h : Gliding vm p i (n + 1)) (hi : IsCell i) (hu : vm.Unique)
    (hplay : vm.gameState = .playing) (hgoing : vm.endGame = false) {b : UInt8} {queue : Queue}
    (hread : readFromQueue vm.receiveQueue = (b, queue)) {arrivals : ℕ} {vm' : Vm}
    (hev : handleEvent d arrivals .newFrame vm = some vm')
    (hmove : vm.Completes b → vm.board.board (originCell vm) ≠ some p ∧ byteCell b ≠ i) :
    Gliding vm' p i n := by
  rw [handleEvent_frame_byte hplay h.created hgoing hread, Option.map_eq_some_iff] at hev
  obtain ⟨w, hparse, rfl⟩ := hev
  have hheap : (playingFrame d vm).heap p = (vm.heap p).updated true := by
    rw [← h.animation]
    exact updateBoard_piece vm.animation hi h.cell (hu.one hi h.cell) _
  obtain ⟨hmoving, htogo⟩ := Piece.updated_gliding h.moving h.togo
  rw [← hheap] at hmoving htogo
  obtain rfl | rfl | rfl | ⟨move, byteOfMove, rfl⟩ | ⟨q, gameState, won, hcomplete, hq, -, rfl⟩ :=
    parseByte_cases hparse
  · exact ⟨h.created, h.animation, h.cell, hmoving, htogo⟩
  · exact ⟨h.created, h.animation, h.cell, hmoving, htogo⟩
  · exact ⟨h.created, h.animation, h.cell, hmoving, htogo⟩
  · exact ⟨h.created, h.animation, h.cell, hmoving, htogo⟩
  · -- another piece is moved, to another cell
    obtain ⟨horigin, hdest⟩ := hmove hcomplete
    have hother : p ≠ q := by
      rintro rfl
      exact horigin hq
    have hcell : i ≠ moveCell vm.move.oldRow vm.move.oldCol := by
      rintro rfl
      exact horigin h.cell
    refine ⟨h.created, h.animation, ?_, ?_, ?_⟩
    · refine (Function.update_of_ne hcell _ _).trans ?_
      exact (Function.update_of_ne (Ne.symm hdest) _ _).trans h.cell
    · exact (congrArg Piece.isMoving (Function.update_of_ne hother _ _)).trans hmoving
    · exact htogo.trans_eq (congrArg Piece.togo (Function.update_of_ne hother _ _)).symm

end Gliding

/-- **A fed byte keeps the cache and brings the piece nearer**, if nothing is dragged and no
received move takes the piece away. -/
theorem Listening.glide {d : Display} {s : Instance} {r r' : Seat} (h : Listening d s r)
    (hcache : CacheOk d s) (hidle : r.dragging = none) {p : PieceRef} {i : ℤ} {n : ℕ}
    (hi : IsCell i) (hglides : Gliding s.vm p i (n + 1)) {b : UInt8} (hparse : r.parse b = some r')
    (hmove : IsPosition b → r.byteOfMove ≠ 0 →
      r.origin ≠ byteCell b ∧ r.cells r.origin ≠ some p ∧ byteCell b ≠ i) :
    Along (KeepsCache d) (Instance.stepInput d) s (feed b) ∧
      CacheOk d (run (Instance.stepInput d) s (feed b)) ∧
      Gliding (run (Instance.stepInput d) s (feed b)).vm p i n := by
  obtain ⟨s', ⟨hs', hrun⟩, ⟨hgame, halive, hseat⟩, hparsed⟩ := h.frame b
  rw [hparse, Option.map_eq_some_iff] at hparsed
  obtain ⟨vm', hev, -⟩ := hparsed
  -- what the frame finds
  have hglides' : Gliding s'.vm p i (n + 1) := by
    have hstate : s.vm.gameState = .playing := by rw [← seat_gameState d, h.shows, h.playing]
    have hline : s.vm.line = [] := by rw [← seat_line d, h.shows, h.line]
    rw [← hs', Instance.stepInput_received h.alive (by simp [hstate]) hline b]
    exact ⟨hglides.created, hglides.animation, hglides.cell, hglides.moving, hglides.togo⟩
  have hcache' : CacheOk d s' := by
    rw [← hs']
    exact (hcache.stepInput (keepsCache_of_ne (by simp))).stepInput (keepsCache_of_ne (by simp))
  have hstate : s'.vm.gameState = .playing := by rw [← seat_gameState d, hseat, h.playing]
  have hgoing : s'.vm.endGame = false := by rw [← seat_endGame d, hseat, h.endGame]
  have hnone : s'.vm.draggingPiece = none := by rw [← seat_dragging d, hseat, hidle]
  have hbyte : s'.vm.byteOfMove = r.byteOfMove := by rw [← seat_byteOfMove d, hseat]
  have horigin : originCell s'.vm = r.origin := by rw [originCell, ← seat_origin d, hseat]
  have hboard : s'.vm.board.board (originCell s'.vm) = r.cells r.origin := by
    have hcells : (seat d s'.vm).cells r.origin = r.cells r.origin := by rw [hseat]
    rw [← hcells, horigin, seat, ensureBoard_of_created hglides'.created]
    exact (cellsOf_of_isCell (horigin ▸ hgame.isCell_originCell)).symm
  have hread : readFromQueue s'.vm.receiveQueue = (b, (readFromQueue s'.vm.receiveQueue).2) := by
    have hqueue : s'.vm.receiveQueue.toList = [b] := by rw [← seat_receive d, hseat]
    exact Prod.ext (readFromQueue_of_cons hgame.sound.receive.1 hqueue).1 rfl
  have hkeeps : KeepsCache d s' (.inl (.event 0 .newFrame)) := by
    refine ⟨fun _ _ _ _ _ _ hdrag => absurd (hnone.symm.trans hdrag) (by simp), ?_⟩
    intro o m happlied
    rw [(appliedMove_queued hgame halive h.playing hseat).2] at happlied
    split_ifs at happlied with hcond
    obtain ⟨rfl, rfl⟩ := Prod.mk.inj (Option.some.inj happlied)
    exact ⟨(hmove hcond.1 hcond.2).1, fun q hdrag => absurd (hnone.symm.trans hdrag) (by simp)⟩
  have hunique : s'.vm.Unique := by
    have hu := hcache'.unique
    rwa [ensureBoard_of_created hglides'.created] at hu
  have hstep : s'.step d (.event 0 .newFrame) = { s' with vm := vm' } :=
    Instance.step_event halive hev
  refine ⟨?_, ?_, ?_⟩
  · refine ⟨keepsCache_of_ne (by simp), keepsCache_of_ne (by simp), ?_, trivial⟩
    rw [hs']
    exact hkeeps
  · rw [hrun]
    exact hcache'.stepInput hkeeps
  · rw [hrun, hstep]
    refine hglides'.frame hi hunique hstate hgoing hread hev fun hcomplete => ?_
    obtain ⟨hbegin, hturn, hzero, hmoves⟩ := hcomplete
    rw [hboard]
    exact (hmove ⟨hbegin, hturn, hzero⟩ (hbyte ▸ hmoves)).2

/-- A message that moves another piece keeps the cache, too. -/
theorem Listening.glide_message {d : Display} {s : Instance} {r : Seat} (h : Listening d s r)
    (hcache : CacheOk d s) (hidle : r.dragging = none) {p : PieceRef} {i : ℤ} {n : ℕ}
    (hi : IsCell i) (hglides : Gliding s.vm p i (n + 4)) {o m : ℤ} (ho : IsCell o) (hm : IsCell m)
    (ho0 : o ≠ 0) (hm0 : m ≠ 0) {q : PieceRef} (hq : r.cells o = some q) (hne : o ≠ m)
    (hother : q ≠ p) (hdest : m ≠ i) (hking : Seat.kingAt r.cells m = false) :
    Along (KeepsCache d) (Instance.stepInput d) s ((message o m).flatMap feed) ∧
      Gliding (run (Instance.stepInput d) s ((message o m).flatMap feed)).vm p i n := by
  have hcontrol : ¬ IsPosition beginMessage ∧ ¬ IsPosition yourTurn := by decide
  -- `BEGIN_MESSAGE`, and the origin
  have hbegin := Seat.parse_beginMessage r
  obtain ⟨halong₁, hcache₁, hglides₁⟩ := h.glide hcache hidle hi hglides hbegin
    fun hposition => absurd hposition hcontrol.1
  have h₁ := (h.run_feed beginMessage).2.2.2 _ hbegin h.playing
  have horigin : ({ r with byteOfMove := 0 } : Seat).parse (cellByte o) =
      some { r with byteOfMove := 1, origin := o } := by
    rw [Seat.parse_cellByte _ ho ho0]
    rfl
  obtain ⟨halong₂, hcache₂, hglides₂⟩ := h₁.glide hcache₁ hidle hi hglides₁ horigin
    fun _ hmoves => absurd rfl hmoves
  have h₂ := (h₁.run_feed (cellByte o)).2.2.2 _ horigin h.playing
  -- the destination, and `YOUR_TURN`
  obtain ⟨r₃, hparse₃, hplay₃, hidle₃⟩ : ∃ r₃,
      ({ r with byteOfMove := 1, origin := o } : Seat).parse (cellByte m) = some r₃ ∧
        r₃.gameState = .playing ∧ r₃.dragging = none := by
    rw [Seat.parse_cellByte _ hm hm0, if_neg Nat.one_ne_zero, Seat.receiveMove]
    simp only [hq, hking, Bool.false_eq_true, if_false]
    exact ⟨_, rfl, h.playing, hidle⟩
  obtain ⟨halong₃, hcache₃, hglides₃⟩ := h₂.glide hcache₂ hidle hi hglides₂ hparse₃ fun _ _ => by
    rw [byteCell_cellByte hm]
    refine ⟨hne, ?_, hdest⟩
    dsimp only
    rw [hq]
    exact fun heq => hother (Option.some.inj heq)
  have h₃ := (h₂.run_feed (cellByte m)).2.2.2 _ hparse₃ hplay₃
  obtain ⟨halong₄, -, hglides₄⟩ := h₃.glide hcache₃ hidle₃ hi hglides₃ (Seat.parse_yourTurn r₃)
    fun hposition => absurd hposition hcontrol.2
  simp only [message, List.flatMap_cons, List.flatMap_nil, List.append_nil, run_append,
    Transition.along_append]
  exact ⟨⟨halong₁, halong₂, halong₃, halong₄⟩, hglides₄⟩

/-- A piece is on its way behind the release that makes its move. -/
theorem gliding_release {d : Display} {base v : Vm} {p : PieceRef} {x y x' y' : ℤ}
    (hdrag : Dragging d base v p x y) (hon : OnBoard x y) (hdrops : Drops d v p x' y')
    (hanimation : v.animation = true) {n : ℕ}
    (hfar : n < distance (UInt16.ofInt (getScreenX d.toGeometry x))
      (UInt16.ofInt (getScreenX d.toGeometry x'))) :
    Gliding (release d v p) p (y' * 8 + x') n := by
  obtain ⟨hcol, hrow⟩ := hdrag.inicial_eq hon
  have hmove := release_move hdrops
  rw [putBackPiece, hcol, hrow] at hmove
  generalize hpiece : movePiece _ _ _ = piece' at hmove
  have hmoving : piece'.isMoving = true := by rw [← hpiece]; rfl
  have htogo : n < piece'.togo := by
    rw [← hpiece]
    exact hfar.trans_le (le_max_left _ _)
  generalize release d v p = r at hmove
  subst hmove
  refine ⟨hdrag.created, hanimation, Function.update_self .., ?_, ?_⟩
  · dsimp only
    rwa [Function.update_self]
  · dsimp only
    rwa [Function.update_self]

/-- A press goes on with the motion. -/
theorem Gliding.press {images : Images} {s : Instance} {p : PieceRef} {x y : ℤ} {n : ℕ}
    (h : Gliding s.vm p (y * 8 + x) n) {g : Gesture}
    (hlifts : g.Lifts (Display.mode115 images) s p x y) (hend : s.vm.endGame = false) :
    let vm := (g.pressed (Display.mode115 images) s).vm
    Gliding vm p (y * 8 + x) n ∧ vm.draggingPiece = some p ∧
      vm.receiveQueue = s.vm.receiveQueue := by
  rw [hlifts.pressed_eq hend, ensureBoard_of_created h.created]
  refine ⟨⟨h.created, h.animation, h.cell, ?_, ?_⟩, rfl, rfl⟩
  · dsimp only
    rw [heap_press, Function.update_self]
    exact h.moving
  · dsimp only
    rw [heap_press, Function.update_self]
    exact h.togo

/-- A frame keeps the cache while a piece on its way is being dragged. -/
theorem Gliding.keepsCache {d : Display} {s : Instance} {p : PieceRef} {i : ℤ} {n : ℕ}
    (h : Gliding s.vm p i n) (hdrag : s.vm.draggingPiece = some p)
    (hbyte : ¬ IsPosition (readFromQueue s.vm.receiveQueue).1) (arrivals : ℕ) :
    KeepsCache d s (.inl (.event arrivals .newFrame)) where
  motion _ _ j q _ _ hq _ := by
    obtain rfl := Option.some.inj (hdrag.symm.trans hq)
    rw [ensureBoard_of_created h.created]
    exact ⟨h.animation, h.not_arrived⟩
  received o m hmove := by
    unfold appliedMove polledByte at hmove
    split_ifs at hmove
    simp [hbyte] at hmove

/-- The next frame shows the pieces where `updateBoard` leaves them. -/
structure FullRedraw (d : Display) (vm : Vm) : Prop where
  /-- The frame composes `video_mem_buffer` from scratch: out of `mem_board`, the pieces without
  priority and the pieces with it. -/
  composed : let (heap, redrawPieces) :=
      updateBoard vm.board.board vm.animation (vm.heap, vm.redrawPieces)
    ∀ a < vramSize d.toGeometry,
      (drawBoardPieces d vm.board heap redrawPieces vm.videoMemBuffer).2 a =
        drawPriority d vm.board.board heap true
          (drawPriority d vm.board.board heap false vm.board.memBoard) a
  /-- Where the frame does not redraw the pieces, `mem_pieces` holds `mem_board` with the pieces
  that have no priority. -/
  cached : let (heap, redrawPieces) :=
      updateBoard vm.board.board vm.animation (vm.heap, vm.redrawPieces)
    redrawPieces = false → ∀ a < vramSize d.toGeometry,
      vm.board.memPieces a = drawPriority d vm.board.board heap false vm.board.memBoard a

/-- **Cached rendering is a full redraw**, in every state that a new game reaches on arbitrary
events and bytes by inputs that keep the cache. -/
theorem cached_rendering {d : Display} {s : Instance} (h : NewGame d s.vm)
    {inputs : List (Action ⊕ UInt8)}
    (hok : Along (KeepsCache d) (Instance.stepInput d) s inputs) :
    FullRedraw d (ensureBoard d (run (Instance.stepInput d) s inputs).vm) := by
  have hcache : CacheOk d (run (Instance.stepInput d) s inputs) :=
    run_invariant_along (CacheOk d) (KeepsCache d) (fun _ i hs hi => hs.stepInput hi) h.cacheOk hok
  constructor
  · intro a ha
    exact composed_frame hcache.cached hcache.unique ha
  · intro hredraw a ha
    exact hcache.cached.cache_of_updateBoard hcache.unique hredraw ha

/-- The piece of a click is on its way behind its release. -/
theorem Stands.gliding {images : Images} {s : Instance} {v : Diagram} {sent : List UInt8}
    (h : Stands images s v sent) {c : Click} (hok : c.Ok v) (hanimation : s.vm.animation = true)
    {n : ℕ} (hfar : n < distance (UInt16.ofInt (getScreenX mode115 c.x))
      (UInt16.ofInt (getScreenX mode115 c.x'))) :
    Gliding (c.gesture.dropped (Display.mode115 images) s).vm c.p c.target n := by
  obtain ⟨-, ⟨-, hgoing⟩, -, hto, ⟨hon, -⟩, -⟩ := id hok
  have hlifts := h.lifts hok
  obtain ⟨w, hdropped, hdrag, hcursor, -, hkept, -⟩ := hlifts.released rfl (h.ended.trans hgoing)
  have hdrops : Drops (Display.mode115 images) w c.p c.x' c.y' := by
    refine (hdrag.drops_iff hon hlifts.presses.cell (h.erased h.idle) ?_).mpr (h.playable hok)
    rw [hcursor, h.cursor_eq c]
    exact hto
  rw [hdropped]
  exact gliding_release hdrag hon hdrops (hkept.trans hanimation) hfar

/-- The two packets of a drag. -/
theorem Click.run_gesture (c : Click) (d : Display) (s : Instance) :
    run (Instance.stepInput d) s
      [.inl (.event 0 (.mouse c.press)), .inl (.event 0 (.mouse c.release))] =
      c.gesture.dropped d s := rfl

/-- A drag of two packets keeps the cache. -/
theorem CacheOk.dropped {d : Display} {s : Instance} (h : CacheOk d s) (c : Click) :
    CacheOk d (c.gesture.dropped d s) :=
  (h.stepInput (i := .inl (.event 0 (.mouse c.press))) (keepsCache_of_ne (by simp))).stepInput
    (i := .inl (.event 0 (.mouse c.release))) (keepsCache_of_ne (by simp))

/-- The knight jumps out. -/
def jumpOut : Click := ⟨knightGesture.press, knightGesture.release, 17, 1, 7, 2, 5⟩

/-- It jumps on. -/
def jumpOn : Click := ⟨knightGesture.press, buttonUp (-59) 118, 17, 2, 5, 1, 3⟩

theorem newGame_knight (images : Images) : NewGame (Display.mode115 images) knightGame.vm :=
  { newGame_initialGame (Display.mode115 images) .white with board := .inl rfl }

/-- The knight is on its way behind its release. -/
theorem knight_jumpOut (images : Images) :
    let t := jumpOut.gesture.dropped (Display.mode115 images) knightGame
    Stands images t ((Diagram.initial .white ⟨150, 500, false, false⟩).moved jumpOut)
        (message jumpOut.origin jumpOut.target) ∧
      Gliding t.vm 17 42 58 ∧ CacheOk (Display.mode115 images) t := by
  have hstart : Stands images knightGame (.initial .white ⟨150, 500, false, false⟩) [] :=
    stands_newGame (newGame_knight images) rfl rfl
  have hout : jumpOut.Ok (.initial .white ⟨150, 500, false, false⟩) := by decide +kernel
  exact ⟨hstart.moved hout rfl, hstart.gliding (c := jumpOut) hout rfl (by decide),
    (NewGame.cacheOk (newGame_knight images)).dropped jumpOut⟩

/-- The knight jumps out; while it is on its way, the message arrives that a black pawn has made a
step; the knight is pressed again, and a frame finds it on its way and being dragged. -/
def jumpInputs : List (Action ⊕ UInt8) :=
  [.inl (.event 0 (.mouse jumpOut.press)), .inl (.event 0 (.mouse jumpOut.release))] ++
    ((message 11 19).flatMap feed ++
      [.inl (.event 0 (.mouse jumpOn.press)), .inl (.event 0 .newFrame)])

/-- These inputs keep the cache. -/
theorem along_jumpInputs : Along (KeepsCache (Display.mode115 .blank))
    (Instance.stepInput (Display.mode115 .blank)) knightGame jumpInputs := by
  obtain ⟨hmoved, hglides, hcache⟩ := knight_jumpOut .blank
  rw [jumpInputs, Transition.along_append, Transition.along_append, jumpOut.run_gesture]
  refine ⟨⟨keepsCache_of_ne (by simp), keepsCache_of_ne (by simp), trivial⟩, ?_⟩
  generalize jumpOut.gesture.dropped (Display.mode115 .blank) knightGame = t
    at hmoved hglides hcache ⊢
  -- the message
  have hcells : (seat (Display.mode115 .blank) t.vm).cells =
    ((Diagram.initial .white ⟨150, 500, false, false⟩).moved jumpOut).cells := hmoved.cells
  have hlistens := hmoved.listening (by decide +kernel)
  obtain ⟨halong, hglides'⟩ := hlistens.glide_message hcache
    ((seat_dragging _ _).trans hmoved.idle) (by decide) hglides (o := 11) (m := 19) (q := 11)
    (by decide) (by decide) (by decide) (by decide) (by rw [hcells]; decide +kernel) (by decide)
    (by decide) (by decide) (by rw [hcells]; decide +kernel)
  have hheard := hmoved.heard (by decide +kernel) (o := 11) (n := 19) (by decide) (by decide)
    (by decide +kernel)
  refine ⟨halong, ?_⟩
  generalize run _ t ((message 11 19).flatMap feed) = u at hglides' hheard ⊢
  -- the press, and the frame
  have hon : jumpOn.Ok (((Diagram.initial .white ⟨150, 500, false, false⟩).moved
    jumpOut).heard 11 19) := by decide +kernel
  have hlifts := hheard.lifts hon
  obtain ⟨hpressed, hdrag, hqueue⟩ := Gliding.press (x := 2) (y := 5) hglides' hlifts
    (hheard.ended.trans (by decide +kernel))
  refine ⟨keepsCache_of_ne (by simp), hpressed.keepsCache hdrag ?_ 0, trivial⟩
  rw [hqueue, readFromQueue_of_nil hheard.receive_nil]
  exact (by decide : ¬ IsPosition 0)

/-- The frame behind the jump is a full redraw. -/
theorem cached_rendering_jump : FullRedraw (Display.mode115 .blank)
    (ensureBoard (Display.mode115 .blank) (run (Instance.stepInput (Display.mode115 .blank))
      knightGame jumpInputs).vm) :=
  cached_rendering (newGame_knight .blank) along_jumpInputs

/-! ## A motion that ends during a drag -/

/-- A picture of one orange pixel. -/
def orangeDot : XpmImage := ⟨1, 1, colorBytes orange⟩

/-- Mode `0x115`, where every piece is drawn as an orange pixel. -/
def dotDisplay : Display := .mode115 { Images.blank with pieceImage := fun _ => orangeDot }

/-- The piece is drawn at the corner of square `(x, y)`. -/
def Piece.AtCorner (piece : Piece) (x y : ℤ) : Prop :=
  (piece.absoluteX.toNat : ℤ) = 59 * x + 65 ∧ (piece.absoluteY.toNat : ℤ) = 59 * y + 64

/-- An orange dot is one pixel of the screen, or nothing. -/
theorem drawImage_orangeDot (m : Memory) (px py : ℕ) :
    drawImage mode115 m orangeDot px py =
      if px < 800 ∧ py < 600 then
        Memory.memcpy m (pixelAddr mode115 px py) (colorBytes orange) 3
      else m := by
  unfold drawImage
  split
  · rename_i hscreen
    obtain ⟨hpx, hpy⟩ := hscreen
    have hheight : min orangeDot.height (mode115.yResolution - py) = 0 + 1 := by
      simp only [orangeDot, mode115]
      omega
    have hwidth : min orangeDot.width (mode115.xResolution - px) = 0 + 1 := by
      simp only [orangeDot, mode115]
      omega
    rw [hheight, hwidth, forLoop_succ (Nat.le_refl 0), forLoop_of_le (Nat.le_refl 0),
      forLoop_succ (Nat.le_refl 0), forLoop_of_le (Nat.le_refl 0)]
    have hopaque : ¬ Memory.sameBytes orangeDot.bytes (0 * orangeDot.width *
        mode115.bytesPerPixel % 4294967296) (colorBytes colorTransparent)
        mode115.bytesPerPixel = true := by decide
    have haddr := pixelAddr_mod fits_mode115 (show px < mode115.xResolution from hpx)
      (show py < mode115.yResolution from hpy)
    simp only [drawImagePixel, Nat.add_zero, haddr]
    rw [if_neg hopaque]
    have hzero : 0 * orangeDot.width * mode115.bytesPerPixel % 4294967296 = 0 := rfl
    simp only [hzero, Nat.zero_add]
    rfl
  · rename_i hscreen
    rcases Nat.lt_or_ge py 600 with hpy | hpy
    · have hwidth : min orangeDot.width (mode115.xResolution - px) ≤ 0 := by
        simp only [orangeDot, mode115]
        omega
      exact forLoop_keeps (fun m' => m' = m)
        (fun _ m' h => by rw [forLoop_of_le hwidth, h]) rfl
    · have hheight : min orangeDot.height (mode115.yResolution - py) ≤ 0 := by
        simp only [orangeDot, mode115]
        omega
      rw [forLoop_of_le hheight]

section Dots

variable {x y : ℤ} (hon : OnBoard x y)
include hon

/-- The dot of a piece marks the corner it is drawn at. -/
theorem isOrange_drawPieces (m : Memory) (piece : Piece) :
    isOrange mode115 (drawPieces dotDisplay m piece) x y = true ↔
      isOrange mode115 m x y = true ∨ piece.AtCorner x y := by
  obtain ⟨hy, hy', hx, hx'⟩ := id hon
  have hdraw : drawPieces dotDisplay m piece =
      drawImage mode115 m orangeDot piece.absoluteX.toNat piece.absoluteY.toNat := rfl
  unfold Piece.AtCorner
  rw [hdraw, isOrange_iff _ hon, isOrange_iff _ hon, drawImage_orangeDot]
  generalize piece.absoluteX.toNat = px
  generalize piece.absoluteY.toNat = py
  split
  · rename_i hscreen
    have hpixel : ∀ k < 3, Memory.memcpy m (pixelAddr mode115 px py) (colorBytes orange) 3
        (pixelAddr mode115 (59 * x + 65).toNat (59 * y + 64).toNat + k) =
          if (59 * x + 65).toNat = px ∧ (59 * y + 64).toNat = py then colorBytes orange k
          else m (pixelAddr mode115 (59 * x + 65).toNat (59 * y + 64).toNat + k) :=
      fun k hk => memcpy_pixel (g := mode115) m _ hscreen.1 (show _ < 800 by omega) hk
    by_cases hat : (px : ℤ) = 59 * x + 65 ∧ (py : ℤ) = 59 * y + 64
    · refine iff_of_true (fun k hk => ?_) (.inr hat)
      rw [hpixel k hk, if_pos (by omega)]
    · rw [or_iff_left hat]
      refine forall₂_congr fun k hk => ?_
      rw [hpixel k hk, if_neg (by omega)]
  · rename_i hscreen
    rw [or_iff_left (by omega)]

/-- Drawing pieces erases no dot. -/
theorem isOrange_drawPriority_of_isOrange (cells : ℤ → Option PieceRef) (heap : Heap)
    (priority : Bool) {m : Memory} (h : isOrange mode115 m x y = true) :
    isOrange mode115 (drawPriority dotDisplay cells heap priority m) x y = true := by
  refine eachPiece_keeps (fun m => isOrange mode115 m x y = true) (fun i p m _ _ _ h => ?_) h
  split
  · exact (isOrange_drawPieces hon m _).mpr (.inl h)
  · exact h

/-- The dot of a piece is drawn. -/
theorem isOrange_drawPriority {cells : ℤ → Option PieceRef} {heap : Heap} {priority : Bool}
    {i : ℤ} (hi : IsCell i) {p : PieceRef} (hp : cells i = some p)
    (hpriority : (heap p).priorityDraw = priority) (hat : (heap p).AtCorner x y) (m : Memory) :
    isOrange mode115 (drawPriority dotDisplay cells heap priority m) x y = true := by
  refine eachPiece_reaches (fun _ => True) (fun m => isOrange mode115 m x y = true) hi hp
    (fun _ _ _ _ _ _ _ => trivial) (fun m _ => ?_) (fun j q m _ _ _ h => ?_) trivial
  · rw [if_pos hpriority]
    exact (isOrange_drawPieces hon m _).mpr (.inr hat)
  · split
    · exact (isOrange_drawPieces hon m _).mpr (.inl h)
    · exact h

/-- No other dot is drawn. -/
theorem isOrange_drawPriority_eq_false {cells : ℤ → Option PieceRef} {heap : Heap}
    (priority : Bool) (hnone : ∀ i p, IsCell i → cells i = some p → ¬ (heap p).AtCorner x y)
    {m : Memory} (h : isOrange mode115 m x y = false) :
    isOrange mode115 (drawPriority dotDisplay cells heap priority m) x y = false := by
  refine eachPiece_keeps (fun m => isOrange mode115 m x y = false) (fun i p m hi hi' hp h => ?_) h
  split
  · rw [← Bool.not_eq_true, isOrange_drawPieces hon, h]
    simpa using hnone i p ⟨hi, hi'⟩ hp
  · exact h

/-- Buffers that agree on the screen have the same dots. -/
theorem isOrange_of_agree {m m' : Memory} (h : ∀ a < vramSize mode115, m a = m' a) :
    isOrange mode115 m x y = isOrange mode115 m' x y := by
  obtain ⟨hy, hy', hx, hx'⟩ := id hon
  rw [Bool.eq_iff_iff, isOrange_iff _ hon, isOrange_iff _ hon]
  refine forall₂_congr fun k hk => ?_
  have hin := pixelAddr_add_le (g := mode115) (show (59 * x + 65).toNat < 800 by omega)
    (show (59 * y + 64).toNat < 600 by omega)
  have hsize : mode115.bytesPerPixel = 3 := rfl
  rw [h _ (by omega)]

/-- A copied buffer keeps its dots. -/
theorem isOrange_copyBuffers (m m' : Memory) :
    isOrange mode115 (copyBuffers mode115 m m') x y = isOrange mode115 m' x y :=
  isOrange_of_agree hon fun _ ha => copyBuffers_of_lt _ _ _ ha

end Dots

/-- The corner of a cell, on the screen. -/
theorem AtCell.corner {i : ℤ} (hi : IsCell i) {px py : UInt16} (h : AtCell mode115 i px py) :
    (px.toNat : ℤ) = 59 * (i % 8) + 65 ∧ (py.toNat : ℤ) = 59 * (i / 8) + 64 := by
  obtain ⟨h0, h64⟩ := hi
  have hcast : ∀ z : ℤ, 0 ≤ z → z < 65536 → ((UInt16.ofInt z).toNat : ℤ) = z := by
    intro z hz hz'
    simp only [UInt16.ofInt, UInt16.toNat_ofNat']
    omega
  obtain ⟨rfl, rfl⟩ := h
  rw [getScreenX_mode115 (by omega) (by omega), getScreenY_mode115 (by omega) (by omega)]
  exact ⟨hcast _ (by omega) (by omega), hcast _ (by omega) (by omega)⟩

/-- A board at rest is not updated. -/
theorem updateBoard_rest {cells : ℤ → Option PieceRef} {heap : Heap}
    (h : ∀ i p, IsCell i → cells i = some p →
      (heap p).isMoving = false ∧ (heap p).change = false) (animation redraw : Bool) :
    updateBoard cells animation (heap, redraw) = (heap, redraw) := by
  refine eachPiece_keeps (fun s => s = (heap, redraw)) (fun i p s hi hi' hp hs => ?_) rfl
  obtain ⟨hmoving, hchange⟩ := h i p ⟨hi, hi'⟩ hp
  rw [hs]
  simp only [updateCell, hmoving, hchange, Bool.false_eq_true, if_false]

section Stale

variable {vm : Vm} {p : PieceRef} {x y : ℤ}

/-- Without animation, a frame leaves every piece of the board at rest. -/
theorem rest_playingFrame {d : Display} (hu : vm.Unique) (hanimation : vm.animation = false)
    {i : ℤ} (hi : IsCell i) {q : PieceRef} (hq : vm.board.board i = some q) :
    ((playingFrame d vm).heap q).isMoving = false ∧
      ((playingFrame d vm).heap q).change = false := by
  have hheap : (playingFrame d vm).heap q = (vm.heap q).updated vm.animation :=
    updateBoard_piece vm.animation hi hq (hu.one hi hq) _
  rw [hheap]
  rcases (vm.heap q).updated_cases vm.animation with ⟨hrest, heq, -⟩ | ⟨-, -, heq, -⟩ |
    ⟨-, hon, -⟩
  · rw [heq]
    exact ⟨hrest, rfl⟩
  · rw [heq]
    exact ⟨rfl, rfl⟩
  · exact absurd (hanimation.symm.trans hon) (by decide)

/-- A motion that ends during a drag leaves the dot of its piece in the cache, where a full redraw
draws none. -/
theorem stale_frame (hon : OnBoard x y) (hu : vm.Unique) (hshown : vm.Shown dotDisplay)
    (hdrag : vm.draggingPiece = some p) (hcell : vm.board.board (y * 8 + x) = some p)
    (hmoving : (vm.heap p).isMoving = true) (hanimation : vm.animation = false)
    (hmark : isOrange mode115 vm.board.memBoard x y = false) {w : Vm}
    (hboard : w.board = (playingFrame dotDisplay vm).board) {a b : ℤ}
    (hheap : w.heap = Function.update (playingFrame dotDisplay vm).heap p
      (setPiecePosition ((playingFrame dotDisplay vm).heap p) a b))
    (haway : ¬ (w.heap p).AtCorner x y) (hredraw : w.redrawPieces = false) :
    ¬ FullRedraw dotDisplay w := by
  have hi : IsCell (y * 8 + x) := isCell_of_onBoard hon
  have hcells : w.board.board = vm.board.board := by rw [hboard]; rfl
  obtain ⟨hy, hy', hx, hx'⟩ := id hon
  -- the frame ends the motion, and caches the dot
  have hp : (playingFrame dotDisplay vm).heap p = (vm.heap p).updated vm.animation :=
    updateBoard_piece vm.animation hi hcell (hu.one hi hcell) _
  obtain ⟨-, -, heq, hredraws⟩ : (vm.heap p).isMoving = true ∧ _ := by
    rcases (vm.heap p).updated_cases vm.animation with ⟨hrest, -⟩ | h | ⟨-, hon, -⟩
    · exact absurd (hmoving.symm.trans hrest) (by decide)
    · exact h
    · exact absurd (hanimation.symm.trans hon) (by decide)
  have hcorner : ((playingFrame dotDisplay vm).heap p).AtCorner x y := by
    have htarget := ((hshown _ p hi hcell).moving hmoving).corner hi
    rw [hp, heq]
    unfold Piece.AtCorner
    dsimp only
    omega
  have hfilled : (updateBoard vm.board.board vm.animation (vm.heap, vm.redrawPieces)).2 = true := by
    by_contra hfalse
    have hnone := (updateBoard_redraw (by simpa using hfalse)).2 _ p hi.1 hi.2 hcell
      (hu.one hi hcell)
    exact absurd (hredraws.symm.trans hnone) (by decide)
  have hcached : isOrange mode115 w.board.memPieces x y = true := by
    have hmem : w.board.memPieces = drawPriority dotDisplay vm.board.board
        (playingFrame dotDisplay vm).heap false
        (copyBuffers mode115 vm.board.memPieces vm.board.memBoard) := by
      rw [hboard]
      exact if_pos hfilled
    rw [hmem]
    exact isOrange_drawPriority hon hi hcell (by rw [hp, heq]) hcorner _
  -- the next frame finds the board at rest
  have hrest : ∀ i q, IsCell i → w.board.board i = some q →
      (w.heap q).isMoving = false ∧ (w.heap q).change = false := by
    intro i q hi' hq
    have hcalm := rest_playingFrame (d := dotDisplay) hu hanimation hi' (hcells ▸ hq)
    rw [hheap]
    rcases eq_or_ne q p with rfl | hne
    · rw [Function.update_self]
      exact hcalm
    · rwa [Function.update_of_ne hne]
  -- the frame shows the dot that the cache holds
  have hshows : isOrange mode115
      (drawBoardPieces dotDisplay w.board w.heap false w.videoMemBuffer).2 x y = true := by
    apply isOrange_drawPriority_of_isOrange hon _ _ _
    exact (isOrange_copyBuffers hon _ _).trans hcached
  -- the full redraw misses it
  have hmisses : isOrange mode115 (drawPriority dotDisplay w.board.board w.heap true
      (drawPriority dotDisplay w.board.board w.heap false w.board.memBoard)) x y = false := by
    have hnone : ∀ i q, IsCell i → w.board.board i = some q → ¬ (w.heap q).AtCorner x y := by
      intro i q hi' hq hat
      rcases eq_or_ne q p with rfl | hne
      · exact haway hat
      · rw [hcells] at hq
        have hfits := Shown.updateBoard hshown vm.animation vm.redrawPieces i q hi' hq
        have hcalm := rest_playingFrame (d := dotDisplay) hu hanimation hi' hq
        have hcorner' := (hfits.resting hcalm.1 fun hq' =>
          hne (Option.some.inj (hq'.symm.trans hdrag))).corner hi'
        rw [hheap, Function.update_of_ne hne] at hat
        -- only the piece of the square itself stands at its corner
        obtain rfl : i = y * 8 + x := by
          obtain ⟨hatx, haty⟩ := hat
          have hx' := hatx.symm.trans hcorner'.1
          have hy' := haty.symm.trans hcorner'.2
          omega
        exact hne (Option.some.inj (hq.symm.trans hcell))
    have hmark' : isOrange mode115 w.board.memBoard x y = false := by
      rw [hboard]
      exact hmark
    exact isOrange_drawPriority_eq_false hon _ hnone
      (isOrange_drawPriority_eq_false hon _ hnone hmark')
  intro hfull
  have hsame := hfull.composed
  rw [hredraw, updateBoard_rest hrest] at hsame
  rw [isOrange_of_agree hon hsame] at hshows
  exact absurd (hshows.symm.trans hmisses) (by decide)

end Stale

/-- A piece that is dragged on its way to square `(x, y)`, which is not highlighted. -/
structure LiftedUnderWay (vm : Vm) (p : PieceRef) (x y : ℤ) : Prop
    extends Gliding vm p (y * 8 + x) 0 where
  playing : vm.gameState = .playing
  going : vm.endGame = false
  dragging : vm.draggingPiece = some p
  receive_nil : vm.receiveQueue.toList = []
  unmarked : isOrange mode115 vm.board.memBoard x y = false

/-- A knight that is pressed on its way. -/
theorem Stands.liftedUnderWay {images : Images} {s : Instance} {v : Diagram} {sent : List UInt8}
    (h : Stands images s v sent) {c : Click} (hok : c.Ok v)
    {n : ℕ} (hglides : Gliding s.vm c.p c.origin n) (hknight : kind c.p = .wKnight) :
    ∃ vm, s.stepInput (Display.mode115 images) (.inl (.event 0 (.mouse c.press))) =
        { s with vm := vm } ∧ LiftedUnderWay vm c.p c.x c.y ∧
      vm.cursor = c.pressCursor v.cursor := by
  obtain ⟨-, ⟨-, hgoing⟩, -, -, ⟨hon, -⟩, ⟨hat, -⟩, -⟩ := id hok
  have hlifts := h.lifts hok
  have hend := h.ended.trans hgoing
  have hpressed := hlifts.pressed_eq hend
  rw [ensureBoard_of_created hglides.created] at hpressed
  have hglides' := (hglides.press hlifts hend).1
  rw [hpressed] at hglides'
  refine ⟨_, hpressed, ⟨hglides'.mono (Nat.zero_le n), h.playing, hend, rfl, h.receive_nil, ?_⟩, ?_⟩
  · -- a knight does not highlight its own square
    have hclean : Clean s.vm.board.memBoard := by
      have := h.erased h.idle
      rwa [ensureBoard_of_created hglides.created] at this
    have htype : (s.vm.heap c.p).type = .wKnight := by
      have := h.type_eq (isCell_of_onBoard hon) hat
      rw [ensureBoard_of_created hglides.created] at this
      exact this.trans hknight
    rw [memBoard_press hon, Display.toGeometry_mode115, ← Bool.not_eq_true]
    simp only [possiblePosition, htype]
    rw [isOrange_knight _ hon hon, hclean c.x c.y hon]
    unfold KnightJump
    simp
  · rw [Click.pressCursor, ← h.cursor]
    rfl

/-- The animation is switched off, a frame ends the motion, and the mouse drags the piece away. -/
def switchOff (packet : Packet) : List (Action ⊕ UInt8) :=
  [.inl (.event 0 (.keyboard 0xac)), .inl (.event 0 .newFrame), .inl (.event 0 (.mouse packet))]

/-- The next frame shows the piece where its motion ended, and not where it is dragged. -/
theorem LiftedUnderWay.stale {s : Instance} {p : PieceRef} {x y : ℤ}
    (h : LiftedUnderWay s.vm p x y) (hon : OnBoard x y) (halive : s.crashed = false)
    (hcache : CacheOk dotDisplay s) {packet : Packet} (hdown : packet.lb = true)
    (haway : (UInt16.ofInt ((updateCursor mode115 packet s.vm.cursor).x.toNat - 29)).toNat ≠
      59 * x + 65) :
    let vm := (run (Instance.stepInput dotDisplay) s (switchOff packet)).vm
    vm.gameState = .playing ∧ vm.boardCreated = true ∧ ¬ FullRedraw dotDisplay vm := by
  -- the key
  have hkey : s.stepInput dotDisplay (.inl (.event 0 (.keyboard 0xac))) =
      { s with vm := { s.vm with animation := false } } := by
    refine (Instance.step_key halive h.playing h.created h.going 0 (by decide)).trans ?_
    rw [if_pos rfl, h.animation]
    rfl
  have hcache₁ := hcache.stepInput (i := .inl (.event 0 (.keyboard 0xac)))
    (keepsCache_of_ne (by simp))
  rw [hkey] at hcache₁
  obtain ⟨v, hv⟩ : ∃ v : Vm, v = { s.vm with animation := false } := ⟨_, rfl⟩
  rw [← hv] at hkey hcache₁
  obtain ⟨hplay, hcreated, hgoing, hdrag, hanimation, hreceive, hcell, hmoving, hmark, hcursor⟩ :
      v.gameState = .playing ∧ v.boardCreated = true ∧ v.endGame = false ∧
      v.draggingPiece = some p ∧ v.animation = false ∧ v.receiveQueue.toList = [] ∧
      v.board.board (y * 8 + x) = some p ∧ (v.heap p).isMoving = true ∧
      isOrange mode115 v.board.memBoard x y = false ∧ v.cursor = s.vm.cursor := by
    rw [hv]
    exact ⟨h.playing, h.created, h.going, h.dragging, rfl, h.receive_nil, h.cell, h.moving,
      h.unmarked, rfl⟩
  have hunique := hcache₁.unique
  have hshown := hcache₁.shown
  rw [ensureBoard_of_created hcreated] at hunique hshown
  -- the frame
  obtain ⟨w, hw⟩ : ∃ w : Vm, w = presentFrame dotDisplay { playingFrame dotDisplay v with
    receiveQueue := v.receiveQueue } := ⟨_, rfl⟩
  have hframe : Instance.stepInput dotDisplay { s with vm := v }
      (.inl (.event 0 .newFrame)) = { s with vm := w } := by
    have hevent := handleEvent_frame_byte (d := dotDisplay) hplay hcreated hgoing
      (readFromQueue_of_nil hreceive) 0
    rw [parseByte_zero, Option.map_some, ← hw] at hevent
    exact Instance.step_event (s := { s with vm := v }) halive hevent
  obtain ⟨hplay', hcreated', hgoing', hdrag', hboard, hheap, hredraw, hcursor'⟩ :
      w.gameState = .playing ∧ w.boardCreated = true ∧ w.endGame = false ∧
      w.draggingPiece = some p ∧ w.board = (playingFrame dotDisplay v).board ∧
      w.heap = (playingFrame dotDisplay v).heap ∧ w.redrawPieces = false ∧
      w.cursor = s.vm.cursor := by
    rw [hw]
    exact ⟨hplay, hcreated, hgoing, hdrag, rfl, rfl, rfl, hcursor⟩
  -- the mouse
  obtain ⟨c, hc⟩ : ∃ c : Cursor, c = updateCursor mode115 packet s.vm.cursor := ⟨_, rfl⟩
  have hmouse : Instance.stepInput dotDisplay { s with vm := w }
      (.inl (.event 0 (.mouse packet))) =
      { s with vm := follow { w with cursor := c } p } := by
    have hevent : handleEvent dotDisplay 0 (.mouse packet) w =
        some (follow { w with cursor := c } p) := by
      have hc' : updateCursor dotDisplay.toGeometry packet w.cursor = c := by
        rw [hc, hcursor']
        rfl
      rw [handleEvent_follow hplay' hcreated' hgoing' hdrag' hdown, hc']
    exact Instance.step_event (s := { s with vm := w }) halive hevent
  have hrun : (run (Instance.stepInput dotDisplay) s (switchOff packet)).vm =
      follow { w with cursor := c } p := by
    rw [switchOff, Transition.run_cons, hkey, Transition.run_cons, hframe, Transition.run_cons,
      hmouse, Transition.run_nil]
  rw [hrun]
  have hstale := stale_frame hon hunique hshown hdrag hcell hmoving hanimation hmark
    (w := follow { w with cursor := c } p) hboard (a := c.x.toNat - 29) (b := c.y.toNat - 29)
    ?_ ?_ hredraw
  · exact ⟨hplay', hcreated', hstale⟩
  · rw [← hheap]
    rfl
  · rintro ⟨hx, -⟩
    have hheap' : (follow { w with cursor := c } p).heap p =
        setPiecePosition (w.heap p) (c.x.toNat - 29) (c.y.toNat - 29) := Function.update_self ..
    rw [hheap'] at hx
    rw [← hc] at haway
    exact haway hx

/-- The packet that drags the knight away. -/
def dragAway : Packet := ⟨true, false, false, false, false, 100, 0⟩

/-- The knight of a new game is moved, the turn comes back while it is on its way, and it is
pressed again; then the animation is switched off. -/
def staleInputs : List (Action ⊕ UInt8) :=
  [.inl (.event 0 (.mouse jumpOut.press)), .inl (.event 0 (.mouse jumpOut.release))] ++
    (feed yourTurn ++ [.inl (.event 0 (.mouse jumpOn.press))]) ++ switchOff dragAway

/-- The knight is pressed again when the turn has come back. -/
theorem Stands.knight_lifted {images : Images} {s : Instance} {sent : List UInt8}
    (h : Stands images s { (Diagram.initial .white ⟨150, 500, false, false⟩).moved jumpOut with
      turn := true } sent) {n : ℕ} (hglides : Gliding s.vm 17 42 n)
    (hcache : CacheOk (Display.mode115 images) s) :
    let s' := s.stepInput (Display.mode115 images) (.inl (.event 0 (.mouse jumpOn.press)))
    s'.crashed = false ∧ LiftedUnderWay s'.vm 17 2 5 ∧
      s'.vm.cursor = jumpOn.pressCursor (jumpOut.releaseCursor ⟨150, 500, false, false⟩) ∧
      CacheOk (Display.mode115 images) s' := by
  have hon : jumpOn.Ok { (Diagram.initial .white ⟨150, 500, false, false⟩).moved jumpOut with
    turn := true } := by decide +kernel
  obtain ⟨vm, hstep, hlifted, hcursor⟩ := h.liftedUnderWay hon hglides rfl
  have hcache' := hcache.stepInput (i := .inl (.event 0 (.mouse jumpOn.press)))
    (keepsCache_of_ne (by simp))
  rw [hstep] at hcache' ⊢
  exact ⟨h.alive, hlifted, hcursor, hcache'⟩

/-- The knight is pressed on its way. -/
theorem knight_liftedUnderWay (images : Images) :
    let s' := run (Instance.stepInput (Display.mode115 images)) knightGame
      ([.inl (.event 0 (.mouse jumpOut.press)), .inl (.event 0 (.mouse jumpOut.release))] ++
        (feed yourTurn ++ [.inl (.event 0 (.mouse jumpOn.press))]))
    s'.crashed = false ∧ LiftedUnderWay s'.vm 17 2 5 ∧
      s'.vm.cursor = jumpOn.pressCursor (jumpOut.releaseCursor ⟨150, 500, false, false⟩) ∧
      CacheOk (Display.mode115 images) s' := by
  obtain ⟨hmoved, hglides, hcache⟩ := knight_jumpOut images
  rw [run_append, run_append, jumpOut.run_gesture, Transition.run_cons, Transition.run_nil]
  generalize jumpOut.gesture.dropped (Display.mode115 images) knightGame = t
    at hmoved hglides hcache ⊢
  obtain ⟨-, hcache', hglides'⟩ := (hmoved.listening (by decide +kernel)).glide hcache
    ((seat_dragging _ _).trans hmoved.idle) (by decide) hglides (Seat.parse_yourTurn _)
    fun hposition => absurd hposition (by decide)
  exact (hmoved.turned (by decide +kernel)).knight_lifted hglides' hcache'

/-- **Cached rendering is not a full redraw of every reachable state.** -/
theorem cached_rendering_fails :
    ¬ ∀ (s : Instance) (inputs : List (Action ⊕ UInt8)), NewGame dotDisplay s.vm →
      let vm := ensureBoard dotDisplay (run (Instance.stepInput dotDisplay) s inputs).vm
      vm.gameState = .playing → FullRedraw dotDisplay vm := by
  intro hclaim
  have hdot : Display.mode115 { Images.blank with pieceImage := fun _ => orangeDot } =
      dotDisplay := rfl
  have hlifted := knight_liftedUnderWay { Images.blank with pieceImage := fun _ => orangeDot }
  have hstale := hclaim knightGame staleInputs (hdot ▸ newGame_knight _)
  rw [hdot] at hlifted
  rw [staleInputs, run_append] at hstale
  dsimp only at hlifted
  generalize run (Instance.stepInput dotDisplay) knightGame _ = t at hlifted hstale
  obtain ⟨halive, hlifted, hcursor, hcache⟩ := hlifted
  have hdown : dragAway.lb = true := rfl
  obtain ⟨hplay, hcreated, hnot⟩ :=
    hlifted.stale (by decide) halive hcache hdown (by rw [hcursor]; decide)
  rw [ensureBoard_of_created hcreated] at hstale
  exact hnot (hstale hplay)

end LCChess

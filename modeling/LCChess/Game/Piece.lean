import LCChess.Video.VideoCard
import Mathlib.Logic.Function.Basic

/-!
# Pieces

The pieces of `piece.c`: the enumeration of their types, the record of one piece, and the two
ways a piece in motion is brought to its target. A piece is known by the reference `malloc`
returned for it; the heap holds the record behind every reference.

## Main definitions

* `PieceType`, `Piece`, `PieceRef`, `Heap`
* `updatePiece`, `updatePieceNoAnimation`, `movePiece`, `setPiecePosition`
* `Images`, `Display`: the pixmaps that `create_image` loaded, with the geometry
-/

namespace LCChess

open Loop (forLoop)

/-- `PieceType`; the declaration order is the numeric order the source compares with. -/
inductive PieceType
  | bPawn | bKnight | bBishop | bRook | bQueen | bKing
  | wPawn | wKnight | wBishop | wRook | wQueen | wKing
deriving DecidableEq

/-- The value of the enumerator. -/
def PieceType.toNat : PieceType → ℕ
  | .bPawn => 0 | .bKnight => 1 | .bBishop => 2 | .bRook => 3 | .bQueen => 4 | .bKing => 5
  | .wPawn => 6 | .wKnight => 7 | .wBishop => 8 | .wRook => 9 | .wQueen => 10 | .wKing => 11

/-- The test `type == b_pawn || type == w_pawn`. -/
def PieceType.isPawn (t : PieceType) : Bool := t == .bPawn || t == .wPawn

/-- The test `type == b_king || type == w_king`. -/
def PieceType.isKing (t : PieceType) : Bool := t == .bKing || t == .wKing

/-- The test `type > 5`: the piece is white. -/
def PieceType.isWhite (t : PieceType) : Bool := 5 < t.toNat

/-- `Piece`, without the fields `x` and `y`, which nothing reads, and the image, which is the
one of the type. -/
structure Piece where
  absoluteX : UInt16
  absoluteY : UInt16
  targetX : UInt16
  targetY : UInt16
  type : PieceType
  isMoving : Bool
  priorityDraw : Bool
  change : Bool
  pawnMoved : Bool

/-- A `Piece *`. -/
abbrev PieceRef := ℕ

/-- The record behind every piece reference. -/
abbrev Heap := PieceRef → Piece

/-- `initPiece`; the fields it does not assign keep what `malloc` returned. -/
def initPiece (piece : Piece) (pieceType : PieceType) (absoluteX absoluteY : ℤ) : Piece :=
  { piece with
    pawnMoved := if pieceType.isPawn then false else piece.pawnMoved
    absoluteX := UInt16.ofInt absoluteX
    absoluteY := UInt16.ofInt absoluteY
    type := pieceType
    isMoving := false
    priorityDraw := false }

/-- One coordinate of `updatePiece`: one pixel towards the target. -/
def approach (absolute target : UInt16) : UInt16 :=
  let add : ℤ := (target.toNat : ℤ) - absolute.toNat
  if add > 0 then absolute + 1 else if add < 0 then absolute - 1 else absolute

/-- `updatePiece`: the return value and the piece. -/
def updatePiece (piece : Piece) : Bool × Piece :=
  if piece.absoluteX = piece.targetX ∧ piece.absoluteY = piece.targetY then
    if piece.isMoving then
      (true, { piece with isMoving := false, priorityDraw := false, change := true })
    else (false, piece)
  else
    (false,
      { piece with
        absoluteX := approach piece.absoluteX piece.targetX
        absoluteY := approach piece.absoluteY piece.targetY
        pawnMoved := if piece.type.isPawn && !piece.pawnMoved then true else piece.pawnMoved })

/-- `updatePiece_no_animation`: the return value and the piece. -/
def updatePieceNoAnimation (piece : Piece) : Bool × Piece :=
  let piece := { piece with absoluteX := piece.targetX, absoluteY := piece.targetY }
  if piece.isMoving then
    (true, { piece with isMoving := false, priorityDraw := false, change := true })
  else (false, piece)

/-- `movePiece`. -/
def movePiece (piece : Piece) (x y : ℤ) : Piece :=
  { piece with
    change := true
    isMoving := true
    priorityDraw := true
    targetX := UInt16.ofInt x
    targetY := UInt16.ofInt y }

/-- `setPiecePosition`. -/
def setPiecePosition (piece : Piece) (x y : ℤ) : Piece :=
  { piece with absoluteX := UInt16.ofInt x, absoluteY := UInt16.ofInt y }

/-- `changePiecePriority` of `board.c`. -/
def changePiecePriority (piece : Piece) (priority : Bool) : Piece :=
  { piece with priorityDraw := priority, change := true }

@[simp] theorem type_updatePiece (p : Piece) : (updatePiece p).2.type = p.type := by
  unfold updatePiece; split_ifs <;> rfl

@[simp] theorem type_updatePieceNoAnimation (p : Piece) :
    (updatePieceNoAnimation p).2.type = p.type := by
  unfold updatePieceNoAnimation; dsimp only; split_ifs <;> rfl

@[simp] theorem type_movePiece (p : Piece) (x y : ℤ) : (movePiece p x y).type = p.type := rfl

@[simp] theorem type_setPiecePosition (p : Piece) (x y : ℤ) :
    (setPiecePosition p x y).type = p.type := rfl

@[simp] theorem type_changePiecePriority (p : Piece) (priority : Bool) :
    (changePiecePriority p priority).type = p.type := rfl

@[simp] theorem pawnMoved_movePiece (p : Piece) (x y : ℤ) :
    (movePiece p x y).pawnMoved = p.pawnMoved := rfl

@[simp] theorem pawnMoved_setPiecePosition (p : Piece) (x y : ℤ) :
    (setPiecePosition p x y).pawnMoved = p.pawnMoved := rfl

@[simp] theorem pawnMoved_changePiecePriority (p : Piece) (priority : Bool) :
    (changePiecePriority p priority).pawnMoved = p.pawnMoved := rfl

/-- The pixmaps that `create_image` loaded. -/
structure Images where
  pieceImage : PieceType → XpmImage
  letters : Fin 26 → XpmImage
  toggleAnimation : XpmImage
  arrow : XpmImage
  nameChoice : XpmImage
  waiting : XpmImage
  playerChoice : XpmImage

/-- Pixmaps without pixels. -/
def Images.blank : Images where
  pieceImage := fun _ => ⟨0, 0, fun _ => 0⟩
  letters := fun _ => ⟨0, 0, fun _ => 0⟩
  toggleAnimation := ⟨0, 0, fun _ => 0⟩
  arrow := ⟨0, 0, fun _ => 0⟩
  nameChoice := ⟨0, 0, fun _ => 0⟩
  waiting := ⟨0, 0, fun _ => 0⟩
  playerChoice := ⟨0, 0, fun _ => 0⟩

/-- The geometry of the screen and the pixmaps drawn on it. -/
structure Display extends Geometry, Images

/-- Mode `0x115` with given pixmaps. -/
def Display.mode115 (images : Images) : Display where
  toGeometry := LCChess.mode115
  toImages := images

@[simp] theorem Display.toGeometry_mode115 (images : Images) :
    (Display.mode115 images).toGeometry = LCChess.mode115 := rfl

/-- `drawPieces`. -/
def drawPieces (d : Display) (mem : Memory) (piece : Piece) : Memory :=
  drawImage d.toGeometry mem (d.pieceImage piece.type) piece.absoluteX.toNat piece.absoluteY.toNat

/-- The break codes of the letters, in alphabetical order. -/
def letterCodes : List UInt8 :=
  [0x9e, 0xb0, 0xae, 0xa0, 0x92, 0xa1, 0xa2, 0xa3, 0x97, 0xa4, 0xa5, 0xa6, 0xb2, 0xb1, 0x98, 0x99,
    0x90, 0x93, 0x9f, 0x94, 0x96, 0xaf, 0x91, 0xad, 0x95, 0xac]

/-- `getLetter`. -/
def getLetter (d : Display) (byte : UInt8) : Option XpmImage :=
  (letterCodes.findFinIdx? (· == byte)).map d.letters

/-- `draw_name`: the letters up to the terminating `0` of the nine bytes of `name`. -/
def drawName (d : Display) (mem : Memory) (name : ℕ → UInt8) (baseX baseY spacing : ℕ) : Memory :=
  -- `make_code` is read up to its terminating 0, or to its end
  let size := ((List.range 9).findIdx? fun c => name c == 0).getD 9
  forLoop 0 size
    (fun c mem =>
      match getLetter d (name c) with
      | some img => drawImage d.toGeometry mem img ((baseX + spacing * c) % 65536) baseY
      | none => mem)
    mem

end LCChess

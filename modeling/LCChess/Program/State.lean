import LCChess.Game.PossiblePosition
import LCChess.Input.Cursor
import LCChess.Serial.SerialPort

/-!
# The state of the program

The globals of `main.c` and the static variables of its handlers, as one record, and the events
of the main loop.

## Main definitions

* `GameState`, `Player`, `ChessMove`, `Event`: the types of `main.c` and `event_queue.h`
* `Vm`: the state of one instance of the program
* `Vm.initial`: its state at the start of `proj_main_loop`, on cleared memory
-/

namespace LCChess

/-- `GameState`. -/
inductive GameState
  | start | waiting | playing | choosingPlayer | waitChoosingPlayer | exit
deriving DecidableEq

/-- `Player`. -/
inductive Player
  | notDecided | black | white
deriving DecidableEq

/-- The value of the enumerator, as `addToTransmitQueue` sends it. -/
def Player.toByte : Player → UInt8
  | .notDecided => 0 | .black => 1 | .white => 2

/-- `chessMove`. -/
structure ChessMove where
  oldRow : UInt8
  oldCol : UInt8
  newRow : UInt8
  newCol : UInt8

/-- `Event`, but for `NO_EVENT`, which `popEvent` answers on an empty queue only. -/
inductive Event
  | mouse (packet : Packet)
  | newFrame
  | keyboard (scanCode : UInt8)

/-- `YOUR_TURN`. -/
def yourTurn : UInt8 := 0xF8

/-- `BEGIN_MESSAGE`. -/
def beginMessage : UInt8 := 0xF9

/-- `BACK_SPACE`. -/
def backSpace : UInt8 := 0x8e

/-- `ENTER`. -/
def enter : UInt8 := 0x9c

/-- `MAX_NAME_SIZE`. -/
def maxNameSize : ℕ := 8

/-- The state of one instance. The statics of `playing_ih` stand here under their names;
`boardCreated` says that its `board` is not `NULL`, and `background` holds the
`background_video_mem` of each menu handler under the state the handler serves. -/
structure Vm where
  gameState : GameState
  player : Player
  cursor : Cursor
  name : ℕ → UInt8
  nameSize : ℕ
  redraw : Bool
  background : GameState → Option Memory
  animation : Bool
  myTurn : Bool
  endGame : Bool
  won : Bool
  boardCreated : Bool
  board : Board
  heap : Heap
  redrawPieces : Bool
  move : ChessMove
  byteOfMove : ℕ
  draggingPiece : Option PieceRef
  inicialPieceRow : ℕ
  inicialPieceCol : ℕ
  videoMemBuffer : Memory
  videoMem : Memory
  transmitQueue : Queue
  receiveQueue : Queue
  /-- The bytes the peer wrote to its THR that this UART has not handed out yet. -/
  line : List UInt8

namespace Vm

/-- `addToTransmitQueue`. -/
def send (vm : Vm) (data : UInt8) : Vm :=
  { vm with transmitQueue := addToTransmitQueue data vm.transmitQueue }

/-- Assign to `*p`. -/
def setPiece (vm : Vm) (p : PieceRef) (piece : Piece) : Vm :=
  { vm with heap := Function.update vm.heap p piece }

/-- `copy_buffers(video_mem_buffer, screen)`. -/
def showScreen (vm : Vm) (g : Geometry) (screen : Memory) : Vm :=
  { vm with videoMemBuffer := copyBuffers g vm.videoMemBuffer screen }

/-- `copy_buffers(video_mem_buffer, background_video_mem)` in a menu handler. -/
def showBackground (vm : Vm) (g : Geometry) : Vm :=
  match vm.background vm.gameState with
  | some screen => vm.showScreen g screen
  | none => vm

/-- Allocate the background of a menu handler, unless it is there. -/
def createBackground (vm : Vm) (screen : Memory) : Vm :=
  match vm.background vm.gameState with
  | some _ => vm
  | none =>
    { vm with background := Function.update vm.background vm.gameState (some screen) }

/-- Free the background of the menu handler, and leave it for the state `gameState`. -/
def leaveMenu (vm : Vm) (gameState : GameState) : Vm :=
  { vm with
    background := Function.update vm.background vm.gameState none
    gameState := gameState }

/-- The state in which the main loop starts, where all memory that the program does not
initialise is zero. -/
def initial : Vm where
  gameState := .start
  player := .notDecided
  cursor := ⟨0, 0, false, false⟩
  name := fun _ => 0
  nameSize := 0
  redraw := true
  background := fun _ => none
  animation := true
  myTurn := false
  endGame := false
  won := false
  boardCreated := false
  board := ⟨fun _ => 0, fun _ => 0, fun _ => none⟩
  heap := fun _ => ⟨0, 0, 0, 0, .bPawn, false, false, false, false⟩
  redrawPieces := false
  move := ⟨0, 0, 0, 0⟩
  byteOfMove := 0
  draggingPiece := none
  inicialPieceRow := 0
  inicialPieceCol := 0
  videoMemBuffer := fun _ => 0
  videoMem := fun _ => 0
  transmitQueue := createQueue 10 fun _ => 0
  receiveQueue := createQueue 10 fun _ => 0
  line := []

/-- The state in which `playing_ih` is entered as `player`. -/
def initialGame (player : Player) : Vm :=
  { initial with gameState := .playing, player := player, myTurn := player == .white }

end Vm

end LCChess

import LCChess.Library.Run
import LCChess.Library.Fairness
import LCChess.Library.Loop
import LCChess.Library.RingBuffer
import LCChess.Library.BoundedFifo
import LCChess.Library.Raster
import LCChess.Library.AccessLog
import LCChess.Library.Command
import LCChess.Library.Countdown
import LCChess.Library.Byte
import LCChess.Serial.Queue
import LCChess.Serial.SerialPort
import LCChess.Serial.Fifo
import LCChess.Serial.Flush
import LCChess.Serial.Reports
import LCChess.Serial.Configure
import LCChess.Video.Geometry
import LCChess.Video.VideoCard
import LCChess.Video.Drawing
import LCChess.Game.Piece
import LCChess.Game.Board
import LCChess.Game.Motion
import LCChess.Game.Rules
import LCChess.Game.Chess
import LCChess.Game.PossiblePosition
import LCChess.Game.Reads
import LCChess.Game.Legality
import LCChess.Input.Mouse
import LCChess.Input.Assembler
import LCChess.Input.Decoding
import LCChess.Input.Kbc
import LCChess.Input.Keyboard
import LCChess.Input.Demultiplex
import LCChess.Input.Cursor
import LCChess.Program.State
import LCChess.Program.EventQueue
import LCChess.Program.Playing
import LCChess.Program.MainLoop
import LCChess.Program.ProjMainLoop
import LCChess.Program.Shutdown
import LCChess.Program.NameEntry
import LCChess.Program.ReleaseProbe
import LCChess.Protocol.Seat
import LCChess.Protocol.Refinement
import LCChess.Protocol.Table
import LCChess.Protocol.Token
import LCChess.Protocol.Lobby
import LCChess.Protocol.Handshake
import LCChess.Protocol.Meeting
import LCChess.Protocol.Match
import LCChess.Protocol.Clicks
import LCChess.Protocol.Agreement
import LCChess.Protocol.Parser
import LCChess.Protocol.Transcript
import LCChess.Play.Highlights
import LCChess.Play.Drag
import LCChess.Play.Follow
import LCChess.Play.Moves
import LCChess.Play.PawnFlag
import LCChess.Play.PawnMoves
import LCChess.Play.Cosmetic
import LCChess.Play.Screen
import LCChess.Play.Cache
import LCChess.Play.Rendering
import LCChess.Protocol.Chess
import LCChess.Protocol.Animated
import LCChess.Protocol.Opening
import LCChess.Protocol.Session
import LCChess.Protocol.Driving
import LCChess.Protocol.Programs
import LCChess.Protocol.Rank
import LCChess.Protocol.Liveness
import LCChess.Input.Walk
import LCChess.Library.Leads
import LCChess.Protocol.Ongoing
import LCChess.Protocol.Users
import LCChess.Protocol.EveryGame
import LCChess.Protocol.Games

import TcpClient.Lib.Machine
import TcpClient.Lib.CString
import TcpClient.Lib.Hex
import TcpClient.Lib.Stream
import TcpClient.Lib.Frame
import TcpClient.Lib.Upload
import TcpClient.Lib.Zipper
import TcpClient.Lib.Lines
import TcpClient.Lib.Terminal
import TcpClient.Lib.Heap
import TcpClient.Lib.StringVec
import TcpClient.FramedReader
import TcpClient.HexGrammar
import TcpClient.Unescape
import TcpClient.SocketRead
import TcpClient.SocketWrite
import TcpClient.SocketConnect
import TcpClient.HsmPacket
import TcpClient.HsmKeys
import TcpClient.HsmReport
import TcpClient.ParseCliArgs
import TcpClient.OptionOrder
import TcpClient.Oneshot.Upload
import TcpClient.Oneshot.Outcome
import TcpClient.Oneshot.Receive
import TcpClient.Oneshot.HsmFrame
import TcpClient.Oneshot.Payload
import TcpClient.Oneshot.IdleTimer
import TcpClient.Interactive.PipeForward
import TcpClient.Interactive.PipeLoss
import TcpClient.Interactive.TtyKeyboard
import TcpClient.Interactive.TtyScreen
import TcpClient.Linenoise.EditKeys
import TcpClient.Linenoise.Typing
import TcpClient.Linenoise.Navigation
import TcpClient.Linenoise.KeyCodes
import TcpClient.Linenoise.Completion
import TcpClient.Linenoise.HistoryFile
import TcpClient.Linenoise.HistoryLog
import TcpClient.Linenoise.MemoryRuns
import TcpClient.Interactive.TtyDisplay
import TcpClient.Readline
import TcpClient.MainSignal
import TcpClient.MainServerEnd
import TcpClient.MainRequest

import FtServer.Lts
import FtServer.Buffer
import FtServer.Text
import FtServer.AsciiProtocol
import FtServer.TCPClient
import FtServer.FileInfo
import FtServer.FsPath
import FtServer.FileWritter
import FtServer.FailureBudget
import FtServer.WakeUp
import FtServer.SaveFirst
import FtServer.FileReceiver
import FtServer.TransferAgent
import FtServer.Ownership
import FtServer.Bounds
import FtServer.Handover
import FtServer.Client
import FtServer.Connection
import FtServer.ConnectionStep
import FtServer.Gap
import FtServer.Reassembly
import FtServer.UploadProgress
import FtServer.Segmentation
import FtServer.WriterQueue
import FtServer.PointerSafety
import FtServer.StatusPairs
import FtServer.Outstanding
import FtServer.Decoder
import FtServer.Schema
import FtServer.Tokens
import FtServer.Conversions
import FtServer.Reading
import FtServer.Numerals
import FtServer.Compact
import FtServer.Lines
import FtServer.RoundTrip
import FtServer.Ring
import FtServer.SendPipeline
import FtServer.ReceiveStream
import FtServer.LinesSent
import FtServer.Calendar
import FtServer.Retention
import FtServer.OddNames
import FtServer.NTPClient
import FtServer.ClockOffset
import FtServer.ReplyDecoding
import FtServer.OffsetExpiry
import FtServer.LateReplies
import FtServer.ClockCorrections
import FtServer.DataProcess
import FtServer.GLog
import FtServer.LogFlush
import FtServer.AutoFree
import FtServer.PropertyTree
import FtServer.Parameter
import FtServer.LexicalPath
import FtServer.Calls
import FtServer.Slots
import FtServer.Separators
import FtServer.Received
import FtServer.Overloads
import FtServer.CaseFolding
import FtServer.LineExtraction
import FtServer.LostPeer
import FtServer.SaveReturns
import FtServer.UploadPaths
import FtServer.Mailbox
import FtServer.MessageQueue
import FtServer.MessageDelivery
import FtServer.MessageStop
import FtServer.ReceiverMessages
import FtServer.Uploads
import FtServer.SaveProgress
import FtServer.StoredFiles
import FtServer.DBCurl
import FtServer.Relay
import FtServer.FileTexts
import FtServer.Announcements
import FtServer.Acknowledgements
import FtServer.SendFailure
import FtServer.ReceiverList
import FtServer.ProcSingleton

import CodingLearners.AccountServer.Accounts
import CodingLearners.AccountServer.Depot
import CodingLearners.AccountServer.Invitations
import CodingLearners.AccountServer.Logins
import CodingLearners.AccountServer.Routes
import CodingLearners.AccountServer.SelectName
import CodingLearners.AccountServer.ServerLabel
import CodingLearners.EnetTest.SendLoop
import CodingLearners.GcryptFile.Crypt
import CodingLearners.GcryptFile.Gcry
import CodingLearners.GcryptFile.Keygen
import CodingLearners.GcryptFile.RawRsa
import CodingLearners.GcryptFile.RoundTrip
import CodingLearners.InotifyDemo.EventLoop
import CodingLearners.Library.Base64
import CodingLearners.Library.BigEndian
import CodingLearners.Library.ByteMemory
import CodingLearners.Library.CanonicalText
import CodingLearners.Library.CellChain
import CodingLearners.Library.CheckThenAct
import CodingLearners.Library.CutLoop
import CodingLearners.Library.Decimal
import CodingLearners.Library.Draws
import CodingLearners.Library.FirstBy
import CodingLearners.Library.FlatJson
import CodingLearners.Library.Framing
import CodingLearners.Library.GreedyPattern
import CodingLearners.Library.IndexedPass
import CodingLearners.Library.JsString
import CodingLearners.Library.JsValue
import CodingLearners.Library.JsonLines
import CodingLearners.Library.JsonText
import CodingLearners.Library.JsonWrite
import CodingLearners.Library.Ledger
import CodingLearners.Library.OnesComplement
import CodingLearners.Library.QuotedLiteral
import CodingLearners.Library.Radix
import CodingLearners.Library.Runs
import CodingLearners.Library.ScaledFloor
import CodingLearners.Library.SeparatedText
import CodingLearners.Library.ShellPattern
import CodingLearners.Library.ShellText
import CodingLearners.Library.Stringify
import CodingLearners.Library.Tickets
import CodingLearners.Library.UriComponent
import CodingLearners.Library.WellFormed
import CodingLearners.LinkFilter.Base64
import CodingLearners.LinkFilter.Deduplication
import CodingLearners.LinkFilter.Endpoints
import CodingLearners.LinkFilter.FilterDeduplicate
import CodingLearners.LinkFilter.Independence
import CodingLearners.LinkFilter.KeyFaithful
import CodingLearners.LinkFilter.Merging
import CodingLearners.LinkFilter.Port443
import CodingLearners.LinkFilter.TwoCopies
import CodingLearners.NettyChat.Broadcast
import CodingLearners.NettyChat.ChatMessage
import CodingLearners.NettyChat.HttpAndWebSocketServer
import CodingLearners.NettyChat.Polling
import CodingLearners.PingMonitor.CheckSum
import CodingLearners.PingMonitor.Ping
import CodingLearners.PingMonitor.PingTest
import CodingLearners.PingMonitor.ReadBounds
import CodingLearners.ProxyScripts.DeBase64Url
import CodingLearners.ProxyScripts.SsrUrl
import CodingLearners.ProxyScripts.V2rayMembers
import CodingLearners.ProxyScripts.V2rayUrl
import CodingLearners.PublicIp.Report
import CodingLearners.PublicIp.Server
import CodingLearners.RandomNumbers.MkLowerNum
import CodingLearners.RandomNumbers.MkPassword
import CodingLearners.SecretChat.Addressing
import CodingLearners.SecretChat.Delivery
import CodingLearners.SecretChat.Forge
import CodingLearners.SecretChat.KeyFile
import CodingLearners.SecretChat.KeyTopics
import CodingLearners.SecretChat.MqttClient
import CodingLearners.SecretChat.Network
import CodingLearners.SecretChat.NetworkDelivery
import CodingLearners.SecretChat.OtherKeys
import CodingLearners.SecretChat.Resubscription
import CodingLearners.SecretChat.SecretIo
import CodingLearners.SecretChat.Session
import CodingLearners.StripAnnotation.CutLines
import CodingLearners.StripAnnotation.Docstrings
import CodingLearners.StripAnnotation.LineMachine
import CodingLearners.StripAnnotation.Literals
import CodingLearners.StripAnnotation.PythonLines
import CodingLearners.StripAnnotation.SecondRun
import CodingLearners.StripAnnotation.SourceValues
import CodingLearners.StripAnnotation.StripPython
import CodingLearners.StripAnnotation.ValueStrings
import CodingLearners.TcpClient.Client
import CodingLearners.TcpClient.Frame
import CodingLearners.TcpClient.NetRecv
import CodingLearners.TcpServer.AutoSend
import CodingLearners.TcpServer.Descriptors
import CodingLearners.TcpServer.Echo
import CodingLearners.TcpServer.FrameBounds
import CodingLearners.TcpServer.Identity
import CodingLearners.TcpServer.Interleaving
import CodingLearners.TcpServer.Isolation
import CodingLearners.TcpServer.LinkedList
import CodingLearners.TcpServer.ListHeap
import CodingLearners.TcpServer.ListLifetime
import CodingLearners.TcpServer.ListOperations
import CodingLearners.TcpServer.ListSequence
import CodingLearners.TcpServer.PendingWrite
import CodingLearners.TcpServer.Received
import CodingLearners.TcpServer.RemovingLoops
import CodingLearners.TcpServer.Resources
import CodingLearners.TcpServer.Server
import CodingLearners.TcpServer.Socket
import CodingLearners.TcpServer.Turn
import CodingLearners.TtApp.Auth
import CodingLearners.TtApp.Endings
import CodingLearners.TtApp.Origin
import CodingLearners.TtApp.Sessions
import CodingLearners.TtApp.Steps

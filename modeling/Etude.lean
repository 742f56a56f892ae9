import Etude.Base.Run
import Etude.Base.While
import Etude.Base.Fifo
import Etude.Base.Munch
import Etude.Base.Digits
import Etude.Base.Decimal
import Etude.Base.Packet
import Etude.Base.Memory
import Etude.Base.Answers
import Etude.RingBuffer.Model
import Etude.RingBuffer.Refinement
import Etude.RingBuffer.Indices
import Etude.Tokenizer.Model
import Etude.Tokenizer.Segmentation
import Etude.Base.Lines
import Etude.Tokenizer.Substitution
import Etude.AlarmLog.Model
import Etude.AlarmLog.Layout
import Etude.AlarmLog.Truncated
import Etude.Clock.Port
import Etude.Clock.Client
import Etude.Clock.Response
import Etude.Clock.Framing
import Etude.Clock.Wire
import Etude.Clock.LocalTime
import Etude.Clock.GenServer
import Etude.Clock.PortProcess
import Etude.Syslog.Server
import Etude.Syslog.Rotation
import Etude.TermLogger.Model
import Etude.TermLogger.Packets
import Etude.TermLogger.Bounds
import Etude.Base.Traverse
import Etude.Base.MultiSz
import Etude.Volumes.Model
import Etude.Volumes.MountPoints
import Etude.Perfctrs.EnumObjects
import Etude.WinService.Model
import Etude.WinService.Reports
import Etude.WinService.Phases
import Etude.WinService.Protocol
import Etude.Base.Json
import Etude.Websockets.Messages
import Etude.Websockets.RoundTrip
import Etude.SensorJson.DataObject
import Etude.Soap.Handler
import Etude.Soap.Answers
import Etude.Login.SampleLoginModule
import Etude.Login.Commits
import Etude.Login.Frame
import Etude.Base.Traced
import Etude.Sso.SimpleCookieSSOFilter
import Etude.Sso.Gate
import Etude.Serialization.SensorMessage
import Etude.Base.Binary
import Etude.Serialization.String01
import Etude.Serialization.ListOfWord16
import Etude.Mylib.Types
import Etude.Mylib.RoundTrip
import Etude.Base.EventSourced
import Etude.Hello.Entity
import Etude.Hello.Recovery
import Etude.Base.Topic
import Etude.Hello.Stream
import Etude.Base.GetOpt
import Etude.Amqp.Options
import Etude.Amqp.Layers
import Etude.Base.Squeeze
import Etude.Cat.Model
import Etude.Cat.Order
import Etude.Cat.Squeezed
import Etude.Cat.Numbers
import Etude.Cat.Counted
import Etude.Cat.Characters
import Etude.Cat.Permuted
import Etude.Cat.Displayed
import Etude.Base.Monitor
import Etude.Jms.Handlers
import Etude.Jms.Reserved
import Etude.Base.Table
import Etude.Captcha.Model
import Etude.Captcha.Tokens
import Etude.Captcha.Attempts
import Etude.Base.Average
import Etude.Pricing.Model
import Etude.Pricing.Rounds
import Etude.Pricing.Average
import Etude.SimpleProcedure.Keys
import Etude.Base.Champion
import Etude.Base.Read
import Etude.HelloCsv.FindOldest
import Etude.Base.Terminated
import Etude.KeepAlive.SelectStdin
import Etude.KeepAlive.Waiting
import Etude.Base.Split
import Etude.Base.Margin
import Etude.Base.Fields
import Etude.Transposed.Model
import Etude.Transposed.Columns
import Etude.Transposed.Accessor
import Etude.Transposed.Generated
import Etude.Transposed.Consistent
import Etude.Timeval.FileTime
import Etude.Base.Tally
import Etude.Base.JavaString
import Etude.Locc.Model
import Etude.Locc.Totals
import Etude.Locc.Numstat
import Etude.Base.Printf
import Etude.PutKvCsv.Model
import Etude.PutKvCsv.Verbatim
import Etude.Base.ScalaMap
import Etude.PutKvCsv.Recovery
import Etude.Base.Sieve
import Etude.PrimesSieve.Primes
import Etude.Coroutine.StateTest
import Etude.ConduitParser.Rewriting
import Etude.Base.Positions
import Etude.StateGame.PlayGame
import Etude.Base.HaskellInt
import Etude.Odds.Odds
import Etude.AlarmLog.Printed
import Etude.Base.Guarded
import Etude.Base.Potential
import Etude.TcpLog.Server
import Etude.TcpLog.Invariant
import Etude.TcpLog.Log
import Etude.TcpLog.Complete
import Etude.TcpLog.Unfinished
import Etude.WsClient.Client
import Etude.WsClient.Order
import Etude.Base.CommandLine
import Etude.Base.ReadShow
import Etude.WsClient.CmdLine
import Etude.Syslog.CmdLine
import Etude.Syslog.Files
import Etude.Clock.Calls
import Etude.Clock.Turns
import Etude.LoginApp.Servlets
import Etude.LoginApp.Visits
import Etude.DbChange.Notification
import Etude.DbChange.Wakeup
import Etude.Base.AutoTable
import Etude.Blog.Domain
import Etude.Blog.Service
import Etude.Blog.Store
import Etude.Blog.WriteBack
import Etude.Base.ShowString
import Etude.Tokenizer.Listings
import Etude.DumpBlob.BlobDumper
import Etude.Hello.Session

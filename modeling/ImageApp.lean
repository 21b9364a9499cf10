import ImageApp.Foundations.CStrings
import ImageApp.Foundations.DecimalRows
import ImageApp.Foundations.BinaryRounding
import ImageApp.Foundations.PathDescent
import ImageApp.Foundations.GuardedRuns
import ImageApp.Foundations.FifoRing
import ImageApp.Server.Config
import ImageApp.Server.RequestLine
import ImageApp.Server.Strings
import ImageApp.Server.HandleImage
import ImageApp.Server.ImageToSend
import ImageApp.Server.HandleDB
import ImageApp.Server.Reception
import ImageApp.Server.ThreadPool
import ImageApp.Server.HandleClient
import ImageApp.Requests.RoundTrip
import ImageApp.Requests.Acceptance
import ImageApp.Paths.Traversal
import ImageApp.Cache.KeySoundness
import ImageApp.Cache.RingAlignment
import ImageApp.Cache.Publication
import ImageApp.Cache.FalseHits
import ImageApp.Cache.MissingImage
import ImageApp.Queries.Transparency
import ImageApp.Queries.Concurrency
import ImageApp.Connections.Framing
import ImageApp.Connections.SlotHygiene
import ImageApp.Connections.Accounting
import ImageApp.Connections.KeepAlive
import ImageApp.Connections.Disposal
import ImageApp.Dispatch.Recycling
import ImageApp.Dispatch.Serving
import ImageApp.Dispatch.Handoff
import ImageApp.Foundations.CyclicScan
import ImageApp.Server.PoolRing
import ImageApp.Pools.SlotAllocation
import ImageApp.Pools.LostWakeups
import ImageApp.Foundations.CyclicWalk
import ImageApp.Pools.RoundRobin
import ImageApp.Pools.Growth
import ImageApp.Pools.Handshake
import ImageApp.Foundations.SqlLiterals
import ImageApp.Queries.Injection
import ImageApp.Responses.FileTransfer
import ImageApp.Foundations.HeaderBlocks
import ImageApp.Server.Messages
import ImageApp.Responses.StatusLines
import ImageApp.Responses.HeadBodies
import ImageApp.Foundations.Tokens
import ImageApp.Requests.AcceptConcurrency
import ImageApp.Foundations.Extents
import ImageApp.Foundations.LoopRuns
import ImageApp.Server.Senders
import ImageApp.Responses.BlockWrites
import ImageApp.Responses.HeaderSends
import ImageApp.Responses.ImageReports
import ImageApp.Responses.PageFailures
import ImageApp.Foundations.DecimalPrefixes
import ImageApp.Requests.AcceptEntries
import ImageApp.Requests.AcceptSafety
import ImageApp.Requests.AcceptValues
import ImageApp.Requests.AcceptQuality
import ImageApp.Requests.AcceptFormat
import ImageApp.Server.BoundedScans
import ImageApp.Requests.HeaderBounds
import ImageApp.Requests.NameBounds
import ImageApp.Cache.TableBounds
import ImageApp.Cache.Searches
import ImageApp.Server.RecvCalls
import ImageApp.Connections.Receiving
import ImageApp.Server.DigitLoops
import ImageApp.Numbers.PrintParse
import ImageApp.Numbers.QualityText
import ImageApp.Server.MessageBuffer
import ImageApp.Responses.HeaderText
import ImageApp.Foundations.LineStreams
import ImageApp.Server.ConfigFile
import ImageApp.Startup.ConfigReading
import ImageApp.Foundations.FifoMisses
import ImageApp.Queries.Traffic
import ImageApp.Foundations.LockPrograms
import ImageApp.Server.Locking
import ImageApp.Pools.LockDiscipline
import ImageApp.Cache.FileNames
import ImageApp.Cache.ServedImages
import ImageApp.Responses.CachedServer
import ImageApp.Dispatch.Wakeups
import ImageApp.Cache.OpenDescriptors
import ImageApp.Foundations.LockedUpdates
import ImageApp.Pools.ConnectionCount
import ImageApp.Foundations.AnswerStreams
import ImageApp.Responses.AnswerStream
import ImageApp.Cache.SharedImages
import ImageApp.Foundations.PrefixCodes
import ImageApp.Server.Log
import ImageApp.Connections.EventLog
import ImageApp.Server.Wire
import ImageApp.Responses.OnTheWire
import ImageApp.Responses.Exchanges
import ImageApp.Responses.Sessions
import ImageApp.Responses.SharedServer

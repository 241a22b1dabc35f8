import CodeClips.Rtp.RoundTrip
import CodeClips.Rtp.SequenceNumber
import CodeClips.Rtp.TcpFraming
import CodeClips.Rtp.LostBytes
import CodeClips.Rtp.Delivery
import CodeClips.Rtp.OrtpModule
import CodeClips.Rtp.Fragments
import CodeClips.Rtp.InputBounds
import CodeClips.Rtp.NalBuffer
import CodeClips.Rtp.ClientListLaws
import CodeClips.Rtp.FreeList
import CodeClips.Ae.FileEvents
import CodeClips.Ae.SelectEpoll
import CodeClips.Daemon.Monitor
import CodeClips.Epoll.Registration
import CodeClips.Epoll.TimerCancel
import CodeClips.Epoll.ScanTimer
import CodeClips.Epoll.Dispatch
import CodeClips.Epoll.HeapRuns
import CodeClips.Epoll.Deadline
import CodeClips.FdServer.Credentials
import CodeClips.FdServer.OpenRequest
import CodeClips.FdServer.FailingAccept
import CodeClips.Aio.EchoLaws
import CodeClips.Aio.FileBlocks
import CodeClips.Aio.ReplyBuffer
import CodeClips.Aio.Sendfile
import CodeClips.Aio.Send
import CodeClips.Lua.AbsPath
import CodeClips.Lua.Splitting
import CodeClips.Lua.CommonPrefix
import CodeClips.Lua.Canonical
import CodeClips.Lua.Affixes
import CodeClips.Lua.ExpandVars
import CodeClips.Lua.ModuleFunctions
import CodeClips.Lua.DateLayout
import CodeClips.Packet.Checksum
import CodeClips.Packet.CloneFidelity
import CodeClips.Packet.Dhcp
import CodeClips.Sds.SplitArgs
import CodeClips.Lwan.MapRuns
import CodeClips.Ovs.Invariant
import CodeClips.MultiThreading.Completeness
import CodeClips.MultiThreading.LostErrors
import CodeClips.Python.MergeImage
import CodeClips.Python.Fattree
import CodeClips.Python.Launch
import CodeClips.Python.PidFiles
import CodeClips.Python.Net
import CodeClips.Python.HtmlQuote
import CodeClips.Python.Soundex
import CodeClips.PortScanner.Scan
import CodeClips.HashTable.Runs
import CodeClips.Video.CaptureBuffers
import CodeClips.Apue.POpen
import CodeClips.Packet.Datagrams
import CodeClips.Packet.Segments
import CodeClips.Packet.Forwarding
import CodeClips.Packet.DhcpDecoding
import CodeClips.Packet.Bpdu
import CodeClips.Packet.SerializeTwice
import CodeClips.Packet.AddressText
import CodeClips.Sds.Split
import CodeClips.Sds.Format
import CodeClips.Sds.Trim
import CodeClips.Sds.Range
import CodeClips.Lwan.Destruction
import CodeClips.Ovs.Iteration
import CodeClips.Strbuf.Runs
import CodeClips.DynamicString.Printable
import CodeClips.DynamicString.HexDump
import CodeClips.DynamicString.PreprocessedLine
import CodeClips.Nim.BinaryTree
import CodeClips.Zmalloc.Accounting
import CodeClips.Ae.Timeout
import CodeClips.Lwan.ListRuns
import CodeClips.Lwan.ListWalk
import CodeClips.CherryPy.EndlessRead
import CodeClips.CherryPy.RefusedTwice
import CodeClips.CherryPy.RequestPath
import CodeClips.CherryPy.DeclaredLength
import CodeClips.CherryPy.Dispatcher

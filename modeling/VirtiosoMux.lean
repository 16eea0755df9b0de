import VirtiosoMux.Protocol.Codes
import VirtiosoMux.Library.ByteStuffing
import VirtiosoMux.Protocol.Wire
import VirtiosoMux.Host.JsonText
import VirtiosoMux.Host.JsonBrackets
import VirtiosoMux.Host.JsonSearch
import VirtiosoMux.Host.State
import VirtiosoMux.Host.Demux
import VirtiosoMux.Library.Json
import VirtiosoMux.Library.Pieces
import VirtiosoMux.Library.Paths
import VirtiosoMux.Library.Words
import VirtiosoMux.Library.LineEnds
import VirtiosoMux.Library.JsonString
import VirtiosoMux.Library.JsonDocument
import VirtiosoMux.Library.JsonReader
import VirtiosoMux.Library.JsonMembers
import VirtiosoMux.Library.JsonStrings
import VirtiosoMux.Library.JsonRoundTrip
import VirtiosoMux.Library.JsonLines
import VirtiosoMux.Library.Base64
import VirtiosoMux.Library.Demux
import VirtiosoMux.Library.RingBuffer
import VirtiosoMux.Library.Records
import VirtiosoMux.Library.FillBuffer
import VirtiosoMux.Library.Stamps
import VirtiosoMux.Library.Recorded
import VirtiosoMux.Library.Files
import VirtiosoMux.Host.Uart
import VirtiosoMux.Host.UartReports
import VirtiosoMux.Host.UartBuffers
import VirtiosoMux.Host.Steps
import VirtiosoMux.Host.StreamTable
import VirtiosoMux.Host.Runs
import VirtiosoMux.Host.Records
import VirtiosoMux.Host.Announce
import VirtiosoMux.Host.Registry
import VirtiosoMux.Host.Effects
import VirtiosoMux.Host.Outer
import VirtiosoMux.Host.Invariant
import VirtiosoMux.Host.Traced
import VirtiosoMux.Host.Accesses
import VirtiosoMux.Host.LogFiles
import VirtiosoMux.Host.Rejected
import VirtiosoMux.Host.LineEnds
import VirtiosoMux.Host.Timestamps
import VirtiosoMux.Host.JsonOutput
import VirtiosoMux.Host.Registered
import VirtiosoMux.Host.Agreement
import VirtiosoMux.Host.Carrier
import VirtiosoMux.Host.Reset
import VirtiosoMux.Host.Copies
import VirtiosoMux.Host.Receiver
import VirtiosoMux.Host.Connected
import VirtiosoMux.Library.Runs
import VirtiosoMux.Muxd.Frames
import VirtiosoMux.Muxd.IdPool
import VirtiosoMux.Muxd.PoolHistory
import VirtiosoMux.Muxd.System
import VirtiosoMux.Muxd.Ownership
import VirtiosoMux.Muxd.Sessions
import VirtiosoMux.Muxd.Traces
import VirtiosoMux.Muxd.WireIds
import VirtiosoMux.Muxd.Enrollment
import VirtiosoMux.Camkes.Mux
import VirtiosoMux.Camkes.Bounds
import VirtiosoMux.Camkes.Acks
import VirtiosoMux.Camkes.Ring
import VirtiosoMux.Camkes.Downlink
import VirtiosoMux.Camkes.Receiver
import VirtiosoMux.Camkes.Uplink
import VirtiosoMux.Camkes.Chunks
import VirtiosoMux.Camkes.GuestSink
import VirtiosoMux.Generator.Registry
import VirtiosoMux.Generator.Assignment
import VirtiosoMux.Generator.Identifiers
import VirtiosoMux.Router.Mappings
import VirtiosoMux.Router.Drains
import VirtiosoMux.Router.Mirror
import VirtiosoMux.Router.Manifest
import VirtiosoMux.Router.Description
import VirtiosoMux.Router.Stdio
import VirtiosoMux.Router.StdioLog
import VirtiosoMux.Links.HostDownlink
import VirtiosoMux.Links.CamkesUplink
import VirtiosoMux.Links.RegistryCodec
import VirtiosoMux.Links.RegistryFirst
import VirtiosoMux.Links.Demuxers
import VirtiosoMux.Links.MuxdUplink
import VirtiosoMux.Links.Attribution
import VirtiosoMux.Links.RouterSessions
import VirtiosoMux.Links.GeneratedIds
import VirtiosoMux.Links.StreamNames
import VirtiosoMux.Host.Legacy
import VirtiosoMux.Exec.System
import VirtiosoMux.Exec.Delivery
import VirtiosoMux.Links.ExecUplink
import VirtiosoMux.Library.Locked
import VirtiosoMux.Host.UartThreads
import VirtiosoMux.Links.PtyThreads
import VirtiosoMux.Links.CommandLogs
import VirtiosoMux.Library.CLiteral
import VirtiosoMux.Library.Decimals
import VirtiosoMux.Library.CTables
import VirtiosoMux.Generator.CSource
import VirtiosoMux.Links.GuestLogs
import VirtiosoMux.Links.GuestInputs

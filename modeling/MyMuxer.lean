import MyMuxer.Lib.RwLock
import MyMuxer.Lib.Table
import MyMuxer.Supervisor.Aliases
import MyMuxer.Supervisor.EpgTasks
import MyMuxer.Workers.Dirty
import MyMuxer.Workers.Outputs
import MyMuxer.Supervisor.Backups
import MyMuxer.Supervisor.Validate
import MyMuxer.Supervisor.Loading
import MyMuxer.Supervisor.Dumps
import MyMuxer.Lib.Calls
import MyMuxer.Psi.Transport
import MyMuxer.Psi.Panics
import MyMuxer.Psi.Layout
import MyMuxer.Supervisor.Exclusion
import MyMuxer.Supervisor.Saving
import MyMuxer.Config
import MyMuxer.Psi.Pmt
import MyMuxer.Psi.Streams
import MyMuxer.Psi.Reassembler
import MyMuxer.Psi.Sdt
import MyMuxer.Mux.Cached
import MyMuxer.Mux.Pcr
import MyMuxer.Mux.Period
import MyMuxer.Mux.Ready
import MyMuxer.Mux.Drain
import MyMuxer.Mux.ProxyRuns
import MyMuxer.Mux.Inserted
import MyMuxer.HlsClient
import MyMuxer.Probe
import MyMuxer.Mux.Finish
import MyMuxer.Epg.Events
import MyMuxer.Epg.Loop
import MyMuxer.Epg.Versions
import MyMuxer.Psi.Patched
import MyMuxer.Psi.PmtTable
import MyMuxer.Mux.Clear
import MyMuxer.Lib.Gregorian
import MyMuxer.Psi.DvbTime
import MyMuxer.Epg.Selection
import MyMuxer.Lib.Greedy
import MyMuxer.Psi.EventTexts
import MyMuxer.Psi.EventSections
import MyMuxer.Utf8
import MyMuxer.Psi.SdtTrip
import MyMuxer.Lib.Traced
import MyMuxer.Psi.SdtReads
import MyMuxer.Psi.EventCarried
import MyMuxer.Lib.Circle
import MyMuxer.Mux.Counted
import MyMuxer.Mux.Cycles
import MyMuxer.Mux.Drift
import MyMuxer.Lib.Merge
import MyMuxer.Mux.Choice
import MyMuxer.Mux.Merged
import MyMuxer.Mux.Adjust
import MyMuxer.Mux.Continuity
import MyMuxer.Psi.Changed
import MyMuxer.Stamps
import MyMuxer.Psi.Tot
import MyMuxer.Biss.Key
import MyMuxer.Biss.Stream
import MyMuxer.ProbeWrite
import MyMuxer.Rtp
import MyMuxer.Lib.Search
import MyMuxer.Mux.Sync
import MyMuxer.Build
import MyMuxer.Lib.Bits
import MyMuxer.Lib.Grammar
import MyMuxer.Pes.Audio
import MyMuxer.Pes.Es
import MyMuxer.Pes.Direct
import MyMuxer.Pes.Golomb
import MyMuxer.Pes.Nal
import MyMuxer.Pes.Sps
import MyMuxer.Pes.SpsParse
import MyMuxer.Pes.SpsReads
import MyMuxer.Lib.Errors
import MyMuxer.Pes.Faults
import MyMuxer.Pes.Recognised
import MyMuxer.Pes.Parser
import MyMuxer.Pes.Reassembly
import MyMuxer.Mux.Delivered
import MyMuxer.Mux.Streamed
import MyMuxer.Mux.Accounts
import MyMuxer.Workers.Sending
import MyMuxer.Epg.Sender
import MyMuxer.Lib.Broadcast
import MyMuxer.Workers.Receiving
import MyMuxer.Workers.Relayed
import MyMuxer.Supervisor.Viewers
import MyMuxer.Mux.Bounded
import MyMuxer.Lib.Blocks
import MyMuxer.Mux.Carried
import MyMuxer.Workers.Streaming

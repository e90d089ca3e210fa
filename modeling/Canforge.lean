import Canforge.Core.Codec
import Canforge.Core.Lint
import Canforge.Core.MessageCodec
import Canforge.Core.Quantisation
import Canforge.Dbc.Stable
import Canforge.Dbc.Termination
import Canforge.Dbc.Truncation
import Canforge.IsoTp.Bounded
import Canforge.IsoTp.Lossy
import Canforge.IsoTp.StMin
import Canforge.IsoTp.Waits
import Canforge.Sim.Atomicity
import Canforge.Sim.Authorisation
import Canforge.Sim.ConfigComposition
import Canforge.Sim.ConfigReports
import Canforge.Sim.Download
import Canforge.Sim.DownloadRange
import Canforge.Sim.EndToEnd
import Canforge.Sim.Freeze
import Canforge.Sim.OnChange
import Canforge.Sim.Release
import Canforge.Sim.Retransmission
import Canforge.Sim.Runnable
import Canforge.Sim.SeedKey
import Canforge.Sim.SessionAgreement
import Canforge.Sim.SourceHistory
import Canforge.Sim.TroubleCodes
import Canforge.Sim.Verify
import Canforge.Text.FirstOnLine
import Canforge.Text.Positions
import Canforge.Text.WellFormed
import Canforge.Transport.Arbitrated
import Canforge.Transport.BlfObjects
import Canforge.Transport.FirstEvent
import Canforge.Transport.LogRoundTrip
import Canforge.Transport.LoopedReplay
import Canforge.Transport.Occupation
import Canforge.Transport.Seconds
import Canforge.Transport.SocketCanFrames
import Canforge.Transport.TimeSteps
import Canforge.Transport.WireBits
import Canforge.Tui.Periods
import Canforge.Uds.Keepalive
import Canforge.Uds.ResponsePending
import Canforge.Uds.ResponseTimer

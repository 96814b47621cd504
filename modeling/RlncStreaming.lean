import RlncStreaming.Xnc.Transfer
import RlncStreaming.Xnc.Robustness
import RlncStreaming.Xnc.Init
import RlncStreaming.Quic.Custody
import RlncStreaming.Quic.LossAlarm
import RlncStreaming.Quic.PacketSizes
import RlncStreaming.Quic.PacketHandling
import RlncStreaming.Quic.CoupledWindows
import RlncStreaming.Quic.Scheduler
import RlncStreaming.Quic.PathIds
import RlncStreaming.Quic.SendWindows
import RlncStreaming.Quic.AcceptStreams
import RlncStreaming.Quic.ReceiveCredit
import RlncStreaming.Quic.EncryptionLevels
import RlncStreaming.Quic.HandshakeMessage
import RlncStreaming.Quic.ServerProof
import RlncStreaming.Kodr.Splitting
import RlncStreaming.Kodr.Queries
import RlncStreaming.Kodr.Echelon
import RlncStreaming.Xnc.ReadLoops
import RlncStreaming.Godash.Scores
import RlncStreaming.Godash.Arbiter
import RlncStreaming.Godash.BufferLevel
import RlncStreaming.Godash.HeightLimit
import RlncStreaming.Quic.Backoff
import RlncStreaming.Quic.ReceiveWindow
import RlncStreaming.Quic.StreamIds
import RlncStreaming.Quic.RoundRobin
import RlncStreaming.Quic.QueuedFrames
import RlncStreaming.Quic.BestPaths

import Nexal.Proofs.TapeView
import Nexal.Proofs.TapeAppend
import Nexal.Proofs.WireRoundTrip
import Nexal.Proofs.ConnectionOnce
import Nexal.Proofs.ConnectionDrain
import Nexal.Proofs.RunCommand
import Nexal.Proofs.AgentConnClosed
import Nexal.Proofs.AgentChannelEnd
import Nexal.Proofs.AgentBounce
import Nexal.Proofs.SkillsMount
import Nexal.Proofs.DebounceOnce
import Nexal.Proofs.HelloCanonical
import Nexal.Proofs.GatewayRelease
import Nexal.Proofs.ProxyLifetime
import Nexal.Proofs.ProxyRegistry
import Nexal.Proofs.ProxyRollback
import Nexal.Proofs.RequestAnswered
import Nexal.Proofs.ContainerNames
import Nexal.Proofs.SpawnPaths
import Nexal.Proofs.WarmHandout
import Nexal.Proofs.WarmOrphans
import Nexal.Proofs.WorkerTranscript
import Nexal.Proofs.WorkerRestore
import Nexal.Proofs.WorkerIdle
import Nexal.Proofs.WorkerShutdown
import Nexal.Proofs.WorkerSuspend
import Nexal.Proofs.WorkerLimit
import Nexal.Proofs.WorkerTerminal
import Nexal.Proofs.ReconnectOnce
import Nexal.Proofs.TsRequests
import Nexal.Proofs.SessionNotify
import Nexal.Proofs.LocalBroadcast
import Nexal.Proofs.ChannelConverge
import Nexal.Proofs.ChannelStop
import Nexal.Proofs.ChannelOutage
import Nexal.Proofs.WsChannel
import Nexal.Proofs.GitHub
import Nexal.Proofs.HelloReplay
import Nexal.Proofs.HexDecode
import Nexal.Proofs.NonceCache
import Nexal.Proofs.SessionTape
import Nexal.Proofs.InjectedHeaders
import Nexal.Proofs.ProxyPath
import Nexal.Proofs.Relay
import Nexal.Proofs.HeadRewrite
import Nexal.Proofs.ProxyAtomic
import Nexal.Proofs.TreeEdges
import Nexal.Proofs.LocalWake
import Nexal.Proofs.LocalPages
import Nexal.Proofs.StdioFrames
import Nexal.Proofs.TapeConvert
import Nexal.Proofs.MessageJson
import Nexal.Proofs.TapeRecord
import Nexal.Proofs.TapeNormalize
import Nexal.Proofs.TapeBlobs
import Nexal.Proofs.TapeContext
import Nexal.Proofs.EnvSettings
import Nexal.Proofs.TelegramGate
import Nexal.Proofs.StreamReplies
import Nexal.Proofs.GatewayHandshake
import Nexal.Proofs.WebCommands
import Nexal.Proofs.SkillsLookup
import Nexal.Proofs.SkillsReaddir
import Nexal.Proofs.TapeAccess
import Nexal.Proofs.AutoSummary
import Nexal.Proofs.CivilDate
import Nexal.Proofs.TapeStore
import Nexal.Proofs.SkillsRead
import Nexal.Proofs.ModelConfig
import Nexal.Proofs.LocalCopy
import Nexal.Proofs.HeartbeatDead
import Nexal.Proofs.TransportOrder
import Nexal.Proofs.FileSystem
import Nexal.Proofs.WorkerQueue
import Nexal.Proofs.TelegramPoll
import Nexal.Proofs.ChatDelivery
import Nexal.Proofs.Cron
import Nexal.Proofs.ChatTranscript

import IntelligentAcoustics.PoolFifo
import IntelligentAcoustics.PoolSignal
import IntelligentAcoustics.PoolShutdown
import IntelligentAcoustics.PoolDisposal
import IntelligentAcoustics.PoolInit
import IntelligentAcoustics.SinglePlayer
import IntelligentAcoustics.AutoShutdown
import IntelligentAcoustics.Recognition
import IntelligentAcoustics.ForkedServers
import IntelligentAcoustics.MsrShutdown
import IntelligentAcoustics.SongCursor
import IntelligentAcoustics.MusicPlayer
import IntelligentAcoustics.PauseFlag
import IntelligentAcoustics.TwoClients
import IntelligentAcoustics.NullSafety
import IntelligentAcoustics.SongPaths
import IntelligentAcoustics.MalformedMessage
import IntelligentAcoustics.WebCommand
import IntelligentAcoustics.Descriptors
import IntelligentAcoustics.IdleClient
import IntelligentAcoustics.Timeout
import IntelligentAcoustics.CgiMemory
import IntelligentAcoustics.TerminatedMessage
import IntelligentAcoustics.SpokenCommand
import IntelligentAcoustics.Transfer
import IntelligentAcoustics.DeadConnection
import IntelligentAcoustics.RecordCommand
import IntelligentAcoustics.MsrInit
import IntelligentAcoustics.PlayerCommand
import IntelligentAcoustics.PoolProgress
import IntelligentAcoustics.DescriptorLimit
import IntelligentAcoustics.ServerChain
import IntelligentAcoustics.RecordFamily
import IntelligentAcoustics.RequestThreads
import IntelligentAcoustics.RecordShell
import IntelligentAcoustics.SharedPlayer
import IntelligentAcoustics.Deck
import IntelligentAcoustics.MusicPage
import IntelligentAcoustics.FormDelivery
import IntelligentAcoustics.AipSession
import IntelligentAcoustics.SpeechRequest
import IntelligentAcoustics.VoiceCommand

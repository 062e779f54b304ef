import Llamaste.AgentTurn
import Llamaste.ApiKey
import Llamaste.AsyncDownload
import Llamaste.AuthSetup
import Llamaste.BootCounter
import Llamaste.CallReplay
import Llamaste.ChatHandlers
import Llamaste.ChatPrompt
import Llamaste.ClusterElection
import Llamaste.ClusterTopology
import Llamaste.ConversationStore
import Llamaste.CronExact
import Llamaste.CronLanguage
import Llamaste.DataPath
import Llamaste.DeviceLock
import Llamaste.GrammarRetry
import Llamaste.GrubenvRoundTrip
import Llamaste.InstallUpdate
import Llamaste.Installer
import Llamaste.InstallerRetry
import Llamaste.Lib.FileTree
import Llamaste.Lib.JsonDump
import Llamaste.Lib.JsonText
import Llamaste.Lib.JsonWellFormed
import Llamaste.Lib.Machine
import Llamaste.Lib.Text
import Llamaste.Lib.Threads
import Llamaste.Lib.Wire
import Llamaste.LlamaServerRecovery
import Llamaste.LoginLimit
import Llamaste.MdnsAnnouncement
import Llamaste.MdnsCase
import Llamaste.MdnsMessage
import Llamaste.MdnsQueries
import Llamaste.ModelChoice
import Llamaste.GptGrow
import Llamaste.GptKept
import Llamaste.McpServer
import Llamaste.ModelTransfers
import Llamaste.MountData
import Llamaste.NetworkConfig
import Llamaste.Notifications
import Llamaste.ParsedCalls
import Llamaste.Residue
import Llamaste.PartFile
import Llamaste.PeerIntake
import Llamaste.RootPartition
import Llamaste.RunnableTasks
import Llamaste.SavedPassword
import Llamaste.SchedulerErrors
import Llamaste.SchedulerRestart
import Llamaste.SemanticCache
import Llamaste.SessionCookie
import Llamaste.Sessions
import Llamaste.SiblingPartition
import Llamaste.Slot
import Llamaste.TensorSplit
import Llamaste.UpdateBoots
import Llamaste.WifiConnect
import Llamaste.WifiCredentials
import Llamaste.WifiMask
import Llamaste.WifiScan
import Llamaste.ModelPaths
import Llamaste.UsbImport
import Llamaste.VersionOrder
import Llamaste.ShardGroups
import Llamaste.Alerts
import Llamaste.ShortenedTexts
import Llamaste.ClusterGroup
import Llamaste.Settings
import Llamaste.CpuTopology
import Llamaste.Lib.Limbs
import Llamaste.Lib.Primality
import Llamaste.Lib.Sha2
import Llamaste.TweetCurve
import Llamaste.TweetEncoding
import Llamaste.TweetHash
import Llamaste.TweetPoint
import Llamaste.TweetScalar
import Llamaste.TweetSign
import Llamaste.TwistedEdwards
import Llamaste.UpdatePackage

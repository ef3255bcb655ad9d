import Citizen.Resources.EventQuota
import Citizen.Resources.EventBounds
import Citizen.Resources.EventSources
import Citizen.Clone.AckSoundness
import Citizen.State.FrameWindow
import Citizen.State.TrainCallers
import Citizen.Bags.BagTargets
import Citizen.State.ArrayHandler
import Citizen.State.PlayerSlots
import Citizen.State.WorldGrid
import Citizen.Clone.ObjectStore
import Citizen.Clone.StreamAgreement
import Citizen.State.IdExclusivity
import Citizen.State.AckedBases
import Citizen.Net.BitStreamLayout
import Citizen.Net.StreamFraming
import Citizen.Console.RestoredVariables
import Citizen.Registry.NetIdWrap
import Citizen.Registry.ConnectedClients
import Citizen.Resources.DependencyRuns
import Citizen.Scripting.ScriptBuffer
import Citizen.Limits.KeyedRateLimiter
import Citizen.Storage.KvpIsolation
import Citizen.Rpc.ReplayCoherence
import Citizen.Http.Http2Delivery
import Citizen.Connect.Admission
import Citizen.Http.SelfDelimiting
import Citizen.Http.RequestTurns
import Citizen.Packfile.EntryLookup
import Citizen.Packfile.InflatedReads
import Citizen.Packfile.ResourceFilesComponent
import Citizen.Packfile.RoundTrip
import Citizen.State.Pool
import Citizen.State.ObjectIdSearch
import Citizen.Net.SignedFields
import Citizen.State.ClonePacketBits
import Citizen.Http.FormData
import Citizen.Net.ObjectIdList
import Citizen.Resources.Rescan
import Citizen.Resources.ResourceTables
import Citizen.Resources.EventAcceptance
import Citizen.Bags.UpdateDelivery
import Citizen.Console.Comments
import Citizen.Security.TicketReads
import Citizen.Net.MessageBufferClone
import Citizen.Security.AceCommands
import Citizen.Console.VariableRegistry
import Citizen.Console.TrackedVariable
import Citizen.Console.CommandDispatch
import Citizen.State.NetGameEvents
import Citizen.Registry.ConnectionUsage
import Citizen.Http.Endpoints
import Citizen.Net.ReverseTcp
import Citizen.Http.FileServing
import Citizen.Bags.ClientBags
import Citizen.Http.ProtocolDetection
import Citizen.Vfs.Manager
import Citizen.Registry.HostVotes
import Citizen.Net.TcpListenManager
import Citizen.Resources.EventDispatch
import Citizen.Core.Event
import Citizen.Core.RefRuns
import Citizen.Console.ConfigurationAutosave
import Citizen.Scripting.FilesystemPermissions
import Citizen.Resources.StreamingList
import Citizen.Sync.VehicleAppearance
import Citizen.Resources.MetaDataLocations
import Citizen.Sync.TimeSync
import Citizen.Scripting.CoroutineRepeat
import Citizen.Scripting.CancelledWaits
import Citizen.Resources.BuildTasks
import Citizen.Clone.ObjectIdPool
import Citizen.Scripting.MsgPackInStep

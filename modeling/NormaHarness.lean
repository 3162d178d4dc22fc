import NormaHarness.Executions
import NormaHarness.OrderedMaps
import NormaHarness.Identifiers
import NormaHarness.Contracts
import NormaHarness.RegistrationFlow
import NormaHarness.RegistrationIdentity
import NormaHarness.RegistrationDiscovery
import NormaHarness.Media
import NormaHarness.MediaUrls
import NormaHarness.LlmProtocol
import NormaHarness.CodexWorker
import NormaHarness.OriginAuthenticity
import NormaHarness.ChatRooms
import NormaHarness.ChatStorage
import NormaHarness.ChatResident
import NormaHarness.ChatRuns
import NormaHarness.ErrorAtomicity
import NormaHarness.ToolProtocol
import NormaHarness.ChatContext
import NormaHarness.ContextSnapshot
import NormaHarness.ContextNoninterference
import NormaHarness.Relays
import NormaHarness.RoomTools
import NormaHarness.RelayCorrelation
import NormaHarness.Asks
import NormaHarness.TurnCorrelation
import NormaHarness.SnapshotRecovery
import NormaHarness.BackupFallback
import NormaHarness.RoomEdits
import NormaHarness.RoomHistories
import NormaHarness.IncognitoContainment
import NormaHarness.RoomLifecycle
import NormaHarness.ServerRuns
import NormaHarness.Durability
import NormaHarness.CodexMailbox
import NormaHarness.DrainingReplies
import NormaHarness.RuntimeFlow
import NormaHarness.OneHopRouting
import NormaHarness.Rounds
import NormaHarness.MemberTurns
import NormaHarness.RoundRooms
import NormaHarness.RoundProgress
import NormaHarness.SessionInvariant
import NormaHarness.MemberContexts
import NormaHarness.ContributionContexts
import NormaHarness.IndexedSets
import NormaHarness.RegistryRefinement
import NormaHarness.DirectRooms
import NormaHarness.AppServer
import NormaHarness.CallDemultiplexing
import NormaHarness.MemoryManager
import NormaHarness.MemorySaves
import NormaHarness.MemoryFacts
import NormaHarness.MemoryCursors
import NormaHarness.TurnExecution
import NormaHarness.ProviderThreads
import NormaHarness.MediaFiles
import NormaHarness.RegisteredMedia
import NormaHarness.SnapshotRestore
import NormaHarness.WebUploads
import NormaHarness.RoundLedger
import NormaHarness.RoundAccounting
import NormaHarness.ToolAuthority
import NormaHarness.TurnNotifications
import NormaHarness.ContextPaging
import NormaHarness.BoundedSelection
import NormaHarness.Leases
import NormaHarness.CursorPaging
import NormaHarness.HotMemory
import NormaHarness.RejectedRequests
import NormaHarness.PresenceHistory
import NormaHarness.FirstOccurrences
import NormaHarness.MentionSelection
import NormaHarness.MentionScans
import NormaHarness.MentionSentences
import NormaHarness.MemberAddressing
import NormaHarness.ByteSlices
import NormaHarness.MemoryExtraction
import NormaHarness.NameSupplies
import NormaHarness.MediaCounters
import NormaHarness.ConversationFiles
import NormaHarness.Broadcasts
import NormaHarness.RoomViewers
import NormaHarness.ThreadRestarts
import NormaHarness.StoredContents
import NormaHarness.TurnExchange
import NormaHarness.ServerHistory
import NormaHarness.MemorySources
import NormaHarness.MemoryRuns
import NormaHarness.SleepOffers
import NormaHarness.CallCorrelation
import NormaHarness.FileViews
import NormaHarness.SnapshotFormat
import NormaHarness.CounterBounds

import Routerd.ByteMemory
import Routerd.NumeralText
import Routerd.Inet4Text
import Routerd.Inet6Text
import Routerd.Inet6Reader
import Routerd.Inet6RoundTrip
import Routerd.KeyedUpdates
import Routerd.OverwriteStore
import Routerd.RtattrTable
import Routerd.NetlinkMessages
import Routerd.VppApi
import Routerd.VppSession
import Routerd.NetlinkHooks
import Routerd.HookEffects
import Routerd.DaemonRuns
import Routerd.RouteHookEffects
import Routerd.UnpairedInterfaces
import Routerd.Ipv4RouteRequests
import Routerd.Srv6LocalSids
import Routerd.LinkCacheSync
import Routerd.LinkAdminState
import Routerd.RouteTableMirror
import Routerd.InterfaceAddressMirror
import Routerd.PartialInverse
import Routerd.CplaneNetdev
import Routerd.TapTables
import Routerd.TapInvariant
import Routerd.TapTableInverse
import Routerd.TapIndependence
import Routerd.ReceiveBuffers
import Routerd.PairTableSync
import Routerd.TapInjectRequests
import Routerd.EnableOutcome
import Routerd.TapInjectFrames
import Routerd.SlotTable
import Routerd.TapMirror
import Routerd.MirrorHooks
import Routerd.MirrorFailures
import Routerd.MirrorTaps
import Routerd.MirrorLifetimes
import Routerd.RedirectorEvents
import Routerd.EventBatches
import Routerd.ObservedRuns
import Routerd.AlikeMirrors
import Routerd.DoubleEnable
import Routerd.NetlinkSocket
import Routerd.NetlinkDelivery
import Routerd.NetlinkBounds
import Routerd.NetlinkTermination
import Routerd.RtattrLayout
import Routerd.RequestAttributes
import Routerd.AttributeWindow
import Routerd.SummaryWalks
import Routerd.LinkCache
import Routerd.LinkReadBack
import Routerd.LinkCommands
import Routerd.AttributeText
import Routerd.LinkSummaries
import Routerd.LinkDifferences
import Routerd.AccessLog
import Routerd.AttributeAccess
import Routerd.RouteCommands
import Routerd.RouteSummaries
import Routerd.AssertedLengths
import Routerd.MessageSummaries
import Routerd.NextHopLists
import Routerd.AttributePlaces
import Routerd.LegibleAttributes
import Routerd.SummaryLines
import Routerd.EncapOrder
import Routerd.CommandLengths
import Routerd.SidCommands
import Routerd.NestedAttributes
import Routerd.AttributeReads
import Routerd.ReadSafety
import Routerd.LackingAttributes
import Routerd.AttributeBounds
import Routerd.EncapRoutes
import Routerd.StaleTables
import Routerd.SegmentLists
import Routerd.Dialogue
import Routerd.VppCommands
import Routerd.HookSessions
import Routerd.OneExchange
import Routerd.CommandOutcomes
import Routerd.SessionDiscipline
import Routerd.FifoPeer
import Routerd.InterfaceListing
import Routerd.SharedConnection
import Routerd.RequestDecoding
import Routerd.CommandMatch
import Routerd.CommandNodes
import Routerd.PrefixAgreement
import Routerd.CaptureFiles
import Routerd.CaptureBounds
import Routerd.Contest
import Routerd.CommandTokens
import Routerd.CommandGraph
import Routerd.CommandSearch
import Routerd.WalkLanguages
import Routerd.CommandSyntax
import Routerd.CommandParse
import Routerd.CommandLanguage
import Routerd.HeapOrder
import Routerd.PriorityQueue
import Routerd.TaskQueues
import Routerd.ThreadCancel
import Routerd.ThreadOrder
import Routerd.ThreadPolling
import Routerd.ThreadReports
import Routerd.OutputRuns

import BoostConnector.Ftx.CloseRequest
import BoostConnector.Ftx.ChannelOwnership
import BoostConnector.Ftx.EventsOnce
import BoostConnector.Ftx.ConnectionTruth
import BoostConnector.Collections.SortedSet
import BoostConnector.Json.Equality
import BoostConnector.Json.Path
import BoostConnector.Collections.SortByKey
import BoostConnector.Json.Digest
import BoostConnector.Entity.Key
import BoostConnector.Entity.KeyPool
import BoostConnector.Entity.KeyEquality
import BoostConnector.Ftx.TasksTogether
import BoostConnector.Ftx.SubscriptionMove
import BoostConnector.Ftx.ClosedSubscription
import BoostConnector.Ftx.MessageIsolation
import BoostConnector.Text.Regex
import BoostConnector.Util.AsyncQueue
import BoostConnector.Util.Url
import BoostConnector.Collections.LayerHeap
import BoostConnector.Property.PropertyMap
import BoostConnector.Property.FixedMap
import BoostConnector.Property.Derivation
import BoostConnector.Entity.KeyUses
import BoostConnector.Json.Reordered
import BoostConnector.Entity.KeyReordering
import BoostConnector.Entity.LifetimePtr
import BoostConnector.Entity.LifetimeControl
import BoostConnector.Json.Layout
import BoostConnector.Collections.LowerBound
import BoostConnector.Collections.TopEntries
import BoostConnector.Entity.KeyLayout
import BoostConnector.Types.BidLadder
import BoostConnector.Types.BookTop
import BoostConnector.Types.BidDeletion
import BoostConnector.Json.Position
import BoostConnector.Ftx.PingPong
import BoostConnector.Property.PropertyValue
import BoostConnector.Property.TypedBox
import BoostConnector.Util.AsyncLatch
import BoostConnector.Property.BoxLifetimes
import BoostConnector.Ftx.TimedPinger
import BoostConnector.Entity.DigestText
import BoostConnector.Util.AsyncCircularBuffer
import BoostConnector.Ftx.ProcessEvent
import BoostConnector.Util.ConnectRange
import BoostConnector.Util.UrlGrammar
import BoostConnector.Ftx.Progress
import BoostConnector.Ftx.ResponseRouting
import BoostConnector.Ftx.ConnectionWaits
import BoostConnector.Dependency.DependencyMap
import BoostConnector.Ftx.VenueAgreement
import BoostConnector.Ftx.VenueRest
import BoostConnector.Ftx.ConnectorLifetime
import BoostConnector.Ftx.PingSchedule
import BoostConnector.Ftx.WantedChannels

import BitTorrent.Clients.HttpRequest
import BitTorrent.Clients.RangeAnswers
import BitTorrent.Core.BlockRetry
import BitTorrent.Core.BrokenTorrents
import BitTorrent.Core.CacheIntegrity
import BitTorrent.Core.HashRequests
import BitTorrent.Core.HybridCompleteness
import BitTorrent.Core.MagnetSelection
import BitTorrent.Core.PieceSearch
import BitTorrent.Core.PureV2
import BitTorrent.Core.TreeRecursion
import BitTorrent.Core.UpgradedLayout
import BitTorrent.Core.WholePieces
import BitTorrent.Network.DhtNodes
import BitTorrent.Network.EncryptedSocket
import BitTorrent.Network.Framing
import BitTorrent.Network.HttpAnnouncer
import BitTorrent.Network.PeerSafety
import BitTorrent.Network.PexRounds
import BitTorrent.Network.Tracker
import BitTorrent.Network.UtpHeader
import BitTorrent.Network.UtpTiming
import BitTorrent.Session.Discovery
import BitTorrent.Session.DiscoveryQueue
import BitTorrent.Session.Emissions
import BitTorrent.Session.HaveBroadcast
import BitTorrent.Session.MagnetMemory
import BitTorrent.Storage.CacheAccounts
import BitTorrent.Storage.CacheRead
import BitTorrent.Storage.DiskBlockStorage
import BitTorrent.Storage.PieceLengths
import BitTorrent.Storage.ResumeRoundTrip
import BitTorrent.Storage.StreamReading
import BitTorrent.Storage.VerificationPool
